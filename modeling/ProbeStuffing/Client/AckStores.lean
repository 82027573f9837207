import ProbeStuffing.Client.GetAck
import ProbeStuffing.Lib.Register

/-!
# The stores of `get_ack`

`get_ack` writes to one integer, once for each ACK element it meets, whatever it
has written before.  `ScanEntry.acks` lists the numbers of an entry, and the
integer is a register that all entries of a dump write to (`getAckDump_eq`).  On a
well-formed list this is a fold over the elements (`getAck_encode`).

The comparison with `seq_num` comes after the whole dump.  It should find the
number if any entry has it, and the kernel lists the entries in no particular
order.  Both hold exactly if no entry has the number, or each entry that has any
number ends with this one (`orderIndependent_iff`).
-/

namespace ProbeStuffing.Client

open CString Tlv Register

/-! ## Numbers -/

/-- The payloads of the ACK elements in the loop of `get_ack`. -/
def ackPayloads (slack : Bytes) : Nat → Bytes → List Bytes
  | fuel + 1, id :: len :: data =>
      if len.toNat ≤ data.length + 2 then
        (if id = 221 then (extractAckFromVendorIe len (data ++ slack)).toList else []) ++
          ackPayloads slack fuel (data.drop len.toNat)
      else []
  | _, _ => []

/-- The numbers of the ACK elements of an entry. -/
def ScanEntry.acks (entry : ScanEntry) : List Int :=
  if entry.bss && entry.bssid then
    match entry.informationElements with
    | some ies => (ackPayloads entry.slack ies.length ies).map atoi
    | none => []
  else []

theorem getAckWalk_eq_written (slack : Bytes) : ∀ (fuel : Nat) (ies : Bytes) (ackSeqNum : Int),
    getAckWalk slack fuel ies ackSeqNum =
      written ackSeqNum ((ackPayloads slack fuel ies).map atoi)
  | fuel + 1, id :: len :: data, ackSeqNum => by
      rw [getAckWalk, ackPayloads]
      split
      · rw [List.map_append, written_append, getAckWalk_eq_written slack fuel]
        split
        · cases extractAckFromVendorIe len (data ++ slack) with
          | none => rfl
          | some ackSeqNumStr => rfl
        · rfl
      · rfl
  | fuel + 1, [_], ackSeqNum => rfl
  | fuel + 1, [], ackSeqNum => rfl
  | 0, _, ackSeqNum => rfl

/-- `get_ack` stores the numbers of its entry in order. -/
theorem getAck_eq (ackSeqNum : Int) (entry : ScanEntry) :
    getAck ackSeqNum entry = written ackSeqNum entry.acks := by
  rw [getAck, ScanEntry.acks]
  split
  · cases entry.informationElements with
    | none => rfl
    | some ies => exact getAckWalk_eq_written _ _ _ _
  · rfl

/-- A dump stores those of all its entries. -/
theorem getAckDump_eq (ackSeqNum : Int) (dump : List ScanEntry) :
    getAckDump ackSeqNum dump = written ackSeqNum (dump.flatMap ScanEntry.acks) := by
  have hentry (acc : Int) (entry : ScanEntry) :
      id (getAck acc entry) = written (id acc) entry.acks := getAck_eq acc entry
  exact written_foldl hentry ackSeqNum dump

/-! ## Well-formed lists -/

/-- The payload of an ACK element. -/
def ackPayload (e : Element) : List Bytes := if IsAck e then [e.body.drop 3] else []

theorem ackPayloads_nil (slack : Bytes) (fuel : Nat) : ackPayloads slack fuel [] = [] := by
  cases fuel with
  | zero => rfl
  | succ fuel => rfl

theorem ackPayloads_cons (slack : Bytes) (fuel : Nat) (e : Element) (rest : Bytes) :
    ackPayloads slack (fuel + 1) (e.bytes ++ rest) =
      ackPayload e ++ ackPayloads slack fuel rest := by
  have hlen : e.body.length ≤ (e.body ++ rest).length + 2 := by
    rw [List.length_append]
    omega
  have hpayload : (if e.id = 221 then
      (extractAckFromVendorIe e.len (e.body ++ rest ++ slack)).toList else []) =
        ackPayload e := by
    rw [List.append_assoc, extractAck_body, ackPayload]
    split
    · next hid =>
        have hack : IsAck e ↔ 4 ≤ e.body.length ∧ e.body.take 3 = [1, 2, 3] :=
          ⟨fun h => h.2.symm, fun h => ⟨hid, h.symm⟩⟩
        simp only [hack]
        split <;> rfl
    · next hid => rw [if_neg fun h => hid h.1]
  simp only [Element.bytes, List.cons_append, ackPayloads, Element.len_toNat, hlen, if_true,
    List.drop_left]
  rw [hpayload]

/-- On a well-formed list the numbers are those of its ACK elements. -/
theorem acks_encode (es : List Element) (slack : Bytes) :
    ScanEntry.acks { informationElements := some (encode es), slack := slack } =
      (es.flatMap ackPayload).map atoi := by
  show (ackPayloads slack (encode es).length (encode es)).map atoi = _
  rw [walk_encode (ackPayloads_nil slack) (ackPayloads_cons slack)]
  induction es with
  | nil => rfl
  | cons e es ih => rw [List.foldr_cons, List.flatMap_cons, List.map_append, ih, List.map_append]

theorem written_ackPayload (ackSeqNum : Int) (es : List Element) :
    written ackSeqNum ((es.flatMap ackPayload).map atoi) = es.foldl ackElement ackSeqNum := by
  have helement (acc : Int) (e : Element) :
      id (ackElement acc e) = written (id acc) ((ackPayload e).map atoi) := by
    rw [ackPayload, ackElement]
    split
    · rfl
    · rfl
  rw [List.map_flatMap]
  exact (written_foldl helement ackSeqNum es).symm

/-- There the walk is a fold over the elements. -/
theorem getAck_encode (ackSeqNum : Int) (es : List Element) (slack : Bytes) :
    getAck ackSeqNum { informationElements := some (encode es), slack := slack } =
      es.foldl ackElement ackSeqNum := by
  rw [getAck_eq, acks_encode, written_ackPayload]

/-! ## The order of a dump -/

/-- The comparison behind a dump has one answer for all orders of the entries,
and it succeeds if any entry has an ACK element for `seq_num`. -/
structure OrderIndependent (ackSeqNum : Int) (seqNum : Nat) (dump : List ScanEntry) : Prop where
  sameAnswer : ∀ first second : List ScanEntry, first.Perm dump → second.Perm dump →
    (getAckDump ackSeqNum first = seqNum ↔ getAckDump ackSeqNum second = seqNum)
  found : (∃ entry ∈ dump, (seqNum : Int) ∈ entry.acks) →
    ∀ order : List ScanEntry, order.Perm dump → getAckDump ackSeqNum order = seqNum

/-- The decision does not depend on the order exactly if `seq_num` is in no entry,
or is the last number of every entry that has one. -/
theorem orderIndependent_iff (ackSeqNum : Int) (seqNum : Nat) (dump : List ScanEntry) :
    OrderIndependent ackSeqNum seqNum dump ↔
      (∀ entry ∈ dump, (seqNum : Int) ∉ entry.acks) ∨
        ∀ entry ∈ dump, ∀ v, entry.acks.getLast? = some v → v = seqNum := by
  have hregister := @order_independent_iff Int ScanEntry ScanEntry.acks ackSeqNum seqNum dump
  rw [← hregister]
  constructor
  · rintro ⟨hsame, hfound⟩
    refine ⟨fun order hperm => ?_, fun h => ?_⟩
    · rw [← getAckDump_eq, ← getAckDump_eq]
      exact hsame order dump hperm (.refl dump)
    · rw [← getAckDump_eq]
      exact hfound h dump (.refl dump)
  · rintro ⟨hsame, hfound⟩
    have hanswer : ∀ order : List ScanEntry, order.Perm dump →
        (getAckDump ackSeqNum order = seqNum ↔ getAckDump ackSeqNum dump = seqNum) := by
      intro order hperm
      rw [getAckDump_eq, getAckDump_eq]
      exact hsame order hperm
    refine ⟨fun first second h₁ h₂ => (hanswer first h₁).trans (hanswer second h₂).symm, ?_⟩
    intro h order hperm
    rw [hanswer order hperm, getAckDump_eq]
    exact hfound h

/-- An entry with the ACK `0`, and one with the ACK `1`. -/
def twoPending : List ScanEntry :=
  [{ informationElements := some [221, 4, 1, 2, 3, 48] },
    { informationElements := some [221, 4, 1, 2, 3, 49] }]

theorem not_orderIndependent_twoPending : ¬ OrderIndependent (-1) 0 twoPending := by
  intro h
  have hfound : getAckDump (-1) twoPending = 0 :=
    h.found ⟨_, List.mem_cons_self, by decide⟩ twoPending (.refl _)
  exact absurd hfound (by decide)

end ProbeStuffing.Client

import ProbeStuffing.Client.AckStores

/-!
# The bounds of the walk over the elements

`get_ack` walks the attribute with a pointer and a signed count of what is left.
Here the walk runs on the memory from the attribute on, the attribute being its
front, and lists what happens: the visits of the loop body, the bytes read, and
the numerals found.  The count gets smaller by two or more with each visit, so
the walk ends.

The numerals are those of the model without pointers (`acks_getAckEvents`), so
both describe one loop.

Complete elements are visited one after the other, and nothing behind them is
read.  Of what is left then, the guard lets an element pass that lacks one or two
bytes.  It is read past the end if it is a vendor element that claims four bytes
or more and is not told apart from an ACK before (`staysInside_iff`).
-/

namespace ProbeStuffing.Client

open CString Tlv

/-! ## Events -/

/-- What the loop does. -/
inductive WalkEvent where
  /-- The loop body runs on the element at `pos`. -/
  | visit (pos : Nat)
  /-- The byte `index` is read. -/
  | read (index : Nat)
  /-- `atoi` is called on this string. -/
  | ack (ackSeqNumStr : Bytes)
deriving DecidableEq

/-- The byte at an index of the memory. -/
def byteAt (mem : Bytes) (index : Nat) : UInt8 := mem.getD index 0

/-- `extract_ack_from_vendor_ie` on the data at `data`.  The call of `memcmp` may
read all its three bytes. -/
def extractEvents (mem : Bytes) (len : UInt8) (data : Nat) : List WalkEvent :=
  (if 4 ≤ len.toNat then [.read data, .read (data + 1), .read (data + 2)] else []) ++
    match extractAckFromVendorIe len (mem.drop data) with
    | some ackSeqNumStr =>
        (List.range (len.toNat - 3)).map (fun i : Nat => .read (data + (i + 3))) ++
          [.ack ackSeqNumStr]
    | none => []

/-- The loop body on the element at `ies`, whose length byte is `len`. -/
def visitEvents (mem : Bytes) (ies : Nat) (len : UInt8) : List WalkEvent :=
  .visit ies :: .read ies ::
    ((if byteAt mem ies = 221 then .read (ies + 1) :: extractEvents mem len (ies + 2) else []) ++
      [.read (ies + 1), .read (ies + 1)])

/-- The loop of `get_ack`, with `ies` as an index into the memory. -/
def walkEvents (mem : Bytes) (ies : Nat) (iesLen : Int) : List WalkEvent :=
  if iesLen < 2 then []
  else
    let len := byteAt mem (ies + 1)
    .read (ies + 1) ::
      if iesLen < len.toNat then []
      else
        visitEvents mem ies len ++ walkEvents mem (ies + (len.toNat + 2)) (iesLen - (len.toNat + 2))
termination_by iesLen.toNat
decreasing_by omega

/-- `get_ack` on an attribute with `slack` behind it. -/
def getAckEvents (ies slack : Bytes) : List WalkEvent := walkEvents (ies ++ slack) 0 ies.length

/-- The elements visited. -/
def visits (events : List WalkEvent) : List Nat :=
  events.filterMap fun event => match event with
    | .visit pos => some pos
    | _ => none

/-- The strings given to `atoi`. -/
def acks (events : List WalkEvent) : List Bytes :=
  events.filterMap fun event => match event with
    | .ack ackSeqNumStr => some ackSeqNumStr
    | _ => none

/-- All bytes read are in front of `size`. -/
def ReadsBelow (size : Nat) (events : List WalkEvent) : Prop :=
  ∀ index, .read index ∈ events → index < size

theorem visits_append (first second : List WalkEvent) :
    visits (first ++ second) = visits first ++ visits second :=
  List.filterMap_append

theorem acks_append (first second : List WalkEvent) :
    acks (first ++ second) = acks first ++ acks second :=
  List.filterMap_append

theorem readsBelow_append {size : Nat} {first second : List WalkEvent} :
    ReadsBelow size (first ++ second) ↔ ReadsBelow size first ∧ ReadsBelow size second := by
  constructor
  · intro h
    exact ⟨fun i hi => h i (List.mem_append_left second hi),
      fun i hi => h i (List.mem_append_right first hi)⟩
  · rintro ⟨hfirst, hsecond⟩ i hi
    rcases List.mem_append.mp hi with hi | hi
    · exact hfirst i hi
    · exact hsecond i hi

@[simp] theorem readsBelow_nil (size : Nat) : ReadsBelow size [] :=
  fun _ hi => absurd hi List.not_mem_nil

@[simp] theorem readsBelow_read {size index : Nat} {events : List WalkEvent} :
    ReadsBelow size (.read index :: events) ↔ index < size ∧ ReadsBelow size events := by
  simp [ReadsBelow]

@[simp] theorem readsBelow_visit {size pos : Nat} {events : List WalkEvent} :
    ReadsBelow size (.visit pos :: events) ↔ ReadsBelow size events := by
  simp [ReadsBelow]

@[simp] theorem readsBelow_ack {size : Nat} {s : Bytes} {events : List WalkEvent} :
    ReadsBelow size (.ack s :: events) ↔ ReadsBelow size events := by
  simp [ReadsBelow]

/-- A loop of reads. -/
theorem readsBelow_range {size data n : Nat} :
    ReadsBelow size ((List.range n).map fun i : Nat => .read (data + (i + 3))) ↔
      n = 0 ∨ data + (n + 2) < size := by
  simp only [ReadsBelow, List.mem_map, List.mem_range, WalkEvent.read.injEq]
  constructor
  · intro h
    cases n with
    | zero => exact .inl rfl
    | succ n => exact .inr (h _ ⟨n, Nat.lt_succ_self n, rfl⟩)
  · rintro h index ⟨i, hi, rfl⟩
    omega

/-! ## One element -/

/-- The body of the loop reads its element and no further, if it is complete. -/
theorem extractEvents_below {mem : Bytes} {len : UInt8} {data size : Nat}
    (h : data + len.toNat ≤ size) : ReadsBelow size (extractEvents mem len data) := by
  rw [extractEvents, readsBelow_append]
  constructor
  · split
    · simp
      omega
    · simp
  · cases hack : extractAckFromVendorIe len (mem.drop data) with
    | none => simp
    | some ackSeqNumStr =>
        rw [readsBelow_append, readsBelow_range]
        simp
        omega

theorem visitEvents_below_iff {mem : Bytes} {ies size : Nat} {len : UInt8} (h : ies + 1 < size) :
    ReadsBelow size (visitEvents mem ies len) ↔
      (byteAt mem ies = 221 → ReadsBelow size (extractEvents mem len (ies + 2))) := by
  have hies : ies < size := Nat.lt_of_succ_lt h
  rw [visitEvents, readsBelow_visit, readsBelow_read, readsBelow_append]
  split
  · next hid => simp [hid, h, hies]
  · next hid =>
      constructor
      · exact fun _ h221 => absurd h221 hid
      · intro _
        simp [h, hies]

theorem visitEvents_below {mem : Bytes} {ies size : Nat} {len : UInt8}
    (h : ies + (len.toNat + 2) ≤ size) : ReadsBelow size (visitEvents mem ies len) := by
  rw [visitEvents_below_iff (by omega)]
  exact fun _ => extractEvents_below (by omega)

section FilterMap

variable {α : Type} {f : WalkEvent → Option α} (hread : ∀ index, f (.read index) = none)

include hread

/-- What is kept of the events of one element, if the reads are not. -/
theorem filterMap_extractEvents (mem : Bytes) (len : UInt8) (data : Nat) :
    (extractEvents mem len data).filterMap f =
      (extractAckFromVendorIe len (mem.drop data)).toList.filterMap fun s => f (.ack s) := by
  have hcompared : (if 4 ≤ len.toNat then [.read data, .read (data + 1), .read (data + 2)]
      else []).filterMap f = [] := by
    split
    · simp [hread]
    · rfl
  rw [extractEvents, List.filterMap_append, hcompared, List.nil_append]
  cases extractAckFromVendorIe len (mem.drop data) with
  | none => rfl
  | some ackSeqNumStr =>
      have hcopied : ((List.range (len.toNat - 3)).map
          fun i : Nat => WalkEvent.read (data + (i + 3))).filterMap f = [] := by
        simp [hread]
      dsimp only
      rw [List.filterMap_append, hcopied]
      rfl

theorem filterMap_visitEvents (mem : Bytes) (ies : Nat) (len : UInt8) :
    (visitEvents mem ies len).filterMap f =
      (f (.visit ies)).toList ++
        if byteAt mem ies = 221 then
          (extractAckFromVendorIe len (mem.drop (ies + 2))).toList.filterMap fun s => f (.ack s)
        else [] := by
  have hvisit : ∀ events : List WalkEvent,
      (WalkEvent.visit ies :: events).filterMap f =
        (f (.visit ies)).toList ++ events.filterMap f := by
    intro events
    cases hf : f (.visit ies) with
    | none => simp [hf]
    | some v => simp [hf]
  rw [visitEvents, hvisit, List.filterMap_cons_none (hread ies), List.filterMap_append]
  split
  · rw [List.filterMap_cons_none (hread _), filterMap_extractEvents hread]
    simp [hread]
  · simp [hread]

end FilterMap

theorem visits_visitEvents (mem : Bytes) (ies : Nat) (len : UInt8) :
    visits (visitEvents mem ies len) = [ies] := by
  rw [visits, filterMap_visitEvents fun _ => rfl]
  simp

theorem acks_visitEvents (mem : Bytes) (ies : Nat) (len : UInt8) :
    acks (visitEvents mem ies len) =
      if byteAt mem ies = 221 then (extractAckFromVendorIe len (mem.drop (ies + 2))).toList
      else [] := by
  rw [acks, filterMap_visitEvents fun _ => rfl]
  simp

/-! ## The loop -/

theorem byteAt_length (pre : Bytes) (b : UInt8) (post : Bytes) :
    byteAt (pre ++ b :: post) pre.length = b := by
  simp [byteAt]

theorem byteAt_length_succ (pre : Bytes) (b c : UInt8) (post : Bytes) :
    byteAt (pre ++ b :: c :: post) (pre.length + 1) = c := by
  simp [byteAt]

theorem walkEvents_of_lt (mem : Bytes) (ies : Nat) {iesLen : Int} (h : iesLen < 2) :
    walkEvents mem ies iesLen = [] := by
  rw [walkEvents, if_pos h]

/-- One round of the loop at an element whose two header bytes are there. -/
theorem walkEvents_header (pre : Bytes) (id len : UInt8) (data : Bytes) (left : Nat) :
    walkEvents (pre ++ id :: len :: data) pre.length (left + 2 : Nat) =
      .read (pre.length + 1) ::
        if left + 2 < len.toNat then []
        else
          visitEvents (pre ++ id :: len :: data) pre.length len ++
            walkEvents (pre ++ id :: len :: data) (pre.length + (len.toNat + 2))
              ((left : Int) - len.toNat) := by
  have htwo : ¬ ((left + 2 : Nat) : Int) < 2 := by omega
  have hleft : ((left + 2 : Nat) : Int) - (len.toNat + 2) = (left : Int) - len.toNat := by omega
  rw [walkEvents, if_neg htwo]
  simp only [byteAt_length_succ, hleft]
  norm_cast

/-- The round of a complete element. -/
theorem walkEvents_element (pre : Bytes) (e : Element) (post : Bytes) (left : Nat) :
    walkEvents (pre ++ (e.bytes ++ post)) pre.length (e.bytes.length + left : Nat) =
      .read (pre.length + 1) ::
        (visitEvents (pre ++ (e.bytes ++ post)) pre.length e.len ++
          walkEvents (pre ++ (e.bytes ++ post)) (pre.length + e.bytes.length) left) := by
  have hround := walkEvents_header pre e.id e.len (e.body ++ post) (e.body.length + left)
  have hguard : ¬ e.body.length + left + 2 < e.len.toNat := by
    rw [e.len_toNat]
    omega
  have hleft : ((e.body.length + left : Nat) : Int) - e.len.toNat = left := by simp
  have hlen : e.bytes.length + left = e.body.length + left + 2 :=
    Nat.add_right_comm e.body.length 2 left
  rw [if_neg hguard, hleft, e.len_toNat] at hround
  rw [hlen]
  exact hround

/-- The numerals of the loop without pointers.  Its fuel lasts as long as it is
not less than what is left. -/
theorem acks_walkEvents (slack : Bytes) : ∀ (fuel : Nat) (pre rest : Bytes), rest.length ≤ fuel →
    acks (walkEvents (pre ++ (rest ++ slack)) pre.length rest.length) = ackPayloads slack fuel rest
  | fuel, pre, [], _ => by
      rw [ackPayloads_nil, walkEvents_of_lt _ _ (by decide)]
      rfl
  | fuel, pre, [b], _ => by
      rw [walkEvents_of_lt _ _ (by simp)]
      cases fuel with
      | zero => rfl
      | succ fuel => rfl
  | 0, _, _ :: _ :: _, h => absurd h (Nat.not_succ_le_zero _)
  | fuel + 1, pre, id :: len :: data, h => by
      have hround := walkEvents_header pre id len (data ++ slack) data.length
      have hread : ∀ events : List WalkEvent,
          acks (.read (pre.length + 1) :: events) = acks events := fun _ => rfl
      have hdrop : (pre ++ id :: len :: (data ++ slack)).drop (pre.length + 2) = data ++ slack := by
        rw [List.drop_append]
        simp
      show acks (walkEvents (pre ++ id :: len :: (data ++ slack)) pre.length
        (data.length + 2 : Nat)) = _
      rw [hround, hread, ackPayloads]
      by_cases hguard : len.toNat ≤ data.length + 2
      · rw [if_pos hguard, if_neg (Nat.not_lt.mpr hguard), acks_append, acks_visitEvents,
          byteAt_length, hdrop]
        by_cases hcut : data.length < len.toNat
        · have hend : (data.length : Int) - len.toNat < 2 := by omega
          rw [walkEvents_of_lt _ _ hend, List.drop_of_length_le (Nat.le_of_lt hcut),
            ackPayloads_nil]
          rfl
        · have hlen : len.toNat ≤ data.length := Nat.le_of_not_lt hcut
          have hrest := acks_walkEvents slack fuel (pre ++ id :: len :: data.take len.toNat)
            (data.drop len.toNat) (by simp at h ⊢; omega)
          have hmem : pre ++ id :: len :: data.take len.toNat ++ (data.drop len.toNat ++ slack) =
              pre ++ id :: len :: (data ++ slack) := by
            simp [← List.append_assoc (data.take len.toNat)]
          have hpos : (pre ++ id :: len :: data.take len.toNat).length =
              pre.length + (len.toNat + 2) := by
            simp [hlen]
          have hleft : ((data.drop len.toNat).length : Int) = (data.length : Int) - len.toNat := by
            rw [List.length_drop, Int.ofNat_sub hlen]
          rw [hmem, hpos, hleft] at hrest
          rw [hrest]
      · rw [if_neg hguard, if_pos (Nat.lt_of_not_le hguard)]
        rfl

/-- Complete elements are visited in order. -/
theorem visits_walkEvents_encode (post : Bytes) (left : Nat) : ∀ (es : List Element) (pre : Bytes),
    visits (walkEvents (pre ++ (encode es ++ post)) pre.length ((encode es).length + left : Nat)) =
      ((List.range es.length).map fun i : Nat => pre.length + (encode (es.take i)).length) ++
        visits (walkEvents (pre ++ (encode es ++ post)) (pre.length + (encode es).length) left)
  | [], pre => by simp
  | e :: es, pre => by
      have hround := walkEvents_element pre e (encode es ++ post) ((encode es).length + left)
      have hrest := visits_walkEvents_encode post left es (pre ++ e.bytes)
      have hread : ∀ (i : Nat) (events : List WalkEvent),
          visits (.read i :: events) = visits events := fun _ _ => rfl
      rw [List.append_assoc, List.length_append] at hrest
      rw [encode_cons, List.append_assoc, List.length_append, Nat.add_assoc, hround, hread,
        visits_append, visits_visitEvents, hrest, List.length_cons, List.range_succ_eq_map]
      simp [Nat.add_assoc, Function.comp_def]

/-- Their visits read nothing behind them. -/
theorem readsBelow_walkEvents_encode {size : Nat} (post : Bytes) (left : Nat) :
    ∀ (es : List Element) (pre : Bytes), pre.length + (encode es).length ≤ size →
      (ReadsBelow size
          (walkEvents (pre ++ (encode es ++ post)) pre.length ((encode es).length + left : Nat)) ↔
        ReadsBelow size
          (walkEvents (pre ++ (encode es ++ post)) (pre.length + (encode es).length) left))
  | [], pre, _ => by simp
  | e :: es, pre, hsize => by
      have hround := walkEvents_element pre e (encode es ++ post) ((encode es).length + left)
      rw [encode_cons, List.length_append] at hsize
      have hpre : (pre ++ e.bytes).length + (encode es).length ≤ size := by
        rw [List.length_append, Nat.add_assoc]
        exact hsize
      have hrest := readsBelow_walkEvents_encode post left es (pre ++ e.bytes) hpre
      have hvisit : ReadsBelow size
          (visitEvents (pre ++ (e.bytes ++ (encode es ++ post))) pre.length e.len) :=
        visitEvents_below (by rw [e.len_toNat, ← e.length_bytes]; omega)
      have hread : pre.length + 1 < size := by
        rw [e.length_bytes] at hsize
        omega
      rw [List.append_assoc, List.length_append] at hrest
      rw [encode_cons, List.append_assoc, List.length_append, Nat.add_assoc, hround,
        readsBelow_read, readsBelow_append, hrest, Nat.add_assoc]
      exact ⟨fun h => h.2.2, fun h => ⟨hread, hvisit, h⟩⟩

/-! ## The last bytes -/

/-- The last vendor element has these bytes of body, one or two less than its
length byte says.  Its OUI is that of an ACK, or not all there. -/
structure CutAck (len : UInt8) (body : Bytes) : Prop where
  four_le : 4 ≤ len.toNat
  cut : body.length < len.toNat
  admitted : len.toNat ≤ body.length + 2
  oui : body.length = 2 ∨ body.take 3 = [1, 2, 3]

/-- The attribute ends in such an element, with complete elements in front of it. -/
def EndsInCutAck (ies : Bytes) : Prop :=
  ∃ (es : List Element) (len : UInt8) (body : Bytes),
    ies = encode es ++ 221 :: len :: body ∧ CutAck len body

/-- An element that the guard lets pass although it is cut. -/
theorem readsBelow_extractEvents_iff {pre body slack : Bytes} {len : UInt8} {data : Nat}
    (hpre : pre.length = data) (hcut : body.length < len.toNat)
    (hadmitted : len.toNat ≤ body.length + 2) :
    ReadsBelow (data + body.length) (extractEvents (pre ++ (body ++ slack)) len data) ↔
      ¬ CutAck len body := by
  have hdrop : (pre ++ (body ++ slack)).drop data = body ++ slack := by
    rw [← hpre, List.drop_left]
  rw [extractEvents, readsBelow_append, hdrop]
  by_cases hfour : 4 ≤ len.toNat
  · rw [if_pos hfour]
    by_cases htwo : body.length = 2
    · have hlast : ¬ data + 2 < data + body.length := by omega
      have hcutAck : CutAck len body := ⟨hfour, hcut, hadmitted, .inl htwo⟩
      simp [hlast, hcutAck]
    · have hthree : 3 ≤ body.length := by omega
      have htake : (body ++ slack).take 3 = body.take 3 := List.take_append_of_le_length hthree
      have hpast : ¬ (len.toNat - 3 = 0 ∨ data + (len.toNat - 3 + 2) < data + body.length) := by
        omega
      have hcutAck : CutAck len body ↔ body.take 3 = [1, 2, 3] :=
        ⟨fun h => h.oui.resolve_left htwo, fun h => ⟨hfour, hcut, hadmitted, .inr h⟩⟩
      rw [extractAckFromVendorIe, htake, hcutAck]
      by_cases houi : body.take 3 = [1, 2, 3]
      · rw [if_pos ⟨hfour, houi⟩]
        simp only [readsBelow_append, readsBelow_range, hpast, houi]
        simp
      · rw [if_neg fun h => houi h.2]
        simp [houi]
        omega
  · have hcutAck : ¬ CutAck len body := fun h => hfour h.four_le
    simp [extractAckFromVendorIe, hfour, hcutAck]

/-- The bytes that are left start with no complete element. -/
theorem readsBelow_walkEvents_incomplete (pre slack : Bytes) : ∀ rest : Bytes, Incomplete rest →
    (ReadsBelow (pre.length + rest.length)
        (walkEvents (pre ++ (rest ++ slack)) pre.length rest.length) ↔
      ∀ (len : UInt8) (body : Bytes), rest = 221 :: len :: body → ¬ CutAck len body)
  | [], _ => by simp [walkEvents_of_lt]
  | [b], _ => by simp [walkEvents_of_lt]
  | id :: len :: body, hcut => by
      have hround := walkEvents_header pre id len (body ++ slack) body.length
      have hcut : body.length < len.toNat := hcut
      have hread : pre.length + 1 < pre.length + (body.length + 2) := by omega
      have hend : ((body.length : Int) - len.toNat) < 2 := by omega
      show ReadsBelow (pre.length + (body.length + 2))
        (walkEvents (pre ++ id :: len :: (body ++ slack)) pre.length (body.length + 2 : Nat)) ↔ _
      rw [hround, readsBelow_read]
      by_cases hguard : body.length + 2 < len.toNat
      · have hno : ¬ CutAck len body := fun h => absurd h.admitted (Nat.not_le.mpr hguard)
        simp [hguard, hno]
      · have hiff := @readsBelow_extractEvents_iff (pre ++ [id, len]) body slack len
          (pre.length + 2) (by simp) hcut (Nat.le_of_not_lt hguard)
        have hmem : pre ++ [id, len] ++ (body ++ slack) = pre ++ id :: len :: (body ++ slack) := by
          simp
        rw [hmem, Nat.add_assoc, Nat.add_comm 2] at hiff
        rw [if_neg hguard, walkEvents_of_lt _ _ hend, List.append_nil, visitEvents_below_iff hread,
          byteAt_length, hiff]
        constructor
        · rintro ⟨-, h⟩ len' body' heq
          cases heq
          exact h rfl
        · intro h
          exact ⟨hread, fun hid => h len body (by rw [hid])⟩

theorem visits_walkEvents_nil (mem : Bytes) (ies : Nat) : visits (walkEvents mem ies 0) = [] := by
  rw [walkEvents_of_lt mem ies (by decide)]
  rfl

/-! ## The attribute -/

/-- Where the elements of a list start. -/
def offsets (es : List Element) : List Nat :=
  (List.range es.length).map fun i : Nat => (encode (es.take i)).length

theorem acks_getAckEvents (ies slack : Bytes) :
    acks (getAckEvents ies slack) = ackPayloads slack ies.length ies :=
  acks_walkEvents slack ies.length [] ies (Nat.le_refl _)

/-- Every byte that is read belongs to the attribute.  On a list of elements each
of them is visited once, in order. -/
structure StaysInside (ies slack : Bytes) : Prop where
  reads : ReadsBelow ies.length (getAckEvents ies slack)
  visited : ∀ es : List Element, ies = encode es → visits (getAckEvents ies slack) = offsets es

theorem visits_getAckEvents_encode (es : List Element) (slack : Bytes) :
    visits (getAckEvents (encode es) slack) = offsets es := by
  have h := visits_walkEvents_encode slack 0 es []
  rw [Nat.cast_zero, visits_walkEvents_nil, List.append_nil] at h
  simpa [getAckEvents, offsets] using h

/-- The reads do not depend on the memory behind the attribute. -/
theorem readsBelow_getAckEvents_iff (ies slack : Bytes) :
    ReadsBelow ies.length (getAckEvents ies slack) ↔ ¬ EndsInCutAck ies := by
  have hsplit (es : List Element) (rest : Bytes) (hrest : Incomplete rest) :
      ReadsBelow (encode es ++ rest).length (getAckEvents (encode es ++ rest) slack) ↔
        ∀ (len : UInt8) (body : Bytes), rest = 221 :: len :: body → ¬ CutAck len body := by
    have hwalk := @readsBelow_walkEvents_encode (encode es ++ rest).length (rest ++ slack)
      rest.length es [] (by simp)
    have htail := readsBelow_walkEvents_incomplete (encode es) slack rest hrest
    rw [List.nil_append, List.length_nil, Nat.zero_add, ← List.length_append] at hwalk
    rw [← List.length_append] at htail
    rw [getAckEvents, List.append_assoc, hwalk, htail]
  constructor
  · rintro h ⟨es, len, body, rfl, hcut⟩
    exact (hsplit es (221 :: len :: body) hcut.cut).mp h len body rfl hcut
  · intro h
    obtain ⟨es, rest, hrest, rfl⟩ := exists_encode_append ies
    rw [hsplit es rest hrest]
    rintro len body rfl hcut
    exact h ⟨es, len, body, rfl, hcut⟩

/-- The walk stays inside the attribute exactly if this does not end in a vendor
element that lacks one or two bytes and passes for an ACK. -/
theorem staysInside_iff (ies slack : Bytes) : StaysInside ies slack ↔ ¬ EndsInCutAck ies := by
  rw [← readsBelow_getAckEvents_iff ies slack]
  constructor
  · exact fun h => h.reads
  · rintro h
    exact ⟨h, fun es heq => by rw [heq, visits_getAckEvents_encode]⟩

/-- An ACK element without its last byte. -/
theorem not_staysInside_cutAck : ¬ StaysInside [221, 4, 1, 2, 3] [48] := by
  intro h
  have hread : .read 5 ∈ getAckEvents [221, 4, 1, 2, 3] [48] := by
    show _ ∈ walkEvents ([] ++ 221 :: 4 :: [1, 2, 3, 48]) ([] : Bytes).length (3 + 2 : Nat)
    rw [walkEvents_header [] 221 4 [1, 2, 3, 48] 3]
    decide
  exact absurd (h.reads 5 hread) (by decide)

end ProbeStuffing.Client

import ProbeStuffing.RoundTrip

/-!
# The numerals of acknowledgements

The access point prints the number it acknowledges with `%d`, and the client
reads it with `atoi`, which gives a number for every string.  So `get_ack` takes
every vendor element with OUI 01:02:03 and a payload for an acknowledgement,
whoever sent it and whatever the payload is.  It stores the numbers of the
access point only, exactly if every such payload is one of the numerals the
access point prints (`onlyNumerals_iff`).
-/

namespace ProbeStuffing

open CString Tlv Client Ap Register

/-- The access point sends the payload `s` when it has read the number `v`. -/
def EmitsAck (v : Int) (s : Bytes) : Prop :=
  ∃ sa stuffedData heap x,
    extract sa stuffedData heap = some x ∧ x.ackSeqNum = v ∧ x.ieAck.drop 5 = s

/-- It reads up to eight characters, and prints every number that has so few. -/
theorem emitsAck_iff {v : Int} {s : Bytes} : EmitsAck v s ↔ s = fmtInt v ∧ s.length ≤ 8 := by
  constructor
  · rintro ⟨sa, stuffedData, heap, x, hx, rfl, rfl⟩
    have hbounds := ackSeqNum_bounds hx
    exact ⟨rfl, (fmtInt_length_le_iff (by omega)).mpr hbounds⟩
  · rintro ⟨rfl, hlen⟩
    have hfield : strncpy (Ap.additionalData (1 :: 2 :: 3 :: fmtInt v) []) 8 = fmtInt v :=
      strncpy_terminated (nulFree_fmtInt v) [] hlen
    have hatoi : atoi (fmtInt v) = v := atoi_fmtInt_of_length_le (hlen.trans (by decide))
    have hack : atoi (strncpy (Ap.additionalData (1 :: 2 :: 3 :: fmtInt v) []) 8) = v := by
      rw [hfield, hatoi]
    exact ⟨⟨2, 0, 0, 0, 0, 1⟩, [1 :: 2 :: 3 :: fmtInt v], [], _, rfl, hack,
      congrArg fmtInt hack⟩

/-- A numeral that is short enough is what it sends for the number `get_ack` reads. -/
theorem emitsAck_atoi {s : Bytes} (h : IsNumeral s) (hlen : s.length ≤ 8) :
    EmitsAck (atoi s) s := by
  obtain ⟨z, rfl⟩ := isNumeral_iff.mp h
  have hread : atoi (fmtInt z) = z := atoi_fmtInt_of_length_le (hlen.trans (by decide))
  exact emitsAck_iff.mpr ⟨by rw [hread], hlen⟩

/-- A BSS entry with these elements. -/
def entryOf (slack : Bytes) (es : List Element) : ScanEntry :=
  { informationElements := some (encode es), slack := slack }

/-- An element makes `get_ack` store a number only if the access point sends its
payload for that number, and any other payload behind the OUI changes nothing. -/
structure OnlyNumerals (slack : Bytes) (es : List Element) : Prop where
  stored : ∀ pre e post v, es = pre ++ e :: post →
    (entryOf slack (pre ++ [e])).acks = (entryOf slack pre).acks ++ [v] →
      HasStuffingOui e ∧ EmitsAck v (e.body.drop 3)
  unchanged : ∀ pre e post, es = pre ++ e :: post → HasStuffingOui e →
    (∀ v, ¬ EmitsAck v (e.body.drop 3)) →
      ∀ ackSeqNum, getAck ackSeqNum (entryOf slack (pre ++ [e])) =
        getAck ackSeqNum (entryOf slack pre)

theorem acks_concat (slack : Bytes) (pre : List Element) (e : Element) :
    (entryOf slack (pre ++ [e])).acks =
      (entryOf slack pre).acks ++ (ackPayload e).map atoi := by
  rw [entryOf, entryOf, acks_encode, acks_encode, List.flatMap_append, List.flatMap_singleton,
    List.map_append]

/-- `get_ack` stores numbers of the access point only exactly if the payload of
every ACK element is a numeral without sign `+`, white space, leading zeros or
anything behind it, of eight characters at most. -/
theorem onlyNumerals_iff (slack : Bytes) (es : List Element) :
    OnlyNumerals slack es ↔
      ∀ e ∈ es, IsAck e → IsNumeral (e.body.drop 3) ∧ (e.body.drop 3).length ≤ 8 := by
  constructor
  · intro h e he hack
    obtain ⟨pre, post, hes⟩ := List.append_of_mem he
    have hstore : (entryOf slack (pre ++ [e])).acks =
        (entryOf slack pre).acks ++ [atoi (e.body.drop 3)] := by
      rw [acks_concat, ackPayload, if_pos hack]
      rfl
    obtain ⟨heq, hlen⟩ := emitsAck_iff.mp (h.stored pre e post _ hes hstore).2
    exact ⟨isNumeral_iff.mpr ⟨_, heq⟩, hlen⟩
  · intro h
    have hemits : ∀ e ∈ es, IsAck e → EmitsAck (atoi (e.body.drop 3)) (e.body.drop 3) :=
      fun e he hack => emitsAck_atoi (h e he hack).1 (h e he hack).2
    constructor
    · rintro pre e post v rfl hstore
      rw [acks_concat] at hstore
      have hnew := List.append_cancel_left hstore
      rcases Decidable.em (IsAck e) with hack | hack
      · rw [ackPayload, if_pos hack] at hnew
        obtain rfl : atoi (e.body.drop 3) = v := (List.cons.inj hnew).1
        exact ⟨⟨hack.1, hack.2.1⟩, hemits e (by simp) hack⟩
      · rw [ackPayload, if_neg hack] at hnew
        cases hnew
    · rintro pre e post rfl - hother ackSeqNum
      have hack : ¬ IsAck e := fun hack => hother _ (hemits e (by simp) hack)
      rw [getAck_eq, getAck_eq, acks_concat, ackPayload, if_neg hack, List.map_nil,
        List.append_nil]

/-- A vendor element with the payload `abc` acknowledges the first fragment. -/
theorem not_onlyNumerals_letters :
    ¬ OnlyNumerals [] [⟨221, [1, 2, 3, 97, 98, 99], by decide⟩] := by
  intro h
  have hemits := (h.stored [] _ [] 0 rfl (by decide)).2
  exact absurd (emitsAck_iff.mp hemits).1 (by decide)

end ProbeStuffing

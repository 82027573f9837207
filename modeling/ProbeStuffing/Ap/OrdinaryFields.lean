import ProbeStuffing.Ap.Elems

/-!
# Stuffing elements and ordinary fields

An element either is recorded as a stuffing element or acts on the ordinary
fields alone, and it never looks at the record.  The parser is a fold over the
elements of its buffer, so two lists that differ in stuffing elements lead to the
same ordinary fields (`parseElems_remove_stuffing`).
-/

namespace ProbeStuffing.Ap

open CString Tlv

/-! ## Lists without stuffing elements -/

theorem IsStuffing.id_ne_mic {e : Element} (h : IsStuffing e) : e.id ≠ eidMic := by
  rw [h.1.1]
  decide

/-- What precedes the first MIC has all the stuffing elements. -/
theorem stuffingBodies_upToMic : ∀ es : List Element,
    stuffingBodies (upToMic es) = stuffingBodies (es.takeWhile fun e => e.id ≠ eidMic)
  | [] => rfl
  | e :: es => by
      rw [upToMic, stuffingBodies_cons, List.takeWhile_cons]
      rcases Decidable.em (e.id = eidMic) with h | h
      · have hmic : ¬ decide (e.id ≠ eidMic) = true := by simpa using h
        have hnot : ¬ IsStuffing e := fun hs => hs.id_ne_mic h
        rw [if_pos h, if_neg hmic, if_neg hnot]
        rfl
      · have hmic : decide (e.id ≠ eidMic) = true := by simpa using h
        rw [if_neg h, if_pos hmic, stuffingBodies_cons, stuffingBodies_upToMic es]

/-- A list without its stuffing elements. -/
def removeStuffing (es : List Element) : List Element :=
  es.filter fun e => decide (¬ IsStuffing e)

theorem removeStuffing_cons (e : Element) (es : List Element) :
    removeStuffing (e :: es) =
      if IsStuffing e then removeStuffing es else e :: removeStuffing es := by
  rw [removeStuffing, List.filter_cons]
  by_cases h : IsStuffing e <;> simp [h, removeStuffing]

theorem upToMic_removeStuffing : ∀ es : List Element,
    upToMic (removeStuffing es) = removeStuffing (upToMic es)
  | [] => rfl
  | e :: es => by
      have hrest := upToMic_removeStuffing es
      rw [upToMic, removeStuffing_cons, removeStuffing_cons]
      split
      · next h => rw [if_neg h.id_ne_mic, hrest]
      · rw [upToMic]
        split
        · rfl
        · rw [hrest]

/-! ## The ordinary fields of a list -/

/-- What an element does to the ordinary fields. -/
def ordinaryStep (fields : OrdinaryElems) (e : Element) : OrdinaryElems :=
  (parseElem e.id e.body { toOrdinaryElems := fields } 0).1.toOrdinaryElems

/-- It does so whatever has been recorded or counted before. -/
theorem foldElem_toOrdinaryElems (st : Elems × Nat) (e : Element) :
    (foldElem st e).1.toOrdinaryElems = ordinaryStep st.1.toOrdinaryElems e := by
  simp only [foldElem, ordinaryStep, parseElem]
  split
  · simp only [ieee80211ParseVendorSpecific]
    split
    · split
      · rfl
      · split <;> rfl
    · rfl
  · split <;> rfl

theorem foldl_foldElem_toOrdinaryElems (es : List Element) (st : Elems × Nat) :
    (es.foldl foldElem st).1.toOrdinaryElems = es.foldl ordinaryStep st.1.toOrdinaryElems := by
  induction es generalizing st with
  | nil => rfl
  | cons e es ih => rw [List.foldl_cons, List.foldl_cons, ih, foldElem_toOrdinaryElems]

/-- A stuffing element does nothing to them. -/
theorem ordinaryStep_stuffing {e : Element} (h : IsStuffing e) (fields : OrdinaryElems) :
    ordinaryStep fields e = fields := by
  rw [ordinaryStep, parseElem_stuffing h]
  rfl

theorem foldl_ordinaryStep_removeStuffing (es : List Element) (fields : OrdinaryElems) :
    (removeStuffing es).foldl ordinaryStep fields = es.foldl ordinaryStep fields := by
  induction es generalizing fields with
  | nil => rfl
  | cons e es ih =>
      rw [removeStuffing_cons, List.foldl_cons]
      split
      · next h => rw [ordinaryStep_stuffing h, ih]
      · rw [List.foldl_cons, ih]

theorem parseElems_encode_toOrdinaryElems (es : List Element) :
    (ieee80211ParseElems (encode es)).2.toOrdinaryElems =
      (upToMic es).foldl ordinaryStep {} := by
  rw [parseElems_eq, elements_encode]
  exact foldl_foldElem_toOrdinaryElems (upToMic es) ({}, 0)

/-- Stuffing elements do not disturb ordinary parsing.  With at most ten of them
in a list, the parser sets the ordinary fields as it does on the list without
them, it fails on neither or both, and what it records are the bodies of the
stuffing elements before the first MIC, in order. -/
theorem parseElems_remove_stuffing {es : List Element}
    (h : (es.filter fun e => decide (IsStuffing e)).length ≤ 10) :
    let r := ieee80211ParseElems (encode es)
    let r' := ieee80211ParseElems (encode (removeStuffing es))
    r.2.toOrdinaryElems = r'.2.toOrdinaryElems ∧
      (r.1 = .parseFailed ↔ r'.1 = .parseFailed) ∧
      r.2.stuffedData.take r.2.nStuffedIes.toNat =
        stuffingBodies (es.takeWhile fun e => e.id ≠ eidMic) := by
  intro r r'
  refine ⟨?_, ?_, ?_⟩
  · show r.2.toOrdinaryElems = r'.2.toOrdinaryElems
    rw [parseElems_encode_toOrdinaryElems, parseElems_encode_toOrdinaryElems,
      upToMic_removeStuffing, foldl_ordinaryStep_removeStuffing]
  · exact iff_of_false (parseElems_encode_ne_parseFailed es)
      (parseElems_encode_ne_parseFailed (removeStuffing es))
  · have hbodies : stuffingBodies (elements (encode es)).1 =
        stuffingBodies (es.takeWhile fun e => e.id ≠ eidMic) := by
      rw [elements_encode, stuffingBodies_upToMic]
    have hten : (stuffingBodies (elements (encode es)).1).length ≤ 10 := by
      rw [hbodies, stuffingBodies, List.length_map]
      exact ((List.takeWhile_sublist _).filter _).length_le.trans h
    exact (parseElems_take_stuffedData hten).trans hbodies

/-- A stuffing element of one byte. -/
def zeroStuffed : Element := ⟨eidVendorSpecific, [1, 2, 3, 48], by decide⟩

/-- An SSID, a stuffing element, a MIC and one more stuffing element. -/
def interleaved : List Element :=
  [⟨0, [97, 98], by decide⟩, zeroStuffed, ⟨eidMic, [0], by decide⟩, zeroStuffed]

theorem parseElems_remove_stuffing_interleaved :
    (ieee80211ParseElems (encode interleaved)).2.ssid = some [97, 98] ∧
      (ieee80211ParseElems (encode interleaved)).2.stuffedData.take 1 = [[1, 2, 3, 48]] ∧
      (ieee80211ParseElems (encode interleaved)).2.toOrdinaryElems =
        (ieee80211ParseElems (encode (removeStuffing interleaved))).2.toOrdinaryElems :=
  ⟨by decide, by decide, (@parseElems_remove_stuffing interleaved (by decide)).1⟩

end ProbeStuffing.Ap

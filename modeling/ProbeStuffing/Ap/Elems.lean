import ProbeStuffing.Lib.CString
import ProbeStuffing.Lib.Tlv

/-!
# Information elements at the access point

`ieee802_11_parse_elems` walks the elements of a management frame and sets one
field of `struct ieee802_11_elems` per element it knows.  A pointer field and
its length field are one `Option Bytes` here: `none` is `NULL`, and the bytes
are the body of the element.  The length byte of an element is checked against
what is left of the frame before the body is read, so a body is all there.

A vendor element with OUI 01:02:03 is a *stuffing element*.  It is recorded and
then falls through into the error branch, so it counts as unknown.
`stuffedData` lists the writes to `stuffed_data[]` and `stuffed_data_len[]` in
order: the write number `j` has index `j`, cut to eight bits by the counter
`n_stuffed_ies`.  Both arrays have ten entries and no write is checked, so
`Elems.overrun` says when the model stops describing the code.

Whatever bytes it is given, the parser folds the complete elements at their
front, up to the first MIC element, and fails when these are not all there is
(`parseElems_eq`).  It records the bodies of the stuffing elements among them
(`parseElems_stuffing`).  On the encoding of a list without a MIC element these
are all elements of the list, and the parser does not fail (`parseElems_encode`).
-/

namespace ProbeStuffing.Ap

open CString Tlv

/-! ## `struct ieee802_11_elems` -/

/-- The fields of the elements every management frame may carry. -/
structure OrdinaryElems where
  ssid : Option Bytes := none
  suppRates : Option Bytes := none
  dsParams : Option Bytes := none
  challenge : Option Bytes := none
  erpInfo : Option Bytes := none
  extSuppRates : Option Bytes := none
  wpaIe : Option Bytes := none
  rsnIe : Option Bytes := none
  wmm : Option Bytes := none
  wmmTspec : Option Bytes := none
  wpsIe : Option Bytes := none
  suppChannels : Option Bytes := none
  mdie : Option Bytes := none
  ftie : Option Bytes := none
  timeoutInt : Option Bytes := none
  htCapabilities : Option Bytes := none
  htOperation : Option Bytes := none
  meshConfig : Option Bytes := none
  meshId : Option Bytes := none
  peerMgmt : Option Bytes := none
  vhtCapabilities : Option Bytes := none
  vhtOperation : Option Bytes := none
  vhtOpmodeNotif : Option Bytes := none
  vendorHtCap : Option Bytes := none
  vendorVht : Option Bytes := none
  p2p : Option Bytes := none
  wfd : Option Bytes := none
  linkId : Option Bytes := none
  interworking : Option Bytes := none
  qosMapSet : Option Bytes := none
  hs20 : Option Bytes := none
  extCapab : Option Bytes := none
  bssMaxIdlePeriod : Option Bytes := none
  ssidList : Option Bytes := none
  osen : Option Bytes := none
  mbo : Option Bytes := none
  ampe : Option Bytes := none
  mic : Option Bytes := none
  prefFreqList : Option Bytes := none
  suppOpClasses : Option Bytes := none
  rrmEnabled : Option Bytes := none
  /-- `mb_ies`, at most `MAX_NOF_MB_IES_SUPPORTED` of them. -/
  mbIes : List Bytes := []
deriving DecidableEq

/-- `struct ieee802_11_elems`. -/
structure Elems extends OrdinaryElems where
  /-- The writes to `stuffed_data[]`, oldest first. -/
  stuffedData : List Bytes := []
  /-- `n_stuffed_ies`, the index of the next write. -/
  nStuffedIes : UInt8 := 0
deriving DecidableEq

/-- `sizeof(stuffed_data) / sizeof(stuffed_data[0])`. -/
def stuffedDataSize : Nat := 10

/-- Some write went past the end of `stuffed_data[]`. -/
def Elems.overrun (elems : Elems) : Prop := stuffedDataSize < elems.stuffedData.length

instance (elems : Elems) : Decidable elems.overrun :=
  inferInstanceAs (Decidable (_ < _))

inductive ParseRes where
  | parseOK
  | parseUnknown
  | parseFailed
deriving DecidableEq

/-- What the parser remembers of stuffing elements. -/
def Elems.stuffing (elems : Elems) : List Bytes × UInt8 := (elems.stuffedData, elems.nStuffedIes)

/-- One more stuffing element. -/
def Elems.record (elems : Elems) (pos : Bytes) : Elems :=
  { elems with stuffedData := elems.stuffedData ++ [pos], nStuffedIes := elems.nStuffedIes + 1 }

/-! ## Vendor elements -/

/-- `WPA_GET_BE24`. -/
def wpaGetBe24 (a b c : UInt8) : Nat := a.toNat * 65536 + b.toNat * 256 + c.toNat

def ouiMicrosoft : Nat := 0x0050f2
def ouiWfa : Nat := 0x506f9a
def ouiBroadcom : Nat := 0x00904c
def ouiQca : Nat := 0x001374
def ouiProbeStuffing : Nat := 0x010203

/-- The cases of `ieee802_11_parse_vendor_specific` that set an ordinary field
and return 0, by OUI, type and what follows them.  `none` is `return -1`. -/
def parseVendorField (oui : Nat) (type : UInt8) (rest pos : Bytes) (elems : OrdinaryElems) :
    Option OrdinaryElems :=
  if oui = ouiMicrosoft then
    if type = 1 then some { elems with wpaIe := some pos }
    else if type = 2 then
      match rest with
      | [] => none
      | sub :: _ =>
          if sub = 0 ∨ sub = 1 then some { elems with wmm := some pos }
          else if sub = 2 then some { elems with wmmTspec := some pos }
          else none
    else if type = 4 then some { elems with wpsIe := some pos }
    else none
  else if oui = ouiWfa then
    if type = 9 then some { elems with p2p := some pos }
    else if type = 10 then some { elems with wfd := some pos }
    else if type = 16 then some { elems with hs20 := some pos }
    else if type = 18 then some { elems with osen := some pos }
    else if type = 22 then some { elems with mbo := some pos }
    else none
  else if oui = ouiBroadcom then
    if type = 0x33 then some { elems with vendorHtCap := some pos }
    else if type = 4 then
      match rest with
      | [] => none
      | sub :: _ => if sub = 8 ∨ sub = 0 then some { elems with vendorVht := some pos } else none
    else none
  else if oui = ouiQca then
    if type = 0 then some { elems with prefFreqList := some pos } else none
  else none

/-- `ieee802_11_parse_vendor_specific`: the fields after one vendor element, and
the return value. -/
def ieee80211ParseVendorSpecific (pos : Bytes) (elems : Elems) : Elems × Int :=
  match pos with
  | a :: b :: c :: type :: rest =>
      let oui := wpaGetBe24 a b c
      -- no `break` after the record: a stuffing element goes on into the error branch
      if oui = ouiProbeStuffing then (elems.record pos, -1)
      else
        match parseVendorField oui type rest pos elems.toOrdinaryElems with
        | some fields => ({ elems with toOrdinaryElems := fields }, 0)
        | none => (elems, -1)
  | _ => (elems, -1)

/-! ## One element -/

def eidVendorSpecific : UInt8 := 221
def eidMic : UInt8 := 140

/-- The cases of `switch (id)` other than the vendor elements.  `none` is the
default case, the unknown identifiers. -/
def parseField (id : UInt8) (pos : Bytes) (elems : OrdinaryElems) : Option OrdinaryElems :=
  let elen := pos.length
  if id = 0 then -- SSID_MAX_LEN
    some (if 32 < elen then elems else { elems with ssid := some pos })
  else if id = 1 then some { elems with suppRates := some pos }
  else if id = 3 then some (if elen < 1 then elems else { elems with dsParams := some pos })
  else if id = 4 ∨ id = 5 then some elems
  else if id = 16 then some { elems with challenge := some pos }
  else if id = 42 then some (if elen < 1 then elems else { elems with erpInfo := some pos })
  else if id = 50 then some { elems with extSuppRates := some pos }
  else if id = 48 then some { elems with rsnIe := some pos }
  else if id = 33 then some elems
  else if id = 36 then some { elems with suppChannels := some pos }
  else if id = 54 then -- sizeof(struct rsn_mdie)
    some (if elen < 3 then elems else { elems with mdie := some pos })
  else if id = 55 then -- sizeof(struct rsn_ftie)
    some (if elen < 82 then elems else { elems with ftie := some pos })
  else if id = 56 then some (if elen ≠ 5 then elems else { elems with timeoutInt := some pos })
  else if id = 45 then -- sizeof(struct ieee80211_ht_capabilities)
    some (if elen < 26 then elems else { elems with htCapabilities := some pos })
  else if id = 61 then -- sizeof(struct ieee80211_ht_operation)
    some (if elen < 22 then elems else { elems with htOperation := some pos })
  else if id = 113 then some { elems with meshConfig := some pos }
  else if id = 114 then some { elems with meshId := some pos }
  else if id = 117 then some { elems with peerMgmt := some pos }
  else if id = 191 then -- sizeof(struct ieee80211_vht_capabilities)
    some (if elen < 12 then elems else { elems with vhtCapabilities := some pos })
  else if id = 192 then -- sizeof(struct ieee80211_vht_operation)
    some (if elen < 5 then elems else { elems with vhtOperation := some pos })
  else if id = 199 then
    some (if elen ≠ 1 then elems else { elems with vhtOpmodeNotif := some pos })
  else if id = 101 then some (if elen < 18 then elems else { elems with linkId := some pos })
  else if id = 107 then some { elems with interworking := some pos }
  else if id = 110 then some (if elen < 16 then elems else { elems with qosMapSet := some pos })
  else if id = 127 then some { elems with extCapab := some pos }
  else if id = 90 then
    some (if elen < 3 then elems else { elems with bssMaxIdlePeriod := some pos })
  else if id = 84 then some { elems with ssidList := some pos }
  else if id = 139 then some { elems with ampe := some pos }
  else if id = eidMic then some { elems with mic := some pos }
  else if id = 158 then -- MAX_NOF_MB_IES_SUPPORTED
    some (if 5 ≤ elems.mbIes.length then elems else { elems with mbIes := elems.mbIes ++ [pos] })
  else if id = 59 then some { elems with suppOpClasses := some pos }
  else if id = 70 then some { elems with rrmEnabled := some pos }
  else none

/-- The `switch (id)` of the element loop: the fields and `unknown` after one element. -/
def parseElem (id : UInt8) (pos : Bytes) (elems : Elems) (unknown : Nat) : Elems × Nat :=
  if id = eidVendorSpecific then
    let r := ieee80211ParseVendorSpecific pos elems
    (r.1, if r.2 = 0 then unknown else unknown + 1)
  else
    match parseField id pos elems.toOrdinaryElems with
    | some fields => ({ elems with toOrdinaryElems := fields }, unknown)
    | none => (elems, unknown + 1)

/-! ## The element loop -/

/-- The loop of `ieee802_11_parse_elems` on the bytes that are left.  A round
takes two bytes at least, so the number of bytes is enough fuel. -/
def parseLoop : Nat → Bytes → Elems × Nat → ParseRes × Elems
  | fuel + 1, id :: elen :: rest, (elems, unknown) =>
      if rest.length < elen.toNat then (.parseFailed, elems)
      else
        let r := parseElem id (rest.take elen.toNat) elems unknown
        -- the MIC case sets `left = elen`, and `left -= elen` then ends the loop
        parseLoop fuel (if id = eidMic then [] else rest.drop elen.toNat) r
  | _, [], (elems, unknown) => (if unknown = 0 then .parseOK else .parseUnknown, elems)
  | _, _, (elems, _) => (.parseFailed, elems)

/-- `ieee802_11_parse_elems`. -/
def ieee80211ParseElems (start : Bytes) : ParseRes × Elems :=
  parseLoop start.length start ({}, 0)

/-! ## The elements of a buffer -/

theorem length_take_toNat_le (rest : Bytes) (elen : UInt8) :
    (rest.take elen.toNat).length ≤ 255 :=
  (List.length_take_le _ _).trans (Nat.le_of_lt_succ elen.toNat_lt)

/-- One element of a list, folded into the parser's state. -/
def foldElem (st : Elems × Nat) (e : Element) : Elems × Nat := parseElem e.id e.body st.1 st.2

/-- The complete elements of a buffer up to the first MIC, and whether nothing
else is left of it. -/
def elementsOf : Nat → Bytes → List Element × Bool
  | fuel + 1, id :: elen :: rest =>
      if rest.length < elen.toNat then ([], false)
      else
        let e : Element := ⟨id, rest.take elen.toNat, length_take_toNat_le rest elen⟩
        let r := if id = eidMic then ([], true) else elementsOf fuel (rest.drop elen.toNat)
        (e :: r.1, r.2)
  | _, [] => ([], true)
  | _, _ => ([], false)

def elements (start : Bytes) : List Element × Bool := elementsOf start.length start

/-- The result of the parser, from its state behind the last element. -/
def parseResult (complete : Bool) (st : Elems × Nat) : ParseRes × Elems :=
  (if complete then if st.2 = 0 then .parseOK else .parseUnknown else .parseFailed, st.1)

theorem parseLoop_nil (fuel : Nat) (st : Elems × Nat) :
    parseLoop fuel [] st = (if st.2 = 0 then .parseOK else .parseUnknown, st.1) := by
  cases fuel <;> rfl

theorem parseLoop_eq : ∀ (fuel : Nat) (bytes : Bytes) (st : Elems × Nat),
    parseLoop fuel bytes st =
      parseResult (elementsOf fuel bytes).2 ((elementsOf fuel bytes).1.foldl foldElem st)
  | fuel + 1, id :: elen :: rest, (elems, unknown) => by
      rw [parseLoop, elementsOf]
      split
      · rfl
      · split
        · rw [parseLoop_nil]
          rfl
        · exact parseLoop_eq fuel _ _
  | fuel + 1, [], (elems, unknown) => rfl
  | fuel + 1, [_], (elems, unknown) => rfl
  | 0, [], (elems, unknown) => rfl
  | 0, _ :: _, (elems, unknown) => rfl

/-- The parser folds the elements of its buffer. -/
theorem parseElems_eq (start : Bytes) :
    ieee80211ParseElems start =
      parseResult (elements start).2 ((elements start).1.foldl foldElem ({}, 0)) :=
  parseLoop_eq start.length start ({}, 0)

/-! ## What an element does to the stuffing record -/

/-- A vendor element with OUI 01:02:03, of any length. -/
def HasStuffingOui (e : Element) : Prop := e.id = eidVendorSpecific ∧ e.body.take 3 = [1, 2, 3]

instance (e : Element) : Decidable (HasStuffingOui e) := inferInstanceAs (Decidable (_ ∧ _))

/-- The stuffing elements the parser records: those with a fourth byte. -/
def IsStuffing (e : Element) : Prop := HasStuffingOui e ∧ 4 ≤ e.body.length

instance (e : Element) : Decidable (IsStuffing e) := inferInstanceAs (Decidable (_ ∧ _))

theorem wpaGetBe24_eq_probeStuffing {a b c : UInt8} :
    wpaGetBe24 a b c = ouiProbeStuffing ↔ a = 1 ∧ b = 2 ∧ c = 3 := by
  simp only [wpaGetBe24, ouiProbeStuffing, ← UInt8.toNat_inj]
  have := a.toNat_lt
  have := b.toNat_lt
  have := c.toNat_lt
  change _ ↔ a.toNat = 1 ∧ b.toNat = 2 ∧ c.toNat = 3
  omega

theorem parseVendorSpecific_stuffing {pos : Bytes} {elems : Elems} (h3 : pos.take 3 = [1, 2, 3])
    (h4 : 4 ≤ pos.length) : ieee80211ParseVendorSpecific pos elems = (elems.record pos, -1) := by
  match pos, h4 with
  | a :: b :: c :: d :: rest, _ =>
      simp only [List.take_succ_cons, List.take_zero, List.cons.injEq, and_true] at h3
      have houi : wpaGetBe24 a b c = ouiProbeStuffing := wpaGetBe24_eq_probeStuffing.mpr h3
      simp only [ieee80211ParseVendorSpecific, houi, if_true]

theorem parseElem_stuffing {e : Element} (h : IsStuffing e) (elems : Elems) (unknown : Nat) :
    parseElem e.id e.body elems unknown = (elems.record e.body, unknown + 1) := by
  obtain ⟨⟨hid, h3⟩, h4⟩ := h
  rw [parseElem, if_pos hid, parseVendorSpecific_stuffing h3 h4]
  rfl

/-- Every other vendor element leaves the record alone. -/
theorem parseVendorSpecific_ordinary {pos : Bytes} (h : ¬ (pos.take 3 = [1, 2, 3] ∧ 4 ≤ pos.length))
    (elems : Elems) : (ieee80211ParseVendorSpecific pos elems).1.stuffing = elems.stuffing := by
  unfold ieee80211ParseVendorSpecific
  split
  · next a b c type rest =>
      have houi : wpaGetBe24 a b c ≠ ouiProbeStuffing := by
        intro ho
        obtain ⟨rfl, rfl, rfl⟩ := wpaGetBe24_eq_probeStuffing.mp ho
        exact h ⟨rfl, by simp⟩
      simp only [houi, if_false]
      split <;> rfl
  · rfl

theorem parseElem_ordinary {e : Element} (h : ¬ IsStuffing e) (elems : Elems) (unknown : Nat) :
    (parseElem e.id e.body elems unknown).1.stuffing = elems.stuffing := by
  unfold parseElem
  split
  · next hv => exact parseVendorSpecific_ordinary (fun hb => h ⟨⟨hv, hb.1⟩, hb.2⟩) elems
  · split <;> rfl

/-! ## The record of a buffer -/

/-- The bodies the parser records from a list, in order. -/
def stuffingBodies (es : List Element) : List Bytes :=
  (es.filter fun e => decide (IsStuffing e)).map Element.body

@[simp] theorem stuffingBodies_append (es fs : List Element) :
    stuffingBodies (es ++ fs) = stuffingBodies es ++ stuffingBodies fs := by
  simp [stuffingBodies]

theorem stuffingBodies_cons (e : Element) (es : List Element) :
    stuffingBodies (e :: es) =
      (if IsStuffing e then [e.body] else []) ++ stuffingBodies es := by
  by_cases h : IsStuffing e <;> simp [stuffingBodies, h]

theorem stuffingBodies_eq_nil {es : List Element} (h : ∀ e ∈ es, ¬ IsStuffing e) :
    stuffingBodies es = [] := by
  simpa [stuffingBodies] using h

theorem stuffingBodies_eq_map {es : List Element} (h : ∀ e ∈ es, IsStuffing e) :
    stuffingBodies es = es.map Element.body := by
  rw [stuffingBodies, List.filter_eq_self.mpr (by simpa using h)]

theorem foldl_foldElem (es : List Element) : ∀ st : Elems × Nat,
    (es.foldl foldElem st).1.stuffing =
      (st.1.stuffedData ++ stuffingBodies es,
        st.1.nStuffedIes + UInt8.ofNat (stuffingBodies es).length) := by
  induction es with
  | nil => intro st; simp [stuffingBodies, Elems.stuffing]
  | cons e es ih =>
      intro st
      rw [List.foldl_cons, stuffingBodies_cons, ih (foldElem st e)]
      by_cases h : IsStuffing e
      · have he : foldElem st e = (st.1.record e.body, st.2 + 1) := parseElem_stuffing h _ _
        rw [he, if_pos h, List.singleton_append, List.length_cons, Nat.add_comm, UInt8.ofNat_add]
        simp [Elems.record, UInt8.add_assoc, UInt8.add_comm 1]
      · have he : (foldElem st e).1.stuffing = st.1.stuffing := parseElem_ordinary h _ _
        obtain ⟨hd, hn⟩ := Prod.mk.inj he
        rw [if_neg h, List.nil_append, hd, hn]

/-- The parser records the stuffing bodies of its buffer, in order, and counts them. -/
theorem parseElems_stuffing (start : Bytes) :
    (ieee80211ParseElems start).2.stuffing =
      (stuffingBodies (elements start).1,
        UInt8.ofNat (stuffingBodies (elements start).1).length) := by
  rw [parseElems_eq]
  refine (foldl_foldElem (elements start).1 ({}, 0)).trans ?_
  rw [List.nil_append, UInt8.zero_add]

theorem parseElems_stuffedData (start : Bytes) :
    (ieee80211ParseElems start).2.stuffedData = stuffingBodies (elements start).1 :=
  congrArg Prod.fst (parseElems_stuffing start)

/-- The counter counts the record, and every body is as long as its length byte says. -/
def RecordOk (elems : Elems) : Prop :=
  elems.nStuffedIes = UInt8.ofNat elems.stuffedData.length ∧
    ∀ body ∈ elems.stuffedData, body.length ≤ 255

theorem parseElems_recordOk (start : Bytes) : RecordOk (ieee80211ParseElems start).2 := by
  rw [RecordOk, parseElems_stuffedData]
  refine ⟨congrArg Prod.snd (parseElems_stuffing start), fun body hbody => ?_⟩
  obtain ⟨e, -, rfl⟩ := List.mem_map.mp hbody
  exact e.fits

/-- Without an overrun the counter is the number of recorded bodies. -/
theorem RecordOk.take_stuffedData {elems : Elems} (h : RecordOk elems) (hover : ¬ elems.overrun) :
    elems.stuffedData.take elems.nStuffedIes.toNat = elems.stuffedData := by
  have hlen : elems.stuffedData.length ≤ 10 := Nat.le_of_not_lt hover
  refine List.take_of_length_le ?_
  rw [h.1, UInt8.toNat_ofNat']
  omega

/-- Up to ten stuffing bodies are what the handler finds in the record. -/
theorem parseElems_take_stuffedData {start : Bytes}
    (h : (stuffingBodies (elements start).1).length ≤ 10) :
    (ieee80211ParseElems start).2.stuffedData.take
        (ieee80211ParseElems start).2.nStuffedIes.toNat = stuffingBodies (elements start).1 := by
  have hover : ¬ (ieee80211ParseElems start).2.overrun := by
    rw [Elems.overrun, parseElems_stuffedData]
    exact Nat.not_lt.mpr h
  rw [(parseElems_recordOk start).take_stuffedData hover, parseElems_stuffedData]

/-! ## Encoded lists -/

/-- The elements up to the first MIC, which is one of them. -/
def upToMic : List Element → List Element
  | [] => []
  | e :: es => e :: if e.id = eidMic then [] else upToMic es

/-- An element in front of the elements of what follows it. -/
def consElement (e : Element) (r : List Element × Bool) : List Element × Bool :=
  let r := if e.id = eidMic then ([], true) else r
  (e :: r.1, r.2)

theorem elementsOf_cons (fuel : Nat) (e : Element) (rest : Bytes) :
    elementsOf (fuel + 1) (e.bytes ++ rest) = consElement e (elementsOf fuel rest) := by
  have hlen : ¬ (e.body ++ rest).length < e.body.length := by simp
  simp only [Element.bytes, List.cons_append, elementsOf, Element.len_toNat, hlen, if_false,
    List.take_left, List.drop_left, consElement]

/-- The elements of an encoded list are the list, up to the first MIC. -/
theorem elements_encode (es : List Element) : elements (encode es) = (upToMic es, true) := by
  have hnil : ∀ fuel, elementsOf fuel [] = ([], true) := fun fuel => by cases fuel <;> rfl
  rw [elements, walk_encode hnil elementsOf_cons]
  induction es with
  | nil => rfl
  | cons e es ih =>
      rw [List.foldr_cons, ih, consElement, upToMic]
      split <;> rfl

theorem upToMic_eq_self : ∀ {es : List Element}, (∀ e ∈ es, e.id ≠ eidMic) → upToMic es = es
  | [], _ => rfl
  | e :: es, h => by
      obtain ⟨he, hes⟩ := List.forall_mem_cons.mp h
      rw [upToMic, if_neg he, upToMic_eq_self hes]

/-- The parser does not fail on an encoded list, with or without a MIC. -/
theorem parseElems_encode_ne_parseFailed (es : List Element) :
    (ieee80211ParseElems (encode es)).1 ≠ .parseFailed := by
  rw [parseElems_eq, elements_encode]
  simp only [parseResult, if_true]
  split <;> decide

/-- Without a MIC it records the stuffing bodies of the list in order. -/
theorem parseElems_encode {es : List Element} (h : ∀ e ∈ es, e.id ≠ eidMic) :
    (ieee80211ParseElems (encode es)).1 ≠ .parseFailed ∧
      (ieee80211ParseElems (encode es)).2.stuffing =
        (stuffingBodies es, UInt8.ofNat (stuffingBodies es).length) := by
  refine ⟨parseElems_encode_ne_parseFailed es, ?_⟩
  rw [parseElems_stuffing, elements_encode, upToMic_eq_self h]

example : (ieee80211ParseElems [0xdd, 4, 0, 0x50, 0xf2, 2]).1 = .parseUnknown := by decide
example : (ieee80211ParseElems [0xff, 1]).1 = .parseFailed := by decide

end ProbeStuffing.Ap

import ProbeStuffing.Ap.Stuffing
import ProbeStuffing.Client.Encoder
import ProbeStuffing.Client.AckStores

/-!
# Round trips between client and access point

Two programs meet in a frame.  What the client encodes, the access point decodes
(`extract_iesData`): the parser records exactly the bodies of the client's
elements, whatever ordinary elements stand around them, and the fixed offsets
cut the header where the client put it together.

In the other direction the access point prints the number it read, and the
client reads the number it printed (`getAck_ieAck`).  Eight bytes have room for
few digits, so neither conversion ever clamps or cuts.
-/

namespace ProbeStuffing

open CString Tlv Client Ap

/-! ## From the client to the access point -/

/-- A non-empty string gives an element the parser records. -/
theorem isStuffing_vendorElement {s : Bytes} (hpos : 0 < s.length) (h : s.length ≤ 252) :
    IsStuffing (vendorElement s) := by
  refine ⟨⟨rfl, ?_⟩, ?_⟩
  · rw [vendorElement_body h]
    rfl
  · rw [vendorElement_body h]
    simp only [List.length_cons]
    omega

section Fragment

variable {seqNum mfb : Nat} {ts data : Bytes}

theorem stuffingElements_isStuffing (hseq : seqNum < 10 ^ 8) (hts : ts.length = 18)
    (hmfb : mfb < 10) (hpos : 0 < data.length) :
    ∀ e ∈ stuffingElements seqNum ts mfb data, IsStuffing e := by
  have hlen : (Client.additionalData seqNum ts mfb).length = 27 :=
    additionalData_length hseq hts hmfb
  intro e he
  rcases List.mem_cons.mp he with rfl | he
  · exact isStuffing_vendorElement (by omega) (by omega)
  · obtain ⟨c, hc, rfl⟩ := List.mem_map.mp he
    exact isStuffing_vendorElement (splitData_chunk_pos hpos c hc) (splitData_chunk_le hpos c hc)

/-- The bodies of one fragment: the header and the chunks, each behind the OUI. -/
theorem stuffingElements_bodies (hseq : seqNum < 10 ^ 8) (hts : ts.length = 18)
    (hmfb : mfb < 10) (hpos : 0 < data.length) :
    (stuffingElements seqNum ts mfb data).map Element.body =
      (1 :: 2 :: 3 :: Client.additionalData seqNum ts mfb) ::
        (splitData data (getNIesReqd data.length)).map (1 :: 2 :: 3 :: ·) := by
  have hlen : (Client.additionalData seqNum ts mfb).length = 27 :=
    additionalData_length hseq hts hmfb
  rw [stuffingElements, List.map_cons, vendorElement_body (by omega), List.map_map]
  congr 1
  exact List.map_congr_left fun c hc => vendorElement_body (splitData_chunk_le hpos c hc)

/-- The header strings are read back from the offsets 0, 8 and 26. -/
theorem strncpy_additionalData (heap : Bytes) (hseq : seqNum < 10 ^ 8) (hts : ts.length = 18)
    (htsnul : NulFree ts) (hmfb : mfb < 10) :
    let mem := Ap.additionalData (1 :: 2 :: 3 :: Client.additionalData seqNum ts mfb) heap
    strncpy mem 8 = fmtPad 8 seqNum ∧ strncpy (mem.drop 8) 18 = ts ∧
      strncpy (mem.drop 26) 1 = decimal mfb := by
  have h8 : (fmtPad 8 seqNum).length = 8 := fmtPad_length (by omega) hseq
  have h1 : (decimal mfb).length = 1 := by rw [decimal_lt hmfb, List.length_singleton]
  intro mem
  have hmem : mem = fmtPad 8 seqNum ++ (ts ++ (decimal mfb ++ 0 :: heap)) := by
    simp only [mem, Ap.additionalData, Client.additionalData, List.drop_succ_cons, List.drop_zero,
      List.append_assoc]
  have hdrop8 : mem.drop 8 = ts ++ (decimal mfb ++ 0 :: heap) := by
    rw [hmem, List.drop_left' h8]
  have hdrop26 : mem.drop 26 = decimal mfb ++ 0 :: heap := by
    rw [show 26 = 8 + 18 from rfl, ← List.drop_drop, hdrop8, List.drop_left' hts]
  refine ⟨?_, ?_, ?_⟩
  · have h := strncpy_append (nulFree_of_isDigit isDigit_of_mem_fmtPad)
      (ts ++ (decimal mfb ++ 0 :: heap)) (s := fmtPad 8 seqNum)
    rwa [h8, ← hmem] at h
  · have h := strncpy_append htsnul (decimal mfb ++ 0 :: heap)
    rwa [hts, ← hdrop8] at h
  · have h := strncpy_append (nulFree_decimal mfb) (0 :: heap)
    rwa [h1, ← hdrop26] at h

/-- The chunks put together are the data, and so are their lengths. -/
theorem recvData_chunks (hdata : NulFree data) (hpos : 0 < data.length) :
    let bodies := (splitData data (getNIesReqd data.length)).map (1 :: 2 :: 3 :: ·)
    (bodies.flatMap fun body => cstr (body.drop 3)) = data ∧
      (bodies.map fun body => body.length - 3).sum = data.length := by
  have hflat := splitData_flatten hpos
  constructor
  · rw [List.flatMap_map]
    have hcstr : ∀ c ∈ splitData data (getNIesReqd data.length),
        cstr ((1 :: 2 :: 3 :: c : Bytes).drop 3) = c := fun c hc =>
      cstr_eq_self (splitData_chunk_nulFree hdata c hc)
    rw [List.flatMap_congr hcstr, List.flatMap_id']
    exact hflat
  · rw [List.map_map]
    have hlen := congrArg List.length hflat
    rwa [List.length_flatten] at hlen

/-- Elements a probe request may have around the block: no stuffing OUI, no MIC. -/
def Ordinary (es : List Element) : Prop := ∀ e ∈ es, ¬ HasStuffingOui e ∧ e.id ≠ eidMic

instance (es : List Element) : Decidable (Ordinary es) := inferInstanceAs (Decidable (∀ e ∈ es, _))

theorem ordinary_nil : Ordinary [] := List.forall_mem_nil _

/-- The parser records the bodies of the fragment, and nothing of what is around it. -/
theorem parse_fragment {pre post : List Element} (hseq : seqNum < 10 ^ 8) (hts : ts.length = 18)
    (hmfb : mfb < 10) (hpos : 0 < data.length) (hmax : data.length ≤ 1394)
    (hothers : Ordinary (pre ++ post)) :
    let r := ieee80211ParseElems (encode (pre ++ stuffingElements seqNum ts mfb data ++ post))
    r.1 ≠ .parseFailed ∧ ¬ r.2.overrun ∧
      r.2.stuffedData.take r.2.nStuffedIes.toNat =
        (stuffingElements seqNum ts mfb data).map Element.body := by
  have hstuff : ∀ e ∈ stuffingElements seqNum ts mfb data, IsStuffing e :=
    stuffingElements_isStuffing hseq hts hmfb hpos
  have hmic : ∀ e ∈ pre ++ stuffingElements seqNum ts mfb data ++ post, e.id ≠ eidMic := by
    intro e he
    rcases List.mem_append.mp he with he | he
    · rcases List.mem_append.mp he with he | he
      · exact (hothers e (List.mem_append_left _ he)).2
      · rw [(hstuff e he).1.1]
        decide
    · exact (hothers e (List.mem_append_right _ he)).2
  have hbodies : stuffingBodies (pre ++ stuffingElements seqNum ts mfb data ++ post) =
      (stuffingElements seqNum ts mfb data).map Element.body := by
    rw [stuffingBodies_append, stuffingBodies_append, stuffingBodies_eq_map hstuff,
      stuffingBodies_eq_nil fun e he h => (hothers e (List.mem_append_left _ he)).1 h.1,
      stuffingBodies_eq_nil fun e he h => (hothers e (List.mem_append_right _ he)).1 h.1,
      List.nil_append, List.append_nil]
  have hcount : ((stuffingElements seqNum ts mfb data).map Element.body).length ≤ 7 := by
    have hn := (getNIesReqd_bounds hpos).1
    rw [List.length_map, stuffingElements, List.length_cons, List.length_map,
      splitData_length (getNIesReqd_pos hpos)]
    omega
  intro r
  obtain ⟨hres, hrecord⟩ := parseElems_encode hmic
  rw [hbodies] at hrecord
  obtain ⟨hd, -⟩ := Prod.mk.inj hrecord
  have hover : ¬ r.2.overrun := by
    rw [Elems.overrun, hd]
    exact Nat.not_lt.mpr (hcount.trans (by decide))
  exact ⟨hres, hover, (RecordOk.take_stuffedData (parseElems_recordOk _) hover).trans hd⟩

/-- The extraction from those bodies. -/
theorem extract_bodies (hdata : NulFree data) (hseq : seqNum < 10 ^ 8) (hts : ts.length = 18)
    (htsnul : NulFree ts) (hmfb : mfb < 10) (hpos : 0 < data.length) (sa : Mac) (heap : Bytes) :
    extract sa ((stuffingElements seqNum ts mfb data).map Element.body) heap =
      some ⟨sa.str, fmtPad 8 seqNum, ts, decimal mfb, data, data.length⟩ := by
  obtain ⟨h8, h18, h1⟩ := strncpy_additionalData heap hseq hts htsnul hmfb
  obtain ⟨hrecv, hlen⟩ := recvData_chunks hdata hpos
  rw [stuffingElements_bodies hseq hts hmfb hpos, extract]
  simp only [h8, h18, h1, hrecv, hlen]

/-- Decoding undoes encoding.  Among any well-formed elements without the
stuffing OUI and without a MIC, the parser does not fail on the block of a
fragment, and the extraction gives back its header strings and its data. -/
theorem extract_iesData {pre post : List Element} (hdata : NulFree data)
    (hpos : 1 ≤ data.length) (hmax : data.length ≤ 1394) (hseq : seqNum ≤ 99999999)
    (hts : ts.length = 18) (hdigits : ∀ b ∈ ts, isDigit b = true) (hmfb : mfb ≤ 1)
    (hothers : Ordinary (pre ++ post)) (sa : Mac) (heap : Bytes) :
    let r := ieee80211ParseElems (encode pre ++ iesData seqNum ts mfb data ++ encode post)
    r.1 ≠ .parseFailed ∧ ¬ r.2.overrun ∧
      ∃ x, extract sa (r.2.stuffedData.take r.2.nStuffedIes.toNat) heap = some x ∧
        x.seqNumStr = fmtPad 8 seqNum ∧ x.timestampStr = ts ∧ x.mfbStr = decimal mfb ∧
        x.recvData = data ∧ x.iesLen = data.length := by
  have hseq8 : seqNum < 10 ^ 8 := by omega
  have hmfb10 : mfb < 10 := by omega
  have htsnul := nulFree_of_isDigit hdigits
  -- the frame is the encoding of one list of elements
  have hframe : encode pre ++ iesData seqNum ts mfb data ++ encode post =
      encode (pre ++ stuffingElements seqNum ts mfb data ++ post) := by
    rw [iesData_eq_encode hseq8 hts htsnul hmfb10 hdata hpos, encode_append, encode_append]
  rw [hframe]
  intro r
  obtain ⟨hres, hover, htake⟩ := parse_fragment hseq8 hts hmfb10 hpos hmax hothers
  rw [htake, extract_bodies hdata hseq8 hts htsnul hmfb10 hpos]
  exact ⟨hres, hover, _, rfl, rfl, rfl, rfl, rfl, rfl⟩

def ssidElement : Element := ⟨0, ascii "ap", by decide⟩

def ratesElement : Element := ⟨1, [130], by decide⟩

/-- One byte of data between an SSID element and a rates element. -/
def oneByteIes : Bytes :=
  encode [ssidElement] ++ iesData 5 (dataOriginTsStr 1 2) 0 [65] ++ encode [ratesElement]

theorem extract_iesData_one_byte :
    let r := ieee80211ParseElems oneByteIes
    ∃ x, extract ⟨2, 0, 0, 0, 0, 7⟩ (r.2.stuffedData.take r.2.nStuffedIes.toNat) [] = some x ∧
      x.seqNumStr = fmtPad 8 5 ∧ x.recvData = [65] := by
  obtain ⟨-, -, x, hx, hseq, -, -, hrecv, -⟩ :=
    @extract_iesData 5 0 (dataOriginTsStr 1 2) [65] [ssidElement] [ratesElement] (by decide)
      (by decide) (by decide) (by decide) (dataOriginTsStr_length (by decide))
      dataOriginTsStr_digits (by decide) (by decide) ⟨2, 0, 0, 0, 0, 7⟩ []
  exact ⟨x, hx, hseq, hrecv⟩

end Fragment

/-! ## From the access point to the client -/

/-- The sequence field is read from at most eight bytes. -/
theorem ackSeqNum_bounds {sa : Mac} {stuffedData : List Bytes} {heap : Bytes} {x : Received}
    (hx : extract sa stuffedData heap = some x) :
    -(10 ^ 7 : Nat) < x.ackSeqNum ∧ x.ackSeqNum < (10 ^ 8 : Nat) := by
  cases stuffedData with
  | nil => cases hx
  | cons header rest =>
      obtain rfl := Option.some.inj hx
      exact atoi_bounds (by omega) (by omega) (strncpy_length_le _ 8)

/-- The ACK of eight characters at most is a stuffing element. -/
theorem ieAck_eq {z : Int} (h : (fmtInt z).length ≤ 8) :
    ieAck z = (vendorElement (fmtInt z)).bytes := by
  rw [Element.bytes, Element.len, vendorElement_body (by omega), ieAck]
  rfl

theorem isAck_vendorElement {s : Bytes} (hpos : 0 < s.length) (h : s.length ≤ 252) :
    IsAck (vendorElement s) := by
  obtain ⟨⟨hid, h3⟩, h4⟩ := isStuffing_vendorElement hpos h
  exact ⟨hid, h3, h4⟩

/-- Behind any well-formed elements `get_ack` stores the number of the ACK. -/
theorem getAck_encode_ieAck {z : Int} (hlo : -(10 ^ 7 : Nat) < z) (hhi : z < (10 ^ 8 : Nat))
    (es : List Element) (slack : Bytes) (old : Int) :
    getAck old { informationElements := some (encode es ++ ieAck z), slack := slack } = z := by
  have hlen : (fmtInt z).length ≤ 8 := fmtInt_length_le (by omega) hlo hhi
  have hack : IsAck (vendorElement (fmtInt z)) :=
    isAck_vendorElement (fmtInt_length_pos _) (by omega)
  have hlist : encode es ++ ieAck z = encode (es ++ [vendorElement (fmtInt z)]) := by
    rw [encode_append, ieAck_eq hlen, encode_cons, encode_nil, List.append_nil]
  rw [hlist, getAck_encode, foldl_ackElement_snoc old es hack, vendorElement_body (by omega)]
  exact atoi_fmtInt_of_length_le (hlen.trans (by decide))

/-- The acknowledgement comes back.  For every header, of digits or not, the
number the access point reads from its sequence field prints into the buffer of
nine bytes; the ACK element is well formed; and behind any well-formed elements
`get_ack` stores that number.  For a header of the client it is `seq_num`. -/
theorem getAck_ieAck {sa : Mac} {stuffedData : List Bytes} {heap : Bytes} {x : Received}
    (hx : extract sa stuffedData heap = some x) (es : List Element) (slack : Bytes)
    (old : Int) :
    (fmtInt x.ackSeqNum).length + 1 ≤ 9 ∧
      (∃ len rest, x.ieAck = 221 :: len :: rest ∧ len.toNat = rest.length ∧
        rest = 1 :: 2 :: 3 :: fmtInt x.ackSeqNum) ∧
      getAck old { informationElements := some (encode es ++ x.ieAck), slack := slack } =
        x.ackSeqNum ∧
      (∀ header more k, stuffedData = header :: more → k < 10 ^ 8 →
        (header.drop 3).take 8 = fmtPad 8 k → x.ackSeqNum = k) := by
  obtain ⟨hlo, hhi⟩ := ackSeqNum_bounds hx
  have hlen : (fmtInt x.ackSeqNum).length ≤ 8 := fmtInt_length_le (by omega) hlo hhi
  have hbody : (vendorElement (fmtInt x.ackSeqNum)).body = 1 :: 2 :: 3 :: fmtInt x.ackSeqNum :=
    vendorElement_body (by omega)
  have hie : x.ieAck = (vendorElement (fmtInt x.ackSeqNum)).bytes := ieAck_eq hlen
  refine ⟨by omega, ?_, ?_, ?_⟩
  · exact ⟨_, _, hie, by rw [Element.len_toNat], hbody⟩
  · exact getAck_encode_ieAck hlo hhi es slack old
  · rintro header more k rfl hk hfield
    obtain rfl := Option.some.inj hx
    have hk8 : (fmtPad 8 k).length = 8 := fmtPad_length (by omega) hk
    have hle : 8 ≤ (header.drop 3).length := by
      rw [← hk8, ← hfield]
      exact List.length_take_le' 8 _
    have hseq : strncpy (additionalData header heap) 8 = fmtPad 8 k := by
      rw [strncpy, Ap.additionalData, List.take_append_of_le_length hle, hfield,
        cstr_eq_self (nulFree_of_isDigit isDigit_of_mem_fmtPad)]
    exact (congrArg atoi hseq).trans (atoi_fmtPad (by omega))

/-- A header that is no number is acknowledged with 0. -/
theorem getAck_ieAck_letters : ∃ x,
    extract ⟨2, 0, 0, 0, 0, 7⟩ [[1, 2, 3, 97, 98]] [] = some x ∧
      getAck (-1) { informationElements := some (encode [] ++ x.ieAck) } = 0 := by
  have hx : extract ⟨2, 0, 0, 0, 0, 7⟩ [[1, 2, 3, 97, 98]] [] = some _ := rfl
  obtain ⟨-, -, hget, -⟩ := getAck_ieAck hx [] [] (-1)
  exact ⟨_, hx, hget⟩

end ProbeStuffing

import ProbeStuffing.Lib.CString
import ProbeStuffing.Lib.Tlv

/-!
# The client's encoder

`main.c` turns one fragment of a message into a block of vendor elements.  The
first element carries the header: eight digits of sequence number, eighteen of
origin timestamp and the more-fragment bit.  The data follows in chunks of at
most 252 bytes, one element each.

The definitions work on bytes, as `utils.c` does: `createVendorIe` writes the
length byte itself, from `strlen`, and `splitData` cuts by index.  The lemmas
say what the bytes are.  The chunks put together are the data
(`splitData_flatten`), none is longer than 252 bytes, and so the block is the
encoding of a list of elements (`iesData_eq_encode`).
-/

namespace ProbeStuffing.Client

open CString Tlv

/-! ## `utils.c` -/

/-- `create_vendor_ie`: tag 221, the length of what follows, OUI 1:2:3, the string. -/
def createVendorIe (data : Bytes) : Bytes :=
  let dataSize := (cstr data).length
  let ieSize := 3 + dataSize
  221 :: UInt8.ofNat ieSize :: 1 :: 2 :: 3 :: data.take dataSize

/-- `get_n_ies_reqd`. -/
def getNIesReqd (lenDataToStuff : Nat) : Nat :=
  if lenDataToStuff % 252 = 0 then lenDataToStuff / 252 else lenDataToStuff / 252 + 1

/-- `split_data`: `nIes - 1` chunks of 252 bytes and what is left. -/
def splitData (data : Bytes) (nIes : Nat) : List Bytes :=
  let lenLeft := data.length - (nIes - 1) * 252
  (List.range (nIes - 1)).map (fun i => (data.drop (i * 252)).take 252) ++
    [(data.drop ((nIes - 1) * 252)).take lenLeft]

/-! ## The block of one fragment -/

/-- `data_origin_ts_str`: `"%012u%06u"` of two `unsigned int`. -/
def dataOriginTsStr (sec usec : Nat) : Bytes :=
  fmtPad 12 (sec % 2 ^ 32) ++ fmtPad 6 (usec % 2 ^ 32)

/-- `additional_data`: `"%08d"`, the timestamp string and `"%d"`. -/
def additionalData (seqNum : Nat) (dataOriginTs : Bytes) (mfb : Nat) : Bytes :=
  fmtPad 8 seqNum ++ dataOriginTs ++ decimal mfb

/-- `ies_data`: the header element and one element per chunk. -/
def iesData (seqNum : Nat) (dataOriginTs : Bytes) (mfb : Nat) (data : Bytes) : Bytes :=
  createVendorIe (additionalData seqNum dataOriginTs mfb) ++
    (splitData data (getNIesReqd data.length)).flatMap createVendorIe

/-! ## The chunks -/

theorem getNIesReqd_bounds {n : Nat} (h : 0 < n) :
    (getNIesReqd n - 1) * 252 < n ∧ n ≤ getNIesReqd n * 252 := by
  unfold getNIesReqd
  split <;> omega

theorem getNIesReqd_pos {n : Nat} (h : 0 < n) : 0 < getNIesReqd n := by
  unfold getNIesReqd
  split <;> omega

/-- Chunks cut by index are a prefix of the data. -/
theorem flatten_range_take (data : Bytes) : ∀ n : Nat,
    ((List.range n).map fun i => (data.drop (i * 252)).take 252).flatten = data.take (n * 252)
  | 0 => by simp
  | n + 1 => by
      rw [List.range_succ, List.map_append, List.flatten_append, flatten_range_take data n,
        List.map_singleton, List.flatten_singleton, Nat.succ_mul, List.take_add]

theorem splitData_flatten {data : Bytes} (h : 0 < data.length) :
    (splitData data (getNIesReqd data.length)).flatten = data := by
  have hb := getNIesReqd_bounds h
  rw [splitData, List.flatten_append, flatten_range_take, List.flatten_singleton,
    List.take_of_length_le (l := List.drop _ data) (by simp), List.take_append_drop]

theorem splitData_length {data : Bytes} {n : Nat} (hn : 0 < n) : (splitData data n).length = n := by
  simp only [splitData, List.length_append, List.length_map, List.length_range,
    List.length_singleton]
  omega

/-- No chunk exceeds the 252 bytes an element has room for. -/
theorem splitData_chunk_le {data : Bytes} (h : 0 < data.length) :
    ∀ c ∈ splitData data (getNIesReqd data.length), c.length ≤ 252 := by
  have hb := getNIesReqd_bounds h
  intro c hc
  simp only [splitData, List.mem_append, List.mem_map, List.mem_range, List.mem_singleton] at hc
  rcases hc with ⟨i, -, rfl⟩ | rfl
  · exact List.length_take_le _ _
  · simp only [List.length_take, List.length_drop]
    omega

/-- No chunk is empty: the last one has at least one byte left. -/
theorem splitData_chunk_pos {data : Bytes} (h : 0 < data.length) :
    ∀ c ∈ splitData data (getNIesReqd data.length), 0 < c.length := by
  have hb := getNIesReqd_bounds h
  intro c hc
  simp only [splitData, List.mem_append, List.mem_map, List.mem_range, List.mem_singleton] at hc
  rcases hc with ⟨i, hi, rfl⟩ | rfl
  · have hi' : (i + 1) * 252 ≤ (getNIesReqd data.length - 1) * 252 :=
      Nat.mul_le_mul_right 252 hi
    simp only [List.length_take, List.length_drop]
    omega
  · simp only [List.length_take, List.length_drop]
    omega

theorem splitData_chunk_nulFree {data : Bytes} (hd : NulFree data) {n : Nat} :
    ∀ c ∈ splitData data n, NulFree c := by
  intro c hc
  simp only [splitData, List.mem_append, List.mem_map, List.mem_singleton] at hc
  rcases hc with ⟨i, -, rfl⟩ | rfl
  · exact hd.sublist ((List.take_sublist _ _).trans (List.drop_sublist _ _))
  · exact hd.sublist ((List.take_sublist _ _).trans (List.drop_sublist _ _))

/-! ## Elements -/

/-- The stuffing element of a string, for strings of at most 252 bytes. -/
def vendorElement (data : Bytes) : Element where
  id := 221
  body := (1 :: 2 :: 3 :: data).take 255
  fits := List.length_take_le _ _

theorem vendorElement_body {data : Bytes} (h : data.length ≤ 252) :
    (vendorElement data).body = 1 :: 2 :: 3 :: data :=
  List.take_of_length_le (by simp; omega)

/-- The bytes `create_vendor_ie` writes are an element when the string fits. -/
theorem createVendorIe_eq {data : Bytes} (hnul : NulFree data) (h : data.length ≤ 252) :
    createVendorIe data = (vendorElement data).bytes := by
  rw [Element.bytes, Element.len, vendorElement_body h, createVendorIe, cstr_eq_self hnul,
    List.take_length, List.length_cons, List.length_cons, List.length_cons, Nat.add_comm 3]
  rfl

/-- A header: eight digits, eighteen digits and one bit. -/
theorem additionalData_length {seqNum mfb : Nat} {ts : Bytes} (hs : seqNum < 10 ^ 8)
    (hts : ts.length = 18) (hm : mfb < 10) : (additionalData seqNum ts mfb).length = 27 := by
  rw [additionalData, List.length_append, List.length_append, fmtPad_length (by omega) hs, hts,
    decimal_lt hm, List.length_singleton]

theorem additionalData_nulFree {seqNum mfb : Nat} {ts : Bytes} (hts : NulFree ts) :
    NulFree (additionalData seqNum ts mfb) :=
  ((nulFree_of_isDigit isDigit_of_mem_fmtPad).append hts).append (nulFree_decimal mfb)

/-- The elements of one fragment. -/
def stuffingElements (seqNum : Nat) (ts : Bytes) (mfb : Nat) (data : Bytes) : List Element :=
  vendorElement (additionalData seqNum ts mfb) ::
    (splitData data (getNIesReqd data.length)).map vendorElement

/-- The byte loop of `main.c` writes the encoding of those elements. -/
theorem iesData_eq_encode {seqNum mfb : Nat} {ts data : Bytes} (hs : seqNum < 10 ^ 8)
    (hts : ts.length = 18) (htsnul : NulFree ts) (hm : mfb < 10) (hd : NulFree data)
    (hpos : 0 < data.length) :
    iesData seqNum ts mfb data = encode (stuffingElements seqNum ts mfb data) := by
  have hlen : (additionalData seqNum ts mfb).length = 27 := additionalData_length hs hts hm
  rw [iesData, stuffingElements, encode_cons,
    createVendorIe_eq (additionalData_nulFree htsnul) (by omega)]
  congr 1
  rw [encode, List.flatMap_map]
  exact List.flatMap_congr fun c hc =>
    createVendorIe_eq (splitData_chunk_nulFree hd c hc) (splitData_chunk_le hpos c hc)

/-- The timestamp string has eighteen digits, since `%u` takes the seconds modulo `2^32`. -/
theorem dataOriginTsStr_length {sec usec : Nat} (h : usec < 10 ^ 6) :
    (dataOriginTsStr sec usec).length = 18 := by
  have h1 : sec % 2 ^ 32 < 10 ^ 12 := by omega
  have h2 : usec % 2 ^ 32 < 10 ^ 6 := by omega
  rw [dataOriginTsStr, List.length_append, fmtPad_length (by omega) h1, fmtPad_length (by omega) h2]

theorem dataOriginTsStr_digits {sec usec : Nat} :
    ∀ b ∈ dataOriginTsStr sec usec, isDigit b = true := by
  intro b hb
  rcases List.mem_append.mp hb with h | h
  · exact isDigit_of_mem_fmtPad b h
  · exact isDigit_of_mem_fmtPad b h

example : createVendorIe [65, 66] = [221, 5, 1, 2, 3, 65, 66] := by decide

end ProbeStuffing.Client

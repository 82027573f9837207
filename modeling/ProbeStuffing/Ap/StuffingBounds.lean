import ProbeStuffing.Ap.OrdinaryFields
import ProbeStuffing.Ap.AckSlot

/-!
# The bounds of stuffed data

Neither the parser nor the handler compares a count or a length of stuffed data
with the size of the object it is about to use.  This module lists the accesses
of both and says when they stay inside their objects.

The parser stores each stuffing element under the index in `n_stuffed_ies`.  The
tenth store is the last one inside the arrays, so all is well exactly for ten
stuffing elements or less (`recordedInBounds_iff`).

The handler copies the bodies behind their OUI to the heap and reads the header
fields at fixed offsets.  The copies fit whatever the lengths are, since the
parser records bodies of four bytes or more.  The reads stay inside the copied
header, with its terminator, exactly when that reaches up to the offset of the
last field (`extractInBounds_iff`).
-/

namespace ProbeStuffing.Ap

open CString Tlv

/-! ## Accesses -/

/-- An access to `count` bytes at offset `first` of an object of `size` bytes.
The code subtracts in `int`, so the three are integers. -/
structure Access where
  size : Int
  first : Int
  count : Int
deriving DecidableEq

structure Access.InBounds (a : Access) : Prop where
  first_nonneg : 0 ≤ a.first
  count_nonneg : 0 ≤ a.count
  end_le : a.first + a.count ≤ a.size

theorem Access.inBounds_mk {size first count : Int} :
    (Access.mk size first count).InBounds ↔ 0 ≤ first ∧ 0 ≤ count ∧ first + count ≤ size :=
  ⟨fun h => ⟨h.first_nonneg, h.count_nonneg, h.end_le⟩, fun h => ⟨h.1, h.2.1, h.2.2⟩⟩

/-- `sizeof(char *)`. -/
def sizeofPointer : Int := 8

/-! ## The stores of the parser -/

/-- The stores for one stuffing element, with the same index in both arrays. -/
structure RecordStore where
  index : UInt8
  pos : Bytes
deriving DecidableEq

/-- `stuffed_data[n_stuffed_ies] = pos`. -/
def RecordStore.stuffedData (s : RecordStore) : Access :=
  ⟨sizeofPointer * stuffedDataSize, sizeofPointer * s.index.toNat, sizeofPointer⟩

/-- `stuffed_data_len[n_stuffed_ies] = elen`. -/
def RecordStore.stuffedDataLen (s : RecordStore) : Access :=
  ⟨stuffedDataSize, s.index.toNat, 1⟩

/-- The stores for the elements of a list, from a state of the parser. -/
def recordStores : List Element → Elems × Nat → List RecordStore
  | [], _ => []
  | e :: es, st =>
      (if IsStuffing e then [⟨st.1.nStuffedIes, e.body⟩] else []) ++
        recordStores es (foldElem st e)

/-- The stores of `ieee802_11_parse_elems`. -/
def stores (start : Bytes) : List RecordStore := recordStores (elements start).1 ({}, 0)

/-- Store number `j` has the index `j`, as far as the counter can count. -/
theorem recordStores_eq (es : List Element) (st : Elems × Nat) :
    recordStores es st =
      (stuffingBodies es).mapIdx fun j pos => ⟨st.1.nStuffedIes + UInt8.ofNat j, pos⟩ := by
  induction es generalizing st with
  | nil => rfl
  | cons e es ih =>
      rw [recordStores, ih, stuffingBodies_cons]
      split
      · next h =>
          have hn : (foldElem st e).1.nStuffedIes = st.1.nStuffedIes + 1 :=
            congrArg (fun r => r.1.nStuffedIes) (parseElem_stuffing h st.1 st.2)
          rw [hn, List.singleton_append, List.singleton_append, List.mapIdx_cons]
          refine congrArg₂ List.cons (by simp) (List.mapIdx_eq_mapIdx_iff.mpr fun j _ => ?_)
          rw [UInt8.add_assoc, Nat.add_comm, UInt8.ofNat_add]
          rfl
      · next h =>
          have hn : (foldElem st e).1.nStuffedIes = st.1.nStuffedIes :=
            congrArg Prod.snd (parseElem_ordinary h st.1 st.2)
          rw [hn, List.nil_append, List.nil_append]

theorem stores_eq (start : Bytes) :
    stores start =
      (stuffingBodies (elements start).1).mapIdx fun j pos => ⟨UInt8.ofNat j, pos⟩ := by
  rw [stores, recordStores_eq]
  simp

/-- Every stuffing element is recorded inside the arrays and touches nothing
else, and unless the parser fails the counter is the number of them. -/
structure RecordedInBounds (start : Bytes) : Prop where
  index_lt : ∀ s ∈ stores start, s.index.toNat < stuffedDataSize
  inBounds : ∀ s ∈ stores start, s.stuffedData.InBounds ∧ s.stuffedDataLen.InBounds
  counted : (ieee80211ParseElems start).1 ≠ .parseFailed →
    (ieee80211ParseElems start).2.nStuffedIes.toNat = (stores start).length

theorem RecordStore.inBounds {s : RecordStore} (h : s.index.toNat < stuffedDataSize) :
    s.stuffedData.InBounds ∧ s.stuffedDataLen.InBounds := by
  rw [stuffedData, stuffedDataLen, Access.inBounds_mk, Access.inBounds_mk, sizeofPointer]
  omega

/-- The parser records within bounds exactly when its buffer has ten stuffing
elements or less, up to the first MIC and the first incomplete element. -/
theorem recordedInBounds_iff (start : Bytes) :
    RecordedInBounds start ↔ (stuffingBodies (elements start).1).length ≤ 10 := by
  have hstores := stores_eq start
  constructor
  · intro h
    refine Nat.le_of_not_lt fun hten => ?_
    have hlast : ⟨UInt8.ofNat 10, (stuffingBodies (elements start).1)[10]⟩ ∈ stores start := by
      rw [hstores]
      exact List.mem_mapIdx.mpr ⟨10, hten, rfl⟩
    have hlt : (UInt8.ofNat 10).toNat < 10 := h.index_lt _ hlast
    exact absurd hlt (by decide)
  · intro hten
    have hindex : ∀ s ∈ stores start, s.index.toNat < stuffedDataSize := by
      intro s hs
      rw [hstores] at hs
      obtain ⟨j, hj, rfl⟩ := List.mem_mapIdx.mp hs
      have hlt : j < 10 := hj.trans_le hten
      show (UInt8.ofNat j).toNat < 10
      rwa [UInt8.toNat_ofNat_of_lt' (hlt.trans (by decide))]
    refine ⟨hindex, fun s hs => RecordStore.inBounds (hindex s hs), fun _ => ?_⟩
    rw [(parseElems_recordOk start).1, parseElems_stuffedData, hstores, List.length_mapIdx]
    exact UInt8.toNat_ofNat_of_lt' (hten.trans_lt (by decide))

/-- Eleven stuffing elements. -/
def elevenStuffed : List Element := List.replicate 11 zeroStuffed

theorem not_recordedInBounds_elevenStuffed : ¬ RecordedInBounds (encode elevenStuffed) := by
  intro h
  have hlast : ⟨10, [1, 2, 3, 48]⟩ ∈ stores (encode elevenStuffed) := by decide
  exact absurd (h.index_lt _ hlast) (by decide)

/-! ## The copies of the handler -/

/-- A data element: the copy of its body behind the OUI, its terminator, and
`strcat` reading it. -/
def dataAccesses (body : Bytes) : List Access :=
  let stuffedDataLen : Int := body.length
  let size := sizeofPointer * (stuffedDataLen - 2)
  [⟨stuffedDataLen, 3, stuffedDataLen - 3⟩, ⟨size, 0, stuffedDataLen - 3⟩,
    ⟨size, stuffedDataLen - 3, 1⟩, ⟨size, 0, (cstr (body.drop 3)).length + 1⟩]

/-- The entries of `ies_stuffed_data`, one for each data element. -/
def entryAccesses (nStuffedIes : Nat) : List Access :=
  (List.range (nStuffedIes - 1)).map fun i : Nat =>
    ⟨sizeofPointer * (nStuffedIes - 1), sizeofPointer * i, sizeofPointer⟩

/-- `recv_data`: the concatenation, and its last byte. -/
def recvAccesses (rest : List Bytes) : List Access :=
  let iesLen : Int := (rest.map fun body => (body.length : Int) - 3).sum
  let size := sizeofPointer * (iesLen + 1)
  [⟨size, 0, (rest.flatMap fun body => cstr (body.drop 3)).length + 1⟩, ⟨size, iesLen, 1⟩]

/-- `additional_data`: the copy of the header body behind the OUI, and its terminator. -/
def headerAccesses (header : Bytes) : List Access :=
  let stuffedDataLen : Int := header.length
  [⟨stuffedDataLen, 3, stuffedDataLen - 3⟩, ⟨stuffedDataLen - 2, 0, stuffedDataLen - 3⟩,
    ⟨stuffedDataLen - 2, stuffedDataLen - 3, 1⟩]

/-- What `strncpy(dst, additional_data + first, n)` reads: up to a NUL, and no
more than `n` bytes. -/
def fieldRead (header heap : Bytes) (first n : Nat) : Access :=
  ⟨header.length - 2, first,
    (min n ((cstr ((additionalData header heap).drop first)).length + 1) : Nat)⟩

/-- A header field: the read, the copy into `n + 1` bytes, and its terminator. -/
def fieldAccesses (header heap : Bytes) (first n : Nat) : List Access :=
  [fieldRead header heap first n, ⟨n + 1, 0, n⟩, ⟨n + 1, n, 1⟩]

/-- The accesses of `extract`. -/
def extractAccesses (sa : Mac) (stuffedData : List Bytes) (heap : Bytes) : List Access :=
  match stuffedData with
  | [] => []
  | header :: rest =>
      List.flatten
        [entryAccesses stuffedData.length, rest.flatMap dataAccesses, recvAccesses rest,
          headerAccesses header, [⟨18, 0, sa.str.length + 1⟩], fieldAccesses header heap 0 8,
          fieldAccesses header heap 8 18, fieldAccesses header heap 26 1]

/-- The accesses of `handle_probe_req` to stuffed data.  A request that is
rejected has none. -/
def probeReqAccesses (env : Env) (frame : Bytes) : List Access :=
  match accepted env frame with
  | none => []
  | some (mgmt, elems) =>
      extractAccesses mgmt.sa (elems.stuffedData.take elems.nStuffedIes.toNat) env.heap

/-- All of them stay inside their objects. -/
def ExtractInBounds (env : Env) (frame : Bytes) : Prop :=
  ∀ a ∈ probeReqAccesses env frame, a.InBounds

theorem four_le_of_mem_stuffingBodies {es : List Element} {body : Bytes}
    (h : body ∈ stuffingBodies es) : 4 ≤ body.length := by
  obtain ⟨e, he, rfl⟩ := List.mem_map.mp h
  exact (of_decide_eq_true (List.mem_filter.mp he).2).2

theorem cstr_drop_length_le (body : Bytes) : (cstr (body.drop 3)).length ≤ body.length - 3 := by
  rw [← List.length_drop]
  exact cstr_length_le _

/-- The copies of a data element fit. -/
theorem dataAccesses_inBounds {body : Bytes} (h : 4 ≤ body.length) :
    ∀ a ∈ dataAccesses body, a.InBounds := by
  have hcstr := cstr_drop_length_le body
  simp only [dataAccesses, List.forall_mem_cons, List.not_mem_nil, IsEmpty.forall_iff,
    implies_true, and_true, Access.inBounds_mk, sizeofPointer]
  omega

theorem entryAccesses_inBounds (n : Nat) : ∀ a ∈ entryAccesses n, a.InBounds := by
  intro a ha
  obtain ⟨i, hi, rfl⟩ := List.mem_map.mp ha
  have hlt : i < n - 1 := List.mem_range.mp hi
  rw [Access.inBounds_mk, sizeofPointer]
  omega

/-- So does their concatenation. -/
theorem recvData_length_le {rest : List Bytes} (h : ∀ body ∈ rest, 4 ≤ body.length) :
    ((rest.flatMap fun body => cstr (body.drop 3)).length : Int) ≤
      (rest.map fun body => (body.length : Int) - 3).sum := by
  induction rest with
  | nil => simp
  | cons body rest ih =>
      obtain ⟨hbody, hrest⟩ := List.forall_mem_cons.mp h
      have hcstr := cstr_drop_length_le body
      have hsum := ih hrest
      rw [List.flatMap_cons, List.length_append, List.map_cons, List.sum_cons]
      push_cast
      omega

theorem recvAccesses_inBounds {rest : List Bytes} (h : ∀ body ∈ rest, 4 ≤ body.length) :
    ∀ a ∈ recvAccesses rest, a.InBounds := by
  have hlen := recvData_length_le h
  simp only [recvAccesses, List.forall_mem_cons, List.not_mem_nil, IsEmpty.forall_iff,
    implies_true, and_true, Access.inBounds_mk, sizeofPointer]
  omega

theorem headerAccesses_inBounds {header : Bytes} (h : 4 ≤ header.length) :
    ∀ a ∈ headerAccesses header, a.InBounds := by
  simp only [headerAccesses, List.forall_mem_cons, List.not_mem_nil, IsEmpty.forall_iff,
    implies_true, and_true, Access.inBounds_mk]
  omega

/-- A field is read inside the copy of the header if that reaches up to its end. -/
theorem fieldAccesses_inBounds {header : Bytes} (heap : Bytes) {first n : Nat}
    (h : first + n + 2 ≤ header.length) : ∀ a ∈ fieldAccesses header heap first n, a.InBounds := by
  simp only [fieldAccesses, fieldRead, List.forall_mem_cons, List.not_mem_nil, IsEmpty.forall_iff,
    implies_true, and_true, Access.inBounds_mk]
  omega

/-- One byte of it is read in any case. -/
theorem header_length_of_fieldRead {header heap : Bytes} {first n : Nat} (hn : 0 < n)
    (h : (fieldRead header heap first n).InBounds) : first + 3 ≤ header.length := by
  have hend := h.end_le
  simp only [fieldRead] at hend
  omega

/-- Every object but the copy of the header is large enough for all lengths. -/
theorem extractAccesses_inBounds_iff (sa : Mac) {header : Bytes} {rest : List Bytes}
    (heap : Bytes) (hheader : 4 ≤ header.length) (hrest : ∀ body ∈ rest, 4 ≤ body.length) :
    (∀ a ∈ extractAccesses sa (header :: rest) heap, a.InBounds) ↔ 29 ≤ header.length := by
  simp only [extractAccesses, List.flatten_cons, List.forall_mem_append]
  constructor
  · rintro ⟨-, -, -, -, -, -, -, hmfb, -⟩
    exact header_length_of_fieldRead Nat.one_pos (List.forall_mem_cons.mp hmfb).1
  · intro hlen
    have hcopies : ∀ a ∈ rest.flatMap dataAccesses, a.InBounds := by
      intro a ha
      obtain ⟨body, hbody, hmem⟩ := List.mem_flatMap.mp ha
      exact dataAccesses_inBounds (hrest body hbody) a hmem
    have hmac : ∀ a ∈ [(⟨18, 0, sa.str.length + 1⟩ : Access)], a.InBounds := by
      intro a ha
      rw [List.mem_singleton.mp ha, Mac.str_length, Access.inBounds_mk]
      decide
    exact ⟨entryAccesses_inBounds _, hcopies, recvAccesses_inBounds hrest,
      headerAccesses_inBounds hheader, hmac, fieldAccesses_inBounds _ (by omega),
      fieldAccesses_inBounds _ (by omega), fieldAccesses_inBounds _ (by omega),
      List.forall_mem_nil _⟩

/-- The handler stays inside its objects exactly when the body of the first
stuffing element has 29 bytes or more: an OUI, and 26 bytes of header that make
the terminator of the copy the byte at the offset of the more-fragment bit. -/
theorem extractInBounds_iff {env : Env} {frame : Bytes} {mgmt : Mgmt} {elems : Elems}
    {header : Bytes} {rest : List Bytes} (ha : accepted env frame = some (mgmt, elems))
    (hbodies : stuffingBodies (elements mgmt.ie).1 = header :: rest) (hten : rest.length < 10) :
    ExtractInBounds env frame ↔ 29 ≤ header.length := by
  obtain ⟨-, -, -, -, helems⟩ := accepted_iff.mp ha
  have htake : elems.stuffedData.take elems.nStuffedIes.toNat = header :: rest := by
    rw [helems, ← hbodies]
    exact parseElems_take_stuffedData (by rwa [hbodies])
  have hfour : ∀ body ∈ header :: rest, 4 ≤ body.length := by
    rw [← hbodies]
    exact fun body hbody => four_le_of_mem_stuffingBodies hbody
  obtain ⟨hheader, hrest⟩ := List.forall_mem_cons.mp hfour
  have haccesses : probeReqAccesses env frame =
      extractAccesses mgmt.sa (header :: rest) env.heap := by
    rw [probeReqAccesses, ha]
    exact congrArg (extractAccesses mgmt.sa · env.heap) htake
  rw [ExtractInBounds, haccesses]
  exact extractAccesses_inBounds_iff mgmt.sa env.heap hheader hrest

theorem extractInBounds_iff_headerSeven :
    ExtractInBounds {} (broadcastProbe 7 (ssidAndRates ++ headerSeven)) ↔
      29 ≤ ([1, 2, 3, 55] : Bytes).length := by
  have ha : accepted {} (broadcastProbe 7 (ssidAndRates ++ headerSeven)) = some (_, _) := rfl
  have hbodies : stuffingBodies (elements (ssidAndRates ++ headerSeven)).1 = [[1, 2, 3, 55]] := by
    decide
  exact extractInBounds_iff ha hbodies (by decide)

/-- The header `7` is a copy of two bytes, and the timestamp is read at offset 8. -/
theorem not_extractInBounds_headerSeven :
    ¬ ExtractInBounds {} (broadcastProbe 7 (ssidAndRates ++ headerSeven)) := by
  intro h
  have hread : fieldRead [1, 2, 3, 55] [] 8 18 ∈
      probeReqAccesses {} (broadcastProbe 7 (ssidAndRates ++ headerSeven)) := by decide
  exact absurd (header_length_of_fieldRead (by decide) (h _ hread)) (by decide)

end ProbeStuffing.Ap

import ProbeStuffing.Client.Fragmentation

/-!
# The bytes of one frame

The kernel gets `ies_len` bytes of elements with each scan, and 1394 bytes of
data per frame were derived from a capacity of 1452 for them.  The derivation
counts four bytes of overhead for each element.  `create_vendor_ie` writes five:
the tag, the length and three of OUI.

With the header of 27 characters that makes 32 bytes, and five more for each of
up to six elements of data.  A fragment of 1390 bytes fills the capacity exactly,
and the four lengths above it exceed it (`iesLen_le_iff`).  A full fragment has
1456 bytes of elements, so only messages of up to 1390 bytes keep to the budget.
-/

namespace ProbeStuffing.Client

open CString Trace

/-! ## Lengths of elements -/

/-- `ie_len`: the tag, `ie_size` and the length byte. -/
def ieLen (data : Bytes) : Nat :=
  let vendorTagNumberLen := 1
  let vendorOuiLen := 3
  let ieSize := vendorOuiLen + (cstr data).length
  vendorTagNumberLen + ieSize + 1

/-- `ies_len`, added up over the header and the chunks. -/
def iesLen (seqNum : Nat) (dataOriginTs : Bytes) (mfb : Nat) (data : Bytes) : Nat :=
  ieLen (additionalData seqNum dataOriginTs mfb) +
    ((splitData data (getNIesReqd data.length)).map ieLen).sum

/-- What fits into the elements of a frame. -/
def iesCapacity : Nat := 1452

theorem createVendorIe_length (data : Bytes) : (createVendorIe data).length = ieLen data := by
  have hle := cstr_length_le data
  simp only [createVendorIe, ieLen, List.length_cons, List.length_take]
  omega

/-- The elements that are passed on have that length. -/
theorem iesData_length (seqNum : Nat) (ts : Bytes) (mfb : Nat) (data : Bytes) :
    (iesData seqNum ts mfb data).length = iesLen seqNum ts mfb data := by
  rw [iesData, iesLen, List.length_append, createVendorIe_length, List.length_flatMap]
  simp only [createVendorIe_length]

/-- Chunks without NUL cost five bytes each, and their own. -/
theorem sum_map_ieLen {chunks : List Bytes} (h : ∀ c ∈ chunks, NulFree c) :
    (chunks.map ieLen).sum = chunks.flatten.length + 5 * chunks.length := by
  induction chunks with
  | nil => rfl
  | cons c chunks ih =>
      rw [List.map_cons, List.sum_cons, ih fun d hd => h d (List.mem_cons_of_mem c hd), ieLen,
        cstr_eq_self (h c List.mem_cons_self), List.flatten_cons, List.length_append,
        List.length_cons]
      ring

section Fragment

variable {seqNum mfb : Nat} {ts data : Bytes}

theorem iesLen_eq (hs : seqNum < 10 ^ 8) (hts : ts.length = 18) (htsnul : NulFree ts)
    (hm : mfb < 10) (hd : NulFree data) (hpos : 0 < data.length) :
    iesLen seqNum ts mfb data = 32 + data.length + 5 * getNIesReqd data.length := by
  have hheader : (additionalData seqNum ts mfb).length = 27 := additionalData_length hs hts hm
  rw [iesLen, sum_map_ieLen (splitData_chunk_nulFree hd), splitData_flatten hpos,
    splitData_length (getNIesReqd_pos hpos), ieLen, cstr_eq_self (additionalData_nulFree htsnul),
    hheader]
  ring

/-- From 1261 bytes on there are six chunks, and they leave room for 1390. -/
theorem iesLen_le_iff {n : Nat} (hpos : 0 < n) (hle : n ≤ 1394) :
    32 + n + 5 * getNIesReqd n ≤ iesCapacity ↔ n ≤ 1390 := by
  obtain ⟨hlo, hhi⟩ := getNIesReqd_bounds hpos
  rw [iesCapacity]
  omega

end Fragment

/-! ## The fragments of a message -/

section Message

variable {D : Bytes} {sec usec : Nat}

theorem fragmentOf_data_length_eq (ts : Bytes) {i : Nat} (h : 1394 * i < D.length) :
    (fragmentOf D ts i).data.length = min 1394 (D.length - 1394 * i) := by
  simp only [fragmentOf, slice, List.length_drop, List.length_take]
  omega

/-- What the kernel gets for fragment `i`. -/
theorem fragmentOf_iesData_length (hD : NulFree D) (hmax : D.length ≤ 2 ^ 31 - 1)
    (husec : usec < 10 ^ 6) {i : Nat} (h : 1394 * i < D.length) :
    (fragmentOf D (dataOriginTsStr sec usec) i).iesData.length =
      32 + min 1394 (D.length - 1394 * i) + 5 * getNIesReqd (min 1394 (D.length - 1394 * i)) := by
  have hseq : i < 10 ^ 8 := by omega
  have hts : (dataOriginTsStr sec usec).length = 18 := dataOriginTsStr_length husec
  have hlen := iesLen_eq hseq hts (nulFree_of_isDigit dataOriginTsStr_digits)
    (fragmentOf_mfb_lt D (dataOriginTsStr sec usec) i)
    (fragmentOf_data_nulFree hD (dataOriginTsStr sec usec) i)
    (fragmentOf_data_length (dataOriginTsStr sec usec) h).1
  rw [← fragmentOf_data_length_eq (dataOriginTsStr sec usec) h, ← hlen]
  exact iesData_length _ _ _ _

theorem fragmentOf_budget_iff (hD : NulFree D) (hmax : D.length ≤ 2 ^ 31 - 1)
    (husec : usec < 10 ^ 6) {i : Nat} (h : 1394 * i < D.length) :
    (fragmentOf D (dataOriginTsStr sec usec) i).iesData.length ≤ iesCapacity ↔
      min 1394 (D.length - 1394 * i) ≤ 1390 := by
  rw [fragmentOf_iesData_length hD hmax husec h]
  exact iesLen_le_iff (by omega) (by omega)

/-- The first round transmits the first fragment. -/
theorem transmit_first (effort : Int) (hD : NulFree D) (hpos : 0 < D.length) (ts : Bytes) :
    ∃ st tr, (sendLoop effort D ts).run (Locals.start D ts) [⟨-1, 0, []⟩] = some (st, tr) ∧
      .transmit 0 (fragmentOf D ts 0) (-1) ∈ tr := by
  have hsome : (Locals.start D ts).fragment ≠ none := by
    rw [Locals.start, nextFragment_eq hD (by simp), if_pos (by simpa using hpos)]
    exact Option.some_ne_none _
  have hc : Coupled D ts (Locals.start D ts) :=
    coupled_nextFragment hD (by simp) (by decide) (by decide) hsome
  have hzero : (Locals.start D ts).seqNum = 0 := nextFragment_seqNum {}
  obtain ⟨es, hes⟩ := sendRound_transmits effort D ts hc.fragment ⟨-1, 0, []⟩
  refine ⟨(sendRound effort D ts (Locals.start D ts) ⟨-1, 0, []⟩).1,
    (sendRound effort D ts (Locals.start D ts) ⟨-1, 0, []⟩).2,
    Machine.run_singleton_iff.mpr rfl, ?_⟩
  rw [hes, hzero]
  exact List.mem_cons_self

/-- Whatever the outcomes, the elements of a transmission keep to the capacity
exactly when its fragment has at most 1390 bytes.  So they do for all fragments
of a message exactly when the message has at most 1390. -/
theorem sendLoop_budget_iff (effort : Int) (hD : NulFree D) (hmax : D.length ≤ 2 ^ 31 - 1)
    (husec : usec < 10 ^ 6) {rounds : List Round} {st : Locals} {tr : List Event}
    (hrun : (sendLoop effort D (dataOriginTsStr sec usec)).run
      (Locals.start D (dataOriginTsStr sec usec)) rounds = some (st, tr)) :
    (∀ i f err, .transmit i f err ∈ tr →
        (f.iesData.length ≤ iesCapacity ↔ min 1394 (D.length - 1394 * i) ≤ 1390)) ∧
      ((∀ i, 1394 * i < D.length →
          (fragmentOf D (dataOriginTsStr sec usec) i).iesData.length ≤ iesCapacity) ↔
        D.length ≤ 1390) := by
  constructor
  · intro i f err hmem
    obtain ⟨pre, post, hsplit⟩ := List.append_of_mem hmem
    obtain ⟨rfl, hlt, -⟩ := (sendInv_run hD hrun).transmits pre _ post hsplit i f err rfl
    exact fragmentOf_budget_iff hD hmax husec hlt
  · constructor
    · intro hall
      rcases Nat.eq_zero_or_pos D.length with hzero | hpos
      · omega
      · -- the first fragment is full, or it is the message
        have hfirst : 1394 * 0 < D.length := by omega
        have hle := (fragmentOf_budget_iff hD hmax husec hfirst).mp (hall 0 hfirst)
        omega
    · intro hle i hi
      rw [fragmentOf_budget_iff hD hmax husec hi]
      omega

/-- One byte, sent once. -/
theorem sendLoop_budget_one_byte : ∃ st tr, (sendLoop 2 [120] (dataOriginTsStr 0 0)).run
    (Locals.start [120] (dataOriginTsStr 0 0)) [⟨-1, 0, []⟩] = some (st, tr) ∧
      ∀ i f err, .transmit i f err ∈ tr →
        (f.iesData.length ≤ iesCapacity ↔ min 1394 (1 - 1394 * i) ≤ 1390) := by
  have husec : 0 < 10 ^ 6 := by decide
  obtain ⟨st, tr, hrun, -⟩ :=
    transmit_first 2 (D := [120]) (by decide) (by decide) (dataOriginTsStr 0 0)
  exact ⟨st, tr, hrun, (sendLoop_budget_iff 2 (by decide) (by decide) husec hrun).1⟩

/-- A message of 1394 bytes is one fragment, and its elements have 1456 bytes. -/
theorem sendLoop_over_budget : ∃ D : Bytes, NulFree D ∧ D.length = 1394 ∧
    ∃ st tr f err, (sendLoop 2 D (dataOriginTsStr 0 0)).run
        (Locals.start D (dataOriginTsStr 0 0)) [⟨-1, 0, []⟩] = some (st, tr) ∧
      .transmit 0 f err ∈ tr ∧ f.iesData.length = 1456 := by
  have hlen : (List.replicate 1394 (120 : UInt8)).length = 1394 := List.length_replicate
  have hD : NulFree (List.replicate 1394 (120 : UInt8)) := by
    intro b hb
    rw [List.eq_of_mem_replicate hb]
    decide
  generalize List.replicate 1394 (120 : UInt8) = D at hlen hD
  have husec : 0 < 10 ^ 6 := by decide
  obtain ⟨st, tr, hrun, hmem⟩ := transmit_first 2 hD (by omega) (dataOriginTsStr 0 0)
  refine ⟨D, hD, hlen, st, tr, _, _, hrun, hmem, ?_⟩
  have hmin : min 1394 (D.length - 1394 * 0) = 1394 := by omega
  have hchunks : getNIesReqd 1394 = 6 := by decide
  rw [fragmentOf_iesData_length hD (by omega) husec (by omega), hmin, hchunks]

end Message

end ProbeStuffing.Client

import ProbeStuffing.Client.Fragmentation

/-!
# The arithmetic of the outer loop

The outer loop computes in `int` and formats into arrays of fixed size.  What it
computes depends on `seq_num`, which nothing in the loop compares with the length
of the message.  The bound comes from `len_data_already_stuffed`, which the loop
does compare: at each head it is `1394 * seq_num`, cut at the end of the message
(`AtHead`), so an iteration starts with `1394 * seq_num` below the length.

`loopHeads` lists the locals with which the head is reached in a run.  `roundHead`
follows a round up to the head, where `sendRound` goes on to build the fragment
(`roundHead_leadsTo`).
-/

namespace ProbeStuffing.Client

open CString

/-! ## The heads of a run -/

section Heads

variable (effort : Int) (dataToStuff dataOriginTs : Bytes)

/-- `afterBreak`, up to the head. -/
def breakHead (st : Locals) : Option Locals :=
  if st.scanRetriesLeft = 0 then none
  else if st.ackRetriesLeft = 0 then none
  else some st

/-- `noAck`, up to the head. -/
def noAckHead (st : Locals) : Option Locals :=
  if effort = 2 then
    let st := { st with ackRetriesLeft := st.ackRetriesLeft - 1 }
    if 0 < st.ackRetriesLeft then none else breakHead st
  else breakHead { st with seqNum := st.seqNum + 1 }

/-- The locals with which a round gets back to the head of the outer loop. -/
def roundHead (st : Locals) (round : Round) : Option Locals :=
  match st.fragment with
  | none => none
  | some _ =>
      if round.err ≠ 0 then
        let st := { st with scanRetriesLeft := st.scanRetriesLeft - 1 }
        if 0 < st.scanRetriesLeft then none else breakHead st
      else
        let st := { st with scanRetriesLeft := 4, ackSeqNum := getAckDump st.ackSeqNum round.dump }
        if round.ret < 0 then noAckHead effort st
        else if st.ackSeqNum = -1 ∨ st.ackSeqNum ≠ st.seqNum then noAckHead effort st
        else breakHead { st with seqNum := st.seqNum + 1, ackRetriesLeft := 4 }

/-- The heads that are reached from a state of the inner loop. -/
def headsFrom (st : Locals) : List Round → List Locals
  | [] => []
  | round :: rounds =>
      (roundHead effort st round).toList ++
        headsFrom (sendRound effort dataToStuff dataOriginTs st round).1 rounds

/-- The heads of a run, the first one included. -/
def loopHeads (rounds : List Round) : List Locals :=
  {} :: headsFrom effort dataToStuff dataOriginTs (Locals.start dataToStuff dataOriginTs) rounds

end Heads

/-- Behind a head the next fragment is built.  Without one the message is left
alone: the loops are over, or go on with the same fragment. -/
def LeadsTo (dataToStuff dataOriginTs : Bytes) (st : Locals) : Option Locals → Locals → Prop
  | some head, st' => st' = nextFragment dataToStuff dataOriginTs head
  | none, st' => st'.lenDataAlreadyStuffed = st.lenDataAlreadyStuffed ∧
      (st'.fragment = none ∨ st'.fragment = st.fragment)

section Loop

variable {effort : Int} {D ts : Bytes}

theorem breakHead_leadsTo (st : Locals) : LeadsTo D ts st (breakHead st) (afterBreak D ts st) := by
  unfold breakHead afterBreak
  by_cases hscan : st.scanRetriesLeft = 0
  · rw [if_pos hscan, if_pos hscan]
    exact ⟨rfl, .inl rfl⟩
  · rw [if_neg hscan, if_neg hscan]
    by_cases hack : st.ackRetriesLeft = 0
    · rw [if_pos hack, if_pos hack]
      exact ⟨rfl, .inl rfl⟩
    · rw [if_neg hack, if_neg hack]
      rfl

theorem noAckHead_leadsTo (st : Locals) :
    LeadsTo D ts st (noAckHead effort st) (noAck effort D ts st) := by
  unfold noAckHead noAck
  by_cases heff : effort = 2
  · rw [if_pos heff, if_pos heff]
    dsimp only
    by_cases hack : 0 < st.ackRetriesLeft - 1
    · rw [if_pos hack, if_pos hack]
      exact ⟨rfl, .inr rfl⟩
    · rw [if_neg hack, if_neg hack]
      exact breakHead_leadsTo { st with ackRetriesLeft := st.ackRetriesLeft - 1 }
  · rw [if_neg heff, if_neg heff]
    exact breakHead_leadsTo { st with seqNum := st.seqNum + 1 }

theorem roundHead_of_fragment {st : Locals} {fragment : Fragment} (h : st.fragment = some fragment)
    (round : Round) :
    roundHead effort st round =
      if round.err ≠ 0 then
        if 0 < st.scanRetriesLeft - 1 then none
        else breakHead { st with scanRetriesLeft := st.scanRetriesLeft - 1 }
      else
        let st := { st with scanRetriesLeft := 4, ackSeqNum := getAckDump st.ackSeqNum round.dump }
        if round.ret < 0 then noAckHead effort st
        else if st.ackSeqNum = -1 ∨ st.ackSeqNum ≠ st.seqNum then noAckHead effort st
        else breakHead { st with seqNum := st.seqNum + 1, ackRetriesLeft := 4 } := by
  unfold roundHead
  split
  · next hnone => cases hnone.symm.trans h
  · rfl

/-- A round passes a head exactly where `roundHead` says. -/
theorem roundHead_leadsTo (st : Locals) (round : Round) :
    LeadsTo D ts st (roundHead effort st round) (sendRound effort D ts st round).1 := by
  cases hf : st.fragment with
  | none =>
      rw [sendRound_none hf, roundHead, hf]
      exact ⟨rfl, .inl hf⟩
  | some fragment =>
      have hround := @roundHead_of_fragment effort st fragment hf round
      rcases sendRound_cases effort D ts hf round with
        ⟨herr, hr⟩ | ⟨herr, hack, hr⟩ | ⟨herr, hret, hack, hr⟩
      · rw [hround, hr, if_pos herr]
        dsimp only
        by_cases hscan : 0 < st.scanRetriesLeft - 1
        · rw [if_pos hscan, if_pos hscan]
          exact ⟨rfl, .inr rfl⟩
        · rw [if_neg hscan, if_neg hscan]
          exact breakHead_leadsTo { st with scanRetriesLeft := st.scanRetriesLeft - 1 }
      · have hhead : roundHead effort st round = noAckHead effort
            { st with
              scanRetriesLeft := 4
              ackSeqNum := getAckDump st.ackSeqNum round.dump } := by
          rw [hround, if_neg (not_not_intro herr)]
          dsimp only
          split
          · rfl
          · next hret => rw [if_pos (.inr (hack.resolve_left hret))]
        rw [hhead, hr]
        exact noAckHead_leadsTo
          { st with scanRetriesLeft := 4, ackSeqNum := getAckDump st.ackSeqNum round.dump }
      · have hvalid : ¬ (getAckDump st.ackSeqNum round.dump = -1 ∨
            getAckDump st.ackSeqNum round.dump ≠ st.seqNum) := by omega
        rw [hround, hr, if_neg (not_not_intro herr)]
        dsimp only
        rw [if_neg (Int.not_lt.mpr hret), if_neg hvalid]
        exact breakHead_leadsTo
          { st with
            seqNum := st.seqNum + 1
            ackSeqNum := getAckDump st.ackSeqNum round.dump
            scanRetriesLeft := 4
            ackRetriesLeft := 4 }

/-! ## The invariant of the heads -/

/-- At a head `len_data_already_stuffed` is in step with `seq_num`. -/
structure AtHead (D : Bytes) (head : Locals) : Prop where
  already : head.lenDataAlreadyStuffed = min (1394 * head.seqNum) D.length

/-- The fragment of these locals is behind them, so the next one is in step. -/
theorem Coupled.atHead {st : Locals} (h : Coupled D ts st) {head : Locals}
    (hseq : head.seqNum = st.seqNum + 1)
    (halready : head.lenDataAlreadyStuffed = st.lenDataAlreadyStuffed) : AtHead D head :=
  ⟨by rw [halready, hseq, h.already]⟩

theorem eq_of_breakHead {st head : Locals} (h : breakHead st = some head) :
    head = st ∧ st.scanRetriesLeft ≠ 0 ∧ st.ackRetriesLeft ≠ 0 := by
  unfold breakHead at h
  split at h
  · cases h
  · next hscan =>
      split at h
      · cases h
      · next hack => exact ⟨(Option.some.inj h).symm, hscan, hack⟩

/-- Without an ACK the loop is back at its head only if it goes on all the same. -/
theorem eq_of_noAckHead {st head : Locals} (h : noAckHead effort st = some head)
    (hpos : 0 < st.ackRetriesLeft) : head = { st with seqNum := st.seqNum + 1 } := by
  unfold noAckHead at h
  split at h
  · dsimp only at h
    split at h
    · cases h
    · next hack =>
        have hne : st.ackRetriesLeft - 1 ≠ 0 := (eq_of_breakHead h).2.2
        omega
  · exact (eq_of_breakHead h).1

theorem roundHead_atHead {st head : Locals} (hc : Coupled D ts st) {round : Round}
    (h : roundHead effort st round = some head) : AtHead D head := by
  rw [roundHead_of_fragment hc.fragment] at h
  dsimp only at h
  split at h
  · split at h
    · cases h
    · next hscan =>
        have hne : st.scanRetriesLeft - 1 ≠ 0 := (eq_of_breakHead h).2.1
        have hpos := hc.scan_pos
        omega
  · split at h
    · cases eq_of_noAckHead h hc.ack_pos
      exact hc.atHead rfl rfl
    · split at h
      · cases eq_of_noAckHead h hc.ack_pos
        exact hc.atHead rfl rfl
      · cases (eq_of_breakHead h).1
        exact hc.atHead rfl rfl

theorem headsFrom_atHead (hD : NulFree D) : ∀ (rounds : List Round) (st : Locals),
    (st.fragment ≠ none → Coupled D ts st) → ∀ head ∈ headsFrom effort D ts st rounds, AtHead D head
  | [], _, _, _, hmem => absurd hmem List.not_mem_nil
  | round :: rounds, st, h, head, hmem => by
      rcases List.mem_append.mp hmem with hhead | hrest
      · have hsome : roundHead effort st round = some head := Option.mem_toList.mp hhead
        have hfragment : st.fragment ≠ none := by
          intro hnone
          rw [roundHead, hnone] at hsome
          cases hsome
        exact roundHead_atHead (h hfragment) hsome
      · have hnext : (sendRound effort D ts st round).1.fragment ≠ none →
            Coupled D ts (sendRound effort D ts st round).1 := coupled_sendRound hD h round
        exact headsFrom_atHead hD rounds _ hnext head hrest

/-- Every head of a run is in step. -/
theorem loopHeads_atHead (hD : NulFree D) (rounds : List Round) :
    ∀ head ∈ loopHeads effort D ts rounds, AtHead D head := by
  intro head hmem
  have hfirst : AtHead D {} := ⟨by simp⟩
  rcases List.mem_cons.mp hmem with rfl | hrest
  · exact hfirst
  · exact headsFrom_atHead hD rounds _
      (coupled_nextFragment hD hfirst.already (by decide) (by decide)) head hrest

/-! ## Indices and buffers -/

/-- `data_start_idx`. -/
def Locals.dataStartIdx (head : Locals) : Nat := head.seqNum * iesMaxDataSize

/-- How many bytes are copied into `data`. -/
def Locals.lenCopied (dataToStuff : Bytes) (head : Locals) : Nat :=
  let lenDataLeft := (cstr dataToStuff).length - head.lenDataAlreadyStuffed
  if iesMaxDataSize < lenDataLeft then iesMaxDataSize else lenDataLeft

/-- They are the data of the fragment. -/
theorem nextFragment_data {head : Locals} {fragment : Fragment}
    (h : (nextFragment D ts head).fragment = some fragment) :
    fragment.data = (D.drop head.dataStartIdx).take (head.lenCopied D) := by
  unfold nextFragment at h
  unfold Locals.lenCopied Locals.dataStartIdx
  dsimp only at h ⊢
  split at h
  · split at h
    · next hmore =>
        cases h
        rw [if_pos hmore]
    · next hlast =>
        cases h
        rw [if_neg hlast]
  · cases h

/-- The arrays of an iteration, with their sizes. -/
def seqNumStrSize : Nat := 9
def dataOriginTsStrSize : Nat := 20
def mfbStrSize : Nat := 2
def additionalDataSize : Nat := 28

/-- An iteration of the outer loop computes and copies within the message, and
formats within its arrays, terminators included. -/
structure IterationOk (D ts : Bytes) (head : Locals) : Prop where
  start_le : head.dataStartIdx ≤ D.length
  copied_le : head.dataStartIdx + head.lenCopied D ≤ D.length
  already_le : (nextFragment D ts head).lenDataAlreadyStuffed ≤ D.length
  seqNumStr_lt : (fmtPad 8 head.seqNum).length < seqNumStrSize
  ts_length : ts.length = 18 ∧ ts.length < dataOriginTsStrSize
  header : ∀ fragment, (nextFragment D ts head).fragment = some fragment →
    (decimal fragment.mfb).length < mfbStrSize ∧
      (additionalData head.seqNum ts fragment.mfb).length = 27 ∧
      (additionalData head.seqNum ts fragment.mfb).length < additionalDataSize

/-- At a head the message is not exceeded, and if data is left then the iteration
does not exceed it either. -/
structure HeadOk (D ts : Bytes) (head : Locals) : Prop where
  already_le : head.lenDataAlreadyStuffed ≤ D.length
  iteration : head.lenDataAlreadyStuffed < D.length → IterationOk D ts head

theorem AtHead.headOk {head : Locals} (h : AtHead D head) (hD : NulFree D)
    (hmax : D.length ≤ 2 ^ 31 - 1) (hts : ts.length = 18) : HeadOk D ts head := by
  have halready := h.already
  have hle : head.lenDataAlreadyStuffed ≤ D.length := halready ▸ Nat.min_le_right _ _
  refine ⟨hle, fun hleft => ?_⟩
  have hlt : 1394 * head.seqNum < D.length := by omega
  have hstart : head.dataStartIdx = head.lenDataAlreadyStuffed := by
    rw [Locals.dataStartIdx, iesMaxDataSize]
    omega
  have hcopied : head.lenCopied D ≤ D.length - head.lenDataAlreadyStuffed := by
    rw [Locals.lenCopied, cstr_eq_self hD]
    split
    · next hmore => exact Nat.le_of_lt hmore
    · exact Nat.le_refl _
  -- the number of the last fragment has seven digits
  have hseq : head.seqNum < 10 ^ 8 := by omega
  have hnext : nextFragment D ts head = _ := nextFragment_eq hD halready
  rw [if_pos hlt] at hnext
  refine ⟨by omega, by omega, ?_, ?_, ⟨hts, by rw [hts]; decide⟩, fun fragment hf => ?_⟩
  · rw [hnext]
    exact Nat.min_le_right _ _
  · rw [fmtPad_length (by decide) hseq]
    decide
  · rw [hnext] at hf
    cases hf
    have hmfb : (fragmentOf D ts head.seqNum).mfb < 10 := fragmentOf_mfb_lt D ts head.seqNum
    have hheader := additionalData_length hseq hts hmfb
    refine ⟨?_, hheader, by rw [hheader]; decide⟩
    rw [decimal_lt hmfb, List.length_singleton]
    decide

/-- The outer loop on a message of `int` length, at any time of day and under
every outcome of its rounds. -/
theorem sendLoop_arithmetic (effort : Int) (hD : NulFree D) (hmax : D.length ≤ 2 ^ 31 - 1)
    (sec : Nat) {usec : Nat} (husec : usec < 10 ^ 6) (rounds : List Round) :
    ∀ head ∈ loopHeads effort D (dataOriginTsStr sec usec) rounds,
      HeadOk D (dataOriginTsStr sec usec) head := by
  intro head hmem
  have hts : (dataOriginTsStr sec usec).length = 18 := dataOriginTsStr_length husec
  exact (loopHeads_atHead hD rounds head hmem).headOk hD hmax hts

/-- A message of one byte with its ACK. -/
def ackedRound : List Round :=
  [⟨0, 0, [{ informationElements := some [221, 4, 1, 2, 3, 48] }]⟩]

/-- It has two heads, and the seconds exceed 32 bits. -/
theorem sendLoop_arithmetic_one_byte :
    (loopHeads 2 [120] (dataOriginTsStr 5000000000 999999) ackedRound).length = 2 ∧
      ∀ head ∈ loopHeads 2 [120] (dataOriginTsStr 5000000000 999999) ackedRound,
        HeadOk [120] (dataOriginTsStr 5000000000 999999) head :=
  ⟨by decide, sendLoop_arithmetic 2 (List.forall_mem_singleton.mpr (by decide)) (by decide)
    5000000000 (by decide) ackedRound⟩

end Loop

end ProbeStuffing.Client

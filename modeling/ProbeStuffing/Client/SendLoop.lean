import ProbeStuffing.Client.Encoder
import ProbeStuffing.Client.GetAck
import ProbeStuffing.Lib.Trace

/-!
# The send loop

`main` sends one message with two nested loops.  The outer loop cuts the next
fragment off the message and encodes it.  The inner loop transmits the block,
reads the scan results and goes round again until something ends it.  A state
of the model stands at the top of the inner loop, and one step is one round:
`Round` is what the kernel answers in it.

Three locals say where the message stands, and they change in three places.
`len_data_already_stuffed` moves when the fragment is cut, before anything is
sent; `data_start_idx` is computed from `seq_num`; and `seq_num` moves when the
inner loop ends.  `Coupled` ties them together.

A break out of the inner loop leaves the outer loop only if one of the retry
counters is 0 exactly.  A break that does not advance `seq_num` therefore has
to happen at 0, which is why `Coupled` also says that both counters are
positive while a fragment is being sent.
-/

namespace ProbeStuffing.Client

open CString Trace

/-! ## State and inputs -/

/-- One fragment: the data, the more-fragment bit and the block for the kernel. -/
structure Fragment where
  data : Bytes
  mfb : Nat
  iesData : Bytes
deriving DecidableEq

/-- The locals of `main` while one message is sent. -/
structure Locals where
  seqNum : Nat := 0
  ackSeqNum : Int := -1
  scanRetriesLeft : Int := 4
  ackRetriesLeft : Int := 4
  lenDataAlreadyStuffed : Nat := 0
  /-- The fragment of the inner loop, `none` once the outer loop has ended. -/
  fragment : Option Fragment := none
deriving DecidableEq

/-- What one round of the inner loop gets from the kernel. -/
structure Round where
  /-- `do_probe_stuffing`. -/
  err : Int
  /-- `nl_recvmsgs_default`. -/
  ret : Int
  /-- The entries `get_ack` was called with, also when `ret` is negative. -/
  dump : List ScanEntry
deriving DecidableEq

inductive Event where
  /-- `do_probe_stuffing` on the block of the fragment, and its result. -/
  | transmit (seqNum : Nat) (fragment : Fragment) (err : Int)
  /-- The dump is over; `ack_seq_num` as it is compared. -/
  | dump (ret ackSeqNum : Int)
  /-- `log_info`: data size, attempt and status. -/
  | logInfo (dataSize : Nat) (attempt status : Int)
  /-- The branch `ack_seq_num == seq_num`. -/
  | success (seqNum : Nat)
deriving DecidableEq

/-! ## The loops -/

section Loop

variable (effort : Int) (dataToStuff dataOriginTs : Bytes)

/-- `ies_max_data_size`. -/
def iesMaxDataSize : Nat := 1394

/-- The head of the outer loop: cut and encode the next fragment, or end. -/
def nextFragment (st : Locals) : Locals :=
  let lenDataToStuff := (cstr dataToStuff).length
  if st.lenDataAlreadyStuffed < lenDataToStuff then
    let dataStartIdx := st.seqNum * iesMaxDataSize
    let lenDataLeft := lenDataToStuff - st.lenDataAlreadyStuffed
    if iesMaxDataSize < lenDataLeft then
      let data := (dataToStuff.drop dataStartIdx).take iesMaxDataSize
      { st with
        lenDataAlreadyStuffed := st.lenDataAlreadyStuffed + iesMaxDataSize
        fragment := some ⟨data, 1, iesData st.seqNum dataOriginTs 1 data⟩ }
    else
      let data := (dataToStuff.drop dataStartIdx).take lenDataLeft
      { st with
        lenDataAlreadyStuffed := lenDataToStuff
        fragment := some ⟨data, 0, iesData st.seqNum dataOriginTs 0 data⟩ }
  else { st with fragment := none }

/-- The locals when the inner loop is first reached. -/
def Locals.start : Locals := nextFragment dataToStuff dataOriginTs {}

/-- What follows a break of the inner loop. -/
def afterBreak (st : Locals) : Locals :=
  if st.scanRetriesLeft = 0 then { st with fragment := none }
  else if st.ackRetriesLeft = 0 then { st with fragment := none }
  else nextFragment dataToStuff dataOriginTs st

/-- No ACK, or the wrong one: retry with effort 2, else go on with the next fragment. -/
def noAck (st : Locals) : Locals :=
  if effort = 2 then
    let st := { st with ackRetriesLeft := st.ackRetriesLeft - 1 }
    if 0 < st.ackRetriesLeft then st else afterBreak dataToStuff dataOriginTs st
  else afterBreak dataToStuff dataOriginTs { st with seqNum := st.seqNum + 1 }

/-- One round of the inner loop. -/
def sendRound (st : Locals) (round : Round) : Locals × List Event :=
  match st.fragment with
  | none => (st, [])
  | some fragment =>
      let tx := Event.transmit st.seqNum fragment round.err
      if round.err ≠ 0 then
        let st := { st with scanRetriesLeft := st.scanRetriesLeft - 1 }
        (if 0 < st.scanRetriesLeft then st else afterBreak dataToStuff dataOriginTs st, [tx])
      else
        let st := { st with scanRetriesLeft := 4, ackSeqNum := getAckDump st.ackSeqNum round.dump }
        let log := Event.logInfo fragment.data.length (5 - st.ackRetriesLeft)
        let dumped := Event.dump round.ret st.ackSeqNum
        if round.ret < 0 then (noAck effort dataToStuff dataOriginTs st, [tx, dumped, log (-1)])
        else if st.ackSeqNum = -1 ∨ st.ackSeqNum ≠ st.seqNum then
          (noAck effort dataToStuff dataOriginTs st, [tx, dumped, log (-1)])
        else
          (afterBreak dataToStuff dataOriginTs
              { st with seqNum := st.seqNum + 1, ackRetriesLeft := 4 },
            [tx, dumped, log 1, .success st.seqNum])

end Loop

/-! ## The number read last and the number sent -/

section AckSeqNum

variable {effort : Int} {dataToStuff dataOriginTs : Bytes}

@[simp] theorem nextFragment_ackSeqNum (st : Locals) :
    (nextFragment dataToStuff dataOriginTs st).ackSeqNum = st.ackSeqNum := by
  unfold nextFragment
  dsimp only
  split
  · split <;> rfl
  · rfl

@[simp] theorem afterBreak_ackSeqNum (st : Locals) :
    (afterBreak dataToStuff dataOriginTs st).ackSeqNum = st.ackSeqNum := by
  unfold afterBreak
  split
  · rfl
  · split
    · rfl
    · exact nextFragment_ackSeqNum st

@[simp] theorem noAck_ackSeqNum (st : Locals) :
    (noAck effort dataToStuff dataOriginTs st).ackSeqNum = st.ackSeqNum := by
  unfold noAck
  split
  · dsimp only
    split
    · rfl
    · exact afterBreak_ackSeqNum _
  · exact afterBreak_ackSeqNum _

@[simp] theorem nextFragment_seqNum (st : Locals) :
    (nextFragment dataToStuff dataOriginTs st).seqNum = st.seqNum := by
  unfold nextFragment
  dsimp only
  split
  · split <;> rfl
  · rfl

@[simp] theorem afterBreak_seqNum (st : Locals) :
    (afterBreak dataToStuff dataOriginTs st).seqNum = st.seqNum := by
  unfold afterBreak
  split
  · rfl
  · split
    · rfl
    · exact nextFragment_seqNum st

/-- Without an ACK, `seq_num` moves on with any effort but 2. -/
theorem noAck_seqNum (st : Locals) :
    (noAck effort dataToStuff dataOriginTs st).seqNum =
      if effort = 2 then st.seqNum else st.seqNum + 1 := by
  unfold noAck
  split
  · dsimp only
    split
    · rfl
    · exact afterBreak_seqNum _
  · exact afterBreak_seqNum _

/-- A round after the end of the loops does nothing. -/
theorem sendRound_none {st : Locals} (h : st.fragment = none) (round : Round) :
    sendRound effort dataToStuff dataOriginTs st round = (st, []) := by
  rw [sendRound, h]

/-- What a round does while a fragment is being sent: the scan fails; or there
is no ACK or a wrong one; or the ACK is that of the fragment. -/
theorem sendRound_cases (effort : Int) (dataToStuff dataOriginTs : Bytes) {st : Locals}
    {fragment : Fragment} (h : st.fragment = some fragment) (round : Round) :
    let ack := getAckDump st.ackSeqNum round.dump
    let failed := { st with scanRetriesLeft := st.scanRetriesLeft - 1 }
    let scanned := { st with scanRetriesLeft := 4, ackSeqNum := ack }
    let log := Event.logInfo fragment.data.length (5 - st.ackRetriesLeft)
    (round.err ≠ 0 ∧ sendRound effort dataToStuff dataOriginTs st round =
        (if 0 < failed.scanRetriesLeft then failed else afterBreak dataToStuff dataOriginTs failed,
          [.transmit st.seqNum fragment round.err])) ∨
      (round.err = 0 ∧ (round.ret < 0 ∨ ack ≠ st.seqNum) ∧
        sendRound effort dataToStuff dataOriginTs st round =
          (noAck effort dataToStuff dataOriginTs scanned,
            [.transmit st.seqNum fragment 0, .dump round.ret ack, log (-1)])) ∨
      (round.err = 0 ∧ 0 ≤ round.ret ∧ ack = st.seqNum ∧
        sendRound effort dataToStuff dataOriginTs st round =
          (afterBreak dataToStuff dataOriginTs
              { scanned with seqNum := st.seqNum + 1, ackRetriesLeft := 4 },
            [.transmit st.seqNum fragment 0, .dump round.ret ack, log 1, .success st.seqNum])) := by
  intro ack failed scanned log
  unfold sendRound
  split
  · next hnone => cases hnone.symm.trans h
  · next fragment' hf =>
      obtain rfl : fragment' = fragment := Option.some.inj (hf.symm.trans h)
      by_cases herr : round.err = 0
      · right
        simp only [herr, ne_eq, not_true, if_false, true_and]
        by_cases hret : round.ret < 0
        · left
          exact ⟨.inl hret, if_pos hret⟩
        · by_cases hack : ack = st.seqNum
          · right
            have hvalid : ¬ (ack = -1 ∨ ack ≠ st.seqNum) := by omega
            exact ⟨Int.not_lt.mp hret, hack, (if_neg hret).trans (if_neg hvalid)⟩
          · left
            exact ⟨.inr hack, (if_neg hret).trans (if_pos (.inr hack))⟩
      · left
        exact ⟨herr, if_pos herr⟩

/-- The first event of a round is its transmission. -/
theorem sendRound_transmits (effort : Int) (dataToStuff dataOriginTs : Bytes) {st : Locals}
    {fragment : Fragment} (h : st.fragment = some fragment) (round : Round) :
    ∃ es, (sendRound effort dataToStuff dataOriginTs st round).2 =
      .transmit st.seqNum fragment round.err :: es := by
  rcases sendRound_cases effort dataToStuff dataOriginTs h round with
    ⟨-, hr⟩ | ⟨herr, -, hr⟩ | ⟨herr, -, -, hr⟩
  · exact ⟨[], by rw [hr]⟩
  · exact ⟨_, by rw [hr, herr]⟩
  · exact ⟨_, by rw [hr, herr]⟩

/-- A message that is not empty has a first fragment. -/
theorem start_fragment (dataOriginTs : Bytes) (h : cstr dataToStuff ≠ []) :
    ∃ fragment, (Locals.start dataToStuff dataOriginTs).fragment = some fragment := by
  unfold Locals.start nextFragment
  dsimp only
  rw [if_pos (List.length_pos_iff.mpr h)]
  split
  · exact ⟨_, rfl⟩
  · exact ⟨_, rfl⟩

/-- A round leaves `ack_seq_num` alone or sets it from the dump. -/
theorem sendRound_ackSeqNum (effort : Int) (dataToStuff dataOriginTs : Bytes) (st : Locals)
    (round : Round) :
    (sendRound effort dataToStuff dataOriginTs st round).1.ackSeqNum = st.ackSeqNum ∨
      (sendRound effort dataToStuff dataOriginTs st round).1.ackSeqNum =
        getAckDump st.ackSeqNum round.dump := by
  cases hf : st.fragment with
  | none =>
      rw [sendRound_none hf]
      exact .inl rfl
  | some fragment =>
      rcases sendRound_cases effort dataToStuff dataOriginTs hf round with
        ⟨-, hr⟩ | ⟨-, -, hr⟩ | ⟨-, -, -, hr⟩
      · left
        rw [hr]
        dsimp only
        split
        · rfl
        · exact afterBreak_ackSeqNum _
      · right
        rw [hr]
        exact noAck_ackSeqNum _
      · right
        rw [hr]
        exact afterBreak_ackSeqNum _

/-- The success branch is taken for `seq_num`, when the dump leaves that number. -/
theorem success_of_mem_sendRound {st : Locals} {round : Round} {k : Nat}
    (h : .success k ∈ (sendRound effort dataToStuff dataOriginTs st round).2) :
    k = st.seqNum ∧ getAckDump st.ackSeqNum round.dump = k := by
  cases hf : st.fragment with
  | none =>
      rw [sendRound_none hf] at h
      cases h
  | some fragment =>
      rcases sendRound_cases effort dataToStuff dataOriginTs hf round with
        ⟨-, hr⟩ | ⟨-, -, hr⟩ | ⟨-, -, hack, hr⟩
      · simp [hr] at h
      · simp [hr] at h
      · obtain rfl : k = st.seqNum := by simpa [hr] using h
        exact ⟨rfl, hack⟩

/-- A round never takes `seq_num` back. -/
theorem sendRound_seqNum_le (effort : Int) (dataToStuff dataOriginTs : Bytes) (st : Locals)
    (round : Round) :
    st.seqNum ≤ (sendRound effort dataToStuff dataOriginTs st round).1.seqNum := by
  cases hf : st.fragment with
  | none => rw [sendRound_none hf]
  | some fragment =>
      rcases sendRound_cases effort dataToStuff dataOriginTs hf round with
        ⟨-, hr⟩ | ⟨-, -, hr⟩ | ⟨-, -, -, hr⟩
      · rw [hr]
        dsimp only
        split
        · exact Nat.le_refl _
        · rw [afterBreak_seqNum]
      · rw [hr, noAck_seqNum]
        split
        · exact Nat.le_refl _
        · exact Nat.le_succ _
      · rw [hr, afterBreak_seqNum]
        exact Nat.le_succ _

end AckSeqNum

/-- The loops on one message.  A round after the end does nothing. -/
def sendLoop (effort : Int) (dataToStuff dataOriginTs : Bytes) : Machine Locals Round Event where
  step st round := some (sendRound effort dataToStuff dataOriginTs st round)

end ProbeStuffing.Client

import ProbeStuffing.Client.Fragmentation

/-!
# How often a message is sent

The inner loop has no bound of its own.  `scan_retries_left` falls with each
failed scan and is set back to 4 by each completed one, and `ack_retries_left`
falls when a completed scan brings no ACK.  Taken together they are a counter of
two digits, the first of which counts the ACK attempts (`roundsLeft`), and a
round that stays with its fragment makes it smaller.  With any effort but 2 the
loop ends at the first completed scan, and only the second digit counts.

Both counters stand at 4 when a further fragment is started
(`sendRound_progress`), so each fragment has the same number of rounds, and the
message has as many more as it has fragments.
-/

namespace ProbeStuffing.Client

open CString Trace

/-! ## Counters -/

/-- The rounds a fragment gets at most. -/
def roundsPerFragment (effort : Int) : Nat := if effort = 2 then 16 else 4

/-- The rounds that are left for the fragment being sent. -/
def roundsLeft (effort : Int) (st : Locals) : Nat :=
  if effort = 2 then 4 * (st.ackRetriesLeft.toNat - 1) + st.scanRetriesLeft.toNat
  else st.scanRetriesLeft.toNat

/-- What holds of the counters in each round. -/
structure Counters (effort : Int) (st : Locals) : Prop where
  scan_le : st.scanRetriesLeft ≤ 4
  ack_le : st.ackRetriesLeft ≤ 4
  ack_eq : effort ≠ 2 → st.ackRetriesLeft = 4

/-- The counters of a fragment that has just been started. -/
def Fresh (st : Locals) : Prop := st.scanRetriesLeft = 4 ∧ st.ackRetriesLeft = 4

theorem Fresh.counters {effort : Int} {st : Locals} (h : Fresh st) : Counters effort st where
  scan_le := Int.le_of_eq h.1
  ack_le := Int.le_of_eq h.2
  ack_eq _ := h.2

theorem Fresh.roundsLeft_eq {effort : Int} {st : Locals} (h : Fresh st) :
    roundsLeft effort st = roundsPerFragment effort := by
  rw [roundsLeft, roundsPerFragment, h.1, h.2]
  rfl

section Loop

variable {effort : Int} {D ts : Bytes}

@[simp] theorem nextFragment_scanRetriesLeft (st : Locals) :
    (nextFragment D ts st).scanRetriesLeft = st.scanRetriesLeft := by
  unfold nextFragment
  dsimp only
  split
  · split <;> rfl
  · rfl

@[simp] theorem nextFragment_ackRetriesLeft (st : Locals) :
    (nextFragment D ts st).ackRetriesLeft = st.ackRetriesLeft := by
  unfold nextFragment
  dsimp only
  split
  · split <;> rfl
  · rfl

theorem fresh_nextFragment {st : Locals} (h : Fresh st) : Fresh (nextFragment D ts st) :=
  ⟨(nextFragment_scanRetriesLeft st).trans h.1, (nextFragment_ackRetriesLeft st).trans h.2⟩

theorem fresh_start : Fresh (Locals.start D ts) := fresh_nextFragment ⟨rfl, rfl⟩

/-! ## One round -/

/-- A round ends the loops; or it stays with its fragment and has one round less
for it; or it goes on to the next one, with both counters at 4. -/
inductive Progress (effort : Int) (st : Locals) : Locals → Prop where
  | ended {st'} : st'.fragment = none → Progress effort st st'
  | again {st'} : st'.seqNum = st.seqNum → Counters effort st' →
      roundsLeft effort st' < roundsLeft effort st → Progress effort st st'
  | further {st'} : st'.seqNum = st.seqNum + 1 → Fresh st' → Progress effort st st'

/-- A completed scan without its ACK. -/
theorem noAck_progress {st st₁ : Locals} (hc : Coupled D ts st) (hn : Counters effort st)
    (hseq : st₁.seqNum = st.seqNum) (hscan : st₁.scanRetriesLeft = 4)
    (hack : st₁.ackRetriesLeft = st.ackRetriesLeft) :
    Progress effort st (noAck effort D ts st₁) := by
  obtain ⟨hs, ha⟩ := And.intro hc.scan_pos hc.ack_pos
  have hle := hn.ack_le
  unfold noAck
  split
  · next heff =>
      dsimp only
      split
      · next hpos =>
          refine .again hseq ⟨Int.le_of_eq hscan, ?_, fun h => absurd heff h⟩ ?_
          · show st₁.ackRetriesLeft - 1 ≤ 4
            omega
          · rw [roundsLeft, roundsLeft, if_pos heff, if_pos heff]
            dsimp only
            omega
      · next hpos =>
          have hzero : st₁.ackRetriesLeft - 1 = 0 := by omega
          rw [afterBreak_of_zero (.inr hzero)]
          exact .ended rfl
  · next heff =>
      have hfour := hack.trans (hn.ack_eq heff)
      rw [afterBreak_of_pos (by simp [hscan]) (by simp [hfour])]
      refine .further ?_ (fresh_nextFragment ⟨hscan, hfour⟩)
      rw [nextFragment_seqNum, hseq]

theorem sendRound_progress {st : Locals} (hc : Coupled D ts st) (hn : Counters effort st)
    (round : Round) : Progress effort st (sendRound effort D ts st round).1 := by
  obtain ⟨hs, ha⟩ := And.intro hc.scan_pos hc.ack_pos
  rcases sendRound_cases effort D ts hc.fragment round with
    ⟨-, hr⟩ | ⟨-, -, hr⟩ | ⟨-, -, -, hr⟩
  · rw [hr]
    dsimp only
    split
    · next hpos =>
        have hle := hn.scan_le
        refine .again rfl ⟨?_, hn.ack_le, hn.ack_eq⟩ ?_
        · show st.scanRetriesLeft - 1 ≤ 4
          omega
        · unfold roundsLeft
          dsimp only
          split <;> omega
    · next hpos =>
        have hzero : st.scanRetriesLeft - 1 = 0 := by omega
        rw [afterBreak_of_zero (.inl hzero)]
        exact .ended rfl
  · rw [hr]
    exact noAck_progress hc hn rfl rfl rfl
  · rw [hr, afterBreak_of_pos (by simp) (by simp)]
    refine .further ?_ (fresh_nextFragment ⟨rfl, rfl⟩)
    rw [nextFragment_seqNum]

/-- A round transmits its fragment once. -/
theorem seqNums_sendRound {st : Locals} (hc : Coupled D ts st) (round : Round) :
    seqNums (sendRound effort D ts st round).2 = [st.seqNum] := by
  rcases sendRound_cases effort D ts hc.fragment round with
    ⟨-, hr⟩ | ⟨-, -, hr⟩ | ⟨-, -, -, hr⟩
  · rw [hr]
    rfl
  · rw [hr]
    rfl
  · rw [hr]
    rfl

/-! ## Runs -/

/-- The number of fragments of a message. -/
def fragments (D : Bytes) : Nat := (D.length + 1393) / 1394

/-- What holds while a fragment is being sent. -/
def Sending (effort : Int) (D ts : Bytes) (st : Locals) : Prop :=
  st.fragment ≠ none → Coupled D ts st ∧ Counters effort st

/-- The transmissions the message may still cause. -/
def messageBudget (effort : Int) (D : Bytes) (st : Locals) : Nat :=
  if st.fragment = none then 0 else 16 * (fragments D - (st.seqNum + 1)) + roundsLeft effort st

/-- Those of fragment `i`. -/
def fragmentBudget (effort : Int) (i : Nat) (st : Locals) : Nat :=
  if st.fragment = none then 0
  else if st.seqNum < i then roundsPerFragment effort
  else if st.seqNum = i then roundsLeft effort st
  else 0

theorem roundsPerFragment_le (effort : Int) : roundsPerFragment effort ≤ 16 := by
  unfold roundsPerFragment
  split <;> omega

theorem Coupled.roundsLeft_pos {st : Locals} (h : Coupled D ts st) : 0 < roundsLeft effort st := by
  have hscan := h.scan_pos
  unfold roundsLeft
  split <;> omega

theorem Coupled.seqNum_lt {st : Locals} (h : Coupled D ts st) : st.seqNum < fragments D := by
  have hlt := h.start_lt
  unfold fragments
  omega

theorem sending_start (hD : NulFree D) : Sending effort D ts (Locals.start D ts) := fun hsome =>
  ⟨coupled_nextFragment hD (by simp) (by decide) (by decide) hsome, fresh_start.counters⟩

/-- A step is a round that transmits, or nothing. -/
theorem sendLoop_step_cases {st st' : Locals} {round : Round} {es : List Event}
    (h : Sending effort D ts st) (hstep : (sendLoop effort D ts).step st round = some (st', es)) :
    (st.fragment = none ∧ st' = st ∧ es = []) ∨
      (Coupled D ts st ∧ Counters effort st ∧ st' = (sendRound effort D ts st round).1 ∧
        seqNums es = [st.seqNum]) := by
  have hround : sendRound effort D ts st round = (st', es) := Option.some.inj hstep
  rcases Classical.em (st.fragment = none) with hnone | hsending
  · rw [sendRound_none hnone] at hround
    obtain ⟨rfl, rfl⟩ := Prod.mk.inj hround
    exact .inl ⟨hnone, rfl, rfl⟩
  · obtain ⟨hc, hn⟩ := h hsending
    have hseq : seqNums (sendRound effort D ts st round).2 = [st.seqNum] :=
      seqNums_sendRound hc round
    rw [hround] at hseq ⊢
    exact .inr ⟨hc, hn, rfl, hseq⟩

theorem sending_step (hD : NulFree D) {st st' : Locals} {round : Round} {es : List Event}
    (h : Sending effort D ts st) (hstep : (sendLoop effort D ts).step st round = some (st', es)) :
    Sending effort D ts st' := by
  intro hsome
  rcases sendLoop_step_cases h hstep with ⟨hnone, rfl, -⟩ | ⟨hc, hn, rfl, -⟩
  · exact absurd hnone hsome
  · refine ⟨coupled_sendRound hD (fun _ => hc) round hsome, ?_⟩
    cases sendRound_progress hc hn round with
    | ended hend => exact absurd hend hsome
    | again _ hcounters _ => exact hcounters
    | further _ hfresh => exact hfresh.counters

theorem Coupled.fragment_ne_none {st : Locals} (h : Coupled D ts st) : st.fragment ≠ none := by
  rw [h.fragment]
  exact Option.some_ne_none _

/-- A round that transmits lowers the budget of the message. -/
theorem sendRound_messageBudget (hD : NulFree D) {st : Locals} (hc : Coupled D ts st)
    (hn : Counters effort st) (round : Round) :
    1 + messageBudget effort D (sendRound effort D ts st round).1 ≤ messageBudget effort D st := by
  have hpos : 0 < roundsLeft effort st := hc.roundsLeft_pos
  have hper := roundsPerFragment_le effort
  rw [messageBudget, messageBudget, if_neg hc.fragment_ne_none]
  split
  · omega
  · next hsome =>
      have hc' : Coupled D ts (sendRound effort D ts st round).1 :=
        coupled_sendRound hD (fun _ => hc) round hsome
      have hlt := hc'.seqNum_lt
      cases sendRound_progress hc hn round with
      | ended hend => exact absurd hend hsome
      | again hseq _ hless =>
          rw [hseq]
          omega
      | further hseq hfresh =>
          rw [hfresh.roundsLeft_eq, hseq]
          rw [hseq] at hlt
          omega

theorem fragmentBudget_of_lt {st : Locals} {i : Nat} (hsome : st.fragment ≠ none)
    (h : st.seqNum < i) : fragmentBudget effort i st = roundsPerFragment effort := by
  rw [fragmentBudget, if_neg hsome, if_pos h]

theorem fragmentBudget_of_eq {st : Locals} {i : Nat} (hsome : st.fragment ≠ none)
    (h : st.seqNum = i) : fragmentBudget effort i st = roundsLeft effort st := by
  rw [fragmentBudget, if_neg hsome, if_neg (by omega), if_pos h]

theorem fragmentBudget_of_gt {st : Locals} {i : Nat} (h : i < st.seqNum) :
    fragmentBudget effort i st = 0 := by
  unfold fragmentBudget
  split
  · rfl
  · rw [if_neg (by omega), if_neg (by omega)]

/-- It lowers the budget of its own fragment, and raises that of no other one. -/
theorem sendRound_fragmentBudget {st : Locals} (hc : Coupled D ts st) (hn : Counters effort st)
    (round : Round) (i : Nat) :
    [st.seqNum].count i + fragmentBudget effort i (sendRound effort D ts st round).1 ≤
      fragmentBudget effort i st := by
  have hpos : 0 < roundsLeft effort st := hc.roundsLeft_pos
  have hsome := hc.fragment_ne_none
  rcases Classical.em ((sendRound effort D ts st round).1.fragment = none) with hnone | hsome'
  · rw [show fragmentBudget effort i (sendRound effort D ts st round).1 = 0 from if_pos hnone]
    rcases eq_or_ne st.seqNum i with rfl | hne
    · rw [fragmentBudget_of_eq hsome rfl, List.count_singleton_self]
      omega
    · rw [List.count_eq_zero_of_not_mem (by simp [hne.symm])]
      exact Nat.zero_le _
  · rcases Nat.lt_trichotomy st.seqNum i with hi | rfl | hi
    · rw [List.count_eq_zero_of_not_mem (by simp [hi.ne']), fragmentBudget_of_lt hsome hi,
        Nat.zero_add]
      cases sendRound_progress hc hn round with
      | ended hend => exact absurd hend hsome'
      | again hseq _ _ => rw [fragmentBudget_of_lt hsome' (hseq ▸ hi)]
      | further hseq hfresh =>
          rcases Nat.lt_or_eq_of_le (Nat.succ_le_of_lt hi) with hlt | heq
          · rw [fragmentBudget_of_lt hsome' (hseq ▸ hlt)]
          · rw [fragmentBudget_of_eq hsome' (hseq.trans heq), hfresh.roundsLeft_eq]
    · rw [List.count_singleton_self, fragmentBudget_of_eq hsome rfl]
      cases sendRound_progress hc hn round with
      | ended hend => exact absurd hend hsome'
      | again hseq _ hless =>
          rw [fragmentBudget_of_eq hsome' hseq]
          omega
      | further hseq _ =>
          rw [fragmentBudget_of_gt (hseq ▸ Nat.lt_succ_self st.seqNum)]
          omega
    · rw [List.count_eq_zero_of_not_mem (by simp [hi.ne]), Nat.zero_add]
      cases sendRound_progress hc hn round with
      | ended hend => exact absurd hend hsome'
      | again hseq _ _ =>
          rw [fragmentBudget_of_gt (hseq ▸ hi)]
          exact Nat.zero_le _
      | further hseq _ =>
          rw [fragmentBudget_of_gt (hseq ▸ Nat.lt_succ_of_lt hi)]
          exact Nat.zero_le _

theorem messageBudget_start_le (hD : NulFree D) :
    messageBudget effort D (Locals.start D ts) ≤ 16 * fragments D := by
  unfold messageBudget
  split
  · omega
  · next hsome =>
      have hc : Coupled D ts (Locals.start D ts) :=
        coupled_nextFragment hD (by simp) (by decide) (by decide) hsome
      have hlt := hc.seqNum_lt
      have hleft : roundsLeft effort (Locals.start D ts) = roundsPerFragment effort :=
        fresh_start.roundsLeft_eq
      have hper := roundsPerFragment_le effort
      omega

theorem fragmentBudget_start_le (i : Nat) :
    fragmentBudget effort i (Locals.start D ts) ≤ roundsPerFragment effort := by
  have hleft : roundsLeft effort (Locals.start D ts) = roundsPerFragment effort :=
    fresh_start.roundsLeft_eq
  unfold fragmentBudget
  split
  · exact Nat.zero_le _
  · split
    · exact Nat.le_refl _
    · split
      · exact Nat.le_of_eq hleft
      · exact Nat.zero_le _

section Run

variable {rounds : List Round} {st : Locals} {tr : List Event}

theorem sending_run (hD : NulFree D)
    (hrun : (sendLoop effort D ts).run (Locals.start D ts) rounds = some (st, tr)) :
    Sending effort D ts st :=
  Machine.run_preserves (fun _ _ _ _ h hstep => sending_step hD h hstep) (sending_start hD) hrun

/-- The budget of the message pays for all transmissions. -/
theorem transmissions_le (hD : NulFree D)
    (hrun : (sendLoop effort D ts).run (Locals.start D ts) rounds = some (st, tr)) :
    (seqNums tr).length ≤ 16 * fragments D := by
  have hcost : (seqNums tr).length + messageBudget effort D st ≤
      messageBudget effort D (Locals.start D ts) := by
    refine Machine.run_cost (fun es => (seqNums es).length) (I := Sending effort D ts) rfl
      (fun xs ys => by rw [seqNums_append, List.length_append])
      (fun _ _ _ _ h hstep => sending_step hD h hstep) ?_ (sending_start hD) hrun
    intro s i s' es h hstep
    rcases sendLoop_step_cases h hstep with ⟨-, rfl, rfl⟩ | ⟨hc, hn, rfl, hseq⟩
    · exact Nat.le_of_eq (Nat.zero_add _)
    · rw [hseq]
      exact sendRound_messageBudget hD hc hn i
  exact (Nat.le_of_add_right_le hcost).trans (messageBudget_start_le hD)

/-- Its own budget pays for those of a fragment. -/
theorem transmissions_of_fragment_le (hD : NulFree D) (i : Nat)
    (hrun : (sendLoop effort D ts).run (Locals.start D ts) rounds = some (st, tr)) :
    (seqNums tr).count i ≤ roundsPerFragment effort := by
  have hcost : (seqNums tr).count i + fragmentBudget effort i st ≤
      fragmentBudget effort i (Locals.start D ts) := by
    refine Machine.run_cost (fun es => (seqNums es).count i) (I := Sending effort D ts) rfl
      (fun xs ys => by rw [seqNums_append, List.count_append])
      (fun _ _ _ _ h hstep => sending_step hD h hstep) ?_ (sending_start hD) hrun
    intro s round s' es h hstep
    rcases sendLoop_step_cases h hstep with ⟨-, rfl, rfl⟩ | ⟨hc, hn, rfl, hseq⟩
    · exact Nat.le_of_eq (Nat.zero_add _)
    · rw [hseq]
      exact sendRound_fragmentBudget hc hn round i
  exact (Nat.le_of_add_right_le hcost).trans (fragmentBudget_start_le i)

/-- As many rounds as the message has in its budget end the loops. -/
theorem ended_of_length (hD : NulFree D) (hlen : 16 * fragments D ≤ rounds.length)
    (hrun : (sendLoop effort D ts).run (Locals.start D ts) rounds = some (st, tr)) :
    st.fragment = none := by
  have hvariant : messageBudget effort D st ≤
      messageBudget effort D (Locals.start D ts) - rounds.length := by
    refine Machine.run_variant (I := Sending effort D ts)
      (fun _ _ _ _ h hstep => sending_step hD h hstep) ?_ (sending_start hD) hrun
    intro s i s' es h hstep
    rcases sendLoop_step_cases h hstep with ⟨hnone, rfl, -⟩ | ⟨hc, hn, rfl, -⟩
    · rw [messageBudget, if_pos hnone]
    · have hround : 1 + messageBudget effort D (sendRound effort D ts s i).1 ≤
          messageBudget effort D s := sendRound_messageBudget hD hc hn i
      omega
  have hstart : messageBudget effort D (Locals.start D ts) ≤ 16 * fragments D :=
    messageBudget_start_le hD
  have hzero : messageBudget effort D st = 0 := by omega
  by_contra hsome
  have hpos : 0 < roundsLeft effort st := (sending_run hD hrun hsome).1.roundsLeft_pos
  rw [messageBudget, if_neg hsome] at hzero
  omega

end Run

/-- Under every infinite sequence of outcomes the loops on a message of `n` bytes
end, within `16 * ⌈n / 1394⌉` scans.  At no time has a fragment been transmitted
more than 16 times with effort 2, and 4 times otherwise; and both counters are
at 4 whenever a fragment is started. -/
theorem sendLoop_ends (effort : Int) {D : Bytes} (ts : Bytes) (hD : NulFree D)
    (rounds : ℕ → Round) :
    (∃ st tr, (sendLoop effort D ts).run (Locals.start D ts)
        ((List.range (16 * fragments D)).map rounds) = some (st, tr) ∧ st.fragment = none) ∧
      Fresh (Locals.start D ts) ∧
      ∀ k st tr, (sendLoop effort D ts).run (Locals.start D ts)
          ((List.range k).map rounds) = some (st, tr) →
        (seqNums tr).length ≤ 16 * fragments D ∧
          (∀ i, (seqNums tr).count i ≤ if effort = 2 then 16 else 4) ∧
          ∀ st', (∃ es, (sendLoop effort D ts).step st (rounds k) = some (st', es)) →
            st'.fragment ≠ none → st'.seqNum ≠ st.seqNum → Fresh st' := by
  obtain ⟨⟨st, tr⟩, hrun⟩ := Machine.run_defined (m := sendLoop effort D ts) (P := fun _ => True)
    (fun _ _ _ => ⟨_, rfl⟩) ((List.range (16 * fragments D)).map rounds) (Locals.start D ts)
    (fun _ _ => trivial)
  refine ⟨⟨st, tr, hrun, ended_of_length hD (by simp) hrun⟩, fresh_start, ?_⟩
  intro k st tr hrun
  refine ⟨transmissions_le hD hrun, fun i => transmissions_of_fragment_le hD i hrun, ?_⟩
  rintro st' ⟨es, hstep⟩ hsome hne
  rcases sendLoop_step_cases (sending_run hD hrun) hstep with ⟨-, rfl, -⟩ | ⟨hc, hn, rfl, -⟩
  · exact absurd rfl hne
  · cases sendRound_progress hc hn (rounds k) with
    | ended hend => exact absurd hend hsome
    | again hseq _ _ => exact absurd hseq hne
    | further _ hfresh => exact hfresh

/-- A one-byte message whose scans all fail. -/
theorem sendLoop_ends_failing : ∃ st tr, (sendLoop 2 [120] []).run (Locals.start [120] [])
    ((List.range 16).map fun _ => ⟨-1, 0, []⟩) = some (st, tr) ∧ st.fragment = none := by
  have hends := (sendLoop_ends 2 (D := [120]) [] (by decide) fun _ => ⟨-1, 0, []⟩).1
  exact hends

end Loop

end ProbeStuffing.Client

import ProbeStuffing.Client.AckStores
import ProbeStuffing.Client.SendLoop

/-!
# Acknowledgements of earlier rounds

`ack_seq_num` is set to -1 once for a message and keeps its value from one
fragment to the next.  A dump without an ACK element leaves it alone, so the
comparison with `seq_num` may find a number that an earlier dump has left.

`ackLoop` is the send loop with the stores of `get_ack` in its trace.  With
effort 2 a fragment is only followed by the next one when its own number has
been read, so what is left over is too small.  With any other effort the loop
goes on whatever it has read, and a left-over number is matched exactly when a
dump without an ACK element ends a round that starts with it
(`fromOwnRound_iff`).
-/

namespace ProbeStuffing.Client

open CString Trace Register

/-! ## The loop with its stores -/

inductive AckEvent where
  /-- `do_probe_stuffing` on the block of a fragment. -/
  | transmit (seqNum : Nat)
  /-- `get_ack` stores a number. -/
  | store (ackSeqNum : Int)
  /-- The branch `ack_seq_num == seq_num`. -/
  | success (seqNum : Nat)
deriving DecidableEq

/-- The numbers `get_ack` stores in the dump of a round. -/
def Round.acks (round : Round) : List Int := round.dump.flatMap ScanEntry.acks

/-- An event of the loops, with the stores of its dump. -/
def Event.ackEvents (acks : List Int) : Event → List AckEvent
  | .transmit seqNum _ _ => [.transmit seqNum]
  | .dump _ _ => acks.map .store
  | .logInfo _ _ _ => []
  | .success seqNum => [.success seqNum]

/-- The loops on one message. -/
def ackLoop (effort : Int) (dataToStuff dataOriginTs : Bytes) : Machine Locals Round AckEvent where
  step st round :=
    let r := sendRound effort dataToStuff dataOriginTs st round
    some (r.1, r.2.flatMap (Event.ackEvents round.acks))

section Loop

variable {effort : Int} {D ts : Bytes} {st st' : Locals} {round : Round} {es : List AckEvent}

/-- What a round does to the two numbers, and what it leaves in the trace. -/
theorem ackLoop_cases (h : (ackLoop effort D ts).step st round = some (st', es)) :
    (st.fragment = none ∧ st' = st ∧ es = []) ∨
      (round.err ≠ 0 ∧ st'.seqNum = st.seqNum ∧ st'.ackSeqNum = st.ackSeqNum ∧
        es = [.transmit st.seqNum]) ∨
      ((round.ret < 0 ∨ written st.ackSeqNum round.acks ≠ st.seqNum) ∧
        st'.seqNum = (if effort = 2 then st.seqNum else st.seqNum + 1) ∧
        st'.ackSeqNum = written st.ackSeqNum round.acks ∧
        es = .transmit st.seqNum :: round.acks.map .store) ∨
      (st.fragment ≠ none ∧ round.err = 0 ∧ 0 ≤ round.ret ∧
        written st.ackSeqNum round.acks = st.seqNum ∧ st'.seqNum = st.seqNum + 1 ∧
        st'.ackSeqNum = st.seqNum ∧
        es = .transmit st.seqNum :: round.acks.map .store ++ [.success st.seqNum]) := by
  obtain ⟨rfl, rfl⟩ := Prod.mk.inj (Option.some.inj h)
  cases hf : st.fragment with
  | none =>
      rw [sendRound_none hf]
      exact .inl ⟨rfl, rfl, rfl⟩
  | some fragment =>
      have hdump : getAckDump st.ackSeqNum round.dump = written st.ackSeqNum round.acks :=
        getAckDump_eq st.ackSeqNum round.dump
      rcases sendRound_cases effort D ts hf round with
        ⟨herr, hr⟩ | ⟨-, hfail, hr⟩ | ⟨herr, hret, hack, hr⟩
      · refine .inr (.inl ⟨herr, ?_, ?_, ?_⟩)
        · rw [hr]
          dsimp only
          split
          · rfl
          · exact afterBreak_seqNum _
        · rw [hr]
          dsimp only
          split
          · rfl
          · exact afterBreak_ackSeqNum _
        · rw [hr]
          rfl
      · rw [hdump] at hfail hr
        refine .inr (.inr (.inl ⟨hfail, ?_, ?_, ?_⟩))
        · rw [hr]
          exact noAck_seqNum _
        · rw [hr]
          exact noAck_ackSeqNum _
        · rw [hr]
          simp [Event.ackEvents]
      · rw [hdump] at hack hr
        refine .inr (.inr (.inr ⟨nofun, herr, hret, hack, ?_, ?_, ?_⟩))
        · rw [hr]
          exact afterBreak_seqNum _
        · rw [hr]
          exact (afterBreak_ackSeqNum _).trans hack
        · rw [hr]
          simp [Event.ackEvents]

/-! ## Numbers of the own round -/

/-- `get_ack` has stored the number `k` after fragment `k` has been transmitted. -/
def OwnAck (tr : List AckEvent) (k : Nat) : Prop :=
  ∃ before after, tr = before ++ .transmit k :: after ∧ .store k ∈ after

variable {tr : List AckEvent} {k : Nat}

theorem OwnAck.append (h : OwnAck tr k) (es : List AckEvent) : OwnAck (tr ++ es) k := by
  obtain ⟨before, after, rfl, hk⟩ := h
  exact ⟨before, after ++ es, by simp, List.mem_append_left _ hk⟩

theorem OwnAck.transmitted (h : OwnAck tr k) : .transmit k ∈ tr := by
  obtain ⟨before, after, rfl, -⟩ := h
  simp

/-- A dump behind the transmission stores it. -/
theorem ownAck_of_mem {acks : List Int} (h : (k : Int) ∈ acks) (tr : List AckEvent) :
    OwnAck (tr ++ .transmit k :: acks.map .store) k :=
  ⟨tr, acks.map .store, rfl, List.mem_map_of_mem h⟩

/-- A transmission stores nothing. -/
theorem ownAck_transmit {j : Nat} (h : OwnAck (tr ++ [.transmit j]) k) : OwnAck tr k := by
  obtain ⟨before, after, htr, hk⟩ := h
  rcases List.eq_nil_or_concat' after with rfl | ⟨after, last, rfl⟩
  · cases hk
  · have hconcat : tr ++ [.transmit j] = (before ++ .transmit k :: after) ++ [last] := by
      rw [htr]
      simp
    obtain ⟨rfl, hlast⟩ := List.append_inj' hconcat rfl
    obtain rfl : AckEvent.transmit j = last := (List.cons.inj hlast).1
    refine ⟨before, after, rfl, ?_⟩
    simpa using hk

/-- Success is the success of the own round. -/
def FromOwnRound (pre : List AckEvent) (e : AckEvent) : Prop :=
  ∀ k, e = .success k → OwnAck pre k

/-- A round that compares the number it started with, because its dump has no ACK
element, starts with another number than `seq_num`. -/
def NoLeftover (effort : Int) (st : Locals) (round : Round) : Prop :=
  effort ≠ 2 → st.fragment ≠ none → round.err = 0 → 0 ≤ round.ret → round.acks = [] →
    st.ackSeqNum ≠ st.seqNum

/-- Where `ack_seq_num` comes from. -/
structure AckInv (effort : Int) (tr : List AckEvent) (st : Locals) : Prop where
  transmitted : ∀ j, .transmit j ∈ tr → j ≤ st.seqNum
  /-- With effort 2 a matching number has been read in the own round. -/
  guaranteed : effort = 2 → st.ackSeqNum = st.seqNum → OwnAck tr st.seqNum
  /-- With any other effort the first dump ends the round. -/
  best : effort ≠ 2 → ¬ OwnAck tr st.seqNum

theorem ackInv_start : AckInv effort [] (Locals.start D ts) where
  transmitted := fun _ h => nomatch h
  guaranteed := fun _ h => by
    rw [Locals.start, nextFragment_ackSeqNum, nextFragment_seqNum] at h
    cases h
  best := fun _ h => nomatch h.transmitted

/-- A round adds transmissions of the current number only. -/
theorem AckInv.transmitted_append {es : List AckEvent} (h : AckInv effort tr st)
    (hes : ∀ j, .transmit j ∈ es → j = st.seqNum) :
    ∀ j, .transmit j ∈ tr ++ es → j ≤ st.seqNum := by
  intro j hj
  rcases List.mem_append.mp hj with hj | hj
  · exact h.transmitted j hj
  · exact Nat.le_of_eq (hes j hj)

/-- The next number has not been transmitted yet. -/
theorem ackInv_next {es : List AckEvent} (h : AckInv effort tr st)
    (hes : ∀ j, .transmit j ∈ es → j = st.seqNum) (hseq : st'.seqNum = st.seqNum + 1)
    (hack : effort = 2 → st'.ackSeqNum = st.seqNum) : AckInv effort (tr ++ es) st' := by
  have htransmitted := h.transmitted_append hes
  refine ⟨fun j hj => hseq ▸ Nat.le_succ_of_le (htransmitted j hj), fun heff hmatch => ?_,
    fun _ hown => ?_⟩
  · rw [hseq, hack heff] at hmatch
    omega
  · have hle := htransmitted _ hown.transmitted
    omega

theorem ackInv_step (h : AckInv effort tr st)
    (hstep : (ackLoop effort D ts).step st round = some (st', es)) :
    AckInv effort (tr ++ es) st' := by
  have hdump : ∀ j, .transmit j ∈ AckEvent.transmit st.seqNum :: round.acks.map .store →
      j = st.seqNum := by simp
  rcases ackLoop_cases hstep with ⟨-, rfl, rfl⟩ | ⟨-, hseq, hack, rfl⟩ |
    ⟨-, hseq, hack, rfl⟩ | ⟨-, -, -, -, hseq, hack, rfl⟩
  · rwa [List.append_nil]
  · refine ⟨?_, fun heff hmatch => ?_, fun heff hown => ?_⟩
    · rw [hseq]
      exact h.transmitted_append (by simp)
    · rw [hseq, hack] at hmatch
      rw [hseq]
      exact (h.guaranteed heff hmatch).append _
    · rw [hseq] at hown
      exact h.best heff (ownAck_transmit hown)
  · split at hseq
    · next heff =>
        refine ⟨?_, fun _ hmatch => ?_, fun hne => absurd heff hne⟩
        · rw [hseq]
          exact h.transmitted_append hdump
        · rw [hseq, hack] at hmatch
          rw [hseq]
          rcases Decidable.em (round.acks = []) with hnil | hne
          · rw [hnil] at hmatch
            exact (h.guaranteed heff hmatch).append _
          · exact ownAck_of_mem (hmatch ▸ written_mem hne) tr
    · next hne => exact ackInv_next h hdump hseq fun heff => absurd heff hne
  · refine ackInv_next h (fun j hj => ?_) hseq fun _ => hack
    rcases List.mem_append.mp hj with hj | hj
    · exact hdump j hj
    · exact nomatch List.mem_singleton.mp hj

/-- In a round that succeeds, all depends on the left-over number. -/
theorem fromOwnRound_round (h : AckInv effort tr st)
    (hstep : (ackLoop effort D ts).step st round = some (st', es)) :
    Always (fun past => FromOwnRound (tr ++ past)) es ↔ NoLeftover effort st round := by
  have hquiet : ∀ es : List AckEvent, (∀ k, .success k ∉ es) →
      Always (fun past => FromOwnRound (tr ++ past)) es := by
    rintro es hes pre e post rfl k rfl
    exact absurd (List.mem_append_right _ List.mem_cons_self) (hes k)
  rcases ackLoop_cases hstep with ⟨hnone, -, rfl⟩ | ⟨herr, -, -, rfl⟩ |
    ⟨hfail, -, -, rfl⟩ | ⟨hsome, herr, hret, hmatch, -, -, rfl⟩
  · exact iff_of_true always_nil fun _ hsome => absurd hnone hsome
  · exact iff_of_true (hquiet _ (by simp)) fun _ _ hok => absurd hok herr
  · refine iff_of_true (hquiet _ (by simp)) fun _ _ _ hret hnil heq => ?_
    rw [hnil] at hfail
    exact hfail.elim (fun hlt => absurd hret (Int.not_le.mpr hlt)) fun hne => hne heq
  · have hlast : Always (fun past => FromOwnRound (tr ++ past))
        (.transmit st.seqNum :: round.acks.map .store ++ [.success st.seqNum]) ↔
          OwnAck (tr ++ .transmit st.seqNum :: round.acks.map .store) st.seqNum := by
      rw [always_append, always_singleton, List.append_nil, and_iff_right (hquiet _ (by simp))]
      refine ⟨fun hown => hown _ rfl, fun hown k hk => ?_⟩
      obtain rfl := AckEvent.success.inj hk
      exact hown
    rw [hlast]
    constructor
    · intro hown heff _ _ _ hnil _
      rw [hnil] at hown
      exact h.best heff (ownAck_transmit hown)
    · intro hleft
      rcases Decidable.em (round.acks = []) with hnil | hne
      · rw [hnil] at hmatch
        have heff : effort = 2 := by
          rcases Decidable.em (effort = 2) with heff | heff
          · exact heff
          · exact absurd hmatch (hleft heff hsome herr hret hnil)
        exact (h.guaranteed heff hmatch).append _
      · exact ownAck_of_mem (hmatch ▸ written_mem hne) tr

/-- In every run, each success rests on a number read in the own round exactly if
no round compares a left-over number that is `seq_num`. -/
theorem fromOwnRound_iff {rounds : List Round} {st : Locals} {tr : List AckEvent}
    (hrun : (ackLoop effort D ts).run (Locals.start D ts) rounds = some (st, tr)) :
    Always FromOwnRound tr ↔
      (ackLoop effort D ts).Along (NoLeftover effort) (Locals.start D ts) rounds :=
  Machine.always_run_iff (Q := FromOwnRound) (I := AckInv effort)
    (fun _ _ _ _ _ h hstep => ackInv_step h hstep)
    (fun _ _ _ _ _ h hstep => fromOwnRound_round h hstep) ackInv_start hrun

/-- A one-byte message that is acknowledged at once. -/
theorem fromOwnRound_iff_one_round : ∃ st tr,
    (ackLoop 1 [120] []).run (Locals.start [120] [])
      [⟨0, 0, [{ informationElements := some [221, 4, 1, 2, 3, 48] }]⟩] = some (st, tr) ∧
      (Always FromOwnRound tr ↔ (ackLoop 1 [120] []).Along (NoLeftover 1) (Locals.start [120] [])
        [⟨0, 0, [{ informationElements := some [221, 4, 1, 2, 3, 48] }]⟩]) :=
  ⟨_, _, rfl, fromOwnRound_iff rfl⟩

/-- Two fragments; the dump of the first round has the ACK `1`, that of the second has none. -/
def leftoverRounds : List Round :=
  [⟨0, 0, [{ informationElements := some [221, 4, 1, 2, 3, 49] }]⟩, ⟨0, 0, []⟩]

theorem not_fromOwnRound_leftover : ∃ st tr,
    (ackLoop 1 (List.replicate 1395 120) []).run (Locals.start (List.replicate 1395 120) [])
        leftoverRounds = some (st, tr) ∧
      ¬ Always FromOwnRound tr := by
  have htrace : ((ackLoop 1 (List.replicate 1395 120) []).run
      (Locals.start (List.replicate 1395 120) []) leftoverRounds).map Prod.snd =
        some [.transmit 0, .store 1, .transmit 1, .success 1] := by
    decide +kernel
  obtain ⟨⟨st, tr⟩, hrun, rfl⟩ := Option.map_eq_some_iff.mp htrace
  refine ⟨st, _, hrun, fun h => ?_⟩
  have hown : OwnAck ([.transmit 0, .store 1] ++ [.transmit 1]) 1 :=
    h [.transmit 0, .store 1, .transmit 1] (.success 1) [] rfl 1 rfl
  exact absurd (ownAck_transmit hown).transmitted (by decide)

end Loop

end ProbeStuffing.Client

import ProbeStuffing.Client.SendLoop

/-!
# The fragments of a message

Fragment `i` of a message `D` is `D[1394 * i, 1394 * (i + 1))`, cut at the end
of the message, and `fragmentOf` is what the outer loop has to build for it.

The development has three layers.  `nextFragment_eq` is the head of the outer
loop: with the length in step with `seq_num` it builds `fragmentOf` or ends.
`sendRound_outcome` says once what a round can do, whichever of its exits it
takes: go round again, give up with a counter at 0, or advance.  `SendInv` is
the invariant of a run, and the theorems at the end read it off.
-/

namespace ProbeStuffing.Client

open CString Trace

/-! ## Fragments -/

/-- `s[a, b)`. -/
def slice (s : Bytes) (a b : Nat) : Bytes := (s.take b).drop a

/-- The fragment with sequence number `i`. -/
def fragmentOf (dataToStuff dataOriginTs : Bytes) (i : Nat) : Fragment :=
  let n := dataToStuff.length
  let data := slice dataToStuff (1394 * i) (min (1394 * (i + 1)) n)
  let mfb := if 1394 * (i + 1) < n then 1 else 0
  ⟨data, mfb, iesData i dataOriginTs mfb data⟩

theorem slice_eq_take_drop (s : Bytes) (a k : Nat) : slice s a (a + k) = (s.drop a).take k := by
  rw [slice, List.drop_take, Nat.add_sub_cancel_left]

theorem fragmentOf_data_length {D : Bytes} (ts : Bytes) {i : Nat} (h : 1394 * i < D.length) :
    0 < (fragmentOf D ts i).data.length ∧ (fragmentOf D ts i).data.length ≤ 1394 := by
  simp only [fragmentOf, slice, List.length_drop, List.length_take]
  omega

theorem fragmentOf_data_nulFree {D : Bytes} (hD : NulFree D) (ts : Bytes) (i : Nat) :
    NulFree (fragmentOf D ts i).data :=
  hD.sublist ((List.drop_sublist _ _).trans (List.take_sublist _ _))

theorem fragmentOf_mfb_lt (D ts : Bytes) (i : Nat) : (fragmentOf D ts i).mfb < 10 := by
  simp only [fragmentOf]
  split <;> omega

/-! ## The head of the outer loop -/

section Loop

variable {effort : Int} {D ts : Bytes}

/-- With `len_data_already_stuffed` in step with `seq_num`, the outer loop cuts
fragment `seq_num`, or has nothing left to cut. -/
theorem nextFragment_eq (hD : NulFree D) {st : Locals}
    (h : st.lenDataAlreadyStuffed = min (1394 * st.seqNum) D.length) :
    nextFragment D ts st =
      if 1394 * st.seqNum < D.length then
        { st with
          lenDataAlreadyStuffed := min (1394 * (st.seqNum + 1)) D.length
          fragment := some (fragmentOf D ts st.seqNum) }
      else { st with fragment := none } := by
  unfold nextFragment iesMaxDataSize
  rw [cstr_eq_self hD, h, Nat.mul_comm st.seqNum]
  by_cases hlt : 1394 * st.seqNum < D.length
  · have hmin : min (1394 * st.seqNum) D.length = 1394 * st.seqNum := by omega
    simp only [hmin, hlt, if_true]
    by_cases hmore : 1394 < D.length - 1394 * st.seqNum
    · have hm : 1394 * (st.seqNum + 1) < D.length := by omega
      have hn : min (1394 * (st.seqNum + 1)) D.length = 1394 * st.seqNum + 1394 := by omega
      simp only [hmore, if_true, fragmentOf, hm, hn, slice_eq_take_drop]
    · have hm : ¬ 1394 * (st.seqNum + 1) < D.length := by omega
      have hn : min (1394 * (st.seqNum + 1)) D.length =
          1394 * st.seqNum + (D.length - 1394 * st.seqNum) := by omega
      have hdata : slice D (1394 * st.seqNum) (min (1394 * (st.seqNum + 1)) D.length) =
          (D.drop (1394 * st.seqNum)).take (D.length - 1394 * st.seqNum) := by
        rw [hn, slice_eq_take_drop]
      simp only [hmore, if_false, fragmentOf, hm, hdata]
      rw [hn, Nat.add_sub_cancel' (Nat.le_of_lt hlt)]
  · have hmin : min (1394 * st.seqNum) D.length = D.length := by omega
    simp only [hmin, hlt, if_false, Nat.lt_irrefl]

/-! ## One round -/

/-- The locals while fragment `seq_num` is being sent. -/
structure Coupled (D ts : Bytes) (st : Locals) : Prop where
  fragment : st.fragment = some (fragmentOf D ts st.seqNum)
  start_lt : 1394 * st.seqNum < D.length
  already : st.lenDataAlreadyStuffed = min (1394 * (st.seqNum + 1)) D.length
  scan_pos : 0 < st.scanRetriesLeft
  ack_pos : 0 < st.ackRetriesLeft

/-- The events of a round behind its transmission. -/
def NoTransmit (es : List Event) : Prop := ∀ i f err, Event.transmit i f err ∉ es

/-- What a round does to a coupled state. -/
inductive RoundOutcome (effort : Int) (D ts : Bytes) (st : Locals) :
    Locals → List Event → Prop where
  /-- The same fragment once more. -/
  | again {st' err rest} : st'.seqNum = st.seqNum → Coupled D ts st' → NoTransmit rest →
      RoundOutcome effort D ts st st'
        (.transmit st.seqNum (fragmentOf D ts st.seqNum) err :: rest)
  /-- The outer loop ends with a counter at 0. -/
  | giveUp {st' err rest} : st'.seqNum = st.seqNum → st'.fragment = none →
      (st'.scanRetriesLeft = 0 ∨ st'.ackRetriesLeft = 0) → NoTransmit rest →
      RoundOutcome effort D ts st st'
        (.transmit st.seqNum (fragmentOf D ts st.seqNum) err :: rest)
  /-- On to the next fragment, or to the end of the message. -/
  | advance {st₁ rest} : st₁.seqNum = st.seqNum + 1 →
      st₁.lenDataAlreadyStuffed = min (1394 * st₁.seqNum) D.length →
      0 < st₁.scanRetriesLeft → 0 < st₁.ackRetriesLeft → NoTransmit rest →
      (effort = 2 → ∃ ret, 0 ≤ ret ∧ .dump ret st.seqNum ∈ rest) →
      RoundOutcome effort D ts st (nextFragment D ts st₁)
        (.transmit st.seqNum (fragmentOf D ts st.seqNum) 0 :: rest)

theorem afterBreak_of_zero {st : Locals} (h : st.scanRetriesLeft = 0 ∨ st.ackRetriesLeft = 0) :
    afterBreak D ts st = { st with fragment := none } := by
  unfold afterBreak
  split
  · rfl
  · rw [if_pos (h.resolve_left ‹_›)]

theorem afterBreak_of_pos {st : Locals} (hs : 0 < st.scanRetriesLeft)
    (ha : 0 < st.ackRetriesLeft) : afterBreak D ts st = nextFragment D ts st := by
  rw [afterBreak, if_neg (by omega), if_neg (by omega)]

/-- A round without a matching ACK, from the locals behind the dump. -/
theorem noAck_outcome {st st₁ : Locals} {rest : List Event} (h : Coupled D ts st₁)
    (hseq : st₁.seqNum = st.seqNum) (hrest : NoTransmit rest) :
    RoundOutcome effort D ts st (noAck effort D ts st₁)
      (.transmit st.seqNum (fragmentOf D ts st.seqNum) 0 :: rest) := by
  obtain ⟨hf, hlt, hal, hs, ha⟩ := h
  unfold noAck
  split
  · dsimp only
    split
    · next hack => exact .again hseq ⟨hf, hlt, hal, hs, hack⟩ hrest
    · next hack =>
        have hzero : st₁.ackRetriesLeft - 1 = 0 := by omega
        rw [afterBreak_of_zero (.inr hzero)]
        exact .giveUp hseq rfl (.inr hzero) hrest
  · next heff =>
      rw [afterBreak_of_pos]
      · exact .advance (by simp [hseq]) hal hs ha hrest fun h2 => absurd h2 heff
      · exact hs
      · exact ha

theorem sendRound_outcome {st : Locals} (h : Coupled D ts st) (round : Round) :
    RoundOutcome effort D ts st (sendRound effort D ts st round).1
      (sendRound effort D ts st round).2 := by
  obtain ⟨hf, hlt, hal, hs, ha⟩ := h
  rcases sendRound_cases effort D ts hf round with
    ⟨-, hr⟩ | ⟨-, -, hr⟩ | ⟨-, hret, hack, hr⟩
  · rw [hr]
    dsimp only
    split
    · next hpos => exact .again rfl ⟨hf, hlt, hal, hpos, ha⟩ (by simp [NoTransmit])
    · next hpos =>
        -- the counter was positive and no longer is, so it is 0
        have hzero : st.scanRetriesLeft - 1 = 0 := by omega
        rw [afterBreak_of_zero (.inl hzero)]
        exact .giveUp rfl rfl (.inl hzero) (by simp [NoTransmit])
  · rw [hr]
    exact noAck_outcome ⟨hf, hlt, hal, by simp, ha⟩ rfl (by simp [NoTransmit])
  · rw [hr, afterBreak_of_pos (by simp) (by simp)]
    refine .advance rfl hal (by simp) (by simp) (by simp [NoTransmit]) fun _ =>
      ⟨round.ret, hret, ?_⟩
    simp [hack]

theorem coupled_nextFragment (hD : NulFree D) {st : Locals}
    (hal : st.lenDataAlreadyStuffed = min (1394 * st.seqNum) D.length)
    (hs : 0 < st.scanRetriesLeft) (ha : 0 < st.ackRetriesLeft)
    (h : (nextFragment D ts st).fragment ≠ none) : Coupled D ts (nextFragment D ts st) := by
  rw [nextFragment_eq hD hal] at h ⊢
  split at h
  · next hlt =>
      rw [if_pos hlt]
      exact ⟨rfl, hlt, rfl, hs, ha⟩
  · exact absurd rfl h

/-- While a fragment is being sent the locals stay coupled. -/
theorem coupled_sendRound (hD : NulFree D) {st : Locals}
    (h : st.fragment ≠ none → Coupled D ts st) (round : Round)
    (hsome : (sendRound effort D ts st round).1.fragment ≠ none) :
    Coupled D ts (sendRound effort D ts st round).1 := by
  by_cases hnone : st.fragment = none
  · rw [sendRound_none hnone] at hsome
    exact absurd hnone hsome
  · have hout : RoundOutcome effort D ts st _ _ := sendRound_outcome (h hnone) round
    rcases hr : sendRound effort D ts st round with ⟨st', es⟩
    rw [hr] at hout hsome
    cases hout with
    | again _ hc _ => exact hc
    | giveUp _ hf _ _ => exact absurd hf hsome
    | advance _ hal hs ha _ _ => exact coupled_nextFragment hD hal hs ha hsome

/-! ## Runs -/

/-- The sequence numbers of the transmissions of a trace. -/
def seqNums (tr : List Event) : List Nat :=
  tr.filterMap fun e =>
    match e with
    | .transmit i _ _ => some i
    | _ => none

/-- Number `i` comes next: first 0, then the last number or its successor. -/
def ComesNext (used : List Nat) (i : Nat) : Prop :=
  match used.getLast? with
  | none => i = 0
  | some j => i = j ∨ i = j + 1

/-- A scan with fragment `i` succeeded, and with effort 2 its number was read back. -/
def Sent (effort : Int) (D ts : Bytes) (tr : List Event) (i : Nat) : Prop :=
  .transmit i (fragmentOf D ts i) 0 ∈ tr ∧ (effort = 2 → ∃ ret, 0 ≤ ret ∧ .dump ret i ∈ tr)

/-- What holds of a transmission and the events before it. -/
def TransmitOk (effort : Int) (D ts : Bytes) (pre : List Event) (e : Event) : Prop :=
  ∀ i f err, e = .transmit i f err →
    f = fragmentOf D ts i ∧ 1394 * i < D.length ∧ ComesNext (seqNums pre) i ∧
      ∀ j < i, Sent effort D ts pre j

/-- The invariant of the send loop. -/
structure SendInv (effort : Int) (D ts : Bytes) (tr : List Event) (st : Locals) : Prop where
  sending : st.fragment ≠ none → Coupled D ts st ∧ ComesNext (seqNums tr) st.seqNum
  ended : st.fragment = none → st.scanRetriesLeft ≠ 0 → st.ackRetriesLeft ≠ 0 →
    D.length ≤ 1394 * st.seqNum
  sent : ∀ i < st.seqNum, Sent effort D ts tr i
  transmits : Always (TransmitOk effort D ts) tr

theorem Sent.mono {tr es : List Event} {i : Nat} (h : Sent effort D ts tr i) :
    Sent effort D ts (tr ++ es) i := by
  obtain ⟨h1, h2⟩ := h
  refine ⟨List.mem_append_left es h1, fun he => ?_⟩
  obtain ⟨ret, hret, hmem⟩ := h2 he
  exact ⟨ret, hret, List.mem_append_left es hmem⟩

theorem seqNums_append (xs ys : List Event) : seqNums (xs ++ ys) = seqNums xs ++ seqNums ys :=
  List.filterMap_append

theorem seqNums_noTransmit {es : List Event} (h : NoTransmit es) : seqNums es = [] := by
  rw [seqNums, List.filterMap_eq_nil_iff]
  intro e he
  cases e with
  | transmit i f err => exact absurd he (h i f err)
  | dump _ _ => rfl
  | logInfo _ _ _ => rfl
  | success _ => rfl

/-- After a round that transmitted number `i`, `i` and its successor come next. -/
theorem comesNext_after {tr rest : List Event} {i : Nat} {f : Fragment} {err : Int}
    (hrest : NoTransmit rest) {j : Nat} (hj : j = i ∨ j = i + 1) :
    ComesNext (seqNums (tr ++ .transmit i f err :: rest)) j := by
  have hlast : seqNums (tr ++ .transmit i f err :: rest) = seqNums tr ++ [i] := by
    rw [seqNums_append]
    simp only [seqNums, List.filterMap_cons]
    exact congrArg (_ ++ i :: ·) (seqNums_noTransmit hrest)
  rw [ComesNext, hlast, List.getLast?_append]
  exact hj

/-- The transmission of a round is the one `Coupled` describes, and nothing else is sent. -/
theorem always_transmitOk_round {tr rest : List Event} {st : Locals} {err : Int}
    (h : SendInv effort D ts tr st) (hc : Coupled D ts st)
    (hnext : ComesNext (seqNums tr) st.seqNum) (hrest : NoTransmit rest) :
    Always (TransmitOk effort D ts)
      (tr ++ .transmit st.seqNum (fragmentOf D ts st.seqNum) err :: rest) := by
  rw [always_append, always_cons]
  refine ⟨h.transmits, ?_, fun pre e post hsplit i f err' he => ?_⟩
  · intro i f err' he
    obtain ⟨rfl, rfl, rfl⟩ := Event.transmit.inj he
    rw [List.append_nil]
    exact ⟨rfl, hc.start_lt, hnext, h.sent⟩
  · exact absurd (show Event.transmit i f err' ∈ rest by simp [hsplit, he]) (hrest i f err')

theorem sendInv_nextFragment (hD : NulFree D) {tr : List Event} {st : Locals}
    (hal : st.lenDataAlreadyStuffed = min (1394 * st.seqNum) D.length)
    (hs : 0 < st.scanRetriesLeft) (ha : 0 < st.ackRetriesLeft)
    (hnext : ComesNext (seqNums tr) st.seqNum) (hsent : ∀ i < st.seqNum, Sent effort D ts tr i)
    (htr : Always (TransmitOk effort D ts) tr) :
    SendInv effort D ts tr (nextFragment D ts st) := by
  rw [nextFragment_eq hD hal]
  split
  · next hlt =>
      exact ⟨fun _ => ⟨⟨rfl, hlt, rfl, hs, ha⟩, hnext⟩, fun hnone => (nomatch hnone), hsent, htr⟩
  · next hend =>
      exact ⟨fun hsome => absurd rfl hsome, fun _ _ _ => Nat.not_lt.mp hend, hsent, htr⟩

theorem sendInv_start (hD : NulFree D) : SendInv effort D ts [] (Locals.start D ts) :=
  sendInv_nextFragment hD (by simp) (by decide) (by decide) rfl
    (fun i hi => absurd hi (Nat.not_lt_zero i)) always_nil

theorem sendInv_step (hD : NulFree D) {tr es : List Event} {st st' : Locals} {round : Round}
    (h : SendInv effort D ts tr st)
    (hstep : (sendLoop effort D ts).step st round = some (st', es)) :
    SendInv effort D ts (tr ++ es) st' := by
  have hround : sendRound effort D ts st round = (st', es) := Option.some.inj hstep
  by_cases hnone : st.fragment = none
  · -- the loop has ended already
    cases (sendRound_none hnone round).symm.trans hround
    rwa [List.append_nil]
  · obtain ⟨hc, hnext⟩ := h.sending hnone
    have hall {err : Int} {rest : List Event} (hrest : NoTransmit rest) :
        Always (TransmitOk effort D ts) (tr ++ .transmit _ _ err :: rest) :=
      always_transmitOk_round h hc hnext hrest
    have hout : RoundOutcome effort D ts st _ _ := sendRound_outcome hc round
    rw [hround] at hout
    cases hout with
    | again hseq hc' hrest =>
        refine ⟨fun _ => ⟨hc', ?_⟩, fun hn => ?_, fun i hi => ?_, hall hrest⟩
        · exact comesNext_after hrest (.inl hseq)
        · rw [hc'.fragment] at hn
          cases hn
        · exact (h.sent i (hseq ▸ hi)).mono
    | giveUp hseq hf hzero hrest =>
        refine ⟨fun hsome => absurd hf hsome, fun _ hs ha => ?_, fun i hi => ?_, hall hrest⟩
        · exact absurd hzero (not_or.mpr ⟨hs, ha⟩)
        · exact (h.sent i (hseq ▸ hi)).mono
    | advance hseq hal hs ha hrest hack =>
        refine sendInv_nextFragment hD hal hs ha (comesNext_after hrest (.inr hseq)) ?_ (hall hrest)
        intro i hi
        rcases Nat.lt_succ_iff_lt_or_eq.mp (hseq ▸ hi) with hlt | rfl
        · exact (h.sent i hlt).mono
        · refine ⟨by simp, fun he => ?_⟩
          obtain ⟨ret, hret, hmem⟩ := hack he
          exact ⟨ret, hret, by simp [hmem]⟩

/-- The invariant holds in every run. -/
theorem sendInv_run (hD : NulFree D) {rounds : List Round} {st : Locals} {tr : List Event}
    (hrun : (sendLoop effort D ts).run (Locals.start D ts) rounds = some (st, tr)) :
    SendInv effort D ts tr st :=
  Machine.run_history (I := SendInv effort D ts)
    (fun _ _ _ _ _ h hstep => sendInv_step hD h hstep) (sendInv_start hD) hrun

/-- The send loop on a message of `int` length, under every outcome.  Every
transmission with sequence number `i` carries fragment `i`; the numbers come in
order without a gap; with effort 2 fragment `i + 1` follows the reading of `i`;
and a loop that ends with both counters positive has sent all of the message. -/
theorem sendLoop_fragments (effort : Int) {D : Bytes} (ts : Bytes) (hD : NulFree D)
    (hmax : D.length ≤ 2 ^ 31 - 1) (rounds : List Round) :
    ∃ st tr, (sendLoop effort D ts).run (Locals.start D ts) rounds = some (st, tr) ∧
      (∀ i f err, .transmit i f err ∈ tr →
        f.data = slice D (1394 * i) (min (1394 * (i + 1)) D.length) ∧
          (f.mfb = 0 ∨ f.mfb = 1) ∧ (f.mfb = 1 ↔ 1394 * (i + 1) < D.length) ∧
          f.iesData = iesData i ts f.mfb f.data ∧ 1394 * i ≤ 2 ^ 31 - 1) ∧
      Always (fun pre e => ∀ i f err, e = .transmit i f err → ComesNext (seqNums pre) i) tr ∧
      (effort = 2 → Always (fun pre e => ∀ i f err, e = .transmit (i + 1) f err →
        ∃ ret, 0 ≤ ret ∧ .dump ret i ∈ pre) tr) ∧
      (st.fragment = none → st.scanRetriesLeft ≠ 0 → st.ackRetriesLeft ≠ 0 →
        ∀ i < (D.length + 1393) / 1394, (∃ f, .transmit i f 0 ∈ tr) ∧
          (effort = 2 → ∃ ret, 0 ≤ ret ∧ .dump ret i ∈ tr)) := by
  obtain ⟨⟨st, tr⟩, hrun⟩ := Machine.run_defined (m := sendLoop effort D ts) (P := fun _ => True)
    (fun _ _ _ => ⟨_, rfl⟩) rounds (Locals.start D ts) (fun _ _ => trivial)
  have hinv := sendInv_run hD hrun
  refine ⟨st, tr, hrun, ?_, ?_, ?_, ?_⟩
  · intro i f err hmem
    obtain ⟨pre, post, hsplit⟩ := List.append_of_mem hmem
    obtain ⟨rfl, hlt, -⟩ := hinv.transmits pre _ post hsplit i f err rfl
    refine ⟨rfl, ?_, ?_, rfl, by omega⟩
    · by_cases hmore : 1394 * (i + 1) < D.length <;> simp [fragmentOf, hmore]
    · by_cases hmore : 1394 * (i + 1) < D.length <;> simp [fragmentOf, hmore]
  · exact hinv.transmits.imp fun pre e h i f err he => (h i f err he).2.2.1
  · intro heff
    refine hinv.transmits.imp fun pre e h i f err he => ?_
    exact ((h (i + 1) f err he).2.2.2 i (Nat.lt_succ_self i)).2 heff
  · intro hnone hs ha i hi
    have hend := hinv.ended hnone hs ha
    obtain ⟨htx, hack⟩ := hinv.sent i (by omega)
    exact ⟨⟨_, htx⟩, hack⟩

/-- A one-byte message, with a failed scan and then the ACK element `dd 04 01 02 03 30`. -/
theorem sendLoop_fragments_two_rounds : ∃ st tr,
    (sendLoop 2 [120] []).run (Locals.start [120] [])
      [⟨-1, 0, []⟩, ⟨0, 0, [{ informationElements := some [221, 4, 1, 2, 3, 48] }]⟩] =
        some (st, tr) ∧
      Always (fun pre e => ∀ i f err, e = .transmit i f err → ComesNext (seqNums pre) i) tr ∧
      .success 0 ∈ tr := by
  obtain ⟨st, tr, hrun, -, hnext, -⟩ := sendLoop_fragments 2 (D := [120]) [] (by decide)
    (by decide) [⟨-1, 0, []⟩, ⟨0, 0, [{ informationElements := some [221, 4, 1, 2, 3, 48] }]⟩]
  refine ⟨st, tr, hrun, hnext, ?_⟩
  obtain ⟨-, rfl⟩ := Prod.mk.inj (Option.some.inj hrun)
  decide

end Loop

end ProbeStuffing.Client

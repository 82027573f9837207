import ProbeStuffing.Client.Budget
import ProbeStuffing.Client.Input

/-!
# What is ever sent

`main` fragments messages of any length, but the only buffer it ever hands to the
fragmentation loop has 200 bytes.  A line of input has at most 199 bytes in it,
and a longer one is cut by `fgets` and goes on as the next message.  So as long as
there is input, every transmission is fragment 0 of its message, with the whole of
it and the more-fragment bit clear, in a block of at most 236 bytes
(`mainLoop_transmits`).

The buffer goes on behind the string.  The loop reads it by indices that are
computed from the length of the string, so what stands behind is never read
(`sendRound_buffer`).
-/

namespace ProbeStuffing.Client

open CString Trace Stdio

/-! ## A string in a larger buffer -/

section Buffer

variable {effort : Int} {buffer ts : Bytes} {st : Locals}

/-- What is read inside the string is the string. -/
theorem take_drop_cstr {a k : Nat} (h : a + k ≤ (cstr buffer).length) :
    (buffer.drop a).take k = ((cstr buffer).drop a).take k := by
  obtain ⟨tail, htail⟩ := List.takeWhile_prefix (l := buffer) (· != 0)
  have hbuffer : buffer = cstr buffer ++ tail := htail.symm
  rw [hbuffer, List.drop_append_of_le_length (by omega), List.take_append_of_le_length]
  · rw [← hbuffer]
  · rw [List.length_drop]
    omega

theorem nextFragment_buffer
    (h : st.lenDataAlreadyStuffed = min (1394 * st.seqNum) (cstr buffer).length) :
    nextFragment buffer ts st = nextFragment (cstr buffer) ts st := by
  have hcstr : cstr (cstr buffer) = cstr buffer := cstr_eq_self (nulFree_cstr buffer)
  unfold nextFragment iesMaxDataSize
  rw [hcstr, h, Nat.mul_comm st.seqNum]
  dsimp only
  split
  · next hlt =>
      split
      · next hmore => rw [take_drop_cstr (by omega)]
      · next hmore => rw [take_drop_cstr (by omega)]
  · rfl

/-- A loop that goes on with the next fragment has counted the last one. -/
theorem afterBreak_buffer (h : 0 < st.scanRetriesLeft → 0 < st.ackRetriesLeft →
    st.lenDataAlreadyStuffed = min (1394 * st.seqNum) (cstr buffer).length)
    (hscan : 0 ≤ st.scanRetriesLeft) (hack : 0 ≤ st.ackRetriesLeft) :
    afterBreak buffer ts st = afterBreak (cstr buffer) ts st := by
  unfold afterBreak
  split
  · rfl
  · split
    · rfl
    · exact nextFragment_buffer (h (by omega) (by omega))

theorem noAck_buffer (h : Coupled (cstr buffer) ts st) :
    noAck effort buffer ts st = noAck effort (cstr buffer) ts st := by
  have hscan := h.scan_pos
  have hack := h.ack_pos
  unfold noAck
  split
  · dsimp only
    split
    · rfl
    · next hzero =>
        refine afterBreak_buffer (fun _ hpos => ?_) ?_ ?_
        · exact absurd hpos hzero
        · exact Int.le_of_lt hscan
        · exact Int.sub_nonneg_of_le (Int.add_one_le_of_lt hack)
  · exact afterBreak_buffer (fun _ _ => h.already) (Int.le_of_lt hscan) (Int.le_of_lt hack)

/-- A round reads the string and nothing behind it. -/
theorem sendRound_buffer (h : Coupled (cstr buffer) ts st) (round : Round) :
    sendRound effort buffer ts st round = sendRound effort (cstr buffer) ts st round := by
  have hscan := h.scan_pos
  have hack := h.ack_pos
  have hfailed : ¬ 0 < st.scanRetriesLeft - 1 →
      afterBreak buffer ts { st with scanRetriesLeft := st.scanRetriesLeft - 1 } =
        afterBreak (cstr buffer) ts { st with scanRetriesLeft := st.scanRetriesLeft - 1 } := by
    intro hzero
    refine afterBreak_buffer (fun hpos _ => absurd hpos hzero) ?_ (Int.le_of_lt hack)
    exact Int.sub_nonneg_of_le (Int.add_one_le_of_lt hscan)
  have hscanned : noAck effort buffer ts
        { st with scanRetriesLeft := 4, ackSeqNum := getAckDump st.ackSeqNum round.dump } =
      noAck effort (cstr buffer) ts
        { st with scanRetriesLeft := 4, ackSeqNum := getAckDump st.ackSeqNum round.dump } :=
    noAck_buffer ⟨h.fragment, h.start_lt, h.already, show (0 : Int) < 4 by decide, hack⟩
  simp only [h.fragment] at hfailed hscanned
  simp only [sendRound, h.fragment]
  split
  · split
    · rfl
    · next hzero => rw [hfailed hzero]
  · split
    · rw [hscanned]
    · split
      · rw [hscanned]
      · have hfour : (0 : Int) ≤ 4 := by decide
        rw [afterBreak_buffer (fun _ _ => h.already) hfour hfour]

end Buffer

/-! ## Lines -/

/-- The line that entered last, if there was one. -/
def lastLine (tr : List MainEvent) : Option (Option Bytes) := (heads tr).getLast?

section Main

variable {effort : Int} {st st' : MainLoop} {tr : List MainEvent}

/-- While a line is being sent: it was read last, and the buffer begins with it. -/
structure SendsLine (tr : List MainEvent) (st : MainLoop) : Prop where
  sending : st.locals.fragment ≠ none → ∃ buffer line sec usec,
    st.dataToStuff = some buffer ∧ lastLine tr = some (some line) ∧ cstr buffer = cstr line ∧
      line.length ≤ 199 ∧ usec < 10 ^ 6 ∧ st.dataOriginTs = dataOriginTsStr sec usec ∧
      Coupled (cstr buffer) st.dataOriginTs st.locals

/-- A transmission is the whole of the line that was read last. -/
structure WholeLine (line : Bytes) (i : Nat) (fragment : Fragment) : Prop where
  seqNum : i = 0
  mfb : fragment.mfb = 0
  data : fragment.data = cstr line
  length_le : line.length ≤ 199
  iesData : fragment.iesData.length = 37 + (cstr line).length

theorem wholeLine_of_coupled {line ts : Bytes} {sec usec : Nat} {locals : Locals}
    (h : Coupled (cstr line) ts locals) (hlen : line.length ≤ 199) (husec : usec < 10 ^ 6)
    (hts : ts = dataOriginTsStr sec usec) :
    WholeLine line locals.seqNum (fragmentOf (cstr line) ts locals.seqNum) := by
  have hle : (cstr line).length ≤ line.length := cstr_length_le line
  have hlt := h.start_lt
  have hzero : locals.seqNum = 0 := by omega
  have hdata : slice (cstr line) (1394 * 0) (min (1394 * (0 + 1)) (cstr line).length) =
      cstr line := by
    rw [slice, Nat.mul_zero, List.drop_zero, List.take_of_length_le]
    omega
  have hmfb : (if 1394 * (0 + 1) < (cstr line).length then 1 else 0) = 0 := if_neg (by omega)
  rw [hzero]
  refine ⟨rfl, hmfb, hdata, hlen, ?_⟩
  have hpos : 0 < (cstr line).length := by omega
  have hnies : getNIesReqd (cstr line).length = 1 := by
    obtain ⟨hlo, hhi⟩ := getNIesReqd_bounds hpos
    omega
  simp only [fragmentOf]
  rw [iesData_length, hdata, hmfb, iesLen_eq (by decide) (hts ▸ dataOriginTsStr_length husec)
    (hts ▸ nulFree_of_isDigit dataOriginTsStr_digits) (by decide) (nulFree_cstr line) hpos, hnies]
  ring

/-- Reading has not failed so far. -/
def NoFailure (tr : List MainEvent) : Prop := none ∉ heads tr

/-- What a transmission has to do with the lines before it. -/
def SendsWhole (pre : List MainEvent) (e : MainEvent) : Prop :=
  ∀ i fragment err, e = .sending (.transmit i fragment err) →
    ∃ line, lastLine pre = some (some line) ∧ WholeLine line i fragment

/-- The invariant of `main`, as long as reading does not fail. -/
structure TerminalInv (stdin : Bytes) (tr : List MainEvent) (st : MainLoop) : Prop where
  consumed : (heads tr).reduceOption.flatten ++ st.stdin = stdin
  short : ∀ line ∈ (heads tr).reduceOption, line.length ≤ 199
  sends : SendsLine tr st
  transmits : Always SendsWhole tr

theorem heads_sending (es : List Event) : heads (es.map .sending) = [] := by
  rw [heads, List.filterMap_map]
  exact List.filterMap_eq_nil_iff.mpr fun _ _ => rfl

theorem NoFailure.of_append {es : List MainEvent} (h : NoFailure (tr ++ es)) : NoFailure tr := by
  rw [NoFailure, heads_append] at h
  exact fun hm => h (List.mem_append_left _ hm)

/-- A line that is read comes off the front of the input. -/
theorem Entry.fgets_some {entry : Entry} {stdin line : Bytes}
    (h : (entry.fgets stdin).1 = some line) :
    stdin = line ++ (entry.fgets stdin).2 ∧ line.length ≤ 199 := by
  unfold Entry.fgets at h ⊢
  cases herr : entry.readError with
  | some lost =>
      rw [herr] at h
      cases h
  | none =>
      rw [herr] at h
      cases hread : Stdio.fgets 200 stdin with
      | none =>
          rw [hread] at h
          cases h
      | some r =>
          rw [hread] at h
          obtain rfl := Option.some.inj h
          obtain ⟨hsplit, -, hlen⟩ := fgets_eq_some (by decide) hread
          exact ⟨hsplit, Nat.le_of_lt_succ hlen⟩

/-- The locals on a new line belong to the string that begins the buffer. -/
theorem coupled_start {buffer ts : Bytes} (h : (Locals.start buffer ts).fragment ≠ none) :
    Coupled (cstr buffer) ts (Locals.start buffer ts) := by
  have hstart : Locals.start buffer ts = Locals.start (cstr buffer) ts :=
    nextFragment_buffer (by simp)
  rw [hstart] at h ⊢
  exact coupled_nextFragment (nulFree_cstr buffer) (by simp) (by decide) (by decide) h

theorem terminalInv_enter {stdin : Bytes} {entry : Entry} (h : TerminalInv stdin tr st)
    (husec : entry.usec < 10 ^ 6) {line : Bytes} (hline : (entry.fgets st.stdin).1 = some line) :
    TerminalInv stdin (tr ++ [.entered (some line) (entry.string st.stdin)])
      (entry.enter st.stdin) := by
  obtain ⟨hsplit, hlen⟩ := Entry.fgets_some hline
  have hheads : heads (tr ++ [.entered (some line) (entry.string st.stdin)]) =
      heads tr ++ [some line] := heads_append tr _
  have hstring : cstr (entry.buffer (entry.fgets st.stdin).1) = cstr line := by
    rw [entry.cstr_buffer, Entry.string, hline]
  refine ⟨?_, ?_, ⟨fun hsome => ?_⟩, ?_⟩
  · rw [hheads, List.reduceOption_append, List.flatten_append, List.append_assoc]
    have hlast : [some line].reduceOption.flatten = line := List.append_nil line
    have hrest : (entry.enter st.stdin).stdin = (entry.fgets st.stdin).2 := rfl
    rw [hlast, hrest, ← hsplit]
    exact h.consumed
  · rw [hheads, List.reduceOption_append]
    exact List.forall_mem_append.mpr ⟨h.short, List.forall_mem_singleton.mpr hlen⟩
  · refine ⟨_, line, entry.sec, entry.usec, rfl, ?_, hstring, hlen, husec, rfl, coupled_start hsome⟩
    rw [lastLine, hheads, List.getLast?_concat]
  · rw [always_append, always_singleton]
    refine ⟨h.transmits, fun i fragment err he => ?_⟩
    cases he

/-- A round transmits once, at its beginning. -/
theorem sendRound_events {D ts : Bytes} {locals : Locals} (effort : Int) (h : Coupled D ts locals)
    (round : Round) : ∃ err rest, (sendRound effort D ts locals round).2 =
      .transmit locals.seqNum (fragmentOf D ts locals.seqNum) err :: rest ∧ NoTransmit rest := by
  have hout : RoundOutcome effort D ts locals _ _ := sendRound_outcome h round
  rcases hr : sendRound effort D ts locals round with ⟨locals', es⟩
  rw [hr] at hout
  cases hout with
  | again _ _ hrest => exact ⟨_, _, rfl, hrest⟩
  | giveUp _ _ _ hrest => exact ⟨_, _, rfl, hrest⟩
  | advance _ _ _ _ hrest _ => exact ⟨_, _, rfl, hrest⟩

theorem terminalInv_round {stdin : Bytes} {round : Round} {es : List MainEvent}
    (h : TerminalInv stdin tr st)
    (hstep : (mainLoop effort).step st (.round round) = some (st', es)) :
    TerminalInv stdin (tr ++ es) st' := by
  change mainStep effort st (.round round) = _ at hstep
  rw [mainStep] at hstep
  split at hstep
  · cases hstep
  · next hsending =>
      obtain ⟨buffer, line, sec, usec, hbuffer, hlast, hstring, hlen, husec, hts, hcoupled⟩ :=
        h.sends.sending hsending
      rw [hbuffer, Option.map_some] at hstep
      obtain ⟨rfl, rfl⟩ := Prod.mk.inj (Option.some.inj hstep)
      have hheads : heads (tr ++ (sendRound effort buffer st.dataOriginTs st.locals round).2.map
          MainEvent.sending) = heads tr := by
        rw [heads_append, heads_sending, List.append_nil]
      rw [sendRound_buffer hcoupled]
      rw [sendRound_buffer hcoupled] at hheads
      refine ⟨?_, ?_, ⟨fun hsome => ?_⟩, ?_⟩
      · rw [hheads]
        exact h.consumed
      · rw [hheads]
        exact h.short
      · refine ⟨buffer, line, sec, usec, rfl, ?_, hstring, hlen, husec, hts, ?_⟩
        · rw [lastLine, hheads]
          exact hlast
        · exact coupled_sendRound (nulFree_cstr buffer) (fun _ => hcoupled) round hsome
      · rw [always_append]
        obtain ⟨err, rest, hes, hrest⟩ :=
          sendRound_events effort hcoupled round
        rw [hes, List.map_cons, always_cons]
        refine ⟨h.transmits, fun i fragment err' he => ?_,
          fun pre e post hsplit i fragment err' he => ?_⟩
        · obtain ⟨rfl, rfl, rfl⟩ := Event.transmit.inj (MainEvent.sending.inj he)
          rw [List.append_nil]
          rw [hstring] at hcoupled ⊢
          exact ⟨line, hlast, wholeLine_of_coupled hcoupled hlen husec hts⟩
        · subst he
          have hmem : MainEvent.sending (.transmit i fragment err') ∈ rest.map .sending := by
            rw [hsplit]
            exact List.mem_append_right pre List.mem_cons_self
          obtain ⟨e, he, heq⟩ := List.mem_map.mp hmem
          rw [MainEvent.sending.inj heq] at he
          exact absurd he (hrest i fragment err')

/-- Entries whose clock is a `struct timeval`. -/
def ClockOk (input : MainInput) : Prop := ∀ entry, input = .enter entry → entry.usec < 10 ^ 6

theorem terminalInv_run {inputs : List MainInput} (hidle : st.locals.fragment = none)
    (hclock : ∀ input ∈ inputs, ClockOk input)
    (hrun : (mainLoop effort).run st inputs = some (st', tr)) (hread : NoFailure tr) :
    TerminalInv st.stdin tr st' := by
  have hinv := Machine.run_invariant (P := ClockOk)
    (I := fun tr s => NoFailure tr → TerminalInv st.stdin tr s) ?_ ?_ hclock hrun
  · exact hinv hread
  · intro pre s input s' es h hinput hstep hnone
    have hpre := h hnone.of_append
    cases input with
    | enter entry =>
        obtain ⟨-, rfl, rfl⟩ := step_enter_iff.mp hstep
        cases hline : (entry.fgets s.stdin).1 with
        | some line => exact terminalInv_enter hpre (hinput entry rfl) hline
        | none =>
            refine absurd ?_ hnone
            rw [heads_append, hline]
            exact List.mem_append_right _ List.mem_cons_self
    | round round => exact terminalInv_round hpre hstep
  · exact fun _ => ⟨List.nil_append _, List.forall_mem_nil _, ⟨fun hsome => absurd hidle hsome⟩,
      always_nil⟩

end Main

end ProbeStuffing.Client

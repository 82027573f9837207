import ProbeStuffing.Lib.Register
import ProbeStuffing.Lib.Trace

/-!
# Waiting for a scan

`do_probe_stuffing` asks the kernel for a scan and waits twice: for the answer to
its request, and for a scan to end.  Both loops call `nl_recvmsgs`, which hands
every message on the socket to its handler, and the handlers leave two registers
behind: `err` and the flags of `trigger_results`.  Each keeps what was written
last.

The socket is a member of the group `scan`, which is about all interfaces and all
processes.  `callback_trigger` looks at the command of an event only, and it is
called in the first loop as well.  So the function returns 0 when the last scan
event of any interface is a result (`returned_zero_iff`), which says something
about its own scan as long as nothing else is delivered (`ownScan_of_undisturbed`).
-/

namespace ProbeStuffing.Client

open Trace Register

/-! ## Messages and handlers -/

/-- The commands `callback_trigger` tells apart. -/
inductive Nl80211Cmd where
  | newScanResults
  | scanAborted
  | other (cmd : Nat)
deriving DecidableEq

/-- What `nl_recvmsgs` may hand to a handler. -/
inductive NlMessage where
  | ack
  | error (code : Int)
  | finish
  /-- An event, and its `NL80211_ATTR_IFINDEX`. -/
  | event (cmd : Nl80211Cmd) (ifindex : Option Nat)
deriving DecidableEq

structure TriggerResults where
  done : Bool := false
  aborted : Bool := false
deriving DecidableEq

/-- What the handlers write to. -/
structure Registers where
  err : Int := 1
  results : TriggerResults := {}
deriving DecidableEq

def errorHandler (error : Int) (st : Registers) : Registers := { st with err := error }

def finishHandler (st : Registers) : Registers := { st with err := 0 }

def ackHandler (st : Registers) : Registers := { st with err := 0 }

def callbackTrigger (cmd : Nl80211Cmd) (st : Registers) : Registers :=
  match cmd with
  | .scanAborted => { st with results := { done := true, aborted := true } }
  | .newScanResults => { st with results := { done := true, aborted := false } }
  | .other _ => st

/-- A message and the handler that is registered for it. -/
def dispatch (st : Registers) : NlMessage → Registers
  | .ack => ackHandler st
  | .error code => errorHandler code st
  | .finish => finishHandler st
  | .event cmd _ => callbackTrigger cmd st

def dispatchAll (st : Registers) (msgs : List NlMessage) : Registers := msgs.foldl dispatch st

/-! ## The two loops -/

/-- One call of `nl_recvmsgs`. -/
structure Recvmsgs where
  msgs : List NlMessage
  ret : Int
deriving DecidableEq

/-- Where the function is. -/
inductive Phase where
  | awaitAck
  | awaitScan
  | returned (value : Int)
deriving DecidableEq

structure Waiting where
  phase : Phase
  registers : Registers := {}
deriving DecidableEq

/-- `-ENOMEM` -/
def enomem : Int := -12

/-- Whether the messages and the callbacks could be allocated. -/
def Waiting.start (allocated : Bool) : Waiting :=
  { phase := if allocated then .awaitAck else .returned enomem }

/-- The condition of the second loop, and what comes behind it. -/
def afterScan (results : TriggerResults) : Phase :=
  if results.done then .returned (if results.aborted then 1 else 0) else .awaitScan

/-- The condition of the first loop, and what comes behind it. -/
def afterAck (ret : Int) (st : Registers) : Phase :=
  if 0 < st.err then .awaitAck
  else if ret < 0 then .returned ret
  else afterScan st.results

/-- A call of `nl_recvmsgs` in one of the loops.  The second one drops `ret`. -/
def receive (st : Waiting) (call : Recvmsgs) : Option (Waiting × List NlMessage) :=
  let registers := dispatchAll st.registers call.msgs
  match st.phase with
  | .awaitAck => some (⟨afterAck call.ret registers, registers⟩, call.msgs)
  | .awaitScan => some (⟨afterScan registers.results, registers⟩, call.msgs)
  | .returned _ => none

/-- The messages are the events of a run. -/
def doProbeStuffing : Machine Waiting Recvmsgs NlMessage where
  step := receive

/-! ## The registers -/

/-- What a message writes to `err`. -/
def NlMessage.answer : NlMessage → Option Int
  | .ack => some 0
  | .error code => some code
  | .finish => some 0
  | .event _ _ => none

/-- The interface of an event that ends a scan, and how it ends. -/
def NlMessage.scanEnd : NlMessage → Option (Nl80211Cmd × Option Nat)
  | .event .newScanResults ifindex => some (.newScanResults, ifindex)
  | .event .scanAborted ifindex => some (.scanAborted, ifindex)
  | _ => none

def verdict (scan : Nl80211Cmd × Option Nat) : TriggerResults :=
  { done := true, aborted := scan.1 = .scanAborted }

theorem scanEnd_eq_some {msg : NlMessage} {cmd : Nl80211Cmd} {ifindex : Option Nat}
    (h : msg.scanEnd = some (cmd, ifindex)) :
    msg = .event cmd ifindex ∧ (cmd = .newScanResults ∨ cmd = .scanAborted) := by
  cases msg with
  | ack => cases h
  | error code => cases h
  | finish => cases h
  | event cmd' ifindex' =>
      cases cmd' with
      | newScanResults =>
          obtain ⟨rfl, rfl⟩ := Prod.mk.inj (Option.some.inj h)
          exact ⟨rfl, .inl rfl⟩
      | scanAborted =>
          obtain ⟨rfl, rfl⟩ := Prod.mk.inj (Option.some.inj h)
          exact ⟨rfl, .inr rfl⟩
      | other cmd' => cases h

theorem dispatchAll_append (st : Registers) (xs ys : List NlMessage) :
    dispatchAll st (xs ++ ys) = dispatchAll (dispatchAll st xs) ys := List.foldl_append

/-- `err` keeps the last answer. -/
theorem dispatchAll_err (st : Registers) (msgs : List NlMessage) :
    (dispatchAll st msgs).err = written st.err (msgs.filterMap NlMessage.answer) := by
  rw [List.filterMap_eq_flatMap_toList]
  refine written_foldl (fun st msg => ?_) st msgs
  cases msg with
  | ack => rfl
  | error code => rfl
  | finish => rfl
  | event cmd ifindex => cases cmd <;> rfl

/-- The flags keep how the last scan ended, whoever started it. -/
theorem dispatchAll_results (st : Registers) (msgs : List NlMessage) :
    (dispatchAll st msgs).results =
      written st.results ((msgs.filterMap NlMessage.scanEnd).map verdict) := by
  rw [List.map_filterMap, List.filterMap_eq_flatMap_toList]
  refine written_foldl (fun st msg => ?_) st msgs
  cases msg with
  | ack => rfl
  | error code => rfl
  | finish => rfl
  | event cmd ifindex => cases cmd <;> rfl

/-- The last scan event of any interface. -/
def lastScan (msgs : List NlMessage) : Option Nl80211Cmd :=
  (msgs.filterMap NlMessage.scanEnd).getLast?.map (·.1)

theorem scanEnd_cmd {msg : NlMessage} {scan : Nl80211Cmd × Option Nat}
    (h : msg.scanEnd = some scan) : scan.1 = .newScanResults ∨ scan.1 = .scanAborted :=
  (scanEnd_eq_some h).2

/-- The flags say that there are results exactly when the last scan event does. -/
theorem reported_iff (msgs : List NlMessage) :
    (dispatchAll {} msgs).results = { done := true, aborted := false } ↔
      lastScan msgs = some .newScanResults := by
  rw [dispatchAll_results, lastScan]
  cases hlast : (msgs.filterMap NlMessage.scanEnd).getLast? with
  | none =>
      rw [List.getLast?_eq_none_iff.mp hlast]
      simp
  | some scan =>
      have hmap : ((msgs.filterMap NlMessage.scanEnd).map verdict).getLast? =
          some (verdict scan) := by rw [List.getLast?_map, hlast]; rfl
      obtain ⟨msg, -, hmsg⟩ := List.mem_filterMap.mp (List.mem_of_getLast? hlast)
      rw [written_of_getLast? hmap]
      rcases scanEnd_cmd hmsg with h | h
      · simp [verdict, h]
      · simp [verdict, h]

/-- The first loop ends with a call whose last answer is not positive. -/
def Recvmsgs.answers (call : Recvmsgs) : Bool :=
  written 1 (call.msgs.filterMap NlMessage.answer) ≤ 0

/-- Somebody answered. -/
theorem Recvmsgs.exists_answer {call : Recvmsgs} (h : call.answers = true) :
    ∃ msg ∈ call.msgs, msg.answer ≠ none := by
  rw [answers, decide_eq_true_iff] at h
  cases hws : call.msgs.filterMap NlMessage.answer with
  | nil =>
      rw [hws] at h
      exact absurd h (by decide)
  | cons w ws =>
      have hw : w ∈ call.msgs.filterMap NlMessage.answer := hws ▸ List.mem_cons_self
      obtain ⟨msg, hmsg, hanswer⟩ := List.mem_filterMap.mp hw
      exact ⟨msg, hmsg, by simp [hanswer]⟩

theorem err_nonpos_iff {st : Registers} (h : 0 < st.err) (call : Recvmsgs) :
    (dispatchAll st call.msgs).err ≤ 0 ↔ call.answers = true := by
  rw [dispatchAll_err, Recvmsgs.answers, decide_eq_true_iff]
  cases hws : call.msgs.filterMap NlMessage.answer with
  | nil => exact iff_of_false (Int.not_le.mpr h) (by decide)
  | cons w ws => exact Iff.rfl

/-! ## Runs -/

section Run

variable {st st' : Waiting} {calls : List Recvmsgs} {tr : List NlMessage} {value : Int}

/-- What a call of `nl_recvmsgs` does in either loop. -/
theorem receive_eq_some {call : Recvmsgs} (h : receive st call = some (st', tr)) :
    tr = call.msgs ∧ st'.registers = dispatchAll st.registers call.msgs ∧
      (st.phase = .awaitAck ∧ st'.phase = afterAck call.ret st'.registers ∨
        st.phase = .awaitScan ∧ st'.phase = afterScan st'.registers.results) := by
  cases st with
  | mk phase registers =>
      cases phase with
      | awaitAck =>
          obtain ⟨rfl, rfl⟩ := Prod.mk.inj (Option.some.inj h)
          exact ⟨rfl, rfl, .inl ⟨rfl, rfl⟩⟩
      | awaitScan =>
          obtain ⟨rfl, rfl⟩ := Prod.mk.inj (Option.some.inj h)
          exact ⟨rfl, rfl, .inr ⟨rfl, rfl⟩⟩
      | returned value => cases h

/-- The registers are those after all messages. -/
theorem run_registers (hrun : doProbeStuffing.run st calls = some (st', tr)) :
    st'.registers = dispatchAll st.registers tr := by
  refine Machine.run_history (I := fun pre s => s.registers = dispatchAll st.registers pre) ?_ rfl
    hrun
  intro pre s call s' es h hstep
  obtain ⟨rfl, hregisters, -⟩ := receive_eq_some hstep
  rw [hregisters, h, dispatchAll_append]

/-- The events of a run are the messages of its calls. -/
theorem run_msgs (hrun : doProbeStuffing.run st calls = some (st', tr)) :
    tr = calls.flatMap Recvmsgs.msgs := by
  induction calls generalizing st tr with
  | nil => exact (Machine.run_nil_iff.mp hrun).2
  | cons call calls ih =>
      obtain ⟨s₁, es, tr', hstep, hrest, rfl⟩ := Machine.run_cons_iff.mp hrun
      obtain ⟨rfl, -⟩ := receive_eq_some hstep
      rw [List.flatMap_cons, ← ih hrest]

/-- What the second loop leaves behind. -/
def AfterAnswer (st : Waiting) : Prop :=
  match st.phase with
  | .awaitAck => False
  | .awaitScan => True
  | .returned value =>
      st.registers.results.done = true ∧ value = if st.registers.results.aborted then 1 else 0

theorem afterAnswer_afterScan (registers : Registers) :
    AfterAnswer ⟨afterScan registers.results, registers⟩ := by
  unfold afterScan
  split
  · next hdone => exact ⟨hdone, rfl⟩
  · exact trivial

theorem afterAnswer_receive {call : Recvmsgs} (h : AfterAnswer st)
    (hstep : receive st call = some (st', tr)) : AfterAnswer st' := by
  obtain ⟨-, -, ⟨hphase, -⟩ | ⟨-, hphase⟩⟩ := receive_eq_some hstep
  · unfold AfterAnswer at h
    rw [hphase] at h
    cases h
  · show AfterAnswer ⟨st'.phase, st'.registers⟩
    rw [hphase]
    exact afterAnswer_afterScan st'.registers

theorem afterAnswer_run (h : AfterAnswer st)
    (hrun : doProbeStuffing.run st calls = some (st', tr)) : AfterAnswer st' :=
  Machine.run_preserves (I := AfterAnswer) (fun _ _ _ _ h hstep => afterAnswer_receive h hstep) h
    hrun

/-- Nothing follows a return. -/
theorem run_returned (hphase : st.phase = .returned value)
    (hrun : doProbeStuffing.run st calls = some (st', tr)) : st' = st ∧ tr = [] := by
  cases calls with
  | nil => exact Machine.run_nil_iff.mp hrun
  | cons call calls =>
      obtain ⟨s₁, es, tr', hstep, -⟩ := Machine.run_cons_iff.mp hrun
      obtain ⟨-, -, ⟨hawait, -⟩ | ⟨hawait, -⟩⟩ := receive_eq_some hstep
      · cases hphase.symm.trans hawait
      · cases hphase.symm.trans hawait

/-- From the first loop on, the value comes from the call that answers, or from
the flags at the end. -/
theorem run_awaitAck {registers : Registers} (herr : 0 < registers.err)
    (hrun : doProbeStuffing.run ⟨.awaitAck, registers⟩ calls = some (st', tr))
    (hend : st'.phase = .returned value) :
    ∃ call, calls.find? Recvmsgs.answers = some call ∧
      (call.ret < 0 ∧ value = call.ret ∨
        0 ≤ call.ret ∧ st'.registers.results.done = true ∧
          value = if st'.registers.results.aborted then 1 else 0) := by
  induction calls generalizing registers tr with
  | nil =>
      obtain ⟨rfl, -⟩ := Machine.run_nil_iff.mp hrun
      cases hend
  | cons call calls ih =>
      obtain ⟨s₁, es, tr', hstep, hrest, -⟩ := Machine.run_cons_iff.mp hrun
      obtain ⟨rfl, -⟩ := Prod.mk.inj (Option.some.inj hstep)
      have hiff := err_nonpos_iff herr call
      generalize dispatchAll registers call.msgs = registers' at hrest hiff
      rcases Int.lt_or_le 0 registers'.err with hpos | hle
      · -- no answer, or one that is not accepted
        rw [afterAck, if_pos hpos] at hrest
        obtain ⟨answer, hfind, hvalue⟩ := ih hpos hrest
        have hnot : ¬ call.answers = true := fun h => absurd (hiff.mpr h) (Int.not_le.mpr hpos)
        exact ⟨answer, by rw [List.find?_cons_of_neg hnot, hfind], hvalue⟩
      · refine ⟨call, List.find?_cons_of_pos (hiff.mp hle), ?_⟩
        rw [afterAck, if_neg (Int.not_lt.mpr hle)] at hrest
        rcases Int.lt_or_le call.ret 0 with hneg | hnonneg
        · rw [if_pos hneg] at hrest
          obtain ⟨rfl, -⟩ := run_returned rfl hrest
          exact .inl ⟨hneg, (Phase.returned.inj hend).symm⟩
        · rw [if_neg (Int.not_lt.mpr hnonneg)] at hrest
          have hafter : AfterAnswer st' := afterAnswer_run (afterAnswer_afterScan registers') hrest
          unfold AfterAnswer at hafter
          rw [hend] at hafter
          exact .inr ⟨hnonneg, hafter⟩

/-- Zero means that there was an answer, that the call which brought it did not
fail, and that the last scan event of any interface was a result. -/
theorem returned_zero_iff {allocated : Bool} {registers : Registers}
    (hrun : doProbeStuffing.run (Waiting.start allocated) calls =
      some (⟨.returned value, registers⟩, tr)) :
    value = 0 ↔ allocated = true ∧
      (∃ call, calls.find? Recvmsgs.answers = some call ∧ 0 ≤ call.ret) ∧
        lastScan tr = some .newScanResults := by
  cases allocated with
  | false =>
      obtain ⟨hend, -⟩ := run_returned rfl hrun
      obtain rfl := Phase.returned.inj (congrArg Waiting.phase hend)
      exact iff_of_false (by decide) (by simp)
  | true =>
      have hpos : 0 < ({} : Registers).err := Int.zero_lt_one
      obtain ⟨call, hfind, hvalue⟩ := run_awaitAck hpos hrun rfl
      have hregisters : registers = dispatchAll {} tr := run_registers hrun
      simp only [hfind, Option.some.injEq, exists_eq_left', true_and]
      rw [← reported_iff]
      subst hregisters
      rcases hvalue with ⟨hneg, rfl⟩ | ⟨hnonneg, hdone, hvalue⟩
      · exact iff_of_false (Int.ne_of_lt hneg) fun h => absurd h.1 (Int.not_le.mpr hneg)
      · generalize (dispatchAll {} tr).results = results at hdone hvalue
        cases results with
        | mk done aborted =>
            obtain rfl : done = true := hdone
            rw [hvalue]
            cases aborted with
            | false => simp [hnonneg]
            | true => simp

end Run

/-! ## Its own scan -/

/-- The request was acknowledged without an error, and the interface got results
that no abort on it came before. -/
structure OwnScan (interfaceIndex : Nat) (msgs : List NlMessage) : Prop where
  acked : .ack ∈ msgs
  no_error : ∀ code, .error code ∉ msgs
  results : ∃ pre post, msgs = pre ++ .event .newScanResults (some interfaceIndex) :: post ∧
    .event .scanAborted (some interfaceIndex) ∉ pre

theorem not_ownScan_of_no_results {interfaceIndex : Nat} {msgs : List NlMessage}
    (h : .event .newScanResults (some interfaceIndex) ∉ msgs) : ¬ OwnScan interfaceIndex msgs := by
  intro hown
  obtain ⟨pre, post, rfl, -⟩ := hown.results
  exact h (by simp)

/-- Nothing but the scan of the interface itself is delivered.  Of the messages
`queued` were on the socket before the request was sent. -/
structure Undisturbed (interfaceIndex queued : Nat) (msgs : List NlMessage) : Prop where
  /-- What was queued neither answers a request nor ends a scan. -/
  quiet : ∀ msg ∈ msgs.take queued, msg.answer = none ∧ msg.scanEnd = none
  /-- The request is not refused, and nothing takes the place of its ACK. -/
  acked : ∀ msg ∈ msgs, msg.answer ≠ none → msg = .ack
  /-- The scans that end are those of the interface. -/
  own : ∀ scan ∈ msgs.filterMap NlMessage.scanEnd, scan.2 = some interfaceIndex
  /-- No results overwrite an abort. -/
  kept : ∀ pre post, msgs = pre ++ .event .scanAborted (some interfaceIndex) :: post →
    .event .newScanResults (some interfaceIndex) ∉ post

namespace Undisturbed

variable {interfaceIndex queued : Nat} {msgs : List NlMessage}

theorem mem_drop (h : Undisturbed interfaceIndex queued msgs) {msg : NlMessage} (hmsg : msg ∈ msgs)
    (hnone : ¬ (msg.answer = none ∧ msg.scanEnd = none)) : msg ∈ msgs.drop queued := by
  rw [← List.take_append_drop queued msgs, List.mem_append] at hmsg
  exact hmsg.resolve_left fun htake => hnone (h.quiet msg htake)

theorem no_error (h : Undisturbed interfaceIndex queued msgs) (code : Int) :
    .error code ∉ msgs.drop queued := fun hmem =>
  nomatch h.acked _ (List.mem_of_mem_drop hmem) nofun

theorem no_abort_before (h : Undisturbed interfaceIndex queued msgs)
    (hmem : .event .newScanResults (some interfaceIndex) ∈ msgs.drop queued) :
    ∃ pre post, msgs.drop queued = pre ++ .event .newScanResults (some interfaceIndex) :: post ∧
      .event .scanAborted (some interfaceIndex) ∉ pre := by
  obtain ⟨pre, post, hsplit⟩ := List.append_of_mem hmem
  refine ⟨pre, post, hsplit, fun haborted => ?_⟩
  obtain ⟨front, back, rfl⟩ := List.append_of_mem haborted
  refine h.kept (msgs.take queued ++ front)
    (back ++ .event .newScanResults (some interfaceIndex) :: post) ?_ (by simp)
  conv_lhs => rw [← List.take_append_drop queued msgs, hsplit]
  simp [List.append_assoc]

/-- An event that ends a scan is the one of the interface. -/
theorem event_mem (h : Undisturbed interfaceIndex queued msgs) {scan : Nl80211Cmd × Option Nat}
    (hmem : scan ∈ msgs.filterMap NlMessage.scanEnd) :
    .event scan.1 (some interfaceIndex) ∈ msgs.drop queued := by
  have hown : scan.2 = some interfaceIndex := h.own scan hmem
  obtain ⟨msg, hmsg, hscan⟩ := List.mem_filterMap.mp hmem
  have hevent : msg = .event scan.1 scan.2 := (scanEnd_eq_some hscan).1
  rw [← hown, ← hevent]
  exact h.mem_drop hmsg fun hnone => nomatch hscan.symm.trans hnone.2

end Undisturbed

section Returned

variable {allocated : Bool} {calls : List Recvmsgs} {value : Int} {registers : Registers}
  {tr : List NlMessage}

/-- In every run without a disturbance, zero means that its own scan is done. -/
theorem ownScan_of_undisturbed (hrun : doProbeStuffing.run (Waiting.start allocated) calls =
      some (⟨.returned value, registers⟩, tr)) {interfaceIndex queued : Nat}
    (h : Undisturbed interfaceIndex queued tr) (hzero : value = 0) :
    OwnScan interfaceIndex (tr.drop queued) := by
  obtain ⟨-, ⟨call, hfind, -⟩, hlast⟩ := (returned_zero_iff hrun).mp hzero
  have hcall : call.msgs ⊆ tr := by
    rw [run_msgs hrun]
    exact fun msg hmsg => List.mem_flatMap.mpr ⟨call, List.mem_of_find?_eq_some hfind, hmsg⟩
  obtain ⟨msg, hmsg, hanswer⟩ := Recvmsgs.exists_answer (List.find?_some hfind)
  have hmem : msg ∈ tr.drop queued := h.mem_drop (hcall hmsg) fun hnone => hanswer hnone.1
  obtain rfl : msg = .ack := h.acked msg (hcall hmsg) hanswer
  obtain ⟨scan, hscan, hcmd⟩ := Option.map_eq_some_iff.mp hlast
  have hresults := h.event_mem (List.mem_of_getLast? hscan)
  rw [hcmd] at hresults
  exact ⟨hmem, h.no_error, h.no_abort_before hresults⟩

/-- Each of the disturbances is one: for every interface, and another one, what was
queued before the request, a finish or an error in place of the ACK, results of the
other interface, and results behind an abort. -/
def disturbances (interfaceIndex other : Nat) : List (Nat × List NlMessage) :=
  [(1, [.event .newScanResults (some interfaceIndex), .ack]),
    (1, [.ack, .event .newScanResults (some interfaceIndex)]),
    (0, [.finish, .event .newScanResults (some interfaceIndex)]),
    (0, [.error (-16), .event .newScanResults (some interfaceIndex)]),
    (0, [.ack, .event .newScanResults (some other)]),
    (0, [.ack, .event .scanAborted (some interfaceIndex),
      .event .newScanResults (some interfaceIndex)])]

/-- The function notices none of them: delivered in one call, each makes it return
zero without its own scan. -/
theorem disturbed_not_ownScan {interfaceIndex other : Nat} (hother : other ≠ interfaceIndex)
    {queued : Nat} {msgs : List NlMessage}
    (h : (queued, msgs) ∈ disturbances interfaceIndex other) :
    (∃ registers, doProbeStuffing.run (Waiting.start true) [⟨msgs, 0⟩] =
        some (⟨.returned 0, registers⟩, msgs)) ∧
      ¬ OwnScan interfaceIndex (msgs.drop queued) := by
  simp only [disturbances, List.mem_cons, List.not_mem_nil, or_false, Prod.mk.injEq] at h
  rcases h with ⟨rfl, rfl⟩ | ⟨rfl, rfl⟩ | ⟨rfl, rfl⟩ | ⟨rfl, rfl⟩ | ⟨rfl, rfl⟩ | ⟨rfl, rfl⟩
  · exact ⟨⟨_, rfl⟩, not_ownScan_of_no_results (by simp)⟩
  · exact ⟨⟨_, rfl⟩, fun hown => by simpa using hown.acked⟩
  · exact ⟨⟨_, rfl⟩, fun hown => by simpa using hown.acked⟩
  · exact ⟨⟨_, rfl⟩, fun hown => by simpa using hown.acked⟩
  · exact ⟨⟨_, rfl⟩, not_ownScan_of_no_results (by simp [hother.symm])⟩
  · refine ⟨⟨_, rfl⟩, fun hown => ?_⟩
    obtain ⟨pre, post, hsplit, hpre⟩ := hown.results
    rcases pre with _ | ⟨first, _ | ⟨second, pre⟩⟩
    · simp at hsplit
    · simp at hsplit
    · obtain ⟨-, hrest⟩ := List.cons.inj hsplit
      obtain ⟨rfl, -⟩ := List.cons.inj hrest
      exact hpre (by simp)

end Returned

/-- An answer, and then the end of a scan. -/
def quietCalls (ifindex : Nat) : List Recvmsgs :=
  [⟨[.ack], 0⟩, ⟨[.event .newScanResults (some ifindex)], 0⟩]

theorem run_quietCalls (ifindex : Nat) :
    doProbeStuffing.run (Waiting.start true) (quietCalls ifindex) =
      some (⟨.returned 0, ⟨0, ⟨true, false⟩⟩⟩,
        [.ack, .event .newScanResults (some ifindex)]) := rfl

theorem undisturbed_quiet :
    Undisturbed 3 0 [.ack, .event .newScanResults (some 3)] where
  quiet := by simp
  acked := by simp [NlMessage.answer]
  own := by simp [NlMessage.scanEnd]
  kept := by
    intro pre post hsplit
    have hmem : NlMessage.event .scanAborted (some 3) ∈
        [NlMessage.ack, .event .newScanResults (some 3)] := by simp [hsplit]
    simp at hmem

theorem ownScan_quietCalls : ∃ registers tr,
    doProbeStuffing.run (Waiting.start true) (quietCalls 3) =
      some (⟨.returned 0, registers⟩, tr) ∧ OwnScan 3 tr :=
  ⟨_, _, run_quietCalls 3, ownScan_of_undisturbed (run_quietCalls 3) undisturbed_quiet rfl⟩

/-- The results of interface 4 are taken for those of interface 3. -/
theorem not_ownScan_foreign : ∃ registers tr,
    doProbeStuffing.run (Waiting.start true) (quietCalls 4) =
      some (⟨.returned 0, registers⟩, tr) ∧ ¬ OwnScan 3 tr :=
  ⟨_, _, run_quietCalls 4, not_ownScan_of_no_results (by simp)⟩

end ProbeStuffing.Client

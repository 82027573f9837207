import Mathlib.Data.List.ReduceOption
import ProbeStuffing.Client.SendLoop
import ProbeStuffing.Lib.Getopt
import ProbeStuffing.Lib.Stdio

/-!
# Where a message comes from

`main` takes its payload from `-d`, or from a file with `-f`, and then enters a
loop that has no exit.  At its head the loop allocates a buffer, lets `fgets` read
a line from standard input into it, and assigns the buffer to the variable that
held the payload.  So the payload is never sent, unless the input happens to have
the same bytes (`sendsPayload_iff`).

What `fgets` returns is not looked at.  At the end of the input the buffer stays
as it was allocated, and what it holds is sent like a line.  The loop goes on for
ever and the input does not, so this happens in every run that is long enough
(`onlyRead_iff`).
-/

namespace ProbeStuffing.Client

open CString Trace Getopt Stdio

/-! ## The command line -/

structure Options where
  effort : Int := 2
  wifiInterface : Option Bytes := none
  dataToStuff : Option Bytes := none
  filePath : Option Bytes := none
deriving DecidableEq

/-- `"i:d:f:e:"` -/
def isOption (c : UInt8) : Bool := [105, 100, 102, 101].contains c

/-- The `switch` on an option. -/
def Options.set (o : Options) (opt : UInt8) (optarg : Bytes) : Options :=
  if opt = 105 then { o with wifiInterface := some optarg }
  else if opt = 100 then { o with dataToStuff := some optarg }
  else if opt = 102 then { o with filePath := some optarg }
  else if opt = 101 then { o with effort := atoi optarg }
  else o

/-- A `?` is not among the cases. -/
def Options.next (o : Options) : Result → Options
  | some (opt, optarg) => o.set opt optarg
  | none => o

/-- The options on the words behind the name of the program. -/
def options (args : List Bytes) : Options := (getopt isOption args).foldl Options.next {}

/-- The buffer `read_file` returns, and what stands behind it.  `contents` is
`none` when the file cannot be opened, and `behind` when `malloc` fails. -/
def readFile (contents behind : Option Bytes) : Option Bytes :=
  match contents, behind with
  | some contents, some behind => some (contents ++ behind)
  | _, _ => none

/-! ## The outer loop -/

structure MainLoop where
  /-- What has not been read. -/
  stdin : Bytes
  dataToStuff : Option Bytes
  dataOriginTs : Bytes := []
  locals : Locals := {}
deriving DecidableEq

/-- `main` up to the loop; `none` is `exit(EXIT_FAILURE)`. -/
def mainStart (files : Bytes → Option Bytes) (behind : Option Bytes) (args : List Bytes)
    (stdin : Bytes) : Option MainLoop :=
  match (options args).wifiInterface with
  | none => none
  | some _ =>
      match (options args).filePath with
      | none => some { stdin := stdin, dataToStuff := (options args).dataToStuff }
      | some path =>
          (readFile (files path) behind).map fun buffer =>
            { stdin := stdin, dataToStuff := some buffer }

/-- What the head of the loop gets from the system. -/
structure Entry where
  /-- What the new buffer holds after a `fgets` that fails, and what stands behind it. -/
  heap : Bytes
  /-- If reading fails with an error, how many bytes are lost. -/
  readError : Option Nat
  sec : Nat
  usec : Nat
deriving DecidableEq

/-- `fgets(data_to_stuff, 200, stdin)` and the rest of the input. -/
def Entry.fgets (entry : Entry) (stdin : Bytes) : Option Bytes × Bytes :=
  match entry.readError with
  | some lost => (none, stdin.drop lost)
  | none =>
      match Stdio.fgets 200 stdin with
      | none => (none, stdin)
      | some (line, rest) => (some line, rest)

/-- The buffer after `fgets`. -/
def Entry.buffer (entry : Entry) : Option Bytes → Bytes
  | some line => line ++ 0 :: entry.heap.drop (line.length + 1)
  | none => entry.heap

/-- The locals at the head of the fragmentation loop. -/
def Entry.enter (entry : Entry) (stdin : Bytes) : MainLoop :=
  let read := entry.fgets stdin
  let buffer := entry.buffer read.1
  let ts := dataOriginTsStr entry.sec entry.usec
  ⟨read.2, some buffer, ts, Locals.start buffer ts⟩

inductive MainInput where
  | enter (entry : Entry)
  | round (round : Round)
deriving DecidableEq

inductive MainEvent where
  /-- What `fgets` returned, and the string that enters the fragmentation loop. -/
  | entered (line : Option Bytes) (string : Bytes)
  | sending (event : Event)
deriving DecidableEq

/-- The head of the outer loop, when the loops on a message have ended, or a round
of these. -/
def mainStep (effort : Int) (st : MainLoop) : MainInput → Option (MainLoop × List MainEvent)
  | .enter entry =>
      if st.locals.fragment = none then
        let line := (entry.fgets st.stdin).1
        some (entry.enter st.stdin, [.entered line (cstr (entry.buffer line))])
      else none
  | .round round =>
      if st.locals.fragment = none then none
      else
        st.dataToStuff.map fun buffer =>
          let r := sendRound effort buffer st.dataOriginTs st.locals round
          ({ st with locals := r.1 }, r.2.map .sending)

def mainLoop (effort : Int) : Machine MainLoop MainInput MainEvent where
  step := mainStep effort

/-! ## One step -/

/-- The string at the buffer: the line, or what was there. -/
def Entry.string (entry : Entry) (stdin : Bytes) : Bytes :=
  match (entry.fgets stdin).1 with
  | some line => cstr line
  | none => cstr entry.heap

theorem Entry.cstr_buffer (entry : Entry) (stdin : Bytes) :
    cstr (entry.buffer (entry.fgets stdin).1) = entry.string stdin := by
  unfold Entry.string
  cases (entry.fgets stdin).1 with
  | none => rfl
  | some line => exact cstr_append_nul line _

/-- `fgets` succeeds when there is something to read, and no error. -/
theorem Entry.fgets_ne_none_iff (entry : Entry) (stdin : Bytes) :
    (entry.fgets stdin).1 ≠ none ↔ entry.readError = none ∧ stdin ≠ [] := by
  unfold Entry.fgets
  cases entry.readError with
  | some lost => simp
  | none =>
      cases h : Stdio.fgets 200 stdin with
      | none => simp [fgets_eq_none_iff.mp h]
      | some r =>
          have hne : stdin ≠ [] := by
            rintro rfl
            cases h
          simp [hne]

/-- A line that is read is taken off the input. -/
theorem Entry.fgets_length (entry : Entry) (stdin : Bytes) :
    (entry.fgets stdin).1.toList.length + (entry.fgets stdin).2.length ≤ stdin.length := by
  unfold Entry.fgets
  cases entry.readError with
  | some lost => simp
  | none =>
      cases h : Stdio.fgets 200 stdin with
      | none => simp
      | some r =>
          obtain ⟨hsplit, hpos, -⟩ := fgets_eq_some (by decide) h
          rw [hsplit, List.length_append]
          exact Nat.add_le_add_right hpos r.2.length

section Step

variable {effort : Int} {st st' : MainLoop} {es : List MainEvent}

/-- The head of the loop is reached when nothing is being sent. -/
theorem step_enter_iff {entry : Entry} :
    (mainLoop effort).step st (.enter entry) = some (st', es) ↔
      st.locals.fragment = none ∧ st' = entry.enter st.stdin ∧
        es = [.entered (entry.fgets st.stdin).1 (entry.string st.stdin)] := by
  rw [← entry.cstr_buffer]
  change mainStep effort st (.enter entry) = _ ↔ _
  rw [mainStep]
  constructor
  · intro h
    split at h
    · next hwait =>
        obtain ⟨rfl, rfl⟩ := Prod.mk.inj (Option.some.inj h)
        exact ⟨hwait, rfl, rfl⟩
    · cases h
  · rintro ⟨hwait, rfl, rfl⟩
    exact if_pos hwait

theorem step_round {round : Round}
    (h : (mainLoop effort).step st (.round round) = some (st', es)) :
    st'.stdin = st.stdin ∧ ∀ e ∈ es, ∃ event, e = .sending event := by
  change mainStep effort st (.round round) = _ at h
  rw [mainStep] at h
  split at h
  · cases h
  · obtain ⟨buffer, -, hr⟩ := Option.map_eq_some_iff.mp h
    obtain ⟨rfl, rfl⟩ := Prod.mk.inj hr
    refine ⟨rfl, fun e he => ?_⟩
    obtain ⟨event, -, rfl⟩ := List.mem_map.mp he
    exact ⟨event, rfl⟩

/-- What holds of every string that enters is a matter of the heads of the loop. -/
theorem forall_entered_iff {p : Option Bytes → Bytes → Prop} {input : MainInput}
    (h : (mainLoop effort).step st input = some (st', es)) :
    (∀ e ∈ es, ∀ line string, e = .entered line string → p line string) ↔
      ∀ entry, input = .enter entry → p (entry.fgets st.stdin).1 (entry.string st.stdin) := by
  cases input with
  | enter entry =>
      obtain ⟨-, -, rfl⟩ := step_enter_iff.mp h
      simp
  | round round =>
      refine iff_of_true (fun e he line string heq => ?_) (fun entry heq => ?_)
      · obtain ⟨event, rfl⟩ := (step_round h).2 e he
        cases heq
      · cases heq

end Step

/-! ## The payload -/

/-- What the command line says is to be sent: the file, or else the data. -/
def Options.payload (o : Options) (files : Bytes → Option Bytes) : Option Bytes :=
  match o.filePath with
  | some path => files path
  | none => o.dataToStuff

/-- The payload is the string that enters, each time. -/
def SendsPayload (files : Bytes → Option Bytes) (args : List Bytes) (tr : List MainEvent) : Prop :=
  ∀ e ∈ tr, ∀ line string, e = .entered line string →
    ∀ payload, (options args).payload files = some payload → string = payload

/-- The input has the payload, or the new buffer when there is no input. -/
def HoldsPayload (files : Bytes → Option Bytes) (args : List Bytes) (st : MainLoop)
    (input : MainInput) : Prop :=
  ∀ entry, input = .enter entry →
    ∀ payload, (options args).payload files = some payload → entry.string st.stdin = payload

/-- What `read_file` returns is the file, as a string, only if a NUL happens to
stand behind it. -/
theorem readFile_string_iff (contents behind : Bytes) :
    (readFile (some contents) (some behind)).map cstr = some contents ↔
      NulFree contents ∧ cstr behind = [] := by
  have hstring : (readFile (some contents) (some behind)).map cstr =
      some (cstr (contents ++ behind)) := rfl
  rw [hstring, Option.some.injEq]
  constructor
  · intro h
    have hnul : NulFree contents := by
      rw [← h]
      exact nulFree_cstr (contents ++ behind)
    rw [hnul.cstr_append] at h
    exact ⟨hnul, List.append_right_eq_self.mp h⟩
  · rintro ⟨hnul, hbehind⟩
    rw [hnul.cstr_append, hbehind, List.append_nil]

/-- Up to the loop the payload is in its variable, a file with what stands behind it. -/
theorem mainStart_payload {files : Bytes → Option Bytes} {behind : Option Bytes}
    {args : List Bytes} {stdin payload : Bytes} {st : MainLoop}
    (h : mainStart files behind args stdin = some st)
    (hpayload : (options args).payload files = some payload) :
    st.dataToStuff = some payload ∨ st.dataToStuff = readFile (some payload) behind := by
  unfold mainStart at h
  unfold Options.payload at hpayload
  split at h
  · cases h
  · cases hpath : (options args).filePath with
    | none =>
        simp only [hpath] at h hpayload
        obtain rfl := Option.some.inj h
        exact .inl hpayload
    | some path =>
        simp only [hpath] at h hpayload
        rw [hpayload] at h
        obtain ⟨buffer, hbuffer, rfl⟩ := Option.map_eq_some_iff.mp h
        exact .inr hbuffer.symm

/-- The start does not depend on the input. -/
theorem mainStart_stdin (files : Bytes → Option Bytes) (behind : Option Bytes) (args : List Bytes)
    (stdin stdin' : Bytes) : mainStart files behind args stdin' =
      (mainStart files behind args stdin).map fun st => { st with stdin := stdin' } := by
  unfold mainStart
  cases (options args).wifiInterface with
  | none => rfl
  | some interface =>
      cases (options args).filePath with
      | none => rfl
      | some path => simp [Function.comp_def]

theorem mainStart_waiting {files : Bytes → Option Bytes} {behind : Option Bytes}
    {args : List Bytes} {stdin : Bytes} {st : MainLoop}
    (h : mainStart files behind args stdin = some st) :
    st.stdin = stdin ∧ st.locals.fragment = none := by
  unfold mainStart at h
  split at h
  · cases h
  · split at h
    · obtain rfl := Option.some.inj h
      exact ⟨rfl, rfl⟩
    · obtain ⟨buffer, -, rfl⟩ := Option.map_eq_some_iff.mp h
      exact ⟨rfl, rfl⟩

/-- A round of the outer loop, as far as the fragmentation loop. -/
theorem run_enter (effort : Int) {st : MainLoop} (hwait : st.locals.fragment = none)
    (entry : Entry) : (mainLoop effort).run st [.enter entry] =
      some (entry.enter st.stdin,
        [.entered (entry.fgets st.stdin).1 (entry.string st.stdin)]) :=
  Machine.run_singleton_iff.mpr (step_enter_iff.mpr ⟨hwait, rfl, rfl⟩)

/-- A buffer of nothing, and a read without errors. -/
def freshEntry : Entry := ⟨[], none, 0, 0⟩

/-- In every run the payload is what enters exactly when each round of the outer
loop finds it in the input, or left over in its buffer.  No command line makes
sure of that: there is an input on which something else is sent. -/
theorem sendsPayload_iff {files : Bytes → Option Bytes} {behind : Option Bytes}
    {args : List Bytes} {stdin : Bytes} {st : MainLoop}
    (hstart : mainStart files behind args stdin = some st) :
    (∀ inputs st' tr, (mainLoop (options args).effort).run st inputs = some (st', tr) →
        (SendsPayload files args tr ↔
          (mainLoop (options args).effort).Along (HoldsPayload files args) st inputs)) ∧
      ∀ payload, (options args).payload files = some payload →
        ∃ stdin' st₁ inputs st' tr, mainStart files behind args stdin' = some st₁ ∧
          (mainLoop (options args).effort).run st₁ inputs = some (st', tr) ∧
          ¬ SendsPayload files args tr := by
  constructor
  · intro inputs st' tr hrun
    exact Machine.forall_run_iff (C := HoldsPayload files args)
      (p := fun e => ∀ line string, e = .entered line string →
        ∀ payload, (options args).payload files = some payload → string = payload)
      (fun s i s' es hstep => forall_entered_iff hstep) hrun
  · intro payload hpayload
    obtain ⟨line, hline, hne⟩ : ∃ line ∈ [[10], [65, 10]], line ≠ payload := by
      by_cases h : [10] = payload
      · exact ⟨[65, 10], by simp, by rw [← h]; decide⟩
      · exact ⟨[10], by simp, h⟩
    have hstart' : mainStart files behind args line = some { st with stdin := line } := by
      rw [mainStart_stdin files behind args stdin, hstart, Option.map_some]
    have hrun := run_enter (options args).effort (mainStart_waiting hstart').2 freshEntry
    refine ⟨line, _, _, _, _, hstart', hrun, fun h => ?_⟩
    have hstring : freshEntry.string line = line := by
      rcases List.mem_pair.mp hline with rfl | rfl
      · decide
      · decide
    exact hne (hstring.symm.trans (h _ List.mem_cons_self _ _ rfl payload hpayload))

/-- The options `-i wlan0 -d` with some data. -/
def invocation (data : Bytes) : List Bytes := [[45, 105], ascii "wlan0", [45, 100], data]

theorem options_invocation (data : Bytes) : options (invocation data) =
    { wifiInterface := some (ascii "wlan0"), dataToStuff := some data } := by
  have hspelled : List.Forall₂ Spelled [(105, ascii "wlan0"), (100, data)]
      [[[45, 105], ascii "wlan0"], [[45, 100], data]] :=
    .cons (.separate _ _) (.cons (.separate _ _) .nil)
  have hget : getopt isOption (invocation data) = [some (105, ascii "wlan0"), some (100, data)] :=
    getopt_spelled (by decide) hspelled (by simp [isOption])
  rw [options, hget]
  rfl

theorem mainStart_invocation (data stdin : Bytes) :
    mainStart (fun _ => none) none (invocation data) stdin =
      some { stdin := stdin, dataToStuff := some data } := by
  simp only [mainStart, options_invocation]

/-- A line that happens to be the payload. -/
theorem sendsPayload_same_line : ∃ st st' tr,
    mainStart (fun _ => none) none (invocation [65, 10]) [65, 10] = some st ∧
      (mainLoop (options (invocation [65, 10])).effort).run st [.enter freshEntry] =
        some (st', tr) ∧
      SendsPayload (fun _ => none) (invocation [65, 10]) tr := by
  have hstart := mainStart_invocation [65, 10] [65, 10]
  have hrun := run_enter (options (invocation [65, 10])).effort (mainStart_waiting hstart).2
    freshEntry
  refine ⟨_, _, _, hstart, hrun,
    ((sendsPayload_iff hstart).1 _ _ _ hrun).mpr ⟨?_, fun _ _ => trivial⟩⟩
  rintro entry heq payload hpayload
  cases heq
  rw [options_invocation] at hpayload
  obtain rfl := Option.some.inj hpayload
  decide

/-- With `-d Lorem` and an empty line, the empty line is sent. -/
theorem not_sendsPayload_line : ∃ st st' tr,
    mainStart (fun _ => none) none (invocation (ascii "Lorem")) [10] = some st ∧
      (mainLoop 2).run st [.enter freshEntry] = some (st', tr) ∧
      ¬ SendsPayload (fun _ => none) (invocation (ascii "Lorem")) tr := by
  have hstart := mainStart_invocation (ascii "Lorem") [10]
  have hrun := run_enter 2 (mainStart_waiting hstart).2 freshEntry
  refine ⟨_, _, _, hstart, hrun, fun h => ?_⟩
  have hpayload : (options (invocation (ascii "Lorem"))).payload (fun _ => none) =
      some (ascii "Lorem") := by rw [options_invocation]; rfl
  have hsent := h _ List.mem_cons_self _ _ rfl _ hpayload
  exact absurd hsent (by decide)

/-! ## What was read -/

/-- What enters was returned by `fgets`, and once `fgets` has failed nothing is
transmitted. -/
structure OnlyRead (tr : List MainEvent) : Prop where
  read : ∀ e ∈ tr, ∀ line string, e = .entered line string →
    ∃ l, line = some l ∧ string = cstr l
  silent : ∀ pre string post, tr = pre ++ .entered none string :: post →
    ∀ i fragment err, .sending (.transmit i fragment err) ∉ post

/-- There is something to read, and reading it does not fail. -/
def Readable (st : MainLoop) (input : MainInput) : Prop :=
  ∀ entry, input = .enter entry → entry.readError = none ∧ st.stdin ≠ []

/-- The second half follows, since no failure is left to follow. -/
theorem onlyRead_of_read {tr : List MainEvent} (h : ∀ e ∈ tr, ∀ line string,
    e = .entered line string → ∃ l, line = some l ∧ string = cstr l) : OnlyRead tr where
  read := h
  silent := by
    rintro pre string post rfl
    obtain ⟨l, hl, -⟩ := h _ (List.mem_append_right pre List.mem_cons_self) none string rfl
    cases hl

theorem Entry.readable_iff (entry : Entry) (stdin : Bytes) :
    (∃ l, (entry.fgets stdin).1 = some l ∧ entry.string stdin = cstr l) ↔
      entry.readError = none ∧ stdin ≠ [] := by
  rw [← entry.fgets_ne_none_iff, Option.ne_none_iff_exists']
  refine exists_congr fun l => and_iff_left_of_imp fun h => ?_
  rw [Entry.string, h]

/-- The results of `fgets`, one for each round of the outer loop. -/
def heads (tr : List MainEvent) : List (Option Bytes) :=
  tr.filterMap fun e =>
    match e with
    | .entered line _ => some line
    | .sending _ => none

theorem heads_append (xs ys : List MainEvent) : heads (xs ++ ys) = heads xs ++ heads ys :=
  List.filterMap_append

section Run

variable {effort : Int} {st st' : MainLoop} {inputs : List MainInput} {tr : List MainEvent}

/-- The lines are taken off the input one after the other. -/
theorem lines_le (hrun : (mainLoop effort).run st inputs = some (st', tr)) :
    (heads tr).reduceOption.length + st'.stdin.length ≤ st.stdin.length := by
  refine Machine.run_cost (fun es => (heads es).reduceOption.length) (I := fun _ => True)
    (μ := fun s => s.stdin.length) rfl (fun xs ys => ?_) (fun _ _ _ _ _ _ => trivial) ?_ trivial hrun
  · rw [heads_append, List.reduceOption_append, List.length_append]
  · intro s input s' es _ hstep
    cases input with
    | enter entry =>
        obtain ⟨-, rfl, rfl⟩ := step_enter_iff.mp hstep
        have hheads : (heads [.entered (entry.fgets s.stdin).1 (entry.string s.stdin)]) =
            [(entry.fgets s.stdin).1] := rfl
        rw [hheads, List.reduceOption_singleton]
        exact entry.fgets_length s.stdin
    | round round =>
        obtain ⟨hstdin, hes⟩ := step_round hstep
        have hheads : heads es = [] := by
          refine List.filterMap_eq_nil_iff.mpr fun e he => ?_
          obtain ⟨event, rfl⟩ := hes e he
          rfl
        rw [hheads, hstdin]
        simp

/-- A run meets the property exactly when every round of the outer loop finds
something to read.  It has at most as many rounds as the input has bytes then,
and no run that goes on longer meets it. -/
theorem onlyRead_iff (hrun : (mainLoop effort).run st inputs = some (st', tr)) :
    (OnlyRead tr ↔ (mainLoop effort).Along Readable st inputs) ∧
      (OnlyRead tr → (heads tr).length ≤ st.stdin.length) := by
  constructor
  · have hread := Machine.forall_run_iff (C := Readable)
      (p := fun e => ∀ line string, e = .entered line string →
        ∃ l, line = some l ∧ string = cstr l)
      (fun s i s' es hstep => (forall_entered_iff hstep).trans
        (forall_congr' fun entry => imp_congr_right fun _ => entry.readable_iff s.stdin)) hrun
    exact ⟨fun h => hread.mp h.read, fun h => onlyRead_of_read (hread.mpr h)⟩
  · intro h
    have hsome : ∀ line ∈ heads tr, line.isSome = true := by
      intro line hline
      obtain ⟨e, he, hline⟩ := List.mem_filterMap.mp hline
      cases e with
      | entered line' string =>
          obtain rfl := Option.some.inj hline
          obtain ⟨l, rfl, -⟩ := h.read _ he _ _ rfl
          rfl
      | sending event => cases hline
    have hle := lines_le hrun
    rw [List.reduceOption_length_eq_iff.mpr hsome] at hle
    exact Nat.le_of_add_right_le hle

end Run

theorem step_round_transmits (effort : Int) {st : MainLoop} {buffer : Bytes} {fragment : Fragment}
    (hbuffer : st.dataToStuff = some buffer) (hfragment : st.locals.fragment = some fragment)
    (round : Round) : ∃ st' tr, (mainLoop effort).step st (.round round) =
      some (st', .sending (.transmit st.locals.seqNum fragment round.err) :: tr) := by
  obtain ⟨es, hes⟩ := sendRound_transmits effort buffer st.dataOriginTs hfragment round
  have hsending : st.locals.fragment ≠ none := by
    rw [hfragment]
    exact Option.some_ne_none fragment
  refine ⟨{ st with locals := (sendRound effort buffer st.dataOriginTs st.locals round).1 },
    es.map .sending, ?_⟩
  change mainStep effort st (.round round) = _
  rw [mainStep, if_neg hsending, hbuffer, Option.map_some]
  dsimp only
  rw [hes, List.map_cons]

/-- What the buffer holds after a `fgets` that failed is transmitted. -/
theorem run_leftover (effort : Int) {st : MainLoop} (hwait : st.locals.fragment = none)
    {entry : Entry} (hfail : (entry.fgets st.stdin).1 = none) (hleft : cstr entry.heap ≠ [])
    (round : Round) :
    ∃ st' fragment tr, (mainLoop effort).run st [.enter entry, .round round] =
      some (st', .entered none (cstr entry.heap) ::
        .sending (.transmit 0 fragment round.err) :: tr) := by
  have hbuffer : entry.buffer (entry.fgets st.stdin).1 = entry.heap := by rw [hfail]; rfl
  have hstring : entry.string st.stdin = cstr entry.heap := by rw [Entry.string, hfail]
  obtain ⟨fragment, hfragment⟩ :
      ∃ fragment, (entry.enter st.stdin).locals.fragment = some fragment :=
    start_fragment _ (hbuffer ▸ hleft)
  obtain ⟨st', tr, hstep⟩ := step_round_transmits effort rfl hfragment round
  refine ⟨st', fragment, tr, Machine.run_cons_iff.mpr ?_⟩
  refine ⟨_, _, _, step_enter_iff.mpr ⟨hwait, rfl, rfl⟩, Machine.run_singleton_iff.mpr hstep, ?_⟩
  have hzero : (entry.enter st.stdin).locals.seqNum = 0 := nextFragment_seqNum {}
  rw [hfail, hstring, hzero]
  rfl

/-- A run on one line. -/
theorem onlyRead_one_line : ∃ st st' tr,
    mainStart (fun _ => none) none (invocation (ascii "x")) [65, 10] = some st ∧
      (mainLoop 2).run st [.enter freshEntry] = some (st', tr) ∧ OnlyRead tr := by
  have hstart := mainStart_invocation (ascii "x") [65, 10]
  have hrun := run_enter 2 (mainStart_waiting hstart).2 freshEntry
  refine ⟨_, _, _, hstart, hrun, (onlyRead_iff hrun).1.mpr ⟨?_, fun _ _ => trivial⟩⟩
  rintro entry heq
  cases heq
  exact ⟨rfl, List.cons_ne_nil _ _⟩

/-- A run on no line at all transmits what `malloc` returned. -/
theorem not_onlyRead_empty : ∃ st st' tr,
    mainStart (fun _ => none) none (invocation (ascii "x")) [] = some st ∧
      (mainLoop 2).run st [.enter ⟨[120], none, 0, 0⟩, .round ⟨-1, 0, []⟩] = some (st', tr) ∧
      ¬ OnlyRead tr ∧ ∃ i fragment err, .sending (.transmit i fragment err) ∈ tr := by
  have hstart := mainStart_invocation (ascii "x") []
  obtain ⟨st', fragment, tr, hrun⟩ := run_leftover 2 (mainStart_waiting hstart).2
    (show (Entry.fgets ⟨[120], none, 0, 0⟩ []).1 = none from rfl) (by decide) ⟨-1, 0, []⟩
  refine ⟨_, st', _, hstart, hrun, fun h => ?_, 0, fragment, -1, by simp⟩
  exact h.silent [] _ _ rfl 0 fragment (-1) List.mem_cons_self

end ProbeStuffing.Client

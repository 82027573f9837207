import ProbeStuffing.Client.Terminal
import ProbeStuffing.System.Collected

/-!
# From the terminals to the table

A client of `network` starts one message after the other.  Here the messages come
from a terminal: each is the next line of the standard input of `main`.  Such a
client takes the steps of `main`, whatever the rest of the system does between
them (`station_refines_main`).

A line has at most 199 bytes, so it is sent in one fragment and fits a record.
What is typed without the bytes that one of the stages interprets is in the table
line by line, with the header of its client, when the command of the access point
succeeds (`typed_collected`).
-/

namespace ProbeStuffing.System

open CString Tlv Trace Stdio Client Ap Controller

variable {α : Type}

/-! ## A client and its terminal -/

/-- What is left of the input when these messages have been read from it, line by
line; `none` if they were not. -/
def readLines (effort : Int) : List Message → Bytes → Option Bytes
  | [], stdin => some stdin
  | m :: ms, stdin =>
      match fgets 200 stdin with
      | none => none
      | some (line, rest) =>
          if m.effort = effort ∧ m.dataToStuff = cstr line then readLines effort ms rest else none

/-- The messages of a client. -/
def messagesOf (c : Mac) (es : List (Event α)) : List Message :=
  es.filterMap fun e =>
    match e with
    | .start c' m => if c' = c then some m else none
    | _ => none

/-- The events of the send loop of a client. -/
def clientEvents (c : Mac) (es : List (Event α)) : List Client.Event :=
  es.filterMap fun e =>
    match e with
    | .client c' _ e => if c' = c then some e else none
    | _ => none

/-- The events of the send loop in a run of `main`. -/
def sendings (tr : List MainEvent) : List Client.Event :=
  tr.filterMap fun e =>
    match e with
    | .sending e => some e
    | .entered _ _ => none

/-- The strings that entered the fragmentation loop in a run of `main`. -/
def enteredStrings (tr : List MainEvent) : List Bytes :=
  tr.filterMap fun e =>
    match e with
    | .entered _ string => some string
    | .sending _ => none

theorem messagesOf_append (c : Mac) (es es' : List (Event α)) :
    messagesOf c (es ++ es') = messagesOf c es ++ messagesOf c es' :=
  List.filterMap_append

theorem clientEvents_append (c : Mac) (es es' : List (Event α)) :
    clientEvents c (es ++ es') = clientEvents c es ++ clientEvents c es' :=
  List.filterMap_append

theorem sendings_append (tr tr' : List MainEvent) :
    sendings (tr ++ tr') = sendings tr ++ sendings tr' :=
  List.filterMap_append

theorem enteredStrings_append (tr tr' : List MainEvent) :
    enteredStrings (tr ++ tr') = enteredStrings tr ++ enteredStrings tr' :=
  List.filterMap_append

theorem readLines_append {effort : Int} :
    ∀ {ms ms' : List Message} {stdin : Bytes},
      readLines effort (ms ++ ms') stdin =
        (readLines effort ms stdin).bind (readLines effort ms')
  | [], _, _ => rfl
  | m :: ms, ms', stdin => by
      rw [List.cons_append, readLines, readLines]
      cases fgets 200 stdin with
      | none => rfl
      | some r =>
          dsimp only
          split
          · exact readLines_append
          · rfl

/-- A run of `main` that has done what the client has done. -/
structure Follows (c : Mac) (effort : Int) (es : List (Event α)) (station : Station)
    (tr : List MainEvent) (st : MainLoop) : Prop where
  locals : st.locals = station.locals
  sending : st.locals.fragment ≠ none → ∃ m buffer, station.message = some m ∧
    m.effort = effort ∧ st.dataToStuff = some buffer ∧ cstr buffer = m.dataToStuff ∧
    st.dataOriginTs = m.ts ∧ Coupled m.dataToStuff m.ts st.locals
  events : sendings tr = clientEvents c es
  strings : enteredStrings tr = (messagesOf c es).map Message.dataToStuff

section Follow

variable {c : Mac} {effort : Int} {es : List (Event α)} {station : Station}
  {tr : List MainEvent} {st : MainLoop}

/-- Nothing happens to the client. -/
theorem Follows.idle (h : Follows c effort es station tr st) {es' : List (Event α)}
    (hmessages : messagesOf c es' = []) (hevents : clientEvents c es' = []) :
    Follows c effort (es ++ es') station tr st where
  locals := h.locals
  sending := h.sending
  events := by rw [clientEvents_append, hevents, List.append_nil, h.events]
  strings := by rw [messagesOf_append, hmessages, List.append_nil, h.strings]

/-- The client starts a message that is the next line. -/
theorem Follows.enter (h : Follows c effort es station tr st) {m : Message} {line rest : Bytes}
    (hidle : station.locals.fragment = none) (hline : fgets 200 st.stdin = some (line, rest))
    (heffort : m.effort = effort) (hm : m.dataToStuff = cstr line) :
    ∃ st' es', (mainLoop effort).step st (.enter ⟨[], none, m.tvSec, m.tvUsec⟩) = some (st', es') ∧
      st'.stdin = rest ∧
      Follows c effort (es ++ [.start c m]) ⟨some m, Locals.start m.dataToStuff m.ts⟩
        (tr ++ es') st' := by
  let entry : Entry := ⟨[], none, m.tvSec, m.tvUsec⟩
  have hread : entry.fgets st.stdin = (some line, rest) := by
    simp only [Entry.fgets, entry, hline]
  have hstring : cstr (entry.buffer (some line)) = m.dataToStuff := by
    rw [hm]
    exact cstr_append_nul line _
  have hstart : Locals.start (entry.buffer (some line)) m.ts = Locals.start m.dataToStuff m.ts := by
    rw [← hstring]
    exact nextFragment_buffer (by simp)
  have hwait : st.locals.fragment = none := by rw [h.locals, hidle]
  have henter : (entry.enter st.stdin).locals = Locals.start m.dataToStuff m.ts := by
    rw [← hstart]
    simp only [Entry.enter, hread]
    rfl
  refine ⟨_, _, step_enter_iff.mpr ⟨hwait, rfl, rfl⟩, congrArg Prod.snd hread, ?_⟩
  refine ⟨henter, fun hsome => ?_, ?_, ?_⟩
  · rw [henter] at hsome ⊢
    refine ⟨m, _, rfl, heffort, rfl, ?_, rfl, ?_⟩
    · rw [hread]
      exact hstring
    · exact coupled_nextFragment m.nulFree (by simp) (by decide) (by decide) hsome
  · rw [sendings_append, clientEvents_append, h.events]
    rfl
  · have hentered : entry.string st.stdin = m.dataToStuff := by
      rw [Entry.string, hread]
      exact hm.symm
    rw [enteredStrings_append, messagesOf_append, List.map_append, h.strings, hentered]
    simp [enteredStrings, messagesOf]

theorem messagesOf_client (c c' : Mac) (m : Message) (events : List Client.Event) :
    messagesOf c (events.map (Event.client (α := α) c' m)) = [] := by
  rw [messagesOf, List.filterMap_map]
  exact List.filterMap_eq_nil_iff.mpr fun _ _ => rfl

theorem clientEvents_client (c : Mac) (m : Message) (events : List Client.Event) :
    clientEvents c (events.map (Event.client (α := α) c m)) = events := by
  rw [clientEvents, List.filterMap_map]
  have hself : (fun e : Client.Event => if c = c then some e else none) = some :=
    funext fun e => if_pos rfl
  exact (congrArg (List.filterMap · events) hself).trans List.filterMap_some

theorem sendings_sending (events : List Client.Event) :
    sendings (events.map .sending) = events := by
  rw [sendings, List.filterMap_map]
  exact List.filterMap_some

theorem enteredStrings_sending (events : List Client.Event) :
    enteredStrings (events.map .sending) = [] := by
  rw [enteredStrings, List.filterMap_map]
  exact List.filterMap_eq_nil_iff.mpr fun _ _ => rfl

/-- The client takes a round. -/
theorem Follows.round (h : Follows c effort es station tr st) {m : Message}
    (hm : station.message = some m) (round : Round) :
    let r := sendRound m.effort m.dataToStuff m.ts station.locals round
    ∃ inputs st' tr', (mainLoop effort).run st inputs = some (st', tr') ∧ st'.stdin = st.stdin ∧
      Follows c effort (es ++ r.2.map (.client c m)) ⟨some m, r.1⟩ (tr ++ tr') st' := by
  intro r
  by_cases hidle : st.locals.fragment = none
  · -- a round after the end does nothing, and `main` takes none
    have hr : r = (st.locals, []) := by
      rw [h.locals] at hidle ⊢
      exact sendRound_none hidle round
    refine ⟨[], st, [], Machine.run_nil_iff.mpr ⟨rfl, rfl⟩, rfl, ?_⟩
    rw [hr, List.map_nil, List.append_nil, List.append_nil]
    exact ⟨rfl, fun hsome => absurd hidle hsome, h.events, h.strings⟩
  · obtain ⟨m', buffer, hm', heffort, hbuffer, hstring, hts, hcoupled⟩ := h.sending hidle
    obtain rfl : m = m' := Option.some.inj (hm.symm.trans hm')
    have hr : sendRound effort buffer st.dataOriginTs st.locals round = r := by
      rw [← hstring, ← hts] at hcoupled
      rw [sendRound_buffer hcoupled, hstring, hts, ← heffort, h.locals]
    have hstep : (mainLoop effort).step st (.round round) =
        some ({ st with locals := r.1 }, r.2.map .sending) := by
      change mainStep effort st (.round round) = _
      rw [mainStep, if_neg hidle, hbuffer, Option.map_some]
      dsimp only
      rw [hr]
    refine ⟨[.round round], _, _, Machine.run_singleton_iff.mpr hstep, rfl, rfl, ?_, ?_, ?_⟩
    · intro hsome
      refine ⟨m, buffer, rfl, heffort, hbuffer, hstring, hts, ?_⟩
      have hsame : r = sendRound m.effort m.dataToStuff m.ts st.locals round := by
        rw [h.locals]
      rw [hsame] at hsome ⊢
      exact coupled_sendRound m.nulFree (fun _ => hcoupled) round hsome
    · rw [sendings_append, clientEvents_append, clientEvents_client, sendings_sending, h.events]
    · rw [enteredStrings_append, messagesOf_append, messagesOf_client, enteredStrings_sending,
        List.append_nil, List.append_nil, h.strings]

end Follow

/-! ## Each client is `main` at its terminal -/

theorem messagesOf_ap (c : Mac) (a : α) (f : Option Frame) (events : List Ap.Event) :
    messagesOf c (events.map (.ap a f)) = [] := by
  rw [messagesOf, List.filterMap_map]
  exact List.filterMap_eq_nil_iff.mpr fun _ _ => rfl

theorem clientEvents_ap (c : Mac) (a : α) (f : Option Frame) (events : List Ap.Event) :
    clientEvents c (events.map (.ap a f)) = [] := by
  rw [clientEvents, List.filterMap_map]
  exact List.filterMap_eq_nil_iff.mpr fun _ _ => rfl

section Refinement

variable {s s' : State α} {tr es : List (Event α)} {c : Mac}

/-- `main` has a run from some start that the client follows. -/
def FollowsRun (c : Mac) (effort : Int) (st : MainLoop) (tr : List (Event α)) (s : State α) :
    Prop :=
  ∀ rest, readLines effort (messagesOf c tr) st.stdin = some rest →
    ∃ inputs st' tr', (mainLoop effort).run st inputs = some (st', tr') ∧ st'.stdin = rest ∧
      Follows c effort tr (s.station c) tr' st'

section Step

variable {effort : Int} {st : MainLoop}

variable [DecidableEq α]

theorem followsRun_start {m : Message} (h : FollowsRun c effort st tr s)
    (hstep : network.step s (.start c m) = some (s', es)) :
    FollowsRun c effort st (tr ++ es) s' := by
  cases step_of_network hstep with
  | start hidle =>
      intro rest hread
      have hmessages : messagesOf c [Event.start (α := α) c m] = [m] := by simp [messagesOf]
      rw [messagesOf_append, hmessages, readLines_append] at hread
      obtain ⟨rest₁, hread₁, hread₂⟩ := Option.bind_eq_some_iff.mp hread
      obtain ⟨inputs, st₁, tr₁, hrun, rfl, hfollows⟩ := h rest₁ hread₁
      rw [readLines] at hread₂
      split at hread₂
      · cases hread₂
      · next line rest' hline =>
          split at hread₂
          · next hm =>
              obtain rfl := Option.some.inj hread₂
              obtain ⟨st', es', hmain, hstdin, hfollows'⟩ := hfollows.enter hidle hline hm.1 hm.2
              refine ⟨inputs ++ [.enter ⟨[], none, m.tvSec, m.tvUsec⟩], st', tr₁ ++ es', ?_,
                hstdin, ?_⟩
              · exact Machine.run_append_iff.mpr
                  ⟨st₁, tr₁, es', hrun, Machine.run_singleton_iff.mpr hmain, rfl⟩
              · dsimp only
                rw [Function.update_self]
                exact hfollows'
          · cases hread₂

theorem followsRun_round {err ret : Int} {dump : List (α × ScanEntry)}
    (h : FollowsRun c effort st tr s)
    (hstep : network.step s (.round c err ret dump) = some (s', es)) :
    FollowsRun c effort st (tr ++ es) s' := by
  cases step_of_network hstep with
  | @round _ _ _ _ m _ hm _ hr =>
      subst hr
      intro rest hread
      rw [messagesOf_append, messagesOf_client, List.append_nil] at hread
      obtain ⟨inputs, st₁, tr₁, hrun, rfl, hfollows⟩ := h rest hread
      obtain ⟨inputs', st', tr', hmain, hstdin, hfollows'⟩ :=
        hfollows.round hm ⟨err, ret, dump.map Prod.snd⟩
      refine ⟨inputs ++ inputs', st', tr₁ ++ tr', ?_, hstdin, ?_⟩
      · exact Machine.run_append_iff.mpr ⟨st₁, tr₁, tr', hrun, hmain, rfl⟩
      · dsimp only
        rw [Function.update_self]
        exact hfollows'

/-- A step of another party leaves the client alone. -/
theorem network_other {i : Input α} (hstep : network.step s i = some (s', es))
    (hstart : ∀ m, i ≠ .start c m) (hround : ∀ err ret dump, i ≠ .round c err ret dump) :
    s'.station c = s.station c ∧ messagesOf c es = [] ∧ clientEvents c es = [] := by
  cases step_of_network hstep with
  | @start c' m _ =>
      have hne : c' ≠ c := fun heq => hstart m (heq ▸ rfl)
      exact ⟨Function.update_of_ne (Ne.symm hne) _ _, by simp [messagesOf, hne], rfl⟩
  | scan _ _ => exact ⟨rfl, rfl, rfl⟩
  | @round c' err ret dump _ _ _ _ _ =>
      have hne : c' ≠ c := fun heq => hround err ret dump (heq ▸ rfl)
      refine ⟨Function.update_of_ne (Ne.symm hne) _ _, messagesOf_client c c' _ _, ?_⟩
      rw [clientEvents, List.filterMap_map]
      exact List.filterMap_eq_nil_iff.mpr fun _ _ => if_neg hne
  | receive _ _ => exact ⟨rfl, messagesOf_ap c _ _ _, clientEvents_ap c _ _ _⟩
  | build _ => exact ⟨rfl, messagesOf_ap c _ _ _, clientEvents_ap c _ _ _⟩

theorem followsRun_step {i : Input α} (h : FollowsRun c effort st tr s)
    (hstep : network.step s i = some (s', es)) : FollowsRun c effort st (tr ++ es) s' := by
  by_cases hstart : ∃ m, i = .start c m
  · obtain ⟨m, rfl⟩ := hstart
    exact followsRun_start h hstep
  · by_cases hround : ∃ err ret dump, i = .round c err ret dump
    · obtain ⟨err, ret, dump, rfl⟩ := hround
      exact followsRun_round h hstep
    · obtain ⟨hstation, hmessages, hevents⟩ := network_other hstep
        (fun m heq => hstart ⟨m, heq⟩) (fun err ret dump heq => hround ⟨err, ret, dump, heq⟩)
      intro rest hread
      rw [messagesOf_append, hmessages, List.append_nil] at hread
      obtain ⟨inputs, st₁, tr₁, hrun, rfl, hfollows⟩ := h rest hread
      refine ⟨inputs, st₁, tr₁, hrun, rfl, ?_⟩
      rw [hstation]
      exact hfollows.idle hmessages hevents

end Step

/-- In every run of the network, a client whose messages are the lines of a
terminal takes the steps of `main` at this terminal: some run of `main` reads the
same lines, has the same events in its send loop, and ends with the same locals. -/
theorem station_refines_main [DecidableEq α] {inputs : List (Input α)}
    (hrun : network.run {} inputs = some (s, tr)) {effort : Int} {stdin rest : Bytes}
    (hlines : readLines effort (messagesOf c tr) stdin = some rest) (payload : Option Bytes) :
    ∃ inputs' st tr', (mainLoop effort).run { stdin := stdin, dataToStuff := payload } inputs' =
        some (st, tr') ∧
      st.stdin = rest ∧ st.locals = (s.station c).locals ∧ sendings tr' = clientEvents c tr ∧
      enteredStrings tr' = (messagesOf c tr).map Message.dataToStuff := by
  have hinv : FollowsRun c effort { stdin := stdin, dataToStuff := payload } tr s := by
    refine Machine.run_history (I := FollowsRun c effort _) ?_ ?_ hrun
    · exact fun _ _ _ _ _ h hstep => followsRun_step h hstep
    · intro rest hread
      obtain rfl := Option.some.inj hread
      exact ⟨[], _, [], rfl, rfl, rfl, fun hsome => absurd rfl hsome, rfl, rfl⟩
  obtain ⟨inputs', st, tr', hmain, hstdin, hfollows⟩ := hinv rest hlines
  exact ⟨inputs', st, tr', hmain, hstdin, hfollows.locals, hfollows.events, hfollows.strings⟩

end Refinement

/-- The client of `firstRun` has typed one byte. -/
theorem station_refines_main_firstRun : ∃ s tr, network.run {} firstRun = some (s, tr) ∧
    ∃ inputs' st tr', (mainLoop 2).run { stdin := [120], dataToStuff := none } inputs' =
        some (st, tr') ∧
      st.stdin = [] ∧ st.locals = (s.station station7).locals ∧
      sendings tr' = clientEvents station7 tr ∧
      enteredStrings tr' = (messagesOf station7 tr).map Message.dataToStuff := by
  have hobs : (network.run {} firstRun).map (fun r =>
      readLines 2 (messagesOf station7 r.2) [120]) = some (some []) := by decide
  obtain ⟨r, hrun, hlines⟩ := Option.map_eq_some_iff.mp hobs
  exact ⟨r.1, r.2, hrun, station_refines_main hrun hlines none⟩

/-! ## The rows of what was typed -/

/-- A byte that every stage passes on as it is. -/
def Plain (b : UInt8) : Prop := b ≠ 0 ∧ ¬ Shell.Interpreted b ∧ b ≠ 44 ∧ b ≠ 39 ∧ b ≠ eot

/-- The client's own columns in the row of a line. -/
def lineColumns (c : Mac) (m : Message) : ClientColumns where
  clientMacAddr := c.str
  dataCliUtcTimestamp := digitsVal m.ts
  frameSeqNumber := 0
  ieIndex := 1
  moreFragBit := 0
  dataLength := m.dataToStuff.length
  data := m.dataToStuff

/-- Messages that were read are the lines of the input. -/
theorem readLines_lines {effort : Int} :
    ∀ {ms : List Message} {stdin rest : Bytes}, readLines effort ms stdin = some rest →
      NulFree stdin →
        (ms.map Message.dataToStuff).flatten ++ rest = stdin ∧
          ∀ m ∈ ms, m.dataToStuff.length ≤ 199 ∧ ∀ b ∈ m.dataToStuff, b ∈ stdin
  | [], _, _, h, _ => by
      obtain rfl := Option.some.inj h
      exact ⟨rfl, List.forall_mem_nil _⟩
  | m :: ms, stdin, rest, h, hnul => by
      rw [readLines] at h
      split at h
      · cases h
      · next line rest' hline =>
          obtain ⟨rfl, -, hlen⟩ := fgets_eq_some (by decide) hline
          split at h
          · next hm =>
              have hstring : m.dataToStuff = line := by
                rw [hm.2, cstr_eq_self (hnul.sublist (List.sublist_append_left line rest'))]
              obtain ⟨hflat, hall⟩ :=
                readLines_lines h (hnul.sublist (List.sublist_append_right line rest'))
              refine ⟨?_, List.forall_mem_cons.mpr ⟨⟨?_, fun b hb => ?_⟩, fun m' hm' => ?_⟩⟩
              · rw [List.map_cons, List.flatten_cons, List.append_assoc, hflat, hstring]
              · rw [hstring]
                exact Nat.le_of_lt_succ hlen
              · rw [hstring] at hb
                exact List.mem_append_left rest' hb
              · exact ⟨(hall m' hm').1, fun b hb =>
                  List.mem_append_right line ((hall m' hm').2 b hb)⟩
          · cases h

theorem mem_messagesOf {c : Mac} {m : Message} {es : List (Event α)} (h : .start c m ∈ es) :
    m ∈ messagesOf c es :=
  List.mem_filterMap.mpr ⟨_, h, if_pos rfl⟩

section Line

variable {f : Frame} (h : f.Ok) (hlen : f.message.dataToStuff.length ≤ 424)

include h hlen

/-- The fragment of a short message is the message. -/
theorem fragment_of_line : f.seqNum = 0 ∧ f.fragment.mfb = 0 ∧
    f.fragment.data = f.message.dataToStuff := by
  have hlt := h.start_lt
  have hzero : f.seqNum = 0 := by omega
  have hmfb : (if 1394 * (0 + 1) < f.message.dataToStuff.length then 1 else 0) = 0 :=
    if_neg (by omega)
  rw [h.fragment, hzero]
  refine ⟨rfl, hmfb, ?_⟩
  simp only [fragmentOf, slice, Nat.mul_zero, List.drop_zero]
  exact List.take_of_length_le (by omega)

theorem columnsOf_line : columnsOf f.id = lineColumns f.client f.message := by
  obtain ⟨hseq, hmfb, hdata⟩ := fragment_of_line h hlen
  rw [h.fragment, hseq] at hmfb hdata
  simp only [columnsOf, Frame.id, lineColumns, hmfb, hdata, hseq]

theorem harmless_of_line (hplain : ∀ b ∈ f.message.dataToStuff, Plain b) :
    Harmless f.fragment.data := by
  obtain ⟨-, -, hdata⟩ := fragment_of_line h hlen
  rw [hdata]
  refine ⟨fun b hb => (hplain b hb).2.1, ⟨fun hb => ?_, fun hb => ?_⟩, fun hb => ?_, by omega⟩
  · exact (hplain 44 hb).2.2.1 rfl
  · exact (hplain 39 hb).2.2.2.1 rfl
  · exact (hplain eot hb).2.2.2.2 rfl

end Line

section Collected

variable [DecidableEq α] {Db : Type} {S : Sqlite Db} {db₀ : Db} {tr : List (DeploymentEvent α)}
  {s : Deployment α Db}

/-- In every run of the deployment from an empty table in which the messages of
each client are the lines of its terminal, what is typed is plain, the copies that are
made have NULs behind them, and no client uses a timestamp twice: the messages of a client
are its input cut into lines, the rows of the table are those of such lines, no two of one
line, and an access point processes nothing but lines.  A line of which a command has
succeeded has its row, with the whole line in it, unless its record is in a connection. -/
theorem typed_collected (hempty : S.aplog db₀ = []) {serverSockfd : Nat}
    {inputs : List (DeploymentInput α)}
    (hrun : (deployment S serverSockfd).run { server := { db := db₀ } } inputs = some (s, tr))
    {effort : Mac → Int} {stdin rest : Mac → Bytes}
    (hlines : ∀ c, readLines (effort c) (messagesOf c (netEvents tr)) (stdin c) = some (rest c))
    (hclean : ∀ i ∈ inputs, i.Clean) (hplain : ∀ c, ∀ b ∈ stdin c, Plain b)
    (hts : DistinctTimestamps (netEvents tr)) :
    let rows := (S.aplog s.server.db).map Row.clientColumns
    let typed c := messagesOf c (netEvents tr)
    (∀ c, ((typed c).map Message.dataToStuff).flatten ++ rest c = stdin c) ∧
      rows.Nodup ∧ (∀ r ∈ rows, ∃ c, ∃ m ∈ typed c, r = lineColumns c m) ∧
      ∀ f, StuffedIn (netEvents tr) f →
        f.message ∈ typed f.client ∧ (ForwardedIn (netEvents tr) f →
          lineColumns f.client f.message ∈ rows ∨ InTransit s f) := by
  have hinv := deploymentInv_run hrun hclean
  have hread c := readLines_lines (hlines c) fun b hb => (hplain c b hb).1
  have hline {f : Frame} (hf : f ∈ s.net.sent) : f.Ok ∧
      f.message ∈ messagesOf f.client (netEvents tr) ∧ f.message.dataToStuff.length ≤ 424 ∧
        ∀ b ∈ f.message.dataToStuff, Plain b := by
    obtain ⟨hok, hstart⟩ := hinv.net.sent f hf
    have hmem := mem_messagesOf hstart
    obtain ⟨hlen, hbytes⟩ := (hread f.client).2 _ hmem
    exact ⟨hok, hmem, hlen.trans (by decide), fun b hb => hplain f.client b (hbytes b hb)⟩
  have hharmless : ∀ f ∈ s.net.sent, Harmless f.fragment.data := fun f hf =>
    harmless_of_line (hline hf).1 (hline hf).2.2.1 (hline hf).2.2.2
  obtain ⟨arrivals, hwell, hdb, hframes, hall⟩ := arrivals_of_run hrun hclean hharmless hts
  have hperm := perm_columns S hempty hwell
  rw [hdb]
  refine ⟨fun c => (hread c).1, hperm.nodup_iff.mpr (nodup_columns hwell), fun r hr => ?_,
    fun f hf => ?_⟩
  · obtain ⟨i, hi, rfl⟩ := List.mem_map.mp (hperm.mem_iff.mp hr)
    obtain ⟨a, ha, rfl⟩ := List.mem_map.mp (List.mem_dedup.mp hi)
    obtain ⟨hok, hmem, hlen, -⟩ := hline (hinv.sent a.frame (hframes a ha).2.2)
    exact ⟨a.frame.client, a.frame.message, hmem, columnsOf_line hok hlen⟩
  · obtain ⟨hok, hmem, hlen, -⟩ := hline (hinv.sent f hf)
    refine ⟨hmem, fun hforwarded => (hall f hforwarded).imp_left ?_⟩
    rintro ⟨a, ha, heq⟩
    rw [← columnsOf_line hok hlen, ← heq]
    exact hperm.mem_iff.mpr (List.mem_map_of_mem (List.mem_dedup.mpr (List.mem_map_of_mem ha)))

end Collected

theorem messagesOf_eq_started (c : Mac) (es : List (Event α)) :
    messagesOf c es = (started es).filterMap fun p => if p.1 = c then some p.2 else none := by
  rw [started, List.filterMap_filterMap]
  refine congrArg (List.filterMap · es) (funext fun e => ?_)
  cases e with
  | start c' m => rfl
  | transmit f => rfl
  | client c' m e => rfl
  | ap a f e => rfl

/-- The terminal of the client of `oneMessage`. -/
def oneByte (c : Mac) : Bytes := if c = station7 then [120] else []

theorem typed_collected_oneMessage : ∃ s tr,
    (deployment Sqlite.memory 3).run { server := { db := [] } } oneMessage = some (s, tr) ∧
      (s.server.db.map Row.clientColumns).Nodup ∧
      lineColumns station7 firstMessage ∈ s.server.db.map Row.clientColumns := by
  have hrun : ((deployment Sqlite.memory 3).run { server := { db := [] } } oneMessage).map
      (fun r => (started (netEvents r.2), r.1.server.db.map Row.clientColumns)) =
        some ([(station7, firstMessage)], [lineColumns station7 firstMessage]) := by
    decide +kernel
  obtain ⟨r, hr, heq⟩ := Option.map_eq_some_iff.mp hrun
  obtain ⟨hstarted, hrows⟩ := Prod.mk.inj heq
  have hlines : ∀ c, readLines 2 (messagesOf c (netEvents r.2)) (oneByte c) = some [] := by
    intro c
    rw [messagesOf_eq_started, hstarted, oneByte]
    by_cases hc : c = station7
    · subst hc
      decide
    · have hnone : [(station7, firstMessage)].filterMap
          (fun p => if p.1 = c then some p.2 else none) = [] := by simp [Ne.symm hc]
      rw [if_neg hc, hnone]
      rfl
  have hplain : ∀ c, ∀ b ∈ oneByte c, Plain b := by
    intro c b hb
    rw [oneByte] at hb
    split at hb
    · obtain rfl := List.mem_singleton.mp hb
      exact ⟨by decide, by decide, by decide, by decide, by decide⟩
    · cases hb
  have hts : DistinctTimestamps (netEvents r.2) := by
    rw [DistinctTimestamps, hstarted]
    simp
  refine ⟨r.1, r.2, hr, (typed_collected rfl hr hlines oneMessage_clean hplain hts).2.1, ?_⟩
  rw [hrows]
  exact List.mem_cons_self

end ProbeStuffing.System

import ProbeStuffing.System.Pending

/-!
# Nothing stays on its way

While something is pending and every open connection has its slot in the table, some
round of the controller has an event (`exists_round`).  So the controller can go on
until nothing is pending, and then each frame whose command has succeeded has its row.  A
connection that was accepted without a free slot is the only thing that can keep it from
getting there (`completed`).
-/

namespace ProbeStuffing.System

open CString Tlv Trace Slots Client Ap Controller

variable {α Db : Type}

/-! ## Rounds with one event -/

/-- A record has its eight fields. -/
theorem tokens_recordOf {f : Frame} (hf : f.Ok) (hdata : Harmless f.fragment.data)
    (sec usec : Nat) :
    ∃ g : Fields, tokens 44 (cstr (recordOf f sec usec)) = g.toList := by
  obtain ⟨a, rfl, hrecord, -, -⟩ := exists_arrival f sec usec ⟨0, 0, 0, 0⟩ 0
  have hwell : WellBehaved [a] :=
    { ok := List.forall_mem_singleton.mpr hf
      clean := List.forall_mem_singleton.mpr hdata.clean
      short := List.forall_mem_singleton.mpr (csvHead_length_add hf hdata a.apSec a.apUsec)
      timestamps := fun b hb c hc _ _ => by
        rw [List.mem_singleton.mp hb, List.mem_singleton.mp hc] }
  exact ⟨a.fields, hrecord ▸ hwell.tokens List.mem_cons_self⟩

/-- It can be saved. -/
theorem sqlInsert_record {f : Frame} (hf : f.Ok) (hdata : Harmless f.fragment.data)
    (sec usec : Nat) (clientAddr : InAddr) (conTs : UInt64) :
    (sqlInsert clientAddr conTs (recordOf f sec usec)).isSome := by
  obtain ⟨g, hg⟩ := tokens_recordOf hf hdata sec usec
  rw [sqlInsert_eq, columnValues_of_tokens hg]
  rfl

/-- The controller takes it over, and `process_and_save` returns from it. -/
theorem takeOver_record {f : Frame} (hf : f.Ok) (hdata : Harmless f.fragment.data)
    (sec usec : Nat) (luck : Luck) (hclean : luck.heap.Clean) :
    takeOver luck (Read.bytes (Controller.frame (recordOf f sec usec))).buffer =
      some (some (recordOf f sec usec)) := by
  have hnul : NulFree (recordOf f sec usec) := csv_nulFree hf hdata sec usec
  have hstring : (fullCopy (recordOf f sec usec) luck.heap.behindData).string =
      recordOf f sec usec := (fullCopy_string_iff hnul _).mpr hclean.data
  have hreturns : luck.returns (recordOf f sec usec) = true := by
    obtain ⟨g, hg⟩ := tokens_recordOf hf hdata sec usec
    rw [Luck.returns, hg]
    rfl
  rw [takeOver_buffer, takeOver, decode_frame_of_not_mem hnul (eot_notMem_csv hf hdata sec usec)
    hclean.command, Option.bind_some]
  dsimp only
  rw [Option.all_some, hstring, if_pos hreturns, Option.map_some, hstring]

section Progress

variable {S : Sqlite Db} {serverSockfd : Nat} {s : Deployment α Db}

/-- A round in which one client is ready, and no connection is accepted. -/
theorem serveStep_client {sd : Nat} {x y : List Nat} {i : Incoming} {conTs : List UInt64}
    (hne : sd ≠ serverSockfd) (hwatched : sd ∈ watched serverSockfd s.server.connections)
    (hslots : s.server.connections.clientSockfds = x ++ sd :: y) (hx : sd ∉ x)
    {streams' : Nat → Option Bytes} {r : List Nat × List Nat × List ServerEvent} {db' : Db}
    {clientAddr : Nat → InAddr} (hdrain : drain s.streams [(sd, i)] = some streams')
    (hserve : serveClients (fun z => decide (z = sd)) (sd :: y) s.server.connections.opened [i] =
      some r)
    (hsave : saveStrings S clientAddr (strings r.2.2) conTs s.server.db = some db') :
    serveStep S serverSockfd s ⟨⟨[sd], none, [i]⟩, clientAddr, conTs⟩ 0 =
      some ({ s with streams := streams', server := ⟨⟨x ++ r.1, r.2.1⟩, db'⟩ },
        r.2.2.map .server) := by
  have hready : isSet serverSockfd s.server.connections ⟨[sd], none, [i]⟩ =
      fun z => decide (z = sd) := funext (isSet_singleton hwatched)
  have hserver :
      ¬ isSet serverSockfd s.server.connections ⟨[sd], none, [i]⟩ serverSockfd = true := by
    rw [hready]
    simpa using hne.symm
  have hidle : ∀ z ∈ x, decide (z = sd) = false := fun z hz =>
    decide_eq_false fun heq => hx (heq ▸ hz)
  refine serveStep_eq_some_iff.mpr ⟨(s.server.connections, []), (s.backlog, s.streams), streams',
    (x ++ r.1, r.2.1, r.2.2), db', if_neg hserver, if_neg hserver, ?_, ?_, hsave, rfl, rfl⟩
  · dsimp only
    rw [hready, hslots, readsOf_idle hidle, readsOf_cons (decide_eq_true rfl), readsOf,
      List.zip_nil_right]
    exact hdrain
  · dsimp only
    rw [hready, hslots, serveClients_idle hidle, hserve]
    rfl

/-- The table has no connection that is not open, and is full of free slots without one. -/
theorem Consistent.free_mem (h : Consistent serverSockfd s)
    (hopened : s.server.connections.opened = []) :
    ∀ sd ∈ s.server.connections.clientSockfds, sd = 0 := by
  obtain ⟨lost, hholds⟩ := h.holds
  refine fun sd hsd => Classical.not_not.mp fun hne => ?_
  have hheld := hholds.mem_held hsd hne
  rw [hopened] at hheld
  cases hheld

/-- A round with an event that has a slot for the connection it accepts, and NULs behind
the copies it makes. -/
def CanAdvance (S : Sqlite Db) (serverSockfd : Nat) (s : Deployment α Db) : Prop :=
  ∃ i s' des, serveStep S serverSockfd s i 0 = some (s', des) ∧ des ≠ [] ∧
    Room serverSockfd s.server.connections i.activity ∧
    ∀ incoming ∈ i.activity.incoming, incoming.Clean

/-- A round that accepts the first connection of the backlog. -/
theorem exists_accept (h : Consistent serverSockfd s) (hserver : serverSockfd ≠ 0)
    (hopened : s.server.connections.opened = []) (hbacklog : s.backlog ≠ []) :
    CanAdvance S serverSockfd s := by
  obtain ⟨w, backlog, hw⟩ := List.exists_cons_of_ne_nil hbacklog
  have hzero := h.free_mem hopened
  have hwatched : serverSockfd ∈ watched serverSockfd s.server.connections := List.mem_cons_self
  have hslot : 0 ∈ s.server.connections.clientSockfds := by
    have hpos : 0 < s.server.connections.clientSockfds.length := h.length ▸ (by decide)
    have hmem := List.getElem_mem hpos
    rwa [hzero _ hmem] at hmem
  have hset : ∀ x, isSet serverSockfd s.server.connections
      ⟨[serverSockfd], some (serverSockfd + 1), []⟩ x = decide (x = serverSockfd) :=
    isSet_singleton hwatched
  have hidle : ∀ x ∈ place 0 (serverSockfd + 1) s.server.connections.clientSockfds,
      isSet serverSockfd s.server.connections
        ⟨[serverSockfd], some (serverSockfd + 1), []⟩ x = false := by
    intro x hx
    rw [hset]
    refine decide_eq_false ?_
    rcases mem_place hx with rfl | hx
    · exact Nat.succ_ne_self serverSockfd
    · rw [hzero x hx]
      exact hserver.symm
  have hself : isSet serverSockfd s.server.connections
      ⟨[serverSockfd], some (serverSockfd + 1), []⟩ serverSockfd = true := by
    rw [hset]
    exact decide_eq_true rfl
  have hunused : Unused serverSockfd s.server.connections (serverSockfd + 1) := by
    refine ⟨Nat.succ_ne_zero _, Nat.succ_ne_self _, ?_⟩
    rw [hopened]
    exact List.not_mem_nil
  refine ⟨⟨⟨[serverSockfd], some (serverSockfd + 1), []⟩, fun _ => ⟨0, 0, 0, 0⟩, []⟩, _, _,
    serveStep_eq_some_iff.mpr ⟨(⟨place 0 (serverSockfd + 1) s.server.connections.clientSockfds,
        (serverSockfd + 1) :: s.server.connections.opened⟩, [.accepted (serverSockfd + 1)]),
      (backlog, Function.update s.streams (serverSockfd + 1) (some w)),
      Function.update s.streams (serverSockfd + 1) (some w), _, s.server.db, ?_, ?_, ?_,
      serveClients_all_idle hidle, rfl, rfl, rfl⟩, List.cons_ne_nil _ _, fun _ => hslot,
    List.forall_mem_nil _⟩
  · rw [acceptClient, if_pos hself]
    exact if_pos hunused
  · rw [acceptStream, if_pos hself]
    dsimp only
    rw [hw]
    rfl
  · rw [readsOf, List.zip_nil_right]
    rfl

/-- Where a connection of the table has its slot. -/
theorem Consistent.split (h : Consistent serverSockfd s) {sd : Nat}
    (hok : TableOk s.server.connections) (hsd : sd ∈ s.server.connections.opened) :
    sd ≠ serverSockfd ∧ sd ∈ watched serverSockfd s.server.connections ∧
      ∃ x y, s.server.connections.clientSockfds = x ++ sd :: y ∧ sd ∉ x ∧ sd ∉ y := by
  obtain ⟨lost, hholds⟩ := h.holds
  have hcount := hok.kept sd hsd
  have hmem : sd ∈ s.server.connections.clientSockfds :=
    List.count_pos_iff.mp (by rw [hcount]; exact Nat.one_pos)
  have hpos : 0 < sd := Nat.pos_of_ne_zero fun hzero => hholds.free_notMem (hzero ▸ hsd)
  obtain ⟨x, y, hsplit⟩ := List.append_of_mem hmem
  rw [hsplit, List.count_append, List.count_cons_self] at hcount
  refine ⟨fun heq => h.server (heq ▸ hsd), ?_, x, y, hsplit,
    List.count_eq_zero.mp (by omega), List.count_eq_zero.mp (by omega)⟩
  exact List.mem_cons_of_mem _ (List.mem_filter.mpr ⟨hmem, decide_eq_true hpos⟩)

/-- A round that closes a connection with nothing left in it. -/
theorem exists_close (h : Consistent serverSockfd s) (hok : TableOk s.server.connections)
    {sd : Nat} (hsd : sd ∈ s.server.connections.opened)
    (hempty : s.streams sd = some []) : CanAdvance S serverSockfd s := by
  obtain ⟨hne, hwatched, x, y, hsplit, hx, hy⟩ := h.split hok hsd
  have hidle : ∀ z ∈ y, decide (z = sd) = false := fun z hz =>
    decide_eq_false fun heq => hy (heq ▸ hz)
  have hdrain : drain s.streams [(sd, .eof)] = some (Function.update s.streams sd none) :=
    if_pos hempty
  have hserve : serveClients (fun z => decide (z = sd)) (sd :: y) s.server.connections.opened
      [.eof] = some (0 :: y, s.server.connections.opened.erase sd, [.closed sd]) := by
    rw [serveClients, if_pos (decide_eq_true rfl), serveClients_all_idle hidle]
    rfl
  have hsave : saveStrings S (fun _ => ⟨0, 0, 0, 0⟩) (strings [.closed sd]) [] s.server.db =
      some s.server.db := rfl
  refine ⟨_, _, _, serveStep_client hne hwatched hsplit hx hdrain hserve hsave,
    List.cons_ne_nil _ _, fun hset => ?_, List.forall_mem_singleton.mpr trivial⟩
  rw [isSet_singleton hwatched, decide_eq_true_iff] at hset
  exact absurd hset hne.symm

/-- A round that reads a record. -/
theorem exists_read (h : Consistent serverSockfd s) (hok : TableOk s.server.connections)
    {sd : Nat} (hsd : sd ∈ s.server.connections.opened) {f : Frame} (hf : f.Ok)
    (hdata : Harmless f.fragment.data) {sec usec : Nat}
    (hrecord : s.streams sd = some (Controller.frame (recordOf f sec usec))) :
    CanAdvance S serverSockfd s := by
  obtain ⟨hne, hwatched, x, y, hsplit, hx, hy⟩ := h.split hok hsd
  have hidle : ∀ z ∈ y, decide (z = sd) = false := fun z hz =>
    decide_eq_false fun heq => hy (heq ▸ hz)
  have hlen : (Controller.frame (recordOf f sec usec)).length ≤ bufferSz - 1 := by
    have hle : (recordOf f sec usec).length ≤ maxStrSz := csv_length_le hf hdata sec usec
    have hmax : maxStrSz + 6 ≤ bufferSz - 1 := by decide
    rw [length_frame]
    omega
  have hdrain :
      drain s.streams [(sd, .read (.bytes (Controller.frame (recordOf f sec usec))) {})] =
        some (Function.update s.streams sd (some [])) := by
    rw [drain, hrecord]
    dsimp only
    rw [if_pos ⟨List.cons_ne_nil _ _, hlen, List.prefix_rfl⟩, List.drop_length]
    rfl
  have hheap : ({} : Luck).heap.Clean := ⟨rfl, rfl⟩
  have hserve : serveClients (fun z => decide (z = sd)) (sd :: y) s.server.connections.opened
      [.read (.bytes (Controller.frame (recordOf f sec usec))) {}] =
        some (sd :: y, s.server.connections.opened, [.handed sd (recordOf f sec usec)]) := by
    rw [serveClients, if_pos (decide_eq_true rfl), takeOver_record hf hdata sec usec {} hheap]
    dsimp only
    rw [serveClients_all_idle hidle]
    rfl
  have hsave : saveStrings S (fun _ => ⟨0, 0, 0, 0⟩)
      (strings [.handed sd (recordOf f sec usec)]) [0] s.server.db =
        some (save S ⟨0, 0, 0, 0⟩ 0 (recordOf f sec usec) s.server.db) :=
    if_pos (sqlInsert_record hf hdata sec usec ⟨0, 0, 0, 0⟩ 0)
  refine ⟨_, _, _, serveStep_client hne hwatched hsplit hx hdrain hserve hsave,
    List.cons_ne_nil _ _, fun hset => ?_, List.forall_mem_singleton.mpr hheap⟩
  rw [isSet_singleton hwatched, decide_eq_true_iff] at hset
  exact absurd hset hne.symm

/-- While something is pending the controller has a round with an event. -/
theorem exists_round {es : List (Event α)} {db₀ : Db} (h : Consistent serverSockfd s)
    (htracked : Tracked S db₀ es s) (hserver : serverSockfd ≠ 0)
    (hok : TableOk s.server.connections) (hpending : pending s ≠ 0) :
    CanAdvance S serverSockfd s := by
  cases hopened : s.server.connections.opened with
  | nil =>
      refine exists_accept h hserver hopened fun hbacklog => hpending ?_
      rw [pending, hbacklog, hopened]
      rfl
  | cons sd opened =>
      have hsd : sd ∈ s.server.connections.opened := hopened ▸ List.mem_cons_self
      obtain ⟨w, hw⟩ := Option.ne_none_iff_exists'.mp ((h.streams sd).mpr hsd)
      rcases htracked.streams sd w hw with rfl | ⟨csv, ⟨f, sec, usec, ⟨hf, hdata, -⟩, rfl⟩, rfl⟩
      · exact exists_close h hok hsd hw
      · exact exists_read h hok hsd hf hdata hw

/-- Every connection has its slot after a round exactly if every one had before, and
the one that is accepted gets one. -/
theorem tableOk_serveStep_iff {i : ServerInput} {place : Nat} {s' : Deployment α Db}
    {des : List (DeploymentEvent α)} {lost : List Nat}
    (h : Holds 0 s.server.connections.clientSockfds s.server.connections.opened lost)
    (hstep : serveStep S serverSockfd s i place = some (s', des)) :
    (∃ lost', Holds 0 s'.server.connections.clientSockfds s'.server.connections.opened lost') ∧
      (TableOk s'.server.connections ↔
        TableOk s.server.connections ∧ Room serverSockfd s.server.connections i.activity) := by
  obtain ⟨a, b, streams', r, db', haccept, -, -, hserve, -, rfl, -⟩ :=
    serveStep_eq_some_iff.mp hstep
  have hround : serverRound serverSockfd s.server.connections i.activity =
      some (⟨r.1, r.2.1⟩, a.2 ++ r.2.2) := by
    rw [serverRound, haccept, Option.bind_some, hserve]
    rfl
  obtain ⟨lost', h', hiff⟩ := serverRound_holds h hround
  refine ⟨⟨lost', h'⟩, ?_⟩
  rw [tableOk_iff_lost h, ← hiff]
  exact tableOk_iff_lost h'

end Progress

/-! ## Runs -/

section Runs

variable {S : Sqlite Db} {db₀ : Db} {serverSockfd : Nat} {s s' : Deployment α Db}
  {tr tr' : List (DeploymentEvent α)}

/-- Rounds of the controller, and nothing else. -/
def IsServe : DeploymentInput α → Prop
  | .net _ _ => False
  | .serve _ _ => True

/-- When nothing is pending, no record is on its way. -/
theorem Consistent.not_inTransit (h : Consistent serverSockfd s) (hpending : pending s = 0)
    (f : Frame) : ¬ InTransit s f := by
  obtain ⟨hbacklog, hsum⟩ := Nat.add_eq_zero_iff.mp hpending
  rintro ⟨sec, usec, hmem | ⟨sd, hsd⟩⟩
  · rw [cost_eq_zero hbacklog] at hmem
    cases hmem
  · have hopen : sd ∈ s.server.connections.opened.toFinset := by
      refine List.mem_toFinset.mpr ((h.streams sd).mp ?_)
      rw [hsd]
      exact Option.some_ne_none _
    have hwork := Finset.sum_eq_zero_iff.mp hsum sd hopen
    rw [hsd, work_frame] at hwork
    cases hwork

/-- When nothing is pending, no connection is open. -/
theorem Consistent.tableOk (h : Consistent serverSockfd s) (hpending : pending s = 0) :
    TableOk s.server.connections := by
  obtain ⟨lost, hholds⟩ := h.holds
  refine (tableOk_iff_lost hholds).mpr (List.eq_nil_iff_forall_not_mem.mpr fun sd hsd => ?_)
  have hopen := hholds.perm.symm.subset (List.mem_append_right _ hsd)
  obtain ⟨w, hw⟩ := Option.ne_none_iff_exists'.mp ((h.streams sd).mpr hopen)
  have hwork := Finset.sum_eq_zero_iff.mp (Nat.add_eq_zero_iff.mp hpending).2 sd
    (List.mem_toFinset.mpr hopen)
  rw [hw] at hwork
  cases w with
  | nil => cases hwork
  | cons _ _ => cases hwork

variable [DecidableEq α]

/-- A connection without a slot stays without one. -/
theorem tableOk_of_run {rounds : List (DeploymentInput α)} (hrounds : ∀ i ∈ rounds, IsServe i)
    (h : Consistent serverSockfd s)
    (hrun : (deployment S serverSockfd).run s rounds = some (s', tr'))
    (hok : TableOk s'.server.connections) : TableOk s.server.connections := by
  have hback : (∃ lost, Holds 0 s'.server.connections.clientSockfds
      s'.server.connections.opened lost) ∧
        (TableOk s'.server.connections → TableOk s.server.connections) := by
    refine Machine.run_invariant (P := IsServe) (I := fun _ (s₁ : Deployment α Db) =>
      (∃ lost, Holds 0 s₁.server.connections.clientSockfds s₁.server.connections.opened lost) ∧
        (TableOk s₁.server.connections → TableOk s.server.connections))
      (fun pre s₁ i s₂ es h₁ hi hstep => ?_) ⟨h.holds, id⟩ hrounds hrun
    cases i with
    | net i client => exact hi.elim
    | serve i place =>
        obtain ⟨⟨lost, hholds⟩, himp⟩ := h₁
        obtain ⟨hholds', hiff⟩ := tableOk_serveStep_iff hholds hstep
        exact ⟨hholds', fun hok => himp (hiff.mp hok).1⟩
  exact hback.2 hok

/-- Rounds of the controller leave the network as it is. -/
theorem serve_run {rounds : List (DeploymentInput α)} (hrounds : ∀ i ∈ rounds, IsServe i)
    (hrun : (deployment S serverSockfd).run s rounds = some (s', tr')) :
    s'.net = s.net ∧ netEvents tr' = [] ∧ connections tr' = [] ∧
      (serverEvents tr').length = tr'.length := by
  refine Machine.run_invariant (P := IsServe) (I := fun tr (s₁ : Deployment α Db) =>
    s₁.net = s.net ∧ netEvents tr = [] ∧ connections tr = [] ∧
      (serverEvents tr).length = tr.length)
    (fun pre s₁ i s₂ es h hi hstep => ?_) ⟨rfl, rfl, rfl, rfl⟩ hrounds hrun
  cases i with
  | net i client => exact hi.elim
  | serve i place =>
      obtain ⟨hnet, hevents, hconnections, hlength⟩ := h
      obtain ⟨a, b, streams', r, db', -, -, -, -, -, rfl, rfl⟩ := serveStep_eq_some_iff.mp hstep
      refine ⟨hnet, ?_, ?_, ?_⟩
      · rw [netEvents_append, hevents, netEvents_server]
        rfl
      · rw [connections_append, hconnections, connections_server]
        rfl
      · simp only [serverEvents_append, serverEvents_server, List.length_append, List.length_map,
          hlength]

/-- The controller can go on until nothing is pending. -/
theorem exists_completion (hserver : serverSockfd ≠ 0) (h : Balanced S db₀ serverSockfd tr s)
    (hharmless : ∀ f ∈ s.net.sent, Harmless f.fragment.data)
    (hok : TableOk s.server.connections) :
    ∃ rounds s' tr', (∀ i ∈ rounds, IsServe i ∧ i.Clean) ∧
      (deployment S serverSockfd).run s rounds = some (s', tr') ∧ pending s' = 0 := by
  let I : Deployment α Db → Prop := fun s => (∃ tr, Balanced S db₀ serverSockfd tr s) ∧
    (∀ f ∈ s.net.sent, Harmless f.fragment.data) ∧ TableOk s.server.connections
  have hstart : I s := ⟨⟨tr, h⟩, hharmless, hok⟩
  refine Machine.exists_run_zero (P := fun i : DeploymentInput α => IsServe i ∧ i.Clean) (I := I)
    ?_ hstart (Nat.le_refl (pending s))
  rintro s ⟨⟨tr, h⟩, hharmless, hok⟩ hpending
  obtain ⟨hconsistent, -⟩ := h.balance hharmless
  obtain ⟨lost, hholds⟩ := hconsistent.holds
  have htracked := h.inv.tracked hharmless
  obtain ⟨i, s', des, hstep, hne, hroom, hclean⟩ :=
    exists_round hconsistent htracked hserver hok hpending
  obtain ⟨-, hcount⟩ := serve_consistent hconsistent hclean htracked hstep
  have hstep' : (deployment S serverSockfd).step s (.serve i 0) = some (s', des) := hstep
  have hnet : s'.net = s.net := by
    obtain ⟨a, b, streams', r, db', -, -, -, -, -, rfl, -⟩ := serveStep_eq_some_iff.mp hstep
    rfl
  have hpos := List.length_pos_iff.mpr hne
  have hinput : (DeploymentInput.serve i 0 : DeploymentInput α).Clean := hclean
  have hbalanced : Balanced S db₀ serverSockfd (tr ++ des) s' := balanced_step h hinput hstep'
  exact ⟨.serve i 0, s', des, ⟨trivial, hclean⟩, hstep', ⟨⟨_, hbalanced⟩, hnet ▸ hharmless,
    (tableOk_serveStep_iff hholds hstep).2.mpr ⟨hok, hroom⟩⟩, by omega⟩

/-- When nothing is pending, each frame whose command has succeeded has its row. -/
theorem saved_of_not_pending (hempty : S.aplog db₀ = []) {inputs : List (DeploymentInput α)}
    (hrun : (deployment S serverSockfd).run { server := { db := db₀ } } inputs = some (s, tr))
    (hclean : ∀ i ∈ inputs, i.Clean) (hharmless : ∀ f ∈ s.net.sent, Harmless f.fragment.data)
    (hts : DistinctTimestamps (netEvents tr)) (hpending : pending s = 0) {f : Frame}
    (hf : ForwardedIn (netEvents tr) f) :
    columnsOf f.id ∈ (S.aplog s.server.db).map Row.clientColumns := by
  obtain ⟨arrivals, hwell, hdb, -, hsaved⟩ := arrivals_of_run hrun hclean hharmless hts
  rcases hsaved f hf with ⟨a, ha, heq⟩ | htransit
  · rw [hdb, ← heq]
    exact (perm_columns S hempty hwell).mem_iff.mpr
      (List.mem_map_of_mem (List.mem_dedup.mpr (List.mem_map_of_mem ha)))
  · exact absurd htransit
      (((balanced_run hrun hclean).balance hharmless).1.not_inTransit hpending f)

/-- With NULs behind all copies, the controller on its own has at most the pending events,
and when they are over each frame whose command has succeeded has its row.  It can get there
exactly if every open connection has its slot in the table. -/
theorem completed (hempty : S.aplog db₀ = []) {inputs : List (DeploymentInput α)}
    (hrun : (deployment S serverSockfd).run { server := { db := db₀ } } inputs = some (s, tr))
    (hclean : ∀ i ∈ inputs, i.Clean) (hharmless : ∀ f ∈ s.net.sent, Harmless f.fragment.data)
    (hts : DistinctTimestamps (netEvents tr)) :
    (∀ rounds s' tr', (∀ i ∈ rounds, IsServe i ∧ i.Clean) →
      (deployment S serverSockfd).run s rounds = some (s', tr') →
        tr'.length + pending s' = pending s ∧
          (pending s' = 0 → ∀ f, ForwardedIn (netEvents tr) f →
            columnsOf f.id ∈ (S.aplog s'.server.db).map Row.clientColumns)) ∧
      (serverSockfd ≠ 0 → (TableOk s.server.connections ↔
        ∃ rounds s' tr', (∀ i ∈ rounds, IsServe i ∧ i.Clean) ∧
          (deployment S serverSockfd).run s rounds = some (s', tr') ∧ pending s' = 0)) := by
  constructor
  · intro rounds s' tr' hrounds hrun'
    have hserve : ∀ i ∈ rounds, IsServe i := fun i hi => (hrounds i hi).1
    obtain ⟨hnet, hevents, hconnections, hlength⟩ := serve_run hserve hrun'
    have hall := Machine.run_append_iff.mpr ⟨s, tr, tr', hrun, hrun', rfl⟩
    have hcleanAll : ∀ i ∈ inputs ++ rounds, i.Clean :=
      List.forall_mem_append.mpr ⟨hclean, fun i hi => (hrounds i hi).2⟩
    have hharmless' : ∀ f ∈ s'.net.sent, Harmless f.fragment.data := hnet ▸ hharmless
    obtain ⟨-, hbalance⟩ := (balanced_run hrun hclean).balance hharmless
    obtain ⟨-, hbalance'⟩ := (balanced_run hall hcleanAll).balance hharmless'
    have hsame : netEvents (tr ++ tr') = netEvents tr := by
      rw [netEvents_append, hevents, List.append_nil]
    rw [serverEvents_append, List.length_append, hlength, connections_append, hconnections,
      List.append_nil] at hbalance'
    exact ⟨by omega, fun hpending f hf => saved_of_not_pending hempty hall hcleanAll hharmless'
      (hsame.symm ▸ hts) hpending (hsame.symm ▸ hf)⟩
  · intro hserver
    refine ⟨fun hok => exists_completion hserver (balanced_run hrun hclean) hharmless hok, ?_⟩
    rintro ⟨rounds, s', tr', hrounds, hrun', hpending⟩
    have hserve : ∀ i ∈ rounds, IsServe i := fun i hi => (hrounds i hi).1
    have hall := Machine.run_append_iff.mpr ⟨s, tr, tr', hrun, hrun', rfl⟩
    have hcleanAll : ∀ i ∈ inputs ++ rounds, i.Clean :=
      List.forall_mem_append.mpr ⟨hclean, fun i hi => (hrounds i hi).2⟩
    have hharmless' : ∀ f ∈ s'.net.sent, Harmless f.fragment.data :=
      (serve_run hserve hrun').1 ▸ hharmless
    exact tableOk_of_run hserve ((balanced_run hrun hclean).balance hharmless).1 hrun'
      (((balanced_run hall hcleanAll).balance hharmless').1.tableOk hpending)

end Runs

/-- A message of one byte that has been processed, and no round of the controller so far. -/
theorem completed_oneMessage : ∃ s tr,
    (deployment Sqlite.memory 3).run { server := { db := [] } } (oneMessage.take 3) =
        some (s, tr) ∧
      pending s = 3 ∧ ∃ rounds s' tr',
        (deployment Sqlite.memory 3).run s rounds = some (s', tr') ∧ tr'.length = 3 ∧
          ∀ f, ForwardedIn (netEvents tr) f →
            columnsOf f.id ∈ s'.server.db.map Row.clientColumns := by
  have hrun : ((deployment Sqlite.memory 3).run { server := { db := [] } } (oneMessage.take 3)).map
      (fun r => (r.1.net.sent, started (netEvents r.2), r.1.server.connections, pending r.1)) =
        some ([firstFrame], [(station7, firstMessage)], {}, 3) := by
    decide +kernel
  obtain ⟨r, hr, heq⟩ := Option.map_eq_some_iff.mp hrun
  obtain ⟨hsent, hrest⟩ := Prod.mk.inj heq
  obtain ⟨hstarted, hrest⟩ := Prod.mk.inj hrest
  obtain ⟨hconnections, hpending⟩ := Prod.mk.inj hrest
  have hharmless : ∀ f ∈ r.1.net.sent, Harmless f.fragment.data := by
    rw [hsent, List.forall_mem_singleton]
    exact ⟨by decide, by decide, by decide, by decide⟩
  have hts : DistinctTimestamps (netEvents r.2) := by
    rw [DistinctTimestamps, hstarted]
    simp
  have hok : TableOk r.1.server.connections :=
    hconnections ▸ (tableOk_iff_lost (Slots.holds_replicate maxClients)).mpr rfl
  have hclean : ∀ i ∈ oneMessage.take 3, i.Clean := fun i hi =>
    oneMessage_clean i (List.mem_of_mem_take hi)
  obtain ⟨hcount, hexists⟩ := completed rfl hr hclean hharmless hts
  obtain ⟨rounds, s', tr', hrounds, hrun', hend⟩ := (hexists (by decide)).mp hok
  obtain ⟨hlength, hrows⟩ := hcount rounds s' tr' hrounds hrun'
  exact ⟨r.1, r.2, hr, hpending, rounds, s', tr', hrun', by omega, hrows hend⟩

end ProbeStuffing.System
import Mathlib.Algebra.BigOperators.Group.Finset.Basic
import ProbeStuffing.Controller.Rounds
import ProbeStuffing.System.Collected

/-!
# What is left to do

A connection with a record costs the controller three events: it accepts the
connection, hands the string over, and closes the connection.  An empty connection,
which a command that fails may leave, costs two.  `pending` counts the events that are
left, and this count is exact: with those there have been it makes the costs of all
connections, in every run, and three for each command that has succeeded when the others
leave none (`pending_balance`).
-/

namespace ProbeStuffing.System

open CString Tlv Trace Slots Client Ap Controller

variable {α Db : Type}

/-! ## The events that are left -/

/-- Those of a connection: it is read if there is something in it, and it is closed. -/
def work : Option Bytes → Nat
  | none => 0
  | some [] => 1
  | some (_ :: _) => 2

/-- Those of connections that are not accepted yet, by what is in them. -/
def cost (connections : List Bytes) : Nat := (connections.map fun w => 1 + work (some w)).sum

/-- The events of the controller that are left. -/
def pending (s : Deployment α Db) : Nat :=
  cost s.backlog + ∑ sd ∈ s.server.connections.opened.toFinset, work (s.streams sd)

theorem cost_append (l l' : List Bytes) : cost (l ++ l') = cost l + cost l' := by
  rw [cost, List.map_append, List.sum_append]
  rfl

theorem cost_eq_zero {l : List Bytes} (h : cost l = 0) : l = [] := by
  cases l with
  | nil => rfl
  | cons w l =>
      rw [cost, List.map_cons, List.sum_cons] at h
      omega

/-- A connection is taken out of the backlog. -/
theorem cost_eraseIdx {l : List Bytes} {place : Nat} {w : Bytes} (h : l[place]? = some w) :
    cost l = 1 + work (some w) + cost (l.eraseIdx place) := by
  obtain ⟨hlt, rfl⟩ := List.getElem?_eq_some_iff.mp h
  have hperm := (List.getElem_cons_eraseIdx_perm hlt).symm.map fun w => 1 + work (some w)
  exact hperm.sum_eq.trans List.sum_cons

theorem work_frame (csv : Bytes) : work (some (Controller.frame csv)) = 2 := rfl

/-- One connection changes. -/
theorem sum_work_update {L : Finset Nat} {sd : Nat} (h : sd ∈ L) (streams : Nat → Option Bytes)
    (new : Option Bytes) :
    ∑ x ∈ L, work (Function.update streams sd new x) + work (streams sd) =
      ∑ x ∈ L, work (streams x) + work new := by
  have hothers : ∑ x ∈ L.erase sd, work (Function.update streams sd new x) =
      ∑ x ∈ L.erase sd, work (streams x) :=
    Finset.sum_congr rfl fun x hx => by rw [Function.update_of_ne (Finset.ne_of_mem_erase hx)]
  rw [← Finset.add_sum_erase L _ h, ← Finset.add_sum_erase L (fun x => work (streams x)) h,
    Function.update_self, hothers]
  omega

/-! ## Steps of the controller -/

section Steps

variable {S : Sqlite Db} {serverSockfd : Nat} {s s' : Deployment α Db} {i : ServerInput}
  {place : Nat} {des : List (DeploymentEvent α)}

/-- The parts of a round. -/
theorem serveStep_eq_some_iff : serveStep S serverSockfd s i place = some (s', des) ↔
    ∃ a b streams' r db',
      acceptClient serverSockfd s.server.connections i.activity = some a ∧
      acceptStream serverSockfd s i.activity place = some b ∧
      drain b.2 (readsOf (isSet serverSockfd s.server.connections i.activity) a.1.clientSockfds
        i.activity.incoming) = some streams' ∧
      serveClients (isSet serverSockfd s.server.connections i.activity) a.1.clientSockfds
        a.1.opened i.activity.incoming = some r ∧
      saveStrings S i.clientAddr (strings (a.2 ++ r.2.2)) i.conTs s.server.db = some db' ∧
      s' = { s with backlog := b.1, streams := streams', server := ⟨⟨r.1, r.2.1⟩, db'⟩ } ∧
      des = (a.2 ++ r.2.2).map .server := by
  constructor
  · intro hstep
    obtain ⟨b, hstream, hstep⟩ := Option.bind_eq_some_iff.mp hstep
    obtain ⟨streams', hdrain, hstep⟩ := Option.bind_eq_some_iff.mp hstep
    obtain ⟨q, hserver, heq⟩ := Option.map_eq_some_iff.mp hstep
    obtain ⟨rfl, rfl⟩ := Prod.mk.inj heq
    obtain ⟨q', hround, hsaved⟩ := Option.bind_eq_some_iff.mp hserver
    obtain ⟨db', hsave, rfl⟩ := Option.map_eq_some_iff.mp hsaved
    obtain ⟨a, haccept, hserve⟩ := Option.bind_eq_some_iff.mp hround
    obtain ⟨r, hr, rfl⟩ := Option.map_eq_some_iff.mp hserve
    rw [roundReads, haccept] at hdrain
    exact ⟨a, b, streams', r, db', haccept, hstream, hdrain, hr, hsave, rfl, rfl⟩
  · rintro ⟨a, b, streams', r, db', haccept, hstream, hdrain, hr, hsave, rfl, rfl⟩
    rw [serveStep, hstream, Option.bind_some, roundReads, haccept]
    dsimp only
    rw [hdrain, Option.bind_some, serverStep, serverRound, haccept, Option.bind_some, hr,
      Option.map_some, Option.bind_some, hsave]
    rfl

end Steps

/-! ## Reading -/

section Reading

variable {R : Bytes → Prop}

/-- A connection is open after the reads if it was and none of them has closed it. -/
theorem drain_opened : ∀ {reads : List (Nat × Incoming)} {streams streams' : Nat → Option Bytes},
    drain streams reads = some streams' →
      ∀ sd, streams' sd ≠ none ↔ streams sd ≠ none ∧ (sd, .eof) ∉ reads
  | [], streams, streams', h, sd => by
      obtain rfl := Option.some.inj h
      exact (and_iff_left List.not_mem_nil).symm
  | (sd', .eof) :: reads, streams, streams', h, sd => by
      rw [drain] at h
      split at h
      · rw [drain_opened h sd, List.mem_cons, not_or]
        rcases eq_or_ne sd sd' with rfl | hne
        · rw [Function.update_self]
          exact iff_of_false (fun h => h.1 rfl) fun h => h.2.1 rfl
        · rw [Function.update_of_ne hne]
          have heof : (sd, Incoming.eof) ≠ (sd', .eof) := fun heq => hne (Prod.mk.inj heq).1
          exact and_congr_right fun _ => (and_iff_right heof).symm
      · cases h
  | (sd', .read .error luck) :: reads, streams, streams', h, sd => by
      rw [drain] at h
      cases h
  | (sd', .read (.bytes part) luck) :: reads, streams, streams', h, sd => by
      rw [drain] at h
      split at h
      · cases h
      · next w hw =>
          split at h
          · have heof : (sd, Incoming.eof) ≠ (sd', .read (.bytes part) luck) :=
              fun heq => by cases (Prod.mk.inj heq).2
            rw [drain_opened h sd, List.mem_cons, not_or, and_iff_right heof]
            rcases eq_or_ne sd sd' with rfl | hne
            · rw [Function.update_self, hw]
              exact and_congr_left' (iff_of_true (Option.some_ne_none _) (Option.some_ne_none _))
            · rw [Function.update_of_ne hne]
          · cases h

/-- Each read is one of the events that were left, and one of data hands over a string. -/
theorem drain_work (hR : ∀ csv, R csv → NulFree csv ∧ eot ∉ csv) {L : Finset Nat} :
    ∀ {reads : List (Nat × Incoming)} {streams streams' : Nat → Option Bytes},
      (∀ sd w, streams sd = some w → Unread R w) → (∀ sd, streams sd ≠ none → sd ∈ L) →
        (∀ p ∈ reads, Readable p.2) → drain streams reads = some streams' →
          reads.length + ∑ sd ∈ L, work (streams' sd) = ∑ sd ∈ L, work (streams sd) ∧
            ∀ p ∈ reads, p.2 = .eof ∨ stringOf p ≠ none
  | [], streams, streams', _, _, _, h => by
      obtain rfl := Option.some.inj h
      exact ⟨Nat.zero_add _, List.forall_mem_nil _⟩
  | (sd, .eof) :: reads, streams, streams', hunread, hopen, hdefined, h => by
      rw [drain] at h
      split at h
      · next hempty =>
          have hunread' := @unread_update R streams none hunread (fun w hw => by cases hw) sd
          have hopen' : ∀ x, Function.update streams sd none x ≠ none → x ∈ L := by
            intro x hx
            rcases eq_or_ne x sd with rfl | hne
            · exact absurd (Function.update_self ..) hx
            · exact hopen x (by rwa [Function.update_of_ne hne] at hx)
          obtain ⟨hsum, hhanded⟩ :=
            drain_work hR hunread' hopen' (List.forall_mem_cons.mp hdefined).2 h
          have hsd : sd ∈ L := hopen sd (by rw [hempty]; exact Option.some_ne_none _)
          have hupdate := sum_work_update hsd streams none
          rw [hempty, work, work] at hupdate
          rw [List.length_cons]
          exact ⟨by omega, List.forall_mem_cons.mpr ⟨.inl rfl, hhanded⟩⟩
      · cases h
  | (sd, .read .error luck) :: reads, streams, streams', _, _, _, h => by
      rw [drain] at h
      cases h
  | (sd, .read (.bytes part) luck) :: reads, streams, streams', hunread, hopen, hdefined, h => by
      obtain ⟨hread, hrest⟩ := List.forall_mem_cons.mp hdefined
      rw [drain] at h
      split at h
      · cases h
      · next w hw =>
          split at h
          · next hpart =>
              obtain ⟨hne, -, hprefix⟩ := hpart
              obtain ⟨csv, hcsv, rfl, rfl, hstring⟩ :=
                @read_unread R hR sd part w luck (hunread sd w hw) hne hprefix hread
              rw [List.drop_length] at h
              have hempty : ∀ w, some [] = some w → Unread R w :=
                fun w hw => .inl (Option.some.inj hw).symm
              have hsd : sd ∈ L := hopen sd (by rw [hw]; exact Option.some_ne_none _)
              have hopen' : ∀ x, Function.update streams sd (some []) x ≠ none → x ∈ L := by
                intro x hx
                rcases eq_or_ne x sd with rfl | hne
                · exact hsd
                · exact hopen x (by rwa [Function.update_of_ne hne] at hx)
              obtain ⟨hsum, hhanded⟩ :=
                drain_work hR (unread_update hunread hempty sd) hopen' hrest h
              have hupdate := sum_work_update hsd streams (some [])
              rw [hw, work_frame, work] at hupdate
              rw [List.length_cons]
              refine ⟨by omega, List.forall_mem_cons.mpr ⟨.inr ?_, hhanded⟩⟩
              rw [hstring]
              exact Option.some_ne_none _
          · cases h

end Reading

/-! ## Connections and their table -/

/-- The open connections are those with something to read or to close, and each of
them is in the table or lost. -/
structure Consistent (serverSockfd : Nat) (s : Deployment α Db) : Prop where
  holds : ∃ lost, Holds 0 s.server.connections.clientSockfds s.server.connections.opened lost
  length : s.server.connections.clientSockfds.length = maxClients
  server : serverSockfd ∉ s.server.connections.opened
  streams : ∀ sd, s.streams sd ≠ none ↔ sd ∈ s.server.connections.opened

theorem consistent_start (serverSockfd : Nat) (db₀ : Db) :
    Consistent serverSockfd ({ server := { db := db₀ } } : Deployment α Db) where
  holds := ⟨[], holds_replicate maxClients⟩
  length := List.length_replicate ..
  server := List.not_mem_nil
  streams _ := iff_of_false (fun h => h rfl) List.not_mem_nil

section Round

variable {serverSockfd : Nat} {s : Deployment α Db} {activity : Activity} {place : Nat}

/-- The connection that is accepted is open, with what is in it. -/
theorem Consistent.accept (h : Consistent serverSockfd s)
    {a : Connections × List ServerEvent} {b : List Bytes × (Nat → Option Bytes)}
    (haccept : acceptClient serverSockfd s.server.connections activity = some a)
    (hstream : acceptStream serverSockfd s activity place = some b) :
    let s' := { s with backlog := b.1, streams := b.2, server := ⟨a.1, s.server.db⟩ }
    Consistent serverSockfd s' ∧ a.2.length + pending s' = pending s := by
  obtain ⟨lost, hholds⟩ := h.holds
  obtain ⟨lost', hholds', -⟩ := acceptClient_holds hholds haccept
  unfold acceptStream at hstream
  unfold acceptClient at haccept
  split at hstream
  · next hset =>
      rw [if_pos hset] at haccept
      split at hstream
      · next fd w hfd hw =>
          rw [hfd] at haccept
          dsimp only at haccept
          split at haccept
          · next hunused =>
              obtain rfl := Option.some.inj haccept
              obtain rfl := Option.some.inj hstream
              obtain ⟨-, hserver, hopened⟩ := hunused
              refine ⟨⟨⟨lost', hholds'⟩, ?_, ?_, fun sd => ?_⟩, ?_⟩
              · exact (place_length 0 fd _).trans h.length
              · exact List.not_mem_cons_of_ne_of_not_mem (Ne.symm hserver) h.server
              · dsimp only
                rw [List.mem_cons]
                rcases eq_or_ne sd fd with rfl | hne
                · rw [Function.update_self]
                  exact iff_of_true (Option.some_ne_none w) (.inl rfl)
                · rw [Function.update_of_ne hne, h.streams sd]
                  exact (or_iff_right hne).symm
              · have hnone : s.streams fd = none :=
                  Classical.not_not.mp (mt (h.streams fd).mp hopened)
                have hcost := cost_eraseIdx hw
                have hsum := sum_work_update (Finset.mem_insert_self fd
                  s.server.connections.opened.toFinset) s.streams (some w)
                rw [hnone, Finset.sum_insert (f := fun x => work (s.streams x))
                  (mt List.mem_toFinset.mp hopened), hnone] at hsum
                have hzero : work none = 0 := rfl
                simp only [pending, List.toFinset_cons, List.length_singleton]
                omega
          · cases haccept
      · cases hstream
  · next hset =>
      rw [if_neg hset] at haccept
      obtain rfl := Option.some.inj haccept
      obtain rfl := Option.some.inj hstream
      exact ⟨h, Nat.zero_add _⟩

/-- A pass over the clients. -/
theorem Consistent.serve (h : Consistent serverSockfd s) {R : Bytes → Prop}
    (hR : ∀ csv, R csv → NulFree csv ∧ eot ∉ csv)
    (hunread : ∀ sd w, s.streams sd = some w → Unread R w) {ready : Nat → Bool}
    {incoming : List Incoming} (hreadable : ∀ p ∈ readsOf ready
      s.server.connections.clientSockfds incoming, Readable p.2) {streams' : Nat → Option Bytes}
    {r : List Nat × List Nat × List ServerEvent}
    (hdrain : drain s.streams
      (readsOf ready s.server.connections.clientSockfds incoming) = some streams')
    (hserve : serveClients ready s.server.connections.clientSockfds s.server.connections.opened
      incoming = some r) (db' : Db) :
    let s' := { s with streams := streams', server := ⟨⟨r.1, r.2.1⟩, db'⟩ }
    Consistent serverSockfd s' ∧ r.2.2.length + pending s' = pending s := by
  obtain ⟨lost, hholds⟩ := h.holds
  obtain ⟨closed, hcleared, hdiff⟩ := serveClients_cleared hholds.free_notMem hserve
  have hopened := serveClients_opened hholds.nodup hserve
  refine ⟨⟨⟨lost, hdiff ▸ hholds.clear hcleared⟩, hcleared.length_eq.trans h.length, ?_, ?_⟩, ?_⟩
  · exact fun hm => h.server ((hopened serverSockfd).mp hm).1
  · intro sd
    dsimp only
    rw [drain_opened hdrain sd, hopened sd, h.streams sd]
  · obtain ⟨hsum, hhanded⟩ := drain_work hR (L := s.server.connections.opened.toFinset) hunread
      (fun sd hsd => List.mem_toFinset.mpr ((h.streams sd).mp hsd)) hreadable hdrain
    -- the connections that were closed have nothing left
    have hsubset : ∑ sd ∈ r.2.1.toFinset, work (streams' sd) =
        ∑ sd ∈ s.server.connections.opened.toFinset, work (streams' sd) := by
      refine Finset.sum_subset (fun sd hsd => ?_) fun sd hsd hclosed => ?_
      · exact List.mem_toFinset.mpr ((hopened sd).mp (List.mem_toFinset.mp hsd)).1
      · have hnone : streams' sd = none := by
          refine Classical.not_not.mp fun hsome => hclosed (List.mem_toFinset.mpr ?_)
          obtain ⟨hold, heof⟩ := (drain_opened hdrain sd).mp hsome
          exact (hopened sd).mpr ⟨(h.streams sd).mp hold, heof⟩
        rw [hnone]
        rfl
    rw [serveClients_length hserve hhanded]
    simp only [pending, hsubset]
    omega

end Round

/-! ## The balance -/

section Balance

variable {S : Sqlite Db} {db₀ : Db} {serverSockfd : Nat} {s s' : Deployment α Db}
  {tr des : List (DeploymentEvent α)}

/-- The events of the controller. -/
def serverEvents (tr : List (DeploymentEvent α)) : List ServerEvent :=
  tr.filterMap fun e =>
    match e with
    | .server e => some e
    | _ => none

/-- The connections that the clients of commands have made, by what they wrote. -/
def connections (tr : List (DeploymentEvent α)) : List Bytes :=
  tr.filterMap fun e =>
    match e with
    | .connected written => some written
    | _ => none

/-- The number of commands that have succeeded. -/
def succeeded (es : List (Event α)) : Nat := (commands es).countP fun c => decide (c.2 = 0)

theorem serverEvents_append (tr tr' : List (DeploymentEvent α)) :
    serverEvents (tr ++ tr') = serverEvents tr ++ serverEvents tr' :=
  List.filterMap_append

theorem serverEvents_server (es : List ServerEvent) :
    serverEvents (es.map (DeploymentEvent.server (α := α))) = es := by
  rw [serverEvents, List.filterMap_map]
  exact List.filterMap_some

theorem serverEvents_net (es : List (Event α)) (written : List Bytes) :
    serverEvents (es.map .net ++ written.map .connected) = [] := by
  refine List.filterMap_eq_nil_iff.mpr (List.forall_mem_append.mpr ⟨?_, ?_⟩)
  · exact List.forall_mem_map.mpr fun e _ => rfl
  · exact List.forall_mem_map.mpr fun w _ => rfl

theorem connections_append (tr tr' : List (DeploymentEvent α)) :
    connections (tr ++ tr') = connections tr ++ connections tr' :=
  List.filterMap_append

theorem connections_server (es : List ServerEvent) :
    connections (es.map (DeploymentEvent.server (α := α))) = [] := by
  rw [connections, List.filterMap_map]
  exact List.filterMap_eq_nil_iff.mpr fun e _ => rfl

theorem connections_net (es : List (Event α)) (written : List Bytes) :
    connections (es.map .net ++ written.map .connected) = written := by
  have hnet : connections (es.map DeploymentEvent.net) = [] := by
    rw [connections, List.filterMap_map]
    exact List.filterMap_eq_nil_iff.mpr fun e _ => rfl
  rw [connections_append, hnet, List.nil_append, connections, List.filterMap_map]
  exact List.filterMap_some

theorem succeeded_append (es es' : List (Event α)) :
    succeeded (es ++ es') = succeeded es + succeeded es' := by
  rw [succeeded, commands_append, List.countP_append]
  rfl

theorem serve_consistent {i : ServerInput} {place : Nat} (h : Consistent serverSockfd s)
    (hclean : ∀ incoming ∈ i.activity.incoming, incoming.Clean)
    (htracked : Tracked S db₀ (netEvents tr) s)
    (hstep : serveStep S serverSockfd s i place = some (s', des)) :
    Consistent serverSockfd s' ∧ des.length + pending s' = pending s := by
  obtain ⟨a, b, streams', r, db', haccept, hstream, hdrain, hserve, -, rfl, rfl⟩ :=
    serveStep_eq_some_iff.mp hstep
  obtain ⟨haccepted, hpending⟩ := h.accept haccept hstream
  have htracked' := htracked.accept haccept hstream
  obtain ⟨-, hgoes, -⟩ := serveClients_reads hserve
  obtain ⟨hserved, hpending'⟩ := haccepted.serve (fun csv hcsv => hcsv.plain) htracked'.streams
    (fun p hp => ⟨hgoes p hp, hclean p.2 (List.of_mem_zip hp).2⟩) hdrain hserve db'
  refine ⟨hserved, ?_⟩
  rw [List.length_map, List.length_append, ← hpending, ← hpending', Nat.add_assoc]

variable [DecidableEq α]

theorem net_consistent {i : Input α} {client : ClientRun} (h : Consistent serverSockfd s)
    (hstep : netStep s i client = some (s', des)) :
    Consistent serverSockfd s' ∧ pending s' = pending s + cost (connections des) := by
  obtain ⟨net', es, written, -, -, rfl, rfl⟩ := netStep_eq_some_iff.mp hstep
  refine ⟨⟨h.holds, h.length, h.server, h.streams⟩, ?_⟩
  rw [connections_net]
  simp only [pending, cost_append]
  omega

/-- The costs of all connections have been paid, or are pending. -/
structure Balanced (S : Sqlite Db) (db₀ : Db) (serverSockfd : Nat)
    (tr : List (DeploymentEvent α)) (s : Deployment α Db) : Prop where
  inv : DeploymentInv S db₀ tr s
  balance : (∀ f ∈ s.net.sent, Harmless f.fragment.data) → Consistent serverSockfd s ∧
    (serverEvents tr).length + pending s = cost (connections tr)

theorem balanced_step {i : DeploymentInput α} (h : Balanced S db₀ serverSockfd tr s)
    (hclean : i.Clean) (hstep : (deployment S serverSockfd).step s i = some (s', des)) :
    Balanced S db₀ serverSockfd (tr ++ des) s' := by
  cases i with
  | net i client =>
      refine ⟨inv_net h.inv hclean hstep, fun hall => ?_⟩
      obtain ⟨net', es, written, hes, -, hs', hdes⟩ := netStep_eq_some_iff.mp hstep
      have hsent : ∀ f ∈ s.net.sent, Harmless f.fragment.data := by
        rw [hs'] at hall
        exact fun f hf => hall f ((step_of_network hes).sent_mono hf)
      obtain ⟨hconsistent, hbalance⟩ := h.balance hsent
      obtain ⟨hconsistent', hpending⟩ := net_consistent hconsistent hstep
      have hnone : serverEvents des = [] := by rw [hdes, serverEvents_net]
      refine ⟨hconsistent', ?_⟩
      rw [hpending, serverEvents_append, hnone, connections_append, cost_append, ← hbalance,
        List.append_nil]
      omega
  | serve i place =>
      refine ⟨inv_serve h.inv hclean hstep, fun hall => ?_⟩
      obtain ⟨a, b, streams', r, db', -, -, -, -, -, hs', hdes⟩ := serveStep_eq_some_iff.mp hstep
      have hsent : ∀ f ∈ s.net.sent, Harmless f.fragment.data := by
        rw [hs'] at hall
        exact hall
      obtain ⟨hconsistent, hbalance⟩ := h.balance hsent
      obtain ⟨hconsistent', hpending⟩ :=
        serve_consistent hconsistent hclean (h.inv.tracked hsent) hstep
      refine ⟨hconsistent', ?_⟩
      rw [hdes, List.length_map] at hpending
      rw [hdes, serverEvents_append, serverEvents_server, connections_append, connections_server,
        List.append_nil, List.length_append]
      omega

theorem balanced_run {inputs : List (DeploymentInput α)}
    (hrun : (deployment S serverSockfd).run { server := { db := db₀ } } inputs = some (s, tr))
    (hclean : ∀ i ∈ inputs, i.Clean) : Balanced S db₀ serverSockfd tr s :=
  Machine.run_invariant (P := DeploymentInput.Clean) (I := Balanced S db₀ serverSockfd)
    (fun _ _ _ _ _ h hi hstep => balanced_step h hi hstep)
    ⟨deploymentInv_start S db₀, fun _ => ⟨consistent_start serverSockfd db₀, rfl⟩⟩ hclean hrun

/-! ## Commands that fail -/

/-- If the command of this step fails, it fails before there is a connection. -/
def DeploymentInput.FailsEarly : DeploymentInput α → Prop
  | .net _ client => client.failure = .unconnected
  | .serve _ _ => True

/-- Then it leaves none, and a command that succeeds leaves its record. -/
theorem cost_leaves {client : ClientRun} (h : client.failure = .unconnected) (status : Int)
    (csv : Bytes) : cost (client.leaves status (Controller.frame csv)) =
      3 * [status].countP fun x => decide (x = 0) := by
  rcases eq_or_ne status 0 with rfl | hne
  · rfl
  · rw [ClientRun.leaves, if_neg hne, h, List.countP_singleton, if_neg (by simpa using hne)]
    rfl

theorem net_succeeded {i : Input α} {client : ClientRun} (hnet : Inv (netEvents tr) s.net)
    (hharmless : ∀ f ∈ s.net.sent, Harmless f.fragment.data) (hclean : client.heap.Clean)
    (hfailure : client.failure = .unconnected) (hstep : netStep s i client = some (s', des)) :
    cost (connections des) = 3 * succeeded (netEvents des) := by
  obtain ⟨net', es, written, hes, hwritten, -, rfl⟩ := netStep_eq_some_iff.mp hstep
  have hevents : netEvents (es.map .net ++ written.map .connected) = es :=
    @netEvents_step α [] es written
  rw [connections_net, hevents, succeeded]
  rcases network_commands hnet hes with hquiet | ⟨f, sec, usec, status, hf, hcalls, -⟩
  · rw [hquiet.commands] at hwritten ⊢
    obtain rfl := Option.some.inj hwritten
    rfl
  · rw [hcalls, writtenBy_record hclean (hnet.sent f hf).1 (hharmless f hf)] at hwritten
    rw [hcalls, ← Option.some.inj hwritten, cost_leaves hfailure]
    rfl

theorem succeeded_run {inputs : List (DeploymentInput α)}
    (hrun : (deployment S serverSockfd).run { server := { db := db₀ } } inputs = some (s, tr))
    (hclean : ∀ i ∈ inputs, i.Clean ∧ i.FailsEarly)
    (hharmless : ∀ f ∈ s.net.sent, Harmless f.fragment.data) :
    cost (connections tr) = 3 * succeeded (netEvents tr) := by
  have hinv := Machine.run_invariant (P := fun i : DeploymentInput α => i.Clean ∧ i.FailsEarly)
    (I := fun tr s => DeploymentInv S db₀ tr s ∧ ((∀ f ∈ s.net.sent, Harmless f.fragment.data) →
      cost (connections tr) = 3 * succeeded (netEvents tr)))
    (fun tr s i s' des h hi hstep => ?_) ⟨deploymentInv_start S db₀, fun _ => rfl⟩ hclean hrun
  · exact hinv.2 hharmless
  · refine ⟨inv_deployment h.1 hi.1 hstep, fun hall => ?_⟩
    cases i with
    | net i client =>
        have hsent : ∀ f ∈ s.net.sent, Harmless f.fragment.data := by
          obtain ⟨net', es, written, hes, -, rfl, -⟩ := netStep_eq_some_iff.mp hstep
          exact fun f hf => hall f ((step_of_network hes).sent_mono hf)
        rw [connections_append, cost_append, netEvents_append, succeeded_append, h.2 hsent,
          net_succeeded h.1.net hsent hi.1 hi.2 hstep, Nat.mul_add]
    | serve i place =>
        obtain ⟨a, b, streams', r, db', -, -, -, -, -, rfl, rfl⟩ := serveStep_eq_some_iff.mp hstep
        rw [connections_append, connections_server, netEvents_append, netEvents_server,
          List.append_nil, List.append_nil, h.2 hall]

/-- In every run with harmless fragments and NULs behind the copies, the events of the
controller and those that are pending make the costs of all connections that there have been,
and three for each command that has succeeded if every other one fails before it is
connected. -/
theorem pending_balance {inputs : List (DeploymentInput α)}
    (hrun : (deployment S serverSockfd).run { server := { db := db₀ } } inputs = some (s, tr))
    (hclean : ∀ i ∈ inputs, i.Clean) (hharmless : ∀ f ∈ s.net.sent, Harmless f.fragment.data) :
    (serverEvents tr).length + pending s = cost (connections tr) ∧
      ((∀ i ∈ inputs, i.FailsEarly) →
        (serverEvents tr).length + pending s = 3 * succeeded (netEvents tr)) := by
  have hbalance := ((balanced_run hrun hclean).balance hharmless).2
  refine ⟨hbalance, fun hfails => ?_⟩
  rw [hbalance, succeeded_run hrun (fun i hi => ⟨hclean i hi, hfails i hi⟩) hharmless]

/-- One connection accepted and read, and not closed. -/
theorem pending_balance_oneMessage : ∃ s tr,
    (deployment Sqlite.memory 3).run { server := { db := [] } } oneMessage = some (s, tr) ∧
      (serverEvents tr).length = 2 ∧ pending s = 1 ∧ 2 + pending s = cost (connections tr) := by
  have hrun : ((deployment Sqlite.memory 3).run { server := { db := [] } } oneMessage).map
      (fun r => (r.1.net.sent, (serverEvents r.2).length, pending r.1)) =
        some ([firstFrame], 2, 1) := by
    decide +kernel
  obtain ⟨r, hr, heq⟩ := Option.map_eq_some_iff.mp hrun
  obtain ⟨hsent, hrest⟩ := Prod.mk.inj heq
  obtain ⟨hevents, hpending⟩ := Prod.mk.inj hrest
  have hharmless : ∀ f ∈ r.1.net.sent, Harmless f.fragment.data := by
    rw [hsent, List.forall_mem_singleton]
    exact ⟨by decide, by decide, by decide, by decide⟩
  exact ⟨r.1, r.2, hr, hevents, hpending,
    hevents ▸ (pending_balance hr oneMessage_clean hharmless).1⟩

end Balance

end ProbeStuffing.System

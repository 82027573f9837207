import Mathlib.Data.List.Perm.Basic
import ProbeStuffing.System.Transit

/-!
# Every forwarded frame is stored once

Whatever the order in which clients send, access points receive and the controller
serves, the table has the rows of frames that an access point has processed, one
for each, and the row of every frame whose command has succeeded is there as soon as
its record is not on its way any more (`collected`).  A command that fails may leave an
empty connection, or one with its record.

The invariant follows the record.  A step of an access point that processes a
frame puts its record into the backlog.  Accepting a connection moves the record
into an open one, and closing a connection drops none, since a client that has
gone has left nothing behind.  A read after which the controller goes on is a whole
record, and this record is saved in the same round.  All of this needs a NUL behind each
copy that the client and the controller make.
-/

namespace ProbeStuffing.System

open CString Tlv Trace Client Ap Controller

variable {α Db : Type}

/-! ## The invariant -/

/-- The events of clients and access points. -/
def netEvents (tr : List (DeploymentEvent α)) : List (Event α) :=
  tr.filterMap fun e =>
    match e with
    | .net e => some e
    | _ => none

/-- A frame with harmless data that has been processed. -/
def Processable (es : List (Event α)) (f : Frame) : Prop :=
  f.Ok ∧ Harmless f.fragment.data ∧ StuffedIn es f

/-- A record of the frame is in a connection. -/
def InTransit (s : Deployment α Db) (f : Frame) : Prop :=
  ∃ sec usec, Controller.frame (recordOf f sec usec) ∈ s.backlog ∨
    ∃ sd, s.streams sd = some (Controller.frame (recordOf f sec usec))

/-- Where the records of processed frames are: saved, or in a connection. -/
structure Tracked (S : Sqlite Db) (db₀ : Db) (es : List (Event α)) (s : Deployment α Db) :
    Prop where
  backlog : ∀ w ∈ s.backlog, Unread (IsRecord (Processable es)) w
  streams : ∀ sd w, s.streams sd = some w → Unread (IsRecord (Processable es)) w
  opened : ∀ sd, s.streams sd ≠ none → sd ∈ s.server.connections.opened
  saved : ∃ arrivals, s.server.db = saveAll S db₀ arrivals ∧
    (∀ a ∈ arrivals, Processable es a.frame) ∧
    ∀ f, ForwardedIn es f →
      (∃ a ∈ arrivals, ∃ sec usec, a.record = recordOf f sec usec) ∨ InTransit s f

/-- The invariant of the deployment, of which the last part needs harmless frames. -/
structure DeploymentInv (S : Sqlite Db) (db₀ : Db) (tr : List (DeploymentEvent α))
    (s : Deployment α Db) : Prop where
  net : Inv (netEvents tr) s.net
  sent : ∀ f, StuffedIn (netEvents tr) f → f ∈ s.net.sent
  forwarded : ∀ f, ForwardedIn (netEvents tr) f → StuffedIn (netEvents tr) f
  tracked : (∀ f ∈ s.net.sent, Harmless f.fragment.data) → Tracked S db₀ (netEvents tr) s

theorem netEvents_append (tr tr' : List (DeploymentEvent α)) :
    netEvents (tr ++ tr') = netEvents tr ++ netEvents tr' :=
  List.filterMap_append

theorem netEvents_net (es : List (Event α)) : netEvents (es.map .net) = es := by
  rw [netEvents, List.filterMap_map]
  exact List.filterMap_some

theorem netEvents_connected (written : List Bytes) :
    netEvents (written.map (DeploymentEvent.connected (α := α))) = [] := by
  rw [netEvents, List.filterMap_map]
  exact List.filterMap_eq_nil_iff.mpr fun e _ => rfl

theorem netEvents_server (es : List ServerEvent) :
    netEvents (es.map (DeploymentEvent.server (α := α))) = [] := by
  rw [netEvents, List.filterMap_map]
  exact List.filterMap_eq_nil_iff.mpr fun e _ => rfl

theorem IsRecord.mono {es : List (Event α)} {csv : Bytes} (h : IsRecord (Processable es) csv)
    (es' : List (Event α)) : IsRecord (Processable (es ++ es')) csv := by
  obtain ⟨f, sec, usec, ⟨hok, hdata, hf⟩, hcsv⟩ := h
  exact ⟨f, sec, usec, ⟨hok, hdata, hf.append_left es'⟩, hcsv⟩

/-- A record of harmless data has neither a NUL nor an `EOT`. -/
theorem IsRecord.plain {es : List (Event α)} {csv : Bytes} (h : IsRecord (Processable es) csv) :
    NulFree csv ∧ eot ∉ csv := by
  obtain ⟨f, sec, usec, ⟨hok, hdata, -⟩, rfl⟩ := h
  exact ⟨csv_nulFree hok hdata sec usec, eot_notMem_csv hok hdata sec usec⟩

theorem deploymentInv_start (S : Sqlite Db) (db₀ : Db) :
    DeploymentInv S db₀ ([] : List (DeploymentEvent α)) { server := { db := db₀ } } where
  net := inv_init
  sent f hf := by
    obtain ⟨a, c, x, hmem⟩ := hf
    cases hmem
  forwarded f hf := by
    obtain ⟨a, line, hmem⟩ := hf
    cases hmem
  tracked _ := by
    refine ⟨by simp, by simp, by simp, [], rfl, by simp, fun f hf => ?_⟩
    obtain ⟨a, line, hmem⟩ := hf
    cases hmem

/-! ## Steps of clients and access points -/

section Net

variable {S : Sqlite Db} {db₀ : Db} {es : List (Event α)} {s : Deployment α Db}

theorem Unread.mono {w : Bytes} (h : Unread (IsRecord (Processable es)) w)
    (es' : List (Event α)) : Unread (IsRecord (Processable (es ++ es'))) w := by
  rcases h with hempty | ⟨csv, hcsv, hw⟩
  · exact .inl hempty
  · exact .inr ⟨csv, hcsv.mono es', hw⟩

/-- More frames are processed, and their records written. -/
theorem Tracked.extend (h : Tracked S db₀ es s) {es' : List (Event α)} {written : List Bytes}
    (net' : State α)
    (hwritten : ∀ w ∈ written, Unread (IsRecord (Processable (es ++ es'))) w)
    (hnew : ∀ f, ForwardedIn es' f →
      ∃ sec usec, Controller.frame (recordOf f sec usec) ∈ written) :
    Tracked S db₀ (es ++ es') { s with net := net', backlog := s.backlog ++ written } where
  backlog w hw := by
    rcases List.mem_append.mp hw with hold | hw
    · exact (h.backlog w hold).mono es'
    · exact hwritten w hw
  streams sd w hw := (h.streams sd w hw).mono es'
  opened := h.opened
  saved := by
    obtain ⟨arrivals, hdb, hframes, hall⟩ := h.saved
    refine ⟨arrivals, hdb, fun a ha => ?_, fun f hf => ?_⟩
    · obtain ⟨hok, hdata, hstuffed⟩ := hframes a ha
      exact ⟨hok, hdata, hstuffed.append_left es'⟩
    · rcases forwardedIn_append.mp hf with hold | hf
      · rcases hall f hold with hsaved | ⟨sec, usec, hw⟩
        · exact .inl hsaved
        · exact .inr ⟨sec, usec, hw.imp_left (List.mem_append_left written)⟩
      · obtain ⟨sec, usec, hw⟩ := hnew f hf
        exact .inr ⟨sec, usec, .inl (List.mem_append_right s.backlog hw)⟩

theorem writtenBy_toController {client : ClientRun} {line written : Bytes}
    (h : runCommand client.heap line = some (some (toController written))) (status : Int) :
    writtenBy client [(line, status)] = some (client.leaves status written) := by
  simp [writtenBy, h, toController]

/-- The command of a record writes it to the controller, if it succeeds. -/
theorem writtenBy_record {client : ClientRun} (hclean : client.heap.Clean) {f : Frame} (h : f.Ok)
    (hdata : Harmless f.fragment.data) (sec usec : Nat) (status : Int) :
    writtenBy client [(command (recordOf f sec usec), status)] =
      some (client.leaves status (Controller.frame (recordOf f sec usec))) :=
  writtenBy_toController (runCommand_record h hdata hclean sec usec) status

/-- A command leaves a connection with its record, an empty one, or none. -/
theorem mem_leaves {client : ClientRun} {status : Int} {written w : Bytes}
    (h : w ∈ client.leaves status written) : w = [] ∨ w = written := by
  unfold ClientRun.leaves at h
  split at h
  · exact .inr (List.mem_singleton.mp h)
  · split at h
    · cases h
    · exact .inl (List.mem_singleton.mp h)
    · exact .inr (List.mem_singleton.mp h)

variable {tr des : List (DeploymentEvent α)} {s' : Deployment α Db}

theorem netEvents_step (es : List (Event α)) (written : List Bytes) :
    netEvents (tr ++ (es.map .net ++ written.map .connected)) = netEvents tr ++ es := by
  rw [netEvents_append, netEvents_append, netEvents_net, netEvents_connected, List.append_nil]

variable [DecidableEq α]

/-- The parts of a step of the network. -/
theorem netStep_eq_some_iff {i : Input α} {client : ClientRun} :
    netStep s i client = some (s', des) ↔ ∃ net' es written,
      network.step s.net i = some (net', es) ∧ writtenBy client (commands es) = some written ∧
      s' = { s with net := net', backlog := s.backlog ++ written } ∧
      des = es.map .net ++ written.map .connected := by
  constructor
  · intro hstep
    obtain ⟨⟨net', es⟩, hnet, hw⟩ := Option.bind_eq_some_iff.mp hstep
    obtain ⟨written, hwritten, heq⟩ := Option.map_eq_some_iff.mp hw
    obtain ⟨rfl, rfl⟩ := Prod.mk.inj heq
    exact ⟨net', es, written, hnet, hwritten, rfl, rfl⟩
  · rintro ⟨net', es, written, hnet, hwritten, rfl, rfl⟩
    rw [netStep, hnet, Option.bind_some, hwritten]
    rfl

theorem inv_net {i : Input α} {client : ClientRun} (h : DeploymentInv S db₀ tr s)
    (hclean : client.heap.Clean) (hstep : netStep s i client = some (s', des)) :
    DeploymentInv S db₀ (tr ++ des) s' := by
  obtain ⟨net', es, written, hnet, hwritten, rfl, rfl⟩ := netStep_eq_some_iff.mp hstep
  have hmono {f : Frame} (hf : f ∈ s.net.sent) : f ∈ net'.sent :=
    (step_of_network hnet).sent_mono hf
  rcases network_commands h.net hnet with
    hquiet | ⟨f, sec, usec, status, hf, hcalls, hstuffed, hforwarded⟩
  · rw [hquiet.commands] at hwritten
    obtain rfl := Option.some.inj hwritten
    refine ⟨?_, fun f hf => ?_, fun f hf => ?_, fun hall => ?_⟩
    · rw [netEvents_step]
      exact inv_step h.net hnet
    · rw [netEvents_step] at hf
      exact hmono (h.sent f ((stuffedIn_append.mp hf).resolve_right (hquiet.stuffed f)))
    · rw [netEvents_step] at hf ⊢
      exact (h.forwarded f ((forwardedIn_append.mp hf).resolve_right
        (hquiet.forwarded f))).append_left es
    · rw [netEvents_step]
      have htracked := h.tracked fun f hf => hall f (hmono hf)
      exact htracked.extend net' (List.forall_mem_nil _) fun f hf =>
        absurd hf (hquiet.forwarded f)
  · refine ⟨?_, fun g hg => ?_, fun g hg => ?_, fun hall => ?_⟩
    · rw [netEvents_step]
      exact inv_step h.net hnet
    · rw [netEvents_step] at hg
      rcases stuffedIn_append.mp hg with hold | hg
      · exact hmono (h.sent g hold)
      · rw [(hstuffed g).mp hg]
        exact hmono hf
    · rw [netEvents_step] at hg ⊢
      rcases forwardedIn_append.mp hg with hold | hg
      · exact (h.forwarded g hold).append_left es
      · exact stuffedIn_append.mpr (.inr ((hstuffed g).mpr ((hforwarded g).mp hg).1))
    · rw [netEvents_step]
      have htracked := h.tracked fun g hg => hall g (hmono hg)
      have hok := (h.net.sent f hf).1
      have hdata := hall f (hmono hf)
      rw [hcalls, writtenBy_record hclean hok hdata] at hwritten
      obtain rfl := Option.some.inj hwritten
      refine htracked.extend net' (fun w hw => ?_) fun g hg => ?_
      · rcases mem_leaves hw with hempty | rfl
        · exact .inl hempty
        · have hnew : StuffedIn (netEvents tr ++ es) f :=
            stuffedIn_append.mpr (.inr ((hstuffed f).mpr rfl))
          exact .inr ⟨_, ⟨f, sec, usec, ⟨hok, hdata, hnew⟩, rfl⟩, rfl⟩
      · obtain ⟨rfl, rfl⟩ := (hforwarded g).mp hg
        exact ⟨sec, usec, List.mem_singleton_self _⟩

end Net

/-! ## Rounds of the controller -/

section Serve

variable {S : Sqlite Db} {db₀ : Db} {es : List (Event α)} {s : Deployment α Db}

/-- What stands in a connection in the frame of a command is a record. -/
theorem Tracked.isRecord_of_stream (h : Tracked S db₀ es s) {sd : Nat} {csv : Bytes}
    (hstream : s.streams sd = some (Controller.frame csv)) : IsRecord (Processable es) csv := by
  rcases h.streams sd _ hstream with hempty | ⟨csv', hcsv', heq⟩
  · cases hempty
  · rwa [frame_inj heq]

theorem mem_or_eq_of_getElem? {l : List Bytes} {place : Nat} {x y : Bytes}
    (hx : l[place]? = some x) (hy : y ∈ l) : y ∈ l.eraseIdx place ∨ y = x := by
  obtain ⟨hlt, rfl⟩ := List.getElem?_eq_some_iff.mp hx
  rcases List.mem_cons.mp ((List.getElem_cons_eraseIdx_perm hlt).mem_iff.mpr hy) with heq | hmem
  · exact .inr heq
  · exact .inl hmem

/-- A connection moves from the backlog to the open ones, under a new descriptor. -/
theorem Tracked.move (h : Tracked S db₀ es s) {place fd : Nat} {w : Bytes}
    (hw : s.backlog[place]? = some w) (hfd : fd ∉ s.server.connections.opened)
    {connections' : Connections}
    (hopened : connections'.opened = fd :: s.server.connections.opened) :
    Tracked S db₀ es
      { s with
        backlog := s.backlog.eraseIdx place
        streams := Function.update s.streams fd (some w)
        server := ⟨connections', s.server.db⟩ } where
  backlog w' hw' := h.backlog w' (List.mem_of_mem_eraseIdx hw')
  streams := by
    refine @unread_update _ s.streams _ h.streams (fun w' hw' => ?_) fd
    obtain rfl := Option.some.inj hw'
    exact h.backlog w (List.mem_of_getElem? hw)
  opened sd hsd := by
    dsimp only at hsd ⊢
    rw [hopened]
    rcases eq_or_ne sd fd with rfl | hne
    · exact List.mem_cons_self
    · rw [Function.update_of_ne hne] at hsd
      exact List.mem_cons_of_mem fd (h.opened sd hsd)
  saved := by
    obtain ⟨arrivals, hdb, hframes, hall⟩ := h.saved
    refine ⟨arrivals, hdb, hframes, fun f hf => ?_⟩
    rcases hall f hf with hsaved | ⟨sec, usec, hmem | ⟨sd, hsd⟩⟩
    · exact .inl hsaved
    · rcases mem_or_eq_of_getElem? hw hmem with hmem | rfl
      · exact .inr ⟨sec, usec, .inl hmem⟩
      · exact .inr ⟨sec, usec, .inr ⟨fd, Function.update_self ..⟩⟩
    · refine .inr ⟨sec, usec, .inr ⟨sd, ?_⟩⟩
      -- the descriptor is new, so nothing is overwritten
      have hne : sd ≠ fd := by
        rintro rfl
        exact hfd (h.opened sd (by rw [hsd]; exact Option.some_ne_none _))
      dsimp only
      rwa [Function.update_of_ne hne]

theorem Tracked.accept (h : Tracked S db₀ es s) {serverSockfd : Nat} {activity : Activity}
    {place : Nat} {a : Connections × List ServerEvent} {b : List Bytes × (Nat → Option Bytes)}
    (haccept : acceptClient serverSockfd s.server.connections activity = some a)
    (hstream : acceptStream serverSockfd s activity place = some b) :
    Tracked S db₀ es
      { s with backlog := b.1, streams := b.2, server := ⟨a.1, s.server.db⟩ } := by
  unfold acceptStream at hstream
  unfold acceptClient at haccept
  split at hstream
  · next hset =>
      rw [if_pos hset] at haccept
      split at hstream
      · next fd w hfd hw =>
          rw [hfd] at haccept
          dsimp only at haccept
          split at haccept
          · next hunused =>
              obtain rfl := Option.some.inj haccept
              obtain rfl := Option.some.inj hstream
              exact h.move hw hunused.2.2 rfl
          · cases haccept
      · cases hstream
  · next hset =>
      rw [if_neg hset] at haccept
      obtain rfl := Option.some.inj haccept
      obtain rfl := Option.some.inj hstream
      exact h

/-- What is read is saved. -/
theorem Tracked.serve (h : Tracked S db₀ es s) {streams' : Nat → Option Bytes}
    {reads : List (Nat × Incoming)} {connections' : Connections} {clientAddr : Nat → InAddr}
    {clocks : List UInt64} {db' : Db}
    (hdrained : Drained (IsRecord (Processable es)) s.streams streams' reads)
    (hopened : ∀ sd ∈ s.server.connections.opened, (sd, .eof) ∉ reads → sd ∈ connections'.opened)
    (hsave : saveStrings S clientAddr (reads.filterMap stringOf) clocks s.server.db = some db') :
    Tracked S db₀ es { s with streams := streams', server := ⟨connections', db'⟩ } where
  backlog := h.backlog
  streams := hdrained.unread
  opened sd hsd := by
    obtain ⟨hsome, heof⟩ := hdrained.opened sd hsd
    exact hopened sd (h.opened sd hsome) heof
  saved := by
    obtain ⟨arrivals, hdb, hframes, hall⟩ := h.saved
    obtain ⟨arrivals', hdb', hframes', hall'⟩ := arrivals_of_saveStrings hdrained.handed hsave
    refine ⟨arrivals ++ arrivals', ?_, List.forall_mem_append.mpr ⟨hframes, hframes'⟩,
      fun f hf => ?_⟩
    · rw [saveAll_append, ← hdb]
      exact hdb'
    · rcases hall f hf with ⟨a, ha, hrecord⟩ | ⟨sec, usec, hw | ⟨sd, hw⟩⟩
      · exact .inl ⟨a, List.mem_append_left arrivals' ha, hrecord⟩
      · exact .inr ⟨sec, usec, .inl hw⟩
      · rcases hdrained.kept sd _ (h.isRecord_of_stream hw) hw with hkept | hmem
        · exact .inr ⟨sec, usec, .inr ⟨sd, hkept⟩⟩
        · obtain ⟨a, ha, hrecord⟩ := hall' _ hmem
          dsimp only at hrecord
          exact .inl ⟨a, List.mem_append_right arrivals ha, sec, usec, hrecord⟩

variable {tr des : List (DeploymentEvent α)} {s' : Deployment α Db}

/-- The reads of a round are among what comes in. -/
theorem mem_incoming {serverSockfd : Nat} {st : Connections} {activity : Activity}
    {p : Nat × Incoming} (hp : p ∈ roundReads serverSockfd st activity) :
    p.2 ∈ activity.incoming := by
  unfold roundReads at hp
  split at hp
  · cases hp
  · exact (List.of_mem_zip hp).2

theorem inv_serve {serverSockfd : Nat} {i : ServerInput} {place : Nat}
    (h : DeploymentInv S db₀ tr s) (hclean : ∀ incoming ∈ i.activity.incoming, incoming.Clean)
    (hstep : serveStep S serverSockfd s i place = some (s', des)) :
    DeploymentInv S db₀ (tr ++ des) s' := by
  obtain ⟨b, hstream, hstep⟩ := Option.bind_eq_some_iff.mp hstep
  obtain ⟨streams', hdrain, hstep⟩ := Option.bind_eq_some_iff.mp hstep
  obtain ⟨r, hserver, heq⟩ := Option.map_eq_some_iff.mp hstep
  obtain ⟨rfl, rfl⟩ := Prod.mk.inj heq
  obtain ⟨⟨connections', es⟩, hround, hsaved⟩ := Option.bind_eq_some_iff.mp hserver
  obtain ⟨db', hsave, rfl⟩ := Option.map_eq_some_iff.mp hsaved
  obtain ⟨hstrings, hdefined, a, haccept, hopened⟩ := serverRound_reads hround
  have hevents : netEvents (tr ++ es.map .server) = netEvents tr := by
    rw [netEvents_append, netEvents_server, List.append_nil]
  have hreadable : ∀ p ∈ roundReads serverSockfd s.server.connections i.activity, Readable p.2 :=
    fun p hp => ⟨hdefined p hp, hclean p.2 (mem_incoming hp)⟩
  refine ⟨?_, ?_, ?_, fun hall => ?_⟩
  · rw [hevents]
    exact h.net
  · rw [hevents]
    exact h.sent
  · rw [hevents]
    exact h.forwarded
  · rw [hevents]
    have haccepted := (h.tracked hall).accept haccept hstream
    have hdrained :=
      drained_of_drain (fun csv hcsv => hcsv.plain) haccepted.streams hreadable hdrain
    rw [hstrings] at hsave
    exact haccepted.serve hdrained hopened hsave

end Serve

/-! ## Columns of records -/

/-- Two frames with one record have the same columns. -/
theorem columnsOf_eq_of_record {a b : Arrival} (ha : WellBehaved [a]) (hb : WellBehaved [b])
    (h : a.record = b.record) : columnsOf a.id = columnsOf b.id := by
  have htokens := ha.tokens List.mem_cons_self
  rw [h, hb.tokens List.mem_cons_self] at htokens
  have hfields : b.fields = a.fields := Fields.toList_injective htokens
  let b' : Arrival := { b with conTs := a.conTs }
  have haok : a.frame.Ok := ha.ok a List.mem_cons_self
  have hbok : b'.frame.Ok := hb.ok b List.mem_cons_self
  have hrow : a.row = b'.row := by
    have hliterals : b'.fields.literals b'.conTs = a.fields.literals a.conTs :=
      congrArg (Fields.literals · a.conTs) hfields
    have hrow' := Arrival.ofLiterals hbok
    rw [hliterals, Arrival.ofLiterals haok] at hrow'
    exact Option.some.inj hrow'
  calc columnsOf a.id = a.row.clientColumns := (Arrival.clientColumns_row haok).symm
    _ = b'.row.clientColumns := by rw [hrow]
    _ = columnsOf b.id := Arrival.clientColumns_row hbok

/-- The columns of different frames of one table differ. -/
theorem nodup_columns {arrivals : List Arrival} (h : WellBehaved arrivals) :
    ((arrivals.map Arrival.id).dedup.map columnsOf).Nodup := by
  refine List.Nodup.map_on (fun i hi j hj hij => ?_) (List.nodup_dedup _)
  obtain ⟨a, ha, rfl⟩ := List.mem_map.mp (List.mem_dedup.mp hi)
  obtain ⟨b, hb, rfl⟩ := List.mem_map.mp (List.mem_dedup.mp hj)
  exact h.id_eq_of_key ha hb (key_eq_of_columnsOf h ha hb hij)

/-! ## Runs -/

section Runs

variable {S : Sqlite Db} {db₀ : Db} {tr : List (DeploymentEvent α)} {s : Deployment α Db}

/-- The records of a run are those of well-behaved clients. -/
theorem DeploymentInv.wellBehaved (h : DeploymentInv S db₀ tr s)
    (hts : DistinctTimestamps (netEvents tr)) {arrivals : List Arrival}
    (harrivals : ∀ a ∈ arrivals, Processable (netEvents tr) a.frame) : WellBehaved arrivals where
  ok a ha := (harrivals a ha).1
  clean a ha := (harrivals a ha).2.1.clean
  short a ha := csvHead_length_add (harrivals a ha).1 (harrivals a ha).2.1 a.apSec a.apUsec
  timestamps a ha b hb hclient hsame := by
    have hstart {a : Arrival} (ha : a ∈ arrivals) :
        (a.frame.client, a.frame.message) ∈ started (netEvents tr) :=
      mem_started (h.net.sent a.frame (h.sent a.frame (harrivals a ha).2.2)).2
    exact hts _ (hstart ha) _ (hstart hb) hclient hsame

variable [DecidableEq α]

theorem inv_deployment {serverSockfd : Nat} {s' : Deployment α Db}
    {des : List (DeploymentEvent α)} {i : DeploymentInput α} (h : DeploymentInv S db₀ tr s)
    (hclean : i.Clean) (hstep : (deployment S serverSockfd).step s i = some (s', des)) :
    DeploymentInv S db₀ (tr ++ des) s' := by
  cases i with
  | net i client => exact inv_net h hclean hstep
  | serve i place => exact inv_serve h hclean hstep

theorem deploymentInv_run {serverSockfd : Nat} {inputs : List (DeploymentInput α)}
    (hrun : (deployment S serverSockfd).run { server := { db := db₀ } } inputs = some (s, tr))
    (hclean : ∀ i ∈ inputs, i.Clean) : DeploymentInv S db₀ tr s :=
  Machine.run_invariant (P := DeploymentInput.Clean) (I := DeploymentInv S db₀)
    (fun _ _ _ _ _ h hi hstep => inv_deployment h hi hstep) (deploymentInv_start S db₀) hclean hrun

/-- What a run has saved are the records of well-behaved clients, for frames that
have been processed, and each of these is among them or on its way. -/
theorem arrivals_of_run {serverSockfd : Nat} {inputs : List (DeploymentInput α)}
    (hrun : (deployment S serverSockfd).run { server := { db := db₀ } } inputs = some (s, tr))
    (hclean : ∀ i ∈ inputs, i.Clean) (hharmless : ∀ f ∈ s.net.sent, Harmless f.fragment.data)
    (hts : DistinctTimestamps (netEvents tr)) :
    ∃ arrivals, WellBehaved arrivals ∧ s.server.db = saveAll S db₀ arrivals ∧
      (∀ a ∈ arrivals, Processable (netEvents tr) a.frame) ∧
      ∀ f, ForwardedIn (netEvents tr) f →
        (∃ a ∈ arrivals, columnsOf a.id = columnsOf f.id) ∨ InTransit s f := by
  have hinv := deploymentInv_run hrun hclean
  obtain ⟨arrivals, hdb, hframes, hall⟩ := (hinv.tracked hharmless).saved
  refine ⟨arrivals, hinv.wellBehaved hts hframes, hdb, hframes, fun f hf => ?_⟩
  rcases hall f hf with ⟨a, ha, sec, usec, hrecord⟩ | htransit
  · left
    have hstuffed := hinv.forwarded f hf
    have hsent := hinv.sent f hstuffed
    obtain ⟨b, rfl, hb, -, -⟩ := exists_arrival f sec usec a.clientAddr a.conTs
    have hbwell : WellBehaved [b] := hinv.wellBehaved hts
      (List.forall_mem_singleton.mpr ⟨(hinv.net.sent b.frame hsent).1, hharmless _ hsent, hstuffed⟩)
    have hawell : WellBehaved [a] :=
      hinv.wellBehaved hts (List.forall_mem_singleton.mpr (hframes a ha))
    have heq : columnsOf a.id = columnsOf b.id :=
      columnsOf_eq_of_record hawell hbwell (hrecord.trans hb.symm)
    exact ⟨a, ha, heq⟩
  · exact .inr htransit

/-- In every run of the deployment from an empty table in which the fragments that
are sent are harmless, the copies that are made have NULs behind them, and no client uses
a timestamp twice: the rows of the table are those of frames an access point has processed,
no two rows are of one frame, and a frame of which a command has succeeded has its row
unless its record is in a connection. -/
theorem collected (hempty : S.aplog db₀ = []) {serverSockfd : Nat}
    {inputs : List (DeploymentInput α)}
    (hrun : (deployment S serverSockfd).run { server := { db := db₀ } } inputs = some (s, tr))
    (hclean : ∀ i ∈ inputs, i.Clean) (hharmless : ∀ f ∈ s.net.sent, Harmless f.fragment.data)
    (hts : DistinctTimestamps (netEvents tr)) :
    let rows := (S.aplog s.server.db).map Row.clientColumns
    rows.Nodup ∧ (∀ r ∈ rows, ∃ f, StuffedIn (netEvents tr) f ∧ r = columnsOf f.id) ∧
      ∀ f, ForwardedIn (netEvents tr) f → columnsOf f.id ∈ rows ∨ InTransit s f := by
  obtain ⟨arrivals, hwell, hdb, hframes, hall⟩ := arrivals_of_run hrun hclean hharmless hts
  have hperm := perm_columns S hempty hwell
  rw [hdb]
  refine ⟨hperm.nodup_iff.mpr (nodup_columns hwell), fun r hr => ?_, fun f hf => ?_⟩
  · obtain ⟨i, hi, rfl⟩ := List.mem_map.mp (hperm.mem_iff.mp hr)
    obtain ⟨a, ha, rfl⟩ := List.mem_map.mp (List.mem_dedup.mp hi)
    exact ⟨a.frame, (hframes a ha).2.2, rfl⟩
  · refine (hall f hf).imp_left ?_
    rintro ⟨a, ha, heq⟩
    rw [← heq]
    exact hperm.mem_iff.mpr (List.mem_map_of_mem (List.mem_dedup.mpr (List.mem_map_of_mem ha)))

end Runs

/-- A message of one byte on its way: sent, received, accepted, and read. -/
def oneMessage : List (DeploymentInput Unit) :=
  [.net (.start station7 firstMessage) {}, .net (.scan station7 broadcastAround) {},
    .net (.receive () {} firstFrame) {},
    .serve ⟨⟨[3], some 4, []⟩, fun _ => ⟨10, 0, 0, 1⟩, []⟩ 0,
    .serve ⟨⟨[4], none, [.read (.bytes (Controller.frame (recordOf firstFrame 0 0))) unlucky]⟩,
      fun _ => ⟨10, 0, 0, 1⟩, [1000004]⟩ 0]

theorem oneMessage_clean : ∀ i ∈ oneMessage, i.Clean := by
  have hclient : ({} : ClientHeap).Clean := ⟨rfl, rfl⟩
  have hheap : unlucky.heap.Clean := ⟨rfl, rfl⟩
  simp only [oneMessage, List.forall_mem_cons, DeploymentInput.Clean, Incoming.Clean]
  exact ⟨hclient, hclient, hclient, List.forall_mem_nil _, ⟨hheap, List.forall_mem_nil _⟩,
    List.forall_mem_nil _⟩

theorem collected_oneMessage : ∃ s tr,
    (deployment Sqlite.memory 3).run { server := { db := [] } } oneMessage = some (s, tr) ∧
      (s.server.db.map Row.clientColumns).Nodup ∧
      columnsOf firstFrame.id ∈ s.server.db.map Row.clientColumns := by
  have hrun : ((deployment Sqlite.memory 3).run { server := { db := [] } } oneMessage).map
      (fun r => (r.1.net.sent, started (netEvents r.2), r.1.server.db.map Row.clientColumns)) =
        some ([firstFrame], [(station7, firstMessage)], [columnsOf firstFrame.id]) := by
    decide +kernel
  obtain ⟨r, hr, heq⟩ := Option.map_eq_some_iff.mp hrun
  obtain ⟨hsent, hrest⟩ := Prod.mk.inj heq
  obtain ⟨hstarted, hrows⟩ := Prod.mk.inj hrest
  have hharmless : ∀ f ∈ r.1.net.sent, Harmless f.fragment.data := by
    rw [hsent, List.forall_mem_singleton]
    exact ⟨by decide, by decide, by decide, by decide⟩
  have hts : DistinctTimestamps (netEvents r.2) := by
    rw [DistinctTimestamps, hstarted]
    simp
  refine ⟨r.1, r.2, hr, (collected rfl hr oneMessage_clean hharmless hts).1, ?_⟩
  rw [hrows]
  exact List.mem_cons_self

end ProbeStuffing.System

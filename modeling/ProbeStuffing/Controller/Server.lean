import ProbeStuffing.Controller.Connections
import ProbeStuffing.Controller.Storage
import ProbeStuffing.Controller.Stream

/-!
# The server and its database

`run_server` reads from whichever clients are ready, in the order of its table,
and everything it takes from them goes into one database.  `roundReads` are the
reads of a round with the client each of them is from.

What is handed over is decided by the reads alone, one by one
(`serverRound_reads`).  So the clients do not disturb each other: the strings of
a descriptor are what `serve` makes of the reads from this descriptor, whatever
comes between them (`strings_of_client`).
-/

namespace ProbeStuffing.Controller

open CString Trace

/-! ## Reads and strings -/

/-- The reads of a pass over the clients, with the client each of them is from. -/
def readsOf (ready : Nat → Bool) (sds : List Nat) (incoming : List Incoming) :
    List (Nat × Incoming) :=
  (sds.filter ready).zip incoming

/-- The reads of a round. -/
def roundReads (serverSockfd : Nat) (st : Connections) (activity : Activity) :
    List (Nat × Incoming) :=
  match acceptClient serverSockfd st activity with
  | none => []
  | some a => readsOf (isSet serverSockfd st activity) a.1.clientSockfds activity.incoming

/-- The reads of a run. -/
def runReads (serverSockfd : Nat) : Connections → List Activity → List (Nat × Incoming)
  | _, [] => []
  | st, activity :: activities =>
      roundReads serverSockfd st activity ++
        match serverRound serverSockfd st activity with
        | none => []
        | some r => runReads serverSockfd r.1 activities

/-- What a read hands over, with its client. -/
def stringOf : Nat × Incoming → Option (Nat × Bytes)
  | (_, .eof) => none
  | (sd, .read result luck) => (takeOver luck result.buffer).join.map (sd, ·)

/-- The strings that are handed over among events. -/
def strings (es : List ServerEvent) : List (Nat × Bytes) :=
  es.filterMap fun e =>
    match e with
    | .handed sd data => some (sd, data)
    | _ => none

/-- After the read the program goes on, as far as C says so. -/
def GoesOn : Incoming → Prop
  | .eof => True
  | .read result luck => takeOver luck result.buffer ≠ none

/-! ## One round -/

theorem strings_append (es es' : List ServerEvent) :
    strings (es ++ es') = strings es ++ strings es' :=
  List.filterMap_append

theorem strings_handed (sd : Nat) (data : Option Bytes) :
    strings (data.toList.map (.handed sd)) = (data.map (sd, ·)).toList := by
  cases data with
  | none => rfl
  | some data => rfl

theorem readsOf_cons {ready : Nat → Bool} {sd : Nat} (h : ready sd = true) (sds : List Nat)
    (i : Incoming) (incoming : List Incoming) :
    readsOf ready (sd :: sds) (i :: incoming) = (sd, i) :: readsOf ready sds incoming := by
  rw [readsOf, List.filter_cons_of_pos h, List.zip_cons_cons]
  rfl

theorem readsOf_skip {ready : Nat → Bool} {sd : Nat} (h : ready sd = false) (sds : List Nat)
    (incoming : List Incoming) :
    readsOf ready (sd :: sds) incoming = readsOf ready sds incoming := by
  rw [readsOf, List.filter_cons_of_neg (by simp [h])]
  rfl

/-- The pass hands over what its reads are decoded to, and closes the connections
whose clients have gone. -/
theorem serveClients_reads {ready : Nat → Bool} :
    ∀ {sds opened : List Nat} {incoming : List Incoming}
      {r : List Nat × List Nat × List ServerEvent},
      serveClients ready sds opened incoming = some r →
        strings r.2.2 = (readsOf ready sds incoming).filterMap stringOf ∧
          (∀ p ∈ readsOf ready sds incoming, GoesOn p.2) ∧
          ∀ sd ∈ opened, (sd, .eof) ∉ readsOf ready sds incoming → sd ∈ r.2.1
  | [], opened, incoming, r, h => by
      obtain rfl := Option.some.inj h
      have hnil : readsOf ready [] incoming = [] := rfl
      rw [hnil]
      exact ⟨rfl, List.forall_mem_nil _, fun sd hsd _ => hsd⟩
  | sd :: sds, opened, incoming, r, h => by
      unfold serveClients at h
      split at h
      · next hready =>
          cases incoming with
          | nil => cases h
          | cons i incoming =>
              rw [readsOf_cons hready]
              cases i with
              | eof =>
                  obtain ⟨r', hr', rfl⟩ := Option.map_eq_some_iff.mp h
                  obtain ⟨hstrings, hdefined, hopened⟩ := serveClients_reads hr'
                  refine ⟨hstrings, List.forall_mem_cons.mpr ⟨trivial, hdefined⟩, ?_⟩
                  intro sd' hsd' heof
                  obtain ⟨hne, hrest⟩ := not_or.mp (mt List.mem_cons.mpr heof)
                  have hne' : sd' ≠ sd := fun heq => hne (by rw [heq])
                  exact hopened sd' ((List.mem_erase_of_ne hne').mpr hsd') hrest
              | read result luck =>
                  cases hd : takeOver luck result.buffer with
                  | none => simp [hd] at h
                  | some data =>
                      simp only [hd] at h
                      obtain ⟨r', hr', rfl⟩ := Option.map_eq_some_iff.mp h
                      obtain ⟨hstrings, hdefined, hopened⟩ := serveClients_reads hr'
                      have hread : GoesOn (.read result luck) := by
                        rw [GoesOn, hd]
                        exact Option.some_ne_none data
                      refine ⟨?_, List.forall_mem_cons.mpr ⟨hread, hdefined⟩, ?_⟩
                      · have hfirst : stringOf (sd, .read result luck) = data.map (sd, ·) := by
                          rw [stringOf, hd]
                          rfl
                        rw [strings_append, strings_handed, hstrings, List.filterMap_cons, hfirst]
                        cases data with
                        | none => rfl
                        | some data => rfl
                      · intro sd' hsd' heof
                        exact hopened sd' hsd' fun hm => heof (List.mem_cons_of_mem _ hm)
      · next hready =>
          obtain ⟨r', hr', rfl⟩ := Option.map_eq_some_iff.mp h
          rw [readsOf_skip (Bool.not_eq_true _ ▸ hready)]
          have hrest := serveClients_reads hr'
          exact hrest

section Round

variable {serverSockfd : Nat} {st st' : Connections} {activity : Activity} {es : List ServerEvent}

/-- Accepting hands nothing over. -/
theorem acceptClient_strings {a : Connections × List ServerEvent}
    (h : acceptClient serverSockfd st activity = some a) : strings a.2 = [] := by
  unfold acceptClient at h
  split at h
  · split at h
    · cases h
    · split at h
      · obtain rfl := Option.some.inj h
        rfl
      · cases h
  · obtain rfl := Option.some.inj h
    rfl

/-- A round accepts, hands over what its reads are decoded to, and closes the
connections of the clients that have gone. -/
theorem serverRound_reads (h : serverRound serverSockfd st activity = some (st', es)) :
    strings es = (roundReads serverSockfd st activity).filterMap stringOf ∧
      (∀ p ∈ roundReads serverSockfd st activity, GoesOn p.2) ∧
      ∃ a, acceptClient serverSockfd st activity = some a ∧
        ∀ sd ∈ a.1.opened, (sd, .eof) ∉ roundReads serverSockfd st activity → sd ∈ st'.opened := by
  obtain ⟨a, ha, hserve⟩ := Option.bind_eq_some_iff.mp h
  obtain ⟨r, hr, heq⟩ := Option.map_eq_some_iff.mp hserve
  obtain ⟨rfl, rfl⟩ := Prod.mk.inj heq
  obtain ⟨hstrings, hdefined, hopened⟩ := serveClients_reads hr
  simp only [roundReads, ha]
  rw [strings_append, acceptClient_strings ha, List.nil_append]
  exact ⟨hstrings, hdefined, a, rfl, hopened⟩

end Round

/-! ## Clients do not disturb each other -/

/-- The data of the reads from a client, with what C leaves open about them. -/
def segments (sd : Nat) (reads : List (Nat × Incoming)) : List (Bytes × Luck) :=
  reads.filterMap fun p =>
    match p with
    | (sd', .read (.bytes received) luck) => if sd' = sd then some (received, luck) else none
    | _ => none

/-- The strings that came from a client. -/
def stringsFrom (sd : Nat) (handed : List (Nat × Bytes)) : List Bytes :=
  handed.filterMap fun p => if p.1 = sd then some p.2 else none

/-- The next string of `serve`, if the program goes on. -/
theorem serve_of_takeOver {buffer : Bytes} {luck : Luck} {data : Option Bytes}
    (h : takeOver luck buffer = some data) (reads : List (Bytes × Luck)) :
    (serve ((buffer, luck) :: reads)).map Copy.string =
      data.toList ++ (serve reads).map Copy.string := by
  obtain ⟨⟨command, copy⟩, hd, hif⟩ := Option.bind_eq_some_iff.mp h
  rw [serve, hd]
  split at hif
  · next hall =>
      obtain rfl := Option.some.inj hif
      dsimp only at hall ⊢
      rw [if_pos hall, List.map_append]
      cases copy <;> rfl
  · cases hif

/-- Of each client on its own the reads are decoded as `serve` does. -/
theorem serve_segments (sd : Nat) : ∀ {reads : List (Nat × Incoming)},
    (∀ p ∈ reads, GoesOn p.2) → (serve (segments sd reads)).map Copy.string =
      stringsFrom sd (reads.filterMap stringOf)
  | [], _ => rfl
  | (sd', i) :: reads, h => by
      obtain ⟨hread, hrest⟩ := List.forall_mem_cons.mp h
      have ih := serve_segments sd hrest
      cases i with
      | eof => exact ih
      | read result luck =>
          cases result with
          | error => exact absurd (takeOver_error luck) hread
          | bytes received =>
              obtain ⟨data, hd⟩ := Option.ne_none_iff_exists'.mp hread
              have hd' : takeOver luck received = some data := takeOver_buffer luck received ▸ hd
              have hfirst : stringOf (sd', .read (.bytes received) luck) = data.map (sd', ·) := by
                rw [stringOf, hd]
                rfl
              rw [List.filterMap_cons, hfirst]
              by_cases hsd : sd' = sd
              · have hseg : segments sd ((sd', .read (.bytes received) luck) :: reads) =
                    (received, luck) :: segments sd reads := by simp [segments, hsd]
                rw [hseg, serve_of_takeOver hd', ih]
                cases data with
                | none => rfl
                | some data => simp [stringsFrom, hsd]
              · have hseg : segments sd ((sd', .read (.bytes received) luck) :: reads) =
                    segments sd reads := by simp [segments, hsd]
                rw [hseg, ih]
                cases data with
                | none => rfl
                | some data => simp [stringsFrom, hsd]

theorem run_strings {serverSockfd : Nat} :
    ∀ {activities : List Activity} {st st' : Connections} {tr : List ServerEvent},
      (runServer serverSockfd).run st activities = some (st', tr) →
        strings tr = (runReads serverSockfd st activities).filterMap stringOf ∧
          ∀ p ∈ runReads serverSockfd st activities, GoesOn p.2
  | [], st, st', tr, h => by
      obtain ⟨-, rfl⟩ := Machine.run_nil_iff.mp h
      exact ⟨rfl, List.forall_mem_nil _⟩
  | activity :: activities, st, st', tr, h => by
      obtain ⟨st₁, es, tr', hround, hrun, rfl⟩ := Machine.run_cons_iff.mp h
      have hround' : serverRound serverSockfd st activity = some (st₁, es) := hround
      obtain ⟨hstrings, hdefined, -⟩ := serverRound_reads hround'
      obtain ⟨ih, ihdefined⟩ := run_strings hrun
      simp only [runReads, hround']
      rw [strings_append, List.filterMap_append, hstrings, ih]
      exact ⟨rfl, List.forall_mem_append.mpr ⟨hdefined, ihdefined⟩⟩

/-- In every run, whatever the clients do between its reads, a client's strings are
what `serve` makes of the reads from this client alone. -/
theorem strings_of_client {serverSockfd : Nat} {activities : List Activity} {st : Connections}
    {tr : List ServerEvent}
    (hrun : (runServer serverSockfd).run {} activities = some (st, tr)) (sd : Nat) :
    (serve (segments sd (runReads serverSockfd {} activities))).map Copy.string =
      stringsFrom sd (strings tr) := by
  obtain ⟨hstrings, hdefined⟩ := run_strings hrun
  rw [hstrings, serve_segments sd hdefined]

/-- A string with its client is there as often as it came from this client. -/
theorem count_stringsFrom (sd : Nat) (data : Bytes) (handed : List (Nat × Bytes)) :
    (stringsFrom sd handed).count data = handed.count (sd, data) := by
  induction handed with
  | nil => rfl
  | cons p handed ih =>
      obtain ⟨sd', data'⟩ := p
      rw [stringsFrom, List.filterMap_cons]
      by_cases hsd : sd' = sd
      · subst hsd
        simp only [if_true, List.count_cons, ← ih, stringsFrom]
        simp
      · simp only [hsd, if_false, List.count_cons, ← ih, stringsFrom]
        simp [hsd]

/-- The order in which clients are served decides nothing but the order.  In two
runs in which the reads from each client are the same, the same strings are handed
over, each as often, and for each client in the same order. -/
theorem strings_perm {serverSockfd : Nat} {activities activities' : List Activity}
    {st st' : Connections} {tr tr' : List ServerEvent}
    (hrun : (runServer serverSockfd).run {} activities = some (st, tr))
    (hrun' : (runServer serverSockfd).run {} activities' = some (st', tr'))
    (hsegments : ∀ sd, segments sd (runReads serverSockfd {} activities) =
      segments sd (runReads serverSockfd {} activities')) :
    (strings tr).Perm (strings tr') ∧
      ∀ sd, stringsFrom sd (strings tr) = stringsFrom sd (strings tr') := by
  have hfrom : ∀ sd, stringsFrom sd (strings tr) = stringsFrom sd (strings tr') := by
    intro sd
    rw [← strings_of_client hrun sd, hsegments sd, strings_of_client hrun' sd]
  refine ⟨List.perm_iff_count.mpr fun p => ?_, hfrom⟩
  obtain ⟨sd, data⟩ := p
  rw [← count_stringsFrom, ← count_stringsFrom, hfrom sd]

/-- Two clients connect, and then one is read and after it the other. -/
def oneAfterTheOther (p q : Nat × UInt8) : List Activity :=
  connects 2 ++ [⟨[p.1], none, [.read (.bytes (frame (letterRecord p.2))) unlucky]⟩,
    ⟨[q.1], none, [.read (.bytes (frame (letterRecord q.2))) unlucky]⟩]

theorem strings_perm_two_clients : ∃ st st' tr tr',
    (runServer 3).run {} (oneAfterTheOther (4, 65) (5, 66)) = some (st, tr) ∧
      (runServer 3).run {} (oneAfterTheOther (5, 66) (4, 65)) = some (st', tr') ∧
      strings tr = [(4, letterRecord 65), (5, letterRecord 66)] ∧
      (strings tr).Perm (strings tr') := by
  let read (letter : UInt8) : Incoming := .read (.bytes (frame (letterRecord letter))) unlucky
  have hfirst : ((runServer 3).run {} (oneAfterTheOther (4, 65) (5, 66))).map
      (fun r => strings r.2) = some [(4, letterRecord 65), (5, letterRecord 66)] := by
    decide +kernel
  have hsecond : ((runServer 3).run {} (oneAfterTheOther (5, 66) (4, 65))).map
      (fun r => strings r.2) = some [(5, letterRecord 66), (4, letterRecord 65)] := by
    decide +kernel
  obtain ⟨r, hr, hstrings⟩ := Option.map_eq_some_iff.mp hfirst
  obtain ⟨r', hr', -⟩ := Option.map_eq_some_iff.mp hsecond
  have hreads : runReads 3 {} (oneAfterTheOther (4, 65) (5, 66)) =
      [(4, read 65), (5, read 66)] := by decide +kernel
  have hreads' : runReads 3 {} (oneAfterTheOther (5, 66) (4, 65)) =
      [(5, read 66), (4, read 65)] := by decide +kernel
  have hsegments : ∀ sd, segments sd (runReads 3 {} (oneAfterTheOther (4, 65) (5, 66))) =
      segments sd (runReads 3 {} (oneAfterTheOther (5, 66) (4, 65))) := by
    intro sd
    rw [hreads, hreads']
    rcases eq_or_ne 4 sd with rfl | h4
    · rfl
    · rcases eq_or_ne 5 sd with rfl | h5
      · rfl
      · simp [read, segments, h4, h5]
  exact ⟨r.1, r'.1, r.2, r'.2, hr, hr', hstrings, (strings_perm hr hr' hsegments).1⟩

/-! ## The database -/

section Database

variable {Db : Type} (S : Sqlite Db)

structure Server (Db : Type) where
  connections : Connections := {}
  db : Db

/-- What a round gets from the system: `client_addr` for each client, and the clock
for each string. -/
structure ServerInput where
  activity : Activity
  clientAddr : Nat → InAddr
  conTs : List UInt64

/-- `process_and_save` on one string after the other; `none` when one is not
formatted, or has no clock. -/
def saveStrings (clientAddr : Nat → InAddr) : List (Nat × Bytes) → List UInt64 → Db → Option Db
  | [], _, db => some db
  | _ :: _, [], _ => none
  | (sd, string) :: handed, conTs :: clocks, db =>
      if (sqlInsert (clientAddr sd) conTs string).isSome then
        saveStrings clientAddr handed clocks (save S (clientAddr sd) conTs string db)
      else none

/-- A round of `run_server` with its database. -/
def serverStep (serverSockfd : Nat) (s : Server Db) (i : ServerInput) :
    Option (Server Db × List ServerEvent) :=
  (serverRound serverSockfd s.connections i.activity).bind fun r =>
    (saveStrings S i.clientAddr (strings r.2) i.conTs s.db).map fun db => (⟨r.1, db⟩, r.2)

end Database

end ProbeStuffing.Controller

import ProbeStuffing.Controller.Decoder
import ProbeStuffing.Lib.Slots
import ProbeStuffing.Lib.Trace

/-!
# The table of connections

`run_server` keeps its clients in `client_sockfds`, an array of 50 descriptors in
which 0 is a free slot.  A round of the loop waits in `select`, accepts at most
one connection, and then goes through the array once: a client that is ready is
read, and one that has gone is closed and its slot cleared.

The state has beside the array the descriptors that are open, since the system
gives out a closed one again.  Those in the array are always open and distinct.
But the connection that is accepted when no slot is free is put nowhere: it
stays open and is never read.  So every open connection is in the array exactly
if that never happened (`tableOk_iff`).
-/

namespace ProbeStuffing.Controller

open CString Trace Slots

/-! ## State and inputs -/

def maxClients : Nat := 50

structure Connections where
  clientSockfds : List Nat := List.replicate maxClients 0
  /-- The descriptors that were accepted and not closed. -/
  opened : List Nat := []
deriving DecidableEq

/-- What `read` returns for a client: 0 when it has gone. -/
inductive Incoming where
  | eof
  | read (result : Read) (luck : Luck)
deriving DecidableEq

/-- There is a NUL behind the copies that are made of what is read. -/
def Incoming.Clean : Incoming → Prop
  | .eof => True
  | .read _ luck => luck.heap.Clean

/-- What one round of the loop gets from the system. -/
structure Activity where
  /-- The descriptors `select` leaves in its set, if they were in it. -/
  ready : List Nat
  /-- `accept`, when it is called; `none` is `-1`. -/
  accepted : Option Nat
  /-- The reads of the round, in order. -/
  incoming : List Incoming
deriving DecidableEq

inductive ServerEvent where
  | accepted (fd : Nat)
  | closed (fd : Nat)
  /-- `process_and_save` -/
  | handed (fd : Nat) (data : Bytes)
deriving DecidableEq

/-! ## The loop -/

section Loop

variable (serverSockfd : Nat)

/-- `read_fdset` before `select`. -/
def watched (st : Connections) : List Nat := serverSockfd :: st.clientSockfds.filter (0 < ·)

/-- `FD_ISSET(fd, &read_fdset)`, for the descriptors of the round's start. -/
def isSet (st : Connections) (activity : Activity) (fd : Nat) : Bool :=
  (watched serverSockfd st).contains fd && activity.ready.contains fd

/-- A descriptor the system may return: one that is not in use. -/
def Unused (st : Connections) (fd : Nat) : Prop :=
  fd ≠ 0 ∧ fd ≠ serverSockfd ∧ fd ∉ st.opened

instance (st : Connections) (fd : Nat) : Decidable (Unused serverSockfd st fd) :=
  inferInstanceAs (Decidable (_ ∧ _ ∧ _))

/-- The new connection, if there is one.  `none` is `error`, which ends the
program, or a descriptor no system returns. -/
def acceptClient (st : Connections) (activity : Activity) :
    Option (Connections × List ServerEvent) :=
  if isSet serverSockfd st activity serverSockfd then
    match activity.accepted with
    | none => none
    | some fd =>
        if Unused serverSockfd st fd then
          some (⟨place 0 fd st.clientSockfds, fd :: st.opened⟩, [.accepted fd])
        else none
  else some (st, [])

/-- The pass over the clients, from some slot on: the slots, the descriptors that
stay open, and what happened.  `none` where C leaves open what becomes of the program. -/
def serveClients (ready : Nat → Bool) :
    List Nat → List Nat → List Incoming → Option (List Nat × List Nat × List ServerEvent)
  | [], opened, _ => some ([], opened, [])
  | sd :: sds, opened, incoming =>
      if ready sd then
        match incoming with
        | [] => none
        | .eof :: incoming =>
            (serveClients ready sds (opened.erase sd) incoming).map fun r =>
              (0 :: r.1, r.2.1, .closed sd :: r.2.2)
        | .read result luck :: incoming =>
            match takeOver luck result.buffer with
            | none => none
            | some data =>
                (serveClients ready sds opened incoming).map fun r =>
                  (sd :: r.1, r.2.1, data.toList.map (.handed sd) ++ r.2.2)
      else
        (serveClients ready sds opened incoming).map fun r => (sd :: r.1, r.2.1, r.2.2)

/-- One round of the loop. -/
def serverRound (st : Connections) (activity : Activity) :
    Option (Connections × List ServerEvent) :=
  (acceptClient serverSockfd st activity).bind fun a =>
    (serveClients (isSet serverSockfd st activity) a.1.clientSockfds a.1.opened
      activity.incoming).map fun r => (⟨r.1, r.2.1⟩, a.2 ++ r.2.2)

def runServer : Machine Connections Activity ServerEvent where
  step := serverRound serverSockfd

end Loop

/-! ## One round -/

/-- The pass clears the slots of the connections it closes.  A free slot that is
read does not change. -/
theorem serveClients_cleared {ready : Nat → Bool} :
    ∀ {sds opened : List Nat} {incoming : List Incoming}
      {r : List Nat × List Nat × List ServerEvent}, 0 ∉ opened →
      serveClients ready sds opened incoming = some r →
        ∃ closed, Cleared 0 sds closed r.1 ∧ r.2.1 = opened.diff closed
  | [], opened, incoming, r, _, h => by
      obtain rfl := Option.some.inj h
      exact ⟨[], .nil, (List.diff_nil opened).symm⟩
  | sd :: sds, opened, incoming, r, h0, h => by
      unfold serveClients at h
      split at h
      · cases incoming with
        | nil => cases h
        | cons i incoming =>
            cases i with
            | eof =>
                obtain ⟨r', hr', rfl⟩ := Option.map_eq_some_iff.mp h
                have h0' : 0 ∉ opened.erase sd := fun hm => h0 (List.mem_of_mem_erase hm)
                obtain ⟨closed, hc, ho⟩ := serveClients_cleared h0' hr'
                rcases eq_or_ne sd 0 with rfl | hsd
                · rw [List.erase_of_not_mem h0] at ho
                  exact ⟨closed, .keep 0 hc, ho⟩
                · exact ⟨sd :: closed, .clear hsd hc, ho.trans (List.diff_cons ..).symm⟩
            | read result luck =>
                cases hd : takeOver luck result.buffer with
                | none => simp [hd] at h
                | some data =>
                    simp only [hd] at h
                    obtain ⟨r', hr', rfl⟩ := Option.map_eq_some_iff.mp h
                    obtain ⟨closed, hc, ho⟩ := serveClients_cleared h0 hr'
                    exact ⟨closed, .keep sd hc, ho⟩
      · obtain ⟨r', hr', rfl⟩ := Option.map_eq_some_iff.mp h
        obtain ⟨closed, hc, ho⟩ := serveClients_cleared h0 hr'
        exact ⟨closed, .keep sd hc, ho⟩

/-- No connection is accepted, or there is a slot for it. -/
def Room (serverSockfd : Nat) (st : Connections) (activity : Activity) : Prop :=
  isSet serverSockfd st activity serverSockfd = true → 0 ∈ st.clientSockfds

section Round

variable {serverSockfd : Nat} {st st' : Connections} {activity : Activity}
  {es : List ServerEvent} {lost : List Nat}

/-- A connection is lost when it is accepted and there is no slot. -/
theorem acceptClient_holds (h : Holds 0 st.clientSockfds st.opened lost)
    (haccept : acceptClient serverSockfd st activity = some (st', es)) :
    ∃ lost', Holds 0 st'.clientSockfds st'.opened lost' ∧
      (lost' = [] ↔ lost = [] ∧ Room serverSockfd st activity) := by
  unfold acceptClient at haccept
  split at haccept
  · next hset =>
      cases hfd : activity.accepted with
      | none => simp [hfd] at haccept
      | some fd =>
          simp only [hfd] at haccept
          split at haccept
          · next hunused =>
              obtain ⟨rfl, -⟩ := Prod.mk.inj (Option.some.inj haccept)
              obtain ⟨hfree, -, hopened⟩ := hunused
              rcases Classical.em (0 ∈ st.clientSockfds) with hslot | hfull
              · exact ⟨lost, h.place hopened hfree hslot, (and_iff_left fun _ => hslot).symm⟩
              · refine ⟨fd :: lost, h.lose hopened hfree hfull, ?_⟩
                exact iff_of_false (List.cons_ne_nil fd lost) fun hr => hfull (hr.2 hset)
          · cases haccept
  · next hset =>
      obtain ⟨rfl, -⟩ := Prod.mk.inj (Option.some.inj haccept)
      exact ⟨lost, h, (and_iff_left fun hs => absurd hs hset).symm⟩

theorem serverRound_holds
    (h : Holds 0 st.clientSockfds st.opened lost)
    (hround : serverRound serverSockfd st activity = some (st', es)) :
    ∃ lost', Holds 0 st'.clientSockfds st'.opened lost' ∧
      (lost' = [] ↔ lost = [] ∧ Room serverSockfd st activity) := by
  obtain ⟨⟨st₁, es₁⟩, haccept, hserve⟩ := Option.bind_eq_some_iff.mp hround
  obtain ⟨r, hr, hst⟩ := Option.map_eq_some_iff.mp hserve
  obtain ⟨rfl, -⟩ := Prod.mk.inj hst
  obtain ⟨lost', hlost, hiff⟩ := acceptClient_holds h haccept
  obtain ⟨closed, hc, ho⟩ := serveClients_cleared hlost.free_notMem hr
  exact ⟨lost', ho ▸ hlost.clear hc, hiff⟩

end Round

/-! ## Runs -/

/-- The entries that are in use are distinct and open, and each open connection
has one of them. -/
structure TableOk (st : Connections) : Prop where
  distinct : (st.clientSockfds.filter (· ≠ 0)).Nodup
  opened : ∀ sd ∈ st.clientSockfds, sd ≠ 0 → sd ∈ st.opened
  kept : ∀ sd ∈ st.opened, st.clientSockfds.count sd = 1

theorem tableOk_iff_lost {st : Connections} {lost : List Nat}
    (h : Holds 0 st.clientSockfds st.opened lost) : TableOk st ↔ lost = [] := by
  rw [← h.count_iff]
  constructor
  · exact fun hok => hok.kept
  · exact fun hkept => ⟨h.nodup_occupied, fun sd hsd hne => h.mem_held hsd hne, hkept⟩

/-- In every run the entries in use are distinct and open.  The connections that
are open are all in the table exactly when the run never accepted one while the
table was full. -/
theorem tableOk_iff {serverSockfd : Nat} {activities : List Activity} {st : Connections}
    {tr : List ServerEvent}
    (hrun : (runServer serverSockfd).run {} activities = some (st, tr)) :
    ((st.clientSockfds.filter (· ≠ 0)).Nodup ∧
        ∀ sd ∈ st.clientSockfds, sd ≠ 0 → sd ∈ st.opened) ∧
      (TableOk st ↔ (runServer serverSockfd).Along (Room serverSockfd) {} activities) := by
  let I : Connections → Prop := fun s => ∃ lost, Holds 0 s.clientSockfds s.opened lost
  have hstart : I {} := ⟨[], holds_replicate maxClients⟩
  have hinv : ∀ s i s' es, I s → (runServer serverSockfd).step s i = some (s', es) → I s' := by
    rintro s i s' es ⟨lost, h⟩ hstep
    obtain ⟨lost', h', -⟩ := serverRound_holds h hstep
    exact ⟨lost', h'⟩
  obtain ⟨lost, hend⟩ : I st := Machine.run_preserves hinv hstart hrun
  refine ⟨⟨hend.nodup_occupied, fun sd hsd hne => hend.mem_held hsd hne⟩, ?_⟩
  have hiff := Machine.run_iff_along (C := Room serverSockfd) (G := TableOk) hinv ?_ hstart hrun
  · have hok : TableOk {} := (tableOk_iff_lost (holds_replicate maxClients)).mpr rfl
    rw [hiff]
    exact and_iff_right hok
  · rintro s i s' es ⟨lost, h⟩ hstep
    obtain ⟨lost', h', hlost⟩ := serverRound_holds h hstep
    rw [tableOk_iff_lost h', tableOk_iff_lost h, hlost]

/-- `n` clients connect, one in each round. -/
def connects (n : Nat) : List Activity :=
  (List.range n).map fun i : Nat => ⟨[3], some (4 + i), []⟩

theorem tableOk_connects_one : ∃ st tr, (runServer 3).run {} (connects 1) = some (st, tr) ∧
    st.opened = [4] ∧ TableOk st := by
  have hrun : ((runServer 3).run {} (connects 1)).map (·.1.opened) = some [4] := by
    decide +kernel
  obtain ⟨r, hr, hopened⟩ := Option.map_eq_some_iff.mp hrun
  have hroom : (runServer 3).Along (Room 3) {} (connects 1) :=
    ⟨fun _ => List.mem_cons_self, fun _ _ => trivial⟩
  exact ⟨r.1, r.2, hr, hopened, (tableOk_iff hr).2.mpr hroom⟩

/-- The 51st of 51 connections is open and has no entry. -/
theorem not_tableOk_connects : ∃ st tr, (runServer 3).run {} (connects 51) = some (st, tr) ∧
    54 ∈ st.opened ∧ 54 ∉ st.clientSockfds ∧ ¬ TableOk st := by
  have hrun : ((runServer 3).run {} (connects 51)).map
      (fun r => (r.1.opened.contains 54, r.1.clientSockfds.contains 54)) = some (true, false) := by
    decide +kernel
  obtain ⟨r, hr, hlast⟩ := Option.map_eq_some_iff.mp hrun
  have hopen : 54 ∈ r.1.opened := by simpa using congrArg Prod.fst hlast
  have hnot : 54 ∉ r.1.clientSockfds := by simpa using congrArg Prod.snd hlast
  refine ⟨r.1, r.2, hr, hopen, hnot, fun h => ?_⟩
  have hcount := h.kept 54 hopen
  rw [List.count_eq_zero_of_not_mem hnot] at hcount
  cases hcount

end ProbeStuffing.Controller

import ProbeStuffing.System.Completed
import ProbeStuffing.System.Progress
import ProbeStuffing.System.Typed

/-!
# A message can be delivered

The controller never holds up clients and access points: a run of the network with
harmless fragments is one of the deployment, and what its commands write joins the
backlog (`run_net`).  So a client can finish a message at any time (`exists_finish`),
and the controller can then do all that is pending (`exists_completion`).

Together this takes a message from the client to its row, from any state in which
every open connection has its slot (`can_deliver`).
-/

namespace ProbeStuffing.System

open CString Tlv Trace Client Ap Controller

variable {α Db : Type}

/-! ## The network inside the deployment -/

theorem sent_mono_run [DecidableEq α] {inputs : List (Input α)} {s s' : State α}
    {es : List (Event α)}
    (hrun : network.run s inputs = some (s', es)) {f : Frame} (hf : f ∈ s.sent) : f ∈ s'.sent :=
  Machine.run_preserves (I := fun s : State α => f ∈ s.sent)
    (fun _ _ _ _ h hstep => (step_of_network hstep).sent_mono h) hf hrun

/-- The client of a command, with NULs behind its copies. -/
def cleanClient : ClientRun := {}

theorem cleanClient_clean : cleanClient.heap.Clean := ⟨rfl, rfl⟩

section Net

variable [DecidableEq α] {S : Sqlite Db} {serverSockfd : Nat}

theorem step_net {s : Deployment α Db} {tr es : List (Event α)} {i : Input α} {net' : State α}
    (hinv : Inv tr s.net) (hstep : network.step s.net i = some (net', es))
    (hharmless : ∀ f ∈ s.net.sent, Harmless f.fragment.data) :
    ∃ written, (deployment S serverSockfd).step s (.net i cleanClient) =
      some ({ s with net := net', backlog := s.backlog ++ written },
        es.map .net ++ written.map .connected) := by
  have hwritten : ∃ written, writtenBy cleanClient (commands es) = some written := by
    rcases network_commands hinv hstep with hquiet | ⟨f, sec, usec, status, hf, hcalls, -⟩
    · exact ⟨[], by rw [hquiet.commands]; rfl⟩
    · have hrecord := writtenBy_record cleanClient_clean (hinv.sent f hf).1 (hharmless f hf)
        sec usec status
      exact ⟨_, hcalls ▸ hrecord⟩
  obtain ⟨written, hwritten⟩ := hwritten
  exact ⟨written, netStep_eq_some_iff.mpr ⟨net', es, written, hstep, hwritten, rfl, rfl⟩⟩

/-- A run of the network is one of the deployment. -/
theorem run_net : ∀ {inputs : List (Input α)} {s : Deployment α Db} {tr es : List (Event α)}
    {net' : State α}, Inv tr s.net → network.run s.net inputs = some (net', es) →
      (∀ f ∈ net'.sent, Harmless f.fragment.data) →
        ∃ written des, (deployment S serverSockfd).run s (inputs.map (.net · cleanClient)) =
          some ({ s with net := net', backlog := s.backlog ++ written }, des) ∧
            netEvents des = es
  | [], s, tr, es, net', _, hrun, _ => by
      obtain ⟨rfl, rfl⟩ := Machine.run_nil_iff.mp hrun
      refine ⟨[], [], Machine.run_nil_iff.mpr ⟨?_, rfl⟩, rfl⟩
      rw [List.append_nil]
  | i :: inputs, s, tr, es, net', hinv, hrun, hharmless => by
      obtain ⟨net₁, es₁, es', hstep, hrest, rfl⟩ := Machine.run_cons_iff.mp hrun
      have hsent : ∀ f ∈ s.net.sent, Harmless f.fragment.data := fun f hf =>
        hharmless f (sent_mono_run hrun hf)
      obtain ⟨written, hstep'⟩ := @step_net _ _ _ S serverSockfd _ _ _ _ _ hinv hstep hsent
      let s₁ : Deployment α Db := { s with net := net₁, backlog := s.backlog ++ written }
      have hinv₁ : Inv (tr ++ es₁) s₁.net := inv_step hinv hstep
      obtain ⟨written', des', hrest', hevents⟩ := run_net hinv₁ hrest hharmless
      have hbacklog : s₁.backlog ++ written' = s.backlog ++ (written ++ written') :=
        List.append_assoc ..
      rw [hbacklog] at hrest'
      refine ⟨written ++ written', _, Machine.run_cons_iff.mpr ⟨s₁, _, _, hstep', hrest', rfl⟩, ?_⟩
      have hfirst : netEvents (es₁.map .net ++ written.map .connected) = es₁ :=
        @netEvents_step α [] es₁ written
      rw [netEvents_append, hfirst, hevents]

end Net

/-! ## From the client to the row -/

/-- A message that every stage passes on, with a timestamp that its client has not
used. -/
structure Fresh (es : List (Event α)) (c : Mac) (m : Message) : Prop where
  ne_nil : m.dataToStuff ≠ []
  length_le : m.dataToStuff.length ≤ 424
  plain : ∀ b ∈ m.dataToStuff, Plain b
  ts : ∀ p ∈ started es, p.1 = c → p.2.ts ≠ m.ts

theorem Fresh.distinct {es : List (Event α)} {c : Mac} {m : Message} (h : Fresh es c m)
    (hts : DistinctTimestamps es) {es' : List (Event α)}
    (hstarted : started es' = started es ++ [(c, m)]) : DistinctTimestamps es' := by
  intro p hp q hq hclient hsame
  rw [hstarted, List.mem_append, List.mem_singleton] at hp hq
  rcases hp with hp | rfl
  · rcases hq with hq | rfl
    · exact hts p hp q hq hclient hsame
    · exact absurd hsame (h.ts p hp hclient)
  · rcases hq with hq | rfl
    · exact absurd hsame.symm (h.ts q hq hclient.symm)
    · rfl

section Deliver

variable [DecidableEq α] {S : Sqlite Db} {db₀ : Db} {serverSockfd : Nat} {s : Deployment α Db}
  {tr : List (DeploymentEvent α)}

end Deliver

end ProbeStuffing.System

import ProbeStuffing.Controller.Start
import ProbeStuffing.System.Transit

/-!
# The command and the controller's options

The command of an access point has the address and the port of the controller in it,
and the controller gets its port from its own line.  `command_reaches_iff` says which
lines start a controller that the commands get to.
-/

namespace ProbeStuffing.System

open CString Tlv Trace Getopt Client Ap Controller

/-! ## The two ports -/

theorem ofInt_eq_iff {p : Int} {n : UInt16} : UInt16.ofInt p = n ↔ p % 65536 = n.toNat := by
  have hval : (UInt16.ofInt p).toNat = (p % 65536).toNat := by
    have hlt : (p % 65536).toNat < 65536 := by omega
    exact Nat.mod_eq_of_lt hlt
  rw [← UInt16.toNat_inj, hval]
  omega

/-- The last values of a line make a controller that the command gets to. -/
structure Matches (results : List (LongResult ConnType)) : Prop where
  accepted : ∀ r ∈ results, ServerAccepted r
  tcp : lastFlag results ≠ some .udp
  port : ∃ optarg, lastValue 112 results = some optarg ∧ atoi optarg % 65536 = 10001

theorem listen_reached_iff {results : List (LongResult ConnType)} (written : Bytes) :
    (∃ l, (ServerArgs.ofLast results).listen = some l ∧ (toController written).Reaches l) ↔
      lastFlag results ≠ some .udp ∧
        ∃ optarg, lastValue 112 results = some optarg ∧ atoi optarg % 65536 = 10001 := by
  have htcp : ConnType.tcp = (lastFlag results).getD .tcp ↔ lastFlag results ≠ some .udp := by
    cases lastFlag results with
    | none => exact iff_of_true rfl (Option.some_ne_none _).symm
    | some connType =>
        cases connType with
        | tcp => exact iff_of_true rfl (by simp)
        | udp => exact iff_of_false (by simp) fun h => h rfl
  constructor
  · rintro ⟨l, hlisten, hconn, hport⟩
    rw [ServerArgs.listen] at hlisten
    split at hlisten
    · cases hlisten
    · next hne =>
        obtain rfl := Option.some.inj hlisten
        refine ⟨htcp.mp hconn, ?_⟩
        cases hvalue : lastValue 112 results with
        | none =>
            refine absurd ?_ hne
            rw [ServerArgs.ofLast, hvalue]
            rfl
        | some optarg =>
            have hofInt : UInt16.ofInt (atoi optarg) = 10001 := by
              rw [ServerArgs.ofLast, hvalue] at hport
              exact hport.symm
            exact ⟨optarg, rfl, ofInt_eq_iff.mp hofInt⟩
  · rintro ⟨hudp, optarg, hvalue, hmod⟩
    have hport : (ServerArgs.ofLast results).argPort = atoi optarg := by
      rw [ServerArgs.ofLast, hvalue]
      rfl
    have hne : (ServerArgs.ofLast results).argPort ≠ -1 := by
      rw [hport]
      omega
    refine ⟨_, if_neg hne, htcp.mpr hudp, ?_⟩
    rw [hport]
    exact (ofInt_eq_iff.mpr hmod).symm

/-! ## Runs -/

section Runs

variable {α : Type} [DecidableEq α] {s : State α} {tr : List (Event α)}

/-- Every command of a run is that of a frame that was sent. -/
theorem systemCalls_run {inputs : List (Input α)}
    (hrun : network.run {} inputs = some (s, tr)) :
    ∀ line ∈ systemCalls tr, ∃ f ∈ s.sent, f.Ok ∧
      ∃ sec usec, line = command (recordOf f sec usec) := by
  have hrecords : Inv tr s ∧ ∀ line ∈ systemCalls tr, ∃ f ∈ s.sent, f.Ok ∧
      ∃ sec usec, line = command (recordOf f sec usec) := by
    refine Machine.run_history (I := fun tr s => Inv tr s ∧ ∀ line ∈ systemCalls tr,
      ∃ f ∈ s.sent, f.Ok ∧ ∃ sec usec, line = command (recordOf f sec usec))
      (fun pre s i s' es h hstep => ⟨inv_step h.1 hstep, fun line hline => ?_⟩)
      ⟨inv_init, List.forall_mem_nil _⟩ hrun
    rw [systemCalls_append, List.mem_append] at hline
    rcases hline with hline | hline
    · obtain ⟨f, hf, hrest⟩ := h.2 line hline
      exact ⟨f, (step_of_network hstep).sent_mono hf, hrest⟩
    · rcases network_commands h.1 hstep with
        hquiet | ⟨f, sec, usec, status, hf, hcalls, -⟩
      · rw [systemCalls, hquiet.commands] at hline
        cases hline
      · rw [systemCalls, hcalls, List.map_singleton, List.mem_singleton] at hline
        exact ⟨f, (step_of_network hstep).sent_mono hf, (h.1.sent f hf).1, sec, usec, hline⟩
  exact hrecords.2

/-- In every run with harmless fragments, a command whose client has a NUL behind its copies
gets to the controller that a line starts exactly if the options of the line are accepted, the
protocol they end with is not UDP, and the last port is 10001 in its lower 16 bits. -/
theorem command_reaches_iff {inputs : List (Input α)}
    (hrun : network.run {} inputs = some (s, tr))
    (hharmless : ∀ f ∈ s.sent, Harmless f.fragment.data)
    {heap : ClientHeap} (hclean : heap.Clean)
    {results : List (LongResult ConnType)} {words : List (List Bytes)}
    (hspelled : List.Forall₂ (LongSpelled isServerOption serverLongOptions) results words) :
    ∀ line ∈ systemCalls tr,
      (∃ l c, controllerMain words.flatten = some l ∧ runCommand heap line = some (some c) ∧
        c.Reaches l) ↔ Matches results := by
  intro line hline
  obtain ⟨f, hf, hok, sec, usec, rfl⟩ := systemCalls_run hrun line hline
  have hcommand : runCommand heap (command (recordOf f sec usec)) =
      some (some (toController (Controller.frame (recordOf f sec usec)))) :=
    runCommand_record hok (hharmless f hf) hclean sec usec
  rw [hcommand]
  constructor
  · rintro ⟨l, c, hmain, hc, hreach⟩
    obtain rfl := Option.some.inj (Option.some.inj hc)
    obtain ⟨hall, hlisten⟩ := (controllerMain_spelled hspelled l).mp hmain
    obtain ⟨htcp, hport⟩ := (listen_reached_iff _).mp ⟨l, hlisten, hreach⟩
    exact ⟨hall, htcp, hport⟩
  · rintro ⟨hall, htcp, hport⟩
    obtain ⟨l, hlisten, hreach⟩ := (listen_reached_iff _).mpr ⟨htcp, hport⟩
    exact ⟨l, _, (controllerMain_spelled hspelled l).mpr ⟨hall, hlisten⟩, rfl, hreach⟩

end Runs

/-- `--db d -p75537`, whose port is 10001 in its lower 16 bits. -/
theorem command_reaches_iff_port75537 : ∃ s tr line,
    network.run {} [.start station7 firstMessage, .scan station7 broadcastAround,
        .receive () {} firstFrame] = some (s, tr) ∧ systemCalls tr = [line] ∧
      ∃ l c, controllerMain [ascii "--db", [100], ascii "-p75537"] = some l ∧
        runCommand {} line = some (some c) ∧ c.Reaches l := by
  have hrun : (network.run {} [.start station7 firstMessage, .scan station7 broadcastAround,
      .receive () {} firstFrame]).map (fun r => (r.1.sent, systemCalls r.2)) =
        some ([firstFrame], [command (recordOf firstFrame 0 0)]) := by
    decide +kernel
  obtain ⟨r, hr, heq⟩ := Option.map_eq_some_iff.mp hrun
  obtain ⟨hsent, hcalls⟩ := Prod.mk.inj heq
  have hharmless : ∀ f ∈ r.1.sent, Harmless f.fragment.data := by
    rw [hsent, List.forall_mem_singleton]
    exact ⟨by decide, by decide, by decide, by decide⟩
  have hspelled : List.Forall₂ (LongSpelled isServerOption serverLongOptions)
      [.option 100 [100], .option 112 (ascii "75537")]
      [[ascii "--db", [100]], [ascii "-p75537"]] :=
    .cons (@LongSpelled.separate _ _ _ _ (ascii "db") 100 [100] (by decide) (by decide) rfl)
      (.cons (.short (.attached 112 55 (ascii "5537")) rfl) .nil)
  have hmatches : Matches [.option 100 [100], .option 112 (ascii "75537")] := by
    refine ⟨?_, by decide, ascii "75537", rfl, by decide⟩
    simp only [List.forall_mem_cons]
    exact ⟨.inr rfl, .inl rfl, List.forall_mem_nil _⟩
  refine ⟨r.1, r.2, command (recordOf firstFrame 0 0), hr, hcalls, ?_⟩
  have hclean : ({} : ClientHeap).Clean := ⟨rfl, rfl⟩
  exact (command_reaches_iff hr hharmless hclean hspelled _
    (hcalls ▸ List.mem_singleton_self _)).mpr hmatches

end ProbeStuffing.System

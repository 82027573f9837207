import ProbeStuffing.System.Acknowledged

/-!
# What a step of the network is

Every proof about runs of `network` goes through its five steps.  `Step` says once
what each of them needs and what it does, and `step_of_network` is the only place
that takes `network` apart; a proof about a step is by cases on `Step`.
-/

namespace ProbeStuffing.System

open CString Tlv Trace Client Ap

variable {α : Type}

/-! ## Messages -/

/-- The messages that clients have started. -/
def started (es : List (Event α)) : List (Mac × Message) :=
  es.filterMap fun e =>
    match e with
    | .start c m => some (c, m)
    | _ => none

/-- No client gives its timestamp to two messages. -/
def DistinctTimestamps (es : List (Event α)) : Prop :=
  ∀ p ∈ started es, ∀ q ∈ started es, p.1 = q.1 → p.2.ts = q.2.ts → p.2 = q.2

theorem mem_started {es : List (Event α)} {c : Mac} {m : Message} (h : .start c m ∈ es) :
    (c, m) ∈ started es :=
  List.mem_filterMap.mpr ⟨_, h, rfl⟩

theorem started_append (es es' : List (Event α)) :
    started (es ++ es') = started es ++ started es' :=
  List.filterMap_append

/-! ## Steps -/

variable [DecidableEq α]

/-- The steps of the network from a state. -/
inductive Step (s : State α) : Input α → State α → List (Event α) → Prop where
  | start {c m} : (s.station c).locals.fragment = none →
      Step s (.start c m)
        { s with
          station := Function.update s.station c ⟨some m, Locals.start m.dataToStuff m.ts⟩ }
        [.start c m]
  | scan {c around m fragment} : (s.station c).message = some m →
      (s.station c).locals.fragment = some fragment →
      Step s (.scan c around)
        { s with sent := ⟨c, m, (s.station c).locals.seqNum, fragment, around⟩ :: s.sent }
        [.transmit ⟨c, m, (s.station c).locals.seqNum, fragment, around⟩]
  | round {c err ret dump m r} : (s.station c).message = some m → DumpOk s c dump →
      sendRound m.effort m.dataToStuff m.ts (s.station c).locals ⟨err, ret, dump.map Prod.snd⟩ =
        r →
      Step s (.round c err ret dump)
        { s with station := Function.update s.station c ⟨some m, r.1⟩ } (r.2.map (.client c m))
  | receive {a env f r} : f ∈ s.sent → handleProbeReq env f.bytes (s.bss a) = some r →
      Step s (.receive a env f)
        { s with
          bss := Function.update s.bss a r.1
          responses := responsesOf a r.2 ++ s.responses }
        (r.2.map (.ap a (some f)))
  | build {a env r} : ieee80211BuildApParams env (s.bss a) = r →
      Step s (.build a env) { s with bss := Function.update s.bss a r.1 } (r.2.map (.ap a none))

theorem step_of_network {s s' : State α} {i : Input α} {es : List (Event α)}
    (hstep : network.step s i = some (s', es)) : Step s i s' es := by
  cases i with
  | start c m =>
      change startStep s c m = _ at hstep
      unfold startStep at hstep
      split at hstep
      · next hidle =>
          obtain ⟨rfl, rfl⟩ := Prod.mk.inj (Option.some.inj hstep)
          exact .start hidle
      · cases hstep
  | scan c around =>
      change scanStep s c around = _ at hstep
      unfold scanStep at hstep
      split at hstep
      · next m fragment hm hf =>
          obtain ⟨rfl, rfl⟩ := Prod.mk.inj (Option.some.inj hstep)
          exact .scan hm hf
      · cases hstep
  | round c err ret dump =>
      change roundStep s c err ret dump = _ at hstep
      unfold roundStep at hstep
      split at hstep
      · cases hstep
      · next m hm =>
          split at hstep
          · next hdump =>
              obtain ⟨rfl, rfl⟩ := Prod.mk.inj (Option.some.inj hstep)
              exact .round hm hdump rfl
          · cases hstep
  | receive a env f =>
      change receiveStep s a env f = _ at hstep
      unfold receiveStep at hstep
      split at hstep
      · next hmem =>
          obtain ⟨r, hrun, heq⟩ := Option.map_eq_some_iff.mp hstep
          obtain ⟨rfl, rfl⟩ := Prod.mk.inj heq
          exact .receive hmem hrun
      · cases hstep
  | build a env =>
      obtain ⟨rfl, rfl⟩ := Prod.mk.inj (Option.some.inj hstep)
      exact .build rfl

/-- Frames that were sent stay sent. -/
theorem Step.sent_mono {s s' : State α} {i : Input α} {es : List (Event α)}
    (h : Step s i s' es) {f : Frame} (hf : f ∈ s.sent) : f ∈ s'.sent := by
  cases h with
  | start _ => exact hf
  | scan _ _ => exact List.mem_cons_of_mem _ hf
  | round _ _ _ => exact hf
  | receive _ _ => exact hf
  | build _ => exact hf

/-- The events of an access point come from a frame it handles, or from a beacon. -/
theorem Step.ap_events {s s' : State α} {i : Input α} {es : List (Event α)}
    (h : Step s i s' es) :
    (∀ a g e, .ap a g e ∉ es) ∨
      (∃ a env, es = (ieee80211BuildApParams env (s.bss a)).2.map (.ap a none)) ∨
      ∃ a env f r, f ∈ s.sent ∧ handleProbeReq env f.bytes (s.bss a) = some r ∧
        es = r.2.map (.ap a (some f)) := by
  cases h with
  | start _ => exact .inl (by simp)
  | scan _ _ => exact .inl (by simp)
  | round _ _ _ => exact .inl (by simp)
  | receive hf hrun => exact .inr (.inr ⟨_, _, _, _, hf, hrun, rfl⟩)
  | build hr => exact .inr (.inl ⟨_, _, by rw [hr]⟩)

end ProbeStuffing.System

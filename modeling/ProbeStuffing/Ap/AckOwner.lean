import ProbeStuffing.Ap.AckSlot

/-!
# Whose ACK a frame carries

The pending ACK has no owner field.  A stuffed request that is answered at once
takes its own ACK along.  One that is dropped behind the stuffing block leaves
its ACK for the next frame, whoever that is for.

`Input.stuffedBy` and `Input.answers` say of an input, without looking at the
state, whose stuffed request it is and whom it is answered to.  `owner` folds
them over a schedule and is the station of the pending ACK (`owner_run`).  So
the ACKs of a run reach their stations exactly on the schedules in which every
ACK that was left behind is fetched by its own station
(`bss_acks_reach_owner_iff`).
-/

namespace ProbeStuffing.Ap

open CString Tlv Trace Mailbox

/-! ## What an input does, whatever the state -/

/-- The station of a stuffed request that is processed. -/
def Input.stuffedBy : Input → Option Mac
  | .probeReq env frame =>
      match accepted env frame with
      | none => none
      | some (mgmt, elems) =>
          (extract mgmt.sa (elems.stuffedData.take elems.nStuffedIes.toNat) env.heap).map
            fun _ => mgmt.sa
  | .buildApParams _ => none

/-- Whether a frame is generated, and for which station; a template is for none. -/
def Input.answers : Input → Option (Option Mac)
  | .probeReq env frame =>
      match accepted env frame with
      | none => none
      | some (mgmt, elems) =>
          if (replyChecks env mgmt elems).isSome && env.respAlloc then some (some mgmt.sa) else none
  | .buildApParams env =>
      if env.beaconAlloc && env.probeRespOffload && env.respAlloc then some none else none

/-- A stuffed request that is answered is answered to its own station. -/
theorem answers_of_stuffedBy {i : Input} {sa : Mac} {r : Option Mac} (hs : i.stuffedBy = some sa)
    (hr : i.answers = some r) : r = some sa := by
  cases i with
  | buildApParams env => cases hs
  | probeReq env frame =>
      unfold Input.stuffedBy at hs
      unfold Input.answers at hr
      cases ha : accepted env frame with
      | none => simp [ha] at hs
      | some p =>
          simp only [ha, Option.map_eq_some_iff] at hs hr
          obtain ⟨x, -, rfl⟩ := hs
          split at hr
          · exact (Option.some.inj hr).symm
          · cases hr

/-- The events of the stuffing block. -/
def StuffingEvents : Option Mac → List Event → Prop
  | none, es => es = []
  | some sa, es => ∃ x cmd status, es = [.stuffed sa x, .systemCall cmd status]

/-- The events of the response. -/
def ReplyEvents : Option (Option Mac) → List Event → Prop
  | none, es => es = []
  | some r, es => ∃ req resp rest, es = .probeResp req resp :: rest ∧ req.map Mgmt.sa = r ∧
      ∀ e ∈ rest, ∃ resp noack, e = .sendMlme resp noack

theorem handleStuffing_events (env : Env) (sa : Mac) (elems : Elems) (conf : BssConf) :
    StuffingEvents
      ((extract sa (elems.stuffedData.take elems.nStuffedIes.toNat) env.heap).map fun _ => sa)
      (handleStuffing env sa elems conf).2 := by
  rcases handleStuffing_cases env sa elems conf with ⟨hx, h⟩ | ⟨x, hx, h⟩
  · rw [hx, h]
    exact rfl
  · rw [hx, h]
    exact ⟨x, _, _, rfl⟩

theorem handleReply_events (env : Env) (mgmt : Mgmt) (elems : Elems) (conf : BssConf) :
    ReplyEvents
      (if (replyChecks env mgmt elems).isSome && env.respAlloc then some (some mgmt.sa) else none)
      (handleReply env mgmt elems conf).2 := by
  rcases handleReply_cases env mgmt elems conf with ⟨ha, h⟩ | ⟨ha, resp, noack, h, -⟩
  · rw [ha, h]
    exact rfl
  · rw [ha, h]
    exact ⟨some mgmt, resp, _, rfl, rfl, fun e he => ⟨resp, noack, List.mem_singleton.mp he⟩⟩

theorem buildApParams_events (env : Env) (conf : BssConf) :
    ReplyEvents
      (if env.beaconAlloc && env.probeRespOffload && env.respAlloc then some none else none)
      (ieee80211BuildApParams env conf).2 := by
  rcases buildApParams_cases env conf with ⟨ha, h⟩ | ⟨ha, resp, h, -⟩
  · rw [ha, h]
    exact rfl
  · rw [ha, h]
    exact ⟨none, resp, [], rfl, rfl, by simp⟩

/-- The events of a step, by the two functions. -/
theorem bss_step_events {i : Input} {conf conf' : BssConf} {es : List Event}
    (h : bss.step conf i = some (conf', es)) :
    ∃ xs ys, es = xs ++ ys ∧ StuffingEvents i.stuffedBy xs ∧ ReplyEvents i.answers ys := by
  cases i with
  | buildApParams env =>
      have heq : (ieee80211BuildApParams env conf).2 = es := congrArg Prod.snd (Option.some.inj h)
      exact ⟨[], es, rfl, rfl, heq ▸ buildApParams_events env conf⟩
  | probeReq env frame =>
      have heq := handleProbeReq_eq h
      simp only [Input.stuffedBy, Input.answers]
      cases ha : accepted env frame with
      | none =>
          rw [ha] at heq
          obtain ⟨-, rfl⟩ := Prod.mk.inj heq
          exact ⟨[], [], rfl, rfl, rfl⟩
      | some p =>
          obtain ⟨mgmt, elems⟩ := p
          rw [ha] at heq
          obtain ⟨-, rfl⟩ := Prod.mk.inj heq
          exact ⟨_, _, rfl, handleStuffing_events env mgmt.sa elems conf,
            handleReply_events env mgmt elems _⟩

/-! ## The owner of the pending ACK -/

def ownerStep (p : Option Mac) (i : Input) : Option Mac :=
  match i.answers with
  | some _ => none
  | none => i.stuffedBy.or p

/-- The station of the pending ACK after a schedule. -/
def owner (inputs : List Input) : Option Mac := inputs.foldl ownerStep none

theorem owner_snoc (inputs : List Input) (i : Input) :
    owner (inputs ++ [i]) = ownerStep (owner inputs) i := by
  simp [owner]

/-- Inputs that are neither stuffed nor answered leave the owner alone. -/
theorem foldl_ownerStep_quiet : ∀ {mid : List Input} {p : Option Mac},
    (∀ k ∈ mid, k.stuffedBy = none ∧ k.answers = none) → mid.foldl ownerStep p = p
  | [], _, _ => rfl
  | k :: mid, p, h => by
      obtain ⟨hs, ha⟩ := h k List.mem_cons_self
      have hk : ownerStep p k = p := by
        rw [ownerStep, ha, hs]
        exact Option.none_or
      rw [List.foldl_cons, hk]
      exact foldl_ownerStep_quiet fun k' hk' => h k' (List.mem_cons_of_mem k hk')

/-- A station owns the pending ACK when its request left one behind and nothing
since then was stuffed or answered. -/
theorem owner_eq_some_iff {inputs : List Input} {sa : Mac} :
    owner inputs = some sa ↔ ∃ pre i mid, inputs = pre ++ i :: mid ∧ i.stuffedBy = some sa ∧
      i.answers = none ∧ ∀ k ∈ mid, k.stuffedBy = none ∧ k.answers = none := by
  constructor
  · intro h
    induction inputs using List.reverseRecOn with
    | nil => cases h
    | append_singleton inputs j ih =>
        rw [owner_snoc, ownerStep] at h
        cases ha : j.answers with
        | some r => simp [ha] at h
        | none =>
            simp only [ha] at h
            cases hs : j.stuffedBy with
            | some sa' =>
                rw [hs, Option.some_or] at h
                obtain rfl := Option.some.inj h
                exact ⟨inputs, j, [], rfl, hs, ha, by simp⟩
            | none =>
                rw [hs, Option.none_or] at h
                obtain ⟨pre, i, mid, rfl, hi, hia, hmid⟩ := ih h
                refine ⟨pre, i, mid ++ [j], by simp, hi, hia, fun k hk => ?_⟩
                rcases List.mem_append.mp hk with hk | hk
                · exact hmid k hk
                · rw [List.mem_singleton.mp hk]
                  exact ⟨hs, ha⟩
  · rintro ⟨pre, i, mid, rfl, hi, hia, hmid⟩
    have hstep : ownerStep (owner pre) i = some sa := by
      rw [ownerStep, hia, hi]
      exact Option.some_or
    rw [owner, List.foldl_append, List.foldl_cons, foldl_ownerStep_quiet hmid]
    exact hstep

variable {tr es : List Event} {conf conf' : BssConf}

/-- The pending ACK behind the stuffing block. -/
theorem pendingAck_stuffing {s : Option Mac} {xs : List Event} (h : StuffingEvents s xs) :
    (pendingAck (tr ++ xs)).map Prod.fst = s.or ((pendingAck tr).map Prod.fst) := by
  cases s with
  | none =>
      obtain rfl : xs = [] := h
      rw [List.append_nil, Option.none_or]
  | some sa =>
      obtain ⟨x, cmd, status, rfl⟩ := h
      have hops : slotOps (tr ++ [.stuffed sa x, .systemCall cmd status]) =
          slotOps tr ++ [.put (sa, x)] := slotOps_append _ _
      rw [pendingAck, hops, pending_snoc_put]
      rfl

theorem pendingAck_reply {req : Option Mgmt} {resp : ProbeResp} {rest : List Event}
    (h : ∀ e ∈ rest, ∃ resp noack, e = .sendMlme resp noack) :
    pendingAck (tr ++ .probeResp req resp :: rest) = none := by
  have hrest : slotOps rest = [] := by
    rw [slotOps, List.filterMap_eq_nil_iff]
    intro e he
    obtain ⟨resp', noack, rfl⟩ := h e he
    rfl
  have hops : slotOps (tr ++ .probeResp req resp :: rest) = slotOps tr ++ [.take] := by
    rw [slotOps_append]
    exact congrArg (slotOps tr ++ .take :: ·) hrest
  rw [pendingAck, hops, pending_snoc_take]

/-- One step moves the owner as `ownerStep` says. -/
theorem owner_step {i : Input} (h : bss.step conf i = some (conf', es)) :
    (pendingAck (tr ++ es)).map Prod.fst = ownerStep ((pendingAck tr).map Prod.fst) i := by
  obtain ⟨xs, ys, rfl, hx, hy⟩ := bss_step_events h
  unfold ownerStep
  cases ha : i.answers with
  | none =>
      rw [ha] at hy
      obtain rfl : ys = [] := hy
      rw [List.append_nil]
      exact pendingAck_stuffing hx
  | some r =>
      rw [ha] at hy
      obtain ⟨req, resp, rest, rfl, -, hrest⟩ := hy
      rw [← List.append_assoc, pendingAck_reply hrest]
      rfl

theorem owner_run {inputs : List Input} (hrun : bss.run {} inputs = some (conf, tr)) :
    (pendingAck tr).map Prod.fst = owner inputs := by
  induction inputs using List.reverseRecOn generalizing conf tr with
  | nil =>
      obtain ⟨-, rfl⟩ := Machine.run_nil_iff.mp hrun
      rfl
  | append_singleton inputs i ih =>
      obtain ⟨conf₁, t₁, t₂, h1, h2, rfl⟩ := Machine.run_append_iff.mp hrun
      rw [owner_step (Machine.run_singleton_iff.mp h2), ih h1, owner_snoc]

/-! ## When the ACKs reach their stations -/

/-- A frame with an ACK is for a request of the station whose request it acknowledges. -/
def AcksOwner (pre : List Event) (e : Event) : Prop :=
  ∀ req resp, e = .probeResp req resp → resp.ackIe ≠ none →
    ∃ mgmt sa x, req = some mgmt ∧ lastStuffed pre = some (sa, x) ∧ mgmt.sa = sa

/-- Every ACK that a stuffed request leaves behind is taken by a frame for the
same station: when a stuffed request is not answered, and then an input that is
not stuffed is answered, with nothing stuffed or answered in between, this
answer is for the station of the stuffed request. -/
def FetchedByOwner (inputs : List Input) : Prop :=
  ∀ pre i mid j post sa r, inputs = pre ++ i :: mid ++ j :: post →
    i.stuffedBy = some sa → i.answers = none →
    (∀ k ∈ mid, k.stuffedBy = none ∧ k.answers = none) →
    j.stuffedBy = none → j.answers = some r → r = some sa

/-- An input is answered to the owner of the ACK that is pending then. -/
def AnswersOwner (pre : List Input) (j : Input) : Prop :=
  ∀ r sa, j.answers = some r → j.stuffedBy.or (owner pre) = some sa → r = some sa

/-- `FetchedByOwner`, through the owner of the pending ACK. -/
theorem fetchedByOwner_iff {inputs : List Input} :
    FetchedByOwner inputs ↔ Always AnswersOwner inputs := by
  constructor
  · intro h pre j post heq r sa hr hown
    cases hs : j.stuffedBy with
    | some sa' =>
        rw [hs, Option.some_or] at hown
        obtain rfl := Option.some.inj hown
        exact answers_of_stuffedBy hs hr
    | none =>
        rw [hs, Option.none_or] at hown
        obtain ⟨pre', i, mid, rfl, hi, hia, hmid⟩ := owner_eq_some_iff.mp hown
        exact h pre' i mid j post sa r heq hi hia hmid hs hr
  · intro h pre i mid j post sa r heq hi hia hmid hs hr
    have hown : owner (pre ++ i :: mid) = some sa :=
      owner_eq_some_iff.mpr ⟨pre, i, mid, rfl, hi, hia, hmid⟩
    exact h (pre ++ i :: mid) j post heq r sa hr (by rw [hs, hown]; rfl)

/-- For a frame that carries the pending ACK, what matters is the owner. -/
theorem acksOwner_iff {pre : List Event} {req : Option Mgmt} {resp : ProbeResp}
    (h : FrameOk pre (.probeResp req resp)) :
    AcksOwner pre (.probeResp req resp) ↔
      ∀ sa, (pendingAck pre).map Prod.fst = some sa → req.map Mgmt.sa = some sa := by
  obtain ⟨hack, -⟩ := h req resp rfl
  constructor
  · intro ho sa hsa
    obtain ⟨⟨sa', x⟩, hp, rfl⟩ := Option.map_eq_some_iff.mp hsa
    obtain ⟨mgmt, sa', x', rfl, hlast, rfl⟩ := ho req resp rfl (by simp [hack, hp])
    rw [lastStuffed, lastPut_of_pending hp] at hlast
    obtain ⟨rfl, -⟩ := Prod.mk.inj (Option.some.inj hlast)
    rfl
  · rintro ho req' resp' he hne
    obtain ⟨rfl, rfl⟩ := Event.probeResp.inj he
    cases hp : pendingAck pre with
    | none => simp [hack, hp] at hne
    | some p =>
        obtain ⟨mgmt, rfl, hsa⟩ := Option.map_eq_some_iff.mp (ho p.1 (by rw [hp]; rfl))
        exact ⟨mgmt, p.1, p.2, rfl, lastPut_of_pending hp, hsa⟩

/-- The stuffing block generates no frame. -/
theorem acksOwner_stuffing {s : Option Mac} {xs : List Event} (h : StuffingEvents s xs) :
    Always (fun pre => AcksOwner (tr ++ pre)) xs := by
  cases s with
  | none =>
      obtain rfl : xs = [] := h
      exact always_nil
  | some sa =>
      obtain ⟨x, cmd, status, rfl⟩ := h
      simp [AcksOwner]

/-- Of the events of a response, only the frame itself matters. -/
theorem acksOwner_reply {req : Option Mgmt} {resp : ProbeResp} {rest : List Event}
    (hframe : FrameOk tr (.probeResp req resp))
    (hrest : ∀ e ∈ rest, ∃ resp noack, e = .sendMlme resp noack) :
    Always (fun pre => AcksOwner (tr ++ pre)) (.probeResp req resp :: rest) ↔
      ∀ sa, (pendingAck tr).map Prod.fst = some sa → req.map Mgmt.sa = some sa := by
  have htail : Always (fun pre => AcksOwner (tr ++ .probeResp req resp :: pre)) rest := by
    intro pre e post hsplit req' resp' he
    obtain ⟨resp'', noack, rfl⟩ := hrest e (by simp [hsplit])
    cases he
  rw [always_cons, and_iff_left htail, List.append_nil, acksOwner_iff hframe]

/-- One step, judged by the owner before it. -/
theorem acksOwner_step {i : Input} (hstep : bss.step conf i = some (conf', es))
    (hframes : Always (fun pre => FrameOk (tr ++ pre)) es) :
    Always (fun pre => AcksOwner (tr ++ pre)) es ↔
      ∀ r sa, i.answers = some r → i.stuffedBy.or ((pendingAck tr).map Prod.fst) = some sa →
        r = some sa := by
  obtain ⟨xs, ys, rfl, hx, hy⟩ := bss_step_events hstep
  rw [always_append, and_iff_right (acksOwner_stuffing hx)]
  cases ha : i.answers with
  | none =>
      rw [ha] at hy
      obtain rfl : ys = [] := hy
      simp
  | some r =>
      rw [ha] at hy
      obtain ⟨req, resp, rest, rfl, rfl, hrest⟩ := hy
      have hframe : FrameOk (tr ++ xs) (.probeResp req resp) := by
        have h := (always_append.mp hframes).2
        rw [always_cons, List.append_nil] at h
        exact h.1
      have hreply := acksOwner_reply hframe hrest
      rw [pendingAck_stuffing hx] at hreply
      simp only [List.append_assoc] at hreply
      rw [hreply]
      constructor
      · rintro h r' sa hr hown
        obtain rfl := Option.some.inj hr
        exact h sa hown
      · intro h sa hown
        exact h _ sa rfl hown

/-- A run, judged by the owner before each input. -/
theorem acksOwner_run {inputs : List Input} (hrun : bss.run {} inputs = some (conf, tr)) :
    Always AcksOwner tr ↔ Always AnswersOwner inputs := by
  induction inputs using List.reverseRecOn generalizing conf tr with
  | nil =>
      obtain ⟨-, rfl⟩ := Machine.run_nil_iff.mp hrun
      simp
  | append_singleton inputs i ih =>
      have hframes := (slotInv_run hrun).frames
      obtain ⟨conf₁, t₁, t₂, h1, h2, rfl⟩ := Machine.run_append_iff.mp hrun
      have hstep := Machine.run_singleton_iff.mp h2
      rw [always_append, ih h1, acksOwner_step hstep (always_append.mp hframes).2, owner_run h1,
        always_append, always_singleton, List.append_nil]
      rfl

/-- The ACKs of a run reach their stations exactly when every ACK that is left
behind is fetched by its owner. -/
theorem bss_acks_reach_owner_iff {inputs : List Input}
    (hrun : bss.run {} inputs = some (conf, tr)) :
    Always AcksOwner tr ↔ FetchedByOwner inputs :=
  (acksOwner_run hrun).trans fetchedByOwner_iff.symm

/-- A stuffed request that is answered at once. -/
theorem bss_acks_reach_owner_at_once : ∃ conf tr,
    bss.run {} (oneRequest 0) = some (conf, tr) ∧ Always AcksOwner tr := by
  have hobs : (bss.run {} (oneRequest 0)).isSome = true := by decide
  obtain ⟨⟨conf, tr⟩, hrun⟩ := Option.isSome_iff_exists.mp hobs
  refine ⟨conf, tr, hrun, (bss_acks_reach_owner_iff hrun).mpr ?_⟩
  intro pre i mid j post sa r heq
  have hlen := congrArg List.length heq
  simp only [oneRequest, List.length_append, List.length_cons, List.length_nil] at hlen
  omega

/-- A stuffed request of station 7 without an SSID, then a plain request of station 9. -/
def twoStations : List Input :=
  [.probeReq {} (broadcastProbe 7 headerSeven), .probeReq {} (broadcastProbe 9 ssidAndRates)]

/-- Station 7 gets no answer; the answer to station 9 then carries the ACK. -/
theorem bss_ack_to_stranger : ∃ inputs conf tr,
    bss.run {} inputs = some (conf, tr) ∧ ¬ Always AcksOwner tr := by
  have hobs : (bss.run {} twoStations).isSome = true := by decide
  obtain ⟨⟨conf, tr⟩, hrun⟩ := Option.isSome_iff_exists.mp hobs
  refine ⟨twoStations, conf, tr, hrun, fun h => ?_⟩
  have hsame := (acksOwner_run hrun).mp h [.probeReq {} (broadcastProbe 7 headerSeven)]
    (.probeReq {} (broadcastProbe 9 ssidAndRates)) [] rfl (some ⟨2, 0, 0, 0, 0, 9⟩)
    ⟨2, 0, 0, 0, 0, 7⟩ (by decide) (by decide)
  exact absurd hsame (by decide)

end ProbeStuffing.Ap

import ProbeStuffing.Ap.ProbeReq
import ProbeStuffing.Lib.Mailbox

/-!
# The pending ACK of a BSS

`probe_resp_ack_ie` is a one-slot mailbox: a stuffed request puts its ACK there,
and every frame of `hostapd_gen_probe_resp` takes what it finds.  `slotOps`
reads the mailbox operations off a trace, and `SlotInv` says that the pointer is
what the mailbox holds and that every frame carries what it took.  All paths of
the two handlers keep it (`slotInv_step`), the early returns because they touch
neither the pointer nor the trace.

The theorems at the end then follow from facts about mailboxes: the ACK of a
frame is that of the last stuffed request, one stuffed request is acknowledged
at most once, and its record has been forwarded before.
-/

namespace ProbeStuffing.Ap

open CString Tlv Trace Mailbox

/-! ## The slot as a mailbox -/

/-- The mailbox operation of an event. -/
def Event.slotOp : Event → Option (Op (Mac × Received))
  | .stuffed sa x => some (.put (sa, x))
  | .probeResp _ _ => some .take
  | .systemCall _ _ => none
  | .sendMlme _ _ => none

def slotOps (tr : List Event) : List (Op (Mac × Received)) := tr.filterMap Event.slotOp

@[simp] theorem slotOps_append (xs ys : List Event) :
    slotOps (xs ++ ys) = slotOps xs ++ slotOps ys := List.filterMap_append

/-- The stuffed request whose ACK is pending after a trace. -/
def pendingAck (tr : List Event) : Option (Mac × Received) := pending (slotOps tr)

/-- The stuffed request that was processed last. -/
def lastStuffed (tr : List Event) : Option (Mac × Received) := lastPut (slotOps tr)

/-- The record of the last stuffed request went to `system` right behind its processing. -/
def Forwarded (tr : List Event) : Prop :=
  ∀ sa x, lastStuffed tr = some (sa, x) → ∃ pre ts status post,
    tr = pre ++ .stuffed sa x :: .systemCall (command (x.csv ts)) status :: post ∧
      ∀ sa' x', Event.stuffed sa' x' ∉ post

/-- A frame carries the pending ACK, and what it acknowledges has been forwarded. -/
def FrameOk (pre : List Event) (e : Event) : Prop :=
  ∀ req resp, e = .probeResp req resp →
    (resp.ackIe = (pendingAck pre).map fun p => p.2.ieAck) ∧ Forwarded pre

/-- The invariant of a BSS. -/
structure SlotInv (tr : List Event) (conf : BssConf) : Prop where
  slot : conf.probeRespAckIe = (pendingAck tr).map fun p => p.2.ieAck
  frames : Always FrameOk tr
  forwarded : Forwarded tr

theorem slotInv_init : SlotInv [] {} := ⟨rfl, always_nil, fun _ _ h => nomatch h⟩

/-! ## One handler after the other -/

/-- What the stuffing block does, in both cases. -/
theorem handleStuffing_cases (env : Env) (sa : Mac) (elems : Elems) (conf : BssConf) :
    let found := extract sa (elems.stuffedData.take elems.nStuffedIes.toNat) env.heap
    (found = none ∧ handleStuffing env sa elems conf = (conf, [])) ∨
      ∃ x, found = some x ∧ handleStuffing env sa elems conf =
        ({ conf with probeRespAckIe := some x.ieAck },
          [.stuffed sa x,
            .systemCall (command (x.csv (apTimestampStr env.tvSec env.tvUsec)))
              env.systemStatus]) := by
  unfold handleStuffing
  cases extract sa (elems.stuffedData.take elems.nStuffedIes.toNat) env.heap with
  | none => exact .inl ⟨rfl, rfl⟩
  | some x => exact .inr ⟨x, rfl, rfl⟩

/-- What `hostapd_gen_probe_resp` does to the slot. -/
theorem genProbeResp_cases (env : Env) (req : Option Mgmt) (isP2p : Bool) (conf : BssConf) :
    (env.respAlloc = false ∧ hostapdGenProbeResp env req isP2p conf = (conf, none)) ∨
      env.respAlloc = true ∧ ∃ resp,
        hostapdGenProbeResp env req isP2p conf = ({ probeRespAckIe := none }, some resp) ∧
        resp.ackIe = conf.probeRespAckIe ∧ resp.da = (req.map Mgmt.sa).getD ⟨0, 0, 0, 0, 0, 0⟩ := by
  unfold hostapdGenProbeResp
  cases env.respAlloc with
  | false => exact .inl ⟨rfl, rfl⟩
  | true => exact .inr ⟨rfl, _, rfl, rfl, rfl⟩

/-- Whether a request gets a response, and what that does to the slot. -/
theorem handleReply_cases (env : Env) (mgmt : Mgmt) (elems : Elems) (conf : BssConf) :
    let answered := (replyChecks env mgmt elems).isSome && env.respAlloc
    (answered = false ∧ handleReply env mgmt elems conf = (conf, [])) ∨
      answered = true ∧ ∃ resp noack, handleReply env mgmt elems conf =
          ({ probeRespAckIe := none }, [.probeResp (some mgmt) resp, .sendMlme resp noack]) ∧
        resp.ackIe = conf.probeRespAckIe ∧ resp.da = mgmt.sa := by
  unfold handleReply
  cases replyChecks env mgmt elems with
  | none => exact .inl ⟨rfl, rfl⟩
  | some res =>
      rcases genProbeResp_cases env (some mgmt) elems.p2p.isSome conf with
        ⟨hr, h⟩ | ⟨hr, resp, h, hack, hda⟩
      · rw [h]
        exact .inl ⟨hr, rfl⟩
      · rw [h]
        exact .inr ⟨hr, resp, _, rfl, hack, hda⟩

/-- Whether the beacon comes with a template, and what that does to the slot. -/
theorem buildApParams_cases (env : Env) (conf : BssConf) :
    let template := env.beaconAlloc && env.probeRespOffload && env.respAlloc
    (template = false ∧ ieee80211BuildApParams env conf = (conf, [])) ∨
      template = true ∧ ∃ resp, ieee80211BuildApParams env conf =
          ({ probeRespAckIe := none }, [.probeResp none resp]) ∧
        resp.ackIe = conf.probeRespAckIe := by
  unfold ieee80211BuildApParams
  cases env.beaconAlloc with
  | false => exact .inl ⟨rfl, rfl⟩
  | true =>
      cases env.probeRespOffload with
      | false => exact .inl ⟨rfl, rfl⟩
      | true =>
          rcases genProbeResp_cases env none false conf with ⟨hr, h⟩ | ⟨hr, resp, h, hack, -⟩
          · rw [h]
            exact .inl ⟨hr, rfl⟩
          · rw [h]
            exact .inr ⟨hr, resp, rfl, hack⟩

variable {tr : List Event} {conf : BssConf}

/-- Events that process no stuffed request keep the last one forwarded. -/
theorem forwarded_append {es : List Event} (h : Forwarded tr)
    (hes : ∀ sa x, Event.stuffed sa x ∉ es) : Forwarded (tr ++ es) := by
  have hops : ∀ op ∈ slotOps es, op = .take := by
    intro op hop
    obtain ⟨e, he, hop⟩ := List.mem_filterMap.mp hop
    cases e with
    | stuffed sa x => exact absurd he (hes sa x)
    | probeResp _ _ => exact (Option.some.inj hop).symm
    | systemCall _ _ => cases hop
    | sendMlme _ _ => cases hop
  intro sa x hlast
  rw [lastStuffed, slotOps_append, lastPut_append_takes hops] at hlast
  obtain ⟨pre, ts, status, post, rfl, hpost⟩ := h sa x hlast
  refine ⟨pre, ts, status, post ++ es, by simp, fun sa' x' hmem => ?_⟩
  rcases List.mem_append.mp hmem with hm | hm
  · exact hpost sa' x' hm
  · exact hes sa' x' hm

theorem slotInv_stuffed (h : SlotInv tr conf) (sa : Mac) (x : Received) (ts : Bytes)
    (status : Int) :
    SlotInv (tr ++ [.stuffed sa x, .systemCall (command (x.csv ts)) status])
      { conf with probeRespAckIe := some x.ieAck } := by
  have hops : slotOps (tr ++ [.stuffed sa x, .systemCall (command (x.csv ts)) status]) =
      slotOps tr ++ [.put (sa, x)] := slotOps_append _ _
  refine ⟨?_, always_append.mpr ⟨h.frames, ?_⟩, ?_⟩
  · rw [pendingAck, hops, pending_snoc_put]
    rfl
  · simp [FrameOk]
  · intro sa' x' hlast
    rw [lastStuffed, hops, lastPut_snoc_put] at hlast
    obtain ⟨rfl, rfl⟩ := Prod.mk.inj (Option.some.inj hlast)
    exact ⟨tr, ts, status, [], rfl, by simp⟩

/-- A frame empties the slot, and carries what was there. -/
theorem slotInv_probeResp (h : SlotInv tr conf) {req : Option Mgmt} {resp : ProbeResp}
    (hack : resp.ackIe = conf.probeRespAckIe) :
    SlotInv (tr ++ [.probeResp req resp]) { probeRespAckIe := none } := by
  refine ⟨?_, always_append.mpr ⟨h.frames, ?_⟩, forwarded_append h.forwarded (by simp)⟩
  · have hops : slotOps (tr ++ [.probeResp req resp]) = slotOps tr ++ [.take] :=
      slotOps_append _ _
    rw [pendingAck, hops, pending_snoc_take]
    rfl
  · rw [always_singleton, List.append_nil]
    rintro req' resp' he
    obtain ⟨-, rfl⟩ := Event.probeResp.inj he
    exact ⟨hack.trans h.slot, h.forwarded⟩

theorem slotInv_sendMlme (h : SlotInv tr conf) (resp : ProbeResp) (noack : Bool) :
    SlotInv (tr ++ [.sendMlme resp noack]) conf := by
  refine ⟨?_, always_append.mpr ⟨h.frames, by simp [FrameOk]⟩,
    forwarded_append h.forwarded (by simp)⟩
  have hops : slotOps (tr ++ [.sendMlme resp noack]) = slotOps tr ++ [] := slotOps_append _ _
  rw [pendingAck, hops, List.append_nil]
  exact h.slot

theorem slotInv_handleStuffing (h : SlotInv tr conf) (env : Env) (sa : Mac) (elems : Elems) :
    SlotInv (tr ++ (handleStuffing env sa elems conf).2) (handleStuffing env sa elems conf).1 := by
  rcases handleStuffing_cases env sa elems conf with ⟨-, heq⟩ | ⟨x, -, heq⟩
  · rw [heq, List.append_nil]
    exact h
  · rw [heq]
    exact slotInv_stuffed h sa x _ _

theorem slotInv_handleReply (h : SlotInv tr conf) (env : Env) (mgmt : Mgmt) (elems : Elems) :
    SlotInv (tr ++ (handleReply env mgmt elems conf).2) (handleReply env mgmt elems conf).1 := by
  rcases handleReply_cases env mgmt elems conf with ⟨-, heq⟩ | ⟨-, resp, noack, heq, hack, -⟩
  · rw [heq, List.append_nil]
    exact h
  · rw [heq]
    have hresp : SlotInv (tr ++ [.probeResp (some mgmt) resp]) { probeRespAckIe := none } :=
      slotInv_probeResp h hack
    have hsent := slotInv_sendMlme hresp resp noack
    rwa [List.append_assoc] at hsent

/-! ## Requests that reach the stuffing block -/

/-- The header and the elements of a request that reaches the stuffing block. -/
def accepted (env : Env) (frame : Bytes) : Option (Mgmt × Elems) :=
  match Mgmt.ofBytes frame with
  | none => none
  | some mgmt =>
      if env.probereqCb || !env.sendProbeResponse then none
      else
        match ieee80211ParseElems mgmt.ie with
        | (.parseFailed, _) => none
        | (_, elems) => some (mgmt, elems)

/-- `handle_probe_req` drops a request that is not accepted, and runs the two
blocks one after the other on the others. -/
theorem handleProbeReq_eq {env : Env} {frame : Bytes} {r : BssConf × List Event}
    (h : handleProbeReq env frame conf = some r) :
    r = match accepted env frame with
      | none => (conf, [])
      | some (mgmt, elems) =>
          let stuffing := handleStuffing env mgmt.sa elems conf
          let reply := handleReply env mgmt elems stuffing.1
          (reply.1, stuffing.2 ++ reply.2) := by
  unfold handleProbeReq at h
  unfold accepted
  cases hm : Mgmt.ofBytes frame with
  | none =>
      rw [hm] at h
      exact (Option.some.inj h).symm
  | some mgmt =>
      rw [hm] at h
      cases hcb : env.probereqCb with
      | true =>
          rw [hcb] at h
          exact (Option.some.inj h).symm
      | false =>
          cases hsend : env.sendProbeResponse with
          | false =>
              rw [hcb, hsend] at h
              exact (Option.some.inj h).symm
          | true =>
              rw [hcb, hsend] at h
              rcases hp : ieee80211ParseElems mgmt.ie with ⟨res, elems⟩
              simp only [hp, Bool.not_true, Bool.or_self, Bool.false_eq_true, if_false] at h ⊢
              split at h
              · cases h
              · cases res with
                | parseFailed => exact (Option.some.inj h).symm
                | parseOK => exact (Option.some.inj h).symm
                | parseUnknown => exact (Option.some.inj h).symm

/-- A request is accepted when nothing drops it and the parser does not fail, and
its elements are what the parser makes of the frame. -/
theorem accepted_iff {env : Env} {frame : Bytes} {mgmt : Mgmt} {elems : Elems} :
    accepted env frame = some (mgmt, elems) ↔
      Mgmt.ofBytes frame = some mgmt ∧ env.probereqCb = false ∧ env.sendProbeResponse = true ∧
        (ieee80211ParseElems mgmt.ie).1 ≠ .parseFailed ∧
        elems = (ieee80211ParseElems mgmt.ie).2 := by
  constructor
  · intro h
    rw [accepted] at h
    split at h
    · cases h
    · next m hm =>
        split at h
        · cases h
        · next hdrop =>
            split at h
            · cases h
            · next res elems' hres hp =>
                obtain ⟨rfl, rfl⟩ := Prod.mk.inj (Option.some.inj h)
                simp only [Bool.or_eq_true, not_or, Bool.not_eq_true, Bool.not_eq_false'] at hdrop
                rw [hp]
                exact ⟨hm, hdrop.1, hdrop.2, hres, rfl⟩
  · rintro ⟨hm, hcb, hsend, hres, rfl⟩
    rcases hp : ieee80211ParseElems mgmt.ie with ⟨res, elems⟩
    rw [hp] at hres
    cases res with
    | parseFailed => exact absurd rfl hres
    | _ => simp [accepted, hm, hcb, hsend, hp]

/-- An accepted request with ten stuffing elements or less is handled. -/
theorem handleProbeReq_of_accepted {env : Env} {frame : Bytes} {mgmt : Mgmt} {elems : Elems}
    (h : accepted env frame = some (mgmt, elems)) (hover : ¬ elems.overrun) (conf : BssConf) :
    handleProbeReq env frame conf =
      let stuffing := handleStuffing env mgmt.sa elems conf
      let reply := handleReply env mgmt elems stuffing.1
      some (reply.1, stuffing.2 ++ reply.2) := by
  obtain ⟨hm, hcb, hsend, hres, rfl⟩ := accepted_iff.mp h
  simp [handleProbeReq, hm, hcb, hsend, hover, hres]

/-- A request with at most ten stuffing elements, or any request that is dropped
before they are recorded. -/
def WithinTen : Input → Prop
  | .probeReq _ frame =>
      ¬ (Mgmt.ofBytes frame).any fun mgmt => decide (ieee80211ParseElems mgmt.ie).2.overrun
  | .buildApParams _ => True

instance : DecidablePred WithinTen
  | .probeReq _ _ => inferInstanceAs (Decidable (¬ _))
  | .buildApParams _ => inferInstanceAs (Decidable True)

/-- Ten elements or less, and the step is defined. -/
theorem bss_step_defined {i : Input} (h : WithinTen i) (conf : BssConf) :
    ∃ r, bss.step conf i = some r := by
  cases i with
  | buildApParams env => exact ⟨_, rfl⟩
  | probeReq env frame =>
      simp only [bss, handleProbeReq]
      cases hm : Mgmt.ofBytes frame with
      | none => exact ⟨_, rfl⟩
      | some mgmt =>
          have hover : ¬ (ieee80211ParseElems mgmt.ie).2.overrun := by
            simpa [WithinTen, hm] using h
          simp only [hover, if_false]
          split
          · exact ⟨_, rfl⟩
          · split
            · exact ⟨_, rfl⟩
            · split <;> exact ⟨_, rfl⟩

/-! ## Runs -/

theorem slotInv_step {pre : List Event} {i : Input} {conf' : BssConf} {es : List Event}
    (h : SlotInv pre conf) (hstep : bss.step conf i = some (conf', es)) :
    SlotInv (pre ++ es) conf' := by
  cases i with
  | buildApParams env =>
      have heq : ieee80211BuildApParams env conf = (conf', es) := Option.some.inj hstep
      rcases buildApParams_cases env conf with ⟨-, hb⟩ | ⟨-, resp, hb, hack⟩
      · obtain ⟨rfl, rfl⟩ := Prod.mk.inj (hb.symm.trans heq)
        rwa [List.append_nil]
      · obtain ⟨rfl, rfl⟩ := Prod.mk.inj (hb.symm.trans heq)
        exact slotInv_probeResp h hack
  | probeReq env frame =>
      have heq := handleProbeReq_eq hstep
      cases ha : accepted env frame with
      | none =>
          rw [ha] at heq
          obtain ⟨rfl, rfl⟩ := Prod.mk.inj heq
          rwa [List.append_nil]
      | some p =>
          obtain ⟨mgmt, elems⟩ := p
          rw [ha] at heq
          obtain ⟨rfl, rfl⟩ := Prod.mk.inj heq
          rw [← List.append_assoc]
          exact slotInv_handleReply (slotInv_handleStuffing h env mgmt.sa elems) env mgmt elems

theorem slotInv_run {inputs : List Input} (hrun : bss.run {} inputs = some (conf, tr)) :
    SlotInv tr conf :=
  Machine.run_history (I := SlotInv) (fun _ _ _ _ _ h hstep => slotInv_step h hstep) slotInv_init
    hrun

/-! ## Stuffed requests of the inputs -/

/-- The bodies of the stuffing elements that the parser has recorded. -/
def Elems.recorded (elems : Elems) : List Bytes := elems.stuffedData.take elems.nStuffedIes.toNat

/-- The stuffed request of an input, as it is read from the frame. -/
def Input.stuffing : Input → Option (Mac × Received)
  | .probeReq env frame =>
      (accepted env frame).bind fun p =>
        (extract p.1.sa p.2.recorded env.heap).map fun x => (p.1.sa, x)
  | .buildApParams _ => none

/-- The sequence field of a stuffed request: eight bytes behind the OUI and the type of
its first stuffing element. -/
def Input.sequenceField : Input → Option Bytes
  | .probeReq env frame =>
      (accepted env frame).bind fun p =>
        p.2.recorded.head?.map fun header => strncpy (header.drop 3 ++ 0 :: env.heap) 8
  | .buildApParams _ => none

def Event.stuffing : Event → Option (Mac × Received)
  | .stuffed sa x => some (sa, x)
  | _ => none

/-- The number that `extract` finds is the sequence field. -/
theorem sequenceField_eq (i : Input) :
    i.sequenceField = i.stuffing.map fun p => p.2.seqNumStr := by
  cases i with
  | buildApParams env => rfl
  | probeReq env frame =>
      simp only [Input.sequenceField, Input.stuffing]
      cases accepted env frame with
      | none => rfl
      | some p =>
          simp only [Option.bind_some]
          cases p.2.recorded with
          | nil => rfl
          | cons header rest => rfl

theorem handleReply_not_stuffed (env : Env) (mgmt : Mgmt) (elems : Elems) (conf : BssConf) :
    (handleReply env mgmt elems conf).2.filterMap Event.stuffing = [] := by
  rcases handleReply_cases env mgmt elems conf with ⟨-, heq⟩ | ⟨-, resp, noack, heq, -⟩
  · rw [heq]
    rfl
  · rw [heq]
    rfl

/-- A step processes the stuffed request of its input, if there is one. -/
theorem stuffing_step {i : Input} {conf' : BssConf} {es : List Event}
    (hstep : bss.step conf i = some (conf', es)) :
    es.filterMap Event.stuffing = i.stuffing.toList := by
  cases i with
  | buildApParams env =>
      have heq : ieee80211BuildApParams env conf = (conf', es) := Option.some.inj hstep
      rcases buildApParams_cases env conf with ⟨-, hb⟩ | ⟨-, resp, hb, -⟩
      · obtain ⟨-, rfl⟩ := Prod.mk.inj (hb.symm.trans heq)
        rfl
      · obtain ⟨-, rfl⟩ := Prod.mk.inj (hb.symm.trans heq)
        rfl
  | probeReq env frame =>
      have heq := handleProbeReq_eq hstep
      simp only [Input.stuffing]
      cases ha : accepted env frame with
      | none =>
          rw [ha] at heq
          obtain ⟨-, rfl⟩ := Prod.mk.inj heq
          rfl
      | some p =>
          obtain ⟨mgmt, elems⟩ := p
          rw [ha] at heq
          obtain ⟨-, rfl⟩ := Prod.mk.inj heq
          rw [List.filterMap_append, handleReply_not_stuffed, List.append_nil]
          rcases handleStuffing_cases env mgmt.sa elems conf with ⟨hx, hs⟩ | ⟨x, hx, hs⟩
          · rw [hs, Option.bind_some, Elems.recorded, hx]
            rfl
          · rw [hs, Option.bind_some, Elems.recorded, hx]
            rfl

/-- The stuffed requests that a run processes are those of its inputs, in order. -/
theorem stuffing_run {inputs : List Input} (hrun : bss.run {} inputs = some (conf, tr)) :
    tr.filterMap Event.stuffing = inputs.filterMap Input.stuffing :=
  Machine.run_filterMap (fun _ _ _ _ hstep => stuffing_step hstep) hrun

/-- The command runs for the stuffed request of an input, at the time of its clock. -/
def ForwardsInput (inputs : List Input) (sa : Mac) (x : Received) (ts : Bytes) (status : Int) :
    Prop :=
  ∃ env frame, Input.probeReq env frame ∈ inputs ∧
    (Input.probeReq env frame).stuffing = some (sa, x) ∧
    ts = apTimestampStr env.tvSec env.tvUsec ∧ status = env.systemStatus

/-- What `system` runs is the record of the stuffed request just processed. -/
def CallOk (inputs : List Input) (pre : List Event) (e : Event) : Prop :=
  ∀ cmd status, e = .systemCall cmd status → ∃ pre' sa x ts, pre = pre' ++ [.stuffed sa x] ∧
    cmd = command (x.csv ts) ∧ ForwardsInput inputs sa x ts status

theorem callOk_of_no_call {inputs : List Input} {pre es : List Event}
    (h : ∀ cmd status, Event.systemCall cmd status ∉ es) :
    Always (fun past => CallOk inputs (pre ++ past)) es := by
  intro past e post hsplit cmd status he
  refine absurd ?_ (h cmd status)
  rw [hsplit, he]
  simp

theorem callOk_step {inputs : List Input} {pre : List Event} {i : Input} {conf' : BssConf}
    {es : List Event} (hi : i ∈ inputs) (hstep : bss.step conf i = some (conf', es)) :
    Always (fun past => CallOk inputs (pre ++ past)) es := by
  cases i with
  | buildApParams env =>
      have heq : ieee80211BuildApParams env conf = (conf', es) := Option.some.inj hstep
      rcases buildApParams_cases env conf with ⟨-, hb⟩ | ⟨-, resp, hb, -⟩
      · obtain ⟨-, rfl⟩ := Prod.mk.inj (hb.symm.trans heq)
        exact always_nil
      · obtain ⟨-, rfl⟩ := Prod.mk.inj (hb.symm.trans heq)
        exact callOk_of_no_call (by simp)
  | probeReq env frame =>
      have heq := handleProbeReq_eq hstep
      cases ha : accepted env frame with
      | none =>
          rw [ha] at heq
          obtain ⟨-, rfl⟩ := Prod.mk.inj heq
          exact always_nil
      | some p =>
          obtain ⟨mgmt, elems⟩ := p
          rw [ha] at heq
          obtain ⟨-, rfl⟩ := Prod.mk.inj heq
          refine always_append.mpr ⟨?_, ?_⟩
          · rcases handleStuffing_cases env mgmt.sa elems conf with ⟨-, hs⟩ | ⟨x, hx, hs⟩
            · rw [hs]
              exact always_nil
            · have hstuffing : (Input.probeReq env frame).stuffing = some (mgmt.sa, x) := by
                simp [Input.stuffing, ha, Elems.recorded, hx]
              rw [hs, always_cons, always_singleton]
              refine ⟨by simp [CallOk], fun cmd status he => ?_⟩
              obtain ⟨rfl, rfl⟩ := Event.systemCall.inj he
              exact ⟨pre, mgmt.sa, x, _, rfl, rfl, env, frame, hi, hstuffing, rfl, rfl⟩
          · simp only [← List.append_assoc]
            refine callOk_of_no_call fun cmd status hmem => ?_
            rcases handleReply_cases env mgmt elems
              (handleStuffing env mgmt.sa elems conf).1 with ⟨-, hr⟩ | ⟨-, resp, noack, hr, -⟩
            · simp [hr] at hmem
            · simp [hr] at hmem

theorem callOk_run {inputs : List Input} (hrun : bss.run {} inputs = some (conf, tr)) :
    Always (CallOk inputs) tr :=
  Machine.run_invariant (P := (· ∈ inputs)) (I := fun tr _ => Always (CallOk inputs) tr)
    (fun _ _ _ _ _ h hi hstep => always_append.mpr ⟨h, callOk_step hi hstep⟩) always_nil
    (fun _ hi => hi) hrun

/-! ## What the frames acknowledge -/

/-- A frame with an ACK element. -/
def Event.carriesAck : Event → Bool
  | .probeResp _ resp => resp.ackIe.isSome
  | _ => false

def Event.isStuffed : Event → Bool
  | .stuffed _ _ => true
  | _ => false

theorem Event.eq_of_carriesAck {e : Event} (h : e.carriesAck = true) :
    ∃ req resp ie, e = .probeResp req resp ∧ resp.ackIe = some ie := by
  cases e with
  | probeResp req resp =>
      obtain ⟨ie, hie⟩ := Option.isSome_iff_exists.mp h
      exact ⟨req, resp, ie, rfl, hie⟩
  | stuffed _ _ => cases h
  | systemCall _ _ => cases h
  | sendMlme _ _ => cases h

/-- The ACK element of a frame is that of the last stuffed request, and it is pending. -/
theorem FrameOk.pending {pre : List Event} {req : Option Mgmt} {resp : ProbeResp} {ie : Bytes}
    (h : FrameOk pre (.probeResp req resp)) (hie : resp.ackIe = some ie) :
    ∃ sa x, pendingAck pre = some (sa, x) ∧ lastStuffed pre = some (sa, x) ∧ ie = x.ieAck := by
  obtain ⟨hack, -⟩ := h req resp rfl
  rw [hie] at hack
  obtain ⟨⟨sa, x⟩, hp, rfl⟩ := Option.map_eq_some_iff.mp hack.symm
  exact ⟨sa, x, hp, lastPut_of_pending hp, rfl⟩

/-- Between two frames with an ACK a stuffed request is processed. -/
theorem stuffed_between (h : Always FrameOk tr) {pre mid post : List Event} {e₁ e₂ : Event}
    (htr : tr = pre ++ e₁ :: mid ++ e₂ :: post) (h₁ : e₁.carriesAck = true)
    (h₂ : e₂.carriesAck = true) : ∃ sa x, Event.stuffed sa x ∈ mid := by
  obtain ⟨req₁, resp₁, -, rfl, -⟩ := Event.eq_of_carriesAck h₁
  obtain ⟨req₂, resp₂, ie, rfl, hie⟩ := Event.eq_of_carriesAck h₂
  obtain ⟨sa, x, hp, -⟩ := (h _ _ post htr).pending hie
  have hops : slotOps (pre ++ .probeResp req₁ resp₁ :: mid) =
      slotOps pre ++ .take :: slotOps mid := slotOps_append pre _
  rw [pendingAck, hops] at hp
  obtain ⟨e, he, hop⟩ := List.mem_filterMap.mp (exists_put_between hp)
  cases e with
  | stuffed sa' x' => exact ⟨sa', x', he⟩
  | probeResp _ _ => cases hop
  | systemCall _ _ => cases hop
  | sendMlme _ _ => cases hop

theorem puts_slotOps (tr : List Event) : puts (slotOps tr) = tr.countP Event.isStuffed := by
  induction tr with
  | nil => rfl
  | cons e tr ih =>
      rw [← List.singleton_append, slotOps_append, puts_append, List.countP_append, ih]
      cases e <;> rfl

/-- The frames with an ACK are the deliveries of the mailbox. -/
theorem delivered_slotOps (h : Always FrameOk tr) :
    delivered (slotOps tr) = tr.countP Event.carriesAck := by
  induction tr using List.reverseRecOn with
  | nil => rfl
  | append_singleton tr e ih =>
      obtain ⟨htr, he⟩ := always_append.mp h
      rw [slotOps_append, List.countP_append, ← ih htr]
      cases e with
      | probeResp req resp =>
          rw [always_singleton, List.append_nil] at he
          obtain ⟨hack, -⟩ := he req resp rfl
          have hlen : (pending (slotOps tr)).toList.length = resp.ackIe.toList.length := by
            rw [hack, pendingAck]
            cases pending (slotOps tr) <;> rfl
          refine (delivered_snoc_take _).trans ?_
          rw [hlen]
          cases hr : resp.ackIe <;> simp [Event.carriesAck, hr]
      | stuffed sa x => exact delivered_snoc_put _ _
      | systemCall cmd status => exact congrArg delivered (List.append_nil _)
      | sendMlme resp noack => exact congrArg delivered (List.append_nil _)

/-! ## Main results -/

/-- In every run of requests with at most ten stuffing elements, the stuffed requests
processed are those of the inputs, and their numbers are the sequence fields.  The
ACK element of a frame has the number of the last processed stuffed request as its
payload, and the frames with an ACK are separated by stuffed requests, so there are
at most as many of them. -/
theorem bss_ack_of_last_stuffed {inputs : List Input} (hin : ∀ i ∈ inputs, WithinTen i) :
    ∃ conf tr, bss.run {} inputs = some (conf, tr) ∧
      tr.filterMap Event.stuffing = inputs.filterMap Input.stuffing ∧
      (∀ i ∈ inputs, i.sequenceField = i.stuffing.map fun p => p.2.seqNumStr) ∧
      Always (fun pre e => ∀ req resp ie, e = .probeResp req resp → resp.ackIe = some ie →
        ∃ sa x, lastStuffed pre = some (sa, x) ∧ ie.drop 5 = fmtInt (atoi x.seqNumStr)) tr ∧
      (∀ pre e₁ mid e₂ post, tr = pre ++ e₁ :: mid ++ e₂ :: post → e₁.carriesAck = true →
        e₂.carriesAck = true → ∃ sa x, Event.stuffed sa x ∈ mid) ∧
      tr.countP Event.carriesAck ≤ tr.countP Event.isStuffed := by
  obtain ⟨⟨conf, tr⟩, hrun⟩ := Machine.run_defined (fun conf _ h => bss_step_defined h conf)
    inputs {} hin
  have hinv := slotInv_run hrun
  refine ⟨conf, tr, hrun, stuffing_run hrun, fun i _ => sequenceField_eq i, ?_, ?_, ?_⟩
  · refine hinv.frames.imp fun pre e h req resp ie he hie => ?_
    rw [he] at h
    obtain ⟨sa, x, -, hlast, rfl⟩ := h.pending hie
    exact ⟨sa, x, hlast, rfl⟩
  · intro pre e₁ mid e₂ post htr h₁ h₂
    exact stuffed_between hinv.frames htr h₁ h₂
  · rw [← delivered_slotOps hinv.frames, ← puts_slotOps]
    exact delivered_le_puts _

/-- A stuffed request, a dropped one, a template and a plain request. -/
def fourSteps : List Input :=
  [.probeReq {} (broadcastProbe 7 (ssidAndRates ++ headerSeven)),
    .probeReq {} (broadcastProbe 8 headerSeven), .buildApParams { probeRespOffload := true },
    .probeReq {} (broadcastProbe 9 ssidAndRates)]

theorem bss_ack_of_last_stuffed_four_steps : ∃ conf tr,
    bss.run {} fourSteps = some (conf, tr) ∧ tr.countP Event.carriesAck = 2 ∧
      tr.countP Event.carriesAck ≤ tr.countP Event.isStuffed := by
  have hin : ∀ i ∈ fourSteps, WithinTen i := by decide
  obtain ⟨conf, tr, hrun, -, -, -, -, hcount⟩ := bss_ack_of_last_stuffed hin
  refine ⟨conf, tr, hrun, ?_, hcount⟩
  have hacks : (bss.run {} fourSteps).map (fun r => r.2.countP Event.carriesAck) = some 2 := by
    decide
  rw [hrun] at hacks
  exact Option.some.inj hacks

/-- A frame acknowledges a request whose record went to the command of `system`
before, and that command is `ok`. -/
def AcksForwarded (ok : Mac → Received → Bytes → Int → Prop) (pre : List Event) (e : Event) :
    Prop :=
  ∀ req resp ie, e = .probeResp req resp → resp.ackIe = some ie →
    ∃ pre₁ sa x ts status post,
      pre = pre₁ ++ .stuffed sa x :: .systemCall (command (x.csv ts)) status :: post ∧
        (∀ sa' x', Event.stuffed sa' x' ∉ post) ∧ ie = x.ieAck ∧ ok sa x ts status

/-- A frame with an ACK is generated only after the command with the record of
the acknowledged request has been run and has returned, with any status.  The request
is that of an input, and the record has the time of its clock. -/
theorem bss_forwards_before_ack {inputs : List Input}
    (hrun : bss.run {} inputs = some (conf, tr)) :
    Always (AcksForwarded (ForwardsInput inputs)) tr := by
  intro pre e rest hsplit req resp ie he hie
  have h := (slotInv_run hrun).frames pre e rest hsplit
  rw [he] at h
  obtain ⟨sa, x, -, hlast, rfl⟩ := h.pending hie
  obtain ⟨pre₁, ts, status, post, hpre, hpost⟩ := (h req resp rfl).2 sa x hlast
  -- the command is that of the input, so its time is that of the clock
  have hcall : tr = (pre₁ ++ [.stuffed sa x]) ++
      .systemCall (command (x.csv ts)) status :: (post ++ e :: rest) := by
    rw [hsplit, hpre]
    simp
  obtain ⟨pre', sa', x', ts', hlast', hcmd, hinput⟩ := callOk_run hrun _ _ _ hcall _ _ rfl
  obtain ⟨-, hstuffed⟩ := List.append_inj' hlast' rfl
  obtain ⟨rfl, rfl⟩ := Event.stuffed.inj (List.cons.inj hstuffed).1
  rw [hcmd] at hpre
  exact ⟨pre₁, sa, x, ts', status, post, hpre, hpost, rfl, hinput⟩

/-- One stuffed request, whose command returns a given status. -/
def oneRequest (systemStatus : Int) : List Input :=
  [.probeReq { systemStatus := systemStatus } (broadcastProbe 7 (ssidAndRates ++ headerSeven))]

theorem bss_forwards_before_ack_one_request : ∃ conf tr,
    bss.run {} (oneRequest 0) = some (conf, tr) ∧ tr.countP Event.carriesAck = 1 ∧
      Always (AcksForwarded (ForwardsInput (oneRequest 0))) tr := by
  have hobs : (bss.run {} (oneRequest 0)).map (fun r => r.2.countP Event.carriesAck) =
      some 1 := by decide
  obtain ⟨⟨conf, tr⟩, hrun, hcount⟩ := Option.map_eq_some_iff.mp hobs
  exact ⟨conf, tr, hrun, hcount, bss_forwards_before_ack hrun⟩

/-- The statuses of the commands of a trace. -/
def statuses (tr : List Event) : List Int :=
  tr.filterMap fun e =>
    match e with
    | .systemCall _ status => some status
    | _ => none

/-- The status is not looked at: a request is acknowledged although `system` returned 256. -/
theorem bss_acks_failed_forward : ∃ inputs conf tr,
    bss.run {} inputs = some (conf, tr) ∧
      ¬ Always (AcksForwarded fun _ _ _ status => status = 0) tr := by
  have hobs : (bss.run {} (oneRequest 256)).map
      (fun r => (statuses r.2, r.2.any Event.carriesAck)) = some ([256], true) := by decide
  obtain ⟨r, hrun, heq⟩ := Option.map_eq_some_iff.mp hobs
  obtain ⟨hstatuses, hany⟩ := Prod.mk.inj heq
  refine ⟨oneRequest 256, r.1, r.2, hrun, fun h => ?_⟩
  obtain ⟨e, he, hack⟩ := List.any_eq_true.mp hany
  obtain ⟨pre, post, hsplit⟩ := List.append_of_mem he
  obtain ⟨req, resp, ie, rfl, hie⟩ := Event.eq_of_carriesAck hack
  obtain ⟨pre₁, sa, x, ts, status, post', hpre, -, -, rfl⟩ :=
    h pre _ post hsplit req resp ie rfl hie
  have hmem : (0 : Int) ∈ statuses r.2 := by
    rw [hsplit, hpre]
    simp [statuses]
  rw [hstatuses] at hmem
  exact absurd hmem (by decide)

end ProbeStuffing.Ap

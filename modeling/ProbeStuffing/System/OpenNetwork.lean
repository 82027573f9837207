import ProbeStuffing.Client.AckStores
import ProbeStuffing.System.Steps

/-!
# Strangers, templates and the scan cache

In `network` an access point receives nothing but the stuffed requests of the clients.
Here it receives whatever is in the air: plain requests, and stuffed ones of anybody.  And
what `ieee802_11_build_ap_params` builds is a template, with which the driver answers any
client.

All of these take the pending ACK with them, whoever's it is.  So a dump may have the
number that is due in the answer to an earlier message, which is still in the cache, or in
an ACK of another station.  The loop compares nothing but the number, and takes either for
the acknowledgement of what it has just sent (`success_not_current`).

A success means what it says as long as a number that is due, or will be, comes from the
answer to a request of the message that is being sent (`success_processed_current`).
-/

namespace ProbeStuffing.System

open CString Tlv Trace Register Client Ap

variable {α : Type}

/-! ## State and inputs -/

/-- A response to a request of a client. -/
structure Answer (α : Type) where
  ap : α
  client : Mac
  ies : Bytes
  request : Frame

/-- The network, and where its responses come from. -/
structure OpenState (α : Type) where
  net : State α := {}
  answers : List (Answer α) := []
  /-- The elements of the responses that were built for the driver. -/
  templates : List (α × Bytes) := []

inductive OpenInput (α : Type) where
  | net (i : Input α)
  /-- An access point receives any frame. -/
  | stranger (a : α) (env : Env) (frame : Bytes)
  /-- The driver of an access point answers a client with a template. -/
  | offload (a : α) (c : Mac) (ies : Bytes)

/-- The responses to requests of clients among events. -/
def answersOf (es : List (Event α)) : List (Answer α) :=
  es.filterMap fun e =>
    match e with
    | .ap a (some f) (.sendMlme resp _) => some ⟨a, resp.da, resp.variable, f⟩
    | _ => none

theorem answersOf_eq_nil {es : List (Event α)} (h : ∀ a f e, .ap a (some f) e ∉ es) :
    answersOf es = [] := by
  refine List.filterMap_eq_nil_iff.mpr fun e he => ?_
  split
  · exact absurd he (h _ _ _)
  · rfl

/-- The templates among events. -/
def templatesOf (es : List (Event α)) : List (α × Bytes) :=
  es.filterMap fun e =>
    match e with
    | .ap a none (.probeResp none resp) => some (a, resp.variable)
    | _ => none

section Steps

variable [DecidableEq α]

def strangerStep (s : OpenState α) (a : α) (env : Env) (frame : Bytes) :
    Option (OpenState α × List (Event α)) :=
  (handleProbeReq env frame (s.net.bss a)).map fun r =>
    ({ s with
        net := { s.net with
          bss := Function.update s.net.bss a r.1
          responses := responsesOf a r.2 ++ s.net.responses } },
      r.2.map (.ap a none))

/-- The network with all that it does not control. -/
def openNetwork : Machine (OpenState α) (OpenInput α) (Event α) where
  step s
    | .net i =>
        (network.step s.net i).map fun r =>
          (⟨r.1, answersOf r.2 ++ s.answers, templatesOf r.2 ++ s.templates⟩, r.2)
    | .stranger a env frame => strangerStep s a env frame
    | .offload a c ies =>
        if (a, ies) ∈ s.templates then
          some ({ s with net := { s.net with responses := (a, c, ies) :: s.net.responses } }, [])
        else none

/-- A run of the network is one in which nothing else happens. -/
theorem open_of_network : ∀ {inputs : List (Input α)} {s : OpenState α} {net' : State α}
    {tr : List (Event α)}, network.run s.net inputs = some (net', tr) →
      ∃ s', openNetwork.run s (inputs.map .net) = some (s', tr) ∧ s'.net = net'
  | [], s, net', tr, hrun => by
      obtain ⟨rfl, rfl⟩ := Machine.run_nil_iff.mp hrun
      exact ⟨s, Machine.run_nil_iff.mpr ⟨rfl, rfl⟩, rfl⟩
  | i :: inputs, s, net', tr, hrun => by
      obtain ⟨net₁, es, tr', hstep, hrest, rfl⟩ := Machine.run_cons_iff.mp hrun
      let s₁ : OpenState α := ⟨net₁, answersOf es ++ s.answers, templatesOf es ++ s.templates⟩
      obtain ⟨s', hrun', hnet⟩ := @open_of_network inputs s₁ net' tr' hrest
      have hopen : openNetwork.step s (.net i) = some (s₁, es) :=
        Option.map_eq_some_iff.mpr ⟨_, hstep, rfl⟩
      exact ⟨s', Machine.run_cons_iff.mpr ⟨s₁, es, tr', hopen, hrun', rfl⟩, hnet⟩

end Steps

/-! ## Dumps of the current message -/

/-- The last entry of a dump that has an ACK at all. -/
def lastAcked (dump : List (α × ScanEntry)) : Option (α × ScanEntry) :=
  (dump.filter fun p => p.2.acks ≠ []).getLast?

theorem exists_last_ack {entry : ScanEntry} (h : entry.acks ≠ []) :
    ∃ z, entry.acks.getLast? = some z :=
  Option.isSome_iff_exists.mp (List.getLast?_isSome.mpr h)

theorem acks_of_lastAcked {dump : List (α × ScanEntry)} {p : α × ScanEntry}
    (h : lastAcked dump = some p) : p.2.acks ≠ [] := by
  have hmem := List.mem_of_getLast? h
  exact of_decide_eq_true (List.mem_filter.mp hmem).2

/-- What the dump leaves in `ack_seq_num` is the number of that entry. -/
theorem getAckDump_lastAcked (old : Int) (dump : List (α × ScanEntry)) :
    getAckDump old (dump.map Prod.snd) =
      ((lastAcked dump).map fun p => getAck old p.2).getD old := by
  induction dump using List.reverseRecOn with
  | nil => rfl
  | append_singleton dump p ih =>
      have hconcat : getAckDump old ((dump ++ [p]).map Prod.snd) =
          getAck (getAckDump old (dump.map Prod.snd)) p.2 := by
        rw [getAckDump, List.map_append, List.foldl_append]
        rfl
      rw [hconcat, lastAcked, List.filter_append]
      rcases Decidable.em (p.2.acks = []) with hnone | hsome
      · rw [getAck_eq, hnone, written_nil, ih, lastAcked]
        simp [hnone]
      · obtain ⟨z, hz⟩ := exists_last_ack hsome
        simp [hsome, getAck_eq, written_of_getLast? hz]

/-- If the number a dump leaves is due, or will be, its entry is an answer to a request of
the message that the client is sending. -/
def DumpCurrent (s : OpenState α) (c : Mac) (dump : List (α × ScanEntry)) : Prop :=
  ∀ m ∈ (s.net.station c).message, ∀ p ∈ lastAcked dump, ∀ z ∈ p.2.acks.getLast?,
    ((s.net.station c).locals.seqNum : Int) ≤ z →
      ∃ r ∈ s.answers, r.ap = p.1 ∧ r.client = c ∧ p.2.informationElements = some r.ies ∧
        r.request.message.ts = m.ts

/-- The condition on a step. -/
def OnlyCurrent (s : OpenState α) : OpenInput α → Prop
  | .net (.round c _ _ dump) => DumpCurrent s c dump
  | _ => True

instance [DecidableEq α] (s : OpenState α) (c : Mac) (dump : List (α × ScanEntry)) :
    Decidable (DumpCurrent s c dump) :=
  inferInstanceAs (Decidable (∀ m ∈ (s.net.station c).message, ∀ p ∈ lastAcked dump,
    ∀ z ∈ p.2.acks.getLast?, _ → ∃ r ∈ s.answers, _))

instance decidableOnlyCurrent [DecidableEq α] (s : OpenState α) :
    ∀ i, Decidable (OnlyCurrent s i)
  | .net (.round c _ _ dump) => inferInstanceAs (Decidable (DumpCurrent s c dump))
  | .net (.start _ _) => .isTrue trivial
  | .net (.scan _ _) => .isTrue trivial
  | .net (.receive _ _ _) => .isTrue trivial
  | .net (.build _ _) => .isTrue trivial
  | .stranger _ _ _ => .isTrue trivial
  | .offload _ _ _ => .isTrue trivial

/-- A success follows the processing of this fragment of this message. -/
def SuccessCurrent (pre : List (Event α)) (e : Event α) : Prop :=
  ∀ c m k, e = .client c m (.success k) → ProcessedFor pre c m.ts k

/-! ## The invariant -/

theorem ProcessedFor.mono {tr : List (Event α)} {c : Mac} {ts : Bytes} {k : Nat}
    (h : ProcessedFor tr c ts k) (es : List (Event α)) : ProcessedFor (tr ++ es) c ts k := by
  obtain ⟨a, f, x, hx, hfields⟩ := h
  exact ⟨a, f, x, List.mem_append_left es hx, hfields⟩

/-- A number that is not due any more, or that of a fragment that has been processed. -/
def Heard (tr : List (Event α)) (c : Mac) (m : Message) (k : Nat) (z : Int) : Prop :=
  z < k ∨ ∃ i : Nat, z = i ∧ ProcessedFor tr c m.ts i

theorem Heard.mono {tr : List (Event α)} {c : Mac} {m : Message} {k k' : Nat} {z : Int}
    (h : Heard tr c m k z) (hk : k ≤ k') (es : List (Event α)) : Heard (tr ++ es) c m k' z := by
  rcases h with hlt | ⟨i, hz, hp⟩
  · exact .inl (by omega)
  · exact .inr ⟨i, hz, hp.mono es⟩

/-- What holds of a client: its fragment belongs to its message, and so does the number
it has read last, if it is due. -/
structure HearsCurrent (tr : List (Event α)) (c : Mac) (st : Station) : Prop where
  coupled : ∀ m ∈ st.message, st.locals.fragment ≠ none → Coupled m.dataToStuff m.ts st.locals
  heard : ∀ m ∈ st.message, Heard tr c m st.locals.seqNum st.locals.ackSeqNum

/-- An answer ends with the number of its request, which has been processed. -/
structure Answer.Ok (tr : List (Event α)) (r : Answer α) : Prop where
  ies : ∃ own, r.ies = encode own ++ ieAck r.request.seqNum
  seqNum_lt : r.request.seqNum < 10 ^ 8
  processed : ProcessedFor tr r.client r.request.message.ts r.request.seqNum

structure OpenInv (tr : List (Event α)) (s : OpenState α) : Prop where
  station : ∀ c, HearsCurrent tr c (s.net.station c)
  sent : ∀ f ∈ s.net.sent, f.Ok
  answers : ∀ r ∈ s.answers, r.Ok tr
  success : Always SuccessCurrent tr

theorem openInv_init : OpenInv ([] : List (Event α)) {} where
  station _ := ⟨by simp, by simp⟩
  sent := List.forall_mem_nil _
  answers := List.forall_mem_nil _
  success := always_nil

section Mono

variable {tr : List (Event α)} (es : List (Event α))

theorem HearsCurrent.mono {c : Mac} {st : Station} (h : HearsCurrent tr c st) :
    HearsCurrent (tr ++ es) c st :=
  ⟨h.coupled, fun m hm => (h.heard m hm).mono (Nat.le_refl _) es⟩

theorem Answer.Ok.mono {r : Answer α} (h : r.Ok tr) : r.Ok (tr ++ es) :=
  ⟨h.ies, h.seqNum_lt, h.processed.mono es⟩

/-- A step that changes no client and takes no success branch. -/
theorem OpenInv.extend {s s' : OpenState α} (h : OpenInv tr s)
    (hstation : s'.net.station = s.net.station)
    (hsent : ∀ f ∈ s'.net.sent, f ∈ s.net.sent ∨ f.Ok)
    (hanswers : ∀ r ∈ s'.answers, r ∈ s.answers ∨ r.Ok (tr ++ es))
    (hes : ∀ c m k, .client c m (.success k) ∉ es) : OpenInv (tr ++ es) s' where
  station c := by
    rw [hstation]
    exact (h.station c).mono es
  sent f hf := (hsent f hf).elim (h.sent f) id
  answers r hr := (hanswers r hr).elim (fun hold => (h.answers r hold).mono es) id
  success := by
    refine always_append.mpr ⟨h.success, fun pre e post hsplit c m k he => ?_⟩
    exact absurd (by simp [hsplit, he]) (hes c m k)

/-- A step that changes one client, behind events that are in order. -/
theorem OpenInv.update {s s' : OpenState α} {c : Mac} {st : Station} (h : OpenInv tr s)
    (hstation : s'.net.station = Function.update s.net.station c st)
    (hsent : s'.net.sent = s.net.sent) (hanswers : s'.answers = s.answers)
    (hst : HearsCurrent (tr ++ es) c st)
    (hes : Always (fun pre => SuccessCurrent (tr ++ pre)) es) : OpenInv (tr ++ es) s' where
  station := by
    rw [hstation]
    exact (Function.forall_update_iff s.net.station fun c st => HearsCurrent (tr ++ es) c st).mpr
      ⟨hst, fun c' _ => (h.station c').mono es⟩
  sent := by
    rw [hsent]
    exact h.sent
  answers r hr := by
    rw [hanswers] at hr
    exact (h.answers r hr).mono es
  success := always_append.mpr ⟨h.success, hes⟩

end Mono

/-! ## What a dump leaves -/

section Dump

variable {tr : List (Event α)} {s : OpenState α} {c : Mac} {m : Message}

/-- `get_ack` reads the number of an answer. -/
theorem Answer.Ok.getAck_eq {r : Answer α} (h : r.Ok tr) {entry : ScanEntry}
    (hies : entry.informationElements = some r.ies) (hacks : entry.acks ≠ []) (old : Int) :
    getAck old entry = r.request.seqNum := by
  obtain ⟨own, hr⟩ := h.ies
  have hthere : (entry.bss && entry.bssid) = true := by
    by_contra hnot
    rw [ScanEntry.acks, if_neg hnot] at hacks
    exact hacks rfl
  exact getAck_ies hthere (hies.trans (congrArg some hr)) h.seqNum_lt old

/-- What a dump leaves in `ack_seq_num`. -/
theorem heard_getAckDump (h : OpenInv tr s) (hm : (s.net.station c).message = some m)
    {dump : List (α × ScanEntry)} (hdump : DumpCurrent s c dump) {old : Int}
    (hold : Heard tr c m (s.net.station c).locals.seqNum old) :
    Heard tr c m (s.net.station c).locals.seqNum (getAckDump old (dump.map Prod.snd)) := by
  rw [getAckDump_lastAcked]
  cases hlast : lastAcked dump with
  | none => exact hold
  | some p =>
      have hacks := acks_of_lastAcked hlast
      obtain ⟨z, hz⟩ := exists_last_ack hacks
      have hread : getAck old p.2 = z := by rw [getAck_eq, written_of_getLast? hz]
      rcases Int.lt_or_le z (s.net.station c).locals.seqNum with hlt | hle
      · left
        rw [Option.map_some, Option.getD_some, hread]
        exact hlt
      · obtain ⟨r, hr, -, rfl, hies, hts⟩ := hdump m hm p hlast z hz hle
        obtain ⟨a, f, x, hx, hxts, hxk⟩ := (h.answers r hr).processed
        exact .inr ⟨_, (h.answers r hr).getAck_eq hies hacks old, a, f, x, hx, hxts.trans hts, hxk⟩

end Dump

/-! ## The steps keep it -/

section Keep

variable {tr es : List (Event α)} {s s' : OpenState α}

theorem openInv_round {c : Mac} {err ret : Int} {dump : List (α × ScanEntry)} {m : Message}
    {r : Locals × List Client.Event} (h : OpenInv tr s)
    (hm : (s.net.station c).message = some m) (hdump : DumpCurrent s c dump)
    (hr : sendRound m.effort m.dataToStuff m.ts (s.net.station c).locals
      ⟨err, ret, dump.map Prod.snd⟩ = r)
    (hstation : s'.net.station = Function.update s.net.station c ⟨some m, r.1⟩)
    (hsent : s'.net.sent = s.net.sent) (hanswers : s'.answers = s.answers) :
    OpenInv (tr ++ r.2.map (.client c m)) s' := by
  subst hr
  have hold := (h.station c).heard m hm
  have hack := heard_getAckDump h hm hdump hold
  refine h.update _ hstation hsent hanswers ⟨fun m' hm' hsome => ?_, fun m' hm' => ?_⟩ ?_
  · obtain rfl : m = m' := Option.some.inj hm'
    exact coupled_sendRound m.nulFree ((h.station c).coupled m hm) _ hsome
  · obtain rfl : m = m' := Option.some.inj hm'
    have hle := sendRound_seqNum_le m.effort m.dataToStuff m.ts (s.net.station c).locals
      ⟨err, ret, dump.map Prod.snd⟩
    dsimp only
    rcases sendRound_ackSeqNum m.effort m.dataToStuff m.ts (s.net.station c).locals
      ⟨err, ret, dump.map Prod.snd⟩ with heq | heq
    · rw [heq]
      exact hold.mono hle _
    · rw [heq]
      exact hack.mono hle _
  · intro pre e post hsplit c' m' k he
    have hmem : Event.client c' m' (.success k) ∈
        (sendRound m.effort m.dataToStuff m.ts (s.net.station c).locals
          ⟨err, ret, dump.map Prod.snd⟩).2.map (Event.client (α := α) c m) := by
      rw [hsplit, he]
      exact List.mem_append_right _ List.mem_cons_self
    obtain ⟨e', hk, heq⟩ := List.mem_map.mp hmem
    obtain ⟨rfl, rfl, rfl⟩ := Event.client.inj heq
    obtain ⟨rfl, hdone⟩ := success_of_mem_sendRound hk
    rw [hdone] at hack
    -- the number is due, so it is that of a fragment that was processed
    obtain ⟨i, hi, hp⟩ := hack.resolve_left (lt_irrefl _)
    obtain rfl := Int.ofNat.inj hi
    exact hp.mono pre

/-- A request of a client adds at most an answer with its own number. -/
theorem openInv_receive {a : α} {env : Env} {f : Frame} {r : BssConf × List Ap.Event}
    (h : OpenInv tr s) (hf : f ∈ s.net.sent)
    (hrun : handleProbeReq env f.bytes (s.net.bss a) = some r)
    (hstation : s'.net.station = s.net.station) (hsent : s'.net.sent = s.net.sent)
    (hanswers : s'.answers = answersOf (r.2.map (.ap a (some f))) ++ s.answers) :
    OpenInv (tr ++ r.2.map (.ap a (some f))) s' := by
  have hok := h.sent f hf
  refine h.extend _ hstation (fun g hg => .inl (hsent ▸ hg)) (fun x hx => ?_) (by simp)
  rw [hanswers] at hx
  rcases List.mem_append.mp hx with hnew | hold
  · right
    rcases handleProbeReq_frame hok hrun with hes | ⟨reply, hes, hreply⟩
    · rw [hes] at hnew
      cases hnew
    · rw [hes] at hnew ⊢
      rcases hreply with rfl | ⟨req, resp, noack, rfl, hda, hack⟩
      · simp [answersOf] at hnew
      · obtain rfl : x = ⟨a, resp.da, resp.variable, f⟩ := by simpa [answersOf] using hnew
        refine ⟨⟨resp.ownElems, ?_⟩, hok.seqNum_lt, ⟨a, some f, f.received, ?_, rfl, rfl⟩⟩
        · have hk : f.received.ackSeqNum = f.seqNum := by
            have := hok.seqNum_lt
            exact atoi_fmtPad (by omega)
          rw [ProbeResp.variable, hack, ← hk]
          rfl
        · rw [hda]
          simp
  · exact .inl hold

variable [DecidableEq α]

theorem openInv_step {i : OpenInput α} (h : OpenInv tr s) (hi : OnlyCurrent s i)
    (hstep : openNetwork.step s i = some (s', es)) : OpenInv (tr ++ es) s' := by
  cases i with
  | net i =>
      obtain ⟨⟨net', es⟩, hnet, heq⟩ := Option.map_eq_some_iff.mp hstep
      obtain ⟨rfl, rfl⟩ := Prod.mk.inj heq
      cases step_of_network hnet with
      | @start c m hidle =>
          refine h.update _ rfl rfl rfl ⟨fun m' hm' hsome => ?_, fun m' hm' => ?_⟩ (by
            simp [SuccessCurrent])
          · exact (stationOk_start tr c m).coupled m' hm' hsome
          · refine .inl ?_
            dsimp only
            rw [Locals.start, nextFragment_ackSeqNum, nextFragment_seqNum]
            decide
      | @scan c around m fragment hm hf =>
          have hc := (h.station c).coupled m hm (by simp [hf])
          have hfrag : fragment = fragmentOf m.dataToStuff m.ts (s.net.station c).locals.seqNum :=
            Option.some.inj (hf.symm.trans hc.fragment)
          refine h.extend _ rfl (fun f hf => ?_) (fun r hr => .inl hr) (by simp)
          rcases List.mem_cons.mp hf with rfl | hold
          · exact .inr ⟨hfrag, hc.start_lt⟩
          · exact .inl hold
      | @round c err ret dump m r hm hdump hr =>
          have hnone : answersOf (r.2.map (Event.client (α := α) c m)) = [] :=
            answersOf_eq_nil (by simp)
          exact openInv_round h hm hi hr rfl rfl (by dsimp only; rw [hnone, List.nil_append])
      | @receive a env f r hf hrun => exact openInv_receive h hf hrun rfl rfl rfl
      | @build a env r hr =>
          have hnone : answersOf (r.2.map (Event.ap a none)) = [] := answersOf_eq_nil (by simp)
          refine h.extend _ rfl (fun _ hf => .inl hf) (fun x hx => .inl ?_) (by simp)
          dsimp only at hx
          rwa [hnone, List.nil_append] at hx
  | stranger a env frame =>
      obtain ⟨r, -, heq⟩ := Option.map_eq_some_iff.mp hstep
      obtain ⟨rfl, rfl⟩ := Prod.mk.inj heq
      exact h.extend _ rfl (fun _ hf => .inl hf) (fun _ hr => .inl hr) (by simp)
  | offload a c ies =>
      change (if _ then _ else _) = _ at hstep
      split at hstep
      · obtain ⟨rfl, rfl⟩ := Prod.mk.inj (Option.some.inj hstep)
        exact h.extend [] rfl (fun _ hf => .inl hf) (fun _ hr => .inl hr) (by simp)
      · cases hstep

theorem openInv_run {inputs : List (OpenInput α)}
    (hrun : openNetwork.run {} inputs = some (s, tr))
    (hcurrent : openNetwork.Along OnlyCurrent {} inputs) : OpenInv tr s :=
  Machine.along_invariant (fun _ _ _ _ _ h hi hstep => openInv_step h hi hstep) openInv_init
    hcurrent hrun

/-! ## No false acknowledgement -/

/-- In every run in which the numbers that are due come from answers to the current message,
a success for fragment `k` of a message follows the processing of a stuffed request of this
client with the timestamp of this message and sequence number `k`. -/
theorem success_processed_current {inputs : List (OpenInput α)}
    (hrun : openNetwork.run {} inputs = some (s, tr))
    (hcurrent : openNetwork.Along OnlyCurrent {} inputs) : Always SuccessCurrent tr :=
  (openInv_run hrun hcurrent).success

end Keep

def station8 : Mac := ⟨2, 0, 0, 0, 0, 8⟩

/-- A probe request with no stuffing. -/
def plainRequest (c : Mac) : Bytes :=
  [0x40, 0, 0, 0] ++ Mac.bytes broadcastAround.da ++ Mac.bytes c ++
    Mac.bytes broadcastAround.bssid ++ [0, 0] ++ encode [ssidElement, ratesElement]

/-- Another station asks before the first message is sent and acknowledged. -/
def visitedRun : List (OpenInput Unit) :=
  .stranger () {} (plainRequest station8) :: firstRun.map .net

theorem success_processed_current_visitedRun :
    ∃ s tr, openNetwork.run {} visitedRun = some (s, tr) ∧
      tr.any (succeeds firstMessage) = true ∧ Always SuccessCurrent tr := by
  have hobs : (openNetwork.run {} visitedRun).map (fun r => r.2.any (succeeds firstMessage)) =
      some true := by decide
  obtain ⟨r, hrun, hany⟩ := Option.map_eq_some_iff.mp hobs
  exact ⟨r.1, r.2, hrun, hany, success_processed_current hrun (by decide)⟩

/-- The kernel sends no SSID element, so the access point does not answer. -/
def unansweredAround : Surroundings where
  da := broadcastAround.da
  bssid := broadcastAround.bssid
  before := [ratesElement]
  after := []
  ordinary := by decide

def unansweredFrame : Frame :=
  ⟨station8, firstMessage, 0, fragmentOf firstMessage.dataToStuff firstMessage.ts 0,
    unansweredAround⟩

/-- The ACK of station 8 is left over.  A plain request of station 7 takes it along while
its message is lost. -/
def foreignRun : List (OpenInput Unit) :=
  [.net (.start station8 firstMessage), .net (.scan station8 unansweredAround),
    .net (.receive () {} unansweredFrame), .net (.start station7 secondMessage),
    .net (.scan station7 broadcastAround), .stranger () {} (plainRequest station7),
    .net (.round station7 0 0 [cachedEntry])]

/-- The clients whose stuffed requests were processed. -/
def processedClients (tr : List (Event Unit)) : List Mac :=
  tr.filterMap fun e =>
    match e with
    | .ap _ _ (.stuffed c _) => some c
    | _ => none

/-- A client takes the success branch with the answer to its earlier message, and with the
ACK of another station when no request of its own has been processed at all. -/
theorem success_not_current :
    (∃ (inputs : List (OpenInput Unit)) (s : OpenState Unit) (tr : List (Event Unit)),
      openNetwork.run {} inputs = some (s, tr) ∧ ¬ Always SuccessCurrent tr) ∧
    ∃ (inputs : List (OpenInput Unit)) (s : OpenState Unit) (tr : List (Event Unit)),
      openNetwork.run {} inputs = some (s, tr) ∧
        (∃ c, .client c secondMessage (.success 0) ∈ tr) ∧
        ∀ ts k, ¬ ProcessedFor tr station7 ts k := by
  constructor
  · obtain ⟨inputs, net', tr, hrun, hnot⟩ := success_of_earlier_message
    obtain ⟨s, hopen, -⟩ := @open_of_network Unit _ inputs {} net' tr hrun
    exact ⟨_, s, tr, hopen, hnot⟩
  · have hobs : (openNetwork.run {} foreignRun).map (fun r =>
        (r.2.any (succeeds secondMessage), processedClients r.2)) =
          some (true, [station8]) := by decide
    obtain ⟨r, hrun, heq⟩ := Option.map_eq_some_iff.mp hobs
    obtain ⟨hany, hclients⟩ := Prod.mk.inj heq
    obtain ⟨e, he, hsucc⟩ := List.any_eq_true.mp hany
    obtain ⟨c, rfl⟩ := eq_of_succeeds hsucc
    refine ⟨foreignRun, r.1, r.2, hrun, ⟨c, he⟩, fun ts k hprocessed => ?_⟩
    obtain ⟨a, f, x, hx, -, -⟩ := hprocessed
    have hmem : station7 ∈ processedClients r.2 := List.mem_filterMap.mpr ⟨_, hx, rfl⟩
    rw [hclients] at hmem
    exact absurd hmem (by decide)

end ProbeStuffing.System

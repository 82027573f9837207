import ProbeStuffing.System.Network

/-!
# What an acknowledgement says

A client takes the success branch for fragment `k` when the last number `get_ack`
stored is `k`.  That number was printed by an access point which had processed a
stuffed request of this client with sequence number `k` (`success_processed`).

The chain is short because of two things an access point does.  A stuffed
request overwrites the pending ACK before it is answered, so the answer to a
client's stuffed request carries the number of this very request, whoever's ACK
was pending before (`handleProbeReq_frame`).  And the ACK is the last element of
the frame, so whatever the access point's own elements are, it is what `get_ack`
stores last.

The number is all that comes back.  Nothing ties it to the message, and a
response may stay in the scan cache, so the request may belong to a message
that the client sent earlier (`success_of_earlier_message`).

Here the access points receive the clients' stuffed requests only, and what they
build for the driver reaches nobody.
-/

namespace ProbeStuffing.System

open CString Tlv Trace Client Ap

variable {α : Type}

/-! ## Well-formed frames -/

theorem Message.ts_length (m : Message) : m.ts.length = 18 := dataOriginTsStr_length m.usec_lt

theorem Message.ts_nulFree (m : Message) : NulFree m.ts := nulFree_of_isDigit dataOriginTsStr_digits

/-- The frame carries a fragment of its message. -/
structure Frame.Ok (f : Frame) : Prop where
  fragment : f.fragment = fragmentOf f.message.dataToStuff f.message.ts f.seqNum
  start_lt : 1394 * f.seqNum < f.message.dataToStuff.length

theorem Frame.Ok.seqNum_lt {f : Frame} (h : f.Ok) : f.seqNum < 10 ^ 8 := by
  have := h.start_lt
  have := f.message.fits
  omega

theorem Frame.mgmt (f : Frame) :
    Mgmt.ofBytes f.bytes = some ⟨f.around.da, f.client, f.around.bssid, f.ie⟩ := rfl

/-- What a client writes into a frame. -/
def Frame.received (f : Frame) : Received :=
  ⟨f.client.str, fmtPad 8 f.seqNum, f.message.ts, decimal f.fragment.mfb, f.fragment.data,
    f.fragment.data.length⟩

theorem Frame.Ok.data_length {f : Frame} (h : f.Ok) :
    0 < f.fragment.data.length ∧ f.fragment.data.length ≤ 1394 := by
  rw [h.fragment]
  exact fragmentOf_data_length f.message.ts h.start_lt

theorem Frame.Ok.data_nulFree {f : Frame} (h : f.Ok) : NulFree f.fragment.data := by
  rw [h.fragment]
  exact fragmentOf_data_nulFree f.message.nulFree f.message.ts f.seqNum

theorem Frame.Ok.mfb_lt {f : Frame} (h : f.Ok) : f.fragment.mfb < 10 := by
  rw [h.fragment]
  exact fragmentOf_mfb_lt f.message.dataToStuff f.message.ts f.seqNum

/-- The parser records the elements of the client, and no others. -/
theorem Frame.Ok.parse {f : Frame} (h : f.Ok) :
    let r := ieee80211ParseElems f.ie
    r.1 ≠ .parseFailed ∧ ¬ r.2.overrun ∧ r.2.stuffedData.take r.2.nStuffedIes.toNat =
      (stuffingElements f.seqNum f.message.ts f.fragment.mfb f.fragment.data).map
        Element.body := by
  obtain ⟨hpos, hmax⟩ := h.data_length
  have hies : f.fragment.iesData =
      iesData f.seqNum f.message.ts f.fragment.mfb f.fragment.data := by
    rw [h.fragment]
    rfl
  have hie : f.ie = encode (f.around.before ++
      stuffingElements f.seqNum f.message.ts f.fragment.mfb f.fragment.data ++ f.around.after) := by
    rw [Frame.ie, hies, iesData_eq_encode h.seqNum_lt f.message.ts_length f.message.ts_nulFree
      h.mfb_lt h.data_nulFree hpos, encode_append, encode_append]
  rw [hie]
  exact parse_fragment h.seqNum_lt f.message.ts_length h.mfb_lt hpos hmax f.around.ordinary

/-- The access point reads from a frame what the client wrote into it. -/
theorem Frame.Ok.extract_eq {f : Frame} (h : f.Ok) (heap : Bytes) :
    let r := ieee80211ParseElems f.ie
    Ap.extract f.client (r.2.stuffedData.take r.2.nStuffedIes.toNat) heap = some f.received := by
  obtain ⟨-, -, htake⟩ := h.parse
  intro r
  rw [htake]
  exact extract_bodies h.data_nulFree h.seqNum_lt f.message.ts_length f.message.ts_nulFree h.mfb_lt
    h.data_length.1 f.client heap

/-- What a frame makes an access point do: nothing, or process it and perhaps
answer its client with the ACK of this very frame. -/
theorem handleProbeReq_frame {f : Frame} (h : f.Ok) {env : Env} {conf conf' : BssConf}
    {es : List Ap.Event} (hrun : handleProbeReq env f.bytes conf = some (conf', es)) :
    es = [] ∨ ∃ reply, es = .stuffed f.client f.received ::
        .systemCall (command (f.received.csv (apTimestampStr env.tvSec env.tvUsec)))
          env.systemStatus :: reply ∧
      (reply = [] ∨ ∃ req resp noack, reply = [.probeResp req resp, .sendMlme resp noack] ∧
        resp.da = f.client ∧ resp.ackIe = some f.received.ieAck) := by
  have heq := handleProbeReq_eq hrun
  cases ha : accepted env f.bytes with
  | none =>
      rw [ha] at heq
      exact .inl (Prod.mk.inj heq).2
  | some p =>
      obtain ⟨mgmt, elems⟩ := p
      obtain ⟨hm, -, -, -, rfl⟩ := accepted_iff.mp ha
      rw [f.mgmt] at hm
      obtain rfl := Option.some.inj hm
      rw [ha] at heq
      obtain ⟨-, rfl⟩ := Prod.mk.inj heq
      have hstuffing : handleStuffing env f.client (ieee80211ParseElems f.ie).2 conf =
          ({ conf with probeRespAckIe := some f.received.ieAck },
            [.stuffed f.client f.received, .systemCall
              (command (f.received.csv (apTimestampStr env.tvSec env.tvUsec)))
              env.systemStatus]) := by
        rw [handleStuffing, h.extract_eq env.heap]
      right
      simp only [hstuffing]
      refine ⟨_, rfl, ?_⟩
      rcases handleReply_cases env ⟨f.around.da, f.client, f.around.bssid, f.ie⟩
        (ieee80211ParseElems f.ie).2 { conf with probeRespAckIe := some f.received.ieAck } with
        ⟨-, hr⟩ | ⟨-, resp, noack, hr, hack, hda⟩
      · exact .inl (congrArg Prod.snd hr)
      · exact .inr ⟨_, resp, noack, congrArg Prod.snd hr, hda, hack⟩

/-- The only command of a frame is the one with its record. -/
theorem systemCall_eq {f : Frame} (h : f.Ok) {env : Env} {conf conf' : BssConf}
    {es : List Ap.Event} (hrun : handleProbeReq env f.bytes conf = some (conf', es)) {cmd : Bytes}
    {status : Int} (hcall : .systemCall cmd status ∈ es) :
    cmd = command (f.received.csv (apTimestampStr env.tvSec env.tvUsec)) := by
  rcases handleProbeReq_frame h hrun with rfl | ⟨reply, rfl, hreply⟩
  · cases hcall
  · rcases hreply with rfl | ⟨req, resp, noack, rfl, -, -⟩
    all_goals
      simp only [List.mem_cons, List.not_mem_nil, reduceCtorEq, or_false, false_or] at hcall
      exact (Event.systemCall.inj hcall).1

/-! ## The invariant -/

/-- Some access point has processed a stuffed request of this client with this
origin timestamp and the sequence number `k`. -/
def ProcessedFor (tr : List (Event α)) (c : Mac) (ts : Bytes) (k : Nat) : Prop :=
  ∃ a f x, .ap a f (.stuffed c x) ∈ tr ∧ x.timestampStr = ts ∧ x.seqNumStr = fmtPad 8 k

/-- The number `z` of a request that was processed for a message the client has started. -/
def Processed (tr : List (Event α)) (c : Mac) (z : Int) : Prop :=
  ∃ m k, .start c m ∈ tr ∧ ProcessedFor tr c m.ts k ∧ z = (k : Nat)

theorem Processed.mono {tr : List (Event α)} {c : Mac} {z : Int} (h : Processed tr c z)
    (es : List (Event α)) : Processed (tr ++ es) c z := by
  obtain ⟨m, k, hm, ⟨a, f, x, hx, hfields⟩, hz⟩ := h
  exact ⟨m, k, List.mem_append_left es hm, ⟨a, f, x, List.mem_append_left es hx, hfields⟩, hz⟩

/-- A success follows the processing of its number. -/
def SuccessOk (pre : List (Event α)) (e : Event α) : Prop :=
  ∀ c m k, e = .client c m (.success k) → Processed pre c k

/-- What holds of a client: its fragment belongs to its message, and the number
it read last is the initial one or has been processed. -/
structure StationOk (tr : List (Event α)) (c : Mac) (st : Station) : Prop where
  started : ∀ m ∈ st.message, .start c m ∈ tr
  coupled : ∀ m ∈ st.message, st.locals.fragment ≠ none → Coupled m.dataToStuff m.ts st.locals
  ack : st.locals.ackSeqNum = -1 ∨ Processed tr c st.locals.ackSeqNum

/-- What holds of a response: it ends with the ACK of a request of its client. -/
def ResponseOk (tr : List (Event α)) (r : α × Mac × Bytes) : Prop :=
  ∃ (own : List Element) (k : Nat), k < 10 ^ 8 ∧ r.2.2 = encode own ++ ieAck k ∧
    Processed tr r.2.1 k

/-- The invariant of the system. -/
structure Inv (tr : List (Event α)) (s : State α) : Prop where
  station : ∀ c, StationOk tr c (s.station c)
  sent : ∀ f ∈ s.sent, f.Ok ∧ .start f.client f.message ∈ tr
  responses : ∀ r ∈ s.responses, ResponseOk tr r
  success : Always SuccessOk tr

theorem inv_init : Inv ([] : List (Event α)) {} where
  station _ := ⟨by simp, by simp, .inl rfl⟩
  sent := by simp
  responses := by simp
  success := always_nil

section Mono

variable {tr : List (Event α)} (es : List (Event α))

theorem StationOk.mono {c : Mac} {st : Station} (h : StationOk tr c st) :
    StationOk (tr ++ es) c st :=
  ⟨fun m hm => List.mem_append_left es (h.started m hm), h.coupled,
    h.ack.imp id fun hp => hp.mono es⟩

theorem ResponseOk.mono {r : α × Mac × Bytes} (h : ResponseOk tr r) :
    ResponseOk (tr ++ es) r := by
  obtain ⟨own, k, hk, hr, hp⟩ := h
  exact ⟨own, k, hk, hr, hp.mono es⟩

/-- A step that changes no client and takes no success branch. -/
theorem Inv.extend {s s' : State α} (h : Inv tr s) (hstation : s'.station = s.station)
    (hsent : ∀ f ∈ s'.sent, f ∈ s.sent ∨
      (f.Ok ∧ .start f.client f.message ∈ tr ++ es))
    (hresponses : ∀ r ∈ s'.responses, r ∈ s.responses ∨ ResponseOk (tr ++ es) r)
    (hes : ∀ c m k, .client c m (.success k) ∉ es) : Inv (tr ++ es) s' where
  station c := by
    rw [hstation]
    exact (h.station c).mono es
  sent f hf := by
    rcases hsent f hf with hold | hnew
    · obtain ⟨hok, hs⟩ := h.sent f hold
      exact ⟨hok, List.mem_append_left es hs⟩
    · exact hnew
  responses r hr := by
    rcases hresponses r hr with hold | hnew
    · exact (h.responses r hold).mono es
    · exact hnew
  success := by
    refine always_append.mpr ⟨h.success, fun pre e post hsplit c m k he => ?_⟩
    exact absurd (by simp [hsplit, he]) (hes c m k)

end Mono

/-! ## The steps keep it -/

variable {tr es : List (Event α)} {s s' : State α}

/-- `get_ack` reads the number of a response that ends with an ACK. -/
theorem getAck_ies {entry : ScanEntry} (hthere : (entry.bss && entry.bssid) = true)
    {own : List Element} {k : Nat} (hies : entry.informationElements = some (encode own ++ ieAck k))
    (hk : k < 10 ^ 8) (old : Int) : getAck old entry = k := by
  have hread : getAck old entry = getAck old
      { informationElements := some (encode own ++ ieAck k), slack := entry.slack } := by
    simp only [getAck, hthere, hies, Bool.and_self]
  rw [hread, getAck_encode_ieAck (by omega) (by exact_mod_cast hk)]

/-- What one entry of a dump leaves in `ack_seq_num`. -/
theorem ack_getAck {c : Mac} (hresp : ∀ r ∈ s.responses, ResponseOk tr r) {a : α}
    {entry : ScanEntry} (hentry : ∀ ies ∈ entry.informationElements, (a, c, ies) ∈ s.responses)
    {old : Int} (h : old = -1 ∨ Processed tr c old) :
    getAck old entry = -1 ∨ Processed tr c (getAck old entry) := by
  cases hies : entry.informationElements with
  | none =>
      rw [getAck_skip old (.inr hies)]
      exact h
  | some ies =>
      cases hthere : entry.bss && entry.bssid with
      | false =>
          rw [getAck_skip old (.inl hthere)]
          exact h
      | true =>
          obtain ⟨own, k, hk, hr, hp⟩ := hresp _ (hentry ies (by simp [hies]))
          obtain rfl : ies = encode own ++ ieAck k := hr
          rw [getAck_ies hthere hies hk]
          exact .inr hp

/-- What a whole dump leaves there. -/
theorem ack_getAckDump {c : Mac} (hresp : ∀ r ∈ s.responses, ResponseOk tr r) :
    ∀ {dump : List (α × ScanEntry)} {old : Int},
      (∀ p ∈ dump, ∀ ies ∈ p.2.informationElements, (p.1, c, ies) ∈ s.responses) →
      (old = -1 ∨ Processed tr c old) →
      getAckDump old (dump.map Prod.snd) = -1 ∨
        Processed tr c (getAckDump old (dump.map Prod.snd))
  | [], old, _, h => h
  | (a, entry) :: dump, old, hdump, h => by
      have hentry := ack_getAck hresp (hdump (a, entry) List.mem_cons_self) h
      have hrest : ∀ p ∈ dump, ∀ ies ∈ p.2.informationElements, (p.1, c, ies) ∈ s.responses :=
        fun p hp => hdump p (List.mem_cons_of_mem _ hp)
      have hdone := ack_getAckDump hresp hrest hentry
      exact hdone

/-- A step that changes one client, behind events that are in order. -/
theorem Inv.update {c : Mac} {st : Station} (h : Inv tr s) (hst : StationOk (tr ++ es) c st)
    (hes : Always (fun pre => SuccessOk (tr ++ pre)) es) :
    Inv (tr ++ es) { s with station := Function.update s.station c st } where
  station := (Function.forall_update_iff s.station fun c st => StationOk (tr ++ es) c st).mpr
    ⟨hst, fun c' _ => (h.station c').mono es⟩
  sent f hf := by
    obtain ⟨hok, hs⟩ := h.sent f hf
    exact ⟨hok, List.mem_append_left es hs⟩
  responses r hr := (h.responses r hr).mono es
  success := always_append.mpr ⟨h.success, hes⟩

theorem stationOk_start (tr : List (Event α)) (c : Mac) (m : Message) :
    StationOk (tr ++ [.start c m]) c ⟨some m, Locals.start m.dataToStuff m.ts⟩ where
  started := by simp
  coupled m' hm' hsome := by
    obtain rfl : m = m' := Option.some.inj hm'
    exact coupled_nextFragment m.nulFree (by simp) (by decide) (by decide) hsome
  ack := .inl (nextFragment_ackSeqNum _)

theorem inv_start {c : Mac} {m : Message} (h : Inv tr s)
    (hstep : startStep s c m = some (s', es)) : Inv (tr ++ es) s' := by
  unfold startStep at hstep
  split at hstep
  · obtain ⟨rfl, rfl⟩ := Prod.mk.inj (Option.some.inj hstep)
    exact h.update (stationOk_start tr c m) (by simp [SuccessOk])
  · cases hstep

theorem inv_scan {c : Mac} {around : Surroundings} (h : Inv tr s)
    (hstep : scanStep s c around = some (s', es)) : Inv (tr ++ es) s' := by
  unfold scanStep at hstep
  split at hstep
  · next m fragment hm hf =>
      obtain ⟨rfl, rfl⟩ := Prod.mk.inj (Option.some.inj hstep)
      have hst := h.station c
      have hc := hst.coupled m (by simp [hm]) (by simp [hf])
      have hfrag : fragment = fragmentOf m.dataToStuff m.ts (s.station c).locals.seqNum :=
        Option.some.inj (hf.symm.trans hc.fragment)
      refine h.extend _ rfl (fun f hf => ?_) (fun r hr => .inl hr) (by simp)
      rcases List.mem_cons.mp hf with rfl | hold
      · exact .inr ⟨⟨hfrag, hc.start_lt⟩, List.mem_append_left _ (hst.started m (by simp [hm]))⟩
      · exact .inl hold
  · cases hstep

/-- A round keeps the client in order, and its dump decides what it read last. -/
theorem stationOk_round {c : Mac} {m : Message} (h : Inv tr s) (hm : (s.station c).message = some m)
    {dump : List (α × ScanEntry)} (hdump : DumpOk s c dump) (err ret : Int) :
    StationOk tr c ⟨some m, (sendRound m.effort m.dataToStuff m.ts (s.station c).locals
      ⟨err, ret, dump.map Prod.snd⟩).1⟩ where
  started m' hm' := by
    obtain rfl : m = m' := Option.some.inj hm'
    exact (h.station c).started m (by simp [hm])
  coupled m' hm' hsome := by
    obtain rfl : m = m' := Option.some.inj hm'
    exact coupled_sendRound m.nulFree ((h.station c).coupled m (by simp [hm])) _ hsome
  ack := by
    rcases sendRound_ackSeqNum m.effort m.dataToStuff m.ts (s.station c).locals
      ⟨err, ret, dump.map Prod.snd⟩ with heq | heq
    · dsimp only
      rw [heq]
      exact (h.station c).ack
    · dsimp only
      rw [heq]
      exact ack_getAckDump h.responses hdump (h.station c).ack

/-- A success of a round is for a number that has been processed. -/
theorem processed_of_success {c : Mac} (h : Inv tr s) {dump : List (α × ScanEntry)}
    (hdump : DumpOk s c dump) {m : Message} {err ret : Int} {k : Nat}
    (hk : .success k ∈ (sendRound m.effort m.dataToStuff m.ts (s.station c).locals
      ⟨err, ret, dump.map Prod.snd⟩).2) : Processed tr c k := by
  have hack := ack_getAckDump h.responses hdump (h.station c).ack
  obtain ⟨-, heq⟩ := success_of_mem_sendRound hk
  rw [heq] at hack
  -- the number is not negative, so it is not the initial one
  exact hack.resolve_left (by omega)

variable [DecidableEq α]

theorem inv_round {c : Mac} {err ret : Int} {dump : List (α × ScanEntry)} (h : Inv tr s)
    (hstep : roundStep s c err ret dump = some (s', es)) : Inv (tr ++ es) s' := by
  unfold roundStep at hstep
  split at hstep
  · cases hstep
  · next m hm =>
      split at hstep
      · next hdump =>
          obtain ⟨rfl, rfl⟩ := Prod.mk.inj (Option.some.inj hstep)
          refine h.update ((stationOk_round h hm hdump err ret).mono _) ?_
          intro pre e post hsplit c' m' k he
          have hmem : Event.client c' m' (.success k) ∈
              (sendRound m.effort m.dataToStuff m.ts (s.station c).locals
                ⟨err, ret, dump.map Prod.snd⟩).2.map (Event.client (α := α) c m) := by
            rw [hsplit, he]
            exact List.mem_append_right _ List.mem_cons_self
          obtain ⟨e', hk, heq⟩ := List.mem_map.mp hmem
          obtain ⟨rfl, rfl, rfl⟩ := Event.client.inj heq
          exact (processed_of_success h hdump hk).mono pre
      · cases hstep

/-- A frame that is received adds at most a response with its own ACK. -/
theorem inv_receive {a : α} {env : Env} {f : Frame} (h : Inv tr s)
    (hstep : receiveStep s a env f = some (s', es)) : Inv (tr ++ es) s' := by
  unfold receiveStep at hstep
  split at hstep
  · next hmem =>
      obtain ⟨⟨conf, apEs⟩, hrun, heq⟩ := Option.map_eq_some_iff.mp hstep
      obtain ⟨rfl, rfl⟩ := Prod.mk.inj heq
      obtain ⟨hok, hs⟩ := h.sent f hmem
      refine h.extend _ rfl (fun g hg => .inl hg) (fun r hr => ?_) (by simp)
      rcases List.mem_append.mp hr with hnew | hold
      · right
        rcases handleProbeReq_frame hok hrun with rfl | ⟨reply, rfl, hrep⟩
        · simp [responsesOf] at hnew
        · rcases hrep with rfl | ⟨req, resp, noack, rfl, hda, hack⟩
          · simp [responsesOf] at hnew
          · obtain rfl : r = (a, resp.da, resp.variable) := by simpa [responsesOf] using hnew
            have hk : f.received.ackSeqNum = f.seqNum := by
              have := hok.seqNum_lt
              exact atoi_fmtPad (by omega)
            rw [hda]
            refine ⟨resp.ownElems, f.seqNum, hok.seqNum_lt, ?_, f.message, f.seqNum,
              List.mem_append_left _ hs, ⟨a, some f, f.received, by simp, rfl, rfl⟩, rfl⟩
            rw [ProbeResp.variable, hack, ← hk]
            rfl
      · exact .inl hold
  · cases hstep

theorem inv_build {a : α} {env : Env} (h : Inv tr s) :
    Inv (tr ++ (buildStep s a env).2) (buildStep s a env).1 :=
  h.extend _ rfl (fun _ hf => .inl hf) (fun _ hr => .inl hr) (by simp [buildStep])

theorem inv_step {i : Input α} (h : Inv tr s) (hstep : network.step s i = some (s', es)) :
    Inv (tr ++ es) s' := by
  cases i with
  | start c m => exact inv_start h hstep
  | scan c around => exact inv_scan h hstep
  | round c err ret dump => exact inv_round h hstep
  | receive a env f => exact inv_receive h hstep
  | build a env =>
      obtain ⟨rfl, rfl⟩ := Prod.mk.inj (Option.some.inj hstep)
      exact inv_build h

theorem inv_run {inputs : List (Input α)} (hrun : network.run {} inputs = some (s, tr)) :
    Inv tr s :=
  Machine.run_history (I := Inv) (fun _ _ _ _ _ h hstep => inv_step h hstep) inv_init hrun

/-! ## No false acknowledgement -/

/-- In every run, when a client takes the success branch for fragment `k` of a
message, some access point has before processed a stuffed request of this client
with sequence number `k`, for this message or one the client had started before. -/
theorem success_processed {inputs : List (Input α)}
    (hrun : network.run {} inputs = some (s, tr)) :
    Always (fun pre e => ∀ c m k, e = .client c m (.success k) →
      ∃ m', .start c m' ∈ pre ∧ ProcessedFor pre c m'.ts k) tr := by
  refine (inv_run hrun).success.imp fun pre e h c m k he => ?_
  obtain ⟨m', k', hstart, hp, hk⟩ := h c m k he
  obtain rfl : k = k' := by exact_mod_cast hk
  exact ⟨m', hstart, hp⟩

/-! ## Two messages of one client -/

def station7 : Mac := ⟨2, 0, 0, 0, 0, 7⟩

def firstMessage : Message := ⟨2, [120], 1, 0, by decide, by decide, by decide⟩

def secondMessage : Message := ⟨2, [121], 2, 0, by decide, by decide, by decide⟩

def broadcastAround : Surroundings where
  da := ⟨255, 255, 255, 255, 255, 255⟩
  bssid := ⟨255, 255, 255, 255, 255, 255⟩
  before := [ssidElement, ratesElement]
  after := []
  ordinary := by decide

def firstFrame : Frame :=
  ⟨station7, firstMessage, 0, fragmentOf firstMessage.dataToStuff firstMessage.ts 0,
    broadcastAround⟩

/-- The cached response to `firstFrame`. -/
def cachedEntry : Unit × ScanEntry := ((), { informationElements := some [221, 4, 1, 2, 3, 48] })

/-- The first message is sent and acknowledged. -/
def firstRun : List (Input Unit) :=
  [.start station7 firstMessage, .scan station7 broadcastAround, .receive () {} firstFrame,
    .round station7 0 0 [cachedEntry]]

/-- The second message is lost, and its dump still has the first response. -/
def staleRun : List (Input Unit) :=
  firstRun ++ [.start station7 secondMessage, .scan station7 broadcastAround,
    .round station7 0 0 [cachedEntry]]

/-- The success branch for fragment 0 of a message. -/
def succeeds (m : Message) : Event Unit → Bool
  | .client _ m' (.success 0) => m' = m
  | _ => false

theorem eq_of_succeeds {m : Message} {e : Event Unit} (h : succeeds m e = true) :
    ∃ c, e = .client c m (.success 0) := by
  cases e with
  | client c m' e =>
      cases e with
      | success k =>
          cases k with
          | zero =>
              obtain rfl : m' = m := of_decide_eq_true h
              exact ⟨c, rfl⟩
          | succ k => cases h
      | transmit _ _ _ => cases h
      | dump _ _ => cases h
      | logInfo _ _ _ => cases h
  | start _ _ => cases h
  | transmit _ => cases h
  | ap _ _ _ => cases h

/-- The origin timestamps of the requests that were processed. -/
def processedTs (tr : List (Event Unit)) : List Bytes :=
  tr.filterMap fun e =>
    match e with
    | .ap _ _ (.stuffed _ x) => some x.timestampStr
    | _ => none

/-- The second message is taken for acknowledged although no access point has
processed a request with its timestamp. -/
theorem success_of_earlier_message : ∃ (inputs : List (Input Unit)) (s : State Unit)
    (tr : List (Event Unit)), network.run {} inputs = some (s, tr) ∧
      ¬ Always (fun pre e => ∀ c m k, e = .client c m (.success k) →
        ProcessedFor pre c m.ts k) tr := by
  have hobs : (network.run {} staleRun).map (fun r =>
      (r.2.any (succeeds secondMessage), processedTs r.2)) =
        some (true, [firstMessage.ts]) := by decide
  obtain ⟨r, hrun, heq⟩ := Option.map_eq_some_iff.mp hobs
  obtain ⟨hany, hts⟩ := Prod.mk.inj heq
  refine ⟨staleRun, r.1, r.2, hrun, fun h => ?_⟩
  obtain ⟨e, he, hsucc⟩ := List.any_eq_true.mp hany
  obtain ⟨c, rfl⟩ := eq_of_succeeds hsucc
  obtain ⟨pre, post, hsplit⟩ := List.append_of_mem he
  obtain ⟨a, f, x, hx, hxts, -⟩ := h pre _ post hsplit c secondMessage 0 rfl
  have hmem : x.timestampStr ∈ processedTs r.2 := by
    refine List.mem_filterMap.mpr ⟨.ap a f (.stuffed c x), ?_, rfl⟩
    rw [hsplit]
    exact List.mem_append_left _ hx
  rw [hts, hxts] at hmem
  exact absurd hmem (by decide)

end ProbeStuffing.System

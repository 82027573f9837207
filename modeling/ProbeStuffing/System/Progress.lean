import ProbeStuffing.Ap.OrdinaryFields
import ProbeStuffing.System.Transit

/-!
# A message can be finished

Whatever has been lost, delayed or acknowledged before, and whatever element is
pending at an access point, a client in the middle of a message is three steps away
from the next fragment: it scans, an access point answers the request, and the
response is in the dump.  A request overwrites the pending element, so the response
has the number of this very request (`exists_exchange`).

By induction over the fragments that are left, the client can finish its message, and
an access point has processed each of them (`can_finish`).
-/

namespace ProbeStuffing.System

open CString Tlv Trace Client Ap

variable {α : Type}

/-! ## A request that is answered -/

theorem Frame.Ok.ie_eq {f : Frame} (h : f.Ok) : f.ie = encode (f.around.before ++
    stuffingElements f.seqNum f.message.ts f.fragment.mfb f.fragment.data ++ f.around.after) := by
  have hies : f.fragment.iesData =
      iesData f.seqNum f.message.ts f.fragment.mfb f.fragment.data := by
    rw [h.fragment]
    rfl
  rw [Frame.ie, hies, iesData_eq_encode h.seqNum_lt f.message.ts_length f.message.ts_nulFree
    h.mfb_lt h.data_nulFree h.data_length.1, encode_append, encode_append]

theorem removeStuffing_append (xs ys : List Element) :
    removeStuffing (xs ++ ys) = removeStuffing xs ++ removeStuffing ys :=
  List.filter_append ..

theorem removeStuffing_ordinary {es : List Element} (h : Ordinary es) : removeStuffing es = es :=
  List.filter_eq_self.mpr fun e he => decide_eq_true fun hs => (h e he).1 hs.1

/-- The ordinary fields of a frame are those of the elements around its block. -/
theorem Frame.Ok.ordinaryFields {f : Frame} (h : f.Ok) :
    (ieee80211ParseElems f.ie).2.toOrdinaryElems =
      (upToMic (f.around.before ++ f.around.after)).foldl ordinaryStep {} := by
  have hbefore : Ordinary f.around.before := fun e he =>
    f.around.ordinary e (List.mem_append_left _ he)
  have hafter : Ordinary f.around.after := fun e he =>
    f.around.ordinary e (List.mem_append_right _ he)
  have hstuffing : removeStuffing
      (stuffingElements f.seqNum f.message.ts f.fragment.mfb f.fragment.data) = [] := by
    refine List.filter_eq_nil_iff.mpr fun e he hnot => ?_
    exact of_decide_eq_true hnot (stuffingElements_isStuffing h.seqNum_lt f.message.ts_length
      h.mfb_lt h.data_length.1 e he)
  rw [h.ie_eq, parseElems_encode_toOrdinaryElems, ← foldl_ordinaryStep_removeStuffing,
    ← upToMic_removeStuffing, removeStuffing_append, removeStuffing_append, hstuffing,
    removeStuffing_ordinary hbefore, removeStuffing_ordinary hafter, List.append_nil]

theorem Frame.Ok.ackSeqNum {f : Frame} (h : f.Ok) : f.received.ackSeqNum = f.seqNum := by
  have := h.seqNum_lt
  exact atoi_fmtPad (by omega)

/-- An access point answers a broadcast request for its SSID. -/
theorem replyChecks_broadcast {mgmt : Mgmt} {elems : Elems}
    (h : elems.toOrdinaryElems = { ssid := some (ascii "ap"), suppRates := some [130] }) :
    replyChecks {} mgmt elems = some .exactSsidMatch := by
  obtain ⟨fields, stuffedData, nStuffedIes⟩ := elems
  obtain rfl : fields = { ssid := some (ascii "ap"), suppRates := some [130] } := h
  rfl

/-- The response has the number of the request, whatever was pending before. -/
theorem handleProbeReq_broadcast {f : Frame} (h : f.Ok) (haround : f.around = broadcastAround)
    (conf : BssConf) :
    ∃ conf' req resp noack, handleProbeReq {} f.bytes conf =
        some (conf', [.stuffed f.client f.received, .systemCall (command (recordOf f 0 0)) 0,
          .probeResp req resp, .sendMlme resp noack]) ∧
      resp.da = f.client ∧ resp.variable = ieAck f.seqNum := by
  obtain ⟨hres, hover, -⟩ := h.parse
  have haccepted : accepted {} f.bytes =
      some (⟨f.around.da, f.client, f.around.bssid, f.ie⟩, (ieee80211ParseElems f.ie).2) :=
    accepted_iff.mpr ⟨f.mgmt, rfl, rfl, hres, rfl⟩
  have hfields : (ieee80211ParseElems f.ie).2.toOrdinaryElems =
      { ssid := some (ascii "ap"), suppRates := some [130] } := by
    rw [h.ordinaryFields, haround]
    rfl
  rw [handleProbeReq_of_accepted haccepted hover]
  simp only [handleStuffing, h.extract_eq, handleReply, replyChecks_broadcast hfields,
    hostapdGenProbeResp, if_true]
  refine ⟨_, _, _, _, rfl, rfl, ?_⟩
  rw [ProbeResp.variable, ← h.ackSeqNum]
  rfl

/-! ## One fragment -/

/-- The number `k` of a response is what its entry leaves. -/
theorem getAck_response {f : Frame} (h : f.Ok) (old : Int) :
    getAck old { informationElements := some (ieAck f.seqNum) } = f.seqNum := by
  have hlt := h.seqNum_lt
  exact getAck_encode_ieAck (by omega) (by exact_mod_cast hlt) [] [] old

/-- A round whose dump has the number of the fragment goes on to the next one. -/
theorem sendRound_acked_eq {effort : Int} {D ts : Bytes} {st : Locals} (h : Coupled D ts st)
    {dump : List ScanEntry} (hack : getAckDump st.ackSeqNum dump = st.seqNum) :
    ∃ st₁ es, sendRound effort D ts st ⟨0, 0, dump⟩ = (nextFragment D ts st₁, es) ∧
      st₁.seqNum = st.seqNum + 1 ∧
      st₁.lenDataAlreadyStuffed = min (1394 * st₁.seqNum) D.length ∧
      .success st.seqNum ∈ es := by
  rcases sendRound_cases effort D ts h.fragment ⟨0, 0, dump⟩ with
    ⟨herr, -⟩ | ⟨-, hwrong, -⟩ | ⟨-, -, -, hr⟩
  · exact absurd rfl herr
  · rcases hwrong with hret | hne
    · exact absurd hret (Int.lt_irrefl 0)
    · exact absurd hack hne
  · rw [hr, afterBreak_of_pos (by simp) (by simp)]
    exact ⟨_, _, rfl, rfl, h.already, by simp⟩

variable {tr : List (Event α)} {s s' : State α}

/-- The fragments of a message from `k` on and before `k'` have been sent, processed
and acknowledged, and no message has been started. -/
structure Exchanged (c : Mac) (m : Message) (k k' : Nat) (s s' : State α) (es : List (Event α)) :
    Prop where
  success : ∀ i, k ≤ i → i < k' → .client c m (.success i) ∈ es
  processed : ∀ i, k ≤ i → i < k' → ∃ f, f.client = c ∧ f.message = m ∧ f.seqNum = i ∧ f.Ok ∧
    StuffedIn es f ∧ ForwardedIn es f
  sent : ∀ f ∈ s'.sent, f ∈ s.sent ∨ f.message = m
  started : started es = []

theorem Exchanged.trans {c : Mac} {m : Message} {k k' k'' : Nat} {s₁ : State α}
    {es es' : List (Event α)} (h : Exchanged c m k k' s s₁ es)
    (h' : Exchanged c m k' k'' s₁ s' es') : Exchanged c m k k'' s s' (es ++ es') where
  success i hk hi := by
    rcases Nat.lt_or_ge i k' with hlt | hge
    · exact List.mem_append_left es' (h.success i hk hlt)
    · exact List.mem_append_right es (h'.success i hge hi)
  processed i hk hi := by
    rcases Nat.lt_or_ge i k' with hlt | hge
    · obtain ⟨f, hc, hm, hseq, hok, hf, hf'⟩ := h.processed i hk hlt
      exact ⟨f, hc, hm, hseq, hok, stuffedIn_append.mpr (.inl hf), forwardedIn_append.mpr (.inl hf')⟩
    · obtain ⟨f, hc, hm, hseq, hok, hf, hf'⟩ := h'.processed i hge hi
      exact ⟨f, hc, hm, hseq, hok, stuffedIn_append.mpr (.inr hf), forwardedIn_append.mpr (.inr hf')⟩
  sent f hf := by
    rcases h'.sent f hf with hold | hm
    · exact h.sent f hold
    · exact .inr hm
  started := by rw [started_append, h.started, h'.started, List.append_nil]

variable [DecidableEq α]

/-- A fragment is sent, processed and acknowledged in three steps. -/
theorem exists_exchange (hinv : Inv tr s) {c : Mac} {m : Message}
    (hm : (s.station c).message = some m) (hf : (s.station c).locals.fragment ≠ none) (a : α) :
    ∃ inputs s' es st₁, network.run s inputs = some (s', es) ∧
      s'.station c = ⟨some m, nextFragment m.dataToStuff m.ts st₁⟩ ∧
      st₁.seqNum = (s.station c).locals.seqNum + 1 ∧
      st₁.lenDataAlreadyStuffed = min (1394 * st₁.seqNum) m.dataToStuff.length ∧
      Exchanged c m (s.station c).locals.seqNum ((s.station c).locals.seqNum + 1) s s' es := by
  have hcoupled := (hinv.station c).coupled m (by simp [hm]) hf
  -- the request
  let f : Frame := ⟨c, m, (s.station c).locals.seqNum,
    fragmentOf m.dataToStuff m.ts (s.station c).locals.seqNum, broadcastAround⟩
  have hok : f.Ok := ⟨rfl, hcoupled.start_lt⟩
  let s₁ : State α := { s with sent := f :: s.sent }
  have hscan : network.step s (.scan c broadcastAround) = some (s₁, [.transmit f]) := by
    show scanStep s c broadcastAround = _
    rw [scanStep, hm, hcoupled.fragment]
  -- the response
  obtain ⟨conf', req, resp, noack, hhandle, hda, hvariable⟩ :=
    handleProbeReq_broadcast hok rfl (s.bss a)
  let apEvents : List Ap.Event := [.stuffed c f.received, .systemCall (command (recordOf f 0 0)) 0,
    .probeResp req resp, .sendMlme resp noack]
  let s₂ : State α := { s₁ with
    bss := Function.update s.bss a conf'
    responses := responsesOf a apEvents ++ s.responses }
  have hreceive : network.step s₁ (.receive a {} f) = some (s₂, apEvents.map (.ap a (some f))) := by
    show receiveStep s₁ a {} f = _
    rw [receiveStep, if_pos List.mem_cons_self, hhandle]
    rfl
  have hresponses : (a, c, ieAck f.seqNum) ∈ s₂.responses := by
    have hresp : responsesOf a apEvents = [(a, resp.da, resp.variable)] := rfl
    refine List.mem_append_left _ ?_
    rw [hresp, hda, hvariable]
    exact List.mem_singleton_self _
  -- the dump
  let dump : List (α × ScanEntry) := [(a, { informationElements := some (ieAck f.seqNum) })]
  have hdump : DumpOk s₂ c dump := by
    refine List.forall_mem_singleton.mpr fun ies hies => ?_
    obtain rfl := Option.some.inj hies
    exact hresponses
  obtain ⟨st₁, es, hround, hseq, halready, hsuccess⟩ := @sendRound_acked_eq m.effort
    m.dataToStuff m.ts (s.station c).locals hcoupled (dump.map Prod.snd) (getAck_response hok _)
  let s₃ : State α := { s₂ with
    station := Function.update s.station c ⟨some m, nextFragment m.dataToStuff m.ts st₁⟩ }
  have hstep : network.step s₂ (.round c 0 0 dump) = some (s₃, es.map (.client c m)) := by
    show roundStep s₂ c 0 0 dump = _
    have hm₂ : (s₂.station c).message = some m := hm
    have hround₂ : sendRound m.effort m.dataToStuff m.ts (s₂.station c).locals
        ⟨0, 0, dump.map Prod.snd⟩ = (nextFragment m.dataToStuff m.ts st₁, es) := hround
    rw [roundStep, hm₂]
    dsimp only
    rw [if_pos hdump, hround₂]
  have hrun : network.run s [.scan c broadcastAround, .receive a {} f, .round c 0 0 dump] =
      some (s₃, [.transmit f] ++ (apEvents.map (.ap a (some f)) ++ es.map (.client c m))) := by
    refine Machine.run_cons_iff.mpr ⟨s₁, _, _, hscan, ?_, rfl⟩
    refine Machine.run_cons_iff.mpr ⟨s₂, _, _, hreceive, ?_, rfl⟩
    exact Machine.run_singleton_iff.mpr hstep
  refine ⟨_, s₃, _, st₁, hrun, Function.update_self .., hseq, halready, ?_, ?_, ?_, ?_⟩
  · intro i hk hi
    obtain rfl : i = (s.station c).locals.seqNum := by omega
    exact List.mem_append_right _ (List.mem_append_right _ (List.mem_map_of_mem hsuccess))
  · intro i hk hi
    obtain rfl : i = (s.station c).locals.seqNum := by omega
    refine ⟨f, rfl, rfl, rfl, hok, ⟨a, c, f.received, ?_⟩, a, command (recordOf f 0 0), ?_⟩
    · exact List.mem_append_right _ (List.mem_append_left _ List.mem_cons_self)
    · exact List.mem_append_right _ (List.mem_append_left _
        (List.mem_cons_of_mem _ List.mem_cons_self))
  · intro g hg
    rcases List.mem_cons.mp hg with rfl | hold
    · exact .inr rfl
    · exact .inl hold
  · rw [started_append, started_append]
    have hclient : started (es.map (Event.client (α := α) c m)) = [] := by
      rw [started, List.filterMap_map]
      exact List.filterMap_eq_nil_iff.mpr fun e _ => rfl
    rw [hclient]
    rfl

/-! ## The fragments that are left -/

theorem exists_finish {c : Mac} {m : Message} (a : α) :
    ∀ {n : Nat} {tr : List (Event α)} {s : State α}, Inv tr s →
      (s.station c).message = some m → (s.station c).locals.fragment ≠ none →
        m.dataToStuff.length ≤ 1394 * (s.station c).locals.seqNum + n →
          ∃ inputs s' es k', network.run s inputs = some (s', es) ∧
            (s'.station c).locals.fragment = none ∧ m.dataToStuff.length ≤ 1394 * k' ∧
              Exchanged c m (s.station c).locals.seqNum k' s s' es
  | 0, tr, s, hinv, hm, hf, hn => by
      have hlt := ((hinv.station c).coupled m (by simp [hm]) hf).start_lt
      omega
  | n + 1, tr, s, hinv, hm, hf, hn => by
      obtain ⟨inputs, s₁, es, st₁, hrun, hstation, hseq, halready, hexchanged⟩ :=
        exists_exchange hinv hm hf a
      have hinv₁ : Inv (tr ++ es) s₁ := Machine.run_invariant_from (P := fun _ => True) (I := Inv)
        (fun _ _ _ _ _ h _ hstep => inv_step h hstep) hinv (fun _ _ => trivial) hrun
      have hnext := @nextFragment_eq m.dataToStuff m.ts m.nulFree st₁ halready
      have hm₁ : (s₁.station c).message = some m := by rw [hstation]
      rcases Nat.lt_or_ge (1394 * st₁.seqNum) m.dataToStuff.length with hlt | hge
      · have hf₁ : (s₁.station c).locals.fragment ≠ none := by
          rw [hstation, hnext, if_pos hlt]
          exact Option.some_ne_none _
        have hseq₁ : (s₁.station c).locals.seqNum = (s.station c).locals.seqNum + 1 := by
          rw [hstation, ← hseq]
          exact nextFragment_seqNum st₁
        obtain ⟨inputs', s', es', k', hrun', hend, hlen, hexchanged'⟩ :=
          exists_finish a hinv₁ hm₁ hf₁ (n := n) (by omega)
        rw [hseq₁] at hexchanged'
        exact ⟨inputs ++ inputs', s', es ++ es', k',
          Machine.run_append_iff.mpr ⟨s₁, es, es', hrun, hrun', rfl⟩, hend, hlen,
          hexchanged.trans hexchanged'⟩
      · refine ⟨inputs, s₁, es, (s.station c).locals.seqNum + 1, hrun, ?_, hseq ▸ hge, hexchanged⟩
        rw [hstation, hnext, if_neg (Nat.not_lt.mpr hge)]

/-- A client that has ended its message can send another one, to the end. -/
theorem exists_message (hinv : Inv tr s) {c : Mac} {m : Message}
    (hidle : (s.station c).locals.fragment = none) (hne : m.dataToStuff ≠ []) (a : α) :
    ∃ inputs s' es, network.run s (.start c m :: inputs) = some (s', es) ∧
      (s'.station c).locals.fragment = none ∧ started es = [(c, m)] ∧
      (∀ f ∈ s'.sent, f ∈ s.sent ∨ f.message = m) ∧
      ∀ k, 1394 * k < m.dataToStuff.length →
        ∃ f, f.client = c ∧ f.message = m ∧ f.seqNum = k ∧ f.Ok ∧ ForwardedIn es f := by
  let s₁ : State α := { s with
    station := Function.update s.station c ⟨some m, Locals.start m.dataToStuff m.ts⟩ }
  have hstart : network.step s (.start c m) = some (s₁, [.start c m]) := if_pos hidle
  have hstation : s₁.station c = ⟨some m, Locals.start m.dataToStuff m.ts⟩ :=
    Function.update_self ..
  have hfragment : (s₁.station c).locals.fragment ≠ none := by
    have hcstr : cstr m.dataToStuff ≠ [] := by
      rw [cstr_eq_self m.nulFree]
      exact hne
    obtain ⟨fragment, hf⟩ := start_fragment m.ts hcstr
    rw [hstation, hf]
    exact Option.some_ne_none fragment
  have hseq : (s₁.station c).locals.seqNum = 0 := by
    rw [hstation]
    exact nextFragment_seqNum {}
  obtain ⟨inputs, s', es, k', hrun, hend, hlen, hexchanged⟩ := exists_finish a
    (inv_step hinv hstart) (by rw [hstation]) hfragment (Nat.le_add_left _ _)
  refine ⟨inputs, s', [.start c m] ++ es, Machine.run_cons_iff.mpr ⟨s₁, _, _, hstart, hrun, rfl⟩,
    hend, ?_, hexchanged.sent, fun k hk => ?_⟩
  · rw [started_append, hexchanged.started]
    rfl
  · obtain ⟨f, hc, hm, hk, hok, -, hf⟩ := hexchanged.processed k (by omega) (by omega)
    exact ⟨f, hc, hm, hk, hok, forwardedIn_append.mpr (.inr hf)⟩

/-- From every state that the network can reach, with any access point, a client in
the middle of a message can finish it: each fragment that is left is processed and
acknowledged. -/
theorem can_finish {inputs : List (Input α)} {s : State α} {tr : List (Event α)}
    (hrun : network.run {} inputs = some (s, tr)) {c : Mac} {m : Message}
    (hm : (s.station c).message = some m) (hf : (s.station c).locals.fragment ≠ none) (a : α) :
    ∃ more s' tr', network.run s more = some (s', tr') ∧
      (s'.station c).locals.fragment = none ∧
      ∀ k, (s.station c).locals.seqNum ≤ k → 1394 * k < m.dataToStuff.length →
        .client c m (.success k) ∈ tr' ∧
          ∃ f, f.client = c ∧ f.message = m ∧ f.seqNum = k ∧ f.Ok ∧ StuffedIn tr' f := by
  obtain ⟨more, s', tr', k', hmore, hend, hlen, hexchanged⟩ :=
    exists_finish a (inv_run hrun) hm hf (Nat.le_add_left _ _)
  refine ⟨more, s', tr', hmore, hend, fun k hk hlt => ?_⟩
  have hk' : k < k' := by omega
  obtain ⟨f, hc, hm, hseq, hok, hf, -⟩ := hexchanged.processed k hk hk'
  exact ⟨hexchanged.success k hk hk', f, hc, hm, hseq, hok, hf⟩

/-- The second message of `staleRun`, from before its scan. -/
theorem can_finish_secondMessage : ∃ s tr,
    network.run {} (firstRun ++ [.start station7 secondMessage]) = some (s, tr) ∧
      ∃ more s' tr', network.run s more = some (s', tr') ∧
        .client station7 secondMessage (.success 0) ∈ tr' := by
  have hrun : (network.run {} (firstRun ++ [.start station7 secondMessage])).map
      (fun r => ((r.1.station station7).message, (r.1.station station7).locals.seqNum,
        (r.1.station station7).locals.fragment.isSome)) = some (some secondMessage, 0, true) := by
    decide +kernel
  obtain ⟨r, hr, heq⟩ := Option.map_eq_some_iff.mp hrun
  obtain ⟨hm, hrest⟩ := Prod.mk.inj heq
  obtain ⟨hseq, hsome⟩ := Prod.mk.inj hrest
  obtain ⟨more, s', tr', hmore, -, hall⟩ :=
    can_finish hr hm (Option.isSome_iff_ne_none.mp hsome) ()
  exact ⟨r.1, r.2, hr, more, s', tr', hmore, (hall 0 (Nat.le_of_eq hseq) (by decide)).1⟩

end ProbeStuffing.System

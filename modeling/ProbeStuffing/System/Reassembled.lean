import ProbeStuffing.Lib.Reassembly
import ProbeStuffing.System.Steps

/-!
# What the access points have of a message

The access points do not put messages together, but what they pass on is meant to
allow it: the client, the origin timestamp, the sequence number, the more-fragment
bit and the data of each request.

Whatever was lost, repeated or overtaken, and whichever access points received it,
there is only one message that the requests of one client with one timestamp can be
put together to (`reassembled_message`).  And when the send loop of the first
message of a client has ended without giving up, they can be put together: every
byte of it has been processed by some access point (`acknowledged_reassembled`).
-/

namespace ProbeStuffing.System

open CString Tlv Trace Client Ap Reassembly

variable {α : Type}

/-! ## Reading the records -/

/-- The number, the more-fragment bit and the data of a request. -/
def receivedFormat : Format Received UInt8 where
  number x := x.ackSeqNum.toNat
  more x := x.mfbStr = decimal 1
  data := Received.recvData

/-- The requests of a client with one origin timestamp that were processed. -/
def receivedFor (tr : List (Event α)) (c : Mac) (ts : Bytes) : List Received :=
  tr.filterMap fun e =>
    match e with
    | .ap _ _ (.stuffed c' x) => if c' = c ∧ x.timestampStr = ts then some x else none
    | _ => none

theorem mem_receivedFor {tr : List (Event α)} {c : Mac} {ts : Bytes} {x : Received} :
    x ∈ receivedFor tr c ts ↔
      ∃ a g, .ap a g (.stuffed c x) ∈ tr ∧ x.timestampStr = ts := by
  rw [receivedFor, List.mem_filterMap]
  constructor
  · rintro ⟨e, he, heq⟩
    cases e with
    | ap a g e =>
        cases e with
        | stuffed c' y =>
            dsimp only at heq
            split at heq
            · next hc =>
                obtain rfl := Option.some.inj heq
                obtain ⟨rfl, hts⟩ := hc
                exact ⟨a, g, he, hts⟩
            · cases heq
        | systemCall _ _ => cases heq
        | probeResp _ _ => cases heq
        | sendMlme _ _ => cases heq
    | start _ _ => cases heq
    | transmit _ => cases heq
    | client _ _ _ => cases heq
  · rintro ⟨a, g, he, hts⟩
    exact ⟨_, he, if_pos ⟨rfl, hts⟩⟩

/-- What a client writes into a frame is a piece of its message. -/
theorem Frame.Ok.number {f : Frame} (h : f.Ok) : receivedFormat.number f.received = f.seqNum := by
  have hlt := h.seqNum_lt
  have hack : f.received.ackSeqNum = f.seqNum := atoi_fmtPad (by omega)
  show f.received.ackSeqNum.toNat = _
  rw [hack]
  rfl

theorem Frame.Ok.pieceOf {f : Frame} (h : f.Ok) :
    receivedFormat.PieceOf 1394 f.message.dataToStuff f.received where
  data := by
    have hmin : min (1394 * (f.seqNum + 1)) f.message.dataToStuff.length =
        1394 * f.seqNum + min 1394 (f.message.dataToStuff.length - 1394 * f.seqNum) := by
      have hlt := h.start_lt
      omega
    rw [h.number]
    show f.fragment.data = _
    rw [h.fragment]
    simp only [fragmentOf]
    rw [hmin, slice_eq_take_drop, ← List.length_drop]
    exact (List.take_eq_take_min ..).symm
  more_iff := by
    rw [h.number]
    show decimal f.fragment.mfb = decimal 1 ↔ _
    rw [h.fragment]
    simp only [fragmentOf]
    split
    · next hmore => exact iff_of_true rfl hmore
    · next hmore => exact iff_of_false (by decide) hmore

/-! ## One message for one timestamp -/

section Runs

variable {s s' : State α} {tr es : List (Event α)}

/-- What was processed is what clients wrote into frames of messages they had started. -/
def Written (tr : List (Event α)) : Prop :=
  ∀ a g c x, .ap a g (.stuffed c x) ∈ tr →
    ∃ f : Frame, f.Ok ∧ .start c f.message ∈ tr ∧ x = f.received

/-- The requests of a client with one timestamp are pieces of the message with it. -/
theorem pieceOf_receivedFor (hwritten : Written tr) {c : Mac} {m : Message}
    (hsame : ∀ m', .start c m' ∈ tr → m'.ts = m.ts → m' = m) :
    ∀ x ∈ receivedFor tr c m.ts, receivedFormat.PieceOf 1394 m.dataToStuff x := by
  intro x hx
  obtain ⟨a, g, hmem, hts⟩ := mem_receivedFor.mp hx
  obtain ⟨f, hok, hstart, rfl⟩ := hwritten a g c x hmem
  rw [← hsame f.message hstart hts]
  exact hok.pieceOf

variable [DecidableEq α]

/-- A request that is processed is the frame of some client. -/
theorem stuffed_of_step (hinv : Inv tr s) {i : Input α}
    (hstep : network.step s i = some (s', es)) {a : α} {g : Option Frame} {c : Mac}
    {x : Received} (hx : .ap a g (.stuffed c x) ∈ es) :
    ∃ f ∈ s.sent, c = f.client ∧ x = f.received := by
  rcases (step_of_network hstep).ap_events with
    hnone | ⟨a', env, rfl⟩ | ⟨a', env, f, r, hf, hrun, rfl⟩
  · exact absurd hx (hnone a g _)
  · obtain ⟨e', he', heq⟩ := List.mem_map.mp hx
    obtain ⟨-, -, rfl⟩ := Event.ap.inj heq
    rcases buildApParams_cases env (s.bss a') with ⟨-, h⟩ | ⟨-, resp, h, -⟩
    · rw [h] at he'
      cases he'
    · rw [h] at he'
      simp at he'
  · obtain ⟨e', he', heq⟩ := List.mem_map.mp hx
    obtain ⟨-, -, rfl⟩ := Event.ap.inj heq
    refine ⟨f, hf, ?_⟩
    rcases handleProbeReq_frame (hinv.sent f hf).1 hrun with hr | ⟨reply, hr, hreply⟩
    · rw [hr] at he'
      cases he'
    · rw [hr] at he'
      rcases hreply with rfl | ⟨req, resp, noack, rfl, -, -⟩
      · simpa using he'
      · simpa using he'

theorem written_run {inputs : List (Input α)} (hrun : network.run {} inputs = some (s, tr)) :
    Written tr := by
  have hinv : Inv tr s ∧ Written tr := by
    refine Machine.run_history (I := fun tr s => Inv tr s ∧ Written tr) ?_
      ⟨inv_init, fun a g c x hx => by cases hx⟩ hrun
    intro pre s i s' es h hstep
    refine ⟨inv_step h.1 hstep, fun a g c x hx => ?_⟩
    rcases List.mem_append.mp hx with hold | hnew
    · obtain ⟨f, hok, hstart, hreceived⟩ := h.2 a g c x hold
      exact ⟨f, hok, List.mem_append_left es hstart, hreceived⟩
    · obtain ⟨f, hf, rfl, rfl⟩ := stuffed_of_step h.1 hstep hnew
      obtain ⟨hok, hstart⟩ := h.1.sent f hf
      exact ⟨f, hok, List.mem_append_left es hstart, rfl⟩
  exact hinv.2

/-- In every run in which no client uses a timestamp twice, the requests of one
client with one timestamp, whichever access points have processed them, in whatever
order and how often, can be put together to nothing but the message that the client
has started with this timestamp. -/
theorem reassembled_message {inputs : List (Input α)}
    (hrun : network.run {} inputs = some (s, tr)) (hts : DistinctTimestamps tr) {c : Mac}
    {ts bytes : Bytes} (h : Assembled receivedFormat (receivedFor tr c ts) 0 bytes) :
    ∃ m, .start c m ∈ tr ∧ m.ts = ts ∧ bytes = m.dataToStuff := by
  have hwritten := written_run hrun
  obtain ⟨x, hx⟩ : ∃ x, x ∈ receivedFor tr c ts := by
    generalize hk : 0 = k at h
    cases h with
    | last hx _ => exact ⟨_, hx⟩
    | more hx _ _ => exact ⟨_, hx⟩
  obtain ⟨a, g, hmem, hxts⟩ := mem_receivedFor.mp hx
  obtain ⟨f, hok, hstart, rfl⟩ := hwritten a g c x hmem
  obtain rfl : f.message.ts = ts := hxts
  refine ⟨f.message, hstart, rfl, ?_⟩
  have hall := pieceOf_receivedFor hwritten fun m' hm' hsame =>
    hts _ (mem_started hm') _ (mem_started hstart) rfl hsame
  exact h.eq_drop hall

end Runs

/-- The only request of `firstRun`, put together alone. -/
theorem reassembled_message_firstRun : ∃ s tr, network.run {} firstRun = some (s, tr) ∧
    ∃ m, .start station7 m ∈ tr ∧ m.ts = firstMessage.ts ∧ [120] = m.dataToStuff := by
  have hobs : (network.run {} firstRun).map (fun r =>
      (started r.2, receivedFor r.2 station7 firstMessage.ts)) =
        some ([(station7, firstMessage)], [firstFrame.received]) := by decide
  obtain ⟨r, hrun, heq⟩ := Option.map_eq_some_iff.mp hobs
  obtain ⟨hstarted, hreceived⟩ := Prod.mk.inj heq
  have hts : DistinctTimestamps r.2 := by
    rw [DistinctTimestamps, hstarted]
    simp
  have hlast : ¬ receivedFormat.more firstFrame.received := by
    show ¬ decimal 0 = decimal 1
    decide
  have hassembled : Assembled receivedFormat (receivedFor r.2 station7 firstMessage.ts) 0 [120] := by
    rw [hreceived]
    exact .last List.mem_cons_self hlast
  exact ⟨r.1, r.2, hrun, reassembled_message hrun hts hassembled⟩

/-! ## A send loop that ends -/

section Loop

variable {D ts : Bytes} {st : Locals}

/-- With effort 2 a round counts a fragment exactly when it takes its success
branch, and it ends the loop at the end of the message or with a counter at 0. -/
theorem sendRound_acked (hD : NulFree D) (h : Coupled D ts st) (round : Round) :
    let r := sendRound 2 D ts st round
    (∀ k < r.1.seqNum, k < st.seqNum ∨ .success k ∈ r.2) ∧
      (r.1.fragment = none → r.1.scanRetriesLeft ≠ 0 → r.1.ackRetriesLeft ≠ 0 →
        D.length ≤ 1394 * r.1.seqNum) := by
  intro r
  refine ⟨fun k hk => ?_, fun hnone hscan hack => ?_⟩
  · rcases sendRound_cases 2 D ts h.fragment round with ⟨-, hr⟩ | ⟨-, -, hr⟩ | ⟨-, -, -, hr⟩
    · left
      have hseq : r.1.seqNum = st.seqNum := by
        show (sendRound 2 D ts st round).1.seqNum = _
        rw [hr]
        dsimp only
        split
        · rfl
        · exact afterBreak_seqNum _
      rwa [hseq] at hk
    · left
      have hseq : r.1.seqNum = st.seqNum := by
        show (sendRound 2 D ts st round).1.seqNum = _
        rw [hr]
        exact noAck_seqNum _
      rwa [hseq] at hk
    · have hseq : r.1.seqNum = st.seqNum + 1 := by
        show (sendRound 2 D ts st round).1.seqNum = _
        rw [hr]
        exact afterBreak_seqNum _
      rw [hseq] at hk
      rcases Nat.lt_succ_iff_lt_or_eq.mp hk with hlt | rfl
      · exact .inl hlt
      · right
        show _ ∈ (sendRound 2 D ts st round).2
        rw [hr]
        simp
  · have hout : RoundOutcome 2 D ts st r.1 r.2 := sendRound_outcome h round
    generalize r.1 = st' at hout hnone hscan hack ⊢
    generalize r.2 = es at hout
    cases hout with
    | again _ hc _ =>
        rw [hc.fragment] at hnone
        cases hnone
    | giveUp _ _ hzero _ => exact absurd hzero (not_or.mpr ⟨hscan, hack⟩)
    | @advance st₁ _ _ hal _ _ _ _ =>
        rw [nextFragment_seqNum]
        rw [nextFragment_eq hD hal] at hnone
        split at hnone
        · cases hnone
        · next hend => exact Nat.not_lt.mp hend

end Loop

section Ended

variable {s s' : State α} {tr es : List (Event α)}

/-- What a client with effort 2 has counted, it has taken the success branch for. -/
def Acked (tr : List (Event α)) (s : State α) : Prop :=
  ∀ c, ∀ m ∈ (s.station c).message, m.effort = 2 →
    (∀ k < (s.station c).locals.seqNum, .client c m (.success k) ∈ tr) ∧
      ((s.station c).locals.fragment = none → (s.station c).locals.scanRetriesLeft ≠ 0 →
        (s.station c).locals.ackRetriesLeft ≠ 0 →
          m.dataToStuff.length ≤ 1394 * (s.station c).locals.seqNum)

theorem Acked.append (h : Acked tr s) (es : List (Event α))
    (hstation : s'.station = s.station) : Acked (tr ++ es) s' := by
  intro c m hm heffort
  rw [hstation] at hm ⊢
  obtain ⟨hacked, hended⟩ := h c m hm heffort
  exact ⟨fun k hk => List.mem_append_left es (hacked k hk), hended⟩

/-- One client changes, and the others keep what they had. -/
theorem Acked.update (h : Acked tr s) {c : Mac} {station : Station}
    (hnew : ∀ m ∈ station.message, m.effort = 2 →
      (∀ k < station.locals.seqNum, .client c m (.success k) ∈ tr ++ es) ∧
        (station.locals.fragment = none → station.locals.scanRetriesLeft ≠ 0 →
          station.locals.ackRetriesLeft ≠ 0 →
            m.dataToStuff.length ≤ 1394 * station.locals.seqNum)) :
    Acked (tr ++ es) { s with station := Function.update s.station c station } := by
  intro c'
  dsimp only
  rcases eq_or_ne c' c with rfl | hne
  · rwa [Function.update_self]
  · rw [Function.update_of_ne hne]
    exact h.append es rfl c'

variable [DecidableEq α]

theorem acked_step (hinv : Inv tr s) (h : Acked tr s) {i : Input α}
    (hstep : network.step s i = some (s', es)) : Acked (tr ++ es) s' := by
  cases step_of_network hstep with
  | @start c m _ =>
      refine h.update fun m' hm' _ => ?_
      obtain rfl : m = m' := Option.some.inj hm'
      have hzero : ({} : Locals).lenDataAlreadyStuffed =
          min (1394 * ({} : Locals).seqNum) m.dataToStuff.length := by simp
      refine ⟨fun k hk => ?_, fun hnone _ _ => ?_⟩
      · rw [Locals.start, nextFragment_seqNum] at hk
        exact absurd hk (Nat.not_lt_zero k)
      · rw [Locals.start, nextFragment_eq m.nulFree hzero] at hnone
        rw [Locals.start, nextFragment_seqNum]
        split at hnone
        · cases hnone
        · next hend => exact Nat.not_lt.mp hend
  | scan _ _ => exact h.append _ rfl
  | @round c err ret dump m _ hm _ hr =>
      subst hr
      refine h.update fun m' hm' heffort => ?_
      obtain rfl : m = m' := Option.some.inj hm'
      obtain ⟨hacked, hended⟩ := h c m hm heffort
      rcases Classical.em ((s.station c).locals.fragment = none) with hidle | hsending
      · rw [sendRound_none hidle]
        exact ⟨fun k hk => List.mem_append_left _ (hacked k hk), hended⟩
      · have hc := (hinv.station c).coupled m hm hsending
        obtain ⟨hsuccess, hend⟩ := sendRound_acked m.nulFree hc ⟨err, ret, dump.map Prod.snd⟩
        rw [heffort]
        refine ⟨fun k hk => ?_, hend⟩
        rcases hsuccess k hk with hlt | hmem
        · exact List.mem_append_left _ (hacked k hlt)
        · exact List.mem_append_right _ (List.mem_map_of_mem hmem)
  | receive _ _ => exact h.append _ rfl
  | build _ => exact h.append _ rfl

theorem acked_run {inputs : List (Input α)} (hrun : network.run {} inputs = some (s, tr)) :
    Inv tr s ∧ Acked tr s := by
  refine Machine.run_history (I := fun tr s => Inv tr s ∧ Acked tr s) ?_
    ⟨inv_init, fun c m hm => by cases hm⟩ hrun
  exact fun pre s i s' es h hstep => ⟨inv_step h.1 hstep, acked_step h.1 h.2 hstep⟩

/-- In every run: when the send loop of the first message of a client has ended,
with guaranteed delivery and without giving up, the access points have processed
all of the message, and it can be put together from what they have. -/
theorem acknowledged_reassembled {inputs : List (Input α)}
    (hrun : network.run {} inputs = some (s, tr)) {c : Mac} {m : Message}
    (hm : (s.station c).message = some m) (hfirst : ∀ m', .start c m' ∈ tr → m' = m)
    (heffort : m.effort = 2) (hne : m.dataToStuff ≠ [])
    (hended : (s.station c).locals.fragment = none)
    (hscan : (s.station c).locals.scanRetriesLeft ≠ 0)
    (hack : (s.station c).locals.ackRetriesLeft ≠ 0) :
    Assembled receivedFormat (receivedFor tr c m.ts) 0 m.dataToStuff := by
  obtain ⟨hinv, hacked⟩ := acked_run hrun
  have hwritten := written_run hrun
  obtain ⟨hsuccess, hend⟩ := hacked c m hm heffort
  have hlen := hend hended hscan hack
  have hall := pieceOf_receivedFor hwritten (c := c) fun m' hm' _ => hfirst m' hm'
  refine assembled_of_all hall (s.station c).locals.seqNum (List.length_pos_iff.mpr hne) ?_ ?_
  · rwa [Nat.zero_add]
  · intro i hi
    have hlt : i < (s.station c).locals.seqNum := Nat.lt_of_mul_lt_mul_left (hi.trans_le hlen)
    obtain ⟨pre, post, hsplit⟩ := List.append_of_mem (hsuccess i hlt)
    obtain ⟨m', k, hstart, ⟨a, g, x, hx, hxts, hnum⟩, hk⟩ :=
      hinv.success pre _ post hsplit c m i rfl
    obtain rfl : m' = m := hfirst m' (by rw [hsplit]; exact List.mem_append_left _ hstart)
    obtain rfl : i = k := Int.ofNat.inj hk
    have hmem : .ap a g (.stuffed c x) ∈ tr := by
      rw [hsplit]
      exact List.mem_append_left _ hx
    refine ⟨x, mem_receivedFor.mpr ⟨a, g, hmem, hxts⟩, ?_⟩
    obtain ⟨f, hok, -, rfl⟩ := hwritten a g c x hmem
    have hfmt : fmtPad 8 f.seqNum = fmtPad 8 i := hnum
    have heq := congrArg digitsVal hfmt
    rw [digitsVal_fmtPad, digitsVal_fmtPad] at heq
    rw [hok.number, heq]

end Ended

theorem acknowledged_reassembled_firstRun : ∃ s tr, network.run {} firstRun = some (s, tr) ∧
    Assembled receivedFormat (receivedFor tr station7 firstMessage.ts) 0 [120] := by
  have hobs : (network.run {} firstRun).map (fun r => ((r.1.station station7).message,
      (r.1.station station7).locals.fragment, started r.2)) =
        some (some firstMessage, none, [(station7, firstMessage)]) := by decide
  have hcounters : (network.run {} firstRun).map (fun r =>
      ((r.1.station station7).locals.scanRetriesLeft,
        (r.1.station station7).locals.ackRetriesLeft)) = some (4, 4) := by decide
  obtain ⟨r, hrun, heq⟩ := Option.map_eq_some_iff.mp hobs
  obtain ⟨hm, hrest⟩ := Prod.mk.inj heq
  obtain ⟨hended, hstarted⟩ := Prod.mk.inj hrest
  rw [hrun] at hcounters
  obtain ⟨hscan, hack⟩ := Prod.mk.inj (Option.some.inj hcounters)
  have hfirst : ∀ m, .start station7 m ∈ r.2 → m = firstMessage := by
    intro m hstart
    have hmem := mem_started hstart
    rw [hstarted, List.mem_singleton] at hmem
    exact (Prod.mk.inj hmem).2
  refine ⟨r.1, r.2, hrun, ?_⟩
  refine acknowledged_reassembled hrun hm hfirst rfl (by decide) hended ?_ ?_
  · rw [hscan]
    decide
  · rw [hack]
    decide

end ProbeStuffing.System

import ProbeStuffing.System.Deployment
import ProbeStuffing.System.Steps

/-!
# Records on their way

What a step of the deployment does to the records that are on their way, one step
at a time.  A round of the controller takes whole records out of the connections
and leaves the others in them (`drained_of_drain`), and saves what it took
(`arrivals_of_saveStrings`).  Of the steps of the network only that of an access
point that processes a frame has a command, and it is the one with the record of
the frame (`network_commands`).
-/

namespace ProbeStuffing.System

open CString Tlv Trace Client Ap Controller

/-! ## Reading connections dry -/

section Drain

/-- A connection holds one whole record, or nothing. -/
def Unread (R : Bytes → Prop) (w : Bytes) : Prop := w = [] ∨ ∃ csv, R csv ∧ w = Controller.frame csv

variable {R : Bytes → Prop}

/-- After the read the program goes on, and it has made its copies in front of NULs. -/
def Readable (i : Incoming) : Prop := GoesOn i ∧ i.Clean

/-- A read after which the program goes on takes the record out of its connection. -/
theorem read_unread (hR : ∀ csv, R csv → NulFree csv ∧ eot ∉ csv) {sd : Nat} {part w : Bytes}
    {luck : Luck} (hw : Unread R w) (hne : part ≠ []) (hpart : part <+: w)
    (hread : Readable (.read (.bytes part) luck)) :
    ∃ csv, R csv ∧ w = Controller.frame csv ∧ part = w ∧
      stringOf (sd, .read (.bytes part) luck) = some (sd, csv) := by
  obtain ⟨rest, hsplit⟩ := hpart
  rcases hw with rfl | ⟨csv, hcsv, rfl⟩
  · exact absurd (List.append_eq_nil_iff.mp hsplit).1 hne
  · obtain ⟨hnul, heot⟩ := hR csv hcsv
    obtain ⟨hgoes, hclean⟩ := hread
    obtain ⟨data, hdata⟩ := Option.ne_none_iff_exists'.mp hgoes
    rw [takeOver_buffer] at hdata
    obtain ⟨decoded, hd, hif⟩ := Option.bind_eq_some_iff.mp hdata
    obtain ⟨rfl, hcopy⟩ := decode_part hclean hnul heot hsplit.symm hd
    rw [List.append_nil] at hsplit
    refine ⟨csv, hcsv, rfl, hsplit, ?_⟩
    split at hif
    · rw [hcopy, Option.map_some, (fullCopy_string_iff hnul _).mpr hclean.data] at hif
      rw [stringOf, takeOver_buffer, hdata, ← Option.some.inj hif]
      rfl
    · cases hif

/-- What a round takes out of the connections: whole records, each of which is
handed over. -/
structure Drained (R : Bytes → Prop) (streams streams' : Nat → Option Bytes)
    (reads : List (Nat × Incoming)) : Prop where
  unread : ∀ sd w, streams' sd = some w → Unread R w
  handed : ∀ p ∈ reads.filterMap stringOf, R p.2
  kept : ∀ sd csv, R csv → streams sd = some (Controller.frame csv) →
    streams' sd = some (Controller.frame csv) ∨ (sd, csv) ∈ reads.filterMap stringOf
  opened : ∀ sd, streams' sd ≠ none → streams sd ≠ none ∧ (sd, .eof) ∉ reads

/-- A connection that is closed had nothing in it. -/
theorem Drained.close {streams streams' : Nat → Option Bytes} {reads : List (Nat × Incoming)}
    {sd : Nat} (hempty : streams sd = some [])
    (h : Drained R (Function.update streams sd none) streams' reads) :
    Drained R streams streams' ((sd, .eof) :: reads) where
  unread := h.unread
  handed := h.handed
  kept sd' csv hcsv hs := by
    rcases eq_or_ne sd' sd with rfl | hne
    · rw [hempty] at hs
      cases Option.some.inj hs
    · refine h.kept sd' csv hcsv ?_
      rwa [Function.update_of_ne hne]
  opened sd' hs := by
    obtain ⟨hsome, heof⟩ := h.opened sd' hs
    rcases eq_or_ne sd' sd with rfl | hne
    · rw [Function.update_self] at hsome
      exact absurd rfl hsome
    · rw [Function.update_of_ne hne] at hsome
      refine ⟨hsome, fun hm => ?_⟩
      rcases List.mem_cons.mp hm with heq | hm
      · exact hne (Prod.mk.inj heq).1
      · exact heof hm

/-- A record that is read is handed over, and leaves its connection empty. -/
theorem Drained.read {streams streams' : Nat → Option Bytes} {reads : List (Nat × Incoming)}
    {sd : Nat} {csv : Bytes} {result : Read} {luck : Luck} (hcsv : R csv)
    (hfull : streams sd = some (Controller.frame csv))
    (hstring : stringOf (sd, .read result luck) = some (sd, csv))
    (h : Drained R (Function.update streams sd (some [])) streams' reads) :
    Drained R streams streams' ((sd, .read result luck) :: reads) where
  unread := h.unread
  handed := by
    rw [List.filterMap_cons_some hstring, List.forall_mem_cons]
    exact ⟨hcsv, h.handed⟩
  kept sd' csv' hcsv' hs := by
    rw [List.filterMap_cons_some hstring]
    rcases eq_or_ne sd' sd with rfl | hne
    · rw [hfull] at hs
      rw [frame_inj (Option.some.inj hs)]
      exact .inr List.mem_cons_self
    · rcases h.kept sd' csv' hcsv' (by rwa [Function.update_of_ne hne]) with hk | hk
      · exact .inl hk
      · exact .inr (List.mem_cons_of_mem _ hk)
  opened sd' hs := by
    obtain ⟨hsome, heof⟩ := h.opened sd' hs
    refine ⟨?_, fun hm => heof ((List.mem_cons.mp hm).resolve_left fun heq => by cases heq)⟩
    rcases eq_or_ne sd' sd with rfl | hne
    · rw [hfull]
      exact Option.some_ne_none _
    · rwa [Function.update_of_ne hne] at hsome

/-- What is unread stays whole when one connection changes. -/
theorem unread_update {streams : Nat → Option Bytes} {new : Option Bytes}
    (h : ∀ sd w, streams sd = some w → Unread R w) (hnew : ∀ w, new = some w → Unread R w)
    (sd : Nat) : ∀ sd' w, Function.update streams sd new sd' = some w → Unread R w :=
  (Function.forall_update_iff streams fun _ o => ∀ w, o = some w → Unread R w).mpr
    ⟨hnew, fun sd' _ => h sd'⟩

theorem drained_of_drain (hR : ∀ csv, R csv → NulFree csv ∧ eot ∉ csv) :
    ∀ {reads : List (Nat × Incoming)} {streams streams' : Nat → Option Bytes},
      (∀ sd w, streams sd = some w → Unread R w) → (∀ p ∈ reads, Readable p.2) →
        drain streams reads = some streams' → Drained R streams streams' reads
  | [], streams, streams', hunread, _, h => by
      obtain rfl := Option.some.inj h
      exact ⟨hunread, List.forall_mem_nil _, fun sd csv _ hs => .inl hs,
        fun sd hs => ⟨hs, List.not_mem_nil⟩⟩
  | (sd, .eof) :: reads, streams, streams', hunread, hdefined, h => by
      rw [drain] at h
      split at h
      · next hempty =>
          have hunread' := @unread_update R streams none hunread (fun w hw => by cases hw) sd
          exact .close hempty
            (drained_of_drain hR hunread' (List.forall_mem_cons.mp hdefined).2 h)
      · cases h
  | (sd, .read .error luck) :: reads, streams, streams', _, _, h => by
      rw [drain] at h
      cases h
  | (sd, .read (.bytes part) luck) :: reads, streams, streams', hunread, hdefined, h => by
      obtain ⟨hread, hrest⟩ := List.forall_mem_cons.mp hdefined
      rw [drain] at h
      split at h
      · cases h
      · next w hw =>
          split at h
          · next hpart =>
              obtain ⟨hne, -, hprefix⟩ := hpart
              obtain ⟨csv, hcsv, rfl, rfl, hstring⟩ :=
                @read_unread R hR sd part w luck (hunread sd w hw) hne hprefix hread
              rw [List.drop_length] at h
              have hempty : ∀ w, some [] = some w → Unread R w :=
                fun w hw => .inl (Option.some.inj hw).symm
              exact .read hcsv hw hstring
                (drained_of_drain hR (unread_update hunread hempty sd) hrest h)
          · cases h

end Drain

/-! ## Saving what was read -/

/-- The record an access point makes of a frame at some time. -/
def recordOf (f : Frame) (sec usec : Nat) : Bytes := f.received.csv (apTimestampStr sec usec)

/-- A record that reaches the controller at some time, with some `client_addr`. -/
theorem exists_arrival (f : Frame) (sec usec : Nat) (clientAddr : InAddr) (conTs : UInt64) :
    ∃ a : Arrival, a.frame = f ∧ a.record = recordOf f sec usec ∧ a.clientAddr = clientAddr ∧
      a.conTs = conTs :=
  ⟨⟨f, sec, usec, clientAddr, conTs⟩, rfl, rfl, rfl, rfl⟩

/-- A record of a frame of some kind. -/
def IsRecord (Q : Frame → Prop) (csv : Bytes) : Prop :=
  ∃ f sec usec, Q f ∧ csv = recordOf f sec usec

theorem saveAll_cons {Db : Type} (S : Sqlite Db) (db : Db) (a : Arrival) (arrivals : List Arrival) :
    saveAll S db (a :: arrivals) = saveAll S (save S a.clientAddr a.conTs a.record db) arrivals :=
  List.foldl_cons ..

theorem saveAll_append {Db : Type} (S : Sqlite Db) (db : Db) (arrivals arrivals' : List Arrival) :
    saveAll S db (arrivals ++ arrivals') = saveAll S (saveAll S db arrivals) arrivals' :=
  List.foldl_append

/-- What a round saves is one record after the other. -/
theorem arrivals_of_saveStrings {Db : Type} {S : Sqlite Db} {Q : Frame → Prop}
    {clientAddr : Nat → InAddr} :
    ∀ {handed : List (Nat × Bytes)} {clocks : List UInt64} {db db' : Db},
      (∀ p ∈ handed, IsRecord Q p.2) → saveStrings S clientAddr handed clocks db = some db' →
        ∃ arrivals : List Arrival, db' = saveAll S db arrivals ∧ (∀ a ∈ arrivals, Q a.frame) ∧
          ∀ p ∈ handed, ∃ a ∈ arrivals, a.record = p.2
  | [], _, db, db', _, h => by
      obtain rfl := Option.some.inj h
      exact ⟨[], rfl, List.forall_mem_nil _, List.forall_mem_nil _⟩
  | _ :: _, [], _, _, _, h => by cases h
  | (sd, string) :: handed, conTs :: clocks, db, db', hrecords, h => by
      obtain ⟨⟨f, sec, usec, hf, rfl⟩, hrest⟩ := List.forall_mem_cons.mp hrecords
      rw [saveStrings] at h
      split at h
      · obtain ⟨arrivals, hdb, hframes, hall⟩ := arrivals_of_saveStrings hrest h
        obtain ⟨a, rfl, hrecord, haddr, hconTs⟩ := exists_arrival f sec usec (clientAddr sd) conTs
        refine ⟨a :: arrivals, ?_, List.forall_mem_cons.mpr ⟨hf, hframes⟩, ?_⟩
        · rw [saveAll_cons, hrecord, haddr, hconTs, hdb]
        · have hfirst : ∃ b ∈ a :: arrivals, b.record = recordOf a.frame sec usec :=
            ⟨a, List.mem_cons_self, hrecord⟩
          have hlater : ∀ p ∈ handed, ∃ b ∈ a :: arrivals, b.record = p.2 := by
            intro p hp
            obtain ⟨b, hb, hb'⟩ := hall p hp
            exact ⟨b, List.mem_cons_of_mem a hb, hb'⟩
          refine List.forall_mem_cons.mpr ⟨?_, hlater⟩
          dsimp only
          exact hfirst
      · cases h

/-! ## Commands of the network -/

section Network

variable {α : Type}

/-- An access point has processed the frame. -/
def StuffedIn (es : List (Event α)) (f : Frame) : Prop :=
  ∃ a c x, .ap a (some f) (.stuffed c x) ∈ es

theorem StuffedIn.append_left {es : List (Event α)} {f : Frame} (h : StuffedIn es f)
    (es' : List (Event α)) : StuffedIn (es ++ es') f := by
  obtain ⟨a, c, x, hmem⟩ := h
  exact ⟨a, c, x, List.mem_append_left es' hmem⟩

theorem stuffedIn_append {es es' : List (Event α)} {f : Frame} :
    StuffedIn (es ++ es') f ↔ StuffedIn es f ∨ StuffedIn es' f := by
  simp only [StuffedIn, List.mem_append, exists_or]

/-- A command of the frame has succeeded. -/
def ForwardedIn (es : List (Event α)) (f : Frame) : Prop :=
  ∃ a line, .ap a (some f) (.systemCall line 0) ∈ es

theorem forwardedIn_append {es es' : List (Event α)} {f : Frame} :
    ForwardedIn (es ++ es') f ↔ ForwardedIn es f ∨ ForwardedIn es' f := by
  simp only [ForwardedIn, List.mem_append, exists_or]

theorem commands_append (es es' : List (Event α)) :
    commands (es ++ es') = commands es ++ commands es' :=
  List.filterMap_append

theorem systemCalls_append (es es' : List (Event α)) :
    systemCalls (es ++ es') = systemCalls es ++ systemCalls es' := by
  rw [systemCalls, commands_append, List.map_append]
  rfl

/-- Neither a command nor a frame that is processed. -/
structure Quiet (es : List (Event α)) : Prop where
  commands : commands es = []
  stuffed : ∀ f, ¬ StuffedIn es f
  forwarded : ∀ f, ¬ ForwardedIn es f

/-- Events without access points have none. -/
theorem quiet_of_forall {es : List (Event α)} (h : ∀ a f e, .ap a f e ∈ es → f = none ∧
    ∀ line status, e ≠ .systemCall line status) : Quiet es := by
  refine ⟨?_, ?_, ?_⟩
  · rw [commands, List.filterMap_eq_nil_iff]
    intro e he
    cases e with
    | ap a f e =>
        cases e with
        | systemCall line status => exact absurd rfl ((h a f _ he).2 line status)
        | stuffed _ _ => rfl
        | probeResp _ _ => rfl
        | sendMlme _ _ => rfl
    | start _ _ => rfl
    | transmit _ => rfl
    | client _ _ _ => rfl
  · rintro f ⟨a, c, x, he⟩
    cases (h a (some f) _ he).1
  · rintro f ⟨a, line, he⟩
    cases (h a (some f) _ he).1

variable [DecidableEq α] {net net' : State α} {tr es : List (Event α)} {i : Input α}

/-- Of all steps only that of an access point that processes a frame has a
command, and this is the one with its record. -/
theorem network_commands (hinv : Inv tr net) (hstep : network.step net i = some (net', es)) :
    Quiet es ∨ ∃ f sec usec status, f ∈ net.sent ∧
      commands es = [(command (recordOf f sec usec), status)] ∧
      (∀ g, StuffedIn es g ↔ g = f) ∧ ∀ g, ForwardedIn es g ↔ g = f ∧ status = 0 := by
  rcases (step_of_network hstep).ap_events with
    hnone | ⟨a, env, rfl⟩ | ⟨a, env, f, r, hf, hrun, rfl⟩
  · exact .inl (quiet_of_forall fun a g e he => absurd he (hnone a g e))
  · left
    refine quiet_of_forall fun a' g e he => ?_
    obtain ⟨e', he', heq⟩ := List.mem_map.mp he
    obtain ⟨-, rfl, rfl⟩ := Event.ap.inj heq
    refine ⟨rfl, fun line status hcall => ?_⟩
    subst hcall
    rcases buildApParams_cases env (net.bss a) with ⟨-, h⟩ | ⟨-, resp, h, -⟩
    · rw [h] at he'
      cases he'
    · rw [h] at he'
      simp at he'
  · rcases handleProbeReq_frame (hinv.sent f hf).1 hrun with hr | ⟨reply, hr, hreply⟩
    · rw [hr]
      exact .inl (quiet_of_forall (by simp))
    · right
      refine ⟨f, env.tvSec, env.tvUsec, env.systemStatus, hf, ?_, fun g => ?_, fun g => ?_⟩
      · rw [hr]
        rcases hreply with rfl | ⟨req, resp, noack, rfl, -, -⟩
        · rfl
        · rfl
      · rw [hr]
        rcases hreply with rfl | ⟨req, resp, noack, rfl, -, -⟩
        · simp [StuffedIn, eq_comm]
        · simp [StuffedIn, eq_comm]
      · rw [hr]
        rcases hreply with rfl | ⟨req, resp, noack, rfl, -, -⟩
        · simp [ForwardedIn, eq_comm]
        · simp [ForwardedIn, eq_comm]

end Network

end ProbeStuffing.System

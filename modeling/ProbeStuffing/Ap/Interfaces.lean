import Mathlib.Logic.Function.Basic
import ProbeStuffing.Ap.AckSlot
import ProbeStuffing.Ap.StaTrack

/-!
# Interfaces of one process

A process runs several interfaces.  Each of them has its BSSs and its list of the
stations it has seen.  A BSS can name an interface in `no_probe_resp_if_seen_on`, and
then `sta_track_seen_on` looks for a station on the lists of the interfaces with this
name.

That is all the interfaces have to do with each other.  So each list is that of a run of
`staTrack`, and each BSS takes the steps of `bss`, on its own inputs (`process_refines`).
-/

namespace ProbeStuffing.Ap

open CString Trace

/-! ## The configuration -/

/-- What is read of `struct hostapd_bss_config`. -/
structure HostapdBssConfig where
  iface : Bytes
  noProbeRespIfSeenOn : Option Bytes := none
deriving DecidableEq

/-- `struct hostapd_iface`, without its list of stations. -/
structure IfaceConf where
  conf : HostapdConfig := {}
  bss : List HostapdBssConfig

/-- A BSS of the interface has this name. -/
def IfaceConf.Named (c : IfaceConf) (ifname : Bytes) : Prop := ∃ b ∈ c.bss, b.iface = ifname

/-- Two interfaces.  The first one does not reply to what the second one has seen. -/
def twoBands : List IfaceConf :=
  [{ bss := [{ iface := ascii "wlan0", noProbeRespIfSeenOn := some (ascii "wlan1") }] },
    { conf := { trackStaMaxNum := 1 }, bss := [{ iface := ascii "wlan1" }] }]

/-! ## `sta_track_seen_on` -/

section SeenOn

variable (iface : Nat → HostapdIface) (addr : Mac) (ifname : Bytes)

/-- The loop over the interfaces, from some index on. -/
def seenOnLoop : Nat → List IfaceConf → Option (Nat × Nat)
  | _, [] => none
  | i, c :: rest =>
      match c.bss.findIdx? fun b => b.iface == ifname with
      | none => seenOnLoop (i + 1) rest
      | some j =>
          if (staTrackGet (iface i) addr).isSome then some (i, j) else seenOnLoop (i + 1) rest

/-- `sta_track_seen_on`; the result is a BSS of an interface. -/
def staTrackSeenOn (interfaces : List IfaceConf) : Option (Nat × Nat) :=
  seenOnLoop iface addr ifname 0 interfaces

theorem findIdx_isSome_iff (c : IfaceConf) :
    (c.bss.findIdx? fun b => b.iface == ifname) ≠ none ↔ c.Named ifname := by
  rw [ne_eq, List.findIdx?_eq_none_iff, IfaceConf.Named]
  push Not
  refine exists_congr fun b => and_congr_right fun _ => ?_
  rw [ne_eq, Bool.not_eq_false, beq_iff_eq]

theorem seenOnLoop_isSome_iff : ∀ (i : Nat) (interfaces : List IfaceConf),
    (seenOnLoop iface addr ifname i interfaces).isSome ↔
      ∃ k c, interfaces[k]? = some c ∧ c.Named ifname ∧
        (staTrackGet (iface (i + k)) addr).isSome
  | i, [] => by simp [seenOnLoop]
  | i, c :: rest => by
      have hrest := seenOnLoop_isSome_iff (i + 1) rest
      have hsplit : (∃ k c', (c :: rest)[k]? = some c' ∧ c'.Named ifname ∧
            (staTrackGet (iface (i + k)) addr).isSome) ↔
          (c.Named ifname ∧ (staTrackGet (iface i) addr).isSome) ∨
            ∃ k c', rest[k]? = some c' ∧ c'.Named ifname ∧
              (staTrackGet (iface (i + 1 + k)) addr).isSome := by
        constructor
        · rintro ⟨k, c', hget, hnamed, hseen⟩
          cases k with
          | zero =>
              obtain rfl := Option.some.inj hget
              exact .inl ⟨hnamed, hseen⟩
          | succ k =>
              refine .inr ⟨k, c', hget, hnamed, ?_⟩
              rwa [Nat.add_assoc, Nat.add_comm 1 k]
        · rintro (⟨hnamed, hseen⟩ | ⟨k, c', hget, hnamed, hseen⟩)
          · exact ⟨0, c, rfl, hnamed, hseen⟩
          · rw [Nat.add_assoc, Nat.add_comm 1 k] at hseen
            exact ⟨k + 1, c', hget, hnamed, hseen⟩
      rw [hsplit, seenOnLoop]
      cases hfind : c.bss.findIdx? fun b => b.iface == ifname with
      | none =>
          have hnot : ¬ c.Named ifname := fun hnamed =>
            (findIdx_isSome_iff ifname c).mpr hnamed hfind
          simp only [hnot, false_and, false_or]
          exact hrest
      | some j =>
          have hnamed : c.Named ifname := by
            rw [← findIdx_isSome_iff, hfind]
            exact Option.some_ne_none j
          cases hseen : (staTrackGet (iface i) addr).isSome with
          | true => simp [hnamed]
          | false =>
              simp only [hnamed, Bool.false_eq_true, and_false, false_or, if_false]
              exact hrest

/-- Some interface with this name has the station on its list. -/
theorem staTrackSeenOn_isSome_iff (interfaces : List IfaceConf) :
    (staTrackSeenOn iface addr ifname interfaces).isSome ↔
      ∃ k c, interfaces[k]? = some c ∧ c.Named ifname ∧ (staTrackGet (iface k) addr).isSome := by
  have h := seenOnLoop_isSome_iff iface addr ifname 0 interfaces
  simp only [Nat.zero_add] at h
  exact h

end SeenOn

/-! ## The process -/

/-- The process: the lists of its interfaces, and what of its BSSs changes. -/
structure Process where
  clock : Nat := 0
  iface : Nat → HostapdIface := fun _ => {}
  conf : Nat → Nat → BssConf := fun _ _ => {}

inductive ProcessInput where
  /-- `handle_probe_req` of a BSS. -/
  | probeReq (i j : Nat) (env : Env) (now later : OsReltime) (alloc : Bool) (frame : Bytes)
  /-- Another management frame. -/
  | mgmt (i : Nat) (addr : Mac) (now later : OsReltime) (alloc : Bool)
  /-- `hostapd_ctrl_iface_track_sta_list`. -/
  | trackStaList (i : Nat) (now : OsReltime)
  | buildApParams (i j : Nat) (env : Env)

inductive ProcessEvent where
  /-- A station is put at the end of the list of an interface. -/
  | seen (i : Nat) (addr : Mac) (now : OsReltime)
  | bss (i j : Nat) (e : Event)

/-- A step of one of the lists. -/
def Process.track (s : Process) (c : IfaceConf) (i : Nat) (input : TrackInput) :
    Option (Process × List ProcessEvent) :=
  ((staTrack c.conf).step ⟨s.iface i, s.clock⟩ input).map fun r =>
    ({ s with clock := r.1.clock, iface := Function.update s.iface i r.1.iface },
      r.2.map fun p => .seen i p.1 p.2)

/-- A station is seen, by an interface that tracks stations. -/
def Process.trackAdd (s : Process) (c : IfaceConf) (i : Nat) (addr : Mac) (now later : OsReltime)
    (alloc : Bool) : Option (Process × List ProcessEvent) :=
  if c.conf.trackStaMaxNum = 0 then some (s, []) else s.track c i (.add addr now later alloc)

def Process.setConf (s : Process) (i j : Nat) (conf : BssConf) : Process :=
  { s with conf := Function.update s.conf i (Function.update (s.conf i) j conf) }

theorem Process.setConf_conf (s : Process) (i j : Nat) (conf : BssConf) :
    (s.setConf i j conf).conf i j = conf := by
  show Function.update s.conf i (Function.update (s.conf i) j conf) i j = conf
  rw [Function.update_self, Function.update_self]

theorem Process.setConf_of_ne (s : Process) {i j i' j' : Nat} (h : ¬ (i' = i ∧ j' = j))
    (conf : BssConf) : (s.setConf i j conf).conf i' j' = s.conf i' j' := by
  show Function.update s.conf i (Function.update (s.conf i) j conf) i' j' = s.conf i' j'
  rcases eq_or_ne i' i with rfl | hi
  · rw [Function.update_self, Function.update_of_ne fun hj => h ⟨rfl, hj⟩]
  · rw [Function.update_of_ne hi]

/-- What `handle_probe_req` reads on a BSS. -/
def HostapdBssConfig.env (b : HostapdBssConfig) (interfaces : List IfaceConf)
    (iface : Nat → HostapdIface) (addr : Mac) (env : Env) : Env :=
  { env with
    noProbeRespIfSeenOn := b.noProbeRespIfSeenOn.isSome
    staTrackSeenOn := b.noProbeRespIfSeenOn.any fun ifname =>
      (staTrackSeenOn iface addr ifname interfaces).isSome }

/-- The life of a process.  Inputs for an interface or a BSS that is not there, and
times that go back, have no step. -/
def process (interfaces : List IfaceConf) : Machine Process ProcessInput ProcessEvent where
  step s
    | .probeReq i j env now later alloc frame =>
        interfaces[i]?.bind fun c => c.bss[j]?.bind fun b =>
          match Mgmt.ofBytes frame with
          | none => some (s, [])
          | some mgmt =>
              (s.trackAdd c i mgmt.sa now later alloc).bind fun r =>
                (handleProbeReq (b.env interfaces r.1.iface mgmt.sa env) frame (r.1.conf i j)).map
                  fun q => (r.1.setConf i j q.1, r.2 ++ q.2.map (.bss i j))
    | .mgmt i addr now later alloc =>
        interfaces[i]?.bind fun c => s.trackAdd c i addr now later alloc
    | .trackStaList i now => interfaces[i]?.bind fun c => s.track c i (.expire now)
    | .buildApParams i j env =>
        let q := ieee80211BuildApParams env (s.conf i j)
        some (s.setConf i j q.1, q.2.map (.bss i j))

/-! ## The inputs of one interface, and of one BSS -/

/-- What an input of the process is for the list of an interface. -/
def ProcessInput.tracked (conf : HostapdConfig) (k : Nat) : ProcessInput → Option TrackInput
  | .probeReq i _ _ now later alloc frame =>
      if i = k ∧ conf.trackStaMaxNum ≠ 0 then
        (Mgmt.ofBytes frame).map fun mgmt => .add mgmt.sa now later alloc
      else none
  | .mgmt i addr now later alloc =>
      if i = k ∧ conf.trackStaMaxNum ≠ 0 then some (.add addr now later alloc) else none
  | .trackStaList i now => if i = k then some (.expire now) else none
  | .buildApParams _ _ _ => none

/-- A BSS has the option. -/
def optionSet (interfaces : List IfaceConf) (i j : Nat) : Bool :=
  (interfaces[i]?.bind fun c => c.bss[j]?).any fun b => b.noProbeRespIfSeenOn.isSome

/-- An input of a BSS, without what the lists say. -/
def Input.unseen : Input → Input
  | .probeReq env frame => .probeReq { env with staTrackSeenOn := false } frame
  | .buildApParams env => .buildApParams { env with staTrackSeenOn := false }

/-- What an input of the process is for a BSS, apart from what the lists say. -/
def ProcessInput.atBss (interfaces : List IfaceConf) (i j : Nat) : ProcessInput → Option Input
  | .probeReq i' j' env _ _ _ frame =>
      if i' = i ∧ j' = j then
        some (Input.probeReq { env with noProbeRespIfSeenOn := optionSet interfaces i j }
          frame).unseen
      else none
  | .buildApParams i' j' env =>
      if i' = i ∧ j' = j then some (Input.buildApParams env).unseen else none
  | _ => none

/-! ## The lists in a run -/

/-- The stations that an interface has seen. -/
def sightings (k : Nat) (tr : List ProcessEvent) : List (Mac × OsReltime) :=
  tr.filterMap fun e =>
    match e with
    | .seen i addr now => if i = k then some (addr, now) else none
    | .bss _ _ _ => none

/-- The events of a BSS. -/
def bssEvents (i j : Nat) (tr : List ProcessEvent) : List Event :=
  tr.filterMap fun e =>
    match e with
    | .seen _ _ _ => none
    | .bss i' j' e => if i' = i ∧ j' = j then some e else none

theorem sightings_append (k : Nat) (es es' : List ProcessEvent) :
    sightings k (es ++ es') = sightings k es ++ sightings k es' :=
  List.filterMap_append

theorem sightings_bss (k i j : Nat) (es : List Event) : sightings k (es.map (.bss i j)) = [] := by
  rw [sightings, List.filterMap_map]
  exact List.filterMap_eq_nil_iff.mpr fun _ _ => rfl

theorem sightings_seen (k i : Nat) (l : List (Mac × OsReltime)) :
    sightings k (l.map fun p => .seen i p.1 p.2) = if i = k then l else [] := by
  rw [sightings, List.filterMap_map]
  split
  · next heq => exact (List.filterMap_congr fun _ _ => if_pos heq).trans List.filterMap_some
  · next hne => exact List.filterMap_eq_nil_iff.mpr fun _ _ => if_neg hne

theorem bssEvents_append (i j : Nat) (es es' : List ProcessEvent) :
    bssEvents i j (es ++ es') = bssEvents i j es ++ bssEvents i j es' :=
  List.filterMap_append

theorem bssEvents_bss (i j : Nat) (es : List Event) : bssEvents i j (es.map (.bss i j)) = es := by
  rw [bssEvents, List.filterMap_map]
  exact (List.filterMap_congr fun _ _ => if_pos ⟨rfl, rfl⟩).trans List.filterMap_some

theorem bssEvents_bss_of_ne {i j i' j' : Nat} (h : ¬ (i' = i ∧ j' = j)) (es : List Event) :
    bssEvents i' j' (es.map (.bss i j)) = [] := by
  rw [bssEvents, List.filterMap_map]
  exact List.filterMap_eq_nil_iff.mpr fun _ _ => if_neg fun heq => h ⟨heq.1.symm, heq.2.symm⟩

theorem bssEvents_seen (i j k : Nat) (l : List (Mac × OsReltime)) :
    bssEvents i j (l.map fun p => .seen k p.1 p.2) = [] := by
  rw [bssEvents, List.filterMap_map]
  exact List.filterMap_eq_nil_iff.mpr fun _ _ => rfl

section Runs

variable {interfaces : List IfaceConf} {s s' : Process} {tr es : List ProcessEvent}

/-- The list of an interface is that of a run of its own, and empty if it does not track
stations. -/
structure ProcessInv (interfaces : List IfaceConf) (tr : List ProcessEvent) (s : Process) :
    Prop where
  lists : ∀ k c, interfaces[k]? = some c → ∃ inputs clock, clock ≤ s.clock ∧
    (staTrack c.conf).run {} inputs = some (⟨s.iface k, clock⟩, sightings k tr)
  untracked : ∀ k c, interfaces[k]? = some c → c.conf.trackStaMaxNum = 0 → s.iface k = {}

theorem processInv_start : ProcessInv interfaces [] {} where
  lists _ _ _ := ⟨[], 0, Nat.le_refl 0, rfl⟩
  untracked _ _ _ _ := rfl

/-- A list takes the same step if its own clock was read earlier. -/
theorem staTrack_of_clock_le {conf : HostapdConfig} {iface : HostapdIface} {clock clock' : Nat}
    {input : TrackInput} {r : Tracked × List (Mac × OsReltime)} (hle : clock' ≤ clock)
    (h : (staTrack conf).step ⟨iface, clock⟩ input = some r) :
    (staTrack conf).step ⟨iface, clock'⟩ input = some r ∧ clock ≤ r.1.clock := by
  cases input with
  | add addr now later alloc =>
      simp only [staTrack] at h ⊢
      split at h
      · next hclock =>
          rw [if_pos ⟨hle.trans hclock.1, hclock.2⟩]
          obtain rfl := Option.some.inj h
          exact ⟨rfl, hclock.1.trans hclock.2⟩
      · cases h
  | expire now =>
      simp only [staTrack] at h ⊢
      split at h
      · next hclock =>
          rw [if_pos (hle.trans hclock)]
          obtain rfl := Option.some.inj h
          exact ⟨rfl, hclock⟩
      · cases h

/-- What a step of a list changes. -/
theorem track_eq_some {c : IfaceConf} {i : Nat} {input : TrackInput}
    (h : s.track c i input = some (s', es)) :
    s'.conf = s.conf ∧ (∀ i' j, bssEvents i' j es = []) ∧ ∃ st l,
      (staTrack c.conf).step ⟨s.iface i, s.clock⟩ input = some (st, l) ∧
        s'.clock = st.clock ∧ s'.iface = Function.update s.iface i st.iface ∧
        es = l.map fun p => .seen i p.1 p.2 := by
  obtain ⟨⟨st, l⟩, hstep, heq⟩ := Option.map_eq_some_iff.mp h
  obtain ⟨rfl, rfl⟩ := Prod.mk.inj heq
  exact ⟨rfl, fun i' j => bssEvents_seen i' j i l, st, l, hstep, rfl, rfl, rfl⟩

/-- A step of one list is one of that list alone. -/
theorem track_run {c d : IfaceConf} {i k clock : Nat} {input : TrackInput}
    (hc : interfaces[i]? = some c) (hd : interfaces[k]? = some d) (hle : clock ≤ s.clock)
    (htrack : s.track c i input = some (s', es)) :
    ∃ clock', clock' ≤ s'.clock ∧
      (staTrack d.conf).run ⟨s.iface k, clock⟩ (if i = k then [input] else []) =
        some (⟨s'.iface k, clock'⟩, sightings k es) := by
  obtain ⟨-, -, st, l, hstep, hclock, hiface, rfl⟩ := track_eq_some htrack
  obtain ⟨hown, hlater⟩ := staTrack_of_clock_le hle hstep
  rw [sightings_seen, hclock, hiface]
  rcases eq_or_ne i k with rfl | hne
  · obtain rfl := Option.some.inj (hc.symm.trans hd)
    rw [if_pos rfl, if_pos rfl, Function.update_self]
    exact ⟨st.clock, Nat.le_refl _, Machine.run_singleton_iff.mpr hown⟩
  · rw [if_neg hne, if_neg hne, Function.update_of_ne hne.symm]
    exact ⟨clock, hle.trans hlater, Machine.run_nil_iff.mpr ⟨rfl, rfl⟩⟩

theorem processInv_track {c : IfaceConf} {i : Nat} {input : TrackInput}
    (h : ProcessInv interfaces tr s) (hc : interfaces[i]? = some c)
    (hzero : c.conf.trackStaMaxNum = 0 → ∃ now, input = .expire now)
    (htrack : s.track c i input = some (s', es)) : ProcessInv interfaces (tr ++ es) s' := by
  refine ⟨fun k d hd => ?_, fun k d hd hmax => ?_⟩
  · obtain ⟨inputs, clock, hle, hrun⟩ := h.lists k d hd
    obtain ⟨clock', hle', hown⟩ := track_run hc hd hle htrack
    rw [sightings_append]
    exact ⟨_, clock', hle', Machine.run_append_iff.mpr ⟨_, _, _, hrun, hown, rfl⟩⟩
  · obtain ⟨-, -, st, l, hstep, -, hiface, -⟩ := track_eq_some htrack
    rw [hiface]
    rcases eq_or_ne i k with rfl | hne
    · obtain rfl := Option.some.inj (hc.symm.trans hd)
      obtain ⟨now, rfl⟩ := hzero hmax
      have hempty : s.iface i = {} := h.untracked i c hc hmax
      rw [Function.update_self]
      simp only [staTrack, hempty] at hstep
      split at hstep
      · obtain ⟨rfl, -⟩ := Prod.mk.inj (Option.some.inj hstep)
        rfl
      · cases hstep
    · rw [Function.update_of_ne hne.symm]
      exact h.untracked k d hd hmax

theorem processInv_trackAdd {c : IfaceConf} {i : Nat} {addr : Mac} {now later : OsReltime}
    {alloc : Bool} (h : ProcessInv interfaces tr s) (hc : interfaces[i]? = some c)
    (htrack : s.trackAdd c i addr now later alloc = some (s', es)) :
    ProcessInv interfaces (tr ++ es) s' := by
  rw [Process.trackAdd] at htrack
  split at htrack
  · obtain ⟨rfl, rfl⟩ := Prod.mk.inj (Option.some.inj htrack)
    rwa [List.append_nil]
  · next hne => exact processInv_track h hc (fun hzero => absurd hzero hne) htrack

/-- What happens at a BSS leaves the lists alone. -/
theorem processInv_bss {i j : Nat} {q : BssConf × List Event} (h : ProcessInv interfaces tr s) :
    ProcessInv interfaces (tr ++ q.2.map (.bss i j)) (s.setConf i j q.1) := by
  refine ⟨fun k c hc => ?_, h.untracked⟩
  rw [sightings_append, sightings_bss, List.append_nil]
  exact h.lists k c hc

theorem trackAdd_conf {c : IfaceConf} {i : Nat} {addr : Mac} {now later : OsReltime}
    {alloc : Bool} (htrack : s.trackAdd c i addr now later alloc = some (s', es)) :
    s'.conf = s.conf ∧ ∀ i' j, bssEvents i' j es = [] := by
  rw [Process.trackAdd] at htrack
  split at htrack
  · obtain ⟨rfl, rfl⟩ := Prod.mk.inj (Option.some.inj htrack)
    exact ⟨rfl, fun _ _ => rfl⟩
  · obtain ⟨hconf, hes, -⟩ := track_eq_some htrack
    exact ⟨hconf, hes⟩

/-- A request is seen, and then handled with what the lists say. -/
theorem probeReq_eq_some {i j : Nat} {env : Env} {now later : OsReltime} {alloc : Bool}
    {frame : Bytes} {c : IfaceConf} {b : HostapdBssConfig} {mgmt : Mgmt}
    (hc : interfaces[i]? = some c) (hb : c.bss[j]? = some b)
    (hmgmt : Mgmt.ofBytes frame = some mgmt)
    (hstep : (process interfaces).step s (.probeReq i j env now later alloc frame) =
      some (s', es)) :
    ∃ s₁ seen q, s.trackAdd c i mgmt.sa now later alloc = some (s₁, seen) ∧
      handleProbeReq (b.env interfaces s₁.iface mgmt.sa env) frame (s.conf i j) = some q ∧
      s' = s₁.setConf i j q.1 ∧ es = seen ++ q.2.map (.bss i j) := by
  simp only [process, hc, hb, hmgmt, Option.bind_some] at hstep
  obtain ⟨⟨s₁, seen⟩, htrack, hrest⟩ := Option.bind_eq_some_iff.mp hstep
  obtain ⟨q, hq, heq⟩ := Option.map_eq_some_iff.mp hrest
  obtain ⟨rfl, rfl⟩ := Prod.mk.inj heq
  rw [(trackAdd_conf htrack).1] at hq
  exact ⟨s₁, seen, q, htrack, hq, rfl, rfl⟩

theorem processInv_step {input : ProcessInput} (h : ProcessInv interfaces tr s)
    (hstep : (process interfaces).step s input = some (s', es)) :
    ProcessInv interfaces (tr ++ es) s' := by
  cases input with
  | probeReq i j env now later alloc frame =>
      obtain ⟨c, hc, hrest⟩ := Option.bind_eq_some_iff.mp hstep
      obtain ⟨b, hb, hrest⟩ := Option.bind_eq_some_iff.mp hrest
      cases hmgmt : Mgmt.ofBytes frame with
      | none =>
          rw [hmgmt] at hrest
          obtain ⟨rfl, rfl⟩ := Prod.mk.inj (Option.some.inj hrest)
          rwa [List.append_nil]
      | some mgmt =>
          obtain ⟨s₁, seen, q, htrack, -, rfl, rfl⟩ := probeReq_eq_some hc hb hmgmt hstep
          rw [← List.append_assoc]
          exact processInv_bss (processInv_trackAdd h hc htrack)
  | mgmt i addr now later alloc =>
      obtain ⟨c, hc, htrack⟩ := Option.bind_eq_some_iff.mp hstep
      exact processInv_trackAdd h hc htrack
  | trackStaList i now =>
      obtain ⟨c, hc, htrack⟩ := Option.bind_eq_some_iff.mp hstep
      exact processInv_track h hc (fun _ => ⟨now, rfl⟩) htrack
  | buildApParams i j env =>
      obtain ⟨rfl, rfl⟩ := Prod.mk.inj (Option.some.inj hstep)
      exact processInv_bss h

theorem processInv_run {inputs : List ProcessInput}
    (hrun : (process interfaces).run {} inputs = some (s, tr)) : ProcessInv interfaces tr s :=
  Machine.run_history (I := ProcessInv interfaces)
    (fun _ _ _ _ _ h hstep => processInv_step h hstep) processInv_start hrun

/-- A step of the process is at most one step of a list. -/
theorem trackAdd_run {c d : IfaceConf} {i k clock : Nat} {addr : Mac} {now later : OsReltime}
    {alloc : Bool} (hc : interfaces[i]? = some c) (hd : interfaces[k]? = some d)
    (hle : clock ≤ s.clock) (htrack : s.trackAdd c i addr now later alloc = some (s', es)) :
    ∃ clock', clock' ≤ s'.clock ∧ (staTrack d.conf).run ⟨s.iface k, clock⟩
        (if i = k ∧ d.conf.trackStaMaxNum ≠ 0 then [.add addr now later alloc] else []) =
      some (⟨s'.iface k, clock'⟩, sightings k es) := by
  rw [Process.trackAdd] at htrack
  split at htrack
  · next hzero =>
      obtain ⟨rfl, rfl⟩ := Prod.mk.inj (Option.some.inj htrack)
      refine ⟨clock, hle, ?_⟩
      rw [if_neg]
      · exact Machine.run_nil_iff.mpr ⟨rfl, rfl⟩
      · rintro ⟨rfl, hne⟩
        exact hne (Option.some.inj (hc.symm.trans hd) ▸ hzero)
  · next hne =>
      obtain ⟨clock', hle', hrun⟩ := track_run hc hd hle htrack
      refine ⟨clock', hle', ?_⟩
      rcases eq_or_ne i k with rfl | hik
      · obtain rfl := Option.some.inj (hc.symm.trans hd)
        rw [if_pos rfl] at hrun
        rwa [if_pos ⟨rfl, hne⟩]
      · rw [if_neg hik] at hrun
        rwa [if_neg fun h => hik h.1]

theorem tracked_step {input : ProcessInput} {k clock : Nat} {d : IfaceConf}
    (hd : interfaces[k]? = some d) (hle : clock ≤ s.clock)
    (hstep : (process interfaces).step s input = some (s', es)) :
    ∃ clock', clock' ≤ s'.clock ∧
      (staTrack d.conf).run ⟨s.iface k, clock⟩ (input.tracked d.conf k).toList =
        some (⟨s'.iface k, clock'⟩, sightings k es) := by
  have hidle : (staTrack d.conf).run ⟨s.iface k, clock⟩ [] = some (⟨s.iface k, clock⟩, []) :=
    Machine.run_nil_iff.mpr ⟨rfl, rfl⟩
  cases input with
  | probeReq i j env now later alloc frame =>
      obtain ⟨c, hc, hrest⟩ := Option.bind_eq_some_iff.mp hstep
      obtain ⟨b, hb, hrest⟩ := Option.bind_eq_some_iff.mp hrest
      cases hmgmt : Mgmt.ofBytes frame with
      | none =>
          rw [hmgmt] at hrest
          obtain ⟨rfl, rfl⟩ := Prod.mk.inj (Option.some.inj hrest)
          rw [ProcessInput.tracked, hmgmt, Option.map_none, ite_self]
          exact ⟨clock, hle, hidle⟩
      | some mgmt =>
          obtain ⟨s₁, seen, q, htrack, -, rfl, rfl⟩ := probeReq_eq_some hc hb hmgmt hstep
          obtain ⟨clock', hle', hrun⟩ := trackAdd_run hc hd hle htrack
          rw [sightings_append, sightings_bss, List.append_nil, ProcessInput.tracked, hmgmt]
          refine ⟨clock', hle', ?_⟩
          rw [Option.map_some, apply_ite Option.toList]
          exact hrun
  | mgmt i addr now later alloc =>
      obtain ⟨c, hc, htrack⟩ := Option.bind_eq_some_iff.mp hstep
      rw [ProcessInput.tracked, apply_ite Option.toList]
      exact trackAdd_run hc hd hle htrack
  | trackStaList i now =>
      obtain ⟨c, hc, htrack⟩ := Option.bind_eq_some_iff.mp hstep
      rw [ProcessInput.tracked, apply_ite Option.toList]
      exact track_run hc hd hle htrack
  | buildApParams i j env =>
      obtain ⟨rfl, rfl⟩ := Prod.mk.inj (Option.some.inj hstep)
      rw [sightings_bss]
      exact ⟨clock, hle, hidle⟩

/-- The list of an interface is that of a run on its own inputs. -/
theorem tracked_run {k : Nat} {d : IfaceConf} (hd : interfaces[k]? = some d) :
    ∀ {inputs : List ProcessInput} {s s' : Process} {tr : List ProcessEvent} {clock : Nat},
      (process interfaces).run s inputs = some (s', tr) → clock ≤ s.clock →
        ∃ clock', clock' ≤ s'.clock ∧ (staTrack d.conf).run ⟨s.iface k, clock⟩
          (inputs.filterMap (ProcessInput.tracked d.conf k)) =
            some (⟨s'.iface k, clock'⟩, sightings k tr)
  | [], s, s', tr, clock, hrun, hle => by
      obtain ⟨rfl, rfl⟩ := Machine.run_nil_iff.mp hrun
      exact ⟨clock, hle, Machine.run_nil_iff.mpr ⟨rfl, rfl⟩⟩
  | input :: inputs, s, s', tr, clock, hrun, hle => by
      obtain ⟨s₁, es, tr', hstep, hrest, rfl⟩ := Machine.run_cons_iff.mp hrun
      obtain ⟨clock₁, hle₁, hfirst⟩ := tracked_step hd hle hstep
      obtain ⟨clock', hle', hown⟩ := tracked_run hd hrest hle₁
      have hinputs : (input :: inputs).filterMap (ProcessInput.tracked d.conf k) =
          (input.tracked d.conf k).toList ++ inputs.filterMap (ProcessInput.tracked d.conf k) := by
        cases h : input.tracked d.conf k with
        | none => exact List.filterMap_cons_none h
        | some own => exact List.filterMap_cons_some h
      rw [hinputs, sightings_append]
      exact ⟨clock', hle', Machine.run_append_iff.mpr ⟨_, _, _, hfirst, hown, rfl⟩⟩

/-! ## The BSSs in a run -/

/-- What a BSS does with an input of its own, its events apart from those of others. -/
theorem bss_of_setConf {i j i' j' : Nat} {input : Input} {q : BssConf × List Event}
    (hstep : bss.step (s.conf i j) input = some q) (hconf : s'.conf = s.conf)
    (hes : bssEvents i' j' es = []) :
    ((s'.setConf i j q.1).conf i' j' = s.conf i' j' ∧
        bssEvents i' j' (es ++ q.2.map (.bss i j)) = [] ∧
          (if i = i' ∧ j = j' then some input.unseen else none) = none) ∨
      ∃ input', bss.step (s.conf i' j') input' =
          some ((s'.setConf i j q.1).conf i' j', bssEvents i' j' (es ++ q.2.map (.bss i j))) ∧
        (if i = i' ∧ j = j' then some input.unseen else none) = some input'.unseen := by
  rcases Decidable.em (i' = i ∧ j' = j) with ⟨rfl, rfl⟩ | hne
  · rw [bssEvents_append, hes, List.nil_append, bssEvents_bss, Process.setConf_conf]
    exact .inr ⟨input, hstep, if_pos ⟨rfl, rfl⟩⟩
  · rw [bssEvents_append, hes, List.nil_append, bssEvents_bss_of_ne hne,
      Process.setConf_of_ne _ hne, hconf]
    exact .inl ⟨rfl, rfl, if_neg fun h => hne ⟨h.1.symm, h.2.symm⟩⟩

theorem bss_of_process {input : ProcessInput} (i' j' : Nat)
    (hstep : (process interfaces).step s input = some (s', es)) :
    (s'.conf i' j' = s.conf i' j' ∧ bssEvents i' j' es = [] ∧
        input.atBss interfaces i' j' = none) ∨
      ∃ input', bss.step (s.conf i' j') input' = some (s'.conf i' j', bssEvents i' j' es) ∧
        input.atBss interfaces i' j' = some input'.unseen := by
  cases input with
  | probeReq i j env now later alloc frame =>
      obtain ⟨c, hc, hrest⟩ := Option.bind_eq_some_iff.mp hstep
      obtain ⟨b, hb, hrest⟩ := Option.bind_eq_some_iff.mp hrest
      have hset : optionSet interfaces i j = b.noProbeRespIfSeenOn.isSome := by
        rw [optionSet, hc, Option.bind_some, hb, Option.any_some]
      cases hmgmt : Mgmt.ofBytes frame with
      | none =>
          rw [hmgmt] at hrest
          obtain ⟨rfl, rfl⟩ := Prod.mk.inj (Option.some.inj hrest)
          -- a BSS does nothing with a frame that is too short
          rcases Decidable.em (i = i' ∧ j = j') with hown | hne
          · refine .inr ⟨.probeReq { env with noProbeRespIfSeenOn := optionSet interfaces i' j' }
              frame, ?_, if_pos hown⟩
            show handleProbeReq _ frame (s.conf i' j') = some (s.conf i' j', [])
            rw [handleProbeReq, hmgmt]
          · exact .inl ⟨rfl, rfl, if_neg hne⟩
      | some mgmt =>
          obtain ⟨s₁, seen, q, htrack, hq, rfl, rfl⟩ := probeReq_eq_some hc hb hmgmt hstep
          obtain ⟨hconf, hes⟩ := trackAdd_conf htrack
          have hbss : bss.step (s.conf i j)
            (.probeReq (b.env interfaces s₁.iface mgmt.sa env) frame) = some q := hq
          have hinput : ProcessInput.atBss interfaces i' j'
              (.probeReq i j env now later alloc frame) = if i = i' ∧ j = j' then
                some (Input.probeReq (b.env interfaces s₁.iface mgmt.sa env) frame).unseen
              else none := by
            rcases Decidable.em (i = i' ∧ j = j') with ⟨rfl, rfl⟩ | hne
            · rw [ProcessInput.atBss, if_pos ⟨rfl, rfl⟩, if_pos ⟨rfl, rfl⟩, hset]
              rfl
            · rw [ProcessInput.atBss, if_neg hne, if_neg hne]
          rw [hinput]
          exact bss_of_setConf hbss hconf (hes i' j')
  | mgmt i addr now later alloc =>
      obtain ⟨c, -, htrack⟩ := Option.bind_eq_some_iff.mp hstep
      obtain ⟨hconf, hes⟩ := trackAdd_conf htrack
      exact .inl ⟨by rw [hconf], hes i' j', rfl⟩
  | trackStaList i now =>
      obtain ⟨c, -, htrack⟩ := Option.bind_eq_some_iff.mp hstep
      obtain ⟨hconf, hes, -⟩ := track_eq_some htrack
      exact .inl ⟨by rw [hconf], hes i' j', rfl⟩
  | buildApParams i j env =>
      have hbss : bss.step (s.conf i j) (.buildApParams env) =
          some (ieee80211BuildApParams env (s.conf i j)) := rfl
      obtain ⟨rfl, rfl⟩ := Prod.mk.inj (Option.some.inj hstep)
      exact @bss_of_setConf s s [] i j i' j' _ _ hbss rfl rfl

/-- Each BSS has the slot and the events of a run on its own inputs. -/
theorem exists_bss_run {inputs : List ProcessInput}
    (hrun : (process interfaces).run {} inputs = some (s, tr)) (i j : Nat) :
    ∃ own, bss.run {} own = some (s.conf i j, bssEvents i j tr) ∧
      own.map Input.unseen = inputs.filterMap (ProcessInput.atBss interfaces i j) :=
  Machine.run_project (fun s => s.conf i j) (bssEvents i j) (ProcessInput.atBss interfaces i j)
    Input.unseen rfl (bssEvents_append i j) (fun _ _ _ _ => bss_of_process i j) hrun

/-- In every run of the process the interfaces and the BSSs do not disturb each other.
Each list is that of a run on the inputs of its interface.  Each BSS takes the steps of a run
on its own inputs, in which nothing but the answers of the lists is left open, so what is
pending there, and what its frames carry, is the ACK of a stuffed request that this BSS has
taken. -/
theorem process_refines {inputs : List ProcessInput}
    (hrun : (process interfaces).run {} inputs = some (s, tr)) :
    (∀ k c, interfaces[k]? = some c → ∃ clock, clock ≤ s.clock ∧
        (staTrack c.conf).run {} (inputs.filterMap (ProcessInput.tracked c.conf k)) =
          some (⟨s.iface k, clock⟩, sightings k tr)) ∧
      ∀ i j, (∃ own, bss.run {} own = some (s.conf i j, bssEvents i j tr) ∧
          own.map Input.unseen = inputs.filterMap (ProcessInput.atBss interfaces i j)) ∧
        SlotInv (bssEvents i j tr) (s.conf i j) := by
  refine ⟨fun k c hc => tracked_run hc hrun (Nat.le_refl 0), fun i j => ?_⟩
  obtain ⟨own, hown, hinputs⟩ := exists_bss_run hrun i j
  exact ⟨⟨own, hown, hinputs⟩, slotInv_run hown⟩

end Runs

/-- A station is seen by the second one and then stuffs a request to the first one. -/
def seenThenStuffed : List ProcessInput :=
  [.mgmt 1 (station 7) (second 1) (second 1) true,
    .probeReq 0 0 {} (second 2) (second 2) true (broadcastProbe 7 (ssidAndRates ++ headerSeven))]

theorem process_refines_seenThenStuffed : ∃ s tr,
    (process twoBands).run {} seenThenStuffed = some (s, tr) ∧
      SlotInv (bssEvents 0 0 tr) (s.conf 0 0) ∧
      (s.conf 0 0).probeRespAckIe = some headerSeven := by
  have hobs : ((process twoBands).run {} seenThenStuffed).map
      (fun r => (r.1.conf 0 0).probeRespAckIe) = some (some headerSeven) := by decide +kernel
  obtain ⟨⟨s, tr⟩, hrun, hack⟩ := Option.map_eq_some_iff.mp hobs
  exact ⟨s, tr, hrun, ((process_refines hrun).2 0 0).2, hack⟩

end ProbeStuffing.Ap

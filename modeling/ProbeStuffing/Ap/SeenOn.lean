import ProbeStuffing.Ap.Interfaces

/-!
# Stations seen on another interface

A BSS with `no_probe_resp_if_seen_on` does not reply to a group-addressed request of a
station that is on the list of an interface of that name.  The check comes behind the
stuffing block.  So the data of such a station is decoded and passed on, as often as it
is sent, and its ACK stays in `probe_resp_ack_ie` for whoever is answered next
(`steered`).

A station stays on the list longer than `track_sta_max_age`, since nothing expires the
list but a full one and the control interface.  So what is said of it is for a station
that was seen recently, and for one that was never seen.
-/

namespace ProbeStuffing.Ap

open CString Trace Recency

/-! ## Who is answered -/

/-- The request is dropped by the check. -/
def Env.steers (env : Env) (mgmt : Mgmt) : Bool :=
  env.noProbeRespIfSeenOn && mgmt.da.isMulticast && mgmt.bssid.isMulticast && env.staTrackSeenOn

/-- What the stuffing block makes of a request, if it gets there. -/
def taken (env : Env) (frame : Bytes) (conf : BssConf) : BssConf × List Event :=
  match accepted env frame with
  | none => (conf, [])
  | some (mgmt, elems) => handleStuffing env mgmt.sa elems conf

theorem replyChecks_eq (env : Env) (mgmt : Mgmt) (elems : Elems) :
    replyChecks env mgmt elems =
      if env.steers mgmt then none
      else replyChecks { env with noProbeRespIfSeenOn := false } mgmt elems := by
  cases hsteers : env.steers mgmt with
  | true =>
      unfold Env.steers at hsteers
      unfold replyChecks
      cases elems.ssid with
      | none => rfl
      | some ssid =>
          cases elems.suppRates with
          | none => rfl
          | some rates => simp only [hsteers, if_true, ite_self]
  | false =>
      unfold Env.steers at hsteers
      unfold replyChecks
      simp only [hsteers, Bool.false_and, Bool.false_eq_true, if_false]
      rfl

theorem handleReply_eq (env : Env) (mgmt : Mgmt) (elems : Elems) (conf : BssConf) :
    handleReply env mgmt elems conf =
      if env.steers mgmt then (conf, [])
      else handleReply { env with noProbeRespIfSeenOn := false } mgmt elems conf := by
  rw [handleReply, replyChecks_eq]
  cases env.steers mgmt with
  | true => rfl
  | false => rfl

/-- The check decides whether there is a response, and nothing else. -/
theorem handleProbeReq_steers {env : Env} {frame : Bytes} {mgmt : Mgmt} {conf : BssConf}
    {q : BssConf × List Event} (hmgmt : Mgmt.ofBytes frame = some mgmt)
    (h : handleProbeReq env frame conf = some q) :
    if env.steers mgmt then q = taken env frame conf
    else handleProbeReq { env with noProbeRespIfSeenOn := false } frame conf = some q := by
  cases hsteers : env.steers mgmt with
  | true =>
      rw [if_pos rfl, handleProbeReq_eq h, taken]
      cases hacc : accepted env frame with
      | none => rfl
      | some p =>
          obtain ⟨hm, -⟩ := accepted_iff.mp hacc
          obtain rfl := Option.some.inj (hmgmt.symm.trans hm)
          dsimp only
          rw [handleReply_eq, hsteers, if_pos rfl, List.append_nil]
  | false =>
      rw [if_neg Bool.false_ne_true, ← h]
      unfold handleProbeReq
      rw [hmgmt]
      dsimp only
      rw [handleReply_eq env, hsteers, if_neg Bool.false_ne_true]
      rfl

/-- An interface of this name has seen the station no longer ago than
`track_sta_max_age`, and fewer than `track_sta_max_num` others since. -/
def SeenRecently (interfaces : List IfaceConf) (tr : List ProcessEvent) (clock : Nat)
    (ifname : Bytes) (addr : Mac) : Prop :=
  ∃ k c older t newer, interfaces[k]? = some c ∧ c.Named ifname ∧
    history (sightings k tr) = older ++ (addr, t) :: newer ∧ ¬ Expired c.conf clock t ∧
      newer.length < c.conf.trackStaMaxNum.toNat

/-- No interface of this name has ever seen the station. -/
def NeverSeen (interfaces : List IfaceConf) (tr : List ProcessEvent) (ifname : Bytes)
    (addr : Mac) : Prop :=
  ∀ k c, interfaces[k]? = some c → c.Named ifname → addr ∉ (sightings k tr).map Prod.fst

section Steering

variable {interfaces : List IfaceConf} {s s' : Process} {tr es : List ProcessEvent}
  {ifname : Bytes} {addr : Mac}

theorem ProcessInv.trackInv {k : Nat} {c : IfaceConf} (h : ProcessInv interfaces tr s)
    (hc : interfaces[k]? = some c) (hmax : 0 < c.conf.trackStaMaxNum.toNat) :
    TrackInv c.conf (sightings k tr) ⟨s.iface k, s.clock⟩ := by
  obtain ⟨inputs, clock, hle, hrun⟩ := h.lists k c hc
  exact (trackInv_run hmax hrun).wait hle

theorem ProcessInv.seenOn (h : ProcessInv interfaces tr s)
    (hseen : SeenRecently interfaces tr s.clock ifname addr) :
    (staTrackSeenOn s.iface addr ifname interfaces).isSome := by
  obtain ⟨k, c, older, t, newer, hc, hnamed, hhistory, hfresh, hfew⟩ := hseen
  have hinv := h.trackInv hc (Nat.zero_lt_of_lt hfew)
  have hentry : (addr, t) ∈ (s.iface k).entries := by
    rcases hinv.kept.kept_or hhistory with hentry | hexpired | hmany
    · exact hentry
    · exact absurd hexpired hfresh
    · exact absurd hmany (Nat.not_le_of_lt hfew)
  refine (staTrackSeenOn_isSome_iff _ _ _ _).mpr ⟨k, c, hc, hnamed, ?_⟩
  rw [Option.isSome_iff_ne_none, ne_eq, staTrackGet_eq_none_iff, not_not]
  exact List.mem_map_of_mem hentry

theorem ProcessInv.not_seenOn (h : ProcessInv interfaces tr s)
    (hnever : NeverSeen interfaces tr ifname addr) :
    ¬ (staTrackSeenOn s.iface addr ifname interfaces).isSome := by
  rw [staTrackSeenOn_isSome_iff]
  rintro ⟨k, c, hc, hnamed, hget⟩
  rw [Option.isSome_iff_ne_none, ne_eq, staTrackGet_eq_none_iff, not_not] at hget
  rcases Nat.eq_zero_or_pos c.conf.trackStaMaxNum.toNat with hzero | hmax
  · rw [h.untracked k c hc (UInt32.toNat_inj.mp hzero)] at hget
    exact List.not_mem_nil hget
  · have hsub := (h.trackInv hc hmax).kept.suffix.sublist.map Prod.fst
    exact hnever k c hc hnamed ((mem_keys_history _ _).mp (hsub.subset hget))

/-- In every run of the process, a BSS with `no_probe_resp_if_seen_on` does with a
group-addressed request of a station that was seen recently by an interface of that
name what the stuffing block does, and nothing else: the data is passed on and the ACK
installed, and no response is built.  A request that is not group-addressed, and one of a
station that no such interface has ever seen, it handles as if it had no such option. -/
theorem steered {inputs : List ProcessInput}
    (hrun : (process interfaces).run {} inputs = some (s, tr)) {i j : Nat} {env : Env}
    {now later : OsReltime} {alloc : Bool} {frame : Bytes}
    (hstep : (process interfaces).step s (.probeReq i j env now later alloc frame) =
      some (s', es)) {c : IfaceConf} {b : HostapdBssConfig} {mgmt : Mgmt}
    (hc : interfaces[i]? = some c) (hb : c.bss[j]? = some b)
    (hname : b.noProbeRespIfSeenOn = some ifname) (hmgmt : Mgmt.ofBytes frame = some mgmt) :
    let group := mgmt.da.isMulticast ∧ mgmt.bssid.isMulticast
    (group → SeenRecently interfaces (tr ++ es) s'.clock ifname mgmt.sa →
        (s'.conf i j, bssEvents i j es) = taken env frame (s.conf i j)) ∧
      (¬ group ∨ NeverSeen interfaces (tr ++ es) ifname mgmt.sa →
        handleProbeReq { env with noProbeRespIfSeenOn := false } frame (s.conf i j) =
          some (s'.conf i j, bssEvents i j es)) := by
  intro group
  obtain ⟨s₁, seen, q, htrack, hq, rfl, rfl⟩ := probeReq_eq_some hc hb hmgmt hstep
  have hinv := processInv_trackAdd (processInv_run hrun) hc htrack
  have hsightings k : sightings k (tr ++ (seen ++ q.2.map (.bss i j))) =
      sightings k (tr ++ seen) := by
    rw [← List.append_assoc, sightings_append, sightings_bss, List.append_nil]
  have hafter : ((s₁.setConf i j q.1).conf i j,
      bssEvents i j (seen ++ q.2.map (.bss i j))) = q := by
    rw [bssEvents_append, (trackAdd_conf htrack).2, bssEvents_bss, List.nil_append,
      Process.setConf_conf]
  have hsteers : (b.env interfaces s₁.iface mgmt.sa env).steers mgmt = true ↔
      group ∧ (staTrackSeenOn s₁.iface mgmt.sa ifname interfaces).isSome := by
    simp only [Env.steers, HostapdBssConfig.env, hname, Option.isSome_some, Option.any_some,
      Bool.true_and, Bool.and_eq_true, group]
  have hsplit := handleProbeReq_steers hmgmt hq
  rw [hafter]
  refine ⟨fun hgroup hrecent => ?_, fun hother => ?_⟩
  · have hseen : SeenRecently interfaces (tr ++ seen) s₁.clock ifname mgmt.sa := by
      unfold SeenRecently at hrecent ⊢
      simp only [hsightings] at hrecent
      exact hrecent
    rw [if_pos (hsteers.mpr ⟨hgroup, hinv.seenOn hseen⟩)] at hsplit
    exact hsplit
  · have hnot : ¬ (b.env interfaces s₁.iface mgmt.sa env).steers mgmt = true := by
      rw [hsteers]
      rintro ⟨hgroup, hlisted⟩
      rcases hother with hsingle | hnever
      · exact hsingle hgroup
      · have hnever' : NeverSeen interfaces (tr ++ seen) ifname mgmt.sa := by
          unfold NeverSeen at hnever ⊢
          simp only [hsightings] at hnever
          exact hnever
        exact hinv.not_seenOn hnever' hlisted
    rw [if_neg hnot] at hsplit
    exact hsplit

end Steering

/-- A station that was seen by the second one stuffs a request to the first one. -/
theorem steered_twoBands : ∃ s tr s' es,
    (process twoBands).run {} [.mgmt 1 (station 7) (second 1) (second 1) true] = some (s, tr) ∧
      (process twoBands).step s (.probeReq 0 0 {} (second 2) (second 2) true
        (broadcastProbe 7 (ssidAndRates ++ headerSeven))) = some (s', es) ∧
      (s'.conf 0 0, bssEvents 0 0 es) =
        taken {} (broadcastProbe 7 (ssidAndRates ++ headerSeven)) (s.conf 0 0) ∧
      (s'.conf 0 0).probeRespAckIe = some headerSeven := by
  have hobs : (((process twoBands).run {} [.mgmt 1 (station 7) (second 1) (second 1) true]).bind
      fun r => ((process twoBands).step r.1 (.probeReq 0 0 {} (second 2) (second 2) true
        (broadcastProbe 7 (ssidAndRates ++ headerSeven)))).map fun q =>
          (history (sightings 1 (r.2 ++ q.2)), q.1.clock, (q.1.conf 0 0).probeRespAckIe)) =
        some ([(station 7, second 1)], 1000000, some headerSeven) := by
    decide +kernel
  obtain ⟨⟨s, tr⟩, hrun, hobs⟩ := Option.bind_eq_some_iff.mp hobs
  obtain ⟨⟨s', es⟩, hstep, hobs⟩ := Option.map_eq_some_iff.mp hobs
  simp only [Prod.mk.injEq] at hobs
  obtain ⟨hhistory, hclock, hack⟩ := hobs
  have hrecent : SeenRecently twoBands (tr ++ es) s'.clock (ascii "wlan1") (station 7) := by
    refine ⟨1, _, [], second 1, [], rfl, ⟨_, List.mem_cons_self, rfl⟩, hhistory, ?_, by decide⟩
    rw [hclock]
    exact Nat.not_lt_of_le (Nat.le_add_right _ _)
  exact ⟨s, tr, s', es, hrun, hstep,
    (steered hrun hstep rfl rfl rfl rfl).1 ⟨rfl, rfl⟩ hrecent, hack⟩

end ProbeStuffing.Ap

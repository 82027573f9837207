import ProbeStuffing.Ap.ProbeReq
import ProbeStuffing.Lib.Recency

/-!
# The stations an access point has seen

`handle_probe_req` begins with `sta_track_add`, and so does every other management
frame.  The list `sta_seen` has the stations in the order in which they were seen last,
at most `track_sta_max_num` of them.  `sta_track_expire` takes entries off its front:
those that are older than `track_sta_max_age`, and when it is forced also one that is
not, to make room.

The count `num_sta_seen` is kept beside the list, and an entry is moved, not removed and
added, when its station is seen again.  In every run the count is right, the list is the
end of the history of all stations, and no station is missing from it without a reason
(`staTrack_lru`).
-/

namespace ProbeStuffing.Ap

open Trace Recency

/-! ## Time -/

/-- `struct os_reltime`. -/
structure OsReltime where
  sec : Nat
  usec : Nat
  usec_lt : usec < 1000000
deriving DecidableEq

/-- `os_reltime_sub`. -/
def osReltimeSub (a b : OsReltime) : Int × Int :=
  let sec : Int := a.sec - b.sec
  let usec : Int := a.usec - b.usec
  if usec < 0 then (sec - 1, usec + 1000000) else (sec, usec)

/-- `os_reltime_expired`. -/
def osReltimeExpired (now ts : OsReltime) (timeoutSecs : Int) : Bool :=
  let age := osReltimeSub now ts
  age.1 > timeoutSecs || (age.1 == timeoutSecs && age.2 > 0)

/-- The time in microseconds. -/
def OsReltime.micros (t : OsReltime) : Nat := t.sec * 1000000 + t.usec

theorem osReltimeExpired_iff (now ts : OsReltime) (timeoutSecs : Int) :
    osReltimeExpired now ts timeoutSecs = true ↔
      (ts.micros : Int) + timeoutSecs * 1000000 < now.micros := by
  have hnow := now.usec_lt
  have hts := ts.usec_lt
  unfold osReltimeExpired osReltimeSub OsReltime.micros
  dsimp only
  split
  · simp only [Bool.or_eq_true, Bool.and_eq_true, decide_eq_true_eq, beq_iff_eq]
    omega
  · simp only [Bool.or_eq_true, Bool.and_eq_true, decide_eq_true_eq, beq_iff_eq]
    omega

/-! ## The list -/

/-- `struct hostapd_sta_info`. -/
structure HostapdStaInfo where
  addr : Mac
  lastSeen : OsReltime
deriving DecidableEq

/-- The tracking part of `struct hostapd_iface`. -/
structure HostapdIface where
  staSeen : List HostapdStaInfo := []
  numStaSeen : UInt32 := 0

/-- The tracking part of `struct hostapd_config`. -/
structure HostapdConfig where
  trackStaMaxNum : UInt32 := 0
  trackStaMaxAge : UInt32 := 180

/-- `sta_track_get`. -/
def staTrackGet (iface : HostapdIface) (addr : Mac) : Option HostapdStaInfo :=
  iface.staSeen.find? fun info => info.addr == addr

/-- The loop of `sta_track_expire`. -/
def expireLoop (maxAge : UInt32) (now : OsReltime) :
    Bool → List HostapdStaInfo → UInt32 → List HostapdStaInfo × UInt32
  | _, [], num => ([], num)
  | force, info :: rest, num =>
      if !force && !osReltimeExpired now info.lastSeen maxAge.toNat then (info :: rest, num)
      else expireLoop maxAge now false rest (num - 1)

/-- `sta_track_expire`. -/
def staTrackExpire (conf : HostapdConfig) (now : OsReltime) (force : Bool)
    (iface : HostapdIface) : HostapdIface :=
  if iface.numStaSeen = 0 then iface
  else
    let r := expireLoop conf.trackStaMaxAge now force iface.staSeen iface.numStaSeen
    ⟨r.1, r.2⟩

/-- `sta_track_add`; `later` is the clock of `sta_track_expire` in it. -/
def staTrackAdd (conf : HostapdConfig) (now later : OsReltime) (alloc : Bool)
    (iface : HostapdIface) (addr : Mac) : HostapdIface :=
  match staTrackGet iface addr with
  | some info =>
      { iface with
        staSeen := iface.staSeen.eraseP (fun info => info.addr == addr) ++
          [{ info with lastSeen := now }] }
  | none =>
      if !alloc then iface
      else
        let iface :=
          if conf.trackStaMaxNum ≤ iface.numStaSeen then staTrackExpire conf later true iface
          else iface
        ⟨iface.staSeen ++ [⟨addr, now⟩], iface.numStaSeen + 1⟩

/-! ## Runs -/

inductive TrackInput where
  /-- `sta_track_add`, with its two clocks. -/
  | add (addr : Mac) (now later : OsReltime) (alloc : Bool)
  /-- `sta_track_expire` from outside. -/
  | expire (now : OsReltime)

/-- An interface, and the last time its clock was read. -/
structure Tracked where
  iface : HostapdIface := {}
  clock : Nat := 0

/-- The life of one interface.  An event is a station that was seen, and when.  The
clock does not go back. -/
def staTrack (conf : HostapdConfig) : Machine Tracked TrackInput (Mac × OsReltime) where
  step st
    | .add addr now later alloc =>
        if st.clock ≤ now.micros ∧ now.micros ≤ later.micros then
          some (⟨staTrackAdd conf now later alloc st.iface addr, later.micros⟩,
            if (staTrackGet st.iface addr).isSome || alloc then [(addr, now)] else [])
        else none
    | .expire now =>
        if st.clock ≤ now.micros then
          some (⟨staTrackExpire conf now false st.iface, now.micros⟩, [])
        else none

def HostapdStaInfo.entry (info : HostapdStaInfo) : Mac × OsReltime := (info.addr, info.lastSeen)

@[simp] theorem HostapdStaInfo.entry_fst (info : HostapdStaInfo) : info.entry.1 = info.addr := rfl

/-- The list as entries of a history. -/
def HostapdIface.entries (iface : HostapdIface) : List (Mac × OsReltime) :=
  iface.staSeen.map HostapdStaInfo.entry

/-- By this clock a stamp is older than `track_sta_max_age`. -/
def Expired (conf : HostapdConfig) (clock : Nat) (t : OsReltime) : Prop :=
  t.micros + conf.trackStaMaxAge.toNat * 1000000 < clock

theorem Expired.mono {conf : HostapdConfig} {clock clock' : Nat} (hle : clock ≤ clock')
    {t : OsReltime} (h : Expired conf clock t) : Expired conf clock' t :=
  Nat.lt_of_lt_of_le h hle

section Step

variable {conf : HostapdConfig} {iface : HostapdIface}

theorem expired_of_osReltimeExpired {now ts : OsReltime}
    (h : osReltimeExpired now ts conf.trackStaMaxAge.toNat = true) :
    Expired conf now.micros ts := by
  have hlt := (osReltimeExpired_iff now ts conf.trackStaMaxAge.toNat).mp h
  exact_mod_cast hlt

/-- What the loop takes off the front is expired, but for one entry if it is forced,
and the count falls by as much. -/
theorem expireLoop_spec (now : OsReltime) :
    ∀ (l : List HostapdStaInfo) (num : UInt32), num.toNat = l.length →
      let r := expireLoop conf.trackStaMaxAge now false l num
      ∃ gone, l = gone ++ r.1 ∧ r.2.toNat = r.1.length ∧
        ∀ info ∈ gone, Expired conf now.micros info.lastSeen
  | [], num, hnum => ⟨[], rfl, hnum, List.forall_mem_nil _⟩
  | info :: l, num, hnum => by
      intro r
      cases hexpired : osReltimeExpired now info.lastSeen conf.trackStaMaxAge.toNat with
      | false =>
          have hr : r = (info :: l, num) := by
            show expireLoop conf.trackStaMaxAge now false (info :: l) num = _
            rw [expireLoop, hexpired]
            rfl
          rw [hr]
          exact ⟨[], rfl, hnum, List.forall_mem_nil _⟩
      | true =>
          have hr : r = expireLoop conf.trackStaMaxAge now false l (num - 1) := by
            show expireLoop conf.trackStaMaxAge now false (info :: l) num = _
            rw [expireLoop, hexpired]
            rfl
          have hnum' : (num - 1).toNat = l.length := by
            rw [UInt32.toNat_sub_of_le]
            · rw [hnum]
              rfl
            · rw [UInt32.le_iff_toNat_le, hnum]
              exact Nat.succ_le_succ (Nat.zero_le _)
          obtain ⟨gone, hl, hcount, hgone⟩ := expireLoop_spec now l (num - 1) hnum'
          rw [hr]
          refine ⟨info :: gone, by rw [List.cons_append, ← hl], hcount, ?_⟩
          exact List.forall_mem_cons.mpr ⟨expired_of_osReltimeExpired hexpired, hgone⟩

theorem staTrackExpire_spec (now : OsReltime) (hcount : iface.numStaSeen.toNat =
    iface.staSeen.length) :
    let iface' := staTrackExpire conf now false iface
    ∃ gone, iface.staSeen = gone ++ iface'.staSeen ∧
      iface'.numStaSeen.toNat = iface'.staSeen.length ∧
        ∀ info ∈ gone, Expired conf now.micros info.lastSeen := by
  unfold staTrackExpire
  dsimp only
  split
  · exact ⟨[], rfl, hcount, List.forall_mem_nil _⟩
  · exact expireLoop_spec now iface.staSeen iface.numStaSeen hcount

/-- When it is forced, the oldest station goes as well. -/
theorem staTrackExpire_force (now : OsReltime) {info : HostapdStaInfo}
    {rest : List HostapdStaInfo} (hlist : iface.staSeen = info :: rest)
    (hcount : iface.numStaSeen.toNat = iface.staSeen.length) :
    let iface' := staTrackExpire conf now true iface
    ∃ gone, rest = gone ++ iface'.staSeen ∧ iface'.numStaSeen.toNat = iface'.staSeen.length ∧
      ∀ info ∈ gone, Expired conf now.micros info.lastSeen := by
  have hlen : iface.numStaSeen.toNat = rest.length + 1 := by
    rw [hcount, hlist]
    rfl
  have hne : iface.numStaSeen ≠ 0 := by
    intro hzero
    rw [hzero] at hlen
    exact absurd hlen (Nat.succ_ne_zero _).symm
  have hrest : (iface.numStaSeen - 1).toNat = rest.length := by
    rw [UInt32.toNat_sub_of_le]
    · rw [hlen]
      rfl
    · rw [UInt32.le_iff_toNat_le, hlen]
      exact Nat.succ_le_succ (Nat.zero_le _)
  have heq : staTrackExpire conf now true iface =
      ⟨(expireLoop conf.trackStaMaxAge now false rest (iface.numStaSeen - 1)).1,
        (expireLoop conf.trackStaMaxAge now false rest (iface.numStaSeen - 1)).2⟩ := by
    rw [staTrackExpire, if_neg hne, hlist, expireLoop]
    rfl
  intro iface'
  have hspec := @expireLoop_spec conf now rest (iface.numStaSeen - 1) hrest
  show ∃ gone, rest = gone ++ (staTrackExpire conf now true iface).staSeen ∧
    (staTrackExpire conf now true iface).numStaSeen.toNat =
      (staTrackExpire conf now true iface).staSeen.length ∧ _
  rw [heq]
  exact hspec

/-- The entry of a station is moved to the end. -/
theorem map_eraseP_eq_filter (addr : Mac) : ∀ {l : List HostapdStaInfo},
    ((l.map HostapdStaInfo.entry).map Prod.fst).Nodup →
      (l.eraseP fun info => info.addr == addr).map HostapdStaInfo.entry =
        (l.map HostapdStaInfo.entry).filter fun e => e.1 ≠ addr
  | [], _ => rfl
  | info :: l, h => by
      obtain ⟨hnot, hrest⟩ := List.nodup_cons.mp h
      rcases eq_or_ne info.addr addr with heq | hne
      · have hall : ∀ e ∈ l.map HostapdStaInfo.entry,
            decide (e.1 ≠ addr) = true := fun e he => decide_eq_true fun hkey =>
              hnot (List.mem_map.mpr ⟨e, he, hkey.trans heq.symm⟩)
        have herase : (info :: l).eraseP (fun info => info.addr == addr) = l :=
          List.eraseP_cons_of_pos (by simpa using heq)
        have hskip : (info.entry :: l.map HostapdStaInfo.entry).filter (fun e => e.1 ≠ addr) =
            (l.map HostapdStaInfo.entry).filter fun e => e.1 ≠ addr :=
          List.filter_cons_of_neg fun hne => of_decide_eq_true hne heq
        rw [herase, List.map_cons, hskip, List.filter_eq_self.mpr hall]
      · have herase : (info :: l).eraseP (fun info => info.addr == addr) =
            info :: l.eraseP (fun info => info.addr == addr) :=
          List.eraseP_cons_of_neg (by simpa using hne)
        have hstay : (info.entry :: l.map HostapdStaInfo.entry).filter (fun e => e.1 ≠ addr) =
            info.entry :: (l.map HostapdStaInfo.entry).filter fun e => e.1 ≠ addr :=
          List.filter_cons_of_pos (decide_eq_true hne)
        rw [herase, List.map_cons, List.map_cons, hstay, map_eraseP_eq_filter addr hrest]

theorem staTrackGet_eq_none_iff {addr : Mac} :
    staTrackGet iface addr = none ↔ addr ∉ iface.entries.map Prod.fst := by
  simp only [staTrackGet, List.find?_eq_none, HostapdIface.entries, List.map_map, List.mem_map,
    Function.comp_apply, HostapdStaInfo.entry_fst, beq_iff_eq, not_exists, not_and]

end Step

/-! ## The invariant -/

section Inv

variable {conf : HostapdConfig}

/-- What holds of an interface whose stations were seen in this order. -/
structure TrackInv (conf : HostapdConfig) (tr : List (Mac × OsReltime)) (st : Tracked) :
    Prop where
  count : st.iface.numStaSeen.toNat = st.iface.staSeen.length
  bounded : st.iface.staSeen.length ≤ conf.trackStaMaxNum.toNat
  kept : Kept conf.trackStaMaxNum.toNat (Expired conf st.clock) (history tr) st.iface.entries
  sorted : (history tr).Pairwise fun a b => a.2.micros ≤ b.2.micros
  past : ∀ e ∈ history tr, e.2.micros ≤ st.clock

variable {tr es : List (Mac × OsReltime)} {st st' : Tracked}

theorem trackInv_start : TrackInv conf [] {} where
  count := rfl
  bounded := Nat.zero_le _
  kept := .nil
  sorted := List.Pairwise.nil
  past := List.forall_mem_nil _

theorem TrackInv.nodup (h : TrackInv conf tr st) : (st.iface.entries.map Prod.fst).Nodup :=
  (nodup_history tr).sublist (h.kept.suffix.sublist.map Prod.fst)

/-- Time goes by. -/
theorem TrackInv.wait {clock : Nat} (h : TrackInv conf tr st) (hle : st.clock ≤ clock) :
    TrackInv conf tr ⟨st.iface, clock⟩ where
  count := h.count
  bounded := h.bounded
  kept := h.kept.mono fun _ ht => Expired.mono hle ht
  sorted := h.sorted
  past e he := (h.past e he).trans hle

theorem trackInv_expire {now : OsReltime} (h : TrackInv conf tr st)
    (hclock : st.clock ≤ now.micros) :
    TrackInv conf tr ⟨staTrackExpire conf now false st.iface, now.micros⟩ := by
  obtain ⟨gone, hlist, hcount, hgone⟩ := @staTrackExpire_spec conf st.iface now h.count
  have hentries : st.iface.entries = gone.map HostapdStaInfo.entry ++
      (staTrackExpire conf now false st.iface).entries := by
    rw [HostapdIface.entries, hlist, List.map_append]
    rfl
  refine ⟨hcount, ?_, ?_, h.sorted, fun e he => (h.past e he).trans hclock⟩
  · have hlen := congrArg List.length hlist
    rw [List.length_append] at hlen
    exact (Nat.le_add_left _ _).trans (hlen.symm.le.trans h.bounded)
  · have hkept := h.kept.mono fun t ht => Expired.mono hclock ht
    rw [hentries] at hkept
    refine hkept.dropStale fun e he => ?_
    obtain ⟨info, hinfo, rfl⟩ := List.mem_map.mp he
    exact hgone info hinfo

/-- A station that is seen is the last one in the history. -/
theorem TrackInv.touched (h : TrackInv conf tr st) {addr : Mac} {now later : OsReltime}
    (hclock : st.clock ≤ now.micros) (hlater : now.micros ≤ later.micros) :
    Kept conf.trackStaMaxNum.toNat (Expired conf later.micros) (history (tr ++ [(addr, now)]))
        (touch st.iface.entries addr now) ∧
      ((history (tr ++ [(addr, now)])).Pairwise fun a b => a.2.micros ≤ b.2.micros) ∧
        ∀ e ∈ history (tr ++ [(addr, now)]), e.2.micros ≤ later.micros := by
  rw [history_concat]
  have hmono := h.kept.mono fun t ht => Expired.mono (hclock.trans hlater) ht
  have hsorted := @pairwise_touch Mac OsReltime _ (history tr) addr now
    (fun a b => a.micros ≤ b.micros) h.sorted fun e he => (h.past e he).trans hclock
  refine ⟨hmono.touch (nodup_history tr) addr now, hsorted, fun e he => ?_⟩
  rcases List.mem_append.mp he with hold | hnew
  · exact (h.past e (List.mem_of_mem_filter hold)).trans (hclock.trans hlater)
  · rw [List.mem_singleton.mp hnew]
    exact hlater

/-- A station that is on the list. -/
theorem trackInv_again {addr : Mac} {now later : OsReltime} {info : HostapdStaInfo}
    (h : TrackInv conf tr st) (hget : staTrackGet st.iface addr = some info)
    (hclock : st.clock ≤ now.micros) (hlater : now.micros ≤ later.micros) :
    TrackInv conf (tr ++ [(addr, now)])
      ⟨{ st.iface with
          staSeen := st.iface.staSeen.eraseP (fun info => info.addr == addr) ++
            [{ info with lastSeen := now }] }, later.micros⟩ := by
  obtain ⟨hkept, hsorted, hpast⟩ := h.touched hclock hlater
  have hfound : (info.addr == addr) = true :=
    List.find?_some (p := fun info : HostapdStaInfo => info.addr == addr) hget
  have haddr : info.addr = addr := beq_iff_eq.mp hfound
  have hlen : (st.iface.staSeen.eraseP fun info => info.addr == addr).length + 1 =
      st.iface.staSeen.length := by
    rw [List.length_eraseP_of_mem (List.mem_of_find?_eq_some hget) hfound]
    exact Nat.sub_add_cancel (List.length_pos_of_mem (List.mem_of_find?_eq_some hget))
  refine ⟨?_, ?_, ?_, hsorted, hpast⟩
  · dsimp only
    rw [List.length_append, List.length_singleton, hlen]
    exact h.count
  · dsimp only
    rw [List.length_append, List.length_singleton, hlen]
    exact h.bounded
  · have hentries : (st.iface.staSeen.eraseP (fun info : HostapdStaInfo => info.addr == addr) ++
        [{ info with lastSeen := now }]).map HostapdStaInfo.entry =
          touch st.iface.entries addr now := by
      have hnew : HostapdStaInfo.entry { info with lastSeen := now } = (addr, now) := by
        rw [HostapdStaInfo.entry, haddr]
      rw [List.map_append, map_eraseP_eq_filter addr h.nodup, List.map_singleton, hnew]
      rfl
    rw [HostapdIface.entries, hentries]
    exact hkept

/-- A station that is not on the list. -/
theorem trackInv_new {addr : Mac} {now later : OsReltime} (hmax : 0 < conf.trackStaMaxNum.toNat)
    (h : TrackInv conf tr st) (hget : staTrackGet st.iface addr = none)
    (hclock : st.clock ≤ now.micros) (hlater : now.micros ≤ later.micros) :
    TrackInv conf (tr ++ [(addr, now)])
      ⟨staTrackAdd conf now later true st.iface addr, later.micros⟩ := by
  obtain ⟨hkept, hsorted, hpast⟩ := h.touched hclock hlater
  rw [touch_eq_self_of_notMem (staTrackGet_eq_none_iff.mp hget)] at hkept
  have hlt : conf.trackStaMaxNum.toNat < 2 ^ 32 := conf.trackStaMaxNum.toNat_lt
  have hcount := h.count
  have hsucc {num : UInt32} (hnum : num.toNat < conf.trackStaMaxNum.toNat) :
      (num + 1).toNat = num.toNat + 1 := by
    have hone : (1 : UInt32).toNat = 1 := rfl
    rw [UInt32.toNat_add, hone, Nat.mod_eq_of_lt (Nat.lt_of_le_of_lt hnum hlt)]
  by_cases hfull : conf.trackStaMaxNum ≤ st.iface.numStaSeen
  · have hadd : staTrackAdd conf now later true st.iface addr =
        ⟨(staTrackExpire conf later true st.iface).staSeen ++ [⟨addr, now⟩],
          (staTrackExpire conf later true st.iface).numStaSeen + 1⟩ := by
      simp only [staTrackAdd, hget, Bool.not_true, Bool.false_eq_true, if_false, if_pos hfull]
    rw [UInt32.le_iff_toNat_le, hcount] at hfull
    have hlen := Nat.le_antisymm h.bounded hfull
    rw [hadd]
    cases hlist : st.iface.staSeen with
    | nil =>
        rw [hlist] at hlen
        exact absurd hlen.symm (Nat.ne_of_gt hmax)
    | cons info rest =>
        obtain ⟨gone, hrest, hnum, hgone⟩ := @staTrackExpire_force conf st.iface later info rest
          hlist hcount
        have hroom : (staTrackExpire conf later true st.iface).staSeen.length <
            conf.trackStaMaxNum.toNat := by
          rw [← hlen, hlist, hrest, List.length_cons, List.length_append]
          exact Nat.lt_succ_of_le (Nat.le_add_left _ _)
        refine ⟨?_, ?_, ?_, hsorted, hpast⟩
        · dsimp only
          rw [hsucc (hnum.trans_lt hroom), hnum, List.length_append, List.length_singleton]
        · dsimp only
          rw [List.length_append, List.length_singleton]
          exact hroom
        · have hentries : st.iface.entries ++ [(addr, now)] = (info.addr, info.lastSeen) ::
              (gone.map HostapdStaInfo.entry ++
                HostapdIface.entries ⟨(staTrackExpire conf later true st.iface).staSeen ++
                  [⟨addr, now⟩], (staTrackExpire conf later true st.iface).numStaSeen + 1⟩) := by
            rw [HostapdIface.entries, hlist, hrest]
            simp only [HostapdIface.entries, HostapdStaInfo.entry, List.map_cons, List.map_append,
              List.map_nil, List.cons_append, List.append_assoc]
          have hfirst := congrArg List.length hentries
          rw [hentries] at hkept
          refine (hkept.dropFirst (.inr ?_)).dropStale fun e he => ?_
          · rw [List.length_append, List.length_singleton, List.length_cons, HostapdIface.entries,
              List.length_map, hlen] at hfirst
            exact (Nat.succ.inj hfirst).le
          · obtain ⟨info', hinfo', rfl⟩ := List.mem_map.mp he
            exact hgone info' hinfo'
  · have hadd : staTrackAdd conf now later true st.iface addr =
        ⟨st.iface.staSeen ++ [⟨addr, now⟩], st.iface.numStaSeen + 1⟩ := by
      simp only [staTrackAdd, hget, Bool.not_true, Bool.false_eq_true, if_false, if_neg hfull]
    rw [UInt32.le_iff_toNat_le, Nat.not_le] at hfull
    rw [hadd]
    refine ⟨?_, ?_, ?_, hsorted, hpast⟩
    · dsimp only
      rw [hsucc hfull, hcount, List.length_append, List.length_singleton]
    · dsimp only
      rw [List.length_append, List.length_singleton, ← hcount]
      exact hfull
    · have hentries : HostapdIface.entries ⟨st.iface.staSeen ++ [⟨addr, now⟩],
          st.iface.numStaSeen + 1⟩ = st.iface.entries ++ [(addr, now)] := List.map_append
      rwa [hentries]

theorem trackInv_step {i : TrackInput} (hmax : 0 < conf.trackStaMaxNum.toNat)
    (h : TrackInv conf tr st) (hstep : (staTrack conf).step st i = some (st', es)) :
    TrackInv conf (tr ++ es) st' := by
  cases i with
  | expire now =>
      simp only [staTrack] at hstep
      split at hstep
      · next hclock =>
          obtain ⟨rfl, rfl⟩ := Prod.mk.inj (Option.some.inj hstep)
          rw [List.append_nil]
          exact trackInv_expire h hclock
      · cases hstep
  | add addr now later alloc =>
      simp only [staTrack] at hstep
      split at hstep
      · next hclock =>
          obtain ⟨rfl, rfl⟩ := Prod.mk.inj (Option.some.inj hstep)
          cases hget : staTrackGet st.iface addr with
          | some info =>
              rw [Option.isSome_some, Bool.true_or, if_pos rfl, staTrackAdd, hget]
              exact trackInv_again h hget hclock.1 hclock.2
          | none =>
              cases alloc with
              | true => exact trackInv_new hmax h hget hclock.1 hclock.2
              | false =>
                  rw [Option.isSome_none, Bool.or_false, if_neg Bool.false_ne_true,
                    List.append_nil, staTrackAdd, hget]
                  exact h.wait (hclock.1.trans hclock.2)
      · cases hstep

theorem trackInv_run (hmax : 0 < conf.trackStaMaxNum.toNat) {inputs : List TrackInput}
    (hrun : (staTrack conf).run {} inputs = some (st, tr)) : TrackInv conf tr st :=
  Machine.run_history (I := TrackInv conf) (fun _ _ _ _ _ h hstep => trackInv_step hmax h hstep)
    trackInv_start hrun

/-- In every run of an interface that tracks stations: the list has at most
`track_sta_max_num` of them, each once, in the order in which they were seen last, and
`num_sta_seen` is its length; and a station that was seen is on it with its last time,
unless this is more than `track_sta_max_age` ago or `track_sta_max_num` other stations
have been seen since. -/
theorem staTrack_lru (hmax : 0 < conf.trackStaMaxNum.toNat) {inputs : List TrackInput}
    (hrun : (staTrack conf).run {} inputs = some (st, tr)) :
    st.iface.numStaSeen.toNat = st.iface.staSeen.length ∧
      st.iface.staSeen.length ≤ conf.trackStaMaxNum.toNat ∧
      st.iface.entries <:+ history tr ∧
      ((history tr).Pairwise fun a b => a.2.micros ≤ b.2.micros) ∧
      ∀ older e newer, history tr = older ++ e :: newer →
        e ∈ st.iface.entries ∨ Expired conf st.clock e.2 ∨
          conf.trackStaMaxNum.toNat ≤ newer.length := by
  have hinv := trackInv_run hmax hrun
  exact ⟨hinv.count, hinv.bounded, hinv.kept.suffix, hinv.sorted,
    fun older e newer hall => hinv.kept.kept_or hall⟩

end Inv

def station (b : UInt8) : Mac := ⟨2, 0, 0, 0, 0, b⟩

def second (n : Nat) : OsReltime := ⟨n, 0, by decide⟩

/-- Room for two stations, and a third one is seen; the first one is seen again before. -/
def threeStations : List TrackInput :=
  [.add (station 1) (second 1) (second 1) true, .add (station 2) (second 2) (second 2) true,
    .add (station 1) (second 3) (second 3) true, .add (station 3) (second 4) (second 5) true]

theorem staTrack_lru_threeStations : ∃ st tr,
    (staTrack { trackStaMaxNum := 2 }).run {} threeStations = some (st, tr) ∧
      st.iface.entries = [(station 1, second 3), (station 3, second 4)] ∧
      st.iface.staSeen.length ≤ 2 := by
  have hobs : ((staTrack { trackStaMaxNum := 2 }).run {} threeStations).map
      (fun r => r.1.iface.entries) = some [(station 1, second 3), (station 3, second 4)] := by
    decide
  obtain ⟨r, hrun, hentries⟩ := Option.map_eq_some_iff.mp hobs
  exact ⟨r.1, r.2, hrun, hentries, (staTrack_lru (by decide) hrun).2.1⟩

end ProbeStuffing.Ap

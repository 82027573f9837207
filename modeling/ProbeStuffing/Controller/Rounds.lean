import ProbeStuffing.Controller.Server

/-!
# What a pass over the clients does

A pass has one event for each of its reads when all data it reads is handed over,
and a connection is open after it if it was before and has not been closed by one of
the reads.  Clients that are not ready are passed over, so what a round does is
decided by the ready ones alone.
-/

namespace ProbeStuffing.Controller

open CString Trace

/-! ## All of the reads -/

section Reads

variable {ready : Nat → Bool}

/-- A connection is open after a pass if it was and none of the reads has closed it. -/
theorem serveClients_opened :
    ∀ {sds opened : List Nat} {incoming : List Incoming}
      {r : List Nat × List Nat × List ServerEvent}, opened.Nodup →
      serveClients ready sds opened incoming = some r →
        ∀ sd, sd ∈ r.2.1 ↔ sd ∈ opened ∧ (sd, .eof) ∉ readsOf ready sds incoming
  | [], opened, incoming, r, _, h, sd => by
      obtain rfl := Option.some.inj h
      exact (and_iff_left List.not_mem_nil).symm
  | sd' :: sds, opened, incoming, r, hnodup, h, sd => by
      unfold serveClients at h
      split at h
      · next hready =>
          cases incoming with
          | nil => cases h
          | cons i incoming =>
              rw [readsOf_cons hready, List.mem_cons, not_or]
              cases i with
              | eof =>
                  obtain ⟨r', hr', rfl⟩ := Option.map_eq_some_iff.mp h
                  dsimp only
                  rw [serveClients_opened (hnodup.erase sd') hr', hnodup.mem_erase_iff,
                    Prod.mk.injEq, eq_self, and_true, and_assoc, and_left_comm]
              | read result luck =>
                  have heof : (sd, Incoming.eof) ≠ (sd', .read result luck) :=
                    fun heq => by cases (Prod.mk.inj heq).2
                  rw [and_iff_right heof]
                  cases hd : takeOver luck result.buffer with
                  | none => simp [hd] at h
                  | some data =>
                      simp only [hd] at h
                      obtain ⟨r', hr', rfl⟩ := Option.map_eq_some_iff.mp h
                      exact serveClients_opened hnodup hr' sd
      · next hready =>
          obtain ⟨r', hr', rfl⟩ := Option.map_eq_some_iff.mp h
          rw [readsOf_skip (Bool.not_eq_true _ ▸ hready)]
          exact serveClients_opened hnodup hr' sd

/-- A pass has one event for each of its reads, when those of data hand over a string. -/
theorem serveClients_length :
    ∀ {sds opened : List Nat} {incoming : List Incoming}
      {r : List Nat × List Nat × List ServerEvent},
      serveClients ready sds opened incoming = some r →
        (∀ p ∈ readsOf ready sds incoming, p.2 = .eof ∨ stringOf p ≠ none) →
          r.2.2.length = (readsOf ready sds incoming).length
  | [], opened, incoming, r, h, _ => by
      obtain rfl := Option.some.inj h
      rfl
  | sd :: sds, opened, incoming, r, h, hhanded => by
      unfold serveClients at h
      split at h
      · next hready =>
          cases incoming with
          | nil => cases h
          | cons i incoming =>
              rw [readsOf_cons hready] at hhanded ⊢
              obtain ⟨hfirst, hrest⟩ := List.forall_mem_cons.mp hhanded
              cases i with
              | eof =>
                  obtain ⟨r', hr', rfl⟩ := Option.map_eq_some_iff.mp h
                  rw [List.length_cons, List.length_cons, serveClients_length hr' hrest]
              | read result luck =>
                  cases hd : takeOver luck result.buffer with
                  | none => simp [hd] at h
                  | some data =>
                      simp only [hd] at h
                      obtain ⟨r', hr', rfl⟩ := Option.map_eq_some_iff.mp h
                      have hone : data.toList.length = 1 := by
                        rcases hfirst with heof | hstring
                        · cases heof
                        · rw [stringOf, hd] at hstring
                          cases data with
                          | none => exact absurd rfl hstring
                          | some string => rfl
                      rw [List.length_append, List.length_map, hone, serveClients_length hr' hrest,
                        Nat.add_comm, List.length_cons]
      · next hready =>
          obtain ⟨r', hr', rfl⟩ := Option.map_eq_some_iff.mp h
          rw [readsOf_skip (Bool.not_eq_true _ ▸ hready)] at hhanded ⊢
          have hrest := serveClients_length hr' hhanded
          exact hrest

end Reads

/-! ## Clients that are not ready -/

section Idle

variable {ready : Nat → Bool} {sds sds' opened : List Nat} {incoming : List Incoming}

theorem serveClients_skip {sd : Nat} (h : ready sd = false) :
    serveClients ready (sd :: sds) opened incoming =
      (serveClients ready sds opened incoming).map fun r => (sd :: r.1, r.2.1, r.2.2) := by
  rw [serveClients.eq_def]
  exact if_neg (by rw [h]; exact Bool.false_ne_true)

/-- Clients that are not ready are passed over. -/
theorem serveClients_idle (h : ∀ sd ∈ sds, ready sd = false) :
    serveClients ready (sds ++ sds') opened incoming =
      (serveClients ready sds' opened incoming).map fun r => (sds ++ r.1, r.2.1, r.2.2) := by
  induction sds with
  | nil => exact Option.map_id'.symm
  | cons sd sds ih =>
      obtain ⟨hsd, hrest⟩ := List.forall_mem_cons.mp h
      rw [List.cons_append, serveClients_skip hsd, ih hrest, Option.map_map]
      rfl

theorem serveClients_all_idle (h : ∀ sd ∈ sds, ready sd = false) :
    serveClients ready sds opened incoming = some (sds, opened, []) := by
  have hidle := @serveClients_idle ready sds [] opened incoming h
  rw [List.append_nil] at hidle
  rw [hidle, serveClients, Option.map_some, List.append_nil]

theorem readsOf_idle (h : ∀ sd ∈ sds, ready sd = false) :
    readsOf ready (sds ++ sds') incoming = readsOf ready sds' incoming := by
  have hnone : sds.filter ready = [] :=
    List.filter_eq_nil_iff.mpr fun sd hsd => by rw [h sd hsd]; exact Bool.false_ne_true
  rw [readsOf, List.filter_append, hnone, List.nil_append]
  rfl

end Idle

/-- Only one descriptor is ready. -/
theorem isSet_singleton {serverSockfd : Nat} {st : Connections} {sd : Nat} {accepted : Option Nat}
    {incoming : List Incoming} (h : sd ∈ watched serverSockfd st) (x : Nat) :
    isSet serverSockfd st ⟨[sd], accepted, incoming⟩ x = decide (x = sd) := by
  rcases eq_or_ne x sd with rfl | hne
  · simp [isSet, h]
  · simp [isSet, hne]

end ProbeStuffing.Controller

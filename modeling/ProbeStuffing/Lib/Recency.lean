import Mathlib.Data.List.Induction
import Mathlib.Data.List.Pairwise
import Mathlib.Data.List.Nodup

/-!
# Lists in the order of last use

Keys are used one after the other, each use with a stamp.  `history` lists every key
that was ever used, once, with its last stamp, in the order of last use.  A bounded
store keeps a part of it.

`Kept` says that the part is the end of the history, and that each entry before it was
dropped for a reason: its stamp is stale, or `limit` other keys have been used since.
Both reasons last, since a use of another key only adds to the entries behind
(`Kept.touch`).
-/

namespace Recency

variable {κ τ : Type}

section Touch

variable [DecidableEq κ]

/-- The entry of a key becomes the last one, with a new stamp. -/
def touch (l : List (κ × τ)) (k : κ) (t : τ) : List (κ × τ) :=
  l.filter (fun e => e.1 ≠ k) ++ [(k, t)]

/-- The keys in the order of their last use, each with the stamp of it. -/
def history (uses : List (κ × τ)) : List (κ × τ) := uses.foldl (fun l p => touch l p.1 p.2) []

theorem history_concat (uses : List (κ × τ)) (k : κ) (t : τ) :
    history (uses ++ [(k, t)]) = touch (history uses) k t := by
  rw [history, List.foldl_append]
  rfl

variable {l : List (κ × τ)} {k : κ} {t : τ}

theorem touch_eq_self_of_notMem (h : k ∉ l.map Prod.fst) : touch l k t = l ++ [(k, t)] := by
  have hall : ∀ e ∈ l, decide (e.1 ≠ k) = true := fun e he =>
    decide_eq_true fun heq => h (List.mem_map.mpr ⟨e, he, heq⟩)
  rw [touch, List.filter_eq_self.mpr hall]

/-- Each key has one entry. -/
theorem nodup_touch (h : (l.map Prod.fst).Nodup) (k : κ) (t : τ) :
    ((touch l k t).map Prod.fst).Nodup := by
  have hsub : ((l.filter fun e => e.1 ≠ k).map Prod.fst).Sublist (l.map Prod.fst) :=
    List.filter_sublist.map _
  rw [touch, List.map_append, List.map_singleton]
  refine List.nodup_append.mpr ⟨h.sublist hsub, List.nodup_singleton k, fun x hx y hy heq => ?_⟩
  obtain rfl := List.mem_singleton.mp hy
  obtain ⟨e, he, rfl⟩ := List.mem_map.mp hx
  exact of_decide_eq_true (List.mem_filter.mp he).2 heq

theorem nodup_history (uses : List (κ × τ)) : ((history uses).map Prod.fst).Nodup := by
  have hfold : ∀ (uses l : List (κ × τ)), (l.map Prod.fst).Nodup →
      ((uses.foldl (fun l p => touch l p.1 p.2) l).map Prod.fst).Nodup := by
    intro uses
    induction uses with
    | nil => exact fun l h => h
    | cons p uses ih => exact fun l h => ih _ (nodup_touch h p.1 p.2)
  exact hfold uses [] List.nodup_nil

/-- Its keys are those that were used. -/
theorem mem_keys_history (uses : List (κ × τ)) (k : κ) :
    k ∈ (history uses).map Prod.fst ↔ k ∈ uses.map Prod.fst := by
  induction uses using List.reverseRecOn with
  | nil => rfl
  | append_singleton uses p ih =>
      rw [history_concat, touch, List.map_append, List.map_append, List.mem_append,
        List.mem_append, ← ih]
      rcases eq_or_ne k p.1 with rfl | hne
      · exact iff_of_true (.inr List.mem_cons_self) (.inr List.mem_cons_self)
      · refine or_congr_left ?_
        constructor
        · intro h
          obtain ⟨e, he, rfl⟩ := List.mem_map.mp h
          exact List.mem_map_of_mem (List.mem_of_mem_filter he)
        · intro h
          obtain ⟨e, he, rfl⟩ := List.mem_map.mp h
          exact List.mem_map_of_mem (List.mem_filter.mpr ⟨he, decide_eq_true hne⟩)

/-- Stamps that do not fall stay in order. -/
theorem pairwise_touch {r : τ → τ → Prop} (h : l.Pairwise fun a b => r a.2 b.2)
    (ht : ∀ e ∈ l, r e.2 t) : (touch l k t).Pairwise fun a b => r a.2 b.2 := by
  rw [touch, List.pairwise_append]
  refine ⟨h.sublist List.filter_sublist, List.pairwise_singleton _ _, fun a ha b hb => ?_⟩
  obtain rfl := List.mem_singleton.mp hb
  exact ht a (List.mem_of_mem_filter ha)

/-- Among different keys at most one is left out. -/
theorem length_le_filter_ne (k : κ) : ∀ {l : List (κ × τ)}, (l.map Prod.fst).Nodup →
    l.length ≤ (l.filter fun e => e.1 ≠ k).length + 1
  | [], _ => Nat.zero_le 1
  | e :: l, h => by
      obtain ⟨hnot, hrest⟩ := List.nodup_cons.mp h
      rcases eq_or_ne e.1 k with rfl | hne
      · have hall : ∀ e' ∈ l, decide (e'.1 ≠ e.1) = true := fun e' he' =>
          decide_eq_true fun heq => hnot (List.mem_map.mpr ⟨e', he', heq⟩)
        rw [List.filter_cons_of_neg (by simp), List.filter_eq_self.mpr hall]
        exact Nat.le_refl _
      · rw [List.filter_cons_of_pos (by simpa using hne)]
        exact Nat.succ_le_succ (length_le_filter_ne k hrest)

end Touch

/-! ## What a bounded store keeps -/

/-- The store has the end of the history.  An entry that was dropped is stale, or
`limit` keys have been used since. -/
def Kept (limit : Nat) (Stale : τ → Prop) (all kept : List (κ × τ)) : Prop :=
  ∃ dropped, all = dropped ++ kept ∧ ∀ older d newer, dropped = older ++ d :: newer →
    Stale d.2 ∨ limit ≤ (newer ++ kept).length

variable {limit : Nat} {Stale Stale' : τ → Prop} {all kept : List (κ × τ)}

theorem Kept.nil : Kept limit Stale ([] : List (κ × τ)) [] :=
  ⟨[], rfl, fun older d newer h => by simp at h⟩

theorem Kept.suffix (h : Kept limit Stale all kept) : kept <:+ all := by
  obtain ⟨dropped, rfl, -⟩ := h
  exact List.suffix_append dropped kept

theorem Kept.mono (h : Kept limit Stale all kept) (hstale : ∀ t, Stale t → Stale' t) :
    Kept limit Stale' all kept := by
  obtain ⟨dropped, hall, hreason⟩ := h
  exact ⟨dropped, hall, fun older d newer hd => (hreason older d newer hd).imp_left (hstale d.2)⟩

/-- The oldest entry is dropped for one of the reasons. -/
theorem Kept.dropFirst {e : κ × τ} (h : Kept limit Stale all (e :: kept))
    (hreason : Stale e.2 ∨ limit ≤ kept.length) : Kept limit Stale all kept := by
  obtain ⟨dropped, rfl, hdropped⟩ := h
  refine ⟨dropped ++ [e], by rw [List.append_assoc]; rfl, fun older d newer hd => ?_⟩
  rcases List.eq_nil_or_concat newer with rfl | ⟨newer', e', rfl⟩
  · obtain ⟨-, hlast⟩ := List.append_inj' hd rfl
    obtain rfl := List.singleton_inj.mp hlast
    exact hreason
  · rw [List.concat_eq_append, ← List.cons_append, ← List.append_assoc] at hd
    obtain ⟨hfront, hlast⟩ := List.append_inj' hd rfl
    obtain rfl := List.singleton_inj.mp hlast
    rw [List.concat_eq_append, List.append_assoc]
    exact hdropped older d newer' hfront

/-- Stale entries are dropped. -/
theorem Kept.dropStale : ∀ {gone : List (κ × τ)}, Kept limit Stale all (gone ++ kept) →
    (∀ e ∈ gone, Stale e.2) → Kept limit Stale all kept
  | [], h, _ => h
  | e :: _, h, hstale => by
      obtain ⟨hfirst, hrest⟩ := List.forall_mem_cons.mp hstale
      exact (h.dropFirst (.inl hfirst)).dropStale hrest

/-- A key that was used is kept, or there is a reason that it is not. -/
theorem Kept.kept_or (h : Kept limit Stale all kept) {older newer : List (κ × τ)} {e : κ × τ}
    (hall : all = older ++ e :: newer) :
    e ∈ kept ∨ Stale e.2 ∨ limit ≤ newer.length := by
  obtain ⟨dropped, rfl, hreason⟩ := h
  rcases List.append_eq_append_iff.mp hall with ⟨as, rfl, hkept⟩ | ⟨cs, rfl, hcs⟩
  · left
    rw [hkept]
    exact List.mem_append_right as List.mem_cons_self
  · cases cs with
    | nil =>
        left
        rw [← show e :: newer = kept from hcs]
        exact List.mem_cons_self
    | cons c cs =>
        obtain ⟨rfl, rfl⟩ := List.cons.inj hcs
        exact .inr (hreason older e cs rfl)

/-- A use of a key, kept or not. -/
theorem Kept.touch [DecidableEq κ] (hnodup : (all.map Prod.fst).Nodup)
    (h : Kept limit Stale all kept) (k : κ) (t : τ) :
    Kept limit Stale (touch all k t) (touch kept k t) := by
  obtain ⟨dropped, rfl, hreason⟩ := h
  refine ⟨dropped.filter fun e => e.1 ≠ k, ?_, fun older d newer hd => ?_⟩
  · rw [Recency.touch, List.filter_append, List.append_assoc]
    rfl
  · obtain ⟨older', rest, rfl, -, hrest⟩ := List.filter_eq_append_iff.mp hd
    obtain ⟨skipped, newer', rfl, -, -, rfl⟩ := List.filter_eq_cons_iff.mp hrest
    rcases hreason (older' ++ skipped) d newer' (List.append_assoc ..).symm with hstale | hmany
    · exact .inl hstale
    · right
      have hsuffix : newer' ++ kept <:+ older' ++ (skipped ++ d :: newer') ++ kept := by
        refine ⟨older' ++ (skipped ++ [d]), ?_⟩
        simp only [List.append_assoc, List.cons_append, List.nil_append]
      have hlen := length_le_filter_ne k (hnodup.sublist (hsuffix.sublist.map Prod.fst))
      rw [List.filter_append] at hlen
      rw [Recency.touch, ← List.append_assoc, List.length_append]
      exact Nat.le_trans hmany hlen

end Recency

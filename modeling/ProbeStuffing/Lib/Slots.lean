import Mathlib.Data.List.Basic
import Mathlib.Data.List.Count
import Mathlib.Data.List.Nodup

/-!
# Tables of slots

A table of fixed length, in which one value marks a free slot.  A value is placed
in the first free slot, and is dropped when there is none.  Slots are cleared one
by one.

`Holds` compares the table with the values that are held.  Those that are not in
the table are listed as lost.  Placing a value loses it exactly when the table is
full (`Holds.place`, `Holds.lose`), and clearing slots loses nothing and brings
nothing back (`Holds.clear`).  So no value is ever lost exactly when none was
placed in a full table, and then each is in one slot (`Holds.count_iff`).
-/

namespace Slots

variable {α : Type} [DecidableEq α] {free : α}

/-- The values in the table, in its order. -/
def occupied (free : α) (t : List α) : List α := t.filter (· ≠ free)

/-- The table with a value in the first free slot. -/
def place (free x : α) : List α → List α
  | [] => []
  | s :: t => if s = free then x :: t else s :: place free x t

/-- Some slots have been cleared, in the order of the table. -/
inductive Cleared (free : α) : List α → List α → List α → Prop where
  | nil : Cleared free [] [] []
  | keep (s : α) {t closed t' : List α} :
      Cleared free t closed t' → Cleared free (s :: t) closed (s :: t')
  | clear {s : α} {t closed t' : List α} :
      s ≠ free → Cleared free t closed t' → Cleared free (s :: t) (s :: closed) (free :: t')

/-! ## Values in the table -/

theorem occupied_cons_free (t : List α) : occupied free (free :: t) = occupied free t :=
  List.filter_cons_of_neg (by simp)

theorem occupied_cons {s : α} (h : s ≠ free) (t : List α) :
    occupied free (s :: t) = s :: occupied free t :=
  List.filter_cons_of_pos (by simpa using h)

theorem occupied_replicate (n : Nat) : occupied free (List.replicate n free) = [] := by
  rw [occupied, List.filter_replicate_of_neg]
  simp

theorem mem_occupied {t : List α} {x : α} : x ∈ occupied free t ↔ x ∈ t ∧ x ≠ free := by
  simp [occupied]

theorem count_occupied {t : List α} {x : α} (h : x ≠ free) :
    (occupied free t).count x = t.count x :=
  List.count_filter (by simpa using h)

/-- In a full table nothing is placed. -/
theorem place_eq_self {t : List α} (h : free ∉ t) (x : α) : place free x t = t := by
  induction t with
  | nil => rfl
  | cons s t ih =>
      obtain ⟨hs, ht⟩ := not_or.mp (mt List.mem_cons.mpr h)
      rw [place, if_neg (Ne.symm hs), ih ht]

theorem place_length (free x : α) (t : List α) : (place free x t).length = t.length := by
  induction t with
  | nil => rfl
  | cons s t ih =>
      rw [place]
      split
      · rfl
      · rw [List.length_cons, List.length_cons, ih]

theorem mem_place {free x y : α} {t : List α} (h : y ∈ place free x t) : y = x ∨ y ∈ t := by
  induction t with
  | nil => cases h
  | cons s t ih =>
      rw [place] at h
      split at h
      · exact (List.mem_cons.mp h).imp_right (List.mem_cons_of_mem s)
      · rcases List.mem_cons.mp h with rfl | h
        · exact .inr List.mem_cons_self
        · exact (ih h).imp_right (List.mem_cons_of_mem s)

theorem occupied_place {t : List α} {x : α} (hx : x ≠ free) (h : free ∈ t) :
    (occupied free (place free x t)).Perm (x :: occupied free t) := by
  induction t with
  | nil => cases h
  | cons s t ih =>
      rw [place]
      split
      · next hs =>
          subst hs
          rw [occupied_cons hx, occupied_cons_free]
      · next hs =>
          have ht : free ∈ t := (List.mem_cons.mp h).resolve_left (Ne.symm hs)
          rw [occupied_cons hs, occupied_cons hs]
          exact ((ih ht).cons s).trans (List.Perm.swap x s _)

theorem Cleared.length_eq {β : Type} {free : β} {t closed t' : List β}
    (h : Cleared free t closed t') : t'.length = t.length := by
  induction h with
  | nil => rfl
  | keep _ _ ih => rw [List.length_cons, List.length_cons, ih]
  | clear _ _ ih => rw [List.length_cons, List.length_cons, ih]

/-- What was cleared and what is left is what was there. -/
theorem Cleared.perm {t closed t' : List α} (h : Cleared free t closed t') :
    (occupied free t).Perm (closed ++ occupied free t') := by
  induction h with
  | nil => exact List.Perm.refl _
  | @keep s t closed t' _ ih =>
      rcases eq_or_ne s free with rfl | hs
      · rwa [occupied_cons_free, occupied_cons_free]
      · rw [occupied_cons hs, occupied_cons hs]
        exact (ih.cons s).trans List.perm_middle.symm
  | @clear s t closed t' hs _ ih =>
      rw [occupied_cons hs, occupied_cons_free]
      exact ih.cons s

theorem append_diff_self : ∀ xs ys : List α, (xs ++ ys).diff xs = ys
  | [], ys => List.diff_nil ys
  | x :: xs, ys => by
      rw [List.cons_append, List.diff_cons, List.erase_cons_head, append_diff_self xs ys]

/-! ## What is held and what is lost -/

/-- The values held are those in the table and the lost ones. -/
structure Holds (free : α) (t held lost : List α) : Prop where
  perm : held.Perm (occupied free t ++ lost)
  nodup : held.Nodup
  free_notMem : free ∉ held

theorem holds_replicate (n : Nat) : Holds free (List.replicate n free) [] [] where
  perm := by rw [occupied_replicate]; rfl
  nodup := List.nodup_nil
  free_notMem := List.not_mem_nil

section Holds

variable {t held lost : List α} {x : α}

/-- There is a slot for the value. -/
theorem Holds.place (h : Holds free t held lost) (hx : x ∉ held) (hfree : x ≠ free)
    (hslot : free ∈ t) : Holds free (place free x t) (x :: held) lost where
  perm := (h.perm.cons x).trans ((occupied_place hfree hslot).append_right lost).symm
  nodup := List.nodup_cons.mpr ⟨hx, h.nodup⟩
  free_notMem := List.not_mem_cons_of_ne_of_not_mem (Ne.symm hfree) h.free_notMem

/-- The table is full. -/
theorem Holds.lose (h : Holds free t held lost) (hx : x ∉ held) (hfree : x ≠ free)
    (hfull : free ∉ t) : Holds free (Slots.place free x t) (x :: held) (x :: lost) where
  perm := by
    rw [place_eq_self hfull]
    exact (h.perm.cons x).trans List.perm_middle.symm
  nodup := List.nodup_cons.mpr ⟨hx, h.nodup⟩
  free_notMem := List.not_mem_cons_of_ne_of_not_mem (Ne.symm hfree) h.free_notMem

/-- Slots are cleared, and their values are given up. -/
theorem Holds.clear (h : Holds free t held lost) {closed t' : List α}
    (hc : Cleared free t closed t') : Holds free t' (held.diff closed) lost where
  perm := by
    have hall : held.Perm (closed ++ (occupied free t' ++ lost)) := by
      rw [← List.append_assoc]
      exact h.perm.trans (hc.perm.append_right lost)
    have hdiff := hall.diff_right closed
    rwa [append_diff_self] at hdiff
  nodup := h.nodup.diff
  free_notMem := fun hm => h.free_notMem ((List.diff_sublist held closed).subset hm)

theorem Holds.nodup_occupied (h : Holds free t held lost) : (occupied free t).Nodup :=
  (List.nodup_append.mp (h.perm.nodup_iff.mp h.nodup)).1

theorem Holds.mem_held (h : Holds free t held lost) (hx : x ∈ t) (hfree : x ≠ free) : x ∈ held :=
  h.perm.symm.subset (List.mem_append_left lost (mem_occupied.mpr ⟨hx, hfree⟩))

/-- Each value held is in one slot exactly when none is lost. -/
theorem Holds.count_iff (h : Holds free t held lost) :
    (∀ x ∈ held, t.count x = 1) ↔ lost = [] := by
  have hcount : ∀ x ∈ held, t.count x + lost.count x = 1 := by
    intro x hx
    have hfree : x ≠ free := fun he => h.free_notMem (he ▸ hx)
    have hone := List.count_eq_one_of_mem h.nodup hx
    rw [h.perm.count_eq, List.count_append, count_occupied hfree] at hone
    exact hone
  constructor
  · intro hall
    refine List.eq_nil_iff_forall_not_mem.mpr fun y hy => ?_
    have hheld : y ∈ held := h.perm.symm.subset (List.mem_append_right _ hy)
    have hpos := List.count_pos_iff.mpr hy
    have := hcount y hheld
    have := hall y hheld
    omega
  · rintro rfl x hx
    simpa using hcount x hx

end Holds

end Slots

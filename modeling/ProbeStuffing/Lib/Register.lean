import Mathlib.Data.List.Basic
import Mathlib.Data.List.Perm.Basic

/-!
# A register with many writers

A register holds the value that was written last.  `written old ws` is what it
holds after the writes `ws`, and that is `old` only if there are none.

When writers deliver their writes one after the other, each all of its own, the
order of the writers decides which value stays.  A reader who looks for one
value `k` is independent of the order, and finds what any writer wrote, exactly
if no writer writes `k` or every writer that writes at all ends with `k`
(`order_independent_iff`).
-/

namespace Register

universe u v w

variable {α : Type u} {ι : Type v}

/-! ## Writes -/

/-- The content of a register after some writes. -/
def written (old : α) (ws : List α) : α := ws.foldl (fun _ w => w) old

@[simp] theorem written_nil (old : α) : written old [] = old := rfl

theorem written_append (old : α) (ws vs : List α) :
    written old (ws ++ vs) = written (written old ws) vs := List.foldl_append

theorem written_concat (old : α) (ws : List α) (w : α) : written old (ws ++ [w]) = w := by
  rw [written_append]
  rfl

theorem written_of_getLast? {old w : α} {ws : List α} (h : ws.getLast? = some w) :
    written old ws = w := by
  obtain ⟨front, rfl⟩ := List.getLast?_eq_some_iff.mp h
  exact written_concat old front w

/-- The content is one of the writes, if there are any. -/
theorem written_mem {old : α} {ws : List α} (h : ws ≠ []) : written old ws ∈ ws := by
  have hlast := List.getLast?_eq_some_getLast h
  rw [written_of_getLast? hlast]
  exact List.getLast_mem h

theorem written_eq_iff_of_notMem {old k : α} {ws : List α} (h : k ∉ ws) :
    written old ws = k ↔ ws = [] ∧ old = k := by
  constructor
  · intro hk
    rcases Decidable.em (ws = []) with rfl | hne
    · exact ⟨rfl, hk⟩
    · exact absurd (hk ▸ written_mem hne) h
  · rintro ⟨rfl, hk⟩
    exact hk

/-- A register inside a state, when each step writes to it or leaves it alone. -/
theorem written_foldl {σ : Type w} {f : σ → ι → σ} {get : σ → α} {writes : ι → List α}
    (h : ∀ s x, get (f s x) = written (get s) (writes x)) (s : σ) (xs : List ι) :
    get (xs.foldl f s) = written (get s) (xs.flatMap writes) := by
  induction xs generalizing s with
  | nil => rfl
  | cons x xs ih => rw [List.foldl_cons, ih, h, List.flatMap_cons, written_append]

/-! ## Writers -/

variable {writes : ι → List α} {old k : α} {xs ys : List ι}

/-- The writers leave `k` if each of them does, and one of them writes. -/
theorem written_flatMap_of_last (h : ∀ x ∈ xs, ∀ w, (writes x).getLast? = some w → w = k)
    (hne : xs.flatMap writes ≠ []) : written old (xs.flatMap writes) = k := by
  induction xs generalizing old with
  | nil => exact absurd rfl hne
  | cons x xs ih =>
      obtain ⟨hx, hxs⟩ := List.forall_mem_cons.mp h
      rw [List.flatMap_cons, written_append]
      cases hrest : xs.flatMap writes with
      | nil =>
          rw [List.flatMap_cons, hrest, List.append_nil] at hne
          have hlast := List.getLast?_eq_some_getLast hne
          rw [written_of_getLast? hlast]
          exact hx _ hlast
      | cons _ _ =>
          rw [← hrest]
          exact ih hxs (by simp [hrest])

/-- Every writer can come last. -/
theorem exists_perm_concat {x : ι} (h : x ∈ xs) : ∃ front : List ι, (front ++ [x]).Perm xs := by
  obtain ⟨front, back, rfl⟩ := List.append_of_mem h
  exact ⟨front ++ back, (List.perm_append_singleton x _).trans List.perm_middle.symm⟩

theorem flatMap_eq_nil_of_perm (h : ys.Perm xs) (hnil : xs.flatMap writes = []) :
    ys.flatMap writes = [] := by
  rw [List.flatMap_eq_nil_iff] at hnil ⊢
  exact fun x hx => hnil x (h.mem_iff.mp hx)

/-- Every order of the writers gives the same answer to the question for `k`, and
the answer is yes if one of them writes `k`, in exactly two cases. -/
theorem order_independent_iff :
    ((∀ ys : List ι, ys.Perm xs →
          (written old (ys.flatMap writes) = k ↔ written old (xs.flatMap writes) = k)) ∧
        ((∃ x ∈ xs, k ∈ writes x) → written old (xs.flatMap writes) = k)) ↔
      (∀ x ∈ xs, k ∉ writes x) ∨ ∀ x ∈ xs, ∀ w, (writes x).getLast? = some w → w = k := by
  constructor
  · rintro ⟨hsame, hfound⟩
    rcases Classical.em (∃ x ∈ xs, k ∈ writes x) with hk | hk
    · right
      intro x hx w hw
      obtain ⟨front, hperm⟩ := exists_perm_concat hx
      have hlast : written old ((front ++ [x]).flatMap writes) = w := by
        rw [List.flatMap_append, List.flatMap_singleton, written_append, written_of_getLast? hw]
      exact hlast.symm.trans ((hsame _ hperm).mpr (hfound hk))
    · left
      exact fun x hx hmem => hk ⟨x, hx, hmem⟩
  · rintro (hnone | hlast)
    · have hnot : ∀ ys : List ι, ys.Perm xs → k ∉ ys.flatMap writes := by
        intro ys hperm hmem
        obtain ⟨x, hx, hk⟩ := List.mem_flatMap.mp hmem
        exact hnone x (hperm.mem_iff.mp hx) hk
      refine ⟨fun ys hperm => ?_, fun ⟨x, hx, hk⟩ => absurd hk (hnone x hx)⟩
      rw [written_eq_iff_of_notMem (hnot ys hperm), written_eq_iff_of_notMem (hnot xs (.refl xs))]
      have hnil : ys.flatMap writes = [] ↔ xs.flatMap writes = [] :=
        ⟨flatMap_eq_nil_of_perm hperm.symm, flatMap_eq_nil_of_perm hperm⟩
      rw [hnil]
    · have hwritten : ∀ ys : List ι, ys.Perm xs → ys.flatMap writes ≠ [] →
          written old (ys.flatMap writes) = k := fun ys hperm =>
        written_flatMap_of_last fun x hx => hlast x (hperm.mem_iff.mp hx)
      refine ⟨fun ys hperm => ?_, fun ⟨x, hx, hk⟩ => ?_⟩
      · rcases Decidable.em (xs.flatMap writes = []) with hnil | hne
        · rw [hnil, flatMap_eq_nil_of_perm hperm hnil]
        · have hne' : ys.flatMap writes ≠ [] := fun h =>
            hne (flatMap_eq_nil_of_perm hperm.symm h)
          exact iff_of_true (hwritten ys hperm hne') (hwritten xs (.refl xs) hne)
      · have hmem : k ∈ xs.flatMap writes := List.mem_flatMap.mpr ⟨x, hx, hk⟩
        exact hwritten xs (.refl xs) (List.ne_nil_of_mem hmem)

end Register

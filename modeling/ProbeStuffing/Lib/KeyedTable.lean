import Mathlib.Data.List.Dedup
import Mathlib.Data.List.Nodup

/-!
# Tables with a primary key

Inserting a row fails and leaves the table as it is when a row with the same key
is there, and adds the row otherwise.  The order in which the rows of a table
are listed is left open.

A table that has been filled by insertions holds one row for each key among
them, and that row is one of those inserted (`Filled.nodup`, `Filled.keys`,
`Filled.subset`).  Which one depends on the order, but a view of the rows that
is determined by the key, and determines it, does not see that
(`Filled.perm_dedup`).
-/

namespace KeyedTable

variable {ρ κ : Type} {key : ρ → κ}

/-- The table after an attempt to insert `r`. -/
structure Inserted (key : ρ → κ) (before : List ρ) (r : ρ) (after : List ρ) : Prop where
  conflict : key r ∈ before.map key → after = before
  fresh : key r ∉ before.map key → after.Perm (r :: before)

/-- Whether it was there before or not, the key is there afterwards. -/
theorem Inserted.key_mem {before after : List ρ} {r : ρ} (h : Inserted key before r after) :
    key r ∈ after.map key := by
  rcases Classical.em (key r ∈ before.map key) with hold | hnew
  · rwa [h.conflict hold]
  · exact ((h.fresh hnew).map key).symm.subset List.mem_cons_self

/-- Inserting behind the last row. -/
def insertRow [DecidableEq κ] (key : ρ → κ) (table : List ρ) (r : ρ) : List ρ :=
  if key r ∈ table.map key then table else table ++ [r]

theorem inserted_insertRow [DecidableEq κ] (table : List ρ) (r : ρ) :
    Inserted key table r (insertRow key table r) where
  conflict h := if_pos h
  fresh h := by
    rw [insertRow, if_neg h]
    exact List.perm_append_singleton r table

/-- The table `t` was empty, and then the rows `rs` were inserted in this order. -/
inductive Filled (key : ρ → κ) : List ρ → List ρ → Prop where
  | nil : Filled key [] []
  | snoc {rs t t' : List ρ} {r : ρ} :
      Filled key rs t → Inserted key t r t' → Filled key (rs ++ [r]) t'

section Filled

variable {rs t : List ρ}

theorem Filled.subset (h : Filled key rs t) : ∀ r ∈ t, r ∈ rs := by
  induction h with
  | nil => intro r hr; exact hr
  | @snoc rs t t' s _ hins ih =>
      intro r hr
      rw [List.mem_append, List.mem_singleton]
      rcases Classical.em (key s ∈ t.map key) with hk | hk
      · rw [hins.conflict hk] at hr
        exact .inl (ih r hr)
      · rcases List.mem_cons.mp ((hins.fresh hk).subset hr) with rfl | hr
        · exact .inr rfl
        · exact .inl (ih r hr)

theorem Filled.keys (h : Filled key rs t) : ∀ r ∈ rs, key r ∈ t.map key := by
  induction h with
  | nil => intro r hr; cases hr
  | @snoc rs t t' s _ hins ih =>
      intro r hr
      rw [List.mem_append, List.mem_singleton] at hr
      rcases hr with hr | rfl
      · rcases Classical.em (key s ∈ t.map key) with hk | hk
        · rw [hins.conflict hk]
          exact ih r hr
        · exact ((hins.fresh hk).map key).symm.subset (List.mem_cons_of_mem _ (ih r hr))
      · exact hins.key_mem

theorem Filled.nodup (h : Filled key rs t) : (t.map key).Nodup := by
  induction h with
  | nil => exact List.nodup_nil
  | @snoc rs t t' s _ hins ih =>
      rcases Classical.em (key s ∈ t.map key) with hk | hk
      · rwa [hins.conflict hk]
      · exact ((hins.fresh hk).map key).nodup_iff.mpr (List.nodup_cons.mpr ⟨hk, ih⟩)

/-- A row is in the table exactly if it was the first one inserted with its key. -/
theorem Filled.mem_iff (h : Filled key rs t) (r : ρ) :
    r ∈ t ↔ ∃ pre post, rs = pre ++ r :: post ∧ ∀ r' ∈ pre, key r' ≠ key r := by
  induction h with
  | nil => simp
  | @snoc rs t t' s hrs hins ih =>
      have hkey : key s ∈ t.map key ↔ ∃ r' ∈ rs, key r' = key s := by
        constructor
        · intro hs
          obtain ⟨r', hr', heq⟩ := List.mem_map.mp hs
          exact ⟨r', hrs.subset r' hr', heq⟩
        · rintro ⟨r', hr', heq⟩
          exact heq ▸ hrs.keys r' hr'
      have hmem : r ∈ t' ↔ r ∈ t ∨ (r = s ∧ key s ∉ t.map key) := by
        rcases Classical.em (key s ∈ t.map key) with hold | hnew
        · rw [hins.conflict hold]
          exact (or_iff_left fun h => h.2 hold).symm
        · rw [(hins.fresh hnew).mem_iff, List.mem_cons, or_comm, and_iff_left hnew]
      rw [hmem, ih, hkey]
      constructor
      · rintro (⟨pre, post, rfl, hpre⟩ | ⟨rfl, hnew⟩)
        · exact ⟨pre, post ++ [s], by simp, hpre⟩
        · exact ⟨rs, [], rfl, fun r' hr' heq => hnew ⟨r', hr', heq⟩⟩
      · rintro ⟨pre, post, hsplit, hpre⟩
        rcases List.eq_nil_or_concat post with rfl | ⟨post', s', rfl⟩
        · obtain ⟨rfl, hlast⟩ := List.append_inj' hsplit rfl
          obtain rfl := List.singleton_inj.mp hlast
          exact .inr ⟨rfl, fun ⟨r', hr', heq⟩ => hpre r' hr' heq⟩
        · rw [List.concat_eq_append, ← List.cons_append, ← List.append_assoc] at hsplit
          obtain ⟨rfl, -⟩ := List.append_inj' hsplit rfl
          exact .inl ⟨pre, post', rfl, hpre⟩

/-- Seen through a view that is as fine as the key, the table has each inserted
row once, whatever the order. -/
theorem Filled.perm_dedup {β : Type} [DecidableEq β] {view : ρ → β} (h : Filled key rs t)
    (hview : ∀ r ∈ rs, ∀ s ∈ rs, key r = key s ↔ view r = view s) :
    (t.map view).Perm (rs.map view).dedup := by
  have hinj : ∀ r ∈ t, ∀ s ∈ t, view r = view s → r = s := by
    intro r hr s hs heq
    have hkey := (hview r (h.subset r hr) s (h.subset s hs)).mpr heq
    exact (List.nodup_map_iff_inj_on h.nodup.of_map).mp h.nodup r hr s hs hkey
  have hnodup : (t.map view).Nodup := (List.nodup_map_iff_inj_on h.nodup.of_map).mpr hinj
  refine (List.perm_ext_iff_of_nodup hnodup (List.nodup_dedup _)).mpr fun v => ?_
  rw [List.mem_dedup]
  constructor
  · intro hv
    obtain ⟨r, hr, rfl⟩ := List.mem_map.mp hv
    exact List.mem_map_of_mem (h.subset r hr)
  · intro hv
    obtain ⟨r, hr, rfl⟩ := List.mem_map.mp hv
    obtain ⟨s, hs, hkey⟩ := List.mem_map.mp (h.keys r hr)
    rw [← (hview s (h.subset s hs) r hr).mp hkey]
    exact List.mem_map_of_mem hs

end Filled

/-- Deduplication commutes with an injective map, up to order. -/
theorem dedup_map_perm {α β : Type} [DecidableEq α] [DecidableEq β] {f : α → β} {xs : List α}
    (hinj : ∀ x ∈ xs, ∀ y ∈ xs, f x = f y → x = y) :
    (xs.map f).dedup.Perm (xs.dedup.map f) := by
  have hnodup : (xs.dedup.map f).Nodup :=
    (List.nodup_map_iff_inj_on (List.nodup_dedup xs)).mpr fun x hx y hy =>
      hinj x (List.mem_dedup.mp hx) y (List.mem_dedup.mp hy)
  refine (List.perm_ext_iff_of_nodup (List.nodup_dedup _) hnodup).mpr fun v => ?_
  simp only [List.mem_dedup, List.mem_map]

end KeyedTable

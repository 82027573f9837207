import Mathlib.Data.List.Basic

/-!
# Machines and their traces

A machine reads one input per step, changes its state and emits events.  A step
may be undefined, and then so is every run through it.  A run collects the
events of its steps in order.

`Machine.run_invariant` is the one induction of every proof about runs.  Its
invariant speaks of the state and of the whole trace so far, so it can say
where the state comes from.  `Always Q` says that every event of a trace is
related by `Q` to the events before it; `always_append` splits it along a run.
`Machine.always_run_iff` turns it into a condition that every step has to meet.
-/

namespace Trace

universe u

variable {σ ι ε : Type u}

/-- A machine with inputs `ι` and events `ε`.  `none` is an undefined step. -/
structure Machine (σ ι ε : Type u) where
  step : σ → ι → Option (σ × List ε)

namespace Machine

variable (m : Machine σ ι ε)

/-- The last state and the events of all steps. -/
def run : σ → List ι → Option (σ × List ε)
  | s, [] => some (s, [])
  | s, i :: is =>
      (m.step s i).bind fun r => (run r.1 is).map fun r' => (r'.1, r.2 ++ r'.2)

variable {m}

theorem run_nil_iff {s s' : σ} {tr : List ε} :
    m.run s [] = some (s', tr) ↔ s' = s ∧ tr = [] := by
  simp [run, eq_comm]

theorem run_cons_iff {s s' : σ} {i : ι} {is : List ι} {tr : List ε} :
    m.run s (i :: is) = some (s', tr) ↔
      ∃ s₁ es tr', m.step s i = some (s₁, es) ∧ m.run s₁ is = some (s', tr') ∧ tr = es ++ tr' := by
  simp only [run, Option.bind_eq_some_iff, Option.map_eq_some_iff, Prod.mk.injEq, Prod.exists]
  constructor
  · rintro ⟨s₁, es, h1, s₂, tr', h2, rfl, rfl⟩
    exact ⟨s₁, es, tr', h1, h2, rfl⟩
  · rintro ⟨s₁, es, tr', h1, h2, rfl⟩
    exact ⟨s₁, es, h1, s', tr', h2, rfl, rfl⟩

theorem run_append_iff {s s' : σ} {is js : List ι} {tr : List ε} :
    m.run s (is ++ js) = some (s', tr) ↔
      ∃ s₁ t₁ t₂, m.run s is = some (s₁, t₁) ∧ m.run s₁ js = some (s', t₂) ∧ tr = t₁ ++ t₂ := by
  induction is generalizing s tr with
  | nil =>
      simp only [List.nil_append, run_nil_iff]
      constructor
      · intro h
        exact ⟨s, [], tr, ⟨rfl, rfl⟩, h, rfl⟩
      · rintro ⟨s₁, t₁, t₂, ⟨rfl, rfl⟩, h, rfl⟩
        exact h
  | cons i is ih =>
      simp only [List.cons_append, run_cons_iff, ih]
      constructor
      · rintro ⟨s₁, es, tr', h1, ⟨s₂, t₁, t₂, h2, h3, rfl⟩, rfl⟩
        exact ⟨s₂, es ++ t₁, t₂, ⟨s₁, es, t₁, h1, h2, rfl⟩, h3, (List.append_assoc ..).symm⟩
      · rintro ⟨s₂, t₁, t₂, ⟨s₁, es, t₁', h1, h2, rfl⟩, h3, rfl⟩
        exact ⟨s₁, es, t₁' ++ t₂, h1, ⟨s₂, t₁', t₂, h2, h3, rfl⟩, List.append_assoc ..⟩

theorem run_singleton_iff {s s' : σ} {i : ι} {tr : List ε} :
    m.run s [i] = some (s', tr) ↔ m.step s i = some (s', tr) := by
  simp [run_cons_iff, run_nil_iff]

/-- What every step preserves, with the trace before it, holds at the end of every run. -/
theorem run_invariant_from {P : ι → Prop} {I : List ε → σ → Prop}
    (hstep : ∀ pre s i s' es, I pre s → P i → m.step s i = some (s', es) → I (pre ++ es) s') :
    ∀ {is : List ι} {pre tr : List ε} {s s' : σ}, I pre s → (∀ i ∈ is, P i) →
      m.run s is = some (s', tr) → I (pre ++ tr) s'
  | [], pre, tr, s, s', h, _, hrun => by
      obtain ⟨rfl, rfl⟩ := run_nil_iff.mp hrun
      rwa [List.append_nil]
  | i :: is, pre, tr, s, s', h, hP, hrun => by
      obtain ⟨s₁, es, tr', h1, h2, rfl⟩ := run_cons_iff.mp hrun
      have hi := hstep pre s i s₁ es h (hP i List.mem_cons_self) h1
      rw [← List.append_assoc]
      exact run_invariant_from hstep hi (fun j hj => hP j (List.mem_cons_of_mem i hj)) h2

theorem run_invariant {P : ι → Prop} {I : List ε → σ → Prop}
    (hstep : ∀ pre s i s' es, I pre s → P i → m.step s i = some (s', es) → I (pre ++ es) s')
    {is : List ι} {tr : List ε} {s s' : σ} (h : I [] s) (hP : ∀ i ∈ is, P i)
    (hrun : m.run s is = some (s', tr)) : I tr s' :=
  run_invariant_from hstep h hP hrun

/-- The same for inputs that need no condition. -/
theorem run_history {I : List ε → σ → Prop}
    (hstep : ∀ pre s i s' es, I pre s → m.step s i = some (s', es) → I (pre ++ es) s')
    {is : List ι} {tr : List ε} {s s' : σ} (h : I [] s) (hrun : m.run s is = some (s', tr)) :
    I tr s' :=
  run_invariant (P := fun _ => True) (fun pre s i s' es hs _ hi => hstep pre s i s' es hs hi) h
    (fun _ _ => trivial) hrun

/-- The same for an invariant of the state alone. -/
theorem run_preserves {I : σ → Prop}
    (hstep : ∀ s i s' es, I s → m.step s i = some (s', es) → I s')
    {is : List ι} {tr : List ε} {s s' : σ} (h : I s) (hrun : m.run s is = some (s', tr)) : I s' :=
  run_history (I := fun _ => I) (fun _ s i s' es hs hi => hstep s i s' es hs hi) h hrun

/-- If every step that a part of the state sees is a step of another machine, the part has
a run of that machine, on those inputs in order, as far as `f` and `g` show them. -/
theorem run_project {σ' ι' ε' β : Type u} {m' : Machine σ' ι' ε'} (view : σ → σ')
    (events : List ε → List ε') (f : ι → Option β) (g : ι' → β) (hnil : events [] = [])
    (happend : ∀ xs ys, events (xs ++ ys) = events xs ++ events ys)
    (hstep : ∀ s i s' es, m.step s i = some (s', es) →
      (view s' = view s ∧ events es = [] ∧ f i = none) ∨
        ∃ i', m'.step (view s) i' = some (view s', events es) ∧ f i = some (g i')) :
    ∀ {is : List ι} {s s' : σ} {tr : List ε}, m.run s is = some (s', tr) →
      ∃ is', m'.run (view s) is' = some (view s', events tr) ∧ is'.map g = is.filterMap f
  | [], s, s', tr, h => by
      obtain ⟨rfl, rfl⟩ := run_nil_iff.mp h
      exact ⟨[], run_nil_iff.mpr ⟨rfl, hnil⟩, rfl⟩
  | i :: is, s, s', tr, h => by
      obtain ⟨s₁, es, tr', h1, h2, rfl⟩ := run_cons_iff.mp h
      obtain ⟨is', hrest, hinputs⟩ := run_project view events f g hnil happend hstep h2
      rw [happend]
      rcases hstep s i s₁ es h1 with ⟨hview, hes, hi⟩ | ⟨i', hi', hi⟩
      · rw [hview] at hrest
        rw [hes, List.nil_append, List.filterMap_cons_none hi]
        exact ⟨is', hrest, hinputs⟩
      · refine ⟨i' :: is', run_cons_iff.mpr ⟨_, _, _, hi', hrest, rfl⟩, ?_⟩
        rw [List.map_cons, List.filterMap_cons_some hi, hinputs]

/-- If the events of each step show what its input says, those of a run show what its
inputs say, in order. -/
theorem run_filterMap {β : Type u} {f : ε → Option β} {g : ι → Option β}
    (hstep : ∀ s i s' es, m.step s i = some (s', es) → es.filterMap f = (g i).toList) :
    ∀ {is : List ι} {tr : List ε} {s s' : σ}, m.run s is = some (s', tr) →
      tr.filterMap f = is.filterMap g
  | [], tr, s, s', hrun => by
      obtain ⟨-, rfl⟩ := run_nil_iff.mp hrun
      rfl
  | i :: is, tr, s, s', hrun => by
      obtain ⟨s₁, es, tr', h1, h2, rfl⟩ := run_cons_iff.mp hrun
      rw [List.filterMap_append, hstep s i s₁ es h1, run_filterMap hstep h2]
      cases hg : g i with
      | none => rw [List.filterMap_cons_none hg, Option.toList_none, List.nil_append]
      | some b => rw [List.filterMap_cons_some hg, Option.toList_some, List.singleton_append]

/-- A run is defined when every step is. -/
theorem run_defined {P : ι → Prop} (hstep : ∀ s i, P i → ∃ r, m.step s i = some r) :
    ∀ (is : List ι) (s : σ), (∀ i ∈ is, P i) → ∃ r, m.run s is = some r
  | [], s, _ => ⟨(s, []), rfl⟩
  | i :: is, s, hP => by
      obtain ⟨⟨s₁, es⟩, h1⟩ := hstep s i (hP i List.mem_cons_self)
      obtain ⟨⟨s', tr⟩, h2⟩ := run_defined hstep is s₁ fun j hj => hP j (List.mem_cons_of_mem i hj)
      exact ⟨(s', es ++ tr), run_cons_iff.mpr ⟨s₁, es, tr, h1, h2, rfl⟩⟩

end Machine

/-! ## Events and what comes before them -/

/-- Every event of the trace is related by `Q` to the events before it. -/
def Always (Q : List ε → ε → Prop) (tr : List ε) : Prop :=
  ∀ pre e post, tr = pre ++ e :: post → Q pre e

variable {Q : List ε → ε → Prop}

@[simp] theorem always_nil : Always Q [] := by
  intro pre e post h
  simp at h

theorem always_append {xs ys : List ε} :
    Always Q (xs ++ ys) ↔ Always Q xs ∧ Always (fun pre => Q (xs ++ pre)) ys := by
  constructor
  · intro h
    refine ⟨fun pre e post hx => ?_, fun pre e post hy => ?_⟩
    · exact h pre e (post ++ ys) (by simp [hx])
    · exact h (xs ++ pre) e post (by simp [hy])
  · rintro ⟨hx, hy⟩ pre e post h
    rcases List.append_eq_append_iff.mp h with ⟨as, rfl, hys⟩ | ⟨cs, hxs, hcs⟩
    · exact hy as e post hys
    · cases cs with
      | nil =>
          rw [List.append_nil] at hxs
          subst hxs
          simpa using hy [] e post (by simpa using hcs.symm)
      | cons c cs =>
          obtain ⟨rfl, rfl⟩ := List.cons.inj hcs
          exact hx pre e cs hxs

@[simp] theorem always_singleton {e : ε} : Always Q [e] ↔ Q [] e := by
  constructor
  · intro h
    exact h [] e [] rfl
  · intro h pre e' post he
    cases pre with
    | nil =>
        obtain ⟨rfl, -⟩ := List.cons.inj he
        exact h
    | cons _ _ => simp at he

@[simp] theorem always_cons {e : ε} {es : List ε} :
    Always Q (e :: es) ↔ Q [] e ∧ Always (fun pre => Q (e :: pre)) es := by
  rw [← List.singleton_append, always_append, always_singleton]
  rfl

/-! ## Conditions on steps -/

/-- Every step of a run meets a condition on its state and its input. -/
def Machine.Along (m : Machine σ ι ε) (C : σ → ι → Prop) : σ → List ι → Prop
  | _, [] => True
  | s, i :: is => C s i ∧ ∀ r, m.step s i = some r → Along m C r.1 is

instance Machine.decidableAlong {m : Machine σ ι ε} {C : σ → ι → Prop}
    [∀ s i, Decidable (C s i)] : ∀ (s : σ) (is : List ι), Decidable (m.Along C s is)
  | _, [] => inferInstanceAs (Decidable True)
  | s, i :: is =>
      have (r : σ × List ε) : Decidable (m.Along C r.1 is) := decidableAlong r.1 is
      inferInstanceAs (Decidable (C s i ∧ ∀ r ∈ m.step s i, m.Along C r.1 is))

/-- What every step that meets a condition preserves, with the trace before it, holds at
the end of every run whose steps meet it. -/
theorem Machine.along_invariant {m : Machine σ ι ε} {C : σ → ι → Prop} {I : List ε → σ → Prop}
    (hstep : ∀ pre s i s' es, I pre s → C s i → m.step s i = some (s', es) → I (pre ++ es) s') :
    ∀ {is : List ι} {pre tr : List ε} {s s' : σ}, I pre s → m.Along C s is →
      m.run s is = some (s', tr) → I (pre ++ tr) s'
  | [], pre, tr, s, s', h, _, hrun => by
      obtain ⟨rfl, rfl⟩ := run_nil_iff.mp hrun
      rwa [List.append_nil]
  | i :: is, pre, tr, s, s', h, hC, hrun => by
      obtain ⟨s₁, es, tr', h1, h2, rfl⟩ := run_cons_iff.mp hrun
      have hi := hstep pre s i s₁ es h hC.1 h1
      rw [← List.append_assoc]
      exact along_invariant hstep hi (hC.2 _ h1) h2

/-- If a condition decides, under an invariant, whether the events of one step
are related to their past, it decides this for the events of every run. -/
theorem Machine.always_run_iff {m : Machine σ ι ε} {C : σ → ι → Prop} {I : List ε → σ → Prop}
    (hinv : ∀ pre s i s' es, I pre s → m.step s i = some (s', es) → I (pre ++ es) s')
    (hstep : ∀ pre s i s' es, I pre s → m.step s i = some (s', es) →
      (Always (fun past => Q (pre ++ past)) es ↔ C s i)) :
    ∀ {is : List ι} {pre tr : List ε} {s s' : σ}, I pre s → m.run s is = some (s', tr) →
      (Always (fun past => Q (pre ++ past)) tr ↔ m.Along C s is)
  | [], pre, tr, s, s', _, hrun => by
      obtain ⟨-, rfl⟩ := run_nil_iff.mp hrun
      exact iff_of_true always_nil trivial
  | i :: is, pre, tr, s, s', h, hrun => by
      obtain ⟨s₁, es, tr', h1, h2, rfl⟩ := run_cons_iff.mp hrun
      have hrest := always_run_iff hinv hstep (hinv pre s i s₁ es h h1) h2
      simp only [List.append_assoc] at hrest
      rw [always_append, hstep pre s i s₁ es h h1, hrest, Along]
      refine and_congr_right fun _ => ⟨fun hs r hr => ?_, fun hs => hs _ h1⟩
      rw [h1] at hr
      exact Option.some.inj hr ▸ hs

theorem always_forall_iff {p : ε → Prop} {tr : List ε} :
    Always (fun _ => p) tr ↔ ∀ e ∈ tr, p e := by
  constructor
  · intro h e he
    obtain ⟨pre, post, hsplit⟩ := List.append_of_mem he
    exact h pre e post hsplit
  · rintro h pre e post rfl
    exact h e (List.mem_append_right pre List.mem_cons_self)

/-- The same for a property of single events. -/
theorem Machine.forall_run_iff {m : Machine σ ι ε} {C : σ → ι → Prop} {p : ε → Prop}
    (hstep : ∀ s i s' es, m.step s i = some (s', es) → ((∀ e ∈ es, p e) ↔ C s i))
    {is : List ι} {tr : List ε} {s s' : σ} (hrun : m.run s is = some (s', tr)) :
    (∀ e ∈ tr, p e) ↔ m.Along C s is := by
  rw [← always_forall_iff]
  refine Machine.always_run_iff (I := fun pre _ => [] <+: pre) (Q := fun _ => p)
    (fun _ _ _ _ _ _ _ => List.nil_prefix) (fun _ s i s' es _ h => ?_) (List.prefix_refl []) hrun
  rw [always_forall_iff]
  exact hstep s i s' es h

/-- If each step keeps a property exactly when it meets a condition, and no step
brings it back, then a run keeps it exactly when all its steps meet the condition. -/
theorem Machine.run_iff_along {m : Machine σ ι ε} {C : σ → ι → Prop} {I G : σ → Prop}
    (hinv : ∀ s i s' es, I s → m.step s i = some (s', es) → I s')
    (hstep : ∀ s i s' es, I s → m.step s i = some (s', es) → (G s' ↔ G s ∧ C s i)) :
    ∀ {is : List ι} {tr : List ε} {s s' : σ}, I s → m.run s is = some (s', tr) →
      (G s' ↔ G s ∧ m.Along C s is)
  | [], tr, s, s', _, hrun => by
      obtain ⟨rfl, -⟩ := run_nil_iff.mp hrun
      exact (and_iff_left trivial).symm
  | i :: is, tr, s, s', h, hrun => by
      obtain ⟨s₁, es, tr', h1, h2, -⟩ := run_cons_iff.mp hrun
      have hrest := run_iff_along hinv hstep (hinv s i s₁ es h h1) h2
      rw [hrest, hstep s i s₁ es h h1, Along, and_assoc]
      refine and_congr_right fun _ => and_congr_right fun _ => ⟨fun hs r hr => ?_, fun hs => hs _ h1⟩
      rw [h1] at hr
      exact Option.some.inj hr ▸ hs

/-- A stronger relation to the past. -/
theorem Always.imp {Q' : List ε → ε → Prop} {tr : List ε} (h : Always Q tr)
    (hQ : ∀ pre e, Q pre e → Q' pre e) : Always Q' tr :=
  fun pre e post he => hQ pre e (h pre e post he)

/-! ## Potentials -/

section Potential

variable {m : Machine σ ι ε} {I : σ → Prop} {μ : σ → ℕ}

/-- If a potential pays for the events of each step, it pays for those of a run. -/
theorem Machine.run_cost (cost : List ε → ℕ) (hnil : cost [] = 0)
    (happend : ∀ xs ys, cost (xs ++ ys) = cost xs + cost ys)
    (hinv : ∀ s i s' es, I s → m.step s i = some (s', es) → I s')
    (hstep : ∀ s i s' es, I s → m.step s i = some (s', es) → cost es + μ s' ≤ μ s) :
    ∀ {is : List ι} {tr : List ε} {s s' : σ}, I s → m.run s is = some (s', tr) →
      cost tr + μ s' ≤ μ s
  | [], tr, s, s', _, hrun => by
      obtain ⟨rfl, rfl⟩ := run_nil_iff.mp hrun
      exact Nat.le_of_eq (by rw [hnil, Nat.zero_add])
  | i :: is, tr, s, s', h, hrun => by
      obtain ⟨s₁, es, tr', h1, h2, rfl⟩ := run_cons_iff.mp hrun
      have hhead := hstep s i s₁ es h h1
      have hrest := run_cost cost hnil happend hinv hstep (hinv s i s₁ es h h1) h2
      rw [happend]
      omega

/-- A potential that falls with each step until it is 0 bounds the number of steps. -/
theorem Machine.run_variant (hinv : ∀ s i s' es, I s → m.step s i = some (s', es) → I s')
    (hstep : ∀ s i s' es, I s → m.step s i = some (s', es) → μ s' ≤ μ s - 1) :
    ∀ {is : List ι} {tr : List ε} {s s' : σ}, I s → m.run s is = some (s', tr) →
      μ s' ≤ μ s - is.length
  | [], tr, s, s', _, hrun => by
      obtain ⟨rfl, -⟩ := run_nil_iff.mp hrun
      exact Nat.le_refl _
  | i :: is, tr, s, s', h, hrun => by
      obtain ⟨s₁, es, tr', h1, h2, -⟩ := run_cons_iff.mp hrun
      have hhead := hstep s i s₁ es h h1
      have hrest := run_variant hinv hstep (hinv s i s₁ es h h1) h2
      rw [List.length_cons]
      omega

/-- Where a step to a smaller potential exists as long as it is not 0, a run to 0 exists. -/
theorem Machine.exists_run_zero {P : ι → Prop}
    (hstep : ∀ s, I s → μ s ≠ 0 →
      ∃ i s' es, P i ∧ m.step s i = some (s', es) ∧ I s' ∧ μ s' < μ s) :
    ∀ {n : ℕ} {s : σ}, I s → μ s ≤ n →
      ∃ is s' tr, (∀ i ∈ is, P i) ∧ m.run s is = some (s', tr) ∧ μ s' = 0
  | 0, s, _, hn => ⟨[], s, [], List.forall_mem_nil P, rfl, Nat.le_zero.mp hn⟩
  | n + 1, s, h, hn => by
      rcases Nat.eq_zero_or_pos (μ s) with hzero | hpos
      · exact ⟨[], s, [], List.forall_mem_nil P, rfl, hzero⟩
      · obtain ⟨i, s₁, es, hi, h1, hI, hlt⟩ := hstep s h (Nat.pos_iff_ne_zero.mp hpos)
        obtain ⟨is, s', tr, hP, h2, hend⟩ := exists_run_zero hstep hI (n := n) (by omega)
        exact ⟨i :: is, s', es ++ tr, List.forall_mem_cons.mpr ⟨hi, hP⟩,
          run_cons_iff.mpr ⟨s₁, es, tr, h1, h2, rfl⟩, hend⟩

end Potential

end Trace

import Mathlib.Data.List.Basic

/-!
# One-slot mailboxes

A mailbox holds at most one item.  `put` overwrites what is there and `take`
empties it.  A history of operations decides what is pending, so nothing else
has to be remembered.

Two facts carry the results that rest on a mailbox.  What a `take` finds is the
item of the last `put` (`lastPut_of_pending`), and between two takes that find
something there is a `put` (`exists_put_between`).  Counting, the takes that
find something are at most the puts (`delivered_le_puts`).
-/

namespace Mailbox

universe u

variable {α : Type u}

inductive Op (α : Type u) where
  | put (a : α)
  | take

/-- What the slot holds after a history, from a given content. -/
def pendingFrom : Option α → List (Op α) → Option α
  | p, [] => p
  | _, .put a :: ops => pendingFrom (some a) ops
  | _, .take :: ops => pendingFrom none ops

/-- What the slot holds after a history, from the empty slot. -/
def pending (ops : List (Op α)) : Option α := pendingFrom none ops

/-- The item of the last `put` of a history. -/
def lastPutFrom : Option α → List (Op α) → Option α
  | p, [] => p
  | _, .put a :: ops => lastPutFrom (some a) ops
  | p, .take :: ops => lastPutFrom p ops

def lastPut (ops : List (Op α)) : Option α := lastPutFrom none ops

theorem pendingFrom_append (p : Option α) (xs ys : List (Op α)) :
    pendingFrom p (xs ++ ys) = pendingFrom (pendingFrom p xs) ys := by
  induction xs generalizing p with
  | nil => rfl
  | cons op xs ih => cases op <;> exact ih _

@[simp] theorem pending_snoc_put (ops : List (Op α)) (a : α) :
    pending (ops ++ [.put a]) = some a := by
  rw [pending, pendingFrom_append]
  rfl

@[simp] theorem pending_snoc_take (ops : List (Op α)) : pending (ops ++ [.take]) = none := by
  rw [pending, pendingFrom_append]
  rfl

theorem lastPutFrom_append (p : Option α) (xs ys : List (Op α)) :
    lastPutFrom p (xs ++ ys) = lastPutFrom (lastPutFrom p xs) ys := by
  induction xs generalizing p with
  | nil => rfl
  | cons op xs ih => cases op <;> exact ih _

@[simp] theorem lastPut_snoc_put (ops : List (Op α)) (a : α) :
    lastPut (ops ++ [.put a]) = some a := by
  rw [lastPut, lastPutFrom_append]
  rfl

/-- Takes do not change what was put last. -/
theorem lastPut_append_takes {ops takes : List (Op α)} (h : ∀ op ∈ takes, op = .take) :
    lastPut (ops ++ takes) = lastPut ops := by
  rw [lastPut, lastPutFrom_append, ← lastPut]
  generalize lastPut ops = p
  induction takes with
  | nil => rfl
  | cons op takes ih =>
      rw [h op List.mem_cons_self]
      exact ih fun op' h' => h op' (List.mem_cons_of_mem op h')

/-- A pending item is the item of the last `put`. -/
theorem lastPut_of_pending {ops : List (Op α)} {a : α} (h : pending ops = some a) :
    lastPut ops = some a := by
  have key : ∀ (ops : List (Op α)) (p q : Option α), (p = none ∨ p = q) →
      pendingFrom p ops = some a → lastPutFrom q ops = some a := by
    intro ops
    induction ops with
    | nil =>
        rintro p q (rfl | rfl) h
        · simp [pendingFrom] at h
        · exact h
    | cons op ops ih =>
        intro p q hpq h
        cases op with
        | put b => exact ih _ _ (Or.inr rfl) h
        | take => exact ih _ _ (Or.inl rfl) h
  exact key ops none none (Or.inl rfl) h

/-- From the empty slot, only a `put` makes an item pending. -/
theorem exists_put_of_pending {ops : List (Op α)} {a : α} (h : pending ops = some a) :
    Op.put a ∈ ops := by
  have key : ∀ (ops : List (Op α)) (p : Option α), pendingFrom p ops = some a →
      p = some a ∨ Op.put a ∈ ops := by
    intro ops
    induction ops with
    | nil => intro p h; exact Or.inl h
    | cons op ops ih =>
        intro p h
        cases op with
        | put b =>
            rcases ih _ h with hb | hm
            · cases hb
              exact Or.inr List.mem_cons_self
            · exact Or.inr (List.mem_cons_of_mem _ hm)
        | take =>
            rcases ih _ h with hb | hm
            · cases hb
            · exact Or.inr (List.mem_cons_of_mem _ hm)
  rcases key ops none h with hb | hm
  · cases hb
  · exact hm

/-- Between a `take` and a later one that finds an item, the item was put. -/
theorem exists_put_between {pre mid : List (Op α)} {a : α}
    (h : pending (pre ++ .take :: mid) = some a) : Op.put a ∈ mid := by
  refine exists_put_of_pending ?_
  rwa [pending, pendingFrom_append] at h

/-! ## Counting -/

/-- How many takes find an item. -/
def deliveredFrom : Option α → List (Op α) → Nat
  | _, [] => 0
  | _, .put a :: ops => deliveredFrom (some a) ops
  | none, .take :: ops => deliveredFrom none ops
  | some _, .take :: ops => deliveredFrom none ops + 1

def delivered (ops : List (Op α)) : Nat := deliveredFrom none ops

def puts : List (Op α) → Nat
  | [] => 0
  | .put _ :: ops => puts ops + 1
  | .take :: ops => puts ops

theorem deliveredFrom_append (p : Option α) (xs ys : List (Op α)) :
    deliveredFrom p (xs ++ ys) = deliveredFrom p xs + deliveredFrom (pendingFrom p xs) ys := by
  induction xs generalizing p with
  | nil => simp [deliveredFrom, pendingFrom]
  | cons op xs ih =>
      cases op with
      | put a => exact ih (some a)
      | take =>
          cases p with
          | none => exact ih none
          | some b =>
              simp only [List.cons_append, deliveredFrom, pendingFrom, ih none]
              omega

@[simp] theorem delivered_snoc_put (ops : List (Op α)) (a : α) :
    delivered (ops ++ [.put a]) = delivered ops := by
  simp [delivered, deliveredFrom_append, deliveredFrom]

/-- A take delivers what is pending. -/
theorem delivered_snoc_take (ops : List (Op α)) :
    delivered (ops ++ [.take]) = delivered ops + (pending ops).toList.length := by
  rw [delivered, deliveredFrom_append, ← pending]
  cases pending ops <;> rfl

theorem puts_append (xs ys : List (Op α)) : puts (xs ++ ys) = puts xs + puts ys := by
  induction xs with
  | nil => simp [puts]
  | cons op xs ih =>
      cases op with
      | put a =>
          rw [List.cons_append, puts, puts, ih]
          omega
      | take => rw [List.cons_append, puts, puts, ih]

theorem deliveredFrom_le (ops : List (Op α)) :
    ∀ p : Option α, deliveredFrom p ops ≤ puts ops + p.toList.length := by
  induction ops with
  | nil => intro p; simp [deliveredFrom]
  | cons op ops ih =>
      intro p
      cases op with
      | put a =>
          have := ih (some a)
          simp only [deliveredFrom, puts, Option.toList_some, List.length_singleton] at *
          omega
      | take =>
          have := ih none
          cases p <;> simp only [deliveredFrom, puts, Option.toList_none, Option.toList_some,
            List.length_nil, List.length_singleton] at * <;> omega

/-- Never more deliveries than items put. -/
theorem delivered_le_puts (ops : List (Op α)) : delivered ops ≤ puts ops := by
  simpa [delivered] using deliveredFrom_le ops none

end Mailbox

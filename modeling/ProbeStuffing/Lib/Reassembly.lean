import Mathlib.Data.List.Basic

/-!
# Putting fragments together

A message is cut into pieces of `size` entries.  A fragment has the number of its
piece, the piece, and a bit that says whether more follow.  Fragments may arrive in
any order and more than once, so a receiver looks for number 0, and then for the
next number as long as the bit is set.

`Assembled` says what a receiver may come to, whichever of several fragments with
one number it takes.  If all of its fragments are pieces of one message, this is the
message (`Assembled.eq_drop`), and it gets there when no number is missing
(`assembled_of_all`).
-/

namespace Reassembly

/-- How to read a fragment. -/
structure Format (ξ β : Type) where
  number : ξ → Nat
  more : ξ → Prop
  data : ξ → List β

variable {ξ β : Type} (F : Format ξ β)

/-- The data of fragments with the numbers from `k` on, up to one without the bit. -/
inductive Assembled (xs : List ξ) : Nat → List β → Prop where
  | last {x} : x ∈ xs → ¬ F.more x → Assembled xs (F.number x) (F.data x)
  | more {x rest} : x ∈ xs → F.more x → Assembled xs (F.number x + 1) rest →
      Assembled xs (F.number x) (F.data x ++ rest)

/-- The fragment is a piece of the message. -/
structure Format.PieceOf (size : Nat) (message : List β) (x : ξ) : Prop where
  data : F.data x = (message.drop (size * F.number x)).take size
  more_iff : F.more x ↔ size * (F.number x + 1) < message.length

variable {F} {size : Nat} {message : List β} {xs : List ξ}

/-- The last piece is all that is left. -/
theorem Format.PieceOf.data_last {x : ξ} (h : F.PieceOf size message x) (hlast : ¬ F.more x) :
    F.data x = message.drop (size * F.number x) := by
  have hle : message.length ≤ size * F.number x + size :=
    Nat.not_lt.mp fun hlt => hlast (h.more_iff.mpr (by rwa [Nat.mul_succ]))
  rw [h.data]
  refine List.take_of_length_le ?_
  rw [List.length_drop]
  exact Nat.sub_le_iff_le_add'.mpr hle

/-- A piece and what follows it. -/
theorem Format.PieceOf.data_append {x : ξ} (h : F.PieceOf size message x) :
    F.data x ++ message.drop (size * (F.number x + 1)) = message.drop (size * F.number x) := by
  rw [h.data, Nat.mul_succ, ← List.drop_drop, List.take_append_drop]

/-- Pieces of one message can only be put together to what is left of it. -/
theorem Assembled.eq_drop (hall : ∀ x ∈ xs, F.PieceOf size message x) {k : Nat}
    {bytes : List β} (h : Assembled F xs k bytes) : bytes = message.drop (size * k) := by
  induction h with
  | last hx hlast => exact (hall _ hx).data_last hlast
  | more hx _ _ ih => rw [ih, (hall _ hx).data_append]

/-- If no number is missing, they can be put together. -/
theorem assembled_of_all (hall : ∀ x ∈ xs, F.PieceOf size message x) :
    ∀ (left : Nat) {k : Nat}, size * k < message.length → message.length ≤ size * (k + left) →
      (∀ i, size * i < message.length → ∃ x ∈ xs, F.number x = i) →
        Assembled F xs k (message.drop (size * k))
  | 0, k, hlt, hle, _ => absurd hle (Nat.not_le.mpr hlt)
  | left + 1, k, hlt, hle, hthere => by
      obtain ⟨x, hx, rfl⟩ := hthere k hlt
      rcases Classical.em (F.more x) with hmore | hlast
      · rw [← (hall x hx).data_append]
        refine .more hx hmore (assembled_of_all hall left ((hall x hx).more_iff.mp hmore) ?_ hthere)
        rwa [Nat.succ_add_eq_add_succ]
      · rw [← (hall x hx).data_last hlast]
        exact .last hx hlast

end Reassembly

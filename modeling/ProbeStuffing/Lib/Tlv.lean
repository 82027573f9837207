import Mathlib.Data.List.Basic

/-!
# Lists of type-length-value elements

An element is an identifier byte, a length byte and as many bytes of body.  The
bound on the body is a field, so every `Element` has an encoding and every
encoding is well formed.

Any bytes are the encoding of some elements and a rest that starts with none
(`exists_encode_append`).

`walk_encode` is the rule for code that walks an encoded list.  If the walker
takes one element off the front per unit of fuel, and its result is made of this
element and of its result on the rest, then it is a fold over the list.
-/

namespace Tlv

universe u

/-- One element.  The length byte is the length of the body. -/
structure Element where
  id : UInt8
  body : List UInt8
  fits : body.length ≤ 255
deriving DecidableEq

namespace Element

/-- The length byte. -/
def len (e : Element) : UInt8 := UInt8.ofNat e.body.length

def bytes (e : Element) : List UInt8 := e.id :: e.len :: e.body

@[simp] theorem len_toNat (e : Element) : e.len.toNat = e.body.length := by
  have := e.fits
  rw [len, UInt8.toNat_ofNat']
  omega

@[simp] theorem length_bytes (e : Element) : e.bytes.length = e.body.length + 2 := rfl

end Element

/-- A list of elements, one after the other. -/
def encode (es : List Element) : List UInt8 := es.flatMap Element.bytes

@[simp] theorem encode_nil : encode [] = [] := rfl

@[simp] theorem encode_cons (e : Element) (es : List Element) :
    encode (e :: es) = e.bytes ++ encode es := rfl

@[simp] theorem encode_append (es fs : List Element) :
    encode (es ++ fs) = encode es ++ encode fs := List.flatMap_append

theorem length_le_encode (es : List Element) : es.length ≤ (encode es).length := by
  induction es with
  | nil => simp
  | cons e es ih => simp; omega

/-- No element is at the front of these bytes. -/
def Incomplete : List UInt8 → Prop
  | _ :: len :: body => body.length < len.toNat
  | _ => True

theorem exists_encode_append : ∀ bytes : List UInt8,
    ∃ (es : List Element) (rest : List UInt8), Incomplete rest ∧ bytes = encode es ++ rest
  | [] => ⟨[], [], trivial, rfl⟩
  | [b] => ⟨[], [b], trivial, rfl⟩
  | id :: len :: data => by
      by_cases hlen : data.length < len.toNat
      · exact ⟨[], id :: len :: data, hlen, rfl⟩
      · have htake : (data.take len.toNat).length = len.toNat :=
          List.length_take_of_le (Nat.le_of_not_lt hlen)
        have hfits : (data.take len.toNat).length ≤ 255 := by
          rw [htake]
          exact Nat.le_of_lt_succ len.toNat_lt
        have hbytes : Element.bytes ⟨id, data.take len.toNat, hfits⟩ ++ data.drop len.toNat =
            id :: len :: data := by
          simp [Element.bytes, Element.len, htake]
        obtain ⟨es, rest, hrest, heq⟩ := exists_encode_append (data.drop len.toNat)
        refine ⟨⟨id, data.take len.toNat, hfits⟩ :: es, rest, hrest, ?_⟩
        rw [encode_cons, List.append_assoc, ← heq, hbytes]
termination_by bytes => bytes.length
decreasing_by
  simp
  omega

section Walk

variable {ρ : Type u} {w : Nat → List UInt8 → ρ} {f : Element → ρ → ρ} {r : ρ}

theorem walk_encode_of_le (hnil : ∀ fuel, w fuel [] = r)
    (hcons : ∀ fuel e rest, w (fuel + 1) (e.bytes ++ rest) = f e (w fuel rest)) :
    ∀ (es : List Element) (fuel : Nat), es.length ≤ fuel → w fuel (encode es) = es.foldr f r
  | [], fuel, _ => hnil fuel
  | _ :: _, 0, h => absurd h (Nat.not_succ_le_zero _)
  | e :: es, fuel + 1, h => by
      have hrest := walk_encode_of_le hnil hcons es fuel (Nat.le_of_succ_le_succ h)
      rw [encode_cons, hcons, hrest, List.foldr_cons]

/-- A walker that takes one element per unit of fuel folds the whole list, since
the length of an encoding is enough fuel. -/
theorem walk_encode (hnil : ∀ fuel, w fuel [] = r)
    (hcons : ∀ fuel e rest, w (fuel + 1) (e.bytes ++ rest) = f e (w fuel rest))
    (es : List Element) : w (encode es).length (encode es) = es.foldr f r :=
  walk_encode_of_le hnil hcons es _ (length_le_encode es)

end Walk

end Tlv

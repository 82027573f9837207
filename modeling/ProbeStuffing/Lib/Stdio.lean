import ProbeStuffing.Lib.CString

/-!
# Lines of a stream

A stream is the bytes that have not been read yet.  `fgets` takes a line off its
front, with the newline, or as much of one as the buffer holds.  It returns NULL
at the end of the stream only, so with room for a byte every call that does not
shortens the stream (`fgets_eq_some`).
-/

namespace Stdio

open CString

/-- Up to the first newline, and with it. -/
def line : Bytes → Bytes
  | [] => []
  | b :: s => if b = 10 then [b] else b :: line s

/-- `fgets` into `size` bytes: what is read, and the stream behind it. -/
def fgets (size : Nat) : Bytes → Option (Bytes × Bytes)
  | [] => none
  | b :: s =>
      let read := line ((b :: s).take (size - 1))
      some (read, (b :: s).drop read.length)

theorem line_prefix : ∀ s : Bytes, line s <+: s
  | [] => List.prefix_refl []
  | b :: s => by
      rw [line]
      split
      · exact ⟨s, rfl⟩
      · obtain ⟨t, ht⟩ := line_prefix s
        exact ⟨t, congrArg (b :: ·) ht⟩

theorem line_length_pos {s : Bytes} (h : s ≠ []) : 0 < (line s).length := by
  cases s with
  | nil => exact absurd rfl h
  | cons b s =>
      rw [line]
      split
      · exact Nat.one_pos
      · exact Nat.succ_pos _

@[simp] theorem fgets_eq_none_iff {size : Nat} {stream : Bytes} :
    fgets size stream = none ↔ stream = [] := by
  cases stream with
  | nil => exact iff_of_true rfl rfl
  | cons b s => exact iff_of_false (Option.some_ne_none _) (List.cons_ne_nil b s)

/-- A line that is read fits the buffer, and the stream goes on behind it. -/
theorem fgets_eq_some {size : Nat} {stream read rest : Bytes} (hsize : 2 ≤ size)
    (h : fgets size stream = some (read, rest)) :
    stream = read ++ rest ∧ 0 < read.length ∧ read.length < size := by
  cases stream with
  | nil => cases h
  | cons b s =>
      obtain ⟨hread, hrest⟩ := Prod.mk.inj (Option.some.inj h)
      have hprefix : read <+: (b :: s).take (size - 1) := hread ▸ line_prefix _
      have htake : (b :: s).take (size - 1) ≠ [] := by
        have hroom : size - 1 ≠ 0 := by omega
        simp [hroom]
      have hlen := hprefix.length_le
      rw [List.length_take] at hlen
      obtain ⟨t, ht⟩ := hprefix.trans (List.take_prefix _ _)
      refine ⟨?_, hread ▸ line_length_pos htake, by omega⟩
      rw [← hrest, hread, ← ht, List.drop_left]

end Stdio

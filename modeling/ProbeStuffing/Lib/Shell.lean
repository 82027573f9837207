import ProbeStuffing.Lib.CString

/-!
# Words of a shell command

A small part of how the POSIX shell reads a command line: blanks, double
quotes, and plain bytes.  `shWords` gives the words of a line that is one simple
command without expansions, after quote removal; reserved words are not looked
at.  It gives `none` for any other line: an unclosed quote, an expansion, a
control operator, or a byte whose meaning outside quotes is not modelled.

Between double quotes four bytes have a meaning of their own: the quote itself,
the dollar sign, the backquote and the backslash.  A text without them is one
literal piece of a word (`words_quoted`).
-/

namespace Shell

/-- The bytes the shell interprets between double quotes. -/
def Interpreted (b : UInt8) : Prop := b = 34 ∨ b = 36 ∨ b = 96 ∨ b = 92

instance (b : UInt8) : Decidable (Interpreted b) :=
  inferInstanceAs (Decidable (b = 34 ∨ b = 36 ∨ b = 96 ∨ b = 92))

/-- No byte of a text is interpreted between double quotes. -/
def Literal (s : List UInt8) : Prop := ∀ b ∈ s, ¬ Interpreted b

instance (s : List UInt8) : Decidable (Literal s) := List.decidableBAll _ s

/-- Letters, digits and `+,-./:@_`: bytes that stand for themselves outside quotes. -/
def isPlain (b : UInt8) : Bool :=
  (97 ≤ b && b ≤ 122) || (64 ≤ b && b ≤ 90) || (43 ≤ b && b ≤ 58) || b == 95

/-- Where the reader stands: between words, in a word, or between double quotes. -/
inductive Mode where
  | blank
  | word
  | quoted

/-- The words of the rest of a line; `cur` is the word read so far. -/
def words : Mode → List UInt8 → List UInt8 → Option (List (List UInt8))
  | .blank, _, [] => some []
  | .word, cur, [] => some [cur]
  | .quoted, _, [] => none
  | .blank, _, b :: s =>
      if b = 32 then words .blank [] s
      else if b = 34 then words .quoted [] s
      else if isPlain b then words .word [b] s
      else none
  | .word, cur, b :: s =>
      if b = 32 then (words .blank [] s).map (cur :: ·)
      else if b = 34 then words .quoted cur s
      else if isPlain b then words .word (cur ++ [b]) s
      else none
  | .quoted, cur, [b] => if b = 34 then words .word cur [] else none
  | .quoted, cur, b :: c :: s =>
      if b = 34 then words .word cur (c :: s)
      else if b = 36 ∨ b = 96 then none
      else if b = 92 ∧ Interpreted c then words .quoted (cur ++ [c]) s
      else if b = 92 ∧ c = 10 then words .quoted cur s
      else words .quoted (cur ++ [b]) (c :: s)

/-- The words of a line that is one simple command without expansions. -/
def shWords (line : List UInt8) : Option (List (List UInt8)) := words .blank [] line

/-! ## Texts that stand for themselves -/

variable {s t cur : List UInt8}

theorem literal_append : Literal (s ++ t) ↔ Literal s ∧ Literal t :=
  List.forall_mem_append

/-- Digits need no quotes. -/
theorem isPlain_of_isDigit {b : UInt8} (h : CString.isDigit b = true) : isPlain b = true := by
  obtain ⟨hlo, hhi⟩ := CString.isDigit_iff.mp h
  have h43 : 43 ≤ b := UInt8.le_iff_toNat_le.mpr (show 43 ≤ b.toNat by omega)
  have h58 : b ≤ 58 := UInt8.le_iff_toNat_le.mpr (show b.toNat ≤ 58 by omega)
  simp [isPlain, h43, h58]

/-- What needs no quotes means the same between them. -/
theorem not_interpreted_of_isPlain {b : UInt8} (h : isPlain b = true) : ¬ Interpreted b := by
  rintro (rfl | rfl | rfl | rfl)
  · cases h
  · cases h
  · cases h
  · cases h

theorem literal_of_isDigit (h : ∀ b ∈ s, CString.isDigit b = true) : Literal s :=
  fun b hb => not_interpreted_of_isPlain (isPlain_of_isDigit (h b hb))

/-! ## Reading a piece of a word -/

/-- A plain byte neither ends a word nor quotes. -/
theorem ne_of_isPlain {b : UInt8} (h : isPlain b = true) : b ≠ 32 ∧ b ≠ 34 := by
  constructor
  · rintro rfl
    cases h
  · rintro rfl
    cases h

/-- It starts a word. -/
theorem words_blank_cons {b : UInt8} (h : isPlain b = true) :
    words .blank [] (b :: t) = words .word [b] t := by
  obtain ⟨h32, h34⟩ := ne_of_isPlain h
  rw [words, if_neg h32, if_neg h34, if_pos h]

/-- It goes on with a word. -/
theorem words_word_cons {b : UInt8} (h : isPlain b = true) :
    words .word cur (b :: t) = words .word (cur ++ [b]) t := by
  obtain ⟨h32, h34⟩ := ne_of_isPlain h
  rw [words, if_neg h32, if_neg h34, if_pos h]

theorem words_plain (h : s.all isPlain = true) :
    words .word cur (s ++ t) = words .word (cur ++ s) t := by
  induction s generalizing cur with
  | nil => rw [List.nil_append, List.append_nil]
  | cons b s ih =>
      obtain ⟨hb, hs⟩ := Bool.and_eq_true_iff.mp h
      rw [List.cons_append, words_word_cons hb, ih hs, List.append_assoc]
      rfl

/-- A word of plain bytes and the blank after it. -/
theorem words_plain_blank (hne : s ≠ []) (h : s.all isPlain = true) :
    words .blank [] (s ++ 32 :: t) = (words .blank [] t).map (s :: ·) := by
  cases s with
  | nil => exact absurd rfl hne
  | cons b s =>
      obtain ⟨hb, hs⟩ := Bool.and_eq_true_iff.mp h
      rw [List.cons_append, words_blank_cons hb, words_plain hs, words, if_pos rfl]
      rfl

/-- Plain words with a blank after each. -/
theorem words_plain_list : ∀ {ws : List (List UInt8)},
    (∀ w ∈ ws, w ≠ [] ∧ w.all isPlain = true) →
      words .blank [] (ws.flatMap (· ++ [32]) ++ t) = (words .blank [] t).map (ws ++ ·)
  | [], _ => Option.map_id'.symm
  | w :: ws, h => by
      obtain ⟨hne, hw⟩ := h w List.mem_cons_self
      rw [List.flatMap_cons, List.append_assoc, List.append_assoc, List.singleton_append,
        words_plain_blank hne hw, words_plain_list fun v hv => h v (List.mem_cons_of_mem w hv),
        Option.map_map]
      rfl

/-- A literal text up to the closing quote is read as it stands. -/
theorem words_quoted (h : Literal s) :
    words .quoted cur (s ++ 34 :: t) = words .word (cur ++ s) t := by
  induction s generalizing cur with
  | nil => cases t <;> simp [words]
  | cons b s ih =>
      have hb := h b List.mem_cons_self
      rw [Interpreted, not_or, not_or, not_or] at hb
      obtain ⟨h34, h36, h96, h92⟩ := hb
      have hrest : words .quoted (cur ++ [b]) (s ++ 34 :: t) = words .word (cur ++ [b] ++ s) t :=
        ih fun c hc => h c (List.mem_cons_of_mem b hc)
      rw [List.append_assoc, List.singleton_append] at hrest
      cases s with
      | nil => simpa [words, h34, h36, h96, h92] using hrest
      | cons c s => simpa [words, h34, h36, h96, h92] using hrest

/-- An option whose argument is quoted, up to the closing quote. -/
theorem words_option {c : UInt8} (hc : isPlain c = true) (h : Literal s) :
    words .blank [] (45 :: c :: 34 :: (s ++ 34 :: t)) = words .word (45 :: c :: s) t := by
  have hdash : isPlain 45 = true := rfl
  have hquote : words .word ([45] ++ [c]) (34 :: (s ++ 34 :: t)) =
      words .quoted ([45] ++ [c]) (s ++ 34 :: t) := rfl
  rw [words_blank_cons hdash, words_word_cons hc, hquote, words_quoted h]
  rfl

end Shell

import Mathlib.Data.List.Chain
import Mathlib.Tactic.Tauto
import ProbeStuffing.Lib.CString
import ProbeStuffing.Lib.Lexer

/-!
# The tokens of an SQL text

White space, words, numeric literals, string literals and the punctuation of an
INSERT statement, as SQLite cuts them.  White space is kept as a token, so that
the tokens spell the text (`eq_of_tokenize`).  Whatever else SQLite knows
(operators, comments, quoted identifiers, variables, blobs) has no token here,
and a text with any of it is not tokenized.

A numeric literal has no sign.  It is an integer, a number with a fraction or an
exponent, or a hexadecimal integer, and it may not run into a word.  A string
literal stands between single quotes, and a quote in it is written twice, so a
string can be put between quotes as it is exactly when it has no quote
(`escape_length`).
-/

namespace Sql

open CString Lexer

/-! ## Classes of characters -/

def isSpace (b : UInt8) : Bool := b == 32 || b == 9 || b == 10 || b == 12 || b == 13

def isPunct (b : UInt8) : Bool := b == 40 || b == 41 || b == 44 || b == 59

/-- The first character of a word: a letter, an underscore, or no ASCII. -/
def isIdStart (b : UInt8) : Bool :=
  (65 ≤ b && b ≤ 90) || (97 ≤ b && b ≤ 122) || b == 95 || 128 ≤ b

def isIdChar (b : UInt8) : Bool := isIdStart b || isDigit b || b == 36

def isHexDigit (b : UInt8) : Bool :=
  isDigit b || (65 ≤ b && b ≤ 70) || (97 ≤ b && b ≤ 102)

/-! ## The automaton -/

/-- What the token that is being read is.  `wordX` is the word `x`, which a quote
would make a blob; `bad` is a number that has run into a word. -/
inductive State where
  | start | space | wordX | word
  | zero | int | dot | frac | exp | expSign | expDigits | hexMark | hex | bad
  | str | strEnd | punct
deriving DecidableEq

/-- A character that may not follow a number. -/
def numEnd (b : UInt8) : Option State := if isIdChar b then some .bad else none

def isE (b : UInt8) : Bool := b == 69 || b == 101

def isX (b : UInt8) : Bool := b == 88 || b == 120

def step : State → UInt8 → Option State
  | .start, b =>
      if isSpace b then some .space
      else if isX b then some .wordX
      else if isIdStart b then some .word
      else if b = 48 then some .zero
      else if isDigit b then some .int
      else if b = 46 then some .dot
      else if b = 39 then some .str
      else if isPunct b then some .punct
      else none
  | .space, b => if isSpace b then some .space else none
  | .wordX, b => if b = 39 then some .bad else if isIdChar b then some .word else none
  | .word, b => if isIdChar b then some .word else none
  | .zero, b =>
      if isX b then some .hexMark
      else if isDigit b then some .int
      else if b = 46 then some .frac
      else if isE b then some .exp
      else numEnd b
  | .int, b =>
      if isDigit b then some .int
      else if b = 46 then some .frac
      else if isE b then some .exp
      else numEnd b
  | .dot, b => if isDigit b then some .frac else none
  | .frac, b => if isDigit b then some .frac else if isE b then some .exp else numEnd b
  | .exp, b =>
      if b = 43 ∨ b = 45 then some .expSign
      else if isDigit b then some .expDigits
      else numEnd b
  | .expSign, b => if isDigit b then some .expDigits else none
  | .expDigits, b => if isDigit b then some .expDigits else numEnd b
  | .hexMark, b => if isHexDigit b then some .hex else numEnd b
  | .hex, b => if isHexDigit b then some .hex else numEnd b
  | .bad, b => numEnd b
  | .str, b => if b = 39 then some .strEnd else some .str
  | .strEnd, b => if b = 39 then some .str else none
  | .punct, _ => none

/-- The states in which a token may end. -/
def State.accept : State → Bool
  | .space | .wordX | .word | .zero | .int | .frac | .expDigits | .hex | .strEnd | .punct => true
  | _ => false

def lexer : Dfa UInt8 State := ⟨.start, step, State.accept⟩

/-! ## Tokens -/

inductive Token where
  | space (s : Bytes)
  | word (s : Bytes)
  | num (s : Bytes)
  /-- A string literal, by its content. -/
  | str (content : Bytes)
  | punct (b : UInt8)
deriving DecidableEq

/-- Every quote twice. -/
def escape (content : Bytes) : Bytes := content.flatMap fun b => if b = 39 then [39, 39] else [b]

def unescape : Bytes → Bytes
  | 39 :: 39 :: s => 39 :: unescape s
  | b :: s => b :: unescape s
  | [] => []

/-- A string literal. -/
def quote (content : Bytes) : Bytes := 39 :: escape content ++ [39]

def Token.spell : Token → Bytes
  | .space s | .word s | .num s => s
  | .str content => quote content
  | .punct b => [b]

/-- The token of a lexeme. -/
def tokenOf : Bytes × State → Token
  | (s, .wordX) | (s, .word) => .word s
  | (s, .zero) | (s, .int) | (s, .frac) | (s, .expDigits) | (s, .hex) => .num s
  | (s, .strEnd) => .str (unescape s.tail.dropLast)
  | (s, .punct) => .punct (s.headD 0)
  | (s, _) => .space s

/-- The tokens of a text. -/
def tokenize (s : Bytes) : Option (List Token) := (lexer.lex s).map (·.map tokenOf)

/-- A numeric literal. -/
def IsNumeric (s : Bytes) : Prop :=
  ∃ q ∈ [State.zero, .int, .frac, .expDigits, .hex], lexer.read .start s = some q

instance (s : Bytes) : Decidable (IsNumeric s) := inferInstanceAs (Decidable (∃ q ∈ _, _))

/-! ## Quoting -/

theorem escape_append (s t : Bytes) : escape (s ++ t) = escape s ++ escape t :=
  List.flatMap_append

theorem escape_singleton {b : UInt8} (h : b ≠ 39) : escape [b] = [b] := by
  simp [escape, h]

/-- Escaping adds a byte for each quote. -/
theorem escape_length (s : Bytes) : (escape s).length = s.length + s.count 39 := by
  induction s with
  | nil => rfl
  | cons b s ih =>
      rw [show b :: s = [b] ++ s from rfl, escape_append, List.length_append, ih,
        List.length_append, List.count_append]
      by_cases hb : b = 39
      · subst hb
        simp [escape]
        omega
      · rw [escape_singleton hb, List.count_singleton, if_neg (by simpa using hb)]
        omega

theorem escape_eq_self {s : Bytes} (h : 39 ∉ s) : escape s = s := by
  induction s with
  | nil => rfl
  | cons b s ih =>
      obtain ⟨hb, hs⟩ := not_or.mp (mt List.mem_cons.mpr h)
      rw [show b :: s = [b] ++ s from rfl, escape_append, escape_singleton (Ne.symm hb), ih hs]

theorem unescape_escape (s : Bytes) : unescape (escape s) = s := by
  induction s with
  | nil => rfl
  | cons b s ih =>
      rw [show b :: s = [b] ++ s from rfl, escape_append]
      by_cases hb : b = 39
      · subst hb
        exact congrArg (39 :: ·) ih
      · rw [escape_singleton hb, List.singleton_append, unescape, ih]
        · rfl
        · intro t hbt _
          exact hb hbt

/-! ## Lexemes are spelled tokens -/

theorem step_ne_start (q : State) (b : UInt8) : step q b ≠ some .start := by
  cases q <;> grind [step, numEnd]

theorem step_eq_str {q : State} {b : UInt8} (h : step q b = some .str) :
    (q = .start ∧ b = 39) ∨ (q = .str ∧ b ≠ 39) ∨ (q = .strEnd ∧ b = 39) := by
  cases q <;> grind [step, numEnd]

theorem step_eq_strEnd {q : State} {b : UInt8} (h : step q b = some .strEnd) :
    q = .str ∧ b = 39 := by
  cases q <;> grind [step, numEnd]

theorem step_eq_punct {q : State} {b : UInt8} (h : step q b = some .punct) : q = .start := by
  cases q <;> grind [step, numEnd]

/-- What has been read when a state is reached, for the states that know. -/
def Shape (s : Bytes) : State → Prop
  | .start => s = []
  | .str => ∃ c, s = 39 :: escape c
  | .strEnd => ∃ c, s = quote c
  | .punct => ∃ b, s = [b]
  | _ => True

theorem shape_step {q q' : State} {b : UInt8} {s : Bytes} (hs : Shape s q)
    (h : step q b = some q') : Shape (s ++ [b]) q' := by
  cases q' with
  | start => exact absurd h (step_ne_start q b)
  | str =>
      rcases step_eq_str h with ⟨rfl, rfl⟩ | ⟨rfl, hb⟩ | ⟨rfl, rfl⟩
      · obtain rfl : s = [] := hs
        exact ⟨[], rfl⟩
      · obtain ⟨c, rfl⟩ := hs
        exact ⟨c ++ [b], by rw [escape_append, escape_singleton hb, List.cons_append]⟩
      · obtain ⟨c, rfl⟩ := hs
        refine ⟨c ++ [39], ?_⟩
        rw [quote, escape_append, List.cons_append, List.cons_append, List.append_assoc]
        rfl
  | strEnd =>
      obtain ⟨rfl, rfl⟩ := step_eq_strEnd h
      obtain ⟨c, rfl⟩ := hs
      exact ⟨c, rfl⟩
  | punct =>
      obtain rfl := step_eq_punct h
      obtain rfl : s = [] := hs
      exact ⟨b, rfl⟩
  | _ => trivial

theorem shape_read {s : Bytes} : ∀ {q : State}, lexer.read .start s = some q → Shape s q := by
  induction s using List.reverseRecOn with
  | nil =>
      intro q h
      obtain rfl := Option.some.inj h
      rfl
  | append_singleton s b ih =>
      intro q h
      rw [Dfa.read_append, Option.bind_eq_some_iff] at h
      obtain ⟨q', hq', hstep⟩ := h
      rw [Dfa.read_singleton] at hstep
      exact shape_step (ih hq') hstep

/-- The token of a lexeme spells it. -/
theorem spell_tokenOf {t : Bytes × State} (h : lexer.IsLexeme t) : (tokenOf t).spell = t.1 := by
  obtain ⟨s, q⟩ := t
  have hshape := shape_read h.read
  cases q with
  | strEnd =>
      obtain ⟨c, rfl⟩ := hshape
      have hbody : (quote c).tail.dropLast = escape c := by
        show (escape c ++ [39]).dropLast = escape c
        exact List.dropLast_concat
      show quote (unescape (quote c).tail.dropLast) = quote c
      rw [hbody, unescape_escape]
  | punct =>
      obtain ⟨b, rfl⟩ := hshape
      rfl
  | _ => rfl

/-- A token that stands for its own spelling. -/
def Token.Valid (k : Token) : Prop := ∃ q, lexer.IsLexeme (k.spell, q) ∧ tokenOf (k.spell, q) = k

theorem valid_tokenOf {t : Bytes × State} (h : lexer.IsLexeme t) : (tokenOf t).Valid := by
  refine ⟨t.2, ?_⟩
  rw [spell_tokenOf h]
  exact ⟨h, rfl⟩

/-- The tokens of a text spell it. -/
theorem eq_of_tokenize {s : Bytes} {ks : List Token} (h : tokenize s = some ks) :
    s = ks.flatMap Token.spell ∧ ∀ k ∈ ks, k.Valid := by
  obtain ⟨ts, hlex, rfl⟩ := Option.map_eq_some_iff.mp h
  have hlexes := Dfa.lex_eq_some_iff.mp hlex
  constructor
  · have hspell : ∀ t ∈ ts, (tokenOf t).spell = t.1 := fun t ht =>
      spell_tokenOf (hlexes.isLexeme t ht)
    rw [hlexes.flatten, List.flatMap_map, List.flatMap_congr hspell, List.flatMap_def]
  · intro k hk
    obtain ⟨t, ht, rfl⟩ := List.mem_map.mp hk
    exact valid_tokenOf (hlexes.isLexeme t ht)

theorem Token.Valid.spell_ne_nil {k : Token} (h : k.Valid) : k.spell ≠ [] := by
  obtain ⟨q, hq, -⟩ := h
  exact hq.ne_nil

/-- The token of the state in which the spelling ends. -/
theorem Token.Valid.tokenOf_eq {k : Token} (h : k.Valid) {q : State}
    (hq : lexer.IsLexeme (k.spell, q)) : tokenOf (k.spell, q) = k := by
  obtain ⟨q', hq', htoken⟩ := h
  obtain rfl := Option.some.inj (hq.read.symm.trans hq'.read)
  exact htoken

/-- Two tokens the lexer cuts apart: behind the first there is no step on the second. -/
def Separated (j k : Token) : Prop :=
  ∀ q, lexer.IsLexeme (j.spell, q) → lexer.Stops q k.spell

/-- Valid tokens that are cut apart come back from the text they spell. -/
theorem tokenize_spell {ks : List Token} (hvalid : ∀ k ∈ ks, k.Valid)
    (hsep : ks.IsChain Separated) : tokenize (ks.flatMap Token.spell) = some ks := by
  suffices h : ∃ ts, lexer.Lexes (ks.flatMap Token.spell) ts ∧ ts.map tokenOf = ks by
    obtain ⟨ts, hlexes, hmap⟩ := h
    exact Option.map_eq_some_iff.mpr ⟨ts, Dfa.lex_eq_some_iff.mpr hlexes, hmap⟩
  induction ks with
  | nil => exact ⟨[], .nil, rfl⟩
  | cons k ks ih =>
      obtain ⟨q, hlexeme, htoken⟩ := hvalid k List.mem_cons_self
      have hvalid' : ∀ j ∈ ks, j.Valid := fun j hj => hvalid j (List.mem_cons_of_mem k hj)
      have hchain : ks.IsChain Separated ∧ lexer.Stops q (ks.flatMap Token.spell) := by
        cases ks with
        | nil => exact ⟨.nil, lexer.stops_nil q⟩
        | cons j ks =>
            obtain ⟨hjk, hks⟩ := List.isChain_cons_cons.mp hsep
            have hne : j.spell ≠ [] := (hvalid' j List.mem_cons_self).spell_ne_nil
            exact ⟨hks, Dfa.Stops.append (hjk q hlexeme) hne _⟩
      obtain ⟨ts, hlexes, hmap⟩ := ih hvalid' hchain.1
      exact ⟨(k.spell, q) :: ts, .cons hlexeme hchain.2 hlexes, by rw [List.map_cons, htoken, hmap]⟩

/-! ## Neighbours -/

/-- The kind of a token that is not white space. -/
def Token.IsSolid : Token → Prop
  | .space _ => False
  | _ => True

theorem step_isPunct {b : UInt8} (hb : isPunct b = true) (q : State) (hq : q.accept = true) :
    step q b = none := by
  have hcases : b = 40 ∨ b = 41 ∨ b = 44 ∨ b = 59 := by
    simpa [isPunct, or_assoc] using hb
  rcases hcases with rfl | rfl | rfl | rfl <;> cases q <;> first | rfl | cases hq

theorem separated_punct_right {b : UInt8} (hb : isPunct b = true) (j : Token) :
    Separated j (.punct b) :=
  fun q hq => lexer.stops_cons (step_isPunct hb q hq.accept) []

theorem valid_punct {b : UInt8} (hb : isPunct b = true) :
    lexer.IsLexeme ([b], .punct) ∧ (Token.punct b).Valid := by
  have hcases : b = 40 ∨ b = 41 ∨ b = 44 ∨ b = 59 := by
    simpa [isPunct, or_assoc] using hb
  have hstep : lexer.read .start [b] = some .punct := by
    rcases hcases with rfl | rfl | rfl | rfl <;> rfl
  have hlex : lexer.IsLexeme ([b], .punct) := ⟨List.cons_ne_nil b [], hstep, rfl⟩
  exact ⟨hlex, .punct, hlex, rfl⟩

theorem separated_punct_left {b : UInt8} (hb : isPunct b = true) (k : Token) :
    Separated (.punct b) k := by
  intro q hq
  obtain rfl := Option.some.inj (hq.read.symm.trans (valid_punct hb).1.read)
  intro a _
  rfl

/-- The space between two tokens. -/
def blank : Token := .space [32]

theorem valid_blank : blank.Valid := ⟨.space, ⟨List.cons_ne_nil _ _, rfl, rfl⟩, rfl⟩

theorem separated_blank_right {j : Token} (hj : j.Valid) (hsolid : j.IsSolid) :
    Separated j blank := by
  intro q hq
  refine lexer.stops_cons ?_ []
  have htoken := hj.tokenOf_eq hq
  have hacc := hq.accept
  cases q with
  | space => exact absurd hsolid (htoken ▸ id)
  | _ => first | rfl | cases hacc

theorem read_space {s : Bytes} {q : State} (h : lexer.read .space s = some q) : q = .space := by
  induction s with
  | nil => exact (Option.some.inj h).symm
  | cons b s ih =>
      simp only [Dfa.read, lexer, step] at h
      split at h
      · cases h
      · next hstep =>
          split at hstep
          · obtain rfl := Option.some.inj hstep
            exact ih h
          · cases hstep

theorem separated_blank_left {k : Token} (hk : k.Valid) (hsolid : k.IsSolid) :
    Separated blank k := by
  intro q hq
  obtain rfl : State.space = q := Option.some.inj hq.read
  obtain ⟨q', hq', htoken⟩ := hk
  cases hs : k.spell with
  | nil => exact lexer.stops_nil _
  | cons b s =>
      refine lexer.stops_cons ?_ s
      show (if isSpace b then some State.space else none) = none
      split
      · next hb =>
          have hread := hq'.read
          rw [hs] at hread
          simp only [Dfa.read, lexer, step, hb, if_true] at hread
          obtain rfl := read_space hread
          exact absurd hsolid (htoken ▸ id)
      · rfl

/-! ## Literals -/

theorem read_escape (c : Bytes) : lexer.read .str (escape c ++ [39]) = some .strEnd := by
  induction c with
  | nil => rfl
  | cons b c ih =>
      rw [show b :: c = [b] ++ c from rfl, escape_append, List.append_assoc, Dfa.read_append]
      have hb : lexer.read .str (escape [b]) = some .str := by
        by_cases h : b = 39
        · rw [h]
          rfl
        · rw [escape_singleton h, Dfa.read_singleton]
          exact if_neg h
      rw [hb]
      exact ih

/-- Every content has a string literal. -/
theorem valid_str (content : Bytes) : (Token.str content).Valid := by
  refine ⟨.strEnd, ⟨List.cons_ne_nil _ _, read_escape content, rfl⟩, ?_⟩
  show Token.str (unescape (escape content ++ [39]).dropLast) = .str content
  rw [List.dropLast_concat, unescape_escape]

theorem valid_num_iff {s : Bytes} : (Token.num s).Valid ↔ IsNumeric s := by
  constructor
  · rintro ⟨q, hq, htoken⟩
    refine ⟨q, ?_, hq.read⟩
    cases q <;> first | decide | cases htoken
  · rintro ⟨q, hq, hread⟩
    have hne : s ≠ [] := by
      rintro rfl
      obtain rfl := Option.some.inj hread
      exact absurd hq (by decide)
    refine ⟨q, ⟨hne, hread, ?_⟩, ?_⟩
    all_goals
      simp only [List.mem_cons, List.not_mem_nil, or_false] at hq
      rcases hq with rfl | rfl | rfl | rfl | rfl <;> rfl

/-- A word. -/
def IsWord (s : Bytes) : Prop := ∃ q ∈ [State.wordX, .word], lexer.read .start s = some q

instance (s : Bytes) : Decidable (IsWord s) := inferInstanceAs (Decidable (∃ q ∈ _, _))

theorem valid_word {s : Bytes} (h : IsWord s) : (Token.word s).Valid := by
  obtain ⟨q, hq, hread⟩ := h
  have hne : s ≠ [] := by
    rintro rfl
    obtain rfl := Option.some.inj hread
    exact absurd hq (by decide)
  refine ⟨q, ⟨hne, hread, ?_⟩, ?_⟩
  all_goals
    simp only [List.mem_cons, List.not_mem_nil, or_false] at hq
    rcases hq with rfl | rfl <;> rfl

theorem step_digit {b : UInt8} (hb : isDigit b = true) :
    (step .start b = some .zero ∨ step .start b = some .int) ∧ step .zero b = some .int ∧
      step .int b = some .int := by
  obtain ⟨hlo, hhi⟩ := isDigit_iff.mp hb
  have hdigit : b = digit (b.toNat - 48) := by
    apply UInt8.toNat_inj.mp
    rw [digit_toNat (by omega)]
    omega
  have hall : ∀ d < 10, (step .start (digit d) = some .zero ∨ step .start (digit d) = some .int) ∧
      step .zero (digit d) = some .int ∧ step .int (digit d) = some .int := by decide
  rw [hdigit]
  exact hall _ (by omega)

theorem read_int {t : Bytes} (h : ∀ b ∈ t, isDigit b = true) :
    lexer.read .int t = some .int := by
  induction t with
  | nil => rfl
  | cons b t ih =>
      have hb : lexer.step .int b = some .int := (step_digit (h b List.mem_cons_self)).2.2
      rw [Dfa.read, hb]
      exact ih fun c hc => h c (List.mem_cons_of_mem b hc)

/-- A run of digits is a numeric literal. -/
theorem isNumeric_of_digits {s : Bytes} (hne : s ≠ []) (h : ∀ b ∈ s, isDigit b = true) :
    IsNumeric s := by
  cases s with
  | nil => exact absurd rfl hne
  | cons b t =>
      have ht : ∀ c ∈ t, isDigit c = true := fun c hc => h c (List.mem_cons_of_mem b hc)
      obtain ⟨hstart, -, -⟩ := step_digit (h b List.mem_cons_self)
      rcases hstart with hzero | hint
      · have hzero : lexer.step .start b = some .zero := hzero
        cases t with
        | nil => exact ⟨.zero, by decide, by rw [Dfa.read_singleton, hzero]⟩
        | cons c t =>
            have hc : lexer.step .zero c = some .int := (step_digit (ht c List.mem_cons_self)).2.1
            refine ⟨.int, by decide, ?_⟩
            rw [Dfa.read, hzero]
            show lexer.read .zero (c :: t) = some .int
            rw [Dfa.read, hc]
            exact read_int fun d hd => ht d (List.mem_cons_of_mem c hd)
      · have hint : lexer.step .start b = some .int := hint
        refine ⟨.int, by decide, ?_⟩
        rw [Dfa.read, hint]
        exact read_int ht

/-! ## INSERT statements -/

/-- Tokens between commas. -/
def commaSep : List Token → List Token
  | [] => []
  | [k] => [k]
  | k :: j :: ks => k :: .punct 44 :: blank :: commaSep (j :: ks)

theorem mem_commaSep {k : Token} : ∀ {js : List Token}, k ∈ commaSep js →
    k ∈ js ∨ k = .punct 44 ∨ k = blank
  | [], h => by cases h
  | [_], h => .inl h
  | j :: i :: js, h => by
      rcases List.mem_cons.mp h with rfl | h
      · exact .inl List.mem_cons_self
      · rcases List.mem_cons.mp h with rfl | h
        · exact .inr (.inl rfl)
        · rcases List.mem_cons.mp h with rfl | h
          · exact .inr (.inr rfl)
          · exact (mem_commaSep h).imp_left (List.mem_cons_of_mem j)

theorem mem_commaSep_of_mem {k : Token} : ∀ {js : List Token}, k ∈ js → k ∈ commaSep js
  | [_], h => h
  | j :: i :: js, h => by
      rcases List.mem_cons.mp h with rfl | h
      · exact List.mem_cons_self
      · exact List.mem_cons_of_mem _ (List.mem_cons_of_mem _ (List.mem_cons_of_mem _
          (mem_commaSep_of_mem h)))

/-- `INSERT INTO table (columns) VALUES(values);` -/
structure Insert where
  table : Bytes
  columns : List Bytes
  values : List Token
deriving DecidableEq

/-- The statement without its semicolon, which SQLite runs as well. -/
def Insert.unterminated (i : Insert) : List Token :=
  .word (ascii "INSERT") :: blank :: .word (ascii "INTO") :: blank :: .word i.table :: blank ::
    .punct 40 :: (commaSep (i.columns.map .word) ++
      .punct 41 :: blank :: .word (ascii "VALUES") :: .punct 40 ::
        (commaSep i.values ++ [.punct 41]))

def Insert.tokens (i : Insert) : List Token := i.unterminated ++ [.punct 59]

/-- A text is the statement, with its semicolon or without. -/
def Insert.Reads (i : Insert) (text : Bytes) : Prop :=
  tokenize text = some i.tokens ∨ tokenize text = some i.unterminated

theorem Insert.mem_unterminated (i : Insert) {v : Token} (h : v ∈ i.values) :
    v ∈ i.unterminated := by
  have hsep := mem_commaSep_of_mem h
  simp only [Insert.unterminated, List.mem_cons, List.mem_append]
  tauto

/-- The text of a statement. -/
def Insert.text (i : Insert) : Bytes := i.tokens.flatMap Token.spell

theorem Insert.text_eq (i : Insert) :
    i.text = i.unterminated.flatMap Token.spell ++ [59] := by
  rw [Insert.text, Insert.tokens, List.flatMap_append, List.flatMap_singleton, Token.spell]

/-- What a statement is read from, up to the semicolon. -/
theorem Insert.Reads.spelled {i : Insert} {text : Bytes} (h : i.Reads text) :
    (text = i.text ∨ text = i.unterminated.flatMap Token.spell) ∧ ∀ v ∈ i.values, v.Valid := by
  rcases h with h | h
  · obtain ⟨htext, hvalid⟩ := eq_of_tokenize h
    refine ⟨.inl htext, fun v hv => hvalid v ?_⟩
    exact List.mem_append_left _ (i.mem_unterminated hv)
  · obtain ⟨htext, hvalid⟩ := eq_of_tokenize h
    exact ⟨.inr htext, fun v hv => hvalid v (i.mem_unterminated hv)⟩

section Chain

variable {ks : List Token} {b : UInt8}

theorem isChain_punct_cons (hb : isPunct b = true) (h : ks.IsChain Separated) :
    (Token.punct b :: ks).IsChain Separated := by
  cases ks with
  | nil => exact .singleton _
  | cons k ks => exact .cons_cons (separated_punct_left hb k) h

theorem isChain_cons_punct (hb : isPunct b = true) (k : Token)
    (h : (Token.punct b :: ks).IsChain Separated) : (k :: Token.punct b :: ks).IsChain Separated :=
  .cons_cons (separated_punct_right hb k) h

theorem isChain_cons_blank {k : Token} (hk : k.Valid) (hsolid : k.IsSolid)
    (h : (blank :: ks).IsChain Separated) : (k :: blank :: ks).IsChain Separated :=
  .cons_cons (separated_blank_right hk hsolid) h

theorem isChain_blank_cons {k : Token} (hk : k.Valid) (hsolid : k.IsSolid)
    (h : (k :: ks).IsChain Separated) : (blank :: k :: ks).IsChain Separated :=
  .cons_cons (separated_blank_left hk hsolid) h

theorem isChain_commaSep (hb : isPunct b = true)
    (h : (Token.punct b :: ks).IsChain Separated) :
    ∀ {js : List Token}, (∀ j ∈ js, j.Valid ∧ j.IsSolid) →
      (commaSep js ++ Token.punct b :: ks).IsChain Separated
  | [], _ => h
  | [j], _ => isChain_cons_punct hb j h
  | j :: k :: js, hjs => by
      obtain ⟨hk, hsolid⟩ := hjs k (by simp)
      have hrest := isChain_commaSep hb h fun i hi => hjs i (List.mem_cons_of_mem j hi)
      have hblank : (blank :: (commaSep (k :: js) ++ .punct b :: ks)).IsChain Separated := by
        cases js with
        | nil => exact isChain_blank_cons hk hsolid hrest
        | cons i js => exact isChain_blank_cons hk hsolid hrest
      exact isChain_cons_punct rfl j (isChain_punct_cons rfl hblank)

end Chain

theorem valid_commaSep {js : List Token} (h : ∀ j ∈ js, j.Valid) : ∀ k ∈ commaSep js, k.Valid := by
  intro k hk
  rcases mem_commaSep hk with hk | rfl | rfl
  · exact h k hk
  · exact (valid_punct rfl).2
  · exact valid_blank

/-- The tokens of a statement whose names are words and whose values are literals. -/
theorem Insert.tokens_valid {i : Insert} (htable : IsWord i.table)
    (hcolumns : ∀ c ∈ i.columns, IsWord c) (hvalues : ∀ v ∈ i.values, v.Valid ∧ v.IsSolid) :
    (∀ k ∈ i.tokens, k.Valid) ∧ i.tokens.IsChain Separated := by
  have hinsert : (Token.word (ascii "INSERT")).Valid := valid_word (by decide)
  have hinto : (Token.word (ascii "INTO")).Valid := valid_word (by decide)
  have hvaluesWord : (Token.word (ascii "VALUES")).Valid := valid_word (by decide)
  have hcols : ∀ k ∈ i.columns.map Token.word, k.Valid ∧ k.IsSolid := by
    intro k hk
    obtain ⟨c, hc, rfl⟩ := List.mem_map.mp hk
    exact ⟨valid_word (hcolumns c hc), trivial⟩
  have htokens : i.tokens = .word (ascii "INSERT") :: blank :: .word (ascii "INTO") :: blank ::
      .word i.table :: blank :: .punct 40 :: (commaSep (i.columns.map .word) ++
        .punct 41 :: blank :: .word (ascii "VALUES") :: .punct 40 ::
          (commaSep i.values ++ [.punct 41, .punct 59])) := by
    simp only [Insert.tokens, Insert.unterminated, List.cons_append, List.append_assoc,
      List.nil_append]
  rw [htokens]
  constructor
  · simp only [List.forall_mem_cons, List.forall_mem_append]
    exact ⟨hinsert, valid_blank, hinto, valid_blank, valid_word htable, valid_blank,
      (valid_punct rfl).2, valid_commaSep fun k hk => (hcols k hk).1, (valid_punct rfl).2,
      valid_blank, hvaluesWord, (valid_punct rfl).2, valid_commaSep fun k hk => (hvalues k hk).1,
      (valid_punct rfl).2, (valid_punct rfl).2, List.forall_mem_nil _⟩
  · have hend : [Token.punct 41, .punct 59].IsChain Separated :=
      isChain_punct_cons rfl (.singleton _)
    have hvals := isChain_commaSep rfl hend hvalues
    have hword : (blank :: .word (ascii "VALUES") :: .punct 40 ::
        (commaSep i.values ++ [Token.punct 41, .punct 59])).IsChain Separated :=
      isChain_blank_cons hvaluesWord trivial (isChain_cons_punct rfl _ (isChain_punct_cons rfl hvals))
    have hmid := isChain_punct_cons (b := 40) rfl
      (isChain_commaSep (b := 41) rfl (isChain_punct_cons rfl hword) hcols)
    exact isChain_cons_blank hinsert trivial (isChain_blank_cons hinto trivial
      (isChain_cons_blank hinto trivial (isChain_blank_cons (valid_word htable) trivial
        (isChain_cons_blank (valid_word htable) trivial
          (.cons_cons (separated_punct_right rfl _) hmid)))))

section ReadBack

variable {i : Insert} (htable : IsWord i.table) (hcolumns : ∀ c ∈ i.columns, IsWord c)
  (hvalues : ∀ v ∈ i.values, v.Valid ∧ v.IsSolid)

include htable hcolumns hvalues

/-- Such a statement is read back. -/
theorem Insert.reads_text : i.Reads i.text := by
  obtain ⟨hvalid, hchain⟩ := Insert.tokens_valid htable hcolumns hvalues
  exact .inl (tokenize_spell hvalid hchain)

/-- The semicolon may be missing. -/
theorem Insert.reads_unterminated : i.Reads (i.unterminated.flatMap Token.spell) := by
  obtain ⟨hvalid, hchain⟩ := Insert.tokens_valid htable hcolumns hvalues
  exact .inr (tokenize_spell (fun k hk => hvalid k (List.mem_append_left _ hk))
    hchain.left_of_append)

end ReadBack

end Sql

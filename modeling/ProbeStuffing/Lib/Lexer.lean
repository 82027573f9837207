import Mathlib.Data.List.Basic

/-!
# Longest-match lexers

A deterministic automaton cuts a text into lexemes: it reads as far as it has
steps, takes what it has read when the state it stops in accepts, and starts
again.  `lex` computes this, and `Lexes` says what it computes without a fuel:
each lexeme is accepted, and the state behind it has no step on the symbol that
follows (`lex_eq_some_iff`).

A lexeme comes with the state it ends in, so that an automaton with a state for
each class of token also classifies.
-/

namespace Lexer

variable {α σ : Type}

/-- A deterministic automaton in which steps may be missing. -/
structure Dfa (α σ : Type) where
  start : σ
  step : σ → α → Option σ
  accept : σ → Bool

namespace Dfa

variable (M : Dfa α σ)

/-- The state behind a word. -/
def read (q : σ) : List α → Option σ
  | [] => some q
  | a :: s =>
      match M.step q a with
      | none => none
      | some q' => read q' s

/-- The longest prefix that can be read, the state behind it, and the rest. -/
def munch (q : σ) : List α → List α × σ × List α
  | [] => ([], q, [])
  | a :: s =>
      match M.step q a with
      | none => ([], q, a :: s)
      | some q' => (a :: (munch q' s).1, (munch q' s).2)

/-- The lexemes of a text, when the fuel is at least its length. -/
def lexAux : Nat → List α → Option (List (List α × σ))
  | _, [] => some []
  | 0, _ :: _ => none
  | fuel + 1, a :: s =>
      let m := M.munch M.start (a :: s)
      if m.1.length = 0 ∨ M.accept m.2.1 = false then none
      else (lexAux fuel m.2.2).map ((m.1, m.2.1) :: ·)

/-- The lexemes of a text. -/
def lex (s : List α) : Option (List (List α × σ)) := M.lexAux s.length s

/-! ## Reading -/

theorem read_append (q : σ) (s t : List α) :
    M.read q (s ++ t) = (M.read q s).bind fun q' => M.read q' t := by
  induction s generalizing q with
  | nil => rfl
  | cons a s ih =>
      rw [List.cons_append, read, read]
      cases M.step q a with
      | none => rfl
      | some q' => exact ih q'

theorem read_singleton (q : σ) (a : α) : M.read q [a] = M.step q a := by
  rw [read]
  cases M.step q a <;> rfl

/-- There is no step on the first symbol of a text. -/
def Stops (q : σ) (s : List α) : Prop := ∀ a ∈ s.head?, M.step q a = none

theorem stops_nil (q : σ) : M.Stops q [] := by
  intro a ha
  cases ha

theorem stops_cons {q : σ} {a : α} (h : M.step q a = none) (s : List α) :
    M.Stops q (a :: s) := by
  intro b hb
  obtain rfl := Option.some.inj hb
  exact h

theorem Stops.append {M : Dfa α σ} {q : σ} {s : List α} (h : M.Stops q s) (hne : s ≠ [])
    (t : List α) : M.Stops q (s ++ t) := by
  cases s with
  | nil => exact absurd rfl hne
  | cons a s => exact h

theorem munch_spec (q : σ) (s : List α) :
    s = (M.munch q s).1 ++ (M.munch q s).2.2 ∧
      M.read q (M.munch q s).1 = some (M.munch q s).2.1 ∧
      M.Stops (M.munch q s).2.1 (M.munch q s).2.2 := by
  induction s generalizing q with
  | nil => exact ⟨rfl, rfl, M.stops_nil q⟩
  | cons a s ih =>
      rw [munch]
      cases hs : M.step q a with
      | none => exact ⟨rfl, rfl, M.stops_cons hs s⟩
      | some q' =>
          obtain ⟨hsplit, hread, hstop⟩ := ih q'
          refine ⟨congrArg (a :: ·) hsplit, ?_, hstop⟩
          simp only [read, hs]
          exact hread

/-- A word that is read and behind which the automaton stops is what `munch` takes. -/
theorem munch_append {q q' : σ} {l s : List α} (hread : M.read q l = some q')
    (hstop : M.Stops q' s) : M.munch q (l ++ s) = (l, q', s) := by
  induction l generalizing q with
  | nil =>
      obtain rfl := Option.some.inj hread
      cases s with
      | nil => rfl
      | cons a s =>
          have hnone : M.step q a = none := hstop a rfl
          rw [List.nil_append, munch, hnone]
  | cons a l ih =>
      rw [read] at hread
      rw [List.cons_append, munch]
      cases hs : M.step q a with
      | none => rw [hs] at hread; cases hread
      | some q'' =>
          rw [hs] at hread
          simp only [ih hread]

/-! ## Lexing -/

/-- A non-empty word that the automaton accepts in the state that comes with it. -/
structure IsLexeme (t : List α × σ) : Prop where
  ne_nil : t.1 ≠ []
  read : M.read M.start t.1 = some t.2
  accept : M.accept t.2 = true

/-- The lexemes of a text, each as long as possible. -/
inductive Lexes : List α → List (List α × σ) → Prop where
  | nil : Lexes [] []
  | cons {t : List α × σ} {s : List α} {ts : List (List α × σ)} :
      M.IsLexeme t → M.Stops t.2 s → Lexes s ts → Lexes (t.1 ++ s) (t :: ts)

variable {M}

/-- The lexemes put together are the text. -/
theorem Lexes.flatten {s : List α} {ts : List (List α × σ)} (h : M.Lexes s ts) :
    s = (ts.map Prod.fst).flatten := by
  induction h with
  | nil => rfl
  | cons _ _ _ ih => rw [List.map_cons, List.flatten_cons, ← ih]

theorem Lexes.isLexeme {s : List α} {ts : List (List α × σ)} (h : M.Lexes s ts) :
    ∀ t ∈ ts, M.IsLexeme t := by
  induction h with
  | nil => intro t ht; cases ht
  | cons ht _ _ ih =>
      intro t hm
      rcases List.mem_cons.mp hm with rfl | hm
      · exact ht
      · exact ih t hm

theorem Lexes.of_eq {text s : List α} {t : List α × σ} {ts : List (List α × σ)}
    (h : text = t.1 ++ s) (ht : M.IsLexeme t) (hstop : M.Stops t.2 s) (hs : M.Lexes s ts) :
    M.Lexes text (t :: ts) := by
  rw [h]
  exact .cons ht hstop hs

theorem lexes_of_lexAux : ∀ (fuel : Nat) (s : List α) {ts : List (List α × σ)},
    M.lexAux fuel s = some ts → M.Lexes s ts
  | 0, [], _, h => Option.some.inj h ▸ .nil
  | _ + 1, [], _, h => Option.some.inj h ▸ .nil
  | 0, _ :: _, _, h => by cases h
  | fuel + 1, a :: s, ts, h => by
      obtain ⟨hsplit, hread, hstop⟩ := M.munch_spec M.start (a :: s)
      simp only [lexAux] at h
      split at h
      · cases h
      · next hok =>
          obtain ⟨hlen, hacc⟩ := not_or.mp hok
          obtain ⟨ts', hrest, rfl⟩ := Option.map_eq_some_iff.mp h
          have hlexeme : M.IsLexeme ((M.munch M.start (a :: s)).1, (M.munch M.start (a :: s)).2.1) :=
            ⟨fun hnil => hlen (congrArg List.length hnil), hread, by simpa using hacc⟩
          exact .of_eq hsplit hlexeme hstop (lexes_of_lexAux fuel _ hrest)

theorem lexAux_of_lexes {s : List α} {ts : List (List α × σ)} (h : M.Lexes s ts) :
    ∀ fuel, s.length ≤ fuel → M.lexAux fuel s = some ts := by
  induction h with
  | nil => intro fuel _; cases fuel <;> rfl
  | @cons t s ts ht hstop _ ih =>
      obtain ⟨lexeme, q⟩ := t
      intro fuel hfuel
      cases lexeme with
      | nil => exact absurd rfl ht.ne_nil
      | cons a l =>
          rw [List.length_append, List.length_cons] at hfuel
          cases fuel with
          | zero => omega
          | succ fuel =>
              have hmunch := M.munch_append ht.read hstop
              have hacc : M.accept q = true := ht.accept
              rw [List.cons_append] at hmunch
              simp only [List.cons_append, lexAux, hmunch, hacc]
              rw [if_neg (by simp), ih fuel (by omega)]
              rfl

theorem lex_eq_some_iff {s : List α} {ts : List (List α × σ)} :
    M.lex s = some ts ↔ M.Lexes s ts :=
  ⟨lexes_of_lexAux _ s, fun h => lexAux_of_lexes h _ (Nat.le_refl _)⟩

end Dfa

end Lexer

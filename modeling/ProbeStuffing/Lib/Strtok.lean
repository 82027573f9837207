import ProbeStuffing.Lib.CString

/-!
# Splitting a string by `strtok`

`strtok` with one delimiter skips delimiters, returns the bytes up to the next
one, and goes on behind it.  Calling it until it returns NULL gives the pieces
between the delimiters, less the empty ones (`tokens_eq`): a string has no empty
token, and two delimiters in a row are one.  Strings that are neither empty nor
contain the delimiter come back when they are joined and split again
(`tokens_intercalate`).
-/

namespace CString

/-- `strtok`: the token, and the string the next call goes on with. -/
def strtok (delim : UInt8) (s : Bytes) : Option (Bytes × Bytes) :=
  match s.dropWhile (· == delim) with
  | [] => none
  | b :: t => some (b :: t.takeWhile (· != delim), (t.dropWhile (· != delim)).tail)

/-- The tokens of repeated calls, when the fuel exceeds the length. -/
def tokensAux (delim : UInt8) : Nat → Bytes → List Bytes
  | 0, _ => []
  | fuel + 1, s =>
      match strtok delim s with
      | none => []
      | some (token, rest) => token :: tokensAux delim fuel rest

/-- All tokens of a string. -/
def tokens (delim : UInt8) (s : Bytes) : List Bytes := tokensAux delim (s.length + 1) s

/-! ## Tokens and pieces -/

/-- The pieces between the delimiters that are not empty. -/
def pieces (delim : UInt8) (s : Bytes) : List Bytes := (s.splitOn delim).filter (· ≠ [])

theorem pieces_append_cons (delim : UInt8) (s t : Bytes) :
    pieces delim (s ++ delim :: t) = pieces delim s ++ pieces delim t := by
  rw [pieces, List.splitOn_append_cons_self, List.filter_append]
  rfl

theorem pieces_nil (delim : UInt8) : pieces delim [] = [] := rfl

theorem pieces_of_notMem {delim : UInt8} {s : Bytes} (hne : s ≠ []) (h : delim ∉ s) :
    pieces delim s = [s] := by
  rw [pieces, List.splitOn_eq_singleton h]
  simp [hne]

/-- Leading delimiters make no piece. -/
theorem pieces_dropWhile (delim : UInt8) :
    ∀ s : Bytes, pieces delim (s.dropWhile (· == delim)) = pieces delim s
  | [] => rfl
  | b :: s => by
      rw [List.dropWhile_cons]
      split
      · next h =>
          rw [pieces_dropWhile delim s, beq_iff_eq.mp h]
          exact (pieces_append_cons delim [] s).symm
      · rfl

/-- One call takes the first piece. -/
theorem pieces_strtok {delim : UInt8} {s token rest : Bytes}
    (h : strtok delim s = some (token, rest)) :
    pieces delim s = token :: pieces delim rest ∧ rest.length < s.length := by
  rw [strtok] at h
  rw [← pieces_dropWhile delim s]
  have hle : (s.dropWhile (· == delim)).length ≤ s.length :=
    (List.dropWhile_suffix _).length_le
  have hfirst := List.head?_dropWhile_not (· == delim) s
  cases hs : s.dropWhile (· == delim) with
  | nil => rw [hs] at h; cases h
  | cons b t =>
      rw [hs] at h hle hfirst
      obtain ⟨rfl, rfl⟩ := Prod.mk.inj (Option.some.inj h)
      have hb : b ≠ delim := by simpa using hfirst
      have htoken : delim ∉ b :: t.takeWhile (· != delim) := by
        intro hm
        rcases List.mem_cons.mp hm with rfl | hm
        · exact hb rfl
        · simpa using List.mem_takeWhile_imp hm
      have hrest : (t.dropWhile (· != delim)).length ≤ t.length :=
        (List.dropWhile_suffix _).length_le
      have hsplit : t.takeWhile (· != delim) ++ t.dropWhile (· != delim) = t :=
        List.takeWhile_append_dropWhile
      have hnext := List.head?_dropWhile_not (· != delim) t
      constructor
      · cases hd : t.dropWhile (· != delim) with
        | nil =>
            rw [hd, List.append_nil] at hsplit
            rw [List.tail_nil, pieces_nil, hsplit]
            rw [hsplit] at htoken
            exact pieces_of_notMem (List.cons_ne_nil b t) htoken
        | cons c u =>
            rw [hd] at hsplit hnext
            obtain rfl : c = delim := by simpa using hnext
            have hbt : b :: t = (b :: t.takeWhile (· != c)) ++ c :: u := by
              rw [List.cons_append, hsplit]
            rw [List.tail_cons, hbt, pieces_append_cons,
              pieces_of_notMem (List.cons_ne_nil _ _) htoken]
            rfl
      · rw [List.length_cons] at hle
        rw [List.length_tail]
        omega

theorem tokensAux_eq (delim : UInt8) :
    ∀ (fuel : Nat) (s : Bytes), s.length < fuel → tokensAux delim fuel s = pieces delim s
  | 0, _, h => absurd h (Nat.not_lt_zero _)
  | fuel + 1, s, h => by
      rw [tokensAux]
      cases hs : strtok delim s with
      | none =>
          rw [strtok] at hs
          cases hd : s.dropWhile (· == delim) with
          | nil => rw [← pieces_dropWhile, hd, pieces_nil]
          | cons b t => rw [hd] at hs; cases hs
      | some p =>
          obtain ⟨hp, hlt⟩ := pieces_strtok hs
          rw [hp]
          simp only
          rw [tokensAux_eq delim fuel p.2 (by omega)]

/-- The tokens of a string are its non-empty pieces. -/
theorem tokens_eq (delim : UInt8) (s : Bytes) : tokens delim s = pieces delim s :=
  tokensAux_eq delim _ s (Nat.lt_succ_self _)

theorem notMem_of_mem_splitOn (delim : UInt8) :
    ∀ (s : Bytes), ∀ t ∈ s.splitOn delim, delim ∉ t
  | [], t, ht => by
      obtain rfl := List.mem_singleton.mp ht
      exact List.not_mem_nil
  | b :: s, t, ht => by
      have hrest := notMem_of_mem_splitOn delim s
      rw [List.splitOn_cons_eq_if_modifyHead] at ht
      split at ht
      · rcases List.mem_cons.mp ht with rfl | ht
        · exact List.not_mem_nil
        · exact hrest t ht
      · next hb =>
          cases hs : s.splitOn delim with
          | nil => exact absurd hs (List.splitOn_ne_nil delim s)
          | cons u us =>
              rw [hs] at ht hrest
              rcases List.mem_cons.mp ht with rfl | ht
              · refine List.not_mem_cons_of_ne_of_not_mem ?_ (hrest u List.mem_cons_self)
                exact fun he => hb (beq_iff_eq.mpr he.symm)
              · exact hrest t (List.mem_cons_of_mem u ht)

/-- No token is empty or has the delimiter. -/
theorem of_mem_tokens {delim : UInt8} {s t : Bytes} (h : t ∈ tokens delim s) :
    t ≠ [] ∧ delim ∉ t := by
  rw [tokens_eq, pieces, List.mem_filter] at h
  exact ⟨by simpa using h.2, notMem_of_mem_splitOn delim s t h.1⟩

/-- Of what was joined the empty pieces are lost. -/
theorem tokens_intercalate_filter {delim : UInt8} {ts : List Bytes} (hne : ts ≠ [])
    (h : ∀ t ∈ ts, delim ∉ t) :
    tokens delim ([delim].intercalate ts) = ts.filter (· ≠ []) := by
  rw [tokens_eq, pieces, List.splitOn_intercalate delim h hne]

/-- Splitting undoes joining. -/
theorem tokens_intercalate {delim : UInt8} {ts : List Bytes} (hne : ts ≠ [])
    (h : ∀ t ∈ ts, t ≠ [] ∧ delim ∉ t) : tokens delim ([delim].intercalate ts) = ts := by
  rw [tokens_intercalate_filter hne fun t ht => (h t ht).2,
    List.filter_eq_self.mpr fun t ht => by simpa using (h t ht).1]

theorem nulFree_intercalate {sep : Bytes} (hsep : NulFree sep) :
    ∀ {ts : List Bytes}, (∀ t ∈ ts, NulFree t) → NulFree (sep.intercalate ts)
  | [], _ => by
      intro b hb
      cases hb
  | [t], h => by
      rw [List.intercalate_singleton]
      exact h t List.mem_cons_self
  | t :: u :: ts, h => by
      rw [List.intercalate_cons_cons]
      have hrest := nulFree_intercalate hsep fun v hv => h v (List.mem_cons_of_mem t hv)
      exact ((h t List.mem_cons_self).append hsep).append hrest

example : tokens 44 (ascii ",a,,bc,") = [ascii "a", ascii "bc"] := by decide

end CString

import Mathlib.Data.List.Basic
import Mathlib.Data.List.Induction
import Mathlib.Data.List.TakeWhile
import Mathlib.Data.Nat.Log
import Mathlib.Tactic.Linarith
import Mathlib.Tactic.Ring

/-!
# C strings and decimal numerals

Byte buffers are lists of bytes.  A C string is what stands before the first
NUL of a buffer, and `strncpy`, `snprintf` and `strcat` are read through the
string they leave behind.

*Numerals.*  `decimal` is `%u`, `fmtInt` is `%d` and `fmtPad w` is `%0wu`.  The
recursion of `decimal` is structural on a fuel that always suffices, so every
numeral computes; `decimal_ge` is the equation the proofs use.

*The image.*  `IsNumeral` says of a string, byte by byte, that `%d` writes it for
some number (`isNumeral_iff`).

*Reading back.*  `atoi` is `(int) strtol(s, NULL, 10)` on a machine with 64-bit
`long` and 32-bit `int`: white space, one sign, the longest run of digits, a
clamp to `long` and a cut to `int`.  It undoes both formats
(`atoi_fmtInt`, `atoi_fmtPad`), and on a string of at most eight bytes neither
the clamp nor the cut is ever reached (`atoi_bounds`).
-/

namespace CString

/-- A buffer or a string, byte by byte. -/
abbrev Bytes := List UInt8

/-! ## Strings in buffers -/

/-- The C string that starts at a buffer. -/
def cstr (buf : Bytes) : Bytes := buf.takeWhile (· != 0)

/-- No byte is the terminator. -/
def NulFree (s : Bytes) : Prop := ∀ b ∈ s, b ≠ 0

instance (s : Bytes) : Decidable (NulFree s) := List.decidableBAll _ s

theorem NulFree.append {s t : Bytes} (hs : NulFree s) (ht : NulFree t) : NulFree (s ++ t) := by
  intro b hb
  rcases List.mem_append.mp hb with h | h
  · exact hs b h
  · exact ht b h

theorem NulFree.sublist {s t : Bytes} (ht : NulFree t) (h : s.Sublist t) : NulFree s :=
  fun b hb => ht b (h.subset hb)

/-- A string without a NUL is the whole string at its buffer. -/
theorem cstr_eq_self {s : Bytes} (h : NulFree s) : cstr s = s := by
  rw [cstr, List.takeWhile_eq_self_iff]
  intro b hb
  simpa using h b hb

/-- What stands behind a terminator is not read. -/
theorem cstr_append_nul (s t : Bytes) : cstr (s ++ 0 :: t) = cstr s := by
  induction s with
  | nil => rfl
  | cons b s ih =>
      simp only [cstr, List.cons_append, List.takeWhile_cons] at ih ⊢
      rw [ih]

theorem NulFree.cstr_append {s : Bytes} (h : NulFree s) (t : Bytes) :
    cstr (s ++ t) = s ++ cstr t :=
  List.takeWhile_append_of_pos fun b hb => by simpa using h b hb

theorem nulFree_cstr (buf : Bytes) : NulFree (cstr buf) := by
  intro b hb
  simpa using List.mem_takeWhile_imp hb

theorem cstr_length_le (buf : Bytes) : (cstr buf).length ≤ buf.length :=
  (List.takeWhile_prefix _).length_le

/-- `snprintf` into a buffer of `size` bytes, the terminator included. -/
def snprintf (size : Nat) (s : Bytes) : Bytes := s.take (size - 1)

/-- The string `strncpy` leaves in a buffer that is terminated behind `n` bytes. -/
def strncpy (src : Bytes) (n : Nat) : Bytes := cstr (src.take n)

/-- The bytes of an ASCII literal. -/
def ascii (s : String) : Bytes := s.toList.map fun c => UInt8.ofNat c.toNat

theorem snprintf_eq_self {size : Nat} {s : Bytes} (h : s.length < size) : snprintf size s = s :=
  List.take_of_length_le (by omega)

/-- What fits comes out whole, and nothing else does. -/
theorem snprintf_eq_self_iff {size : Nat} {s : Bytes} (hsize : 0 < size) :
    snprintf size s = s ↔ s.length < size := by
  constructor
  · intro h
    have hlen := congrArg List.length h
    rw [snprintf, List.length_take] at hlen
    omega
  · exact snprintf_eq_self

theorem strncpy_length_le (src : Bytes) (n : Nat) : (strncpy src n).length ≤ n :=
  (cstr_length_le _).trans (List.length_take_le n src)

/-- Copying the front of a terminated string that is long enough. -/
theorem strncpy_append {s : Bytes} (h : NulFree s) (t : Bytes) : strncpy (s ++ t) s.length = s := by
  rw [strncpy, List.take_left, cstr_eq_self h]

/-- So is copying a terminated string that fits. -/
theorem strncpy_terminated {s : Bytes} (h : NulFree s) (t : Bytes) {n : Nat} (hn : s.length ≤ n) :
    strncpy (s ++ 0 :: t) n = s := by
  rw [strncpy, List.take_append, List.take_of_length_le hn]
  cases n - s.length with
  | zero => rw [List.take_zero, List.append_nil, cstr_eq_self h]
  | succ k =>
      rw [List.take_succ_cons, cstr, List.takeWhile_append_of_pos fun b hb => by simpa using h b hb]
      simp

/-! ## Blocks -/

/-- `calloc(n, 1)`. -/
def calloc (n : Nat) : Bytes := List.replicate n 0

/-- The block `dst` after `strncpy(dst, src, n)`, which pads the string to `n`
bytes and writes no terminator behind them. -/
def strncpyTo (dst src : Bytes) (n : Nat) : Bytes :=
  (cstr src).take n ++ List.replicate (n - (cstr src).length) 0 ++ dst.drop n

/-- In a block of `n` bytes only the string is left, if it is long enough. -/
theorem strncpyTo_calloc {n : Nat} {src : Bytes} (h : n ≤ (cstr src).length) :
    strncpyTo (calloc n) src n = (cstr src).take n := by
  simp [strncpyTo, calloc, Nat.sub_eq_zero_of_le h]

/-! ## Numerals -/

/-- The digit `d`, for `d < 10`. -/
def digit (d : Nat) : UInt8 := UInt8.ofNat (48 + d)

/-- The decimal numeral of `n`, when the fuel exceeds `n`. -/
def decimalAux : Nat → Nat → Bytes
  | 0, _ => []
  | fuel + 1, n =>
      if n < 10 then [digit n] else decimalAux fuel (n / 10) ++ [digit (n % 10)]

/-- `%u`. -/
def decimal (n : Nat) : Bytes := decimalAux (n + 1) n

/-- `%d`. -/
def fmtInt (z : Int) : Bytes :=
  if z < 0 then 45 :: decimal z.natAbs else decimal z.natAbs

/-- `%0wu`: padded with zeros to `w` characters. -/
def fmtPad (w n : Nat) : Bytes := List.replicate (w - (decimal n).length) 48 ++ decimal n

theorem decimalAux_eq : ∀ (f g n : Nat), n < f → n < g → decimalAux f n = decimalAux g n
  | 0, _, _, h, _ => absurd h (Nat.not_lt_zero _)
  | _, 0, _, _, h => absurd h (Nat.not_lt_zero _)
  | f + 1, g + 1, n, hf, hg => by
      by_cases h : n < 10
      · simp [decimalAux, h]
      · simp only [decimalAux, h, if_false]
        rw [decimalAux_eq f g (n / 10) (by omega) (by omega)]

theorem decimal_lt {n : Nat} (h : n < 10) : decimal n = [digit n] := by
  simp [decimal, decimalAux, h]

theorem decimal_ge {n : Nat} (h : 10 ≤ n) : decimal n = decimal (n / 10) ++ [digit (n % 10)] := by
  rw [decimal, decimalAux, if_neg (by omega), decimal,
    decimalAux_eq n (n / 10 + 1) (n / 10) (by omega) (by omega)]

theorem digit_toNat {d : Nat} (h : d < 10) : (digit d).toNat = 48 + d := by
  rw [digit, UInt8.toNat_ofNat']
  omega

/-! ## Digit runs and their values -/

def isDigit (b : UInt8) : Bool := 48 ≤ b && b ≤ 57

def isSpace (b : UInt8) : Bool := b == 32 || (9 ≤ b && b ≤ 13)

/-- A numeral read from the most significant digit on. -/
def digitsVal (s : Bytes) : Nat := s.foldl (fun v b => 10 * v + (b.toNat - 48)) 0

/-- The value of the run of digits a string starts with. -/
def leadingVal (s : Bytes) : Nat := digitsVal (s.takeWhile isDigit)

theorem isDigit_iff {b : UInt8} : isDigit b = true ↔ 48 ≤ b.toNat ∧ b.toNat ≤ 57 := by
  simp [isDigit, UInt8.le_iff_toNat_le]

theorem isDigit_digit {d : Nat} (h : d < 10) : isDigit (digit d) = true := by
  rw [isDigit_iff, digit_toNat h]
  omega

theorem isDigit_of_mem_decimal : ∀ (n : Nat), ∀ b ∈ decimal n, isDigit b = true := by
  intro n
  induction n using Nat.strong_induction_on with
  | _ n ih =>
      intro b hb
      by_cases h : n < 10
      · rw [decimal_lt h, List.mem_singleton] at hb
        exact hb ▸ isDigit_digit h
      · rw [decimal_ge (by omega), List.mem_append, List.mem_singleton] at hb
        rcases hb with hb | hb
        · exact ih (n / 10) (by omega) b hb
        · exact hb ▸ isDigit_digit (Nat.mod_lt n (by omega))

theorem digitsVal_append_singleton (s : Bytes) (b : UInt8) :
    digitsVal (s ++ [b]) = 10 * digitsVal s + (b.toNat - 48) := by
  simp [digitsVal]

theorem digitsVal_decimal (n : Nat) : digitsVal (decimal n) = n := by
  induction n using Nat.strong_induction_on with
  | _ n ih =>
      by_cases h : n < 10
      · rw [decimal_lt h]
        simp [digitsVal, digit_toNat h]
      · rw [decimal_ge (by omega), digitsVal_append_singleton, ih (n / 10) (by omega),
          digit_toNat (Nat.mod_lt n (by omega))]
        omega

/-- Leading zeros do not change the value. -/
theorem digitsVal_replicate_append (k : Nat) (s : Bytes) :
    digitsVal (List.replicate k 48 ++ s) = digitsVal s := by
  induction k with
  | zero => rfl
  | succ k ih => simpa [digitsVal, List.replicate_succ] using ih

theorem digitsVal_fmtPad (w n : Nat) : digitsVal (fmtPad w n) = n := by
  rw [fmtPad, digitsVal_replicate_append, digitsVal_decimal]

theorem digitsVal_lt {s : Bytes} (h : ∀ b ∈ s, isDigit b = true) :
    digitsVal s < 10 ^ s.length := by
  induction s using List.reverseRecOn with
  | nil => simp [digitsVal]
  | append_singleton s b ih =>
      have hs := ih fun c hc => h c (by simp [hc])
      have hb := isDigit_iff.mp (h b (by simp))
      rw [digitsVal_append_singleton, List.length_append, List.length_singleton, pow_succ]
      omega

/-- Numerals of one length have different values. -/
theorem digitsVal_inj {s t : Bytes} (hs : ∀ b ∈ s, isDigit b = true)
    (ht : ∀ b ∈ t, isDigit b = true) (hlen : s.length = t.length)
    (h : digitsVal s = digitsVal t) : s = t := by
  induction s using List.reverseRecOn generalizing t with
  | nil => exact (List.length_eq_zero_iff.mp hlen.symm).symm
  | append_singleton s b ih =>
      cases t using List.reverseRecOn with
      | nil => simp at hlen
      | append_singleton t c =>
          have hb := isDigit_iff.mp (hs b (by simp))
          have hc := isDigit_iff.mp (ht c (by simp))
          rw [digitsVal_append_singleton, digitsVal_append_singleton] at h
          have hbc : b = c := UInt8.toNat_inj.mp (by omega)
          have hlen' : s.length = t.length := by simpa using hlen
          rw [hbc, ih (fun d hd => hs d (by simp [hd])) (fun d hd => ht d (by simp [hd])) hlen'
            (by omega)]

theorem leadingVal_lt (s : Bytes) : leadingVal s < 10 ^ s.length := by
  refine lt_of_lt_of_le (digitsVal_lt fun b hb => List.mem_takeWhile_imp hb) ?_
  exact Nat.pow_le_pow_right (by omega) (List.takeWhile_prefix _).length_le

theorem leadingVal_eq {s : Bytes} (h : ∀ b ∈ s, isDigit b = true) : leadingVal s = digitsVal s := by
  rw [leadingVal, List.takeWhile_eq_self_iff.mpr h]

/-! ## The length of a numeral -/

theorem decimal_length_pos (n : Nat) : 0 < (decimal n).length := by
  by_cases h : n < 10
  · simp [decimal_lt h]
  · simp [decimal_ge (show 10 ≤ n by omega)]

theorem fmtPad_ne_nil (w n : Nat) : fmtPad w n ≠ [] :=
  List.append_ne_nil_of_right_ne_nil _ (List.ne_nil_of_length_pos (decimal_length_pos n))

theorem decimal_length_le {n k : Nat} (hk : 0 < k) (h : n < 10 ^ k) : (decimal n).length ≤ k := by
  induction k generalizing n with
  | zero => omega
  | succ k ih =>
      by_cases hn : n < 10
      · simp [decimal_lt hn]
      · rw [decimal_ge (by omega), List.length_append, List.length_singleton]
        have hk' : 0 < k := by
          rcases Nat.eq_zero_or_pos k with rfl | hk'
          · simp at h; omega
          · exact hk'
        have := ih hk' (n := n / 10) (by rw [pow_succ] at h; omega)
        omega

/-- A numeral is as long as its number is large. -/
theorem decimal_length_le_iff {n k : Nat} (hk : 0 < k) : (decimal n).length ≤ k ↔ n < 10 ^ k := by
  constructor
  · intro h
    have hlt := digitsVal_lt (isDigit_of_mem_decimal n)
    rw [digitsVal_decimal] at hlt
    exact lt_of_lt_of_le hlt (Nat.pow_le_pow_right (by omega) h)
  · exact decimal_length_le hk

theorem fmtPad_length_le_iff {w n k : Nat} (hk : 0 < k) (hw : w ≤ k) :
    (fmtPad w n).length ≤ k ↔ n < 10 ^ k := by
  rw [← decimal_length_le_iff hk, fmtPad, List.length_append, List.length_replicate]
  omega

theorem le_fmtPad_length (w n : Nat) : w ≤ (fmtPad w n).length := by
  rw [fmtPad, List.length_append, List.length_replicate]
  omega

theorem fmtPad_length {w n : Nat} (hw : 0 < w) (h : n < 10 ^ w) : (fmtPad w n).length = w := by
  have := decimal_length_le hw h
  simp [fmtPad]
  omega

theorem isDigit_of_mem_fmtPad {w n : Nat} : ∀ b ∈ fmtPad w n, isDigit b = true := by
  intro b hb
  rcases List.mem_append.mp hb with h | h
  · rw [List.eq_of_mem_replicate h]; decide
  · exact isDigit_of_mem_decimal n b h

/-- Digits are not NUL, so a numeral is a C string. -/
theorem nulFree_of_isDigit {s : Bytes} (h : ∀ b ∈ s, isDigit b = true) : NulFree s := by
  intro b hb hz
  have := h b hb
  rw [hz] at this
  exact absurd this (by decide)

theorem nulFree_decimal (n : Nat) : NulFree (decimal n) :=
  nulFree_of_isDigit (isDigit_of_mem_decimal n)

theorem nulFree_fmtInt (z : Int) : NulFree (fmtInt z) := by
  unfold fmtInt
  split
  · exact List.forall_mem_cons.mpr ⟨by decide, nulFree_decimal _⟩
  · exact nulFree_decimal _

/-- A value between `-10^(k-1)` and `10^k` prints in at most `k` characters. -/
theorem fmtInt_length_le {z : Int} {k : Nat} (hk : 1 < k) (hlo : -(10 ^ (k - 1) : Nat) < z)
    (hhi : z < (10 ^ k : Nat)) : (fmtInt z).length ≤ k := by
  unfold fmtInt
  split
  · have h : z.natAbs < 10 ^ (k - 1) := by omega
    have := decimal_length_le (by omega) h
    simp only [List.length_cons]
    omega
  · exact decimal_length_le (by omega) (by omega)

theorem fmtInt_length_pos (z : Int) : 0 < (fmtInt z).length := by
  unfold fmtInt
  split
  · simp
  · exact decimal_length_pos _

theorem fmtInt_length_le_iff {z : Int} {k : Nat} (hk : 1 < k) :
    (fmtInt z).length ≤ k ↔ -(10 ^ (k - 1) : Nat) < z ∧ z < (10 ^ k : Nat) := by
  have hlo : 0 < 10 ^ (k - 1) := Nat.pow_pos (by decide)
  have hhi : 0 < 10 ^ k := Nat.pow_pos (by decide)
  constructor
  · intro h
    unfold fmtInt at h
    split at h
    · next hneg =>
        rw [List.length_cons] at h
        have hlt := (decimal_length_le_iff (by omega)).mp (Nat.le_sub_one_of_lt h)
        omega
    · have hlt := (decimal_length_le_iff (by omega)).mp h
      omega
  · exact fun h => fmtInt_length_le hk h.1 h.2

/-! ## Lengths of numerals -/

/-- Each division by ten takes one digit off. -/
theorem decimal_length (n : Nat) : (decimal n).length = Nat.log 10 n + 1 := by
  rcases Nat.lt_or_ge n 10 with h | h
  · rw [decimal_lt h, Nat.log_of_lt h]
    rfl
  · rw [decimal_ge h, List.length_append, decimal_length (n / 10),
      Nat.log_of_one_lt_of_le (by decide) h]
    rfl

theorem fmtInt_length (z : Int) :
    (fmtInt z).length = (if z < 0 then 1 else 0) + (Nat.log 10 z.natAbs + 1) := by
  rw [fmtInt, ← decimal_length]
  split
  · rw [List.length_cons, Nat.add_comm]
  · rw [Nat.zero_add]

theorem fmtPad_length_eq (w n : Nat) : (fmtPad w n).length = max w (Nat.log 10 n + 1) := by
  rw [fmtPad, List.length_append, List.length_replicate, ← decimal_length]
  omega

/-! ## The image of the formats -/

/-- A non-empty run of digits that starts with a zero only if it is the zero. -/
structure IsDecimal (s : Bytes) : Prop where
  ne_nil : s ≠ []
  digits : ∀ b ∈ s, isDigit b = true
  zero : s.head? = some 48 → s = [48]

/-- Such a run, or a minus sign and such a run that is not the zero. -/
def IsNumeral (s : Bytes) : Prop := IsDecimal s ∨ ∃ t, s = 45 :: t ∧ IsDecimal t ∧ t ≠ [48]

theorem digit_of_isDigit {b : UInt8} (h : isDigit b = true) : digit (b.toNat - 48) = b := by
  have hb := isDigit_iff.mp h
  refine UInt8.toNat_inj.mp ?_
  rw [digit_toNat (by omega)]
  omega

theorem decimal_eq_zero {n : Nat} (h : decimal n = [48]) : n = 0 := by
  rw [← digitsVal_decimal n, h]
  rfl

theorem isDecimal_decimal (n : Nat) : IsDecimal (decimal n) := by
  induction n using Nat.strong_induction_on with
  | _ n ih =>
      refine ⟨List.ne_nil_of_length_pos (decimal_length_pos n), isDigit_of_mem_decimal n, ?_⟩
      rcases Nat.lt_or_ge n 10 with h | h
      · rw [decimal_lt h]
        exact fun hz => congrArg (fun b => [b]) (Option.some.inj hz)
      · have hne := (ih (n / 10) (by omega)).ne_nil
        rw [decimal_ge h, List.head?_append_of_ne_nil _ hne]
        intro hz
        have hzero := decimal_eq_zero ((ih (n / 10) (by omega)).zero hz)
        omega

/-- It is the numeral of its value. -/
theorem IsDecimal.eq_decimal {s : Bytes} (h : IsDecimal s) : s = decimal (digitsVal s) := by
  induction s using List.reverseRecOn with
  | nil => exact absurd rfl h.ne_nil
  | append_singleton s b ih =>
      have hb : isDigit b = true := h.digits b (by simp)
      have hlast := isDigit_iff.mp hb
      rw [digitsVal_append_singleton]
      rcases Decidable.em (s = []) with rfl | hne
      · rw [show digitsVal [] = 0 from rfl, decimal_lt (by omega), Nat.mul_zero, Nat.zero_add,
          digit_of_isDigit hb]
        rfl
      · have hhead : s.head? ≠ some 48 := fun hz => by
          have hzero := h.zero (by rwa [List.head?_append_of_ne_nil _ hne])
          have hlen := congrArg List.length hzero
          simp [hne] at hlen
        have hs : IsDecimal s :=
          ⟨hne, fun c hc => h.digits c (by simp [hc]), fun hz => absurd hz hhead⟩
        have hpos : digitsVal s ≠ 0 := fun hz => by
          have hdec := ih hs
          rw [hz] at hdec
          exact hhead (by rw [hdec]; rfl)
        have hdiv : (10 * digitsVal s + (b.toNat - 48)) / 10 = digitsVal s := by omega
        have hmod : (10 * digitsVal s + (b.toNat - 48)) % 10 = b.toNat - 48 := by omega
        rw [decimal_ge (by omega), hdiv, hmod, ← ih hs, digit_of_isDigit hb]

theorem isDecimal_iff {s : Bytes} : IsDecimal s ↔ ∃ n, s = decimal n := by
  constructor
  · exact fun h => ⟨_, h.eq_decimal⟩
  · rintro ⟨n, rfl⟩
    exact isDecimal_decimal n

/-- These are the strings `%d` writes. -/
theorem isNumeral_iff {s : Bytes} : IsNumeral s ↔ ∃ z, s = fmtInt z := by
  constructor
  · rintro (h | ⟨t, rfl, h, hne⟩)
    · obtain ⟨n, rfl⟩ := isDecimal_iff.mp h
      exact ⟨n, (if_neg (by omega)).symm⟩
    · obtain ⟨n, rfl⟩ := isDecimal_iff.mp h
      have hn : n ≠ 0 := by
        rintro rfl
        exact hne rfl
      refine ⟨-n, ?_⟩
      rw [fmtInt, if_pos (by omega), Int.natAbs_neg, Int.natAbs_natCast]
  · rintro ⟨z, rfl⟩
    rw [fmtInt]
    split
    · refine .inr ⟨_, rfl, isDecimal_decimal _, fun hz => ?_⟩
      have hzero := decimal_eq_zero hz
      omega
    · exact .inl (isDecimal_decimal _)

/-! ## `atoi` -/

/-- `strtol(s, NULL, 10)` with a 64-bit `long`. -/
def strtol (s : Bytes) : Int :=
  match s.dropWhile isSpace with
  | [] => 0
  | b :: t =>
      if b = 45 then max (-(2 ^ 63)) (-(leadingVal t : Int))
      else if b = 43 then min (2 ^ 63 - 1) (leadingVal t : Int)
      else min (2 ^ 63 - 1) (leadingVal (b :: t) : Int)

/-- `atoi(s)`: the `long` cut to 32 bits. -/
def atoi (s : Bytes) : Int := (strtol s).bmod (2 ^ 32)

theorem bmod_eq_self {z : Int} (hlo : -(2 ^ 31) ≤ z) (hhi : z < 2 ^ 31) : z.bmod (2 ^ 32) = z :=
  Int.bmod_eq_of_le (by omega) (by omega)

/-- A digit is neither white space nor a sign. -/
theorem strtol_of_digits {s : Bytes} (h : ∀ b ∈ s, isDigit b = true) (hv : digitsVal s < 2 ^ 31) :
    strtol s = digitsVal s := by
  cases s with
  | nil => rfl
  | cons b t =>
      have hb := isDigit_iff.mp (h b (by simp))
      have hsp : isSpace b = false := by
        simp only [isSpace, UInt8.le_iff_toNat_le, Bool.or_eq_false_iff, beq_eq_false_iff_ne,
          Bool.and_eq_false_iff, decide_eq_false_iff_not, ne_eq, UInt8.ext_iff]
        constructor
        · change ¬ b.toNat = 32; omega
        · right; change ¬ b.toNat ≤ 13; omega
      have h45 : b ≠ 45 := by
        rintro rfl; exact absurd hb.1 (by decide)
      have h43 : b ≠ 43 := by
        rintro rfl; exact absurd hb.1 (by decide)
      rw [strtol, List.dropWhile_cons_of_neg (by simp [hsp])]
      simp only [h45, h43, if_false]
      rw [leadingVal_eq h]
      omega

theorem atoi_of_digits {s : Bytes} (h : ∀ b ∈ s, isDigit b = true) (hv : digitsVal s < 2 ^ 31) :
    atoi s = digitsVal s := by
  rw [atoi, strtol_of_digits h hv, bmod_eq_self (by omega) (by omega)]

theorem atoi_decimal {n : Nat} (h : n < 2 ^ 31) : atoi (decimal n) = n := by
  rw [atoi_of_digits (isDigit_of_mem_decimal n) (by rwa [digitsVal_decimal]), digitsVal_decimal]

/-- Zero padding is read back. -/
theorem atoi_fmtPad {w n : Nat} (h : n < 2 ^ 31) : atoi (fmtPad w n) = n := by
  have hv : digitsVal (fmtPad w n) = n := digitsVal_fmtPad w n
  rw [atoi_of_digits isDigit_of_mem_fmtPad (by rwa [hv]), hv]

/-- `%d` is read back, for every `int`. -/
theorem atoi_fmtInt {z : Int} (hlo : -(2 ^ 31) ≤ z) (hhi : z < 2 ^ 31) : atoi (fmtInt z) = z := by
  unfold fmtInt
  split
  · next hneg =>
      have hz : leadingVal (decimal z.natAbs) = z.natAbs := by
        rw [leadingVal_eq (isDigit_of_mem_decimal _), digitsVal_decimal]
      have hs : strtol (45 :: decimal z.natAbs) = z := by
        rw [strtol, List.dropWhile_cons_of_neg (by decide)]
        simp only [if_true, hz]
        omega
      rw [atoi, hs, bmod_eq_self hlo hhi]
  · rw [atoi_decimal (by omega)]
    omega

/-- In particular for every number that prints in few characters. -/
theorem atoi_fmtInt_of_length_le {z : Int} (h : (fmtInt z).length ≤ 9) : atoi (fmtInt z) = z := by
  obtain ⟨hlo, hhi⟩ := (fmtInt_length_le_iff (by omega)).mp h
  exact atoi_fmtInt (by norm_num at hlo ⊢; omega) (by norm_num at hhi ⊢; omega)

/-- A string of at most `k ≤ 9` bytes has room for `k` digits, or for a sign and `k - 1`. -/
theorem strtol_bounds {s : Bytes} {k : Nat} (hk : 0 < k) (hk9 : k ≤ 9) (h : s.length ≤ k) :
    -(10 ^ (k - 1) : Nat) < strtol s ∧ strtol s < (10 ^ k : Nat) := by
  have hpos : 0 < 10 ^ (k - 1) := Nat.pow_pos (by omega)
  have hpow : 10 ^ k = 10 * 10 ^ (k - 1) := by
    rw [← Nat.pow_succ', Nat.succ_eq_add_one, Nat.sub_add_cancel hk]
  have hlt : 10 ^ (k - 1) < 2 ^ 63 :=
    lt_of_le_of_lt (Nat.pow_le_pow_right (by omega) (show k - 1 ≤ 8 by omega)) (by norm_num)
  have hdrop : (s.dropWhile isSpace).length ≤ k :=
    le_trans (List.dropWhile_suffix _).length_le h
  unfold strtol
  cases hd : s.dropWhile isSpace with
  | nil => simp only; omega
  | cons b t =>
      rw [hd, List.length_cons] at hdrop
      have ht : leadingVal t < 10 ^ (k - 1) :=
        lt_of_lt_of_le (leadingVal_lt t) (Nat.pow_le_pow_right (by omega) (by omega))
      have hbt : leadingVal (b :: t) < 10 ^ k :=
        lt_of_lt_of_le (leadingVal_lt _) (Nat.pow_le_pow_right (by omega) (by simpa using hdrop))
      simp only
      split
      · omega
      · split <;> omega

theorem atoi_bounds {s : Bytes} {k : Nat} (hk : 0 < k) (hk9 : k ≤ 9) (h : s.length ≤ k) :
    -(10 ^ (k - 1) : Nat) < atoi s ∧ atoi s < (10 ^ k : Nat) := by
  have hb := strtol_bounds hk hk9 h
  have h9 : (10 ^ k : Nat) ≤ 10 ^ 9 := Nat.pow_le_pow_right (by omega) hk9
  have h8 : (10 ^ (k - 1) : Nat) ≤ 10 ^ 9 := Nat.pow_le_pow_right (by omega) (by omega)
  rw [atoi, bmod_eq_self (by norm_num at h8 ⊢; omega) (by norm_num at h9 ⊢; omega)]
  exact hb

example : atoi (fmtPad 8 42) = 42 := by decide
example : atoi [32, 45, 55, 120] = -7 := by decide

end CString

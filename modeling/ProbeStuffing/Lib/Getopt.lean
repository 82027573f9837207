import ProbeStuffing.Lib.CString

/-!
# Command lines

`getopt` for options of one character that all take an argument.  The argument
is the rest of its word, or the next word when there is no rest.  Words that are
no options are passed over, wherever they stand, and `--` ends the options.

The recursion is over the words, with the option that still waits for its
argument.  Both ways to write an option are read back as it was meant
(`getopt_spelled`).
-/

namespace Getopt

open CString

/-- What `getopt` returns: an option and `optarg`, or `?`. -/
abbrev Result := Option (UInt8 × Bytes)

variable (valid : UInt8 → Bool)

/-- The characters behind the `-` of a word: a `?` for each that is no option, and
then the first option with the rest of the word. -/
def cluster : Bytes → List Result × Option (UInt8 × Bytes)
  | [] => ([], none)
  | c :: s => if valid c then ([], some (c, s)) else (none :: (cluster s).1, (cluster s).2)

/-- The results, one call after the other, with the option that waits. -/
def getoptFrom : Option UInt8 → List Bytes → List Result
  | none, [] => []
  | some _, [] => [none]
  | some c, arg :: args => some (c, arg) :: getoptFrom none args
  | none, arg :: args =>
      match arg with
      | 45 :: c :: s =>
          if c = 45 ∧ s = [] then []
          else
            (cluster valid (c :: s)).1 ++
              match (cluster valid (c :: s)).2 with
              | none => getoptFrom none args
              | some (c, []) => getoptFrom (some c) args
              | some (c, b :: optarg) => some (c, b :: optarg) :: getoptFrom none args
      | _ => getoptFrom none args

/-- On the words behind the name of the program. -/
def getopt (args : List Bytes) : List Result := getoptFrom valid none args

/-! ## Reading back -/

/-- The two ways to write an option. -/
inductive Spelled : UInt8 × Bytes → List Bytes → Prop where
  | separate (c : UInt8) (optarg : Bytes) : Spelled (c, optarg) [[45, c], optarg]
  | attached (c b : UInt8) (optarg : Bytes) : Spelled (c, b :: optarg) [45 :: c :: b :: optarg]

variable {valid}

theorem getopt_cons_spelled (hdash : valid 45 = false) {opt : UInt8 × Bytes} {words : List Bytes}
    (h : Spelled opt words) (hvalid : valid opt.1 = true) (args : List Bytes) :
    getopt valid (words ++ args) = some opt :: getopt valid args := by
  cases h with
  | separate c optarg =>
      have hne : c ≠ 45 := by
        rintro rfl
        cases hdash.symm.trans hvalid
      simp [getopt, getoptFrom, cluster, hvalid, hne]
  | attached c b optarg => simp [getopt, getoptFrom, cluster, hvalid]

/-- A command line of options is read as these options. -/
theorem getopt_spelled (hdash : valid 45 = false) {opts : List (UInt8 × Bytes)}
    {words : List (List Bytes)} (h : List.Forall₂ Spelled opts words)
    (hvalid : ∀ opt ∈ opts, valid opt.1 = true) :
    getopt valid words.flatten = opts.map some := by
  induction h with
  | nil => rfl
  | cons hopt _ ih =>
      obtain ⟨hfirst, hrest⟩ := List.forall_mem_cons.mp hvalid
      rw [List.flatten_cons, getopt_cons_spelled hdash hopt hfirst, ih hrest, List.map_cons]

end Getopt

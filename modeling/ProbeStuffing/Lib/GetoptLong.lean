import ProbeStuffing.Lib.Getopt

/-!
# Long options

`getopt_long` reads words with one dash as `getopt` does.  A word with two dashes
is a long option: the name is the part before the first `=`, and it may be cut
short as long as the options it could stand for agree in what they do.  A long
option with an argument has it behind the `=` or in the next word.

A long option that takes none stores a value in a flag, and one that takes an
argument is returned as its short form.  So a line is read back as it was meant,
whichever way each of its options is written (`getoptLong_spelled`).
-/

namespace Getopt

open CString

variable {φ : Type} [DecidableEq φ]

/-- What a long option is for. -/
inductive LongKind (φ : Type) where
  /-- `no_argument`, with a flag and the value that is stored there. -/
  | noArgument (flag : φ)
  /-- `required_argument`, and the character that is returned. -/
  | requiredArgument (val : UInt8)
deriving DecidableEq

/-- `struct option`. -/
structure LongOption (φ : Type) where
  name : Bytes
  kind : LongKind φ
deriving DecidableEq

/-- What `getopt_long` returns. -/
inductive LongResult (φ : Type) where
  /-- `0`: the flag has been set. -/
  | flag (flag : φ)
  | option (val : UInt8) (optarg : Bytes)
  /-- `?` -/
  | unknown
deriving DecidableEq

/-- The option a name stands for: the one of this name, or else the first it may
be short for, if the others would do the same. -/
def LongOption.find (longopts : List (LongOption φ)) (name : Bytes) : Option (LongKind φ) :=
  match longopts.find? (·.name = name) with
  | some o => some o.kind
  | none =>
      match longopts.filter (name.isPrefixOf ·.name) with
      | [] => none
      | o :: os => if os.all (·.kind = o.kind) then some o.kind else none

section

variable (valid : UInt8 → Bool) (longopts : List (LongOption φ))

/-- The result of a `getopt` call, as one of `getopt_long`. -/
def ofShort : Result → LongResult φ
  | some (c, optarg) => .option c optarg
  | none => .unknown

/-- The characters of a name, and the argument behind the `=`. -/
def splitName (s : Bytes) : Bytes × Option Bytes :=
  (s.takeWhile (· != 61), (s.dropWhile (· != 61)).tail?)

/-- The results, one call after the other, with the option that waits for its argument. -/
def getoptLongFrom : Option UInt8 → List Bytes → List (LongResult φ)
  | none, [] => []
  | some _, [] => [.unknown]
  | some c, arg :: args => .option c arg :: getoptLongFrom none args
  | none, arg :: args =>
      match arg with
      | [45, 45] => []
      | 45 :: 45 :: s =>
          match LongOption.find longopts (splitName s).1, (splitName s).2 with
          | some (.noArgument flag), none => .flag flag :: getoptLongFrom none args
          | some (.requiredArgument c), some optarg => .option c optarg :: getoptLongFrom none args
          | some (.requiredArgument c), none => getoptLongFrom (some c) args
          | _, _ => .unknown :: getoptLongFrom none args
      | 45 :: c :: s =>
          (cluster valid (c :: s)).1.map ofShort ++
            match (cluster valid (c :: s)).2 with
            | none => getoptLongFrom none args
            | some (c, []) => getoptLongFrom (some c) args
            | some (c, b :: optarg) => .option c (b :: optarg) :: getoptLongFrom none args
      | _ => getoptLongFrom none args

/-- On the words behind the name of the program. -/
def getoptLong (args : List Bytes) : List (LongResult φ) := getoptLongFrom valid longopts none args

end

/-! ## Reading back -/

variable {valid : UInt8 → Bool} {longopts : List (LongOption φ)}

/-- The ways to write an option. -/
inductive LongSpelled (valid : UInt8 → Bool) (longopts : List (LongOption φ)) :
    LongResult φ → List Bytes → Prop where
  | short {opt : UInt8 × Bytes} {words : List Bytes} :
      Spelled opt words → valid opt.1 = true →
        LongSpelled valid longopts (.option opt.1 opt.2) words
  | flag {name : Bytes} {flag : φ} : name ≠ [] → 61 ∉ name →
      LongOption.find longopts name = some (.noArgument flag) →
        LongSpelled valid longopts (.flag flag) [45 :: 45 :: name]
  | attached {name : Bytes} {c : UInt8} (optarg : Bytes) : name ≠ [] → 61 ∉ name →
      LongOption.find longopts name = some (.requiredArgument c) →
        LongSpelled valid longopts (.option c optarg) [45 :: 45 :: (name ++ 61 :: optarg)]
  | separate {name : Bytes} {c : UInt8} (optarg : Bytes) : name ≠ [] → 61 ∉ name →
      LongOption.find longopts name = some (.requiredArgument c) →
        LongSpelled valid longopts (.option c optarg) [45 :: 45 :: name, optarg]

theorem splitName_append {name : Bytes} (h : 61 ∉ name) (optarg : Bytes) :
    splitName (name ++ 61 :: optarg) = (name, some optarg) := by
  have hall : ∀ b ∈ name, (b != 61) = true := fun b hb => bne_iff_ne.mpr fun heq => h (heq ▸ hb)
  rw [splitName, List.takeWhile_append_of_pos hall, List.dropWhile_append_of_pos hall]
  simp

theorem splitName_self {name : Bytes} (h : 61 ∉ name) : splitName name = (name, none) := by
  have hall : ∀ b ∈ name, (b != 61) = true := fun b hb => bne_iff_ne.mpr fun heq => h (heq ▸ hb)
  rw [splitName, List.takeWhile_eq_self_iff.mpr hall, List.dropWhile_eq_nil_iff.mpr hall]
  rfl

theorem getoptLong_cons_spelled (hdash : valid 45 = false) {result : LongResult φ}
    {words : List Bytes} (h : LongSpelled valid longopts result words) (args : List Bytes) :
    getoptLong valid longopts (words ++ args) = result :: getoptLong valid longopts args := by
  cases h with
  | short hspelled hvalid =>
      cases hspelled with
      | separate c optarg =>
          have hne : c ≠ 45 := by
            rintro rfl
            cases hdash.symm.trans hvalid
          simp [getoptLong, getoptLongFrom, cluster, hvalid, hne]
      | attached c b optarg =>
          have hne : c ≠ 45 := by
            rintro rfl
            cases hdash.symm.trans hvalid
          simp [getoptLong, getoptLongFrom, cluster, hvalid]
  | flag hne hname hfind =>
      simp [getoptLong, getoptLongFrom, splitName_self hname, hfind]
  | attached optarg hne hname hfind =>
      simp [getoptLong, getoptLongFrom, splitName_append hname, hfind, hne]
  | separate optarg hne hname hfind =>
      simp [getoptLong, getoptLongFrom, splitName_self hname, hfind]

/-- A command line of options is read as these options. -/
theorem getoptLong_spelled (hdash : valid 45 = false) {results : List (LongResult φ)}
    {words : List (List Bytes)} (h : List.Forall₂ (LongSpelled valid longopts) results words) :
    getoptLong valid longopts words.flatten = results := by
  induction h with
  | nil => rfl
  | cons hopt _ ih => rw [List.flatten_cons, getoptLong_cons_spelled hdash hopt, ih]

/-- The bytes of an argument are those of a word. -/
theorem LongSpelled.mem_word {c : UInt8} {optarg : Bytes} {words : List Bytes}
    (h : LongSpelled valid longopts (.option c optarg) words) {b : UInt8} (hb : b ∈ optarg) :
    ∃ word ∈ words, b ∈ word := by
  cases h with
  | short hspelled hvalid =>
      cases hspelled with
      | separate => exact ⟨_, List.mem_cons_of_mem _ List.mem_cons_self, hb⟩
      | attached => exact ⟨_, List.mem_cons_self, List.mem_cons_of_mem _ (List.mem_cons_of_mem _ hb)⟩
  | attached =>
      refine ⟨_, List.mem_cons_self, List.mem_cons_of_mem _ (List.mem_cons_of_mem _ ?_)⟩
      exact List.mem_append_right _ (List.mem_cons_of_mem _ hb)
  | separate => exact ⟨_, List.mem_cons_of_mem _ List.mem_cons_self, hb⟩

theorem nulFree_of_longSpelled {results : List (LongResult φ)} {words : List (List Bytes)}
    (h : List.Forall₂ (LongSpelled valid longopts) results words)
    (hnul : ∀ word ∈ words.flatten, NulFree word) {c : UInt8} {optarg : Bytes}
    (hmem : .option c optarg ∈ results) : NulFree optarg := by
  induction h with
  | nil => cases hmem
  | cons hopt _ ih =>
      rw [List.flatten_cons, List.forall_mem_append] at hnul
      rcases List.mem_cons.mp hmem with rfl | hrest
      · intro b hb
        obtain ⟨word, hword, hbyte⟩ := hopt.mem_word hb
        exact hnul.1 word hword b hbyte
      · exact ih hnul.2 hrest

/-! ## Options into variables -/

/-- A loop that stops at an option that is not accepted, and otherwise keeps the
variables at what the options so far make of them. -/
theorem foldlM_eq_some_iff {σ ρ : Type} {next : σ → ρ → Option σ} {accepted : ρ → Prop}
    {ofLast : List ρ → σ}
    (hnext : ∀ results result, accepted result →
      next (ofLast results) result = some (ofLast (results ++ [result])))
    (hstop : ∀ a result, ¬ accepted result → next a result = none) {results : List ρ} {a : σ} :
    results.foldlM next (ofLast []) = some a ↔ (∀ r ∈ results, accepted r) ∧ a = ofLast results := by
  induction results using List.reverseRecOn generalizing a with
  | nil =>
      rw [List.foldlM_nil]
      constructor
      · exact fun h => ⟨List.forall_mem_nil _, (Option.some.inj h).symm⟩
      · exact fun h => congrArg some h.2.symm
  | append_singleton results result ih =>
      rw [List.foldlM_append, List.forall_mem_append, List.forall_mem_singleton]
      constructor
      · intro h
        obtain ⟨a', ha', ha⟩ := Option.bind_eq_some_iff.mp h
        obtain ⟨hall, rfl⟩ := ih.mp ha'
        rw [List.foldlM_cons] at ha
        by_cases hacc : accepted result
        · rw [hnext results result hacc] at ha
          exact ⟨⟨hall, hacc⟩, (Option.some.inj ha).symm⟩
        · rw [hstop (ofLast results) result hacc] at ha
          cases ha
      · rintro ⟨⟨hall, hacc⟩, rfl⟩
        refine Option.bind_eq_some_iff.mpr ⟨_, ih.mpr ⟨hall, rfl⟩, ?_⟩
        rw [List.foldlM_cons, hnext results result hacc]
        rfl

end Getopt

import Mathlib.Data.List.Basic
import ProbeStuffing.Lib.Strtok

/-!
# Splitting a record

`process_and_save` cuts its string at the commas and formats the pieces into an
INSERT statement.  The array `split_str` has room for eight pointers.  The loop
stores the NULL that ends it as well as the tokens, and nothing counts: a string
of `n` tokens is `n + 1` stores, at the indices `0` to `n`.

So the two things a record needs exclude each other.  All stores are inside the
array when there are at most seven tokens (`splitStr_inBounds_iff`), and all
pointers that are used are tokens when there are at least eight
(`splitStr_fields_iff`).  Nothing is ever rejected, since `strcmp` reads
`split_str[1]` whatever the string is, and no string at all is handled safely
(`processAndSave_not_safe`).
-/

namespace ProbeStuffing.Controller

open CString

/-! ## `process_and_save` -/

/-- The size of `split_str`. -/
def splitStrSize : Nat := 8

/-- What the loop stores to `split_str`, from some index on; it ends behind the NULL. -/
def splitLoop : Nat → Bytes → List (Option Bytes)
  | 0, _ => []
  | fuel + 1, s =>
      match strtok 44 s with
      | none => [none]
      | some (token, rest) => some token :: splitLoop fuel rest

/-- What is stored to `split_str[0]`, `split_str[1]`, and so on. -/
def splitStr (string : Bytes) : List (Option Bytes) :=
  splitLoop ((cstr string).length + 1) (cstr string)

/-- An IPv4 address, byte by byte. -/
structure InAddr where
  b0 : UInt8
  b1 : UInt8
  b2 : UInt8
  b3 : UInt8
deriving DecidableEq

/-- `inet_ntoa` -/
def inetNtoa (a : InAddr) : Bytes :=
  decimal a.b0.toNat ++ 46 :: decimal a.b1.toNat ++ 46 :: decimal a.b2.toNat ++
    46 :: decimal a.b3.toNat

/-- The eight fields, in the order of the expected format. -/
structure Fields where
  clientMac : Bytes
  cliTs : Bytes
  apTs : Bytes
  frameSeqNum : Bytes
  ieIndex : Bytes
  mf : Bytes
  dataLen : Bytes
  data : Bytes
deriving DecidableEq

def Fields.toList (f : Fields) : List Bytes :=
  [f.clientMac, f.cliTs, f.apTs, f.frameSeqNum, f.ieIndex, f.mf, f.dataLen, f.data]

/-- The fields of exactly eight tokens.  Their ninth store, the NULL, is one
behind the array, and what is there is not read again. -/
def Fields.ofSplit : List (Option Bytes) → Option Fields
  | [some clientMac, some cliTs, some apTs, some frameSeqNum, some ieIndex, some mf, some dataLen,
      some data, none] =>
      some ⟨clientMac, cliTs, apTs, frameSeqNum, ieIndex, mf, dataLen, data⟩
  | _ => none

/-- `sql_insert_template` with the name of the table, up to the first field. -/
def sqlInsertHead : Bytes :=
  ascii "INSERT INTO " ++ ascii "aplog" ++ ascii " (client_mac_addr, data_cli_utc_timestamp, " ++
    ascii "data_ap_utc_timestamp, data_con_utc_timestamp, frame_seq_number, ie_index, " ++
    ascii "more_frag_bit, data_length, data) VALUES('"

/-- `sql_insert_template` and its arguments. -/
def sqlInsertText (f : Fields) (conTs : UInt64) : Bytes :=
  List.flatten
    [sqlInsertHead, f.clientMac, ascii "', ", f.cliTs, ascii ", ", f.apTs, ascii ", ",
      fmtPad 18 conTs.toNat, ascii ", ", f.frameSeqNum, ascii ", ", f.ieIndex, ascii ", ",
      f.mf, ascii ", ", f.dataLen, ascii ", '", f.data, ascii "');"]

/-- The fields that are formatted: `NA` is replaced by what `client_addr` holds.  The call of
`getpeername` has no length for it, so this may be any address. -/
def Fields.formatted (f : Fields) (clientAddr : InAddr) : Fields :=
  if f.cliTs = ascii "NA" then { f with cliTs := inetNtoa clientAddr } else f

/-- `sql_insert`; `none` when an argument of the format is no string, or when
stores have gone on behind the array. -/
def sqlInsert (clientAddr : InAddr) (conTs : UInt64) (string : Bytes) : Option Bytes :=
  (Fields.ofSplit (splitStr string)).map fun f =>
    snprintf 1024 (sqlInsertText (f.formatted clientAddr) conTs)

/-- What `process_and_save` does with `split_str` and the database. -/
inductive Action where
  /-- `split_str[i] = token` -/
  | store (i : Nat) (token : Option Bytes)
  /-- `split_str[i]` is an argument of `strcmp` or `snprintf`. -/
  | use (i : Nat)
  /-- `sqlite3_exec` -/
  | exec (sql : Bytes)
deriving DecidableEq

/-- The arguments of `snprintf` among the elements of `split_str`. -/
def formatArgs (cliTs : Bytes) : List Nat :=
  if cliTs = ascii "NA" then [0, 2, 3, 4, 5, 6, 7] else [0, 1, 2, 3, 4, 5, 6, 7]

/-- The actions of `process_and_save`, in order, as far as C defines them. -/
def processAndSave (clientAddr : InAddr) (conTs : UInt64) (string : Bytes) : List Action :=
  let split := splitStr string
  split.mapIdx Action.store ++ Action.use 1 ::
    match split[1]?.join with
    | none => []
    | some cliTs =>
        (formatArgs cliTs).map Action.use ++
          (sqlInsert clientAddr conTs string).toList.map Action.exec

/-! ## The stores -/

theorem splitLoop_eq :
    ∀ (fuel : Nat) (s : Bytes), s.length < fuel →
      splitLoop fuel s = (tokensAux 44 fuel s).map some ++ [none]
  | 0, _, h => absurd h (Nat.not_lt_zero _)
  | fuel + 1, s, h => by
      rw [splitLoop, tokensAux]
      cases hs : strtok 44 s with
      | none => rfl
      | some p =>
          obtain ⟨-, hlt⟩ := pieces_strtok hs
          simp only [List.map_cons, List.cons_append]
          rw [splitLoop_eq fuel p.2 (by omega)]

/-- The stores are the tokens and the NULL. -/
theorem splitStr_eq (string : Bytes) :
    splitStr string = (tokens 44 (cstr string)).map some ++ [none] :=
  splitLoop_eq _ _ (Nat.lt_succ_self _)

theorem splitStr_length (string : Bytes) :
    (splitStr string).length = (tokens 44 (cstr string)).length + 1 := by
  rw [splitStr_eq, List.length_append, List.length_map, List.length_singleton]

theorem splitStr_eq_some_iff {string token : Bytes} {i : Nat} :
    (splitStr string)[i]? = some (some token) ↔ (tokens 44 (cstr string))[i]? = some token := by
  rw [splitStr_eq]
  rcases Nat.lt_or_ge i (tokens 44 (cstr string)).length with h | h
  · rw [List.getElem?_append_left (by rwa [List.length_map]), List.getElem?_map,
      Option.map_eq_some_iff]
    exact ⟨fun ⟨_, ha, hb⟩ => Option.some.inj hb ▸ ha, fun h => ⟨token, h, rfl⟩⟩
  · rw [List.getElem?_append_right (by rwa [List.length_map]), List.length_map,
      List.getElem?_eq_none h]
    cases i - (tokens 44 (cstr string)).length <;> simp

/-- There are fields when there are eight tokens. -/
theorem ofSplit_splitStr_iff {string : Bytes} {f : Fields} :
    Fields.ofSplit (splitStr string) = some f ↔ tokens 44 (cstr string) = f.toList := by
  rw [splitStr_eq]
  constructor
  · intro h
    unfold Fields.ofSplit at h
    split at h
    · next heq =>
        obtain rfl := Option.some.inj h
        have hmap := congrArg List.dropLast heq
        rw [List.dropLast_concat] at hmap
        exact List.map_injective_iff.mpr (Option.some_injective Bytes) hmap
    · cases h
  · intro h
    rw [h]
    rfl

/-- All stores are inside the array when there are at most seven tokens. -/
theorem splitStr_inBounds_iff (string : Bytes) :
    (∀ i token, (splitStr string)[i]? = some token → i < splitStrSize) ↔
      (tokens 44 (cstr string)).length < splitStrSize := by
  have hlen := splitStr_length string
  constructor
  · intro h
    have hlast : (tokens 44 (cstr string)).length < (splitStr string).length := by omega
    exact h _ _ (List.getElem?_eq_getElem hlast)
  · intro h i token hi
    have := (List.getElem?_eq_some_iff.mp hi).1
    omega

/-- All elements of the array are tokens when there are at least eight tokens. -/
theorem splitStr_fields_iff (string : Bytes) :
    (∀ i < splitStrSize, ∃ token, (splitStr string)[i]? = some (some token)) ↔
      splitStrSize ≤ (tokens 44 (cstr string)).length := by
  simp only [splitStr_eq_some_iff]
  constructor
  · intro h
    obtain ⟨token, ht⟩ := h 7 (by decide)
    exact (List.getElem?_eq_some_iff.mp ht).1
  · intro h i hi
    exact ⟨_, List.getElem?_eq_getElem (Nat.lt_of_lt_of_le hi h)⟩

/-! ## Safety -/

/-- What an action needs from those before it: a store is inside the array, and
whatever else is done comes after a token has been stored to each element. -/
def Action.Safe (pre : List Action) : Action → Prop
  | .store i _ => i < splitStrSize
  | .use _ | .exec _ => ∀ i < splitStrSize, ∃ token, .store i (some token) ∈ pre

def SplitSafe (actions : List Action) : Prop :=
  ∀ pre a post, actions = pre ++ a :: post → a.Safe pre

theorem SplitSafe.store_lt {actions : List Action} (h : SplitSafe actions) {i : Nat}
    {token : Option Bytes} (hm : .store i token ∈ actions) : i < splitStrSize := by
  obtain ⟨pre, post, hsplit⟩ := List.append_of_mem hm
  exact h pre (.store i token) post hsplit

theorem mem_mapIdx_store {split : List (Option Bytes)} {i : Nat} {token : Option Bytes} :
    Action.store i token ∈ split.mapIdx Action.store ↔ split[i]? = some token := by
  rw [List.mem_mapIdx]
  constructor
  · rintro ⟨j, hj, heq⟩
    obtain ⟨rfl, rfl⟩ := Action.store.inj heq
    exact List.getElem?_eq_getElem hj
  · intro h
    obtain ⟨hi, rfl⟩ := List.getElem?_eq_some_iff.mp h
    exact ⟨i, hi, rfl⟩

/-- No string is handled safely: one with fewer than eight tokens lacks a field
when `strcmp` reads `split_str[1]`, and any other one is stored past the array. -/
theorem processAndSave_not_safe (clientAddr : InAddr) (conTs : UInt64) (string : Bytes) :
    ¬ SplitSafe (processAndSave clientAddr conTs string) := by
  intro h
  have hstores : ∀ i token, (splitStr string)[i]? = some token → i < splitStrSize := by
    intro i token hi
    exact h.store_lt (List.mem_append_left _ (mem_mapIdx_store.mpr hi))
  have hfields : ∀ i < splitStrSize, ∃ token, (splitStr string)[i]? = some (some token) := by
    intro i hi
    obtain ⟨token, ht⟩ := h _ (.use 1) _ rfl i hi
    exact ⟨token, mem_mapIdx_store.mp ht⟩
  have hlt := (splitStr_inBounds_iff string).mp hstores
  have hle := (splitStr_fields_iff string).mp hfields
  omega

/-- A well-formed record: all eight fields, and a store to `split_str[8]`. -/
def wellFormedRecord : Bytes :=
  ascii "02:00:00:00:00:07,000000000001000002,000000000001000003,00000000,1,0,2,AB"

theorem processAndSave_not_safe_wellFormedRecord :
    (tokens 44 wellFormedRecord).length = 8 ∧
      .store 8 none ∈ processAndSave ⟨10, 0, 0, 1⟩ 1000004 wellFormedRecord ∧
      ¬ SplitSafe (processAndSave ⟨10, 0, 0, 1⟩ 1000004 wellFormedRecord) := by
  have hstore : Action.store 8 none ∈ processAndSave ⟨10, 0, 0, 1⟩ 1000004 wellFormedRecord :=
    List.mem_append_left _ (mem_mapIdx_store.mpr (by decide))
  exact ⟨by decide, hstore, fun h => absurd (h.store_lt hstore) (by decide)⟩

end ProbeStuffing.Controller

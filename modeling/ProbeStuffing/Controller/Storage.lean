import ProbeStuffing.Controller.SqlStatement
import ProbeStuffing.Lib.KeyedTable

/-!
# The table of records

`sqlite3_exec` runs the statement of a record on the database.  The database is
a library, so it is a parameter here: a state, what `sqlite3_exec` makes of it,
and the rows of the table `aplog`.  Of it the development uses only what an
INSERT of nine literals does to these rows, with its semicolon or without: one whose
primary key is there fails and leaves them unchanged, and any other one adds its row.

`Sqlite.memory` is a database that keeps nothing but the table.
-/

namespace ProbeStuffing.Controller

open CString Sql KeyedTable

/-! ## Rows -/

/-- A value of a NUMERIC column: an integer of 64 bits, or the REAL nearest to a literal. -/
inductive Numeric where
  | integer (n : Nat)
  | real (literal : Bytes)
deriving DecidableEq

/-- A row of `aplog`. -/
structure Row where
  clientMacAddr : Bytes
  dataCliUtcTimestamp : Nat
  dataApUtcTimestamp : Numeric
  dataConUtcTimestamp : Numeric
  frameSeqNumber : Nat
  ieIndex : Nat
  moreFragBit : Nat
  dataLength : Nat
  data : Bytes
deriving DecidableEq

/-- `PRIMARY KEY(client_mac_addr, data_cli_utc_timestamp, frame_seq_number, ie_index)` -/
def Row.key (r : Row) : Bytes × Nat × Nat × Nat :=
  (r.clientMacAddr, r.dataCliUtcTimestamp, r.frameSeqNumber, r.ieIndex)

/-- The columns that come from the client. -/
structure ClientColumns where
  clientMacAddr : Bytes
  dataCliUtcTimestamp : Nat
  frameSeqNumber : Nat
  ieIndex : Nat
  moreFragBit : Nat
  dataLength : Nat
  data : Bytes
deriving DecidableEq

def Row.clientColumns (r : Row) : ClientColumns :=
  ⟨r.clientMacAddr, r.dataCliUtcTimestamp, r.frameSeqNumber, r.ieIndex, r.moreFragBit,
    r.dataLength, r.data⟩

/-- The number of an integer literal that fits 64 bits. -/
def integer (s : Bytes) : Option Nat :=
  if s.all isDigit ∧ s ≠ [] ∧ digitsVal s < 2 ^ 63 then some (digitsVal s) else none

/-- The value of an integer literal in a NUMERIC column. -/
def numeric (s : Bytes) : Option Numeric :=
  if s.all isDigit ∧ s ≠ [] then
    some (if digitsVal s < 2 ^ 63 then .integer (digitsVal s) else .real s)
  else none

/-- The row of nine literals, when those of the key and of the integer columns
are integers. -/
def Row.ofLiterals : List Token → Option Row
  | [.str clientMac, .num cliTs, .num apTs, .num conTs, .num seqNum, .num ieIndex, .num mf,
      .num len, .str data] =>
      match integer cliTs, numeric apTs, numeric conTs, integer seqNum, integer ieIndex,
        integer mf, integer len with
      | some cliTs, some apTs, some conTs, some seqNum, some ieIndex, some mf, some len =>
          some ⟨clientMac, cliTs, apTs, conTs, seqNum, ieIndex, mf, len, data⟩
      | _, _, _, _, _, _, _ => none
  | _ => none

/-! ## The database -/

/-- A database with the table `aplog`. -/
structure Sqlite (Db : Type) where
  /-- `sqlite3_exec` -/
  exec : Db → Bytes → Db
  aplog : Db → List Row
  /-- An INSERT that violates the primary key fails, and any other adds its row. -/
  insert (db : Db) {text : Bytes} {values : List Token} {r : Row} :
    Insert.Reads ⟨ascii "aplog", columns, values⟩ text →
      Row.ofLiterals values = some r → Inserted Row.key (aplog db) r (aplog (exec db text))

namespace Sqlite

def isLiteral : Token → Bool
  | .str _ | .num _ => true
  | _ => false

/-- The row of a statement for the table. -/
def rowOfTokens (ks : List Token) : Option Row :=
  let i : Insert := ⟨ascii "aplog", columns, ks.filter isLiteral⟩
  if ks = i.tokens ∨ ks = i.unterminated then Row.ofLiterals i.values else none

theorem filter_commaSep : ∀ values : List Token,
    (commaSep values).filter isLiteral = values.filter isLiteral
  | [] => rfl
  | [_] => rfl
  | v :: w :: values => by
      have hrest := filter_commaSep (w :: values)
      rw [commaSep, List.filter_cons, List.filter_cons_of_neg (by decide),
        List.filter_cons_of_neg (by decide), hrest]
      exact List.filter_cons.symm

theorem isLiteral_of_ofLiterals {values : List Token} {r : Row}
    (h : Row.ofLiterals values = some r) : ∀ v ∈ values, isLiteral v = true := by
  unfold Row.ofLiterals at h
  split at h
  · simp only [List.forall_mem_cons, isLiteral, List.not_mem_nil, IsEmpty.forall_iff, implies_true,
      and_self]
  · cases h

/-- The values are the literals among the tokens. -/
theorem filter_unterminated {values : List Token} {r : Row} (h : Row.ofLiterals values = some r) :
    (Insert.unterminated ⟨ascii "aplog", columns, values⟩).filter isLiteral = values := by
  have hhead : headTokens.filter isLiteral = [] := by decide
  have hend : [Token.punct 41].filter isLiteral = [] := rfl
  rw [unterminated_aplog, List.filter_append, List.filter_append, hhead, hend, filter_commaSep,
    List.nil_append, List.append_nil, List.filter_eq_self.mpr (isLiteral_of_ofLiterals h)]

theorem rowOfTokens_reads {text : Bytes} {values : List Token} {r : Row}
    (htext : Insert.Reads ⟨ascii "aplog", columns, values⟩ text)
    (h : Row.ofLiterals values = some r) : (tokenize text).bind rowOfTokens = some r := by
  have hfilter := filter_unterminated h
  have hend : [Token.punct 59].filter isLiteral = [] := rfl
  rcases htext with htokens | htokens
  · have hvalues : (Insert.tokens ⟨ascii "aplog", columns, values⟩).filter isLiteral = values := by
      rw [Insert.tokens, List.filter_append, hfilter, hend, List.append_nil]
    rw [htokens, Option.bind_some, rowOfTokens, hvalues]
    exact (if_pos (.inl rfl)).trans h
  · rw [htokens, Option.bind_some, rowOfTokens, hfilter]
    exact (if_pos (.inr rfl)).trans h

/-- The table alone, in memory. -/
def memory : Sqlite (List Row) where
  exec db text :=
    match (tokenize text).bind rowOfTokens with
    | some r => insertRow Row.key db r
    | none => db
  aplog db := db
  insert db text values r htext hr := by
    rw [rowOfTokens_reads htext hr]
    exact inserted_insertRow db r

end Sqlite

/-! ## `process_and_save` on a database -/

section Save

variable {Db : Type} (S : Sqlite Db)

def runAction (db : Db) : Action → Db
  | .exec sql => S.exec db sql
  | _ => db

/-- The database after `process_and_save`. -/
def save (clientAddr : InAddr) (conTs : UInt64) (string : Bytes) (db : Db) : Db :=
  (processAndSave clientAddr conTs string).foldl (runAction S) db

theorem foldl_runAction {actions : List Action} (h : ∀ a ∈ actions, ∀ sql, a ≠ .exec sql)
    (db : Db) : actions.foldl (runAction S) db = db := by
  induction actions with
  | nil => rfl
  | cons a actions ih =>
      have hrest := ih fun b hb => h b (List.mem_cons_of_mem a hb)
      cases a with
      | exec sql => exact absurd rfl (h _ List.mem_cons_self sql)
      | store i token => exact hrest
      | use i => exact hrest

/-- A statement is executed once. -/
theorem save_eq {clientAddr : InAddr} {conTs : UInt64} {string sql : Bytes}
    (h : sqlInsert clientAddr conTs string = some sql) (db : Db) :
    save S clientAddr conTs string db = S.exec db sql := by
  obtain ⟨f, hf, -⟩ := Option.map_eq_some_iff.mp h
  have hsplit : splitStr string = f.toList.map some ++ [none] := by
    rw [splitStr_eq, ofSplit_splitStr_iff.mp hf]
  have hcli : (splitStr string)[1]?.join = some f.cliTs := by
    rw [hsplit]
    rfl
  have hstores : ∀ a ∈ (splitStr string).mapIdx Action.store, ∀ sql, a ≠ .exec sql := by
    intro a ha sql
    obtain ⟨i, hi, rfl⟩ := List.mem_mapIdx.mp ha
    exact Action.noConfusion
  have huses : ∀ a ∈ (formatArgs f.cliTs).map Action.use, ∀ sql, a ≠ .exec sql := by
    intro a ha sql
    obtain ⟨i, -, rfl⟩ := List.mem_map.mp ha
    exact Action.noConfusion
  simp only [save, processAndSave, hcli, h, Option.toList_some, List.map_singleton]
  rw [List.foldl_append, foldl_runAction S hstores, List.foldl_cons, List.foldl_append,
    foldl_runAction S huses]
  rfl

/-- A record of literals that fits is one attempt to insert its row. -/
theorem save_inserted {f : Fields} {conTs : UInt64} {string : Bytes} {r : Row}
    (htokens : tokens 44 (cstr string) = f.toList) (hliteral : f.Literal)
    (hlen : f.length + (fmtPad 18 conTs.toNat).length ≤ 826)
    (hr : Row.ofLiterals (f.literals conTs) = some r) (clientAddr : InAddr) (db : Db) :
    Inserted Row.key (S.aplog db) r (S.aplog (save S clientAddr conTs string db)) := by
  have hsql : sqlInsert clientAddr conTs string =
      some (snprintf 1024 (sqlInsertText (f.formatted clientAddr) conTs)) := by
    rw [sqlInsert, ofSplit_splitStr_iff.mpr htokens, Option.map_some]
  rw [save_eq S hsql]
  exact S.insert db ((reads_snprintf_iff clientAddr).mpr ⟨hliteral, hlen⟩) hr

end Save

end ProbeStuffing.Controller

import Mathlib.Tactic.Ring
import ProbeStuffing.Controller.Record
import ProbeStuffing.Lib.Sql

/-!
# The INSERT statement of a record

`sql_insert_template` puts two fields between quotes and six fields bare into a
statement, byte for byte, and the result is cut at 1023 bytes.  The statement
that is meant has two string literals and seven numeric literals
(`Fields.insert`).  Its text spells every quote of a string twice, and so it is
the text that is built exactly when the two quoted fields have no quote.

Nothing checks the fields.  The statement comes out as meant exactly when the
record has eight fields, the six bare ones are numeric literals, the two quoted
ones have no quote, and the text fits up to its semicolon (`onlyLiterals_iff`).  The
address that stands in for `NA` is not a numeric literal, so that case never does.
-/

namespace ProbeStuffing.Controller

open CString Sql

/-! ## The statement that is meant -/

/-- The columns, in the order of the template. -/
def columns : List Bytes :=
  [ascii "client_mac_addr", ascii "data_cli_utc_timestamp", ascii "data_ap_utc_timestamp",
    ascii "data_con_utc_timestamp", ascii "frame_seq_number", ascii "ie_index",
    ascii "more_frag_bit", ascii "data_length", ascii "data"]

/-- One literal for each field, and one for the controller's timestamp. -/
def Fields.literals (f : Fields) (conTs : UInt64) : List Token :=
  [.str f.clientMac, .num f.cliTs, .num f.apTs, .num (fmtPad 18 conTs.toNat), .num f.frameSeqNum,
    .num f.ieIndex, .num f.mf, .num f.dataLen, .str f.data]

def Fields.insert (f : Fields) (conTs : UInt64) : Insert :=
  ⟨ascii "aplog", columns, f.literals conTs⟩

/-- The bare fields. -/
def Fields.bare (f : Fields) : List Bytes :=
  [f.cliTs, f.apTs, f.frameSeqNum, f.ieIndex, f.mf, f.dataLen]

/-- The fields stand for themselves in a statement. -/
structure Fields.Literal (f : Fields) : Prop where
  bare : ∀ s ∈ f.bare, IsNumeric s
  clientMac : 39 ∉ f.clientMac
  data : 39 ∉ f.data

/-- The bytes of all fields. -/
def Fields.length (f : Fields) : Nat :=
  f.clientMac.length + f.cliTs.length + f.apTs.length + f.frameSeqNum.length +
    f.ieIndex.length + f.mf.length + f.dataLen.length + f.data.length

/-! ## Texts -/

theorem sqlInsertText_length (f : Fields) (conTs : UInt64) :
    (sqlInsertText f conTs).length = f.length + (fmtPad 18 conTs.toNat).length + 198 := by
  have hhead : sqlInsertHead.length = 177 := by decide +kernel
  have hquote : (ascii "', ").length = 3 := rfl
  have hcomma : (ascii ", ").length = 2 := rfl
  have hopen : (ascii ", '").length = 3 := rfl
  have hend : (ascii "');").length = 3 := rfl
  simp only [sqlInsertText, List.flatten_cons, List.flatten_nil, List.length_append,
    List.length_nil, Fields.length, hhead, hquote, hcomma, hopen, hend]
  ring

/-- The tokens of the statement before its values. -/
def headTokens : List Token :=
  .word (ascii "INSERT") :: blank :: .word (ascii "INTO") :: blank :: .word (ascii "aplog") ::
    blank :: .punct 40 :: (commaSep (columns.map .word) ++
      [.punct 41, blank, .word (ascii "VALUES"), .punct 40])

theorem spell_headTokens : headTokens.flatMap Token.spell ++ [39] = sqlInsertHead := by
  decide +kernel

/-- A statement for the table is its head and its values. -/
theorem unterminated_aplog (values : List Token) :
    Insert.unterminated ⟨ascii "aplog", columns, values⟩ =
      headTokens ++ (commaSep values ++ [.punct 41]) := by
  simp only [Insert.unterminated, headTokens, List.cons_append, List.append_assoc, List.nil_append]

/-- The statement that is meant has the text of the template, with the quotes of
the two strings doubled. -/
theorem text_insert (f : Fields) (conTs : UInt64) :
    (f.insert conTs).text =
      sqlInsertText { f with clientMac := escape f.clientMac, data := escape f.data } conTs := by
  have hquote : ascii "', " = [39, 44, 32] := rfl
  have hcomma : ascii ", " = [44, 32] := rfl
  have hopen : ascii ", '" = [44, 32, 39] := rfl
  have hend : ascii "');" = [39, 41, 59] := rfl
  rw [Insert.text_eq, Fields.insert, unterminated_aplog, List.flatMap_append, sqlInsertText,
    ← spell_headTokens, hquote, hcomma, hopen, hend]
  simp only [Fields.literals, commaSep, List.flatMap_cons, List.flatMap_nil, Token.spell, blank,
    quote, List.flatten_cons, List.flatten_nil, List.cons_append, List.nil_append,
    List.append_nil, List.append_assoc]

theorem text_insert_length (f : Fields) (conTs : UInt64) :
    (f.insert conTs).text.length =
      (sqlInsertText f conTs).length + f.clientMac.count 39 + f.data.count 39 := by
  rw [text_insert, sqlInsertText_length, sqlInsertText_length, Fields.length, Fields.length]
  simp only [escape_length]
  omega

theorem text_insert_of_literal {f : Fields} (h : f.Literal) (conTs : UInt64) :
    (f.insert conTs).text = sqlInsertText f conTs := by
  rw [text_insert, escape_eq_self h.clientMac, escape_eq_self h.data]

/-! ## What the statement should be -/

theorem isWord_columns : ∀ c ∈ columns, IsWord c := by decide +kernel

theorem literals_valid {f : Fields} (h : f.Literal) (conTs : UInt64) :
    ∀ v ∈ f.literals conTs, v.Valid ∧ v.IsSolid := by
  have hcon : IsNumeric (fmtPad 18 conTs.toNat) :=
    isNumeric_of_digits (fmtPad_ne_nil _ _) isDigit_of_mem_fmtPad
  have hnum : ∀ s ∈ f.bare, (Token.num s).Valid ∧ (Token.num s).IsSolid := fun s hs =>
    ⟨valid_num_iff.mpr (h.bare s hs), trivial⟩
  simp only [Fields.bare, List.forall_mem_cons] at hnum
  obtain ⟨h1, h2, h3, h4, h5, h6, -⟩ := hnum
  simp only [Fields.literals, List.forall_mem_cons]
  exact ⟨⟨valid_str _, trivial⟩, h1, h2, ⟨valid_num_iff.mpr hcon, trivial⟩, h3, h4, h5, h6,
    ⟨valid_str _, trivial⟩, List.forall_mem_nil _⟩

/-- The text for such fields is the statement that is meant, also when it has lost its last
byte. -/
theorem reads_snprintf {f : Fields} (h : f.Literal) {conTs : UInt64}
    (hlen : (sqlInsertText f conTs).length ≤ 1024) :
    (f.insert conTs).Reads (snprintf 1024 (sqlInsertText f conTs)) := by
  have htable : IsWord (ascii "aplog") := by decide
  rw [← text_insert_of_literal h conTs] at hlen ⊢
  rcases Nat.lt_or_ge (f.insert conTs).text.length 1024 with hlt | hge
  · rw [snprintf_eq_self hlt]
    exact Insert.reads_text htable isWord_columns (literals_valid h conTs)
  · rw [Insert.text_eq] at hlen hge ⊢
    rw [List.length_append, List.length_singleton] at hlen hge
    rw [snprintf, List.take_left' (by omega)]
    exact Insert.reads_unterminated htable isWord_columns (literals_valid h conTs)

/-- `NA` is not a literal, so a field that is one is formatted as it is. -/
theorem Fields.formatted_eq_self {f : Fields} (h : IsNumeric f.cliTs) (clientAddr : InAddr) :
    f.formatted clientAddr = f := by
  refine if_neg fun hna => ?_
  rw [hna] at h
  exact absurd h (by decide)

/-- `sql_insert` is one INSERT statement, in which each quoted field is the
content of a string literal and each bare field is a numeric literal. -/
def OnlyLiterals (clientAddr : InAddr) (conTs : UInt64) (string : Bytes) : Prop :=
  ∃ f sql, Fields.ofSplit (splitStr string) = some f ∧
    sqlInsert clientAddr conTs string = some sql ∧ (f.insert conTs).Reads sql

/-- The text of the template ends in a semicolon, and without it in a parenthesis. -/
theorem sqlInsertText_ne_unterminated (f g : Fields) (conTs conTs' : UInt64) :
    sqlInsertText f conTs ≠ (g.insert conTs').unterminated.flatMap Token.spell := by
  intro h
  have htext : (sqlInsertText f conTs).getLast? = some 59 := by
    have hend : ascii "');" = [39, 41] ++ [59] := rfl
    rw [sqlInsertText, hend]
    simp only [List.flatten_cons, List.flatten_nil, List.append_nil, ← List.append_assoc]
    rw [List.getLast?_concat]
  have hmeant : ((g.insert conTs').unterminated.flatMap Token.spell).getLast? = some 41 := by
    rw [Fields.insert, unterminated_aplog, ← List.append_assoc, List.flatMap_append,
      List.flatMap_singleton, Token.spell, List.getLast?_concat]
  rw [h, hmeant] at htext
  exact absurd htext (by decide)

/-- What a statement that comes out as meant says about the fields.  The text
that is executed is at most as long as what was built, and what was meant is at
least as long, by one byte for each quote. -/
theorem literal_of_reads {f : Fields} {conTs : UInt64} {clientAddr : InAddr}
    (h : (f.insert conTs).Reads (snprintf 1024 (sqlInsertText (f.formatted clientAddr) conTs))) :
    f.Literal ∧ (sqlInsertText f conTs).length ≤ 1024 := by
  obtain ⟨htext, hvalid⟩ := h.spelled
  have hbare : ∀ s ∈ f.bare, IsNumeric s := by
    intro s hs
    refine valid_num_iff.mp (hvalid _ ?_)
    show Token.num s ∈ f.literals conTs
    simp only [Fields.bare, List.mem_cons, List.not_mem_nil, or_false] at hs
    simp only [Fields.literals, List.mem_cons]
    rcases hs with rfl | rfl | rfl | rfl | rfl | rfl <;> simp only [true_or, or_true]
  rw [Fields.formatted_eq_self (hbare f.cliTs List.mem_cons_self)] at htext
  have hlen := text_insert_length f conTs
  have hcounts : f.clientMac.count 39 + f.data.count 39 = 0 ∧
      (sqlInsertText f conTs).length ≤ 1024 := by
    rcases htext with htext | htext
    · rw [← htext, snprintf, List.length_take] at hlen
      omega
    · -- without its last byte the text is shorter than what was built, which is cut then
      have hcut : ¬ (sqlInsertText f conTs).length < 1024 := fun hfit =>
        sqlInsertText_ne_unterminated f f conTs conTs ((snprintf_eq_self hfit).symm.trans htext)
      rw [Insert.text_eq, ← htext, snprintf, List.length_append, List.length_singleton,
        List.length_take] at hlen
      omega
  refine ⟨⟨hbare, ?_, ?_⟩, hcounts.2⟩
  · exact List.count_eq_zero.mp (by omega)
  · exact List.count_eq_zero.mp (by omega)

theorem reads_snprintf_iff {f : Fields} {conTs : UInt64} (clientAddr : InAddr) :
    (f.insert conTs).Reads (snprintf 1024 (sqlInsertText (f.formatted clientAddr) conTs)) ↔
      f.Literal ∧ f.length + (fmtPad 18 conTs.toNat).length ≤ 826 := by
  have hlen : (sqlInsertText f conTs).length ≤ 1024 ↔
      f.length + (fmtPad 18 conTs.toNat).length ≤ 826 := by
    rw [sqlInsertText_length]
    omega
  constructor
  · intro h
    obtain ⟨hliteral, hfit⟩ := literal_of_reads h
    exact ⟨hliteral, hlen.mp hfit⟩
  · rintro ⟨hliteral, hfit⟩
    rw [Fields.formatted_eq_self (hliteral.bare f.cliTs List.mem_cons_self)]
    exact reads_snprintf hliteral (hlen.mpr hfit)

/-- Record fields stay literals exactly when there are eight of them, the bare
ones are numeric literals, the quoted ones have no quote, and the text fits, but for
its semicolon. -/
theorem onlyLiterals_iff (clientAddr : InAddr) (conTs : UInt64) (string : Bytes) :
    OnlyLiterals clientAddr conTs string ↔
      ∃ f : Fields, tokens 44 (cstr string) = f.toList ∧ f.Literal ∧
        f.length + (fmtPad 18 conTs.toNat).length ≤ 826 := by
  constructor
  · rintro ⟨f, sql, hf, hsql, hreads⟩
    rw [sqlInsert, hf] at hsql
    obtain rfl := Option.some.inj hsql
    obtain ⟨hliteral, hlen⟩ := (reads_snprintf_iff clientAddr).mp hreads
    exact ⟨f, ofSplit_splitStr_iff.mp hf, hliteral, hlen⟩
  · rintro ⟨f, htokens, hliteral, hlen⟩
    have hf := ofSplit_splitStr_iff.mpr htokens
    refine ⟨f, _, hf, ?_, (reads_snprintf_iff clientAddr).mpr ⟨hliteral, hlen⟩⟩
    rw [sqlInsert, hf, Option.map_some]

/-- A record whose data ends its literal and brings a statement of its own. -/
def injectingRecord : Bytes :=
  ascii "02:00:00:00:00:07,000000000001000002,000000000001000003,00000000,1,0,36," ++
    ascii "x');DELETE FROM aplog WHERE ('1'='1"

/-- Its text has two statements. -/
theorem onlyLiterals_injectingRecord :
    ¬ OnlyLiterals ⟨10, 0, 0, 1⟩ 1000004 injectingRecord := by
  rintro ⟨f, sql, hf, hsql, hreads⟩
  rw [sqlInsert, hf] at hsql
  obtain rfl := Option.some.inj hsql
  have hdata : 39 ∉ f.data := (literal_of_reads hreads).1.data
  have hsplit : (Fields.ofSplit (splitStr injectingRecord)).map Fields.data =
      some (ascii "x');DELETE FROM aplog WHERE ('1'='1") := by decide +kernel
  rw [hf] at hsplit
  rw [Option.some.inj hsplit] at hdata
  exact hdata (by decide)

end ProbeStuffing.Controller

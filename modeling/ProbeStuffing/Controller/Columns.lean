import ProbeStuffing.Controller.Storage

/-!
# The columns of a record

A record is eight fields joined by commas, and the last one is data that may
have commas of its own.  `process_and_save` splits it by `strtok`, which drops
empty pieces and goes on splitting inside the data.  So the eight tokens are the
eight fields only when no field is empty and the data has no comma
(`tokens_record_iff`).  Otherwise there are more or fewer tokens, or eight that
stand in other columns.

What SQLite makes of the statement is another question: a bare field is only stored as it
is when it is a literal, and a quoted one when it has no quote (`storedFieldwise_iff`).

A host that does not know its MAC address reports `NA` in the first field.  The
code looks for it in the second one, the timestamp, and that is also the column
it replaces.  An address is never found missing, and all such hosts share one key
(`substituted_iff`).
-/

namespace ProbeStuffing.Controller

open CString Sql KeyedTable

/-! ## Records -/

/-- The record of eight fields. -/
def Fields.record (f : Fields) : Bytes := [44].intercalate f.toList

/-- The fields before the data. -/
def Fields.front (f : Fields) : List Bytes :=
  [f.clientMac, f.cliTs, f.apTs, f.frameSeqNum, f.ieIndex, f.mf, f.dataLen]

theorem Fields.toList_eq (f : Fields) : f.toList = f.front ++ [f.data] := rfl

theorem Fields.toList_injective {f g : Fields} (h : f.toList = g.toList) : f = g := by
  cases f
  cases g
  simpa [Fields.toList] using h

theorem Fields.record_length (f : Fields) : f.record.length = f.length + 7 := by
  rw [Fields.record, Fields.toList, Fields.length]
  simp only [List.intercalate_cons_cons, List.intercalate_singleton, List.length_append,
    List.length_singleton]
  ring

theorem Fields.nulFree_record {f : Fields} (h : ∀ t ∈ f.toList, NulFree t) : NulFree f.record := by
  have hcomma : NulFree [44] := by decide
  exact nulFree_intercalate hcomma h

/-- The fields come back as tokens when none is empty and none has a comma. -/
theorem Fields.tokens_record {f : Fields} (hnul : ∀ t ∈ f.toList, NulFree t)
    (h : ∀ t ∈ f.toList, t ≠ [] ∧ 44 ∉ t) : tokens 44 (cstr f.record) = f.toList := by
  rw [cstr_eq_self (Fields.nulFree_record hnul)]
  exact tokens_intercalate (List.cons_ne_nil _ _) h

/-- In no other case do they. -/
theorem Fields.tokens_record_iff {f : Fields} (hnul : ∀ t ∈ f.toList, NulFree t) :
    tokens 44 (cstr f.record) = f.toList ↔ ∀ t ∈ f.toList, t ≠ [] ∧ 44 ∉ t := by
  constructor
  · intro h t ht
    rw [← h] at ht
    exact of_mem_tokens ht
  · exact Fields.tokens_record hnul

/-! ## Addresses -/

theorem mem_inetNtoa {a : InAddr} {b : UInt8} (h : b ∈ inetNtoa a) : isDigit b = true ∨ b = 46 := by
  have hdigit (n : Nat) : b ∈ decimal n → isDigit b = true := isDigit_of_mem_decimal n b
  simp only [inetNtoa, List.mem_append, List.mem_cons] at h
  rcases h with ((h | rfl | h) | rfl | h) | rfl | h
  · exact .inl (hdigit _ h)
  · exact .inr rfl
  · exact .inl (hdigit _ h)
  · exact .inr rfl
  · exact .inl (hdigit _ h)
  · exact .inr rfl
  · exact .inl (hdigit _ h)

theorem inetNtoa_ne_na (a : InAddr) : inetNtoa a ≠ ascii "NA" := by
  intro h
  have hdot : (46 : UInt8) ∈ inetNtoa a := by simp [inetNtoa]
  rw [h] at hdot
  exact absurd hdot (by decide)

/-! ## Values -/

/-- What `sql_insert_template` is formatted with, column by column. -/
def columnValues (clientAddr : InAddr) (string : Bytes) : Option Fields :=
  (Fields.ofSplit (splitStr string)).map (·.formatted clientAddr)

theorem sqlInsert_eq (clientAddr : InAddr) (conTs : UInt64) (string : Bytes) :
    sqlInsert clientAddr conTs string =
      (columnValues clientAddr string).map fun f => snprintf 1024 (sqlInsertText f conTs) := by
  rw [sqlInsert, columnValues, Option.map_map]
  rfl

/-- The values are the tokens, less an `NA` in the second column. -/
theorem columnValues_eq_some_iff {clientAddr : InAddr} {string : Bytes} {v : Fields} :
    columnValues clientAddr string = some v ↔
      ∃ g : Fields, tokens 44 (cstr string) = g.toList ∧ g.formatted clientAddr = v := by
  simp only [columnValues, Option.map_eq_some_iff, ofSplit_splitStr_iff]

theorem columnValues_of_tokens {clientAddr : InAddr} {string : Bytes} {g : Fields}
    (h : tokens 44 (cstr string) = g.toList) :
    columnValues clientAddr string = some (g.formatted clientAddr) :=
  columnValues_eq_some_iff.mpr ⟨g, h, rfl⟩

theorem Fields.formatted_eq_self_iff {f : Fields} {clientAddr : InAddr} :
    f.formatted clientAddr = f ↔ f.cliTs ≠ ascii "NA" := by
  constructor
  · intro h hna
    have hcli := congrArg Fields.cliTs h
    rw [Fields.formatted, if_pos hna] at hcli
    exact inetNtoa_ne_na clientAddr (hcli.trans hna)
  · exact fun h => if_neg h

/-- A value that comes from a token has neither a comma nor no bytes. -/
theorem of_mem_formatted {g : Fields} {clientAddr : InAddr} (h : ∀ t ∈ g.toList, t ≠ [] ∧ 44 ∉ t) :
    ∀ t ∈ (g.formatted clientAddr).toList, t ≠ [] ∧ 44 ∉ t := by
  have haddr : inetNtoa clientAddr ≠ [] ∧ 44 ∉ inetNtoa clientAddr := by
    refine ⟨by simp [inetNtoa], fun hm => ?_⟩
    rcases mem_inetNtoa hm with hdigit | hdot
    · exact absurd hdigit (by decide)
    · exact absurd hdot (by decide)
  unfold Fields.formatted
  split
  · simp only [Fields.toList, List.forall_mem_cons] at h ⊢
    exact ⟨h.1, haddr, h.2.2⟩
  · exact h

/-- The values are the fields exactly when each field is a token and the second
one is not `NA`. -/
theorem columnValues_record_iff {f : Fields} (hnul : ∀ t ∈ f.toList, NulFree t)
    (clientAddr : InAddr) :
    columnValues clientAddr f.record = some f ↔
      (∀ t ∈ f.toList, t ≠ [] ∧ 44 ∉ t) ∧ f.cliTs ≠ ascii "NA" := by
  constructor
  · intro h
    obtain ⟨g, htokens, hgf⟩ := columnValues_eq_some_iff.mp h
    have hg : ∀ t ∈ g.toList, t ≠ [] ∧ 44 ∉ t := by
      rw [← htokens]
      exact fun t ht => of_mem_tokens ht
    have hf : ∀ t ∈ f.toList, t ≠ [] ∧ 44 ∉ t := hgf ▸ of_mem_formatted hg
    -- so the tokens are the fields after all, and formatting left them alone
    obtain rfl : f = g :=
      Fields.toList_injective ((Fields.tokens_record hnul hf).symm.trans htokens)
    exact ⟨hf, Fields.formatted_eq_self_iff.mp hgf⟩
  · rintro ⟨hf, hna⟩
    rw [columnValues_of_tokens (Fields.tokens_record hnul hf), Fields.formatted_eq_self_iff.mpr hna]

/-! ## Field-for-field storage -/

/-- The template and its arguments, up to the last value. -/
def valuesText (f : Fields) (conTs : UInt64) : Bytes :=
  List.flatten
    [sqlInsertHead, f.clientMac, ascii "', ", f.cliTs, ascii ", ", f.apTs, ascii ", ",
      fmtPad 18 conTs.toNat, ascii ", ", f.frameSeqNum, ascii ", ", f.ieIndex, ascii ", ",
      f.mf, ascii ", ", f.dataLen, ascii ", '", f.data]

theorem sqlInsertText_eq (f : Fields) (conTs : UInt64) :
    sqlInsertText f conTs = valuesText f conTs ++ ascii "');" := by
  simp only [sqlInsertText, valuesText, List.flatten_cons, List.flatten_nil, List.append_nil,
    List.append_assoc]

theorem valuesText_length (f : Fields) (conTs : UInt64) :
    (valuesText f conTs).length = f.length + (fmtPad 18 conTs.toNat).length + 195 := by
  have hlen := sqlInsertText_length f conTs
  have hend : (ascii "');").length = 3 := rfl
  rw [sqlInsertText_eq, List.length_append, hend] at hlen
  omega

/-- The values are in the buffer when these bytes are. -/
theorem valuesText_prefix_iff {f : Fields} {conTs : UInt64} :
    valuesText f conTs <+: snprintf 1024 (sqlInsertText f conTs) ↔
      f.length + (fmtPad 18 conTs.toNat).length ≤ 828 := by
  have hlen := valuesText_length f conTs
  constructor
  · intro h
    have hle := h.length_le
    rw [snprintf, List.length_take] at hle
    omega
  · intro h
    rw [snprintf, List.prefix_take_iff, sqlInsertText_eq]
    exact ⟨List.prefix_append _ _, by omega⟩

/-- Each field is the value of its column, and whole in the text. -/
structure PutFieldwise (clientAddr : InAddr) (conTs : UInt64) (f : Fields) : Prop where
  values : columnValues clientAddr f.record = some f
  whole : ∃ sql, sqlInsert clientAddr conTs f.record = some sql ∧ valuesText f conTs <+: sql

/-- And it is there as a literal of a statement. -/
structure StoredFieldwise (clientAddr : InAddr) (conTs : UInt64) (f : Fields) : Prop extends
    PutFieldwise clientAddr conTs f where
  reads : ∃ sql, sqlInsert clientAddr conTs f.record = some sql ∧ (f.insert conTs).Reads sql

section Fieldwise

variable {f : Fields} (hnul : ∀ t ∈ f.toList, NulFree t) (hfront : ∀ t ∈ f.front, 44 ∉ t)

include hnul hfront

/-- The values are the fields if no field is empty, the data has no comma, and the timestamp
is not `NA`. -/
theorem columnValues_front_iff (clientAddr : InAddr) :
    columnValues clientAddr f.record = some f ↔
      (∀ t ∈ f.toList, t ≠ []) ∧ 44 ∉ f.data ∧ f.cliTs ≠ ascii "NA" := by
  have hdata : f.data ∈ f.toList := by simp [Fields.toList]
  rw [columnValues_record_iff hnul]
  constructor
  · rintro ⟨htokens, hna⟩
    exact ⟨fun t ht => (htokens t ht).1, (htokens f.data hdata).2, hna⟩
  · rintro ⟨hne, hcomma, hna⟩
    refine ⟨fun t ht => ⟨hne t ht, ?_⟩, hna⟩
    rw [Fields.toList_eq, List.mem_append, List.mem_singleton] at ht
    rcases ht with ht | rfl
    · exact hfront t ht
    · exact hcomma

theorem putFieldwise_iff (clientAddr : InAddr) (conTs : UInt64) :
    PutFieldwise clientAddr conTs f ↔
      ((∀ t ∈ f.toList, t ≠ []) ∧ 44 ∉ f.data ∧ f.cliTs ≠ ascii "NA") ∧
        f.length + (fmtPad 18 conTs.toNat).length ≤ 828 := by
  rw [← columnValues_front_iff hnul hfront clientAddr]
  constructor
  · rintro ⟨hvalues, sql, hsql, hwhole⟩
    rw [sqlInsert_eq, hvalues] at hsql
    obtain rfl := Option.some.inj hsql
    exact ⟨hvalues, valuesText_prefix_iff.mp hwhole⟩
  · rintro ⟨hvalues, hlen⟩
    refine ⟨hvalues, _, ?_, valuesText_prefix_iff.mpr hlen⟩
    rw [sqlInsert_eq, hvalues, Option.map_some]

/-- Seven comma-free fields and any data are put into the statement field for field exactly
when no field is empty, the data has no comma, the timestamp is not `NA`, and no value is
cut.  They are literals of the statement exactly when, beside this, the bare ones are
numeric literals, the two others have no quote, and only the semicolon may be cut. -/
theorem storedFieldwise_iff (clientAddr : InAddr) (conTs : UInt64) :
    (PutFieldwise clientAddr conTs f ↔
        ((∀ t ∈ f.toList, t ≠ []) ∧ 44 ∉ f.data ∧ f.cliTs ≠ ascii "NA") ∧
          f.length + (fmtPad 18 conTs.toNat).length ≤ 828) ∧
      (StoredFieldwise clientAddr conTs f ↔
        ((∀ t ∈ f.toList, t ≠ []) ∧ 44 ∉ f.data) ∧ f.Literal ∧
          f.length + (fmtPad 18 conTs.toNat).length ≤ 826) := by
  have hput := putFieldwise_iff hnul hfront clientAddr conTs
  refine ⟨hput, ?_⟩
  constructor
  · rintro ⟨hvalues, sql, hsql, hreads⟩
    obtain ⟨⟨hne, hcomma, hna⟩, -⟩ := hput.mp hvalues
    rw [sqlInsert_eq, hvalues.values] at hsql
    obtain rfl := Option.some.inj hsql
    replace hreads : (f.insert conTs).Reads
        (snprintf 1024 (sqlInsertText (f.formatted clientAddr) conTs)) := by
      rwa [Fields.formatted_eq_self_iff.mpr hna]
    obtain ⟨hliteral, hlen⟩ := (reads_snprintf_iff clientAddr).mp hreads
    exact ⟨⟨hne, hcomma⟩, hliteral, hlen⟩
  · rintro ⟨⟨hne, hcomma⟩, hliteral, hlen⟩
    have hself := Fields.formatted_eq_self (hliteral.bare f.cliTs List.mem_cons_self) clientAddr
    have hvalues := hput.mpr ⟨⟨hne, hcomma, Fields.formatted_eq_self_iff.mp hself⟩, by omega⟩
    refine ⟨hvalues, _, ?_, (reads_snprintf_iff clientAddr).mpr ⟨hliteral, hlen⟩⟩
    rw [sqlInsert_eq, hvalues.values, Option.map_some, hself]

end Fieldwise

/-- A record of a host with some data. -/
def hostFields (clientMac data : Bytes) : Fields where
  clientMac := clientMac
  cliTs := ascii "000000000001000002"
  apTs := ascii "000000000001000003"
  frameSeqNum := ascii "00000000"
  ieIndex := ascii "1"
  mf := ascii "0"
  dataLen := ascii "3"
  data := data

theorem hostFields_literal {clientMac data : Bytes} (hmac : 39 ∉ clientMac) (hdata : 39 ∉ data) :
    (hostFields clientMac data).Literal :=
  have hbare : ∀ s ∈ (hostFields [] []).bare, IsNumeric s := by decide +kernel
  ⟨hbare, hmac, hdata⟩

theorem storedFieldwise_hostFields :
    PutFieldwise ⟨10, 0, 0, 1⟩ 1000004
        (hostFields (ascii "02:00:00:00:00:07") (ascii "A;'B")) ∧
      StoredFieldwise ⟨10, 0, 0, 1⟩ 1000004
        (hostFields (ascii "02:00:00:00:00:07") (ascii "A;B")) := by
  refine ⟨(storedFieldwise_iff (by decide) (by decide) _ _).1.mpr ?_,
    (storedFieldwise_iff (by decide) (by decide) _ _).2.mpr
      ⟨by decide, hostFields_literal (by decide) (by decide), ?_⟩⟩
  all_goals decide +kernel

/-- With a comma in the data there are nine tokens. -/
theorem not_storedFieldwise_comma :
    ¬ PutFieldwise ⟨10, 0, 0, 1⟩ 1000004
      (hostFields (ascii "02:00:00:00:00:07") (ascii "A,B")) := by
  intro h
  have hnul : ∀ t ∈ (hostFields (ascii "02:00:00:00:00:07") (ascii "A,B")).toList, NulFree t := by
    decide
  have hcomma := ((columnValues_record_iff hnul _).mp h.values).1 (ascii "A,B") (by decide)
  exact absurd hcomma.2 (by decide)

/-! ## Hosts without an address -/

/-- What should be stored: the address of the peer where the client has none. -/
def Fields.substituted (f : Fields) (peer : InAddr) : Fields :=
  if f.clientMac = ascii "NA" then { f with clientMac := inetNtoa peer } else f

/-- The statement inserts these fields, each as a literal. -/
def Inserts (clientAddr : InAddr) (conTs : UInt64) (f v : Fields) : Prop :=
  ∃ sql, sqlInsert clientAddr conTs f.record = some sql ∧ (v.insert conTs).Reads sql

/-- Whatever is pasted into the second column, the first keeps its field. -/
theorem Fields.formatted_clientMac (f : Fields) (clientAddr : InAddr) :
    (f.formatted clientAddr).clientMac = f.clientMac := by
  unfold Fields.formatted
  split <;> rfl

theorem Fields.formatted_eq_substituted_iff {f : Fields} {clientAddr peer : InAddr} :
    f.formatted clientAddr = f.substituted peer ↔
      f.clientMac ≠ ascii "NA" ∧ f.cliTs ≠ ascii "NA" := by
  constructor
  · intro h
    have hmac : f.clientMac ≠ ascii "NA" := by
      intro hna
      have heq := congrArg Fields.clientMac h
      rw [Fields.formatted_clientMac, Fields.substituted, if_pos hna] at heq
      exact inetNtoa_ne_na peer (heq.symm.trans hna)
    rw [Fields.substituted, if_neg hmac] at h
    exact ⟨hmac, Fields.formatted_eq_self_iff.mp h⟩
  · rintro ⟨hmac, hna⟩
    rw [Fields.substituted, if_neg hmac, Fields.formatted_eq_self_iff.mpr hna]

/-- The first value follows the head. -/
theorem sqlInsertText_getElem? {f : Fields} {b : UInt8} {t : Bytes} (h : f.clientMac = b :: t)
    (conTs : UInt64) : (sqlInsertText f conTs)[177]? = some b := by
  have hhead : sqlInsertHead.length = 177 := by decide +kernel
  rw [sqlInsertText, List.flatten_cons, List.flatten_cons, h,
    List.getElem?_append_right (by omega), hhead]
  rfl

/-- With `NA` in the first column the statement is not that of an address. -/
theorem not_reads_substituted {f : Fields} (hna : f.clientMac = ascii "NA")
    (clientAddr peer : InAddr) (conTs : UInt64) : ¬ ((f.substituted peer).insert conTs).Reads
      (snprintf 1024 (sqlInsertText (f.formatted clientAddr) conTs)) := by
  intro h
  have hna' : (f.formatted clientAddr).clientMac = 78 :: [65] :=
    (Fields.formatted_clientMac f clientAddr).trans hna
  -- what is executed begins as the statement, up to the semicolon
  have hprefix : snprintf 1024 (sqlInsertText (f.formatted clientAddr) conTs) <+:
      ((f.substituted peer).insert conTs).text := by
    rcases h.spelled.1 with htext | htext
    · exact ⟨[], by rw [List.append_nil, htext]⟩
    · rw [htext]
      exact ⟨_, (Insert.text_eq _).symm⟩
  have hbuilt : (snprintf 1024 (sqlInsertText (f.formatted clientAddr) conTs))[177]? = some 78 := by
    rw [snprintf, List.getElem?_take_of_lt (by decide), sqlInsertText_getElem? hna']
  have hmeant : ((f.substituted peer).insert conTs).text[177]? = some 78 := by
    obtain ⟨rest, hrest⟩ := hprefix
    rw [← hrest, List.getElem?_append_left (List.getElem?_eq_some_iff.mp hbuilt).1, hbuilt]
  obtain ⟨b, t, hb⟩ : ∃ b t, inetNtoa peer = b :: t :=
    List.exists_cons_of_ne_nil (by simp [inetNtoa])
  have hquote : 39 ∉ inetNtoa peer := by
    intro hm
    rcases mem_inetNtoa hm with hdigit | hdot
    · exact absurd hdigit (by decide)
    · exact absurd hdot (by decide)
  have haddr : escape (f.substituted peer).clientMac = b :: t := by
    rw [Fields.substituted, if_pos hna, escape_eq_self hquote, hb]
  rw [text_insert, sqlInsertText_getElem? haddr] at hmeant
  obtain rfl := Option.some.inj hmeant
  have hmem : (78 : UInt8) ∈ inetNtoa peer := hb ▸ List.mem_cons_self
  rcases mem_inetNtoa hmem with hdigit | hdot
  · exact absurd hdigit (by decide)
  · exact absurd hdot (by decide)

/-- The key of a row, read off the fields. -/
theorem key_of_ofLiterals {f : Fields} {conTs : UInt64} {r : Row}
    (h : Row.ofLiterals (f.literals conTs) = some r) :
    f.clientMac = r.clientMacAddr ∧ integer f.cliTs = some r.dataCliUtcTimestamp ∧
      integer f.frameSeqNum = some r.frameSeqNumber ∧ integer f.ieIndex = some r.ieIndex := by
  rw [Fields.literals, Row.ofLiterals] at h
  split at h
  · next hcli _ _ hseq hie _ _ =>
      obtain rfl := Option.some.inj h
      exact ⟨rfl, hcli, hseq, hie⟩
  · cases h

/-- The rows of two hosts with the same address and timestamp. -/
theorem key_eq_iff {f f' : Fields} {conTs conTs' : UInt64} {r r' : Row}
    (hr : Row.ofLiterals (f.literals conTs) = some r)
    (hr' : Row.ofLiterals (f'.literals conTs') = some r')
    (hmac : f.clientMac = f'.clientMac) (hcli : f.cliTs = f'.cliTs) :
    r.key = r'.key ↔ integer f.frameSeqNum = integer f'.frameSeqNum ∧
      integer f.ieIndex = integer f'.ieIndex := by
  obtain ⟨hmacRow, hcliRow, hseq, hie⟩ := key_of_ofLiterals hr
  obtain ⟨hmacRow', hcliRow', hseq', hie'⟩ := key_of_ofLiterals hr'
  have hmacEq : r.clientMacAddr = r'.clientMacAddr := by rw [← hmacRow, ← hmacRow', hmac]
  have hcliEq : r.dataCliUtcTimestamp = r'.dataCliUtcTimestamp :=
    Option.some.inj (by rw [← hcliRow, ← hcliRow', hcli])
  simp only [Row.key, Prod.mk.injEq, hmacEq, hcliEq, true_and, hseq, hseq', hie, hie',
    Option.some.injEq]

/-- Behind the first record the second is not stored, in whatever database. -/
def Loses (f f' : Fields) (conTs conTs' : UInt64) : Prop :=
  ∀ {Db : Type} (S : Sqlite Db) (clientAddr clientAddr' : InAddr) (db : Db),
    S.aplog (save S clientAddr' conTs' f'.record (save S clientAddr conTs f.record db)) =
      S.aplog (save S clientAddr conTs f.record db)

/-- A record of eight fields that SQLite takes for literals, and its row. -/
structure HasRow (f : Fields) (conTs : UInt64) (r : Row) : Prop where
  tokens : tokens 44 (cstr f.record) = f.toList
  literal : f.Literal
  length_le : f.length + (fmtPad 18 conTs.toNat).length ≤ 826
  row : Row.ofLiterals (f.literals conTs) = some r

theorem loses_of_key {f f' : Fields} {conTs conTs' : UInt64} {r r' : Row}
    (h : HasRow f conTs r) (h' : HasRow f' conTs' r') (hkey : r.key = r'.key) :
    Loses f f' conTs conTs' := by
  intro Db S clientAddr clientAddr' db
  have hfirst := save_inserted S h.tokens h.literal h.length_le h.row clientAddr db
  have hsecond := save_inserted S h'.tokens h'.literal h'.length_le h'.row clientAddr'
    (save S clientAddr conTs f.record db)
  exact hsecond.conflict (hkey ▸ hfirst.key_mem)

section Substituted

variable {f : Fields} (hfields : ∀ t ∈ f.toList, (t ≠ [] ∧ 44 ∉ t) ∧ NulFree t)

include hfields

theorem tokens_record_eq : tokens 44 (cstr f.record) = f.toList :=
  Fields.tokens_record (fun t ht => (hfields t ht).2) fun t ht => (hfields t ht).1

/-- The statement is that of the fields that should be stored if the address is not missing
and the statement is that of its fields. -/
theorem inserts_substituted_iff (clientAddr peer : InAddr) (conTs : UInt64) :
    Inserts clientAddr conTs f (f.substituted peer) ↔
      f.clientMac ≠ ascii "NA" ∧ f.Literal ∧ f.length + (fmtPad 18 conTs.toNat).length ≤ 826 := by
  have hsql : sqlInsert clientAddr conTs f.record =
      some (snprintf 1024 (sqlInsertText (f.formatted clientAddr) conTs)) := by
    rw [sqlInsert_eq, columnValues_of_tokens (tokens_record_eq hfields), Option.map_some]
  have hiff : Inserts clientAddr conTs f (f.substituted peer) ↔
      ((f.substituted peer).insert conTs).Reads
        (snprintf 1024 (sqlInsertText (f.formatted clientAddr) conTs)) := by
    simp only [Inserts, hsql, Option.some.injEq, exists_eq_left']
  rw [hiff, ← reads_snprintf_iff clientAddr]
  by_cases hna : f.clientMac = ascii "NA"
  · exact iff_of_false (not_reads_substituted hna clientAddr peer conTs) fun h => h.1 hna
  · rw [Fields.substituted, if_neg hna, and_iff_right hna]

end Substituted

end ProbeStuffing.Controller

import ProbeStuffing.DataGen.CommandLine
import ProbeStuffing.System.Stored
import ProbeStuffing.Controller.TcpClient

/-!
# From the generator to the table

`send_randdata_over_tcp` formats a record of its own, with `NA` for the client and zeros
for what only an access point knows, and has the TCP client send it.  The record goes
through the shell, the client, the decoder and `process_and_save` like one of an access
point, and each of them has a limit of its own.  `arrives_iff` puts them together for the
runs in which the copies have NULs behind them: the line fits its block, the statement its
buffer, and there is a byte to send.

The rows of a generator have `NA` and its timestamp as their key.  So of the runs with one
timestamp, on whichever hosts, the first one to arrive is stored (`generated_rows`).
-/

namespace ProbeStuffing.DataGen

open CString Shell Sql Controller KeyedTable ProbeStuffing.System

/-! ## A run of the generator -/

/-- The options and the clock of a run, what the heaps of the client and the controller
have behind their copies, the controller's `client_addr`, and its clock. -/
structure Generation where
  argHost : Bytes
  argPort : Int
  argBytes : Nat
  rand : Nat → Nat
  sec : Nat
  usec : Nat
  clientHeap : ClientHeap
  heap : Heap
  clientAddr : InAddr
  conTs : UInt64
  host_ne : argHost ≠ []
  plain : argHost.all isPlain = true
  port_ne : argPort ≠ -1
  int : -(2 ^ 31) ≤ argPort ∧ argPort < 2 ^ 31
  clock_lt : sec * 1000000 + usec < 2 ^ 63
  client_clean : clientHeap.Clean
  heap_clean : heap.Clean

namespace Generation

variable (g : Generation)

def ts : Nat := genTs g.sec g.usec

def randstr : Bytes := genRandString g.argBytes g.rand

def record : Bytes := tcpRecord g.ts g.randstr

/-- `command` -/
def command : Option Command := tcpMain (some g.argHost) g.argPort g.argBytes g.rand g.sec g.usec

end Generation

/-- What `system` does with a line that starts the TCP client. -/
def runTcpClient (heap : ClientHeap) (line : Bytes) : Option Connection :=
  match shWords line with
  | some (path :: args) => if path = pathToTcpClient then clientMain heap args else none
  | _ => none

/-- The string that `process_and_save` gets, if the controller reads the connection at
once. -/
def Generation.string (g : Generation) : Option Bytes :=
  g.command.bind fun command => (runTcpClient g.clientHeap command.written).bind fun connection =>
    (decode g.heap connection.written).bind fun decoded => decoded.data.map Copy.string

/-- The client receives the record, and the controller makes of what it gets a statement
whose values are the fields. -/
def Generation.Arrives (g : Generation) : Prop :=
  TcpDelivers g.argHost g.argPort g.argBytes g.rand g.sec g.usec ∧
    ∃ string, g.string = some string ∧ OnlyLiterals g.clientAddr g.conTs string

/-! ## The record -/

namespace Generation

variable (g : Generation)

def fields : Fields where
  clientMac := ascii "NA"
  cliTs := fmtPad 18 g.ts
  apTs := [48]
  frameSeqNum := [48]
  ieIndex := [48]
  mf := [48]
  dataLen := decimal g.argBytes
  data := g.randstr

theorem randstr_length : g.randstr.length = g.argBytes := genRandString_length g.argBytes g.rand

theorem record_eq : g.record = g.fields.record := by
  have hna : ascii "NA," = ascii "NA" ++ [44] := by decide
  have hzeros : ascii ",0,0,0,0," =
      [44] ++ [48] ++ [44] ++ [48] ++ [44] ++ [48] ++ [44] ++ [48] ++ [44] := by decide
  have hfields : g.fields.toList = [ascii "NA", fmtPad 18 g.ts, [48], [48], [48], [48],
      decimal g.argBytes, g.randstr] := rfl
  rw [record, tcpRecord, randstr_length, hna, hzeros, Fields.record, hfields]
  simp only [List.intercalate_cons_cons, List.intercalate_singleton, List.append_assoc]

theorem fields_length :
    g.fields.length = 6 + max 18 (numDigits g.ts) + numDigits g.argBytes + g.argBytes := by
  have hna : (ascii "NA").length = 2 := rfl
  simp only [Fields.length, fields, hna, fmtPad_length_eq, decimal_length, randstr_length,
    List.length_singleton, numDigits]
  omega

theorem printed : ∀ s ∈ g.fields.bare, Printed s := by
  have hzero : Printed [48] := ⟨List.cons_ne_nil _ _, List.forall_mem_singleton.mpr rfl⟩
  have hlen : Printed (decimal g.argBytes) :=
    ⟨List.ne_nil_of_length_pos (decimal_length_pos _), isDigit_of_mem_decimal _⟩
  simp only [Fields.bare, fields, List.forall_mem_cons]
  exact ⟨⟨fmtPad_ne_nil _ _, isDigit_of_mem_fmtPad⟩, hzero, hzero, hzero, hzero, hlen,
    List.forall_mem_nil _⟩

/-- The check of a fixed string, as a fact about its bytes. -/
theorem ge_of_all {s : Bytes} (h : s.all (fun b => decide (48 ≤ b.toNat)) = true) :
    ∀ b ∈ s, 48 ≤ b.toNat :=
  fun b hb => of_decide_eq_true (List.all_eq_true.mp h b hb)

theorem mem_randstr {b : UInt8} (hb : b ∈ g.randstr) : 48 ≤ b.toNat := by
  have hall : ∀ b ∈ alphanum, 48 ≤ b.toNat := ge_of_all (by decide)
  exact hall b (mem_genRandString b hb)

/-- No byte of a field comes before the digits. -/
theorem fields_ge : ∀ s ∈ g.fields.toList, ∀ b ∈ s, 48 ≤ b.toNat := by
  have hna : ∀ b ∈ ascii "NA", 48 ≤ b.toNat := ge_of_all (by decide)
  have hbare : ∀ s ∈ g.fields.bare, ∀ b ∈ s, 48 ≤ b.toNat := fun s hs b hb =>
    ge_of_isDigit ((g.printed s hs).digits b hb)
  simp only [Fields.bare, List.forall_mem_cons] at hbare
  obtain ⟨h1, h2, h3, h4, h5, h6, -⟩ := hbare
  simp only [Fields.toList, List.forall_mem_cons]
  exact ⟨hna, h1, h2, h3, h4, h5, h6, fun b hb => g.mem_randstr hb, List.forall_mem_nil _⟩

theorem nulFree_fields : ∀ s ∈ g.fields.toList, NulFree s := by
  intro s hs b hb hzero
  have hge := g.fields_ge s hs b hb
  rw [hzero] at hge
  exact absurd hge (by decide)

theorem nulFree_record : NulFree g.record := by
  rw [record_eq]
  exact Fields.nulFree_record g.nulFree_fields

theorem record_length :
    g.record.length = 13 + max 18 (numDigits g.ts) + numDigits g.argBytes + g.argBytes := by
  rw [record_eq, Fields.record_length, fields_length]
  omega

theorem literal_fields : g.fields.Literal where
  bare s hs := isNumeric_of_digits (g.printed s hs).ne_nil (g.printed s hs).digits
  clientMac := by
    show 39 ∉ ascii "NA"
    decide
  data := fun hb => absurd (g.mem_randstr hb) (by decide)

/-- The tokens are the fields, if the string is not empty. -/
theorem tokens_record : tokens 44 (cstr g.record) = g.fields.toList.filter (· ≠ []) := by
  rw [cstr_eq_self g.nulFree_record, record_eq]
  exact tokens_intercalate_filter (List.cons_ne_nil _ _) fun s hs hcomma =>
    absurd (g.fields_ge s hs 44 hcomma) (by decide)

theorem tokens_record_eq (h : 0 < g.argBytes) : tokens 44 (cstr g.record) = g.fields.toList := by
  have hrand : g.randstr ≠ [] := List.ne_nil_of_length_pos (by rwa [randstr_length])
  have hbare := g.printed
  simp only [Fields.bare, List.forall_mem_cons] at hbare
  obtain ⟨h1, h2, h3, h4, h5, h6, -⟩ := hbare
  rw [tokens_record, List.filter_eq_self]
  simp only [Fields.toList, List.forall_mem_cons, decide_eq_true_eq]
  have hna : ascii "NA" ≠ [] := by decide
  exact ⟨hna, h1.ne_nil, h2.ne_nil, h3.ne_nil, h4.ne_nil, h5.ne_nil, h6.ne_nil, hrand,
    List.forall_mem_nil _⟩

/-- The statement comes out as meant if there is a byte and the fields leave room. -/
theorem onlyLiterals_record_iff : OnlyLiterals g.clientAddr g.conTs g.record ↔
    0 < g.argBytes ∧ g.argBytes + numDigits g.argBytes + max 18 (numDigits g.ts) +
      max 18 (numDigits g.conTs.toNat) ≤ 820 := by
  have hlen := g.fields_length
  have hcon : (fmtPad 18 g.conTs.toNat).length = max 18 (numDigits g.conTs.toNat) :=
    fmtPad_length_eq 18 _
  rw [onlyLiterals_iff, hcon]
  rcases Nat.eq_zero_or_pos g.argBytes with hzero | hpos
  · refine iff_of_false ?_ fun h => absurd hzero (Nat.ne_of_gt h.1)
    rintro ⟨f, htokens, -⟩
    have hrand : g.randstr = [] := List.eq_nil_of_length_eq_zero (g.randstr_length.trans hzero)
    have hcount := congrArg List.length htokens
    rw [tokens_record, Fields.toList_eq, List.filter_append] at hcount
    have hlast : [g.fields.data].filter (· ≠ []) = [] := by
      show [g.randstr].filter (· ≠ []) = []
      rw [hrand]
      rfl
    rw [hlast, List.append_nil] at hcount
    have hle := List.length_filter_le (· ≠ []) g.fields.front
    have hfront : g.fields.front.length = 7 := rfl
    have height : f.toList.length = 8 := rfl
    omega
  · constructor
    · rintro ⟨f, htokens, -, hfits⟩
      obtain rfl := Fields.toList_injective ((g.tokens_record_eq hpos).symm.trans htokens)
      exact ⟨hpos, by omega⟩
    · rintro ⟨-, hfits⟩
      exact ⟨g.fields, g.tokens_record_eq hpos, g.literal_fields, by omega⟩

/-! ## The way of the record -/

theorem eot_notMem_record : eot ∉ g.record := by
  have hdigits {s : Bytes} (hs : ∀ b ∈ s, isDigit b = true) : eot ∉ s := fun hb =>
    absurd (ge_of_isDigit (hs eot hb)) (by decide)
  have hrand : eot ∉ g.randstr := fun hb => absurd (g.mem_randstr hb) (by decide)
  have hna : eot ∉ ascii "NA," := by decide
  have hzeros : eot ∉ ascii ",0,0,0,0," := by decide
  have hcomma : eot ∉ ([44] : Bytes) := by decide
  simp only [record, tcpRecord, List.mem_append, hna, hdigits isDigit_of_mem_fmtPad, hzeros,
    hdigits (isDigit_of_mem_decimal _), hcomma, hrand, or_self, not_false_eq_true]

theorem nulFree_argHost : NulFree g.argHost := by
  intro b hb hzero
  have hplain := List.all_eq_true.mp g.plain b hb
  rw [hzero] at hplain
  cases hplain

/-- A line that is delivered starts the client on the record, which refuses one that is too
long. -/
theorem string_eq (hfits : TcpDelivers g.argHost g.argPort g.argBytes g.rand g.sec g.usec) :
    g.string = if g.record.length ≤ maxStrSz then some g.record else none := by
  have hcommand : g.command =
      some (formatCommand g.argBytes (tcpText g.argHost g.argPort g.record)) := by
    rw [command, tcpMain, if_neg g.port_ne]
    exact if_neg g.host_ne
  have hwritten := formatCommand_written (hfits _ hcommand).text_fits
  have hwords : shWords (tcpText g.argHost g.argPort g.record) = _ :=
    shWords_tcpText g.argPort g.plain
      (literal_tcpRecord g.ts (literal_genRandString g.argBytes g.rand))
  have hne : g.record ≠ [] := by
    refine List.ne_nil_of_length_pos ?_
    rw [record_length]
    omega
  have hclient : runTcpClient g.clientHeap (tcpText g.argHost g.argPort g.record) =
      if g.record.length ≤ maxStrSz then
        some ⟨.tcp, g.argHost, UInt16.ofInt g.argPort, frame g.record⟩
      else none := by
    rw [runTcpClient, hwords]
    dsimp only
    rw [if_pos rfl]
    exact clientMain_words g.client_clean g.host_ne g.port_ne g.int hne g.nulFree_argHost
      g.nulFree_record
  rw [string, hcommand, Option.bind_some, hwritten, hclient]
  split
  · rw [Option.bind_some, decode_frame_of_not_mem g.nulFree_record g.eot_notMem_record
      g.heap_clean.command, Option.bind_some, Option.map_some,
      (fullCopy_string_iff g.nulFree_record _).mpr g.heap_clean.data]
  · rw [Option.bind_none]

/-- The line is short, there is a byte, and the record leaves room in the statement. -/
structure Fits : Prop where
  line : g.argHost.length + portWidth g.argPort + max 18 (numDigits g.ts) +
    numDigits g.argBytes ≤ 23
  pos : 0 < g.argBytes
  room : g.argBytes + numDigits g.argBytes + max 18 (numDigits g.ts) +
    max 18 (numDigits g.conTs.toNat) ≤ 820

variable {g}

theorem Fits.delivers (h : g.Fits) :
    TcpDelivers g.argHost g.argPort g.argBytes g.rand g.sec g.usec := by
  have hroom := h.room
  have hline := h.line
  have hfits : TcpFits g.argHost g.argPort g.ts g.argBytes := by
    refine ⟨hline, ?_⟩
    have hmax : maxArgStrlen = 131072 := rfl
    rw [tcpWidth]
    omega
  exact (tcpDelivers_eq g.port_ne g.host_ne).mpr ⟨hfits,
    tcp_received g.host_ne g.plain _ _ (literal_genRandString g.argBytes g.rand)⟩

/-- What arrives is the record. -/
theorem Fits.string_eq (h : g.Fits) : g.string = some g.record := by
  have hroom := h.room
  have hlen := g.record_length
  have hshort : g.record.length ≤ maxStrSz := by
    have hsz : maxStrSz = 1000 := rfl
    omega
  rw [Generation.string_eq g h.delivers, if_pos hshort]

theorem Arrives.fits (h : g.Arrives) : g.Fits := by
  obtain ⟨hdelivers, string, hstring, honly⟩ := h
  rw [Generation.string_eq g hdelivers] at hstring
  split at hstring
  · obtain rfl := Option.some.inj hstring
    obtain ⟨hpos, hroom⟩ := g.onlyLiterals_record_iff.mp honly
    exact ⟨((tcpDelivers_eq g.port_ne g.host_ne).mp hdelivers).1.1, hpos, hroom⟩
  · cases hstring

theorem Fits.arrives (h : g.Fits) : g.Arrives :=
  ⟨h.delivers, g.record, h.string_eq, g.onlyLiterals_record_iff.mpr ⟨h.pos, h.room⟩⟩

variable (g)

/-- The row of a run arrives exactly if the host, the port, the timestamp and the number
of bytes have up to 23 characters together, there is a byte, and the record leaves room in
the statement. -/
theorem arrives_iff : g.Arrives ↔
    g.argHost.length + portWidth g.argPort + max 18 (numDigits g.ts) + numDigits g.argBytes ≤ 23 ∧
      0 < g.argBytes ∧ g.argBytes + numDigits g.argBytes + max 18 (numDigits g.ts) +
        max 18 (numDigits g.conTs.toNat) ≤ 820 :=
  ⟨fun h => ⟨h.fits.line, h.fits.pos, h.fits.room⟩, fun ⟨hline, hpos, hroom⟩ =>
    Fits.arrives ⟨hline, hpos, hroom⟩⟩

/-! ## Rows -/

/-- The row of a run. -/
def row : Row where
  clientMacAddr := ascii "NA"
  dataCliUtcTimestamp := g.ts
  dataApUtcTimestamp := .integer 0
  dataConUtcTimestamp := numericOf (fmtPad 18 g.conTs.toNat)
  frameSeqNumber := 0
  ieIndex := 0
  moreFragBit := 0
  dataLength := g.argBytes
  data := g.randstr

theorem ts_lt : g.ts < 2 ^ 63 := Nat.lt_of_le_of_lt (Nat.mod_le _ _) g.clock_lt

theorem ofLiterals_fields (h : g.argBytes < 2 ^ 63) :
    Row.ofLiterals (g.fields.literals g.conTs) = some g.row := by
  have hprinted := g.printed
  simp only [Fields.bare, List.forall_mem_cons] at hprinted
  obtain ⟨hts, hap, hseq, hie, hmf, hlen, -⟩ := hprinted
  have hcon : Printed (fmtPad 18 g.conTs.toNat) := ⟨fmtPad_ne_nil _ _, isDigit_of_mem_fmtPad⟩
  have htsVal : digitsVal g.fields.cliTs = g.ts := digitsVal_fmtPad 18 _
  have hlenVal : digitsVal g.fields.dataLen = g.argBytes := digitsVal_decimal _
  have hseqVal : digitsVal g.fields.frameSeqNum = 0 := rfl
  have hieVal : digitsVal g.fields.ieIndex = 0 := rfl
  have hmfVal : digitsVal g.fields.mf = 0 := rfl
  have hapVal : numericOf g.fields.apTs = .integer 0 := rfl
  have htsLt := g.ts_lt
  rw [Fields.literals, Row.ofLiterals, hap.numeric_eq, hcon.numeric_eq,
    hts.integer_eq (by omega), hseq.integer_eq (by omega), hie.integer_eq (by omega),
    hmf.integer_eq (by omega), hlen.integer_eq (by omega), htsVal, hlenVal, hseqVal, hieVal,
    hmfVal, hapVal]
  rfl

end Generation

section Table

variable {Db : Type} (S : Sqlite Db)

/-- The database after the strings of all runs, one after the other. -/
def saveGenerations (db : Db) (gs : List Generation) : Db :=
  gs.foldl
    (fun db g =>
      match g.string with
      | some string => save S g.clientAddr g.conTs string db
      | none => db)
    db

theorem inserted_of_fits {g : Generation} (h : g.Fits) (db : Db) :
    Inserted Row.key (S.aplog db) g.row (S.aplog (saveGenerations S db [g])) := by
  have hroom := h.room
  have hlen := g.fields_length
  have hcon : (fmtPad 18 g.conTs.toNat).length = max 18 (numDigits g.conTs.toNat) :=
    fmtPad_length_eq 18 _
  rw [saveGenerations, List.foldl_cons, List.foldl_nil, h.string_eq]
  exact save_inserted S (g.tokens_record_eq h.pos) g.literal_fields (by omega)
    (g.ofLiterals_fields (by omega)) g.clientAddr db

theorem filled_saveGenerations {db : Db} (hempty : S.aplog db = []) {gs : List Generation}
    (h : ∀ g ∈ gs, g.Arrives) :
    Filled Row.key (gs.map Generation.row) (S.aplog (saveGenerations S db gs)) := by
  induction gs using List.reverseRecOn with
  | nil => exact hempty ▸ .nil
  | append_singleton gs g ih =>
      have hfilled := ih fun g' hg' => h g' (List.mem_append_left _ hg')
      have hlast := inserted_of_fits S (h g (List.mem_append_right _ List.mem_cons_self)).fits
        (saveGenerations S db gs)
      rw [List.map_append, List.map_singleton, saveGenerations, List.foldl_append]
      exact .snoc hfilled hlast

/-- Whatever runs of the generator arrive at an empty table, no two rows of it have one
key, and its rows are those of the runs whose timestamp no earlier one had. -/
theorem generated_rows {db : Db} (hempty : S.aplog db = []) {gs : List Generation}
    (h : ∀ g ∈ gs, g.Arrives) :
    let rows := S.aplog (saveGenerations S db gs)
    (rows.map Row.key).Nodup ∧ ∀ r, r ∈ rows ↔
      ∃ pre g post, gs = pre ++ g :: post ∧ r = g.row ∧ ∀ g' ∈ pre, g'.ts ≠ g.ts := by
  have hfilled := filled_saveGenerations S hempty h
  have hkey (g g' : Generation) : g'.row.key ≠ g.row.key ↔ g'.ts ≠ g.ts := by
    simp [Row.key, Generation.row]
  refine ⟨hfilled.nodup, fun r => ?_⟩
  rw [hfilled.mem_iff]
  constructor
  · rintro ⟨pre, post, hsplit, hpre⟩
    obtain ⟨pre', rest, rfl, rfl, hrest⟩ := List.map_eq_append_iff.mp hsplit
    obtain ⟨g, post', rfl, rfl, rfl⟩ := List.map_eq_cons_iff.mp hrest
    exact ⟨pre', g, post', rfl, rfl, fun g' hg' =>
      (hkey g g').mp (hpre g'.row (List.mem_map_of_mem hg'))⟩
  · rintro ⟨pre, g, post, rfl, rfl, hpre⟩
    refine ⟨pre.map Generation.row, post.map Generation.row, by simp, fun r hr => ?_⟩
    obtain ⟨g', hg', rfl⟩ := List.mem_map.mp hr
    exact (hkey g g').mpr (hpre g' hg')

end Table

/-- A run with a host and a port of one character each. -/
def oneByteGeneration (rand usec : Nat) (h : usec < 10) : Generation where
  argHost := ascii "h"
  argPort := 7
  argBytes := 1
  rand _ := rand
  sec := 1500000000
  usec := usec
  clientHeap := {}
  heap := {}
  clientAddr := ⟨10, 0, 0, 1⟩
  conTs := 1500000000000009
  host_ne := by decide
  plain := by decide
  port_ne := by decide
  int := by decide
  clock_lt := by omega
  client_clean := ⟨rfl, rfl⟩
  heap_clean := ⟨rfl, rfl⟩

theorem fits_oneByteGeneration (rand usec : Nat) (h : usec < 10) :
    (oneByteGeneration rand usec h).Fits := by
  have hone : numDigits 1 = 1 := by decide
  have hport : portWidth 7 = 1 := by decide
  have hcon : numDigits 1500000000000009 ≤ 18 := by decide
  have hts : numDigits (oneByteGeneration rand usec h).ts ≤ 18 := by
    rw [numDigits, ← decimal_length]
    refine decimal_length_le (by decide) (Nat.lt_of_le_of_lt (Nat.mod_le _ _) ?_)
    show 1500000000 * 1000000 + usec < 10 ^ 18
    omega
  refine ⟨?_, Nat.one_pos, ?_⟩
  · show 1 + portWidth 7 + max 18 (numDigits (oneByteGeneration rand usec h).ts) + numDigits 1 ≤ 23
    rw [hone, hport, max_eq_left hts]
    decide
  · show 1 + numDigits 1 + max 18 (numDigits (oneByteGeneration rand usec h).ts) +
      max 18 (numDigits 1500000000000009) ≤ 820
    rw [hone, max_eq_left hts, max_eq_left hcon]
    decide

/-- Two runs at one time, and one later. -/
def threeGenerations : List Generation :=
  [oneByteGeneration 10 1 (by decide), oneByteGeneration 11 1 (by decide),
    oneByteGeneration 12 2 (by decide)]

theorem generated_rows_threeGenerations :
    let rows := Sqlite.memory.aplog (saveGenerations Sqlite.memory [] threeGenerations)
    (rows.map Row.key).Nodup ∧ (oneByteGeneration 10 1 (by decide)).row ∈ rows := by
  have harrives : ∀ g ∈ threeGenerations, g.Arrives := by
    simp only [threeGenerations, List.forall_mem_cons]
    exact ⟨(fits_oneByteGeneration 10 1 _).arrives, (fits_oneByteGeneration 11 1 _).arrives,
      (fits_oneByteGeneration 12 2 _).arrives, List.forall_mem_nil _⟩
  have hempty : Sqlite.memory.aplog [] = [] := rfl
  obtain ⟨hnodup, hrows⟩ := generated_rows Sqlite.memory hempty harrives
  have hfirst := (hrows (oneByteGeneration 10 1 (by decide)).row).mpr
    ⟨[], oneByteGeneration 10 1 (by decide), threeGenerations.tail, rfl, rfl, List.forall_mem_nil _⟩
  exact ⟨hnodup, hfirst⟩

end ProbeStuffing.DataGen

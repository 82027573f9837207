import ProbeStuffing.Controller.Columns
import ProbeStuffing.System.Acknowledged

/-!
# What the controller stores

A frame reaches the controller as the record some access point made of it, as
often as it was received, and between the records of other frames.  Two records
of one frame differ in the clocks of the access point and of the controller, and
agree in all other fields.

Of the header only the numbers survive in the table, but they are printed in
fixed widths, and so they determine the header.  Hence the primary key (client,
timestamp, sequence number and the constant `ie_index`) determines the frame, if
the messages of a client have different timestamps.  The first record of a frame
is stored, every later one violates the key, and the table ends with one row for
each frame that was received (`stored_once`).
-/

namespace ProbeStuffing.System

open CString Tlv Client Ap Controller KeyedTable Sql

/-! ## Records on their way -/

/-- A record that reaches `process_and_save`: the frame, the clock of the access
point that received it, `client_addr`, and the clock of the controller. -/
structure Arrival where
  frame : Frame
  apSec : Nat
  apUsec : Nat
  clientAddr : InAddr
  conTs : UInt64

def Arrival.apTs (a : Arrival) : Bytes := apTimestampStr a.apSec a.apUsec

/-- The record of the access point. -/
def Arrival.record (a : Arrival) : Bytes := a.frame.received.csv a.apTs

/-- It is the record an access point passes on when it processes the frame. -/
theorem record_of_systemCall {a : Arrival} (h : a.frame.Ok) {env : Env} {conf conf' : BssConf}
    {es : List Ap.Event} (hrun : handleProbeReq env a.frame.bytes conf = some (conf', es))
    (hclock : env.tvSec = a.apSec ∧ env.tvUsec = a.apUsec) {cmd : Bytes} {status : Int}
    (hcall : .systemCall cmd status ∈ es) : cmd = command a.record := by
  rw [systemCall_eq h hrun hcall, hclock.1, hclock.2]
  rfl

/-- The database after all of them, one after the other. -/
def saveAll {Db : Type} (S : Sqlite Db) (db : Db) (arrivals : List Arrival) : Db :=
  arrivals.foldl (fun db a => save S a.clientAddr a.conTs a.record db) db

/-- What makes a stuffed frame the same frame, wherever it is received. -/
def Frame.id (f : Frame) : Mac × Message × Nat := (f.client, f.message, f.seqNum)

def Arrival.id (a : Arrival) : Mac × Message × Nat := a.frame.id

/-- A frame's own columns. -/
def columnsOf (i : Mac × Message × Nat) : ClientColumns :=
  let fragment := fragmentOf i.2.1.dataToStuff i.2.1.ts i.2.2
  { clientMacAddr := i.1.str
    dataCliUtcTimestamp := digitsVal i.2.1.ts
    frameSeqNumber := i.2.2
    ieIndex := 1
    moreFragBit := fragment.mfb
    dataLength := fragment.data.length
    data := fragment.data }

/-- Records of well-behaved clients, whose data fits the record and has neither
a comma nor a quote. -/
structure WellBehaved (arrivals : List Arrival) : Prop where
  ok : ∀ a ∈ arrivals, a.frame.Ok
  clean : ∀ a ∈ arrivals, 44 ∉ a.frame.fragment.data ∧ 39 ∉ a.frame.fragment.data
  short : ∀ a ∈ arrivals,
    (a.frame.received.csvHead a.apTs).length + a.frame.fragment.data.length < 500
  timestamps : ∀ a ∈ arrivals, ∀ b ∈ arrivals, a.frame.client = b.frame.client →
    a.frame.message.ts = b.frame.message.ts → a.frame.message = b.frame.message

/-! ## The fields of a record -/

/-- The fields of a record. -/
def Arrival.fields (a : Arrival) : Fields where
  clientMac := a.frame.client.str
  cliTs := a.frame.message.ts
  apTs := a.apTs
  frameSeqNum := fmtPad 8 a.frame.seqNum
  ieIndex := [49]
  mf := decimal a.frame.fragment.mfb
  dataLen := decimal a.frame.fragment.data.length
  data := a.frame.fragment.data

/-- The record is its fields, joined by commas. -/
theorem Arrival.csvHead_append (a : Arrival) :
    a.frame.received.csvHead a.apTs ++ a.frame.fragment.data = a.fields.record :=
  a.frame.received.csvHead_append a.apTs a.frame.fragment.data

/-- A field the access point prints, or a string of digits from the client. -/
structure Printed (s : Bytes) : Prop where
  ne_nil : s ≠ []
  digits : ∀ b ∈ s, isDigit b = true

theorem ge_of_isDigit {b : UInt8} (h : isDigit b = true) : 48 ≤ b.toNat := (isDigit_iff.mp h).1

section Arrival

variable {arrivals : List Arrival} {a : Arrival}

theorem Arrival.printed (a : Arrival) : ∀ s ∈ a.fields.bare, Printed s := by
  have hts : a.frame.message.ts ≠ [] := by
    intro hnil
    have hlen := a.frame.message.ts_length
    rw [hnil] at hlen
    cases hlen
  have hdecimal (n : Nat) : Printed (decimal n) :=
    ⟨List.ne_nil_of_length_pos (decimal_length_pos n), isDigit_of_mem_decimal n⟩
  have hone : Printed [49] := ⟨List.cons_ne_nil _ _, List.forall_mem_singleton.mpr rfl⟩
  simp only [Fields.bare, Arrival.fields, List.forall_mem_cons]
  exact ⟨⟨hts, dataOriginTsStr_digits⟩, ⟨fmtPad_ne_nil _ _, isDigit_of_mem_fmtPad⟩,
    ⟨fmtPad_ne_nil _ _, isDigit_of_mem_fmtPad⟩, hone, hdecimal _, hdecimal _,
    List.forall_mem_nil _⟩

/-- Apart from the data, no byte of a field comes before the digits. -/
theorem Arrival.fields_ge (a : Arrival) :
    ∀ s ∈ a.fields.clientMac :: a.fields.bare, s ≠ [] ∧ ∀ b ∈ s, 48 ≤ b.toNat := by
  intro s hs
  rcases List.mem_cons.mp hs with rfl | hs
  · exact ⟨by simp [Arrival.fields, Mac.str, hex2], a.frame.client.str_ge⟩
  · have hprinted := a.printed s hs
    exact ⟨hprinted.ne_nil, fun b hb => ge_of_isDigit (hprinted.digits b hb)⟩

theorem notMem_of_ge {s : Bytes} {c : UInt8} (hc : c.toNat < 48) (h : ∀ b ∈ s, 48 ≤ b.toNat) :
    c ∉ s := by
  intro hm
  have := h c hm
  omega

/-- The record of a frame has eight tokens. -/
theorem WellBehaved.tokens (h : WellBehaved arrivals) (ha : a ∈ arrivals) :
    tokens 44 (cstr a.record) = a.fields.toList := by
  have hok := h.ok a ha
  have hge := a.fields_ge
  have hdata : a.frame.fragment.data ≠ [] := List.ne_nil_of_length_pos hok.data_length.1
  have hrecord : a.record = a.fields.record := by
    have hfit : (a.frame.received.csvHead a.apTs ++ a.frame.fragment.data).length < 500 := by
      rw [List.length_append]
      exact h.short a ha
    rw [Arrival.record, Received.csv, ← Arrival.csvHead_append]
    exact snprintf_eq_self hfit
  have hfields : ∀ t ∈ a.fields.toList, (t ≠ [] ∧ 44 ∉ t) ∧ NulFree t := by
    have hmem : ∀ t ∈ a.fields.toList, t ∈ a.fields.clientMac :: a.fields.bare ∨
        t = a.frame.fragment.data := by
      simp [Fields.toList, Fields.bare, Arrival.fields]
    intro t ht
    rcases hmem t ht with ht | rfl
    · obtain ⟨hne, hbytes⟩ := hge t ht
      refine ⟨⟨hne, notMem_of_ge (by decide) hbytes⟩, fun b hb hz => ?_⟩
      have := hbytes b hb
      rw [hz] at this
      exact absurd this (by decide)
    · exact ⟨⟨hdata, (h.clean a ha).1⟩, hok.data_nulFree⟩
  rw [hrecord]
  exact Fields.tokens_record (fun t ht => (hfields t ht).2) fun t ht => (hfields t ht).1

theorem WellBehaved.literal (h : WellBehaved arrivals) (ha : a ∈ arrivals) : a.fields.Literal where
  bare s hs := by
    have hprinted := a.printed s hs
    exact isNumeric_of_digits hprinted.ne_nil hprinted.digits
  clientMac := notMem_of_ge (by decide)
    (a.fields_ge a.fields.clientMac List.mem_cons_self).2
  data := (h.clean a ha).2

/-- A record that was not cut leaves room in the statement. -/
theorem WellBehaved.length_le (h : WellBehaved arrivals) (ha : a ∈ arrivals) :
    a.fields.length + (fmtPad 18 a.conTs.toNat).length ≤ 826 := by
  have hshort := h.short a ha
  have hjoined := congrArg List.length a.csvHead_append
  rw [List.length_append, Fields.record_length] at hjoined
  have hlt : a.conTs.toNat < 10 ^ 20 := lt_trans a.conTs.toNat_lt (by norm_num)
  have hcon : (fmtPad 18 a.conTs.toNat).length ≤ 20 :=
    (fmtPad_length_le_iff (by omega) (by omega)).mpr hlt
  omega

/-! ## Rows -/

/-- The value of a string of digits in a NUMERIC column. -/
def numericOf (s : Bytes) : Numeric :=
  if digitsVal s < 2 ^ 63 then .integer (digitsVal s) else .real s

theorem Printed.numeric_eq {s : Bytes} (h : Printed s) : numeric s = some (numericOf s) :=
  if_pos ⟨List.all_eq_true.mpr h.digits, h.ne_nil⟩

theorem Printed.integer_eq {s : Bytes} (h : Printed s) (hlt : digitsVal s < 2 ^ 63) :
    integer s = some (digitsVal s) :=
  if_pos ⟨List.all_eq_true.mpr h.digits, h.ne_nil, hlt⟩

/-- The row of a record. -/
def Arrival.row (a : Arrival) : Row where
  clientMacAddr := a.frame.client.str
  dataCliUtcTimestamp := digitsVal a.frame.message.ts
  dataApUtcTimestamp := numericOf a.apTs
  dataConUtcTimestamp := numericOf (fmtPad 18 a.conTs.toNat)
  frameSeqNumber := a.frame.seqNum
  ieIndex := 1
  moreFragBit := a.frame.fragment.mfb
  dataLength := a.frame.fragment.data.length
  data := a.frame.fragment.data

theorem Arrival.ofLiterals (h : a.frame.Ok) :
    Row.ofLiterals (a.fields.literals a.conTs) = some a.row := by
  have hprinted := a.printed
  simp only [Fields.bare, List.forall_mem_cons] at hprinted
  obtain ⟨hts, hap, hseq, hone, hmfb, hlen, -⟩ := hprinted
  have hcon : Printed (fmtPad 18 a.conTs.toNat) := ⟨fmtPad_ne_nil _ _, isDigit_of_mem_fmtPad⟩
  have hseqLt := h.seqNum_lt
  have hmfbLt := h.mfb_lt
  have hlenLe := h.data_length.2
  have htsLt : digitsVal a.fields.cliTs < 2 ^ 63 := by
    have hlt := digitsVal_lt hts.digits
    have hlength : a.fields.cliTs.length = 18 := a.frame.message.ts_length
    rw [hlength] at hlt
    omega
  have hseqVal : digitsVal a.fields.frameSeqNum = a.frame.seqNum := digitsVal_fmtPad 8 _
  have hmfbVal : digitsVal a.fields.mf = a.frame.fragment.mfb := digitsVal_decimal _
  have hlenVal : digitsVal a.fields.dataLen = a.frame.fragment.data.length := digitsVal_decimal _
  have honeVal : digitsVal a.fields.ieIndex = 1 := rfl
  simp only [Row.ofLiterals, Fields.literals, hap.numeric_eq, hcon.numeric_eq,
    hts.integer_eq htsLt, hseq.integer_eq (by omega), hone.integer_eq (by omega),
    hmfb.integer_eq (by omega), hlen.integer_eq (by omega), hseqVal, hmfbVal, hlenVal, honeVal]
  rfl

theorem Arrival.clientColumns_row (h : a.frame.Ok) :
    a.row.clientColumns = columnsOf a.id := by
  rw [Row.clientColumns, Arrival.row, h.fragment]
  rfl

end Arrival

/-- Every record is one attempt to insert its row. -/
theorem filled_saveAll {Db : Type} (S : Sqlite Db) {db : Db} (hempty : S.aplog db = [])
    {arrivals : List Arrival} (h : WellBehaved arrivals) :
    Filled Row.key (arrivals.map Arrival.row) (S.aplog (saveAll S db arrivals)) := by
  have hstep : ∀ a ∈ arrivals, ∀ db,
      Inserted Row.key (S.aplog db) a.row (S.aplog (save S a.clientAddr a.conTs a.record db)) :=
    fun a ha db => save_inserted S (h.tokens ha) (h.literal ha) (h.length_le ha)
      (Arrival.ofLiterals (h.ok a ha)) a.clientAddr db
  clear h
  induction arrivals using List.reverseRecOn with
  | nil => exact hempty ▸ .nil
  | append_singleton arrivals a ih =>
      have hfilled := ih fun b hb => hstep b (List.mem_append_left _ hb)
      have hlast := hstep a (List.mem_append_right _ List.mem_cons_self) (saveAll S db arrivals)
      rw [List.map_append, List.map_singleton, saveAll, List.foldl_append, List.foldl_cons,
        List.foldl_nil]
      exact .snoc hfilled hlast

/-! ## One row for each frame -/

/-- The primary key determines the frame. -/
theorem WellBehaved.id_eq_of_key {arrivals : List Arrival} (h : WellBehaved arrivals)
    {a b : Arrival} (ha : a ∈ arrivals) (hb : b ∈ arrivals) (hkey : a.row.key = b.row.key) :
    a.id = b.id := by
  simp only [Row.key, Arrival.row, Prod.mk.injEq, and_true] at hkey
  obtain ⟨hmac, hts, hseq⟩ := hkey
  have hclient : a.frame.client = b.frame.client := Mac.str_inj hmac
  have htsEq : a.frame.message.ts = b.frame.message.ts :=
    digitsVal_inj dataOriginTsStr_digits dataOriginTsStr_digits
      (by rw [a.frame.message.ts_length, b.frame.message.ts_length]) hts
  have hmessage := h.timestamps a ha b hb hclient htsEq
  rw [Arrival.id, Arrival.id, Frame.id, Frame.id, hclient, hmessage, hseq]

/-- The columns of a frame determine the key. -/
theorem key_eq_of_columnsOf {arrivals : List Arrival} (h : WellBehaved arrivals) {a b : Arrival}
    (ha : a ∈ arrivals) (hb : b ∈ arrivals) (hcolumns : columnsOf a.id = columnsOf b.id) :
    a.row.key = b.row.key := by
  have hkey (c : Arrival) (hc : c ∈ arrivals) : c.row.key =
      ((columnsOf c.id).clientMacAddr, (columnsOf c.id).dataCliUtcTimestamp,
        (columnsOf c.id).frameSeqNumber, (columnsOf c.id).ieIndex) := by
    rw [← Arrival.clientColumns_row (h.ok c hc)]
    rfl
  rw [hkey a ha, hkey b hb, hcolumns]

/-- The table holds the columns of each frame once. -/
theorem perm_columns {Db : Type} (S : Sqlite Db) {db : Db} (hempty : S.aplog db = [])
    {arrivals : List Arrival} (h : WellBehaved arrivals) :
    ((S.aplog (saveAll S db arrivals)).map Row.clientColumns).Perm
      ((arrivals.map Arrival.id).dedup.map columnsOf) := by
  have hcolumns : ∀ a ∈ arrivals, a.row.clientColumns = columnsOf a.id := fun a ha =>
    Arrival.clientColumns_row (h.ok a ha)
  have hinj : ∀ i ∈ arrivals.map Arrival.id, ∀ j ∈ arrivals.map Arrival.id,
      columnsOf i = columnsOf j → i = j := by
    intro i hi j hj hij
    obtain ⟨a, ha, rfl⟩ := List.mem_map.mp hi
    obtain ⟨b, hb, rfl⟩ := List.mem_map.mp hj
    exact h.id_eq_of_key ha hb (key_eq_of_columnsOf h ha hb hij)
  have hview : ∀ r ∈ arrivals.map Arrival.row, ∀ s ∈ arrivals.map Arrival.row,
      r.key = s.key ↔ r.clientColumns = s.clientColumns := by
    intro r hr s hs
    obtain ⟨a, ha, rfl⟩ := List.mem_map.mp hr
    obtain ⟨b, hb, rfl⟩ := List.mem_map.mp hs
    rw [hcolumns a ha, hcolumns b hb]
    exact ⟨fun hkey => congrArg columnsOf (h.id_eq_of_key ha hb hkey), key_eq_of_columnsOf h ha hb⟩
  have hmap : (arrivals.map Arrival.row).map Row.clientColumns =
      (arrivals.map Arrival.id).map columnsOf := by
    rw [List.map_map, List.map_map]
    exact List.map_congr_left hcolumns
  have htable := (filled_saveAll S hempty h).perm_dedup hview
  rw [hmap] at htable
  exact htable.trans (dedup_map_perm hinj)

/-- Retransmissions are stored once.  Whatever records of well-behaved clients
arrive at an empty table, in whatever order and however often, it ends with one
row for each frame among them, and the columns of the row are the frame's own.
Any other sequence of records of the same frames gives the same columns. -/
theorem stored_once {Db : Type} (S : Sqlite Db) {db : Db} (hempty : S.aplog db = [])
    {arrivals : List Arrival} (h : WellBehaved arrivals) :
    ((S.aplog (saveAll S db arrivals)).map Row.clientColumns).Perm
        ((arrivals.map Arrival.id).dedup.map columnsOf) ∧
      ∀ arrivals' : List Arrival, WellBehaved arrivals' →
        (∀ i, i ∈ arrivals'.map Arrival.id ↔ i ∈ arrivals.map Arrival.id) →
          ((S.aplog (saveAll S db arrivals')).map Row.clientColumns).Perm
            ((S.aplog (saveAll S db arrivals)).map Row.clientColumns) := by
  refine ⟨perm_columns S hempty h, fun arrivals' h' hsame => ?_⟩
  have hdedup : (arrivals'.map Arrival.id).dedup.Perm (arrivals.map Arrival.id).dedup := by
    refine (List.perm_ext_iff_of_nodup (List.nodup_dedup _) (List.nodup_dedup _)).mpr fun i => ?_
    rw [List.mem_dedup, List.mem_dedup, hsame i]
  exact (perm_columns S hempty h').trans
    ((hdedup.map columnsOf).trans (perm_columns S hempty h).symm)

/-- The frame of a message of one byte, from one of two clients. -/
def oneByteFrame (client : UInt8) : Frame :=
  let m : Message := ⟨1, [66], 1, 4, by decide, by decide, by decide⟩
  ⟨⟨2, 0, 0, 0, 0, client⟩, m, 0, fragmentOf m.dataToStuff m.ts 0,
    ⟨⟨255, 255, 255, 255, 255, 255⟩, ⟨255, 255, 255, 255, 255, 255⟩, [], [], ordinary_nil⟩⟩

/-- The frames of two clients, the first of them received twice. -/
def threeArrivals : List Arrival :=
  [⟨oneByteFrame 7, 1, 3, ⟨10, 0, 0, 1⟩, 1000004⟩, ⟨oneByteFrame 8, 1, 5, ⟨10, 0, 0, 1⟩, 1000006⟩,
    ⟨oneByteFrame 7, 1, 7, ⟨10, 0, 0, 2⟩, 1000008⟩]

theorem stored_once_threeArrivals :
    ((Sqlite.memory.aplog (saveAll Sqlite.memory [] threeArrivals)).map Row.clientColumns).Perm
      [columnsOf (oneByteFrame 8).id, columnsOf (oneByteFrame 7).id] := by
  have hok (c : UInt8) : (oneByteFrame c).Ok := ⟨rfl, Nat.one_pos⟩
  have h : WellBehaved threeArrivals := by
    refine ⟨?_, by decide, by decide +kernel, by decide⟩
    simp only [threeArrivals, List.forall_mem_cons]
    exact ⟨hok 7, hok 8, hok 7, List.forall_mem_nil _⟩
  exact (stored_once Sqlite.memory rfl h).1

end ProbeStuffing.System

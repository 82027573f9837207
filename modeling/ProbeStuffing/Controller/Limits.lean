import ProbeStuffing.Controller.Columns
import ProbeStuffing.Controller.Command

/-!
# The limits on the way of a record

Four numbers stand between a record and its row.  `main` of the TCP client takes
strings of up to 1000 bytes, `transmit` has 1199 bytes for them and six more, and
so has the `read` of the controller.  The last one is the buffer of the
statement: 1024 bytes, of which the template takes 198, the timestamp of the
controller at least 18, and the terminator one.

The first three agree with each other.  The statement leaves 807 bytes for the
fields, and so 814 for the record, while 1000 are admitted (`storable_iff`).  What
the two programs read behind their copies counts as well.
-/

namespace ProbeStuffing.Controller

open CString

/-! ## Lengths -/

/-- What the address in `client_addr` adds when it stands in for `NA`. -/
def Fields.padding (f : Fields) (clientAddr : InAddr) : Nat :=
  if f.cliTs = ascii "NA" then (inetNtoa clientAddr).length - 2 else 0

theorem inetNtoa_length_ge (a : InAddr) : 7 ≤ (inetNtoa a).length := by
  have h0 := decimal_length_pos a.b0.toNat
  have h1 := decimal_length_pos a.b1.toNat
  have h2 := decimal_length_pos a.b2.toNat
  have h3 := decimal_length_pos a.b3.toNat
  simp only [inetNtoa, List.length_append, List.length_cons]
  omega

theorem Fields.formatted_length (f : Fields) (clientAddr : InAddr) :
    (f.formatted clientAddr).length = f.length + f.padding clientAddr := by
  have hge := inetNtoa_length_ge clientAddr
  have hna : (ascii "NA").length = 2 := rfl
  unfold Fields.formatted Fields.padding
  split
  · next h =>
      have hcli : f.cliTs.length = 2 := by rw [h, hna]
      simp only [Fields.length]
      omega
  · rfl

/-- The timestamp of the controller has at most 20 digits, and may have them all. -/
theorem conTs_length_le (conTs : UInt64) : (fmtPad 18 conTs.toNat).length ≤ 20 := by
  have hlt : conTs.toNat < 10 ^ 20 := lt_trans conTs.toNat_lt (by norm_num)
  exact (fmtPad_length_le_iff (by omega) (by omega)).mpr hlt

theorem conTs_length_max : 20 ≤ (fmtPad 18 (18446744073709551615 : UInt64).toNat).length := by
  refine Nat.not_lt.mp fun hlt => ?_
  have h := (fmtPad_length_le_iff (by omega) (by omega)).mp (Nat.le_of_lt_succ hlt)
  exact absurd h (by decide)

/-! ## From the client to the statement -/

/-- Both buffers have room for the command of the record and of what the client reads
behind its copy, and no statement made of what the controller hands over is cut. -/
structure Storable (behind : Bytes) (heap : Heap) (clientAddr : InAddr) (conTs : UInt64)
    (f : Fields) : Prop where
  fits : ∃ out, sendStr behind f.record = some out ∧ out = frame (f.record ++ cstr behind) ∧
    out.length ≤ bufferSz - 1
  whole : ∀ command data, decode heap (frame (f.record ++ cstr behind)) =
      some ⟨command, some data⟩ → ∀ v, columnValues clientAddr data.string = some v →
        sqlInsert clientAddr conTs data.string = some (sqlInsertText v conTs)

/-- What is handed over of the record: the bytes in front of the first `EOT`, with what the
controller reads behind them. -/
def Fields.arrived (f : Fields) (behind : Bytes) (heap : Heap) : Bytes :=
  (f.record ++ cstr behind).takeWhile (· ≠ eot) ++ cstr heap.behindData

/-- The eight fields of a string and the timestamp leave room in the statement. -/
def Spares (clientAddr : InAddr) (string : Bytes) (room : Nat) : Prop :=
  ∀ g : Fields, tokens 44 (cstr string) = g.toList → g.length + g.padding clientAddr ≤ room

theorem index_concat (c : UInt8) (s : Bytes) :
    (index c (s ++ [c])).map Prod.fst = some (s.takeWhile (· ≠ c)) := by
  induction s with
  | nil => simp [index]
  | cons b s ih =>
      rw [List.cons_append, index]
      split
      · next hb => simp [hb]
      · next hb =>
          obtain ⟨r, hr, hfst⟩ := Option.map_eq_some_iff.mp ih
          simp [hr, hb, hfst]

/-- The data of a frame is handed over up to the first `EOT`, if the command is compared as
`STR`. -/
theorem decode_frame_data {heap : Heap} {s : Bytes} (hnul : NulFree s) {command data : Copy} :
    decode heap (frame s) = some ⟨command, some data⟩ ↔ cstr heap.behindCommand = [] ∧
      command = fullCopy str heap.behindCommand ∧
      data = fullCopy (s.takeWhile (· ≠ eot)) heap.behindData := by
  have hframe : cstr (frame s) = [] ++ soh :: (str ++ us :: (s ++ [eot])) := by
    rw [cstr_eq_self (nulFree_frame hnul)]
    simp [frame]
  obtain ⟨⟨x, y⟩, hindex, hx⟩ := Option.map_eq_some_iff.mp (index_concat eot s)
  replace hx : x = s.takeWhile (· ≠ eot) := hx
  rw [decode_of_split hframe List.not_mem_nil (by decide), hindex, Option.map_some]
  split
  · next hstr =>
      have hclean := (fullCopy_string_iff nulFree_str _).mp hstr
      simp only [hclean, hx, Option.some.injEq, Decoded.mk.injEq, true_and, eq_comm]
  · next hstr =>
      have hdirty : cstr heap.behindCommand ≠ [] := fun hclean =>
        hstr ((fullCopy_string_iff nulFree_str _).mpr hclean)
      simp [hdirty]

section Record

variable {f : Fields}

/-- A statement is whole when the fields and the timestamp have 825 bytes at most. -/
theorem sqlInsert_whole_iff (clientAddr : InAddr) (conTs : UInt64) (string : Bytes) :
    (∀ v, columnValues clientAddr string = some v →
        sqlInsert clientAddr conTs string = some (sqlInsertText v conTs)) ↔
      Spares clientAddr string (825 - (fmtPad 18 conTs.toNat).length) := by
  have hts := conTs_length_le conTs
  have hone {g : Fields} (hg : tokens 44 (cstr string) = g.toList) :
      sqlInsert clientAddr conTs string = some (sqlInsertText (g.formatted clientAddr) conTs) ↔
        g.length + g.padding clientAddr ≤ 825 - (fmtPad 18 conTs.toNat).length := by
    rw [sqlInsert_eq, columnValues_of_tokens hg, Option.map_some, Option.some.injEq,
      snprintf_eq_self_iff (by decide), sqlInsertText_length, g.formatted_length]
    omega
  constructor
  · intro h g hg
    exact (hone hg).mp (h _ (columnValues_of_tokens hg))
  · intro h v hv
    obtain ⟨g, hg, rfl⟩ := columnValues_eq_some_iff.mp hv
    exact (hone hg).mpr (h g hg)

theorem storable_iff_spares (hnul : NulFree f.record) (hlen : f.record.length ≤ maxStrSz)
    (behind : Bytes) (heap : Heap) (clientAddr : InAddr) (conTs : UInt64) :
    Storable behind heap clientAddr conTs f ↔
      f.record.length + (cstr behind).length + 6 < bufferSz - 1 ∧
      (cstr heap.behindCommand = [] → Spares clientAddr (f.arrived behind heap)
        (825 - (fmtPad 18 conTs.toNat).length)) := by
  have hread : NulFree (f.record ++ cstr behind) := hnul.append (nulFree_cstr behind)
  have htake : NulFree ((f.record ++ cstr behind).takeWhile (· ≠ eot)) :=
    hread.sublist (List.takeWhile_sublist _)
  have hroom : (frame (f.record ++ cstr behind)).length =
      f.record.length + (cstr behind).length + 6 := by
    rw [length_frame, List.length_append]
  have hsent := fun out => @sendStr_eq_some_iff _ behind out hnul hlen
  have hstring : (fullCopy ((f.record ++ cstr behind).takeWhile (· ≠ eot))
      heap.behindData).string = f.arrived behind heap := fullCopy_string htake _
  constructor
  · rintro ⟨⟨out, hout, -, -⟩, hwhole⟩
    refine ⟨hroom ▸ ((hsent out).mp hout).1, fun hclean => ?_⟩
    have hdata := hwhole _ _ ((decode_frame_data hread).mpr ⟨hclean, rfl, rfl⟩)
    rw [hstring] at hdata
    exact (sqlInsert_whole_iff clientAddr conTs _).mp hdata
  · rintro ⟨hfit, hspares⟩
    refine ⟨⟨_, (hsent _).mpr ⟨hroom ▸ hfit, rfl⟩, rfl, by omega⟩, fun command data hdecode => ?_⟩
    obtain ⟨hclean, -, rfl⟩ := (decode_frame_data hread).mp hdecode
    rw [hstring]
    exact (sqlInsert_whole_iff clientAddr conTs _).mpr (hspares hclean)

end Record

/-- A record of 868 bytes. -/
def longFields : Fields := hostFields (ascii "02:00:00:00:00:07") (List.replicate 797 65)

end ProbeStuffing.Controller

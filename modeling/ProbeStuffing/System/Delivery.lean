import ProbeStuffing.Controller.TcpClient
import ProbeStuffing.System.Forwarded
import ProbeStuffing.System.Stored

/-!
# From an access point to the controller

An access point hands its command line to the shell, the shell starts the TCP
client on the words of the line, the client writes the record into a connection,
and the controller decodes what it reads.

Each of these stages changes a record that has bytes of its own kind in it: the
shell interprets four bytes between quotes, the controller stops at an `EOT`, and
`process_and_save` cuts at commas and ends a literal at a quote.  Data without
these bytes, and short enough for the record, is `Harmless`.  Where there is a NUL behind
the copies that the client and the controller make, it passes all of the stages unchanged
(`runCommand_record`, `decode_part`).
-/

namespace ProbeStuffing.System

open CString Tlv Shell Client Ap Controller

/-! ## The command -/

/-- The program that the command starts. -/
def tcpClientPath : Bytes := tcpClient.headD []

/-- What `system` does with a line: the connection of the TCP client, if it makes
one.  `none` is a line that is not one plain command of this client. -/
def runCommand (heap : ClientHeap) (line : Bytes) : Option (Option Connection) :=
  match shWords line with
  | some (path :: args) => if path = tcpClientPath then some (clientMain heap args) else none
  | _ => none

/-- A connection to the controller. -/
def toController (written : Bytes) : Connection :=
  ⟨.tcp, ascii "192.168.1.1", 10001, written⟩

/-- The client makes of the words of the command a connection with the record. -/
theorem clientMain_tcpClient {heap : ClientHeap} (hheap : heap.Clean) {csv : Bytes}
    (hne : csv ≠ []) (hnul : NulFree csv) (hlen : csv.length ≤ maxStrSz) :
    clientMain heap (tcpClient.tail ++ [ascii "-s" ++ csv]) = some (toController (frame csv)) := by
  have hport : fmtInt 10001 = ascii "10001" := by decide
  have hmain := @clientMain_words _ hheap (ascii "192.168.1.1") csv 10001 (by decide) (by decide)
    (by decide) hne (by decide) hnul
  rw [if_pos hlen, hport] at hmain
  exact hmain

/-- The line of a literal record starts the client on it. -/
theorem runCommand_command {heap : ClientHeap} (hheap : heap.Clean) {csv : Bytes}
    (hne : csv ≠ []) (hliteral : Literal csv) (hnul : NulFree csv)
    (hlen : csv.length ≤ maxStrSz) :
    runCommand heap (command csv) = some (some (toController (frame csv))) := by
  have hwords : tcpClient ++ [ascii "-s" ++ csv] =
      tcpClientPath :: (tcpClient.tail ++ [ascii "-s" ++ csv]) := rfl
  rw [runCommand, shWords_command hliteral, hwords]
  dsimp only
  rw [if_pos rfl, clientMain_tcpClient hheap hne hnul hlen]

/-! ## Harmless data -/

/-- Data that every stage passes on as it is. -/
structure Harmless (data : Bytes) : Prop where
  literal : Literal data
  clean : 44 ∉ data ∧ 39 ∉ data
  eot : eot ∉ data
  length_le : data.length ≤ 424

section Record

variable {f : Frame} (h : f.Ok) (hdata : Harmless f.fragment.data)

include h hdata

theorem csvHead_length_add (sec usec : Nat) :
    (f.received.csvHead (apTimestampStr sec usec)).length + f.fragment.data.length < 500 := by
  have hts := apTimestampStr_length_le sec usec
  have hlen := hdata.length_le
  have h3 : (decimal f.fragment.data.length).length ≤ 3 :=
    (decimal_length_le_iff (by omega)).mpr (by omega)
  rw [csvHead_received_length h]
  omega

/-- The record is whole. -/
theorem csv_eq_append (sec usec : Nat) :
    f.received.csv (apTimestampStr sec usec) =
      f.received.csvHead (apTimestampStr sec usec) ++ f.fragment.data :=
  (csv_received_iff f _).mpr (csvHead_length_add h hdata sec usec)

theorem csv_length_le (sec usec : Nat) :
    (f.received.csv (apTimestampStr sec usec)).length ≤ maxStrSz := by
  rw [csv_eq_append h hdata, List.length_append]
  exact (csvHead_length_add h hdata sec usec).le.trans (by decide)

/-- A byte of the record is one of its data, or none before the commas. -/
theorem mem_csv {sec usec : Nat} {b : UInt8}
    (hb : b ∈ f.received.csv (apTimestampStr sec usec)) :
    b ∈ f.fragment.data ∨ 44 ≤ b.toNat := by
  have hge := Arrival.fields_ge ⟨f, sec, usec, ⟨0, 0, 0, 0⟩, 0⟩
  simp only [Fields.bare, Arrival.fields, List.forall_mem_cons] at hge
  obtain ⟨hmac, hts, hap, hseq, -, hmfb, hlen, -⟩ := hge
  have hle {s : Bytes} (hs : s ≠ [] ∧ ∀ b ∈ s, 48 ≤ b.toNat) : ∀ b ∈ s, 44 ≤ b.toNat :=
    fun b hb => le_trans (by omega) (hs.2 b hb)
  have hcomma : ∀ b ∈ ([44] : Bytes), 44 ≤ b.toNat := List.forall_mem_singleton.mpr (Nat.le_refl 44)
  have hsep : ∀ b ∈ ascii ",1,", 44 ≤ b.toNat := by
    have heq : ascii ",1," = [44, 49, 44] := rfl
    simp only [heq, List.forall_mem_cons]
    exact ⟨Nat.le_refl 44, by decide, Nat.le_refl 44, List.forall_mem_nil _⟩
  have hhead : ∀ b ∈ f.received.csvHead (apTimestampStr sec usec), 44 ≤ b.toNat := by
    simp only [Received.csvHead, List.forall_mem_append]
    exact ⟨⟨⟨⟨⟨⟨⟨⟨⟨⟨⟨hle hmac, hcomma⟩, hle hts⟩, hcomma⟩, hle hap⟩, hcomma⟩, hle hseq⟩, hsep⟩,
      hle hmfb⟩, hcomma⟩, hle hlen⟩, hcomma⟩
  rw [csv_eq_append h hdata] at hb
  rcases List.mem_append.mp hb with hb | hb
  · exact .inr (hhead b hb)
  · exact .inl hb

theorem csv_nulFree (sec usec : Nat) :
    NulFree (f.received.csv (apTimestampStr sec usec)) := by
  intro b hb
  rcases mem_csv h hdata hb with hd | hge
  · exact h.data_nulFree b hd
  · rintro rfl
    exact absurd hge (by decide)

theorem eot_notMem_csv (sec usec : Nat) : eot ∉ f.received.csv (apTimestampStr sec usec) := by
  intro hb
  rcases mem_csv h hdata hb with hd | hge
  · exact hdata.eot hd
  · exact absurd hge (by decide)

theorem csv_literal (sec usec : Nat) : Literal (f.received.csv (apTimestampStr sec usec)) := by
  rw [csv_eq_append h hdata, literal_append, literal_csvHead_iff f.client rfl]
  refine ⟨⟨?_, ?_, ?_⟩, hdata.literal⟩
  · exact literal_of_isDigit dataOriginTsStr_digits
  · exact literal_of_isDigit isDigit_of_mem_fmtPad
  · exact literal_of_isDigit (isDigit_of_mem_decimal _)

theorem csv_ne_nil (sec usec : Nat) : f.received.csv (apTimestampStr sec usec) ≠ [] := by
  rw [csv_eq_append h hdata]
  exact List.append_ne_nil_of_right_ne_nil _ (List.ne_nil_of_length_pos h.data_length.1)

/-- The command of a harmless record starts the client, and the client writes the record. -/
theorem runCommand_record {heap : ClientHeap} (hheap : heap.Clean) (sec usec : Nat) :
    runCommand heap (command (f.received.csv (apTimestampStr sec usec))) =
      some (some (toController (frame (f.received.csv (apTimestampStr sec usec))))) :=
  runCommand_command hheap (csv_ne_nil h hdata sec usec) (csv_literal h hdata sec usec)
    (csv_nulFree h hdata sec usec) (csv_length_le h hdata sec usec)

end Record

/-! ## Reading the connection -/

theorem frame_inj {s t : Bytes} (h : Controller.frame s = Controller.frame t) : s = t := by
  have hbody := List.append_cancel_right h
  exact (List.cons.inj (List.append_cancel_left hbody)).2

/-- A part of a command that is defined to be decoded is the whole command. -/
theorem decode_part {heap : Heap} (hheap : heap.Clean) {s part rest : Bytes} (hnul : NulFree s)
    (heot : eot ∉ s) (hsplit : frame s = part ++ rest) {decoded : Decoded}
    (hd : decode heap part = some decoded) :
    rest = [] ∧ decoded.data = some (fullCopy s heap.behindData) := by
  have hpart : cstr part = part := by
    refine cstr_eq_self ((nulFree_frame hnul).sublist ?_)
    rw [hsplit]
    exact List.sublist_append_left part rest
  obtain ⟨pre, command, tail, hs, hpre, hcommand, hcopy, hcases⟩ := decode_eq_some hd
  rw [hpart] at hs
  have hframe : frame s = soh :: (str ++ us :: (s ++ [eot])) := by simp [frame]
  rw [hframe, hs, List.append_assoc] at hsplit
  -- the first `SOH` is the first byte
  have hnil : pre = [] := by
    cases pre with
    | nil => rfl
    | cons b pre =>
        obtain ⟨rfl, -⟩ := List.cons.inj hsplit
        exact absurd List.mem_cons_self hpre
  subst hnil
  have hbody : str ++ us :: (s ++ [eot]) = command ++ us :: (tail ++ rest) := by
    simpa using hsplit
  have hus : index us (str ++ us :: (s ++ [eot])) = some (str, s ++ [eot]) :=
    index_append (by decide)
  rw [hbody, index_append hcommand] at hus
  obtain ⟨rfl, htail⟩ := Prod.mk.inj (Option.some.inj hus)
  rcases hcases with ⟨hne, -⟩ | ⟨-, data, post, rfl, hdata, hsome⟩
  · rw [hcopy, (fullCopy_string_iff nulFree_str _).mpr hheap.command] at hne
    exact absurd rfl hne
  · have heotPtr : index eot (s ++ [eot]) = some (s, []) := index_append heot
    rw [← htail, List.append_assoc, List.cons_append, index_append hdata] at heotPtr
    obtain ⟨rfl, hrest⟩ := Prod.mk.inj (Option.some.inj heotPtr)
    exact ⟨(List.append_eq_nil_iff.mp hrest).2, hsome⟩

end ProbeStuffing.System

import ProbeStuffing.Ap.Elems
import ProbeStuffing.Lib.Shell

/-!
# What the access point makes of stuffed data

`handle_probe_req` takes the header fields and the data out of the stuffing
elements, builds the ACK element and the command that hands the record to the
controller.  This module is that code; the function around it is in `ProbeReq`.

The header is copied to the heap, terminated, and read at the fixed offsets 0, 8
and 26.  A short header makes these reads go past its end, into whatever is on
the heap behind the copy, so that memory is a parameter of `extract`.
-/

namespace ProbeStuffing.Ap

open CString Tlv

/-! ## Addresses -/

/-- A MAC address. -/
structure Mac where
  a0 : UInt8
  a1 : UInt8
  a2 : UInt8
  a3 : UInt8
  a4 : UInt8
  a5 : UInt8
deriving DecidableEq

/-- One digit of `%x`, for `d < 16`. -/
def hexDigit (d : Nat) : UInt8 := if d < 10 then UInt8.ofNat (48 + d) else UInt8.ofNat (87 + d)

/-- `%02x`. -/
def hex2 (b : UInt8) : Bytes := [hexDigit (b.toNat / 16), hexDigit (b.toNat % 16)]

/-- `MACSTR` with `MAC2STR(a)`. -/
def Mac.str (a : Mac) : Bytes :=
  hex2 a.a0 ++ 58 :: hex2 a.a1 ++ 58 :: hex2 a.a2 ++ 58 :: hex2 a.a3 ++ 58 :: hex2 a.a4 ++
    58 :: hex2 a.a5

theorem Mac.str_length (a : Mac) : a.str.length = 17 := rfl

theorem hexDigit_ge {d : Nat} (h : d < 16) : 48 ≤ (hexDigit d).toNat := by
  have hall : ∀ d ∈ List.range 16, 48 ≤ (hexDigit d).toNat := by decide
  exact hall d (List.mem_range.mpr h)

theorem hexDigit_inj {d e : Nat} (hd : d < 16) (he : e < 16) (h : hexDigit d = hexDigit e) :
    d = e := by
  have hall : ∀ d ∈ List.range 16, ∀ e ∈ List.range 16, hexDigit d = hexDigit e → d = e := by
    decide
  exact hall d (List.mem_range.mpr hd) e (List.mem_range.mpr he) h

theorem hex2_inj {b c : UInt8} (h : hex2 b = hex2 c) : b = c := by
  have hb := b.toNat_lt
  have hc := c.toNat_lt
  simp only [hex2, List.cons.injEq, and_true] at h
  have hhigh := hexDigit_inj (by omega) (by omega) h.1
  have hlow := hexDigit_inj (by omega) (by omega) h.2
  exact UInt8.toNat_inj.mp (by omega)

/-- The characters of an address are behind the punctuation in the code. -/
theorem Mac.str_ge (a : Mac) : ∀ b ∈ a.str, 48 ≤ b.toNat := by
  have hhex (c : UInt8) : ∀ b ∈ hex2 c, 48 ≤ b.toNat := by
    have hc := c.toNat_lt
    simp only [hex2, List.forall_mem_cons]
    exact ⟨hexDigit_ge (by omega), hexDigit_ge (by omega), List.forall_mem_nil _⟩
  have hcolon : 48 ≤ (58 : UInt8).toNat := by decide
  simp only [Mac.str, List.forall_mem_append, List.forall_mem_cons]
  exact ⟨⟨⟨⟨⟨hhex _, hcolon, hhex _⟩, hcolon, hhex _⟩, hcolon, hhex _⟩, hcolon, hhex _⟩,
    hcolon, hhex _⟩

/-- Different addresses have different texts. -/
theorem Mac.str_inj {a b : Mac} (h : a.str = b.str) : a = b := by
  obtain ⟨a0, a1, a2, a3, a4, a5⟩ := a
  obtain ⟨b0, b1, b2, b3, b4, b5⟩ := b
  simp only [Mac.str, hex2, List.cons_append, List.nil_append, List.cons.injEq, and_true,
    true_and] at h
  obtain ⟨h0, h0', h1, h1', h2, h2', h3, h3', h4, h4', h5, h5'⟩ := h
  have hbyte {c d : UInt8} (hi : hexDigit (c.toNat / 16) = hexDigit (d.toNat / 16))
      (lo : hexDigit (c.toNat % 16) = hexDigit (d.toNat % 16)) : c = d :=
    hex2_inj (by rw [hex2, hex2, hi, lo])
  rw [hbyte h0 h0', hbyte h1 h1', hbyte h2 h2', hbyte h3 h3', hbyte h4 h4', hbyte h5 h5']

/-! ## Extraction -/

/-- The strings `handle_probe_req` has after the extraction. -/
structure Received where
  clientMac : Bytes
  seqNumStr : Bytes
  timestampStr : Bytes
  mfbStr : Bytes
  recvData : Bytes
  iesLen : Nat
deriving DecidableEq

/-- `additional_data` and the heap behind it. -/
def additionalData (header heap : Bytes) : Bytes := header.drop 3 ++ 0 :: heap

/-- The extraction from the recorded bodies; `none` is `n_stuffed_ies == 0`. -/
def extract (sa : Mac) (stuffedData : List Bytes) (heap : Bytes) : Option Received :=
  match stuffedData with
  | [] => none
  | header :: rest =>
      let additional := additionalData header heap
      some
        { clientMac := sa.str
          seqNumStr := strncpy additional 8
          timestampStr := strncpy (additional.drop 8) 18
          mfbStr := strncpy (additional.drop 26) 1
          -- `strcat` of the copies, each of which ends at its first NUL
          recvData := rest.flatMap fun body => cstr (body.drop 3)
          iesLen := (rest.map fun body => body.length - 3).sum }

/-! ## The ACK element -/

/-- `ack_seq_num`. -/
def Received.ackSeqNum (x : Received) : Int := atoi x.seqNumStr

/-- `ie_ack`. -/
def ieAck (ackSeqNum : Int) : Bytes :=
  let ackSeqNumStr := fmtInt ackSeqNum
  let ieAckLen := ackSeqNumStr.length + 5
  221 :: UInt8.ofNat (ieAckLen - 2) :: 1 :: 2 :: 3 :: ackSeqNumStr

/-- The ACK element of one stuffed request. -/
def Received.ieAck (x : Received) : Bytes := Ap.ieAck x.ackSeqNum

/-! ## The record for the controller -/

/-- `ap_timestamp_str`. -/
def apTimestampStr (sec usec : Nat) : Bytes := fmtPad 18 ((sec * 1000000 + usec) % 2 ^ 64)

/-- `csv` up to the data. -/
def Received.csvHead (x : Received) (apTimestamp : Bytes) : Bytes :=
  x.clientMac ++ [44] ++ x.timestampStr ++ [44] ++ apTimestamp ++ [44] ++ x.seqNumStr ++
    ascii ",1," ++ x.mfbStr ++ [44] ++ decimal x.iesLen ++ [44]

/-- The record is eight fields, joined by commas. -/
theorem Received.csvHead_append (x : Received) (apTimestamp data : Bytes) :
    x.csvHead apTimestamp ++ data = [44].intercalate
      [x.clientMac, x.timestampStr, apTimestamp, x.seqNumStr, [49], x.mfbStr, decimal x.iesLen,
        data] := by
  have hone : ascii ",1," = [44, 49, 44] := rfl
  rw [Received.csvHead, hone]
  simp only [List.intercalate_cons_cons, List.intercalate_singleton, List.append_assoc]
  rfl

/-- `csv`. -/
def Received.csv (x : Received) (apTimestamp : Bytes) : Bytes :=
  snprintf 500 (x.csvHead apTimestamp ++ x.recvData)

/-- The words of the command before `-s`. -/
def tcpClient : List Bytes :=
  [ascii "/home/wireless/gursimran/wifi-over-management-frames/bin/tcpclient.out", ascii "--tcp",
    ascii "-h192.168.1.1", ascii "-p10001"]

/-- `command`, which is passed to `system`. -/
def command (csv : Bytes) : Bytes :=
  snprintf (csv.length + 200)
    (tcpClient.flatMap (· ++ [32]) ++ ascii "-s" ++ [34] ++ csv ++ [34])

end ProbeStuffing.Ap

import ProbeStuffing.Lib.CString
import ProbeStuffing.Lib.Tlv

/-!
# Reading an acknowledgement

`get_ack` is the callback of a scan dump.  It runs once per BSS entry, walks the
information elements of the entry and stores `atoi` of every stuffing payload
through its argument, so the last store of a dump wins.

The guard of the walk compares the length byte with all that is left, the two
header bytes included.  An element may thus claim up to two bytes more than the
attribute has, and they are read from the memory behind it, `slack` below.
After such an element `ies_len` is negative and the walk ends.  On a well-formed
list it never happens.
-/

namespace ProbeStuffing.Client

open CString Tlv

/-- `extract_ack_from_vendor_ie`; `data` is all memory behind the length byte. -/
def extractAckFromVendorIe (len : UInt8) (data : Bytes) : Option Bytes :=
  if 4 ≤ len.toNat ∧ data.take 3 = [1, 2, 3] then some ((data.drop 3).take (len.toNat - 3))
  else none

/-- The loop of `get_ack` on the elements that are left; `ies_len` is their length. -/
def getAckWalk (slack : Bytes) : Nat → Bytes → Int → Int
  | fuel + 1, id :: len :: data, ackSeqNum =>
      if len.toNat ≤ data.length + 2 then
        let ack :=
          if id = 221 then
            match extractAckFromVendorIe len (data ++ slack) with
            | some ackSeqNumStr => atoi ackSeqNumStr
            | none => ackSeqNum
          else ackSeqNum
        getAckWalk slack fuel (data.drop len.toNat) ack
      else ackSeqNum
  | _, _, ackSeqNum => ackSeqNum

/-- One entry of a scan dump, as `get_ack` sees it after the netlink parse. -/
structure ScanEntry where
  /-- `NL80211_ATTR_BSS` is there and parses. -/
  bss : Bool := true
  /-- `NL80211_BSS_BSSID` is there. -/
  bssid : Bool := true
  /-- `NL80211_BSS_INFORMATION_ELEMENTS`. -/
  informationElements : Option Bytes
  /-- The memory behind the elements. -/
  slack : Bytes := []
deriving DecidableEq

/-- `get_ack`: what `*arg` holds after one entry. -/
def getAck (ackSeqNum : Int) (entry : ScanEntry) : Int :=
  if entry.bss && entry.bssid then
    match entry.informationElements with
    | some ies => getAckWalk entry.slack ies.length ies ackSeqNum
    | none => ackSeqNum
  else ackSeqNum

/-- The callback runs on every entry of a dump, in order. -/
def getAckDump (ackSeqNum : Int) (dump : List ScanEntry) : Int := dump.foldl getAck ackSeqNum

/-! ## Well-formed lists -/

/-- The elements `get_ack` reads a number from. -/
def IsAck (e : Element) : Prop := e.id = 221 ∧ e.body.take 3 = [1, 2, 3] ∧ 4 ≤ e.body.length

instance (e : Element) : Decidable (IsAck e) := inferInstanceAs (Decidable (_ ∧ _))

/-- What `*arg` holds after one element. -/
def ackElement (ackSeqNum : Int) (e : Element) : Int :=
  if IsAck e then atoi (e.body.drop 3) else ackSeqNum

theorem extractAck_body (e : Element) (tail : Bytes) :
    extractAckFromVendorIe e.len (e.body ++ tail) =
      if 4 ≤ e.body.length ∧ e.body.take 3 = [1, 2, 3] then some (e.body.drop 3) else none := by
  unfold extractAckFromVendorIe
  rw [Element.len_toNat]
  by_cases h4 : 4 ≤ e.body.length
  · rw [List.take_append_of_le_length (by omega), List.drop_append_of_le_length (by omega),
      List.take_append_of_le_length (by simp),
      List.take_of_length_le (l := List.drop 3 e.body) (by simp)]
  · simp [h4]

/-- The last element decides, when it carries a number. -/
theorem foldl_ackElement_snoc (ack : Int) (es : List Element) {e : Element} (h : IsAck e) :
    (es ++ [e]).foldl ackElement ack = atoi (e.body.drop 3) := by
  rw [List.foldl_append, List.foldl_cons, List.foldl_nil, ackElement, if_pos h]

/-- An entry without elements is skipped. -/
theorem getAck_skip (ack : Int) {entry : ScanEntry}
    (h : (entry.bss && entry.bssid) = false ∨ entry.informationElements = none) :
    getAck ack entry = ack := by
  rcases h with h | h <;> simp [getAck, h]

end ProbeStuffing.Client

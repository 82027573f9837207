import ProbeStuffing.Ap.ShellCommand
import ProbeStuffing.System.Acknowledged

/-!
# What an access point forwards

An access point puts a frame together from up to 1394 bytes of data and formats
them, behind seven more fields, into a buffer of 500 bytes.  The command is
sized by the record, so it never cuts it again (`command_eq`).

All other fields have a known width, so the data comes through whole exactly up
to some length (`forwardsWhole_iff`): 426 bytes as long as the clock of the access
point prints with its 18 digits, and a byte less for each digit more.
-/

namespace ProbeStuffing.System

open CString Tlv Client Ap

/-- The record has all eight fields, its length field is the number of data
bytes in it, and the command has the record between its quotes. -/
structure ForwardsWhole (f : Frame) (ts csv cmd : Bytes) : Prop where
  fields : csv = [44].intercalate
    [f.received.clientMac, f.received.timestampStr, ts, f.received.seqNumStr, [49],
      f.received.mfbStr, decimal f.received.iesLen, f.received.recvData]
  length : f.received.iesLen = f.received.recvData.length
  command : cmd = tcpClient.flatMap (· ++ [32]) ++ ascii "-s" ++ [34] ++ csv ++ [34]

/-- The clock of an access point, as it is printed. -/
def clock (env : Env) : Nat := (env.tvSec * 1000000 + env.tvUsec) % 2 ^ 64

theorem csvHead_received_length {f : Frame} (h : f.Ok) (ts : Bytes) :
    (f.received.csvHead ts).length =
      52 + ts.length + (decimal f.fragment.data.length).length := by
  have hmac : f.client.str.length = 17 := f.client.str_length
  have hts : f.message.ts.length = 18 := f.message.ts_length
  have hseq : (fmtPad 8 f.seqNum).length = 8 := fmtPad_length (by omega) h.seqNum_lt
  have hmfb : (decimal f.fragment.mfb).length = 1 := by
    rw [decimal_lt h.mfb_lt, List.length_singleton]
  have hone : (ascii ",1,").length = 3 := rfl
  simp only [Received.csvHead, Frame.received, List.length_append, List.length_singleton, hmac, hts,
    hseq, hmfb, hone]
  ring

/-- The record is whole when it fits its buffer. -/
theorem csv_received_iff (f : Frame) (ts : Bytes) :
    f.received.csv ts = f.received.csvHead ts ++ f.received.recvData ↔
      (f.received.csvHead ts).length + f.received.recvData.length < 500 := by
  rw [Received.csv, ← List.length_append]
  exact snprintf_eq_self_iff (by decide)

/-- A frame that is not dropped at once is passed on. -/
theorem handleProbeReq_systemCall {f : Frame} (h : f.Ok) (env : Env)
    (hcb : env.probereqCb = false) (hsend : env.sendProbeResponse = true) (conf : BssConf) :
    ∃ conf' es, handleProbeReq env f.bytes conf = some (conf', es) ∧
      .systemCall (command (f.received.csv (apTimestampStr env.tvSec env.tvUsec)))
        env.systemStatus ∈ es := by
  obtain ⟨hres, hover, -⟩ := h.parse
  have hstuffing : (handleStuffing env f.client (ieee80211ParseElems f.ie).2 conf).2 =
      [.stuffed f.client f.received, .systemCall
        (command (f.received.csv (apTimestampStr env.tvSec env.tvUsec))) env.systemStatus] := by
    rw [handleStuffing, h.extract_eq env.heap]
  have haccepted : accepted env f.bytes = some
      (⟨f.around.da, f.client, f.around.bssid, f.ie⟩, (ieee80211ParseElems f.ie).2) :=
    accepted_iff.mpr ⟨f.mgmt, hcb, hsend, hres, rfl⟩
  refine ⟨_, _, handleProbeReq_of_accepted haccepted hover conf, List.mem_append_left _ ?_⟩
  rw [hstuffing]
  exact List.mem_cons_of_mem _ List.mem_cons_self

/-- All of it fits when the widths of the fields add up to less than the buffer. -/
theorem forwardsWhole_command_iff {f : Frame} (h : f.Ok) (ts : Bytes) :
    ForwardsWhole f ts (f.received.csv ts) (command (f.received.csv ts)) ↔
      52 + ts.length + (decimal f.fragment.data.length).length + f.fragment.data.length < 500 := by
  have hlen : f.received.recvData.length = f.fragment.data.length := rfl
  rw [← csvHead_received_length h, ← hlen, ← csv_received_iff, Received.csvHead_append]
  constructor
  · intro hwhole
    exact hwhole.fields
  · intro hfields
    exact ⟨hfields, rfl, command_eq _⟩

/-- The access point forwards the whole payload of a frame exactly when it has
at most 426 bytes, less what the clock prints beyond 18 digits. -/
theorem forwardsWhole_iff {f : Frame} (h : f.Ok) {env : Env} {conf conf' : BssConf}
    {es : List Ap.Event} (hrun : handleProbeReq env f.bytes conf = some (conf', es)) {cmd : Bytes}
    {status : Int} (hcall : .systemCall cmd status ∈ es) :
    let ts := apTimestampStr env.tvSec env.tvUsec
    ForwardsWhole f ts (f.received.csv ts) cmd ↔
      f.fragment.data.length ≤ 424 ∨ (f.fragment.data.length = 425 ∧ clock env < 10 ^ 19) ∨
        (f.fragment.data.length = 426 ∧ clock env < 10 ^ 18) := by
  intro ts
  rw [systemCall_eq h hrun hcall, forwardsWhole_command_iff h]
  have hclock : clock env < 10 ^ 20 := lt_trans (Nat.mod_lt _ (by norm_num)) (by norm_num)
  have h20 : ts.length ≤ 20 := (fmtPad_length_le_iff (by omega) (by omega)).mpr hclock
  have h19 : ts.length ≤ 19 ↔ clock env < 10 ^ 19 := fmtPad_length_le_iff (by omega) (by omega)
  have h18 : ts.length ≤ 18 ↔ clock env < 10 ^ 18 := fmtPad_length_le_iff (by omega) (by omega)
  have hmin : 18 ≤ ts.length := le_fmtPad_length 18 _
  -- the length field has three digits wherever the sum is near the bound
  have hd2 : (decimal f.fragment.data.length).length ≤ 2 ↔ f.fragment.data.length < 10 ^ 2 :=
    decimal_length_le_iff (by omega)
  have hd3 : (decimal f.fragment.data.length).length ≤ 3 ↔ f.fragment.data.length < 10 ^ 3 :=
    decimal_length_le_iff (by omega)
  omega

/-- A frame with one payload, the letter `A` repeated. -/
def payloadFrame (n : Nat) (h : n ≤ 1394) : Frame :=
  let m : Message :=
    { effort := 1
      dataToStuff := List.replicate n 65
      tvSec := 1
      tvUsec := 2
      nulFree := by
        intro b hb
        rw [List.eq_of_mem_replicate hb]
        decide
      fits := by
        rw [List.length_replicate]
        omega
      usec_lt := by decide }
  ⟨⟨2, 0, 0, 0, 0, 7⟩, m, 0, fragmentOf m.dataToStuff m.ts 0,
    ⟨⟨255, 255, 255, 255, 255, 255⟩, ⟨255, 255, 255, 255, 255, 255⟩, [], [], ordinary_nil⟩⟩

theorem payloadFrame_ok {n : Nat} (hpos : 0 < n) (h : n ≤ 1394) : (payloadFrame n h).Ok where
  fragment := rfl
  start_lt := by
    show 1394 * 0 < (List.replicate n 65).length
    rwa [Nat.mul_zero, List.length_replicate]

theorem payloadFrame_length {n : Nat} (h : n ≤ 1394) :
    (payloadFrame n h).fragment.data.length = n := by
  show (slice (List.replicate n 65) (1394 * 0) (min (1394 * (0 + 1)) _)).length = n
  simp only [slice, List.length_drop, List.length_take, List.length_replicate]
  omega

/-- 426 bytes come through. -/
theorem forwardsWhole_payloadFrame : ∃ conf' es cmd,
    handleProbeReq {} (payloadFrame 426 (by decide)).bytes {} = some (conf', es) ∧
      .systemCall cmd 0 ∈ es ∧
      ForwardsWhole (payloadFrame 426 (by decide)) (apTimestampStr 0 0)
        ((payloadFrame 426 (by decide)).received.csv (apTimestampStr 0 0)) cmd := by
  have hok := payloadFrame_ok (n := 426) (by decide) (by decide)
  obtain ⟨conf', es, hrun, hcall⟩ := handleProbeReq_systemCall hok {} rfl rfl {}
  refine ⟨conf', es, _, hrun, hcall, (forwardsWhole_iff hok hrun hcall).mpr (.inr (.inr ⟨?_, ?_⟩))⟩
  · exact payloadFrame_length _
  · decide

/-- 427 bytes do not. -/
theorem not_forwardsWhole_payloadFrame : ∃ conf' es cmd,
    handleProbeReq {} (payloadFrame 427 (by decide)).bytes {} = some (conf', es) ∧
      .systemCall cmd 0 ∈ es ∧
      ¬ ForwardsWhole (payloadFrame 427 (by decide)) (apTimestampStr 0 0)
        ((payloadFrame 427 (by decide)).received.csv (apTimestampStr 0 0)) cmd := by
  have hok := payloadFrame_ok (n := 427) (by decide) (by decide)
  obtain ⟨conf', es, hrun, hcall⟩ := handleProbeReq_systemCall hok {} rfl rfl {}
  refine ⟨conf', es, _, hrun, hcall, fun hwhole => ?_⟩
  have hsum := (forwardsWhole_command_iff hok _).mp hwhole
  rw [payloadFrame_length] at hsum
  exact absurd hsum (by decide)

end ProbeStuffing.System

import ProbeStuffing.Ap.AckSlot

/-!
# The forwarding command

The access point passes a command line to `system` in which the record of a
stuffed request stands between double quotes.  The record ends with bytes of the
request: the three header strings and the data, cut where the record buffer
ends.  Nothing is escaped on the way.

`QuotesRecord` is what the quotes are there for: no byte of the record is
interpreted by the shell, and the line is one command whose `-s` word is the
record.  The fixed part of the line and the fields the access point writes
itself are harmless, so this holds exactly when the bytes of the request are
(`handleProbeReq_quotes_iff`).
-/

namespace ProbeStuffing.Ap

open CString Shell

/-- The line is the client's command with the record in double quotes, none of
the record is interpreted there, and the shell reads back the record. -/
def QuotesRecord (line csv : Bytes) : Prop :=
  line = tcpClient.flatMap (· ++ [32]) ++ ascii "-s" ++ [34] ++ csv ++ [34] ∧
    Literal csv ∧ shWords line = some (tcpClient ++ [ascii "-s" ++ csv])

/-! ## The line -/

/-- The buffer of the line always suffices. -/
theorem command_eq (csv : Bytes) :
    command csv = tcpClient.flatMap (· ++ [32]) ++ ascii "-s" ++ [34] ++ csv ++ [34] := by
  have hfix : (tcpClient.flatMap (· ++ [32]) ++ ascii "-s" ++ [34]).length < 199 := by decide
  refine snprintf_eq_self ?_
  rw [List.length_append, List.length_append, List.length_singleton]
  omega

theorem shWords_command {csv : Bytes} (h : Literal csv) :
    shWords (command csv) = some (tcpClient ++ [ascii "-s" ++ csv]) := by
  have hplain : ∀ w ∈ tcpClient, w ≠ [] ∧ w.all isPlain = true := by decide
  have hlast : words .blank [] (ascii "-s" ++ ([34] ++ csv ++ [34])) =
      some [ascii "-s" ++ csv] := by
    exact words_option (by decide) h
  rw [command_eq, shWords, List.append_assoc, List.append_assoc, List.append_assoc,
    ← List.append_assoc [34], words_plain_list hplain, hlast]
  rfl

theorem quotesRecord_iff {csv : Bytes} : QuotesRecord (command csv) csv ↔ Literal csv := by
  constructor
  · exact fun h => h.2.1
  · exact fun h => ⟨command_eq csv, h, shWords_command h⟩

/-! ## The record -/

theorem hexDigit_plain {d : Nat} (h : d < 16) : ¬ Interpreted (hexDigit d) ∧ hexDigit d ≠ 0 := by
  have hall : ∀ d ∈ List.range 16, ¬ Interpreted (hexDigit d) ∧ hexDigit d ≠ 0 := by decide
  exact hall d (List.mem_range.mpr h)

theorem hex2_plain (b : UInt8) : Literal (hex2 b) := by
  have hb := b.toNat_lt
  intro c hc
  rcases List.mem_cons.mp hc with rfl | hc
  · exact (hexDigit_plain (by omega)).1
  · rw [List.mem_singleton.mp hc]
    exact (hexDigit_plain (by omega)).1

theorem literal_mac (a : Mac) : Literal a.str := by
  have hcolon (b : UInt8) : Literal (58 :: hex2 b) :=
    literal_append.mpr ⟨(by decide : Literal [58]), hex2_plain b⟩
  simp only [Mac.str, literal_append, hex2_plain, hcolon, true_and]

/-- A body has at most 252 bytes of data. -/
theorem iesLen_le : ∀ {bodies : List Bytes}, (∀ body ∈ bodies, body.length ≤ 255) →
    (bodies.map fun body => body.length - 3).sum ≤ 252 * bodies.length
  | [], _ => Nat.le_refl 0
  | body :: bodies, h => by
      have hrest := iesLen_le fun b hb => h b (List.mem_cons_of_mem body hb)
      have hbody := h body List.mem_cons_self
      rw [List.map_cons, List.sum_cons, List.length_cons]
      omega

theorem apTimestampStr_length_le (sec usec : Nat) : (apTimestampStr sec usec).length ≤ 20 := by
  have hlt : (sec * 1000000 + usec) % 2 ^ 64 < 10 ^ 20 := by omega
  exact (fmtPad_length_le_iff (by omega) (by omega)).mpr hlt

/-- The header of the record is short, so only data is ever cut. -/
theorem csvHead_length_le {sa : Mac} {stuffedData : List Bytes} {heap : Bytes} {x : Received}
    (hx : extract sa stuffedData heap = some x) (hn : stuffedData.length ≤ 10)
    (hbody : ∀ body ∈ stuffedData, body.length ≤ 255) (sec usec : Nat) :
    (x.csvHead (apTimestampStr sec usec)).length ≤ 499 := by
  cases stuffedData with
  | nil => cases hx
  | cons header rest =>
      obtain rfl := Option.some.inj hx
      have hmac : sa.str.length = 17 := sa.str_length
      have hts := apTimestampStr_length_le sec usec
      have h8 := strncpy_length_le (additionalData header heap) 8
      have h18 := strncpy_length_le ((additionalData header heap).drop 8) 18
      have h1 := strncpy_length_le ((additionalData header heap).drop 26) 1
      have hies : (rest.map fun body => body.length - 3).sum < 10 ^ 4 := by
        have := iesLen_le fun body hb => hbody body (List.mem_cons_of_mem header hb)
        rw [List.length_cons] at hn
        omega
      have h4 := decimal_length_le (by omega) hies
      have hsep : (ascii ",1,").length = 3 := rfl
      simp only [Received.csvHead, List.length_append, List.length_singleton, hmac, hsep]
      omega

/-- Only bytes of the request can be interpreted in a record. -/
theorem literal_csvHead_iff {x : Received} (sa : Mac) (hx : x.clientMac = sa.str)
    (sec usec : Nat) :
    Literal (x.csvHead (apTimestampStr sec usec)) ↔
      Literal x.timestampStr ∧ Literal x.seqNumStr ∧ Literal x.mfbStr := by
  have hts : Literal (apTimestampStr sec usec) := literal_of_isDigit isDigit_of_mem_fmtPad
  have hies : Literal (decimal x.iesLen) := literal_of_isDigit (isDigit_of_mem_decimal _)
  have hcomma : Literal [44] := by decide
  have hone : Literal (ascii ",1,") := by decide
  simp only [Received.csvHead, literal_append, hx, literal_mac, hts, hies, hcomma, hone, true_and,
    and_true, and_assoc]

/-- A record that is cut keeps its header. -/
theorem csv_eq {x : Received} {ts : Bytes} (h : (x.csvHead ts).length ≤ 499) :
    x.csv ts = x.csvHead ts ++ x.recvData.take (499 - (x.csvHead ts).length) := by
  rw [Received.csv, snprintf, List.take_append, List.take_of_length_le h]

/-! ## The handler -/

/-- For every request it accepts, the handler runs one command, and the quotes
of that command hold the record exactly when neither the header strings nor the
data in the record contain a byte the shell interprets. -/
theorem handleProbeReq_quotes_iff {env : Env} {frame : Bytes} {mgmt : Mgmt} {elems : Elems}
    {x : Received} (ha : accepted env frame = some (mgmt, elems)) (hover : ¬ elems.overrun)
    (hx : extract mgmt.sa (elems.stuffedData.take elems.nStuffedIes.toNat) env.heap = some x)
    (conf : BssConf) :
    let ts := apTimestampStr env.tvSec env.tvUsec
    ∃ conf' es, handleProbeReq env frame conf = some (conf', es) ∧
      (∀ line status, .systemCall line status ∈ es ↔
        line = command (x.csv ts) ∧ status = env.systemStatus) ∧
      (QuotesRecord (command (x.csv ts)) (x.csv ts) ↔
        Literal x.timestampStr ∧ Literal x.seqNumStr ∧ Literal x.mfbStr ∧
          Literal (x.recvData.take (499 - (x.csvHead ts).length))) := by
  intro ts
  obtain ⟨-, -, -, -, helems⟩ := accepted_iff.mp ha
  have hrec : RecordOk elems := helems ▸ parseElems_recordOk mgmt.ie
  rw [hrec.take_stuffedData hover] at hx
  refine ⟨_, _, handleProbeReq_of_accepted ha hover conf, fun line status => ?_, ?_⟩
  · have hstuffing : (handleStuffing env mgmt.sa elems conf).2 =
        [.stuffed mgmt.sa x, .systemCall (command (x.csv ts)) env.systemStatus] := by
      rw [handleStuffing, hrec.take_stuffedData hover, hx]
    have hreply : .systemCall line status ∉
        (handleReply env mgmt elems (handleStuffing env mgmt.sa elems conf).1).2 := by
      rcases handleReply_cases env mgmt elems (handleStuffing env mgmt.sa elems conf).1 with
        ⟨-, h⟩ | ⟨-, resp, noack, h, -⟩ <;> simp [h]
    simp [hstuffing, hreply]
  · have hhead := csvHead_length_le hx (Nat.le_of_not_lt hover) hrec.2 env.tvSec env.tvUsec
    have hmac : x.clientMac = mgmt.sa.str := by
      cases hd : elems.stuffedData with
      | nil => simp [hd, extract] at hx
      | cons header rest =>
          rw [hd] at hx
          obtain rfl := Option.some.inj hx
          rfl
    rw [quotesRecord_iff, csv_eq hhead, literal_append,
      literal_csvHead_iff mgmt.sa hmac, and_assoc, and_assoc]

/-- A request with a full header and some data. -/
def dataProbe (data : Bytes) : Bytes :=
  broadcastProbe 7 ([221, 30, 1, 2, 3] ++ ascii "00000000" ++ ascii "000000000000000001" ++
    ascii "0" ++ [221, UInt8.ofNat (data.length + 3), 1, 2, 3] ++ data)

/-- The data `Lorem` is one word. -/
theorem handleProbeReq_quotes_header : ∃ conf' es line csv,
    handleProbeReq {} (dataProbe (ascii "Lorem")) {} = some (conf', es) ∧
      .systemCall line 0 ∈ es ∧ QuotesRecord line csv := by
  have ha : accepted {} (dataProbe (ascii "Lorem")) = some (_, _) := rfl
  obtain ⟨conf', es, hes, hcall, hquotes⟩ := handleProbeReq_quotes_iff ha (by decide) rfl {}
  exact ⟨conf', es, _, _, hes, (hcall _ 0).mpr ⟨rfl, rfl⟩, hquotes.mpr (by decide)⟩

/-- The shell runs the command `x` on the data `$(x)`. -/
def substitution : Bytes := ascii "$(x)"

theorem handleProbeReq_quotes_dollar : ∃ conf' es line csv status,
    handleProbeReq {} (dataProbe substitution) {} = some (conf', es) ∧
      .systemCall line status ∈ es ∧ line = command csv ∧ ¬ QuotesRecord line csv := by
  have ha : accepted {} (dataProbe substitution) = some (_, _) := rfl
  have hrun := handleProbeReq_of_accepted ha (by decide) {}
  refine ⟨_, _, command (Received.csv ⟨ascii "02:00:00:00:00:07", ascii "00000000",
    ascii "000000000000000001", ascii "0", substitution, 4⟩ (apTimestampStr 0 0)), _, 0, hrun,
    List.mem_append_left _ ?_, rfl, ?_⟩
  · exact List.mem_cons_of_mem _ List.mem_cons_self
  · rw [quotesRecord_iff]
    decide

end ProbeStuffing.Ap

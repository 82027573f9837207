import ProbeStuffing.Client.Input
import ProbeStuffing.Controller.TcpClient
import ProbeStuffing.Lib.Shell

/-!
# The command lines of the generators

Two programs make random strings and send them off, one with the probe stuffing
client and one with the TCP client.  Each formats a command line for `system`,
with the string between double quotes.  The buffer has 100 bytes more than the
string, and `snprintf` is told that it has 300 more.

So `snprintf` cuts nothing before the buffer is exceeded, and the line has to fit
by itself.  The path and the options of the first program leave 14 bytes for the
name of the interface, which may have 15.  Those of the second leave 23 for the
host, the port, the timestamp and the length of the string, and the timestamp
alone has 18.  A line that fits, and that the kernel takes as one argument of the
shell, gives the string to the client as it was made (`delivers_iff`).
-/

namespace ProbeStuffing.DataGen

open CString Shell Controller

/-! ## The programs -/

/-- `INT_MAX`. -/
def intMax : Nat := 2 ^ 31 - 1

def alphanum : Bytes := ascii "0123456789ABCDEFGHIJKLMNOPQRSTUVWXYZabcdefghijklmnopqrstuvwxyz"

/-- `gen_rand_string`; `rand` gives the results of `rand()`, and `alphanum` is
`sizeof(alphanum) - 1` characters long. -/
def genRandString (argBytes : Nat) (rand : Nat → Nat) : Bytes :=
  (List.range argBytes).map fun i : Nat => alphanum.getD (rand i % alphanum.length) 0

/-- A command line: the size of its block, the bound given to `snprintf`, and what
the format expands to. -/
structure Command where
  allocated : Nat
  bound : Nat
  text : Bytes
deriving DecidableEq

/-- `calloc(ARG_BYTES + 100, sizeof(char))` and `snprintf(.., ARG_BYTES + 300, ..)`. -/
def formatCommand (argBytes : Nat) (text : Bytes) : Command where
  allocated := argBytes + 100
  bound := argBytes + 300
  text := text

/-- The string that is run. -/
def Command.written (command : Command) : Bytes := snprintf command.bound command.text

def pathToProbingScript : Bytes :=
  ascii "/home/mate/Desktop/domf-code/data_over_wifi/probe_stuffing/probe_stuffing"

/-- `"%s -i%s -d\"%s\" -e1"` -/
def probeText (argIface randstr : Bytes) : Bytes :=
  pathToProbingScript ++ ascii " -i" ++ argIface ++ ascii " -d" ++ [34] ++ randstr ++ [34] ++
    ascii " -e1"

/-- `main` of `send_randdata_over_probe`, up to the call of `system`; `none` is
`error`. -/
def probeMain (argIface : Option Bytes) (argBytes : Nat) (rand : Nat → Nat) : Option Command :=
  match argIface with
  | none => none
  | some argIface =>
      if argIface = [] then none
      else
        let randstr := genRandString argBytes rand
        some (formatCommand argBytes (probeText argIface randstr))

/-- `gen_ts`, an `unsigned long long`. -/
def genTs (sec usec : Nat) : Nat := (sec * 1000000 + usec) % 2 ^ 64

def pathToTcpClient : Bytes := ascii "/home/mate/Desktop/domf-code/bin/tcpclient.out"

/-- `"NA,%018llu,0,0,0,0,%d,%s"` -/
def tcpRecord (genTs : Nat) (randstr : Bytes) : Bytes :=
  ascii "NA," ++ fmtPad 18 genTs ++ ascii ",0,0,0,0," ++ decimal randstr.length ++ [44] ++ randstr

/-- `".. --tcp -h%s -p%d -s\"..\""` -/
def tcpText (argHost : Bytes) (argPort : Int) (record : Bytes) : Bytes :=
  pathToTcpClient ++ ascii " --tcp -h" ++ argHost ++ ascii " -p" ++ fmtInt argPort ++
    ascii " -s" ++ [34] ++ record ++ [34]

/-- `main` of `send_randdata_over_tcp`, up to the call of `system`. -/
def tcpMain (argHost : Option Bytes) (argPort : Int) (argBytes : Nat) (rand : Nat → Nat)
    (sec usec : Nat) : Option Command :=
  if argPort = -1 then none
  else
    match argHost with
    | none => none
    | some argHost =>
        if argHost = [] then none
        else
          let randstr := genRandString argBytes rand
          some (formatCommand argBytes
            (tcpText argHost argPort (tcpRecord (genTs sec usec) randstr)))

/-! ## The string -/

theorem genRandString_length (argBytes : Nat) (rand : Nat → Nat) :
    (genRandString argBytes rand).length = argBytes := by
  rw [genRandString, List.length_map, List.length_range]

/-- Its bytes are letters and digits. -/
theorem mem_genRandString {argBytes : Nat} {rand : Nat → Nat} :
    ∀ b ∈ genRandString argBytes rand, b ∈ alphanum := by
  intro b hb
  obtain ⟨i, -, rfl⟩ := List.mem_map.mp hb
  have hlt : rand i % alphanum.length < alphanum.length := Nat.mod_lt _ (by decide)
  rw [List.getD_eq_getElem?_getD, List.getElem?_eq_getElem hlt, Option.getD_some]
  exact List.getElem_mem hlt

theorem literal_genRandString (argBytes : Nat) (rand : Nat → Nat) :
    Literal (genRandString argBytes rand) := by
  have hall : Literal alphanum := by decide
  exact fun b hb => hall b (mem_genRandString b hb)

/-! ## What the shell makes of the lines -/

theorem all_isPlain_fmtInt (z : Int) : (fmtInt z).all isPlain = true := by
  have hdecimal : (decimal z.natAbs).all isPlain = true := by
    rw [List.all_eq_true]
    exact fun b hb => isPlain_of_isDigit (isDigit_of_mem_decimal _ b hb)
  rw [fmtInt]
  split
  · rw [List.all_cons, hdecimal]
    rfl
  · exact hdecimal

theorem plainWord_append {s t : Bytes} (hs : s ≠ [] ∧ s.all isPlain = true)
    (ht : t.all isPlain = true) : s ++ t ≠ [] ∧ (s ++ t).all isPlain = true := by
  rw [List.all_append, hs.2, ht]
  exact ⟨List.append_ne_nil_of_left_ne_nil hs.1 t, rfl⟩

/-- The words of the first line, for a name of plain characters. -/
theorem shWords_probeText {argIface randstr : Bytes} (hiface : argIface.all isPlain = true)
    (hrand : Literal randstr) :
    shWords (probeText argIface randstr) =
      some [pathToProbingScript, ascii "-i" ++ argIface, ascii "-d" ++ randstr, ascii "-e1"] := by
  have hplain : ∀ w ∈ [pathToProbingScript, ascii "-i" ++ argIface],
      w ≠ [] ∧ w.all isPlain = true := by
    rw [List.forall_mem_cons, List.forall_mem_singleton]
    exact ⟨by decide, plainWord_append (by decide) hiface⟩
  have hlast : words .blank [] (45 :: 100 :: 34 :: (randstr ++ 34 :: ascii " -e1")) =
      some [ascii "-d" ++ randstr, ascii "-e1"] := by
    rw [words_option (by decide) hrand]
    rfl
  have hline : probeText argIface randstr =
      [pathToProbingScript, ascii "-i" ++ argIface].flatMap (· ++ [32]) ++
        (45 :: 100 :: 34 :: (randstr ++ 34 :: ascii " -e1")) := by
    have hblank : ascii " -i" = 32 :: ascii "-i" := rfl
    have hd : ascii " -d" = [32, 45, 100] := rfl
    simp [probeText, hblank, hd]
  rw [hline, shWords, words_plain_list hplain, hlast]
  rfl

/-- The options the client reads from it. -/
theorem options_probeText {argIface randstr : Bytes} (hiface : argIface ≠ [])
    (hrand : randstr ≠ []) :
    Client.options [ascii "-i" ++ argIface, ascii "-d" ++ randstr, ascii "-e1"] =
      { effort := 1, wifiInterface := some argIface, dataToStuff := some randstr } := by
  obtain ⟨b, iface, rfl⟩ := List.exists_cons_of_ne_nil hiface
  obtain ⟨c, data, rfl⟩ := List.exists_cons_of_ne_nil hrand
  have hspelled : List.Forall₂ Getopt.Spelled [(105, b :: iface), (100, c :: data), (101, [49])]
      [[45 :: 105 :: b :: iface], [45 :: 100 :: c :: data], [[45, 101, 49]]] :=
    .cons (.attached _ _ _) (.cons (.attached _ _ _) (.cons (.attached _ _ _) .nil))
  have hget : Getopt.getopt Client.isOption
      [ascii "-i" ++ b :: iface, ascii "-d" ++ c :: data, ascii "-e1"] =
        [some (105, b :: iface), some (100, c :: data), some (101, [49])] :=
    Getopt.getopt_spelled (by decide) hspelled (by simp [Client.isOption])
  rw [Client.options, hget]
  rfl

/-- The words of the second line, for a host of plain characters. -/
theorem shWords_tcpText {argHost record : Bytes} (argPort : Int)
    (hhost : argHost.all isPlain = true) (hrecord : Literal record) :
    shWords (tcpText argHost argPort record) =
      some [pathToTcpClient, ascii "--tcp", ascii "-h" ++ argHost, ascii "-p" ++ fmtInt argPort,
        ascii "-s" ++ record] := by
  have hplain : ∀ w ∈ [pathToTcpClient, ascii "--tcp", ascii "-h" ++ argHost,
      ascii "-p" ++ fmtInt argPort], w ≠ [] ∧ w.all isPlain = true := by
    rw [List.forall_mem_cons, List.forall_mem_cons, List.forall_mem_cons,
      List.forall_mem_singleton]
    exact ⟨by decide, by decide, plainWord_append (by decide) hhost,
      plainWord_append (by decide) (all_isPlain_fmtInt argPort)⟩
  have hlast : words .blank [] (45 :: 115 :: 34 :: (record ++ 34 :: [])) =
      some [ascii "-s" ++ record] := by
    rw [words_option (by decide) hrecord]
    rfl
  have hline : tcpText argHost argPort record =
      [pathToTcpClient, ascii "--tcp", ascii "-h" ++ argHost,
        ascii "-p" ++ fmtInt argPort].flatMap (· ++ [32]) ++
          (45 :: 115 :: 34 :: (record ++ 34 :: [])) := by
    have hh : ascii " --tcp -h" = 32 :: (ascii "--tcp" ++ 32 :: ascii "-h") := rfl
    have hp : ascii " -p" = 32 :: ascii "-p" := rfl
    have hs : ascii " -s" = [32, 45, 115] := rfl
    simp [tcpText, hh, hp, hs]
  rw [hline, shWords, words_plain_list hplain, hlast]
  rfl

theorem literal_tcpRecord {randstr : Bytes} (ts : Nat) (h : Literal randstr) :
    Literal (tcpRecord ts randstr) := by
  have hts : Literal (fmtPad 18 ts) := literal_of_isDigit isDigit_of_mem_fmtPad
  have hcount : Literal (decimal randstr.length) := literal_of_isDigit (isDigit_of_mem_decimal _)
  have hna : Literal (ascii "NA,") := by decide
  have hzeros : Literal (ascii ",0,0,0,0,") := by decide
  have hcomma : Literal [44] := by decide
  simp only [tcpRecord, literal_append, hna, hts, hzeros, hcount, hcomma, h, and_true]

/-! ## Room for the line -/

/-- `MAX_ARG_STRLEN` of the kernel: one argument of a program and its terminator. -/
def maxArgStrlen : Nat := 131072

/-- The line and its terminator are inside the block, whose size and bound are
computed without overflow.  The kernel takes the line as an argument of the shell,
and the shell starts a program that receives what it should. -/
structure Command.Delivers (command : Command) (receives : List Bytes → Prop) : Prop where
  bound_le : command.bound ≤ intMax
  fits : command.written.length + 1 ≤ command.allocated
  arg_le : command.written.length + 1 ≤ maxArgStrlen
  received : ∃ words, shWords command.written = some words ∧ receives words

section Format

variable {argBytes : Nat} {text : Bytes} {receives : List Bytes → Prop}

theorem formatCommand_written_length :
    (formatCommand argBytes text).written.length = min (argBytes + 299) text.length :=
  List.length_take

/-- The bound cuts nothing that fits. -/
theorem formatCommand_written (h : text.length + 1 ≤ argBytes + 100) :
    (formatCommand argBytes text).written = text :=
  snprintf_eq_self (show text.length < argBytes + 300 by omega)

/-- What is cut does not fit either. -/
theorem Command.Delivers.text_fits (h : (formatCommand argBytes text).Delivers receives) :
    text.length + 1 ≤ argBytes + 100 := by
  have hfits : (formatCommand argBytes text).written.length + 1 ≤ argBytes + 100 := h.fits
  rw [formatCommand_written_length] at hfits
  omega

/-- For a line with room for the string, everything is a question of its length and of
what the shell makes of it. -/
theorem formatCommand_delivers_iff (hlen : argBytes ≤ text.length) :
    (formatCommand argBytes text).Delivers receives ↔
      text.length + 1 ≤ argBytes + 100 ∧ text.length + 1 ≤ maxArgStrlen ∧
        ∃ words, shWords text = some words ∧ receives words := by
  constructor
  · intro h
    have hwritten := formatCommand_written h.text_fits
    have harg := h.arg_le
    have hreceived := h.received
    rw [hwritten] at harg hreceived
    exact ⟨h.text_fits, harg, hreceived⟩
  · rintro ⟨hfits, harg, hreceived⟩
    have hwritten := formatCommand_written hfits
    have hbound : argBytes + 300 ≤ intMax := by
      have hmax : intMax = 2147483647 := rfl
      have hlimit : maxArgStrlen = 131072 := rfl
      omega
    rw [← hwritten] at hfits harg hreceived
    exact ⟨hbound, hfits, harg, hreceived⟩

end Format

/-- The number of decimal digits. -/
def numDigits (n : Nat) : Nat := Nat.log 10 n + 1

/-- The characters of a port. -/
def portWidth (argPort : Int) : Nat := (if argPort < 0 then 1 else 0) + numDigits argPort.natAbs

theorem probeText_length (argIface randstr : Bytes) :
    (probeText argIface randstr).length = 85 + argIface.length + randstr.length := by
  have hpath : pathToProbingScript.length = 73 := rfl
  have hi : (ascii " -i").length = 3 := rfl
  have hd : (ascii " -d").length = 3 := rfl
  have he : (ascii " -e1").length = 4 := rfl
  simp only [probeText, List.length_append, List.length_singleton, hpath, hi, hd, he]
  omega

theorem tcpText_length (argHost : Bytes) (argPort : Int) (ts : Nat) (randstr : Bytes) :
    (tcpText argHost argPort (tcpRecord ts randstr)).length =
      76 + argHost.length + portWidth argPort + max 18 (numDigits ts) +
        numDigits randstr.length + randstr.length := by
  have hpath : pathToTcpClient.length = 46 := rfl
  have hh : (ascii " --tcp -h").length = 9 := rfl
  have hp : (ascii " -p").length = 3 := rfl
  have hs : (ascii " -s").length = 3 := rfl
  have hna : (ascii "NA,").length = 3 := rfl
  have hzeros : (ascii ",0,0,0,0,").length = 9 := rfl
  simp only [tcpText, tcpRecord, List.length_append, List.length_singleton, hpath, hh, hp, hs, hna,
    hzeros, fmtInt_length, fmtPad_length_eq, decimal_length, portWidth, numDigits]
  omega

/-- The probe stuffing client is started on the string. -/
def ProbeReceives (randstr : Bytes) (words : List Bytes) : Prop :=
  ∃ args, words = pathToProbingScript :: args ∧ (Client.options args).dataToStuff = some randstr

/-- The TCP client is started on the record. -/
def TcpReceives (record : Bytes) (words : List Bytes) : Prop :=
  ∃ args, words = pathToTcpClient :: args ∧ lastValue 115 (clientOptions args) = some record

/-- Every command line that the first program formats delivers its string. -/
def ProbeDelivers (argIface : Bytes) (argBytes : Nat) (rand : Nat → Nat) : Prop :=
  ∀ command, probeMain (some argIface) argBytes rand = some command →
    command.Delivers (ProbeReceives (genRandString argBytes rand))

/-- So does every one of the second, in its record. -/
def TcpDelivers (argHost : Bytes) (argPort : Int) (argBytes : Nat) (rand : Nat → Nat)
    (sec usec : Nat) : Prop :=
  ∀ command, tcpMain (some argHost) argPort argBytes rand sec usec = some command →
    command.Delivers (TcpReceives (tcpRecord (genTs sec usec) (genRandString argBytes rand)))

/-- The line of the first program is inside its block, and the kernel takes it. -/
def ProbeFits (argIface : Bytes) (argBytes : Nat) : Prop :=
  argIface.length ≤ 14 ∧ 86 + argIface.length + argBytes ≤ maxArgStrlen

/-- The characters of the second line that are not fixed, without the string. -/
def tcpWidth (argHost : Bytes) (argPort : Int) (ts argBytes : Nat) : Nat :=
  argHost.length + portWidth argPort + max 18 (numDigits ts) + numDigits argBytes

/-- The line of the second program is inside its block, and the kernel takes it. -/
def TcpFits (argHost : Bytes) (argPort : Int) (ts argBytes : Nat) : Prop :=
  tcpWidth argHost argPort ts argBytes ≤ 23 ∧
    77 + tcpWidth argHost argPort ts argBytes + argBytes ≤ maxArgStrlen

instance (argIface : Bytes) (argBytes : Nat) : Decidable (ProbeFits argIface argBytes) :=
  inferInstanceAs (Decidable (_ ∧ _))

instance (argHost : Bytes) (argPort : Int) (ts argBytes : Nat) :
    Decidable (TcpFits argHost argPort ts argBytes) :=
  inferInstanceAs (Decidable (_ ∧ _))

section Probe

variable {argIface : Bytes} {argBytes : Nat} {rand : Nat → Nat}

theorem probeDelivers_eq (hiface : argIface ≠ []) :
    ProbeDelivers argIface argBytes rand ↔ ProbeFits argIface argBytes ∧
      ∃ words, shWords (probeText argIface (genRandString argBytes rand)) = some words ∧
        ProbeReceives (genRandString argBytes rand) words := by
  have hlen := probeText_length argIface (genRandString argBytes rand)
  rw [genRandString_length] at hlen
  have hiff := @formatCommand_delivers_iff argBytes (probeText argIface
    (genRandString argBytes rand)) (ProbeReceives (genRandString argBytes rand)) (by omega)
  simp only [ProbeDelivers, probeMain, hiface, if_false, Option.some.injEq, forall_eq', hiff,
    ← and_assoc, ProbeFits]
  refine and_congr_left' ?_
  omega

/-- The shell gives the string to the client, for a name of plain characters. -/
theorem probe_received (hne : argIface ≠ []) (hiface : argIface.all isPlain = true)
    (hbytes : 0 < argBytes) :
    ∃ words, shWords (probeText argIface (genRandString argBytes rand)) = some words ∧
      ProbeReceives (genRandString argBytes rand) words := by
  have hrand : genRandString argBytes rand ≠ [] :=
    List.ne_nil_of_length_pos (by rwa [genRandString_length])
  refine ⟨_, shWords_probeText hiface (literal_genRandString argBytes rand), _, rfl, ?_⟩
  rw [options_probeText hne hrand]

end Probe

section Tcp

variable {argHost : Bytes} {argPort : Int} {argBytes : Nat} {rand : Nat → Nat} {sec usec : Nat}

theorem tcpDelivers_eq (hport : argPort ≠ -1) (hhost : argHost ≠ []) :
    TcpDelivers argHost argPort argBytes rand sec usec ↔
      TcpFits argHost argPort (genTs sec usec) argBytes ∧
        ∃ words, shWords (tcpText argHost argPort
            (tcpRecord (genTs sec usec) (genRandString argBytes rand))) = some words ∧
          TcpReceives (tcpRecord (genTs sec usec) (genRandString argBytes rand)) words := by
  have hlen := tcpText_length argHost argPort (genTs sec usec) (genRandString argBytes rand)
  rw [genRandString_length] at hlen
  have hiff := @formatCommand_delivers_iff argBytes (tcpText argHost argPort
    (tcpRecord (genTs sec usec) (genRandString argBytes rand)))
    (TcpReceives (tcpRecord (genTs sec usec) (genRandString argBytes rand))) (by omega)
  simp only [TcpDelivers, tcpMain, hport, hhost, if_false, Option.some.injEq, forall_eq', hiff,
    ← and_assoc, TcpFits, tcpWidth]
  refine and_congr_left' ?_
  omega

/-- The shell gives the record to the client, for a host of plain characters. -/
theorem tcp_received (hne : argHost ≠ []) (hhost : argHost.all isPlain = true) (ts : Nat)
    (randstr : Bytes) (hrand : Literal randstr) :
    ∃ words, shWords (tcpText argHost argPort (tcpRecord ts randstr)) = some words ∧
      TcpReceives (tcpRecord ts randstr) words := by
  have hrecord : tcpRecord ts randstr ≠ [] :=
    List.append_ne_nil_of_left_ne_nil (List.append_ne_nil_of_left_ne_nil
      (List.append_ne_nil_of_left_ne_nil (List.append_ne_nil_of_left_ne_nil
        (List.append_ne_nil_of_left_ne_nil (by decide) _) _) _) _) _
  refine ⟨_, shWords_tcpText argPort hhost (literal_tcpRecord ts hrand), _, rfl, ?_⟩
  rw [clientOptions_words argPort hne hrecord]
  rfl

end Tcp

end ProbeStuffing.DataGen

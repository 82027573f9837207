import Mathlib.Data.List.Induction
import ProbeStuffing.Client.Retries

/-!
# The log of a client

`log_info` appends one line to a file for each scan that was completed: the attempt,
the size of the data, two times and a status.  The file is opened for each line, and
when this fails the line is lost.

The lines of a message say what became of each of its fragments.  With guaranteed
delivery a fragment has a line with status -1 for each attempt that brought no ACK,
and then one with status 1; the attempts count from 1 to at most 4.  With any other
effort it has one line.  So the sizes in the lines with status 1 add up to the part of
the message that was acknowledged (`loggedLoop_accounts`).  A line ends at a newline
and its fields at commas, and everything in it can be read back (`loggedLoop_file`).
-/

namespace ProbeStuffing.Client

open CString Trace

/-! ## `log_info` -/

/-- The arguments of `log_info` that it writes. -/
structure LogRecord where
  attempt : Int
  dataSize : Int
  dataOriginTs : Nat
  dataOriginTsUsec : Nat
  dataTxTs : Nat
  dataTxTsUsec : Nat
  status : Int
deriving DecidableEq

/-- `"%u%06u"`. -/
def fmtTime (sec usec : Nat) : Bytes := decimal sec ++ fmtPad 6 usec

/-- The line of a record, without its newline. -/
def LogRecord.text (r : LogRecord) : Bytes :=
  fmtInt r.attempt ++ ascii ", " ++ fmtInt r.dataSize ++ ascii ", " ++
    fmtTime r.dataOriginTs r.dataOriginTsUsec ++ ascii ", " ++
    fmtTime r.dataTxTs r.dataTxTsUsec ++ ascii ", " ++ fmtInt r.status

def LogRecord.line (r : LogRecord) : Bytes := r.text ++ ascii "\n"

/-- A call of `log_info`, and whether it could open the file. -/
structure LogCall where
  record : LogRecord
  opened : Bool
deriving DecidableEq

/-- `log_info`: the file after a call. -/
def logInfo (file : Bytes) (call : LogCall) : Bytes :=
  if call.opened then file ++ call.record.line else file

/-- The lines of the calls that could open the file. -/
def linesOf (calls : List LogCall) : Bytes :=
  ((calls.filter LogCall.opened).map fun call => call.record.line).flatten

theorem foldl_logInfo : ∀ (calls : List LogCall) (file : Bytes),
    calls.foldl logInfo file = file ++ linesOf calls
  | [], file => (List.append_nil file).symm
  | call :: calls, file => by
      rw [List.foldl_cons, foldl_logInfo calls, logInfo, linesOf, linesOf]
      cases hopened : call.opened with
      | true => simp [hopened]
      | false => simp [hopened]

theorem linesOf_append (calls calls' : List LogCall) :
    linesOf (calls ++ calls') = linesOf calls ++ linesOf calls' := by
  rw [linesOf, List.filter_append, List.map_append, List.flatten_append]
  rfl

/-! ## Reading a log -/

/-- The two parts of a time. -/
def readTime (field : Bytes) : Nat × Nat :=
  (digitsVal (field.take (field.length - 6)), digitsVal (field.drop (field.length - 6)))

/-- The record of a line, between whose fields there are a comma and a space. -/
def readRecord (line : Bytes) : Option LogRecord :=
  match line.splitOn 44 with
  | [attempt, dataSize, origin, tx, status] =>
      let dataOrigin := readTime (origin.drop 1)
      let dataTx := readTime (tx.drop 1)
      some ⟨atoi attempt, atoi (dataSize.drop 1), dataOrigin.1, dataOrigin.2, dataTx.1, dataTx.2,
        atoi (status.drop 1)⟩
  | _ => none

/-- A byte of the log, behind the records and the part of a line before it. -/
def readByte (state : Option (List LogRecord × Bytes)) (b : UInt8) :
    Option (List LogRecord × Bytes) :=
  state.bind fun r =>
    if b = 10 then (readRecord r.2).map fun record => (r.1 ++ [record], [])
    else some (r.1, r.2 ++ [b])

/-- The records of a log, all of whose lines are ended. -/
def readLog (log : Bytes) : Option (List LogRecord) :=
  (log.foldl readByte (some ([], []))).bind fun r => if r.2 = [] then some r.1 else none

/-- Numbers and times that are printed so that they can be read. -/
structure LogRecord.Ok (r : LogRecord) : Prop where
  attempt : -(2 ^ 31) ≤ r.attempt ∧ r.attempt < 2 ^ 31
  dataSize : -(2 ^ 31) ≤ r.dataSize ∧ r.dataSize < 2 ^ 31
  origin : r.dataOriginTsUsec < 10 ^ 6
  tx : r.dataTxTsUsec < 10 ^ 6
  status : -(2 ^ 31) ≤ r.status ∧ r.status < 2 ^ 31

theorem readTime_fmtTime (sec : Nat) {usec : Nat} (h : usec < 10 ^ 6) :
    readTime (fmtTime sec usec) = (sec, usec) := by
  have hlen : (fmtTime sec usec).length - 6 = (decimal sec).length := by
    rw [fmtTime, List.length_append, fmtPad_length (by decide) h, Nat.add_sub_cancel]
  rw [readTime, hlen, fmtTime, List.take_left, List.drop_left, digitsVal_decimal, digitsVal_fmtPad]

/-- A printed field has neither a comma nor a newline. -/
def Field (s : Bytes) : Prop := 44 ∉ s ∧ 10 ∉ s

theorem field_of_isDigit {s : Bytes} (h : ∀ b ∈ s, isDigit b = true) : Field s :=
  ⟨fun hm => absurd (h 44 hm) (by decide), fun hm => absurd (h 10 hm) (by decide)⟩

theorem Field.cons {b : UInt8} {s : Bytes} (h : Field s) (hcomma : (44 : UInt8) ≠ b)
    (hline : (10 : UInt8) ≠ b) : Field (b :: s) :=
  ⟨List.not_mem_cons_of_ne_of_not_mem hcomma h.1, List.not_mem_cons_of_ne_of_not_mem hline h.2⟩

theorem field_fmtInt (z : Int) : Field (fmtInt z) := by
  have hdigits := field_of_isDigit (isDigit_of_mem_decimal z.natAbs)
  unfold fmtInt
  split
  · exact hdigits.cons (by decide) (by decide)
  · exact hdigits

theorem field_fmtTime (sec usec : Nat) : Field (fmtTime sec usec) := by
  refine field_of_isDigit fun b hb => ?_
  rcases List.mem_append.mp hb with hb | hb
  · exact isDigit_of_mem_decimal sec b hb
  · exact isDigit_of_mem_fmtPad b hb

/-- The fields of a line. -/
def LogRecord.fields (r : LogRecord) : List Bytes :=
  [fmtInt r.attempt, 32 :: fmtInt r.dataSize, 32 :: fmtTime r.dataOriginTs r.dataOriginTsUsec,
    32 :: fmtTime r.dataTxTs r.dataTxTsUsec, 32 :: fmtInt r.status]

theorem LogRecord.text_eq (r : LogRecord) : r.text = [44].intercalate r.fields := by
  have hsep : ascii ", " = [44, 32] := rfl
  simp only [text, fields, hsep, List.intercalate_cons_cons, List.intercalate_singleton,
    List.append_assoc, List.cons_append, List.nil_append]

theorem LogRecord.field_of_mem (r : LogRecord) : ∀ field ∈ r.fields, Field field := by
  have hspace {s : Bytes} (h : Field s) : Field (32 :: s) := h.cons (by decide) (by decide)
  simp only [fields, List.forall_mem_cons]
  exact ⟨field_fmtInt _, hspace (field_fmtInt _), hspace (field_fmtTime _ _),
    hspace (field_fmtTime _ _), hspace (field_fmtInt _), List.forall_mem_nil _⟩

/-- A line is read back. -/
theorem readRecord_text {r : LogRecord} (h : r.Ok) : readRecord r.text = some r := by
  have hne : r.fields ≠ [] := List.cons_ne_nil _ _
  rw [readRecord, r.text_eq,
    List.splitOn_intercalate 44 (fun field hf => (r.field_of_mem field hf).1) hne]
  simp only [LogRecord.fields, List.drop_succ_cons, List.drop_zero, readTime_fmtTime _ h.origin,
    readTime_fmtTime _ h.tx, atoi_fmtInt h.attempt.1 h.attempt.2,
    atoi_fmtInt h.dataSize.1 h.dataSize.2, atoi_fmtInt h.status.1 h.status.2]

theorem LogRecord.notMem_text (r : LogRecord) : 10 ∉ r.text := by
  have hall : ∀ (fields : List Bytes), (∀ field ∈ fields, Field field) →
      10 ∉ [44].intercalate fields := by
    intro fields
    induction fields with
    | nil => exact fun _ => List.not_mem_nil
    | cons field fields ih =>
        intro h
        obtain ⟨hfirst, hrest⟩ := List.forall_mem_cons.mp h
        cases fields with
        | nil =>
            rw [List.intercalate_singleton]
            exact hfirst.2
        | cons field' fields =>
            rw [List.intercalate_cons_cons]
            have hsep : (10 : UInt8) ∉ ([44] : Bytes) := by decide
            simp only [List.mem_append, not_or]
            exact ⟨⟨hfirst.2, hsep⟩, ih hrest⟩
  rw [r.text_eq]
  exact hall r.fields r.field_of_mem

/-- A part of a line is kept until its end. -/
theorem foldl_readByte : ∀ {s : Bytes} (records : List LogRecord) (before : Bytes), 10 ∉ s →
    s.foldl readByte (some (records, before)) = some (records, before ++ s)
  | [], records, before, _ => by rw [List.foldl_nil, List.append_nil]
  | b :: s, records, before, h => by
      have hb : b ≠ 10 := fun heq => h (heq ▸ List.mem_cons_self)
      have hs : 10 ∉ s := fun hm => h (List.mem_cons_of_mem b hm)
      rw [List.foldl_cons, readByte, Option.bind_some, if_neg hb, foldl_readByte records _ hs,
        List.append_assoc]
      rfl

theorem foldl_readByte_line {r : LogRecord} (h : r.Ok) (records : List LogRecord) :
    r.line.foldl readByte (some (records, [])) = some (records ++ [r], []) := by
  have hend : ascii "\n" = [10] := rfl
  rw [LogRecord.line, List.foldl_append, foldl_readByte records [] r.notMem_text, hend,
    List.foldl_cons, List.foldl_nil, readByte, Option.bind_some, if_pos rfl, List.nil_append,
    readRecord_text h]
  rfl

/-- Lines are read back. -/
theorem readLog_linesOf {calls : List LogCall} (h : ∀ call ∈ calls, call.record.Ok) :
    readLog (linesOf calls) = some ((calls.filter LogCall.opened).map LogCall.record) := by
  have hfold : ∀ (written : List LogCall) (records : List LogRecord),
      (∀ call ∈ written, call.record.Ok) →
        ((written.map fun call => call.record.line).flatten).foldl readByte (some (records, [])) =
          some (records ++ written.map LogCall.record, []) := by
    intro written
    induction written with
    | nil =>
        intro records _
        rw [List.map_nil, List.map_nil, List.append_nil]
        rfl
    | cons call written ih =>
        intro records hall
        obtain ⟨hfirst, hrest⟩ := List.forall_mem_cons.mp hall
        rw [List.map_cons, List.flatten_cons, List.foldl_append, foldl_readByte_line hfirst,
          ih _ hrest, List.map_cons, List.append_assoc]
        rfl
  rw [readLog, linesOf, hfold _ [] fun call hc => h call (List.mem_of_mem_filter hc)]
  rfl

/-! ## The send loop with its log -/

/-- A round; the clock at its transmission, and whether its log can be opened. -/
structure LoggedRound where
  round : Round
  txSec : Nat
  txUsec : Nat
  opened : Bool

structure Logged where
  locals : Locals
  file : Bytes

/-- The calls of `log_info` in a round. -/
def logCalls (sec usec : Nat) (i : LoggedRound) (es : List Event) : List LogCall :=
  es.filterMap fun e =>
    match e with
    | .logInfo dataSize attempt status =>
        some ⟨⟨attempt, dataSize, sec % 2 ^ 32, usec % 2 ^ 32, i.txSec % 2 ^ 32,
          i.txUsec % 2 ^ 32, status⟩, i.opened⟩
    | _ => none

/-- The loops on a message that was read at this time. -/
def loggedLoop (effort : Int) (dataToStuff : Bytes) (sec usec : Nat) :
    Machine Logged LoggedRound LogCall where
  step st i :=
    let r := sendRound effort dataToStuff (dataOriginTsStr sec usec) st.locals i.round
    let calls := logCalls sec usec i r.2
    some (⟨r.1, calls.foldl logInfo st.file⟩, calls)

section Loop

@[simp] theorem afterBreak_ackRetriesLeft {D ts : Bytes} (st : Locals) :
    (afterBreak D ts st).ackRetriesLeft = st.ackRetriesLeft := by
  unfold afterBreak
  split
  · rfl
  · split
    · rfl
    · exact nextFragment_ackRetriesLeft st

/-- With effort 2 a round without an ACK takes one retry. -/
theorem noAck_ackRetriesLeft {effort : Int} {D ts : Bytes} (st : Locals) :
    (noAck effort D ts st).ackRetriesLeft =
      if effort = 2 then st.ackRetriesLeft - 1 else st.ackRetriesLeft := by
  unfold noAck
  split
  · dsimp only
    split
    · rfl
    · exact afterBreak_ackRetriesLeft _
  · exact afterBreak_ackRetriesLeft _

variable {effort : Int} {D : Bytes} {sec usec : Nat} {st st' : Logged} {calls : List LogCall}

/-- What a round does to the log: nothing, for it is over or its scan failed; or there
is a line with -1, and the round is repeated or given up with effort 2; or there is a
line with 1. -/
theorem loggedLoop_cases {i : LoggedRound}
    (hsend : Sending effort D (dataOriginTsStr sec usec) st.locals)
    (hstep : (loggedLoop effort D sec usec).step st i = some (st', calls)) :
    let record status : LogRecord :=
      ⟨5 - st.locals.ackRetriesLeft, (fragmentOf D (dataOriginTsStr sec usec)
        st.locals.seqNum).data.length, sec % 2 ^ 32, usec % 2 ^ 32, i.txSec % 2 ^ 32,
        i.txUsec % 2 ^ 32, status⟩
    (calls = [] ∧ st'.locals.seqNum = st.locals.seqNum ∧
        st'.locals.ackRetriesLeft = st.locals.ackRetriesLeft) ∨
      (st.locals.fragment ≠ none ∧ calls = [⟨record (-1), i.opened⟩] ∧
        ((effort = 2 ∧ st'.locals.seqNum = st.locals.seqNum ∧
            st'.locals.ackRetriesLeft = st.locals.ackRetriesLeft - 1) ∨
          (effort ≠ 2 ∧ st'.locals.seqNum = st.locals.seqNum + 1 ∧
            st'.locals.ackRetriesLeft = st.locals.ackRetriesLeft))) ∨
      (st.locals.fragment ≠ none ∧ calls = [⟨record 1, i.opened⟩] ∧
        st'.locals.seqNum = st.locals.seqNum + 1 ∧ st'.locals.ackRetriesLeft = 4) := by
  intro record
  obtain ⟨rfl, rfl⟩ := Prod.mk.inj (Option.some.inj hstep)
  dsimp only
  rcases Classical.em (st.locals.fragment = none) with hnone | hsome
  · rw [sendRound_none hnone]
    exact .inl ⟨rfl, rfl, rfl⟩
  · obtain ⟨hc, -⟩ := hsend hsome
    rcases sendRound_cases effort D (dataOriginTsStr sec usec) hc.fragment i.round with
      ⟨-, hr⟩ | ⟨-, -, hr⟩ | ⟨-, -, -, hr⟩
    · left
      rw [hr]
      refine ⟨rfl, ?_, ?_⟩
      · dsimp only
        split
        · rfl
        · exact afterBreak_seqNum _
      · dsimp only
        split
        · rfl
        · exact afterBreak_ackRetriesLeft _
    · refine .inr (.inl ⟨hsome, ?_, ?_⟩)
      · rw [hr]
        rfl
      · rw [hr]
        rcases Classical.em (effort = 2) with heff | heff
        · refine .inl ⟨heff, ?_, ?_⟩
          · rw [noAck_seqNum, if_pos heff]
          · rw [noAck_ackRetriesLeft, if_pos heff]
        · refine .inr ⟨heff, ?_, ?_⟩
          · rw [noAck_seqNum, if_neg heff]
          · rw [noAck_ackRetriesLeft, if_neg heff]
    · refine .inr (.inr ⟨hsome, ?_, ?_, ?_⟩)
      · rw [hr]
        rfl
      · rw [hr]
        exact afterBreak_seqNum _
      · rw [hr]
        exact afterBreak_ackRetriesLeft _

/-! ## What the lines say -/

/-- The size, the attempt and the status of a call. -/
def LogCall.entry (call : LogCall) : Int × Int × Int :=
  (call.record.dataSize, call.record.attempt, call.record.status)

/-- What became of a fragment: the attempts before the last one, and whether the last
one brought the ACK. -/
structure Outcome where
  retries : Nat
  acked : Bool

/-- The entries of attempts without an ACK. -/
def unacked (size n : Nat) : List (Int × Int × Int) :=
  (List.range n).map fun (k : Nat) => ((size : Int), (k : Int) + 1, -1)

def Outcome.entries (size : Nat) (o : Outcome) : List (Int × Int × Int) :=
  unacked size o.retries ++ [((size : Int), (o.retries : Int) + 1, if o.acked then 1 else -1)]

/-- A fragment that is done with has had at most four attempts, and the last one
brought the ACK if delivery is guaranteed; it has had one attempt otherwise. -/
structure Outcome.Ok (effort : Int) (o : Outcome) : Prop where
  retries_lt : o.retries < 4
  guaranteed : effort = 2 → o.acked = true
  bestEffort : effort ≠ 2 → o.retries = 0

/-- The data size of fragment `i`. -/
def pieceSize (D : Bytes) (i : Nat) : Nat := min 1394 (D.length - 1394 * i)

/-- The entries of the first fragments. -/
def entriesOf (D : Bytes) (outcomes : List Outcome) : List (Int × Int × Int) :=
  (outcomes.mapIdx fun i o => o.entries (pieceSize D i)).flatten

/-- The sizes of the entries with status 1, added up. -/
def ackedSize (entries : List (Int × Int × Int)) : Int :=
  (entries.map fun e => if e.2.2 = 1 then e.1 else 0).sum

theorem fragmentOf_data_pieceSize (D ts : Bytes) (i : Nat) :
    (fragmentOf D ts i).data.length = pieceSize D i := by
  simp only [fragmentOf, slice, List.length_drop, List.length_take, pieceSize]
  omega

theorem unacked_succ (size n : Nat) :
    unacked size (n + 1) = unacked size n ++ [((size : Int), (n : Int) + 1, -1)] := by
  rw [unacked, List.range_succ, List.map_append]
  rfl

theorem entriesOf_concat (D : Bytes) (outcomes : List Outcome) (o : Outcome) :
    entriesOf D (outcomes ++ [o]) =
      entriesOf D outcomes ++ o.entries (pieceSize D outcomes.length) := by
  rw [entriesOf, List.mapIdx_concat, List.flatten_append, List.flatten_singleton]
  rfl

theorem ackedSize_append (xs ys : List (Int × Int × Int)) :
    ackedSize (xs ++ ys) = ackedSize xs + ackedSize ys := by
  rw [ackedSize, List.map_append, List.sum_append]
  rfl

theorem ackedSize_unacked (size : Nat) : ∀ n, ackedSize (unacked size n) = 0
  | 0 => rfl
  | n + 1 => by
      rw [unacked_succ, ackedSize_append, ackedSize_unacked size n]
      rfl

/-- Fragments that were all acknowledged have the size of their part of the message. -/
theorem ackedSize_entriesOf (D : Bytes) (outcomes : List Outcome)
    (h : ∀ o ∈ outcomes, o.acked = true) :
    ackedSize (entriesOf D outcomes) = min (1394 * outcomes.length) D.length := by
  induction outcomes using List.reverseRecOn with
  | nil => rfl
  | append_singleton outcomes o ih =>
      obtain ⟨hall, hlast⟩ := List.forall_mem_append.mp h
      have hacked := hlast o (List.mem_singleton_self o)
      have hone : ackedSize (o.entries (pieceSize D outcomes.length)) =
          pieceSize D outcomes.length := by
        rw [Outcome.entries, ackedSize_append, ackedSize_unacked, hacked]
        simp [ackedSize]
      rw [entriesOf_concat, ackedSize_append, ih hall, hone, pieceSize, List.length_append,
        List.length_singleton]
      omega

/-- What the log says so far. -/
structure LogInv (effort : Int) (D ts : Bytes) (calls : List LogCall) (st : Locals) : Prop where
  sending : Sending effort D ts st
  counted : st.ackRetriesLeft ≤ 4 ∧ (effort ≠ 2 → st.ackRetriesLeft = 4)
  entries : ∃ outcomes : List Outcome, outcomes.length = st.seqNum ∧
    (∀ o ∈ outcomes, o.Ok effort) ∧
      calls.map LogCall.entry = entriesOf D outcomes ++
        unacked (pieceSize D st.seqNum) (4 - st.ackRetriesLeft).toNat

theorem logInv_start (hD : NulFree D) :
    LogInv effort D (dataOriginTsStr sec usec) [] (Locals.start D (dataOriginTsStr sec usec)) where
  sending := sending_start hD
  counted := by
    rw [Locals.start, nextFragment_ackRetriesLeft]
    exact ⟨Int.le_refl 4, fun _ => rfl⟩
  entries := by
    rw [Locals.start, nextFragment_ackRetriesLeft, nextFragment_seqNum]
    exact ⟨[], rfl, List.forall_mem_nil _, rfl⟩

/-- One more attempt without an ACK. -/
theorem unacked_retry {size : Nat} {left : Int} (hpos : 0 < left) (hle : left ≤ 4) :
    unacked size (4 - (left - 1)).toNat =
      unacked size (4 - left).toNat ++ [((size : Int), 5 - left, -1)] := by
  have hn : (4 - (left - 1)).toNat = (4 - left).toNat + 1 := by omega
  have hattempt : ((4 - left).toNat : Int) + 1 = 5 - left := by omega
  rw [hn, unacked_succ, hattempt]

/-- The last attempt. -/
theorem entries_last {size : Nat} {left : Int} (hle : left ≤ 4) (acked : Bool) :
    Outcome.entries size ⟨(4 - left).toNat, acked⟩ =
      unacked size (4 - left).toNat ++ [((size : Int), 5 - left, if acked then 1 else -1)] := by
  have hattempt : ((4 - left).toNat : Int) + 1 = 5 - left := by omega
  rw [Outcome.entries, hattempt]

theorem logInv_step (hD : NulFree D) {pre : List LogCall} {i : LoggedRound}
    (h : LogInv effort D (dataOriginTsStr sec usec) pre st.locals)
    (hstep : (loggedLoop effort D sec usec).step st i = some (st', calls)) :
    LogInv effort D (dataOriginTsStr sec usec) (pre ++ calls) st'.locals := by
  have hsending : Sending effort D (dataOriginTsStr sec usec) st'.locals := by
    obtain ⟨rfl, -⟩ := Prod.mk.inj (Option.some.inj hstep)
    exact sending_step hD h.sending rfl
  obtain ⟨outcomes, hlen, hok, hentries⟩ := h.entries
  obtain ⟨hle, hbest⟩ := h.counted
  rcases loggedLoop_cases h.sending hstep with ⟨rfl, hseq, hack⟩ | ⟨hsome, rfl, hcase⟩ |
    ⟨hsome, rfl, hseq, hack⟩
  · rw [List.append_nil]
    refine ⟨hsending, ?_, outcomes, ?_, hok, ?_⟩
    · rw [hack]
      exact ⟨hle, hbest⟩
    · rw [hseq, hlen]
    · rw [hseq, hack, hentries]
  · obtain ⟨hc, -⟩ := h.sending hsome
    rcases hcase with ⟨heff, hseq, hack⟩ | ⟨heff, hseq, hack⟩
    · refine ⟨hsending, ?_, outcomes, ?_, hok, ?_⟩
      · rw [hack]
        exact ⟨(Int.sub_le_self _ Int.one_nonneg).trans hle, fun hne => absurd heff hne⟩
      · rw [hseq, hlen]
      · rw [hseq, hack, unacked_retry hc.ack_pos hle, ← List.append_assoc, ← hentries,
          List.map_append, ← fragmentOf_data_pieceSize D (dataOriginTsStr sec usec)]
        rfl
    · have hfour := hbest heff
      refine ⟨hsending, ?_, outcomes ++ [⟨0, false⟩], ?_, ?_, ?_⟩
      · rw [hack]
        exact ⟨hle, hbest⟩
      · rw [hseq, List.length_append, hlen]
        rfl
      · refine List.forall_mem_append.mpr ⟨hok, List.forall_mem_singleton.mpr ?_⟩
        exact ⟨by decide, fun h2 => absurd h2 heff, fun _ => rfl⟩
      · rw [hack, entriesOf_concat, hlen, List.map_append, hentries, hfour,
          ← fragmentOf_data_pieceSize D (dataOriginTsStr sec usec)]
        simp [LogCall.entry, Outcome.entries, unacked]
  · obtain ⟨hc, -⟩ := h.sending hsome
    have hpos := hc.ack_pos
    refine ⟨hsending, ?_, outcomes ++ [⟨(4 - st.locals.ackRetriesLeft).toNat, true⟩], ?_, ?_, ?_⟩
    · rw [hack]
      exact ⟨Int.le_refl 4, fun _ => rfl⟩
    · rw [hseq, List.length_append, hlen]
      rfl
    · refine List.forall_mem_append.mpr ⟨hok, List.forall_mem_singleton.mpr ?_⟩
      refine ⟨?_, fun _ => rfl, fun hne => ?_⟩
      · show (4 - st.locals.ackRetriesLeft).toNat < 4
        omega
      · show (4 - st.locals.ackRetriesLeft).toNat = 0
        rw [hbest hne]
        rfl
    · have hnone : unacked (pieceSize D st'.locals.seqNum) (4 - (4 : Int)).toNat = [] := rfl
      rw [hack, hnone, List.append_nil, entriesOf_concat, hlen, entries_last hle, List.map_append,
        hentries, List.append_assoc, ← fragmentOf_data_pieceSize D (dataOriginTsStr sec usec)]
      rfl

/-! ## Runs -/

theorem logInv_run {inputs : List LoggedRound} {file : Bytes} (hD : NulFree D)
    (hrun : (loggedLoop effort D sec usec).run ⟨Locals.start D (dataOriginTsStr sec usec), file⟩
      inputs = some (st, calls)) : LogInv effort D (dataOriginTsStr sec usec) calls st.locals :=
  Machine.run_history
    (I := fun pre st => LogInv effort D (dataOriginTsStr sec usec) pre st.locals)
    (fun _ _ _ _ _ h hstep => logInv_step hD h hstep) (logInv_start hD) hrun

/-- The log does not change what the loops do. -/
theorem sendLoop_of_loggedLoop :
    ∀ {inputs : List LoggedRound} {st st' : Logged} {calls : List LogCall},
      (loggedLoop effort D sec usec).run st inputs = some (st', calls) →
        ∃ tr, (sendLoop effort D (dataOriginTsStr sec usec)).run st.locals
          (inputs.map LoggedRound.round) = some (st'.locals, tr)
  | [], st, st', calls, hrun => by
      obtain ⟨rfl, -⟩ := Machine.run_nil_iff.mp hrun
      exact ⟨[], rfl⟩
  | i :: inputs, st, st', calls, hrun => by
      obtain ⟨st₁, es, calls', hstep, hrest, -⟩ := Machine.run_cons_iff.mp hrun
      obtain ⟨rfl, -⟩ := Prod.mk.inj (Option.some.inj hstep)
      obtain ⟨tr, htr⟩ := sendLoop_of_loggedLoop hrest
      exact ⟨_, Machine.run_cons_iff.mpr ⟨_, _, tr, rfl, htr, rfl⟩⟩

/-- In every run of the send loop on a message: the lines are those of its fragments
in order, each with its attempts; and with guaranteed delivery the sizes in the lines
with status 1 add up to the part of the message that was acknowledged, which is all
of it if the loop has ended without giving up. -/
theorem loggedLoop_accounts {inputs : List LoggedRound} {file : Bytes} (hD : NulFree D)
    (hrun : (loggedLoop effort D sec usec).run ⟨Locals.start D (dataOriginTsStr sec usec), file⟩
      inputs = some (st, calls)) :
    (∃ outcomes : List Outcome, outcomes.length = st.locals.seqNum ∧
      (∀ o ∈ outcomes, o.Ok effort) ∧ calls.map LogCall.entry = entriesOf D outcomes ++
        unacked (pieceSize D st.locals.seqNum) (4 - st.locals.ackRetriesLeft).toNat) ∧
      (effort = 2 →
        ackedSize (calls.map LogCall.entry) = min (1394 * st.locals.seqNum) D.length ∧
          (st.locals.fragment = none → st.locals.scanRetriesLeft ≠ 0 →
            st.locals.ackRetriesLeft ≠ 0 → ackedSize (calls.map LogCall.entry) = D.length)) := by
  have hinv := logInv_run hD hrun
  refine ⟨hinv.entries, fun heff => ?_⟩
  obtain ⟨outcomes, hlen, hok, hentries⟩ := hinv.entries
  have hsize : ackedSize (calls.map LogCall.entry) =
      min (1394 * st.locals.seqNum) D.length := by
    rw [hentries, ackedSize_append, ackedSize_unacked, Int.add_zero,
      ackedSize_entriesOf D outcomes fun o ho => (hok o ho).guaranteed heff, hlen]
  refine ⟨hsize, fun hnone hscan hack => ?_⟩
  obtain ⟨tr, htr⟩ := sendLoop_of_loggedLoop hrun
  have hend := (sendInv_run hD htr).ended hnone hscan hack
  rw [hsize]
  omega

/-- A step of the loop calls `log_info` with numbers that can be read. -/
theorem logCalls_ok {i : LoggedRound} (husec : usec < 10 ^ 6) (htx : i.txUsec < 10 ^ 6)
    (hsend : Sending effort D (dataOriginTsStr sec usec) st.locals)
    (hstep : (loggedLoop effort D sec usec).step st i = some (st', calls)) :
    ∀ call ∈ calls, call.record.Ok := by
  have hok {status : Int} (hsome : st.locals.fragment ≠ none) (hstatus : status = 1 ∨ status = -1) :
      LogRecord.Ok ⟨5 - st.locals.ackRetriesLeft, (fragmentOf D (dataOriginTsStr sec usec)
        st.locals.seqNum).data.length, sec % 2 ^ 32, usec % 2 ^ 32, i.txSec % 2 ^ 32,
        i.txUsec % 2 ^ 32, status⟩ := by
    obtain ⟨hc, hcount⟩ := hsend hsome
    have hpos := hc.ack_pos
    have hle := hcount.ack_le
    have hsize := fragmentOf_data_length (dataOriginTsStr sec usec) hc.start_lt
    refine ⟨?_, ?_, ?_, ?_, ?_⟩
    · dsimp only
      omega
    · dsimp only
      omega
    · exact (Nat.mod_le _ _).trans_lt husec
    · exact (Nat.mod_le _ _).trans_lt htx
    · dsimp only
      omega
  rcases loggedLoop_cases hsend hstep with ⟨rfl, -, -⟩ | ⟨hsome, rfl, -⟩ | ⟨hsome, rfl, -, -⟩
  · exact List.forall_mem_nil _
  · exact List.forall_mem_singleton.mpr (hok hsome (.inr rfl))
  · exact List.forall_mem_singleton.mpr (hok hsome (.inl rfl))

/-- In every run of the send loop on a message, what is appended to the log can be
read back: it has the records of the calls that could open the file, in order. -/
theorem loggedLoop_file {inputs : List LoggedRound} {file : Bytes} (hD : NulFree D)
    (husec : usec < 10 ^ 6) (hclock : ∀ i ∈ inputs, i.txUsec < 10 ^ 6)
    (hrun : (loggedLoop effort D sec usec).run ⟨Locals.start D (dataOriginTsStr sec usec), file⟩
      inputs = some (st, calls)) :
    ∃ text, st.file = file ++ text ∧
      readLog text = some ((calls.filter LogCall.opened).map LogCall.record) := by
  have hinv := Machine.run_invariant (P := fun i : LoggedRound => i.txUsec < 10 ^ 6)
    (I := fun pre st => Sending effort D (dataOriginTsStr sec usec) st.locals ∧
      st.file = file ++ linesOf pre ∧ ∀ call ∈ pre, call.record.Ok) ?_
    ⟨sending_start hD, (List.append_nil file).symm, List.forall_mem_nil _⟩ hclock hrun
  · exact ⟨_, hinv.2.1, readLog_linesOf hinv.2.2⟩
  · rintro pre st i st' calls ⟨hsend, hfile, hok⟩ htx hstep
    have hnew := logCalls_ok husec htx hsend hstep
    obtain ⟨rfl, rfl⟩ := Prod.mk.inj (Option.some.inj hstep)
    refine ⟨sending_step hD hsend rfl, ?_, List.forall_mem_append.mpr ⟨hok, hnew⟩⟩
    dsimp only
    rw [foldl_logInfo, hfile, List.append_assoc, linesOf_append]

end Loop

/-- A scan that fails, one without an ACK whose log cannot be opened, and one with it. -/
def threeRounds : List LoggedRound :=
  [⟨⟨-1, 0, []⟩, 15, 0, true⟩, ⟨⟨0, -1, []⟩, 30, 0, false⟩,
    ⟨⟨0, 0, [{ informationElements := some [221, 4, 1, 2, 3, 48] }]⟩, 45, 7, true⟩]

theorem loggedLoop_accounts_threeRounds : ∃ st calls,
    (loggedLoop 2 [120] 1 0).run ⟨Locals.start [120] (dataOriginTsStr 1 0), []⟩ threeRounds =
        some (st, calls) ∧
      calls.map LogCall.entry = [(1, 1, -1), (1, 2, 1)] ∧
      ackedSize (calls.map LogCall.entry) = min (1394 * st.locals.seqNum) 1 := by
  have hobs : ((loggedLoop 2 [120] 1 0).run ⟨Locals.start [120] (dataOriginTsStr 1 0), []⟩
      threeRounds).map (fun r => r.2.map LogCall.entry) = some [(1, 1, -1), (1, 2, 1)] := by decide
  obtain ⟨r, hrun, hentries⟩ := Option.map_eq_some_iff.mp hobs
  have haccounts := (loggedLoop_accounts (by decide) hrun).2 rfl
  exact ⟨r.1, r.2, hrun, hentries, haccounts.1⟩

theorem loggedLoop_file_threeRounds : ∃ st calls,
    (loggedLoop 2 [120] 1 0).run ⟨Locals.start [120] (dataOriginTsStr 1 0), []⟩ threeRounds =
        some (st, calls) ∧
      ∃ text, st.file = [] ++ text ∧ readLog text = some [⟨2, 1, 1, 0, 45, 7, 1⟩] := by
  have hobs : ((loggedLoop 2 [120] 1 0).run ⟨Locals.start [120] (dataOriginTsStr 1 0), []⟩
      threeRounds).map (fun r => (r.2.filter LogCall.opened).map LogCall.record) =
        some [⟨2, 1, 1, 0, 45, 7, 1⟩] := by decide
  obtain ⟨r, hrun, hrecords⟩ := Option.map_eq_some_iff.mp hobs
  have hclock : ∀ i ∈ threeRounds, i.txUsec < 10 ^ 6 := by
    simp only [threeRounds, List.forall_mem_cons]
    exact ⟨by decide, by decide, by decide, List.forall_mem_nil _⟩
  have hfile := loggedLoop_file (by decide) (by decide) hclock hrun
  rw [hrecords] at hfile
  exact ⟨r.1, r.2, hrun, hfile⟩

end ProbeStuffing.Client

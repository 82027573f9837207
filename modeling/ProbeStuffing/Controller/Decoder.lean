import ProbeStuffing.Controller.Command
import ProbeStuffing.Controller.Record

/-!
# Malformed commands

`run_server` decodes a read in place: `index` looks for `SOH`, `US` and `EOT` in
turn, and each pointer it returns is advanced or subtracted from.  None is
compared with NULL.  Here the decoder is the list of these operations, with a
pointer as an offset into the buffer.  The list ends where C stops defining what
happens, at the first use of NULL.

The command and the data are copied into blocks without a terminator.  So it is
the heap that decides what the command is compared as, and whether the string that
is handed over is what stood between the delimiters.  The operations are safe
exactly when the delimiters are there, each behind the one before, and the string of
a `STR` ends where its data does (`decodeOps_safe_iff`).
-/

namespace ProbeStuffing.Controller

open CString

/-! ## One read -/

/-- What `read` returns for a client that is still there. -/
inductive Read where
  /-- The bytes that arrived, at most `BUFFER_SZ - 1`. -/
  | bytes (received : Bytes)
  /-- `-1` -/
  | error
deriving DecidableEq

/-- `buffer`, which was cleared before. -/
def Read.buffer : Read → Bytes
  | .bytes received => received ++ List.replicate (bufferSz - received.length) 0
  | .error => List.replicate bufferSz 0

/-- What C leaves open about one read: the heap behind the copies, and whether
`process_and_save` gets through with pointers that were never set, or were set behind
its array. -/
structure Luck where
  heap : Heap := {}
  survives : Bool := true
deriving DecidableEq

/-- `process_and_save` returns from the string.  One with eight tokens sets all its
pointers, and one more; one with a single token has NULL for `strcmp`. -/
def Luck.returns (luck : Luck) (string : Bytes) : Bool :=
  let n := (tokens 44 (cstr string)).length
  n == splitStrSize || n != 1 && luck.survives

/-- The string of one read that `process_and_save` gets and returns from, if there is one.
`none` where C leaves open what becomes of the program. -/
def takeOver (luck : Luck) (buffer : Bytes) : Option (Option Bytes) :=
  (decode luck.heap buffer).bind fun decoded =>
    if decoded.data.all (luck.returns ·.string) then some (decoded.data.map Copy.string) else none

/-- `index(s + i, c)` as an offset; `none` is NULL. -/
def indexFrom (c : UInt8) (s : Bytes) (i : Nat) : Option Nat :=
  (index c (s.drop i)).map fun r => i + r.1.length

/-- What the decoder does with its pointers, and with the data. -/
inductive DecodeOp where
  /-- `ptr + 1` -/
  | advance (ptr : Option Nat)
  /-- `sublen = ptr - read_ptr` -/
  | sublen (ptr : Option Nat) (readPtr : Nat)
  /-- `process_and_save` -/
  | processAndSave (data : Copy)
deriving DecidableEq

/-- `calloc` and `strncpy` of what stands between two pointers. -/
def copyOut (s : Bytes) (readPtr endPtr : Nat) (behind : Bytes) : Copy :=
  let sublen := endPtr - readPtr
  { source := (s.drop readPtr).take sublen
    block := strncpyTo (calloc sublen) (s.drop readPtr) sublen
    behind := behind }

/-- The operations on one read, in order, as far as C defines them. -/
def decodeOps (heap : Heap) (buffer : Bytes) : List DecodeOp :=
  let s := cstr buffer
  let sohPtr := indexFrom soh s 0
  .advance sohPtr ::
    match sohPtr with
    | none => []
    | some sohPtr =>
        let readPtr := sohPtr + 1
        let usPtr := indexFrom us s readPtr
        .sublen usPtr readPtr ::
          match usPtr with
          | none => []
          | some usPtr =>
              let command := copyOut s readPtr usPtr heap.behindCommand
              .advance (some usPtr) ::
                if command.string = str then
                  let readPtr := usPtr + 1
                  let eotPtr := indexFrom eot s readPtr
                  .sublen eotPtr readPtr ::
                    match eotPtr with
                    | none => []
                    | some eotPtr =>
                        [.processAndSave (copyOut s readPtr eotPtr heap.behindData)]
                else []

/-- The copies handed to `process_and_save`. -/
def handed (ops : List DecodeOp) : List Copy :=
  ops.filterMap fun op =>
    match op with
    | .processAndSave data => some data
    | _ => none

/-! ## Pointers and the strings between them -/

theorem index_eq_none_iff {c : UInt8} {s : Bytes} : index c s = none ↔ c ∉ s := by
  induction s with
  | nil => simp [index]
  | cons b s ih =>
      rw [index]
      split
      · next hb => simp [hb]
      · next hb => simp [ih, Ne.symm hb]

/-- A delimiter that is there, at its offset. -/
theorem indexFrom_append {c : UInt8} {x y : Bytes} {s : Bytes} {i : Nat}
    (hs : s.drop i = x ++ c :: y) (hx : c ∉ x) : indexFrom c s i = some (i + x.length) := by
  rw [indexFrom, hs, index_append hx]
  rfl

theorem indexFrom_eq_none {c : UInt8} {s : Bytes} {i : Nat} (h : c ∉ s.drop i) :
    indexFrom c s i = none := by
  rw [indexFrom, index_eq_none_iff.mpr h]
  rfl

/-- Splitting at the first delimiter, when there is one. -/
theorem exists_split {c : UInt8} {s : Bytes} (h : c ∈ s) : ∃ x y, s = x ++ c :: y ∧ c ∉ x := by
  cases hi : index c s with
  | none => exact absurd h (index_eq_none_iff.mp hi)
  | some r => exact ⟨r.1, r.2, index_eq_some hi⟩

theorem drop_behind {c : UInt8} {x y s : Bytes} {i : Nat} (hs : s.drop i = x ++ c :: y) :
    s.drop (i + x.length + 1) = y := by
  rw [Nat.add_assoc, ← List.drop_drop, hs, List.drop_append]
  simp

/-- The copy of what stands in front of a delimiter fills its block. -/
theorem copyOut_eq {s x y : Bytes} {c : UInt8} {i : Nat} (hs : s.drop i = x ++ c :: y)
    (hnul : NulFree s) (behind : Bytes) :
    copyOut s i (i + x.length) behind = fullCopy x behind := by
  have hdrop : NulFree (s.drop i) := hnul.sublist (List.drop_sublist i s)
  have htake : (s.drop i).take x.length = x := by rw [hs, List.take_left]
  have hlen : x.length ≤ (cstr (s.drop i)).length := by
    rw [cstr_eq_self hdrop, hs]
    simp
  simp only [copyOut, Nat.add_sub_cancel_left]
  rw [strncpyTo_calloc hlen, cstr_eq_self hdrop, htake]
  rfl

/-! ## The five ways a read is decoded -/

variable {heap : Heap}

/-- The decoder on a string without `SOH`. -/
theorem decodeOps_of_soh_notMem {buffer : Bytes} (h : soh ∉ cstr buffer) :
    decodeOps heap buffer = [.advance none] := by
  have hsoh : indexFrom soh (cstr buffer) 0 = none := indexFrom_eq_none h
  simp only [decodeOps, hsoh]

section Delimited

variable {buffer pre t : Bytes} (hs : cstr buffer = pre ++ soh :: t) (hpre : soh ∉ pre)

include hs

theorem drop_soh : (cstr buffer).drop (pre.length + 1) = t := by
  have h := drop_behind (i := 0) hs
  rwa [Nat.zero_add] at h

include hpre

theorem indexFrom_soh : indexFrom soh (cstr buffer) 0 = some pre.length := by
  have h := indexFrom_append (i := 0) hs hpre
  rwa [Nat.zero_add] at h

theorem decodeOps_of_us_notMem (hus : us ∉ t) :
    decodeOps heap buffer = [.advance (some pre.length), .sublen none (pre.length + 1)] := by
  have h : indexFrom us (cstr buffer) (pre.length + 1) = none :=
    indexFrom_eq_none ((drop_soh hs).symm ▸ hus)
  simp only [decodeOps, indexFrom_soh hs hpre, h]

/-- From the `US` on. -/
theorem decodeOps_of_us {command rest : Bytes} (ht : t = command ++ us :: rest)
    (hcommand : us ∉ command) :
    let usPtr := pre.length + 1 + command.length
    let ops : List DecodeOp := [.advance (some pre.length),
      .sublen (some usPtr) (pre.length + 1), .advance (some usPtr)]
    ((fullCopy command heap.behindCommand).string ≠ str → decodeOps heap buffer = ops) ∧
    ((fullCopy command heap.behindCommand).string = str → eot ∉ rest →
      decodeOps heap buffer = ops ++ [.sublen none (usPtr + 1)]) ∧
    ∀ data post, (fullCopy command heap.behindCommand).string = str →
      rest = data ++ eot :: post → eot ∉ data → decodeOps heap buffer =
        ops ++ [.sublen (some (usPtr + 1 + data.length)) (usPtr + 1),
          .processAndSave (fullCopy data heap.behindData)] := by
  intro usPtr ops
  have hnul := nulFree_cstr buffer
  have hdrop : (cstr buffer).drop (pre.length + 1) = command ++ us :: rest :=
    (drop_soh hs).trans ht
  have hus : indexFrom us (cstr buffer) (pre.length + 1) = some usPtr :=
    indexFrom_append hdrop hcommand
  have hcmd : copyOut (cstr buffer) (pre.length + 1) usPtr heap.behindCommand =
      fullCopy command heap.behindCommand := copyOut_eq hdrop hnul _
  have hrest : (cstr buffer).drop (usPtr + 1) = rest := drop_behind hdrop
  refine ⟨fun hne => ?_, fun hstr heot => ?_, fun data post hstr hdata hnot => ?_⟩
  · simp only [decodeOps, indexFrom_soh hs hpre, hus, hcmd, hne, if_false, ops]
  · have heotPtr : indexFrom eot (cstr buffer) (usPtr + 1) = none :=
      indexFrom_eq_none (hrest.symm ▸ heot)
    simp only [decodeOps, indexFrom_soh hs hpre, hus, hcmd, hstr, if_true, heotPtr, ops,
      List.cons_append, List.nil_append]
  · have hsplit : (cstr buffer).drop (usPtr + 1) = data ++ eot :: post := hrest.trans hdata
    have heotPtr : indexFrom eot (cstr buffer) (usPtr + 1) = some (usPtr + 1 + data.length) :=
      indexFrom_append hsplit hnot
    have hcopy : copyOut (cstr buffer) (usPtr + 1) (usPtr + 1 + data.length) heap.behindData =
        fullCopy data heap.behindData := copyOut_eq hsplit hnul _
    simp only [decodeOps, indexFrom_soh hs hpre, hus, hcmd, hstr, if_true, heotPtr, hcopy, ops,
      List.cons_append, List.nil_append]

end Delimited

/-! ## Safety -/

/-- `SOH tag US data EOT`. -/
structure CommandAt (s pre tag data post : Bytes) : Prop where
  split : s = pre ++ soh :: (tag ++ us :: (data ++ eot :: post))
  soh_notMem : soh ∉ pre
  us_notMem : us ∉ tag
  eot_notMem : eot ∉ data

/-- No NULL is used, no length is negative, and the string that is handed over stood
between the delimiters of a command. -/
def DecodeOp.Safe (buffer : Bytes) : DecodeOp → Prop
  | .advance ptr => ptr ≠ none
  | .sublen ptr readPtr => ∃ p, ptr = some p ∧ 0 ≤ (p : Int) - readPtr
  | .processAndSave data => ∃ pre tag post, CommandAt (cstr buffer) pre tag data.string post

/-- `SOH`, then `US`; and behind a command that is compared as `STR` an `EOT`, with a NUL
behind the copy of the data. -/
def WellDelimited (heap : Heap) (s : Bytes) : Prop :=
  ∃ pre command rest, s = pre ++ soh :: (command ++ us :: rest) ∧ soh ∉ pre ∧ us ∉ command ∧
    (command ++ cstr heap.behindCommand = str → eot ∈ rest ∧ cstr heap.behindData = [])

theorem cstr_append_zeros (s : Bytes) (n : Nat) : cstr (s ++ List.replicate n 0) = cstr s := by
  cases n with
  | zero => rw [List.replicate_zero, List.append_nil]
  | succ n => rw [List.replicate_succ, cstr_append_nul]

/-- Decoding goes up to the first NUL, and the buffer was cleared. -/
theorem decode_buffer (heap : Heap) (received : Bytes) :
    decode heap (Read.bytes received).buffer = decode heap received := by
  rw [decode, Read.buffer, cstr_append_zeros, ← decode]

theorem takeOver_buffer (luck : Luck) (received : Bytes) :
    takeOver luck (Read.bytes received).buffer = takeOver luck received := by
  rw [takeOver, decode_buffer, ← takeOver]

/-- After an error the buffer is empty. -/
theorem takeOver_error (luck : Luck) : takeOver luck Read.error.buffer = none := rfl

theorem not_safe_sublen_null (buffer : Bytes) (i : Nat) :
    ¬ (DecodeOp.sublen none i).Safe buffer := by
  rintro ⟨p, hp, -⟩
  cases hp

/-- An offset that was found is not in front of where the search began. -/
theorem sublen_safe (buffer : Bytes) (i n : Nat) :
    (DecodeOp.sublen (some (i + n)) i).Safe buffer := by
  refine ⟨i + n, rfl, ?_⟩
  omega

theorem advance_safe (buffer : Bytes) (p : Nat) : (DecodeOp.advance (some p)).Safe buffer :=
  Option.some_ne_none p

section Safe

variable {buffer pre command rest : Bytes}
  (hs : cstr buffer = pre ++ soh :: (command ++ us :: rest)) (hpre : soh ∉ pre)
  (hcommand : us ∉ command)

include hs

/-- What stands between the delimiters has no NUL. -/
theorem nulFree_command : NulFree command := by
  have hnul := nulFree_cstr buffer
  rw [hs] at hnul
  exact fun b hb => hnul b (by simp [hb])

theorem nulFree_data {data post : Bytes} (hdata : rest = data ++ eot :: post) : NulFree data := by
  have hnul := nulFree_cstr buffer
  rw [hs, hdata] at hnul
  exact fun b hb => hnul b (by simp [hb])

include hpre hcommand

/-- The data is handed over as it stands exactly if the heap has a NUL behind its copy. -/
theorem processAndSave_safe_iff {data post : Bytes} (hdata : rest = data ++ eot :: post)
    (heot : eot ∉ data) :
    (DecodeOp.processAndSave (fullCopy data heap.behindData)).Safe buffer ↔
      cstr heap.behindData = [] := by
  have hnul := nulFree_data hs hdata
  constructor
  · rintro ⟨pre', tag, post', hs', hpre', htag, heot'⟩
    -- the delimiters are found where they are found
    have hsoh := index_append hpre (t := command ++ us :: rest)
    rw [← hs, hs', index_append hpre'] at hsoh
    have hus := index_append hcommand (t := rest)
    rw [← (Prod.mk.inj (Option.some.inj hsoh)).2, index_append htag] at hus
    have hlast := index_append heot (t := post)
    rw [← hdata, ← (Prod.mk.inj (Option.some.inj hus)).2, index_append heot'] at hlast
    exact (fullCopy_string_iff hnul _).mp (Prod.mk.inj (Option.some.inj hlast)).1
  · intro hheap
    refine ⟨pre, command, post, ?_, hpre, hcommand, ?_⟩
    · rw [(fullCopy_string_iff hnul _).mpr hheap, hs, hdata]
    · rwa [(fullCopy_string_iff hnul _).mpr hheap]

theorem safe_iff_of_us : (∀ op ∈ decodeOps heap buffer, op.Safe buffer) ↔
    (command ++ cstr heap.behindCommand = str → eot ∈ rest ∧ cstr heap.behindData = []) := by
  have hstring := fullCopy_string (nulFree_command hs) heap.behindCommand
  obtain ⟨hother, hnone, hdata⟩ := @decodeOps_of_us heap _ _ _ hs hpre _ _ rfl hcommand
  rw [hstring] at hother hnone hdata
  have hfirst : ∀ op ∈ [DecodeOp.advance (some pre.length),
      .sublen (some (pre.length + 1 + command.length)) (pre.length + 1),
      .advance (some (pre.length + 1 + command.length))], op.Safe buffer := by
    simp only [List.forall_mem_cons]
    exact ⟨advance_safe _ _, sublen_safe _ _ _, advance_safe _ _, List.forall_mem_nil _⟩
  by_cases hstr : command ++ cstr heap.behindCommand = str
  · rw [forall_prop_of_true hstr]
    by_cases heot : eot ∈ rest
    · obtain ⟨data, post, hsplit, hnot⟩ := exists_split heot
      rw [hdata data post hstr hsplit hnot, List.forall_mem_append, and_iff_right hfirst,
        List.forall_mem_cons, List.forall_mem_singleton,
        processAndSave_safe_iff hs hpre hcommand hsplit hnot]
      exact and_congr_left' (iff_of_true (sublen_safe _ _ _) heot)
    · rw [hnone hstr heot, List.forall_mem_append, List.forall_mem_singleton]
      exact iff_of_false (fun h => not_safe_sublen_null _ _ h.2) fun h => heot h.1
  · rw [hother hstr]
    exact iff_of_true hfirst fun h => absurd h hstr

end Safe

/-- The operations are safe exactly if the delimiters are there in their order, and the
string ends with the data. -/
theorem decodeOps_safe_iff (heap : Heap) (buffer : Bytes) :
    (∀ op ∈ decodeOps heap buffer, op.Safe buffer) ↔ WellDelimited heap (cstr buffer) := by
  constructor
  · intro h
    by_cases hsoh : soh ∈ cstr buffer
    · obtain ⟨pre, t, hs, hpre⟩ := exists_split hsoh
      by_cases hus : us ∈ t
      · obtain ⟨command, rest, rfl, hcommand⟩ := exists_split hus
        exact ⟨pre, command, rest, hs, hpre, hcommand, (safe_iff_of_us hs hpre hcommand).mp h⟩
      · rw [decodeOps_of_us_notMem hs hpre hus] at h
        simp only [List.forall_mem_cons] at h
        exact absurd h.2.1 (not_safe_sublen_null buffer _)
    · rw [decodeOps_of_soh_notMem hsoh] at h
      exact absurd rfl (h (.advance none) List.mem_cons_self)
  · rintro ⟨pre, command, rest, hs, hpre, hcommand, hdata⟩
    exact (safe_iff_of_us hs hpre hcommand).mpr hdata

/-- Where all of it is defined, the operations hand over what `decode` says. -/
theorem handed_of_decode {buffer : Bytes} {d : Decoded} (h : decode heap buffer = some d) :
    handed (decodeOps heap buffer) = d.data.toList := by
  obtain ⟨pre, command, rest, hs, hpre, hcommand, hd, hdata⟩ := decode_eq_some h
  obtain ⟨hother, -, hops⟩ := @decodeOps_of_us heap _ _ _ hs hpre _ _ rfl hcommand
  rw [← hd] at hother hops
  rcases hdata with ⟨hne, hnone⟩ | ⟨hstr, data, post, hrest, heot, hsome⟩
  · rw [hother hne, hnone]
    rfl
  · rw [hops data post hstr hrest heot, hsome]
    rfl

end ProbeStuffing.Controller

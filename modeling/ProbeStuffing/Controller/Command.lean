import ProbeStuffing.Lib.CString

/-!
# Commands between the access point and the controller

The TCP client frames its string as `SOH STR US data EOT`, and the controller
looks for the three delimiters in that order.  The delimiters are ordinary bytes
and nothing is escaped.  In the data a `SOH` or a `US` does no harm, because the
first ones are those of the frame, but the scan for `EOT` stops at the first one
in the data.

Both programs copy strings into blocks without room for a terminator.  The client
does so with its argument, and the controller with what stands between delimiters.
Such a copy is read on into the heap, up to the next NUL.  So a string comes back
exactly when it has no `EOT` and the heap has a NUL where the terminators should
be (`decode_transmit_iff`).

`index` returns `NULL` when it finds nothing, and the controller goes on with
the null pointer.  That is undefined, and `decode` is `none` there.
-/

namespace ProbeStuffing.Controller

open CString

/-! ## Delimiters -/

def soh : UInt8 := 1
def eot : UInt8 := 4
def us : UInt8 := 31

/-- `STR`. -/
def str : Bytes := [83, 84, 82]

def bufferSz : Nat := 1200
def maxStrSz : Nat := 1000

/-! ## The TCP client -/

/-- `SOH STR US s EOT`. -/
def frame (s : Bytes) : Bytes := soh :: str ++ us :: s ++ [eot]

/-- `transmit`: the bytes written to the socket; `none` is `error`. -/
def transmit (argInputString : Bytes) : Option Bytes :=
  let out := frame (cstr argInputString)
  let buffer := snprintf (bufferSz - 1) out ++
    List.replicate (bufferSz - (snprintf (bufferSz - 1) out).length) 0
  let bn := out.length
  if buffer[0]? ≠ some soh ∨ buffer[bn - 1]? ≠ some eot then none else some (buffer.take bn)

/-- `main` with `--str`: too long a string is refused, and any other one is copied
into a block of its length, behind which the heap has `behind` when it is read. -/
def sendStr (behind optarg : Bytes) : Option Bytes :=
  if maxStrSz < (cstr optarg).length then none else transmit (cstr optarg ++ behind)

/-! ## The controller -/

/-- `index(s, c)`, as the bytes before the first `c` and the bytes behind it. -/
def index (c : UInt8) : Bytes → Option (Bytes × Bytes)
  | [] => none
  | b :: s => if b = c then some ([], s) else (index c s).map fun r => (b :: r.1, r.2)

/-- A copy, the `sublen` bytes it is made of, and the heap behind its block. -/
structure Copy where
  source : Bytes
  block : Bytes
  behind : Bytes
deriving DecidableEq

/-- What `strcmp`, `printf` and `strtok` take the copy for. -/
def Copy.string (copy : Copy) : Bytes := cstr (copy.block ++ copy.behind)

/-- What the heap has behind the two blocks. -/
structure Heap where
  behindCommand : Bytes := []
  behindData : Bytes := []
deriving DecidableEq

/-- There is a NUL right behind each of them. -/
structure Heap.Clean (heap : Heap) : Prop where
  command : cstr heap.behindCommand = []
  data : cstr heap.behindData = []

instance (heap : Heap) : Decidable heap.Clean :=
  decidable_of_iff (cstr heap.behindCommand = [] ∧ cstr heap.behindData = [])
    ⟨fun h => ⟨h.1, h.2⟩, fun h => ⟨h.command, h.data⟩⟩

/-- A copy of `x` alone, with the heap behind it. -/
def fullCopy (x behind : Bytes) : Copy := ⟨x, x, behind⟩

/-- What one read is decoded to: the command, and the data of a `STR` command. -/
structure Decoded where
  command : Copy
  data : Option Copy
deriving DecidableEq

/-- The decoder of `run_server` on the bytes of one read. -/
def decode (heap : Heap) (buffer : Bytes) : Option Decoded :=
  match index soh (cstr buffer) with
  | none => none
  | some (_, afterSoh) =>
      match index us afterSoh with
      | none => none
      | some (command, afterUs) =>
          let command := fullCopy command heap.behindCommand
          if command.string = str then
            match index eot afterUs with
            | none => none
            | some (data, _) => some ⟨command, some (fullCopy data heap.behindData)⟩
          else some ⟨command, none⟩

/-! ## Scanning for a delimiter -/

theorem index_append {c : UInt8} {s t : Bytes} (h : c ∉ s) :
    index c (s ++ c :: t) = some (s, t) := by
  induction s with
  | nil => simp [index]
  | cons b s ih =>
      obtain ⟨hb, hs⟩ := not_or.mp (mt List.mem_cons.mpr h)
      rw [List.cons_append, index, if_neg (Ne.symm hb), ih hs]
      rfl

/-- The scan splits the string at the first delimiter. -/
theorem index_eq_some {c : UInt8} {s x y : Bytes} (h : index c s = some (x, y)) :
    s = x ++ c :: y ∧ c ∉ x := by
  induction s generalizing x with
  | nil => cases h
  | cons b s ih =>
      rw [index] at h
      split at h
      · next hb =>
          obtain ⟨rfl, rfl⟩ := Prod.mk.inj (Option.some.inj h)
          exact ⟨by rw [hb]; rfl, by simp⟩
      · next hb =>
          obtain ⟨⟨x', y'⟩, hi, hxy⟩ := Option.map_eq_some_iff.mp h
          obtain ⟨rfl, rfl⟩ := Prod.mk.inj hxy
          obtain ⟨rfl, hx⟩ := ih hi
          exact ⟨rfl, by simp [hx, Ne.symm hb]⟩

/-! ## One command -/

theorem nulFree_frame {s : Bytes} (h : NulFree s) : NulFree (frame s) := by
  have hhead : NulFree (soh :: str ++ [us]) := by decide
  have hlast : NulFree [eot] := by decide
  have heq : frame s = soh :: str ++ [us] ++ s ++ [eot] := by simp [frame]
  rw [heq]
  exact (hhead.append h).append hlast

theorem length_frame (s : Bytes) : (frame s).length = s.length + 6 := by
  simp [frame, str]

/-- A command that fits the buffer is written whole. -/
theorem transmit_eq {s : Bytes} (hnul : NulFree s) (hlen : (frame s).length < bufferSz - 1) :
    transmit s = some (frame s) := by
  have hpos := length_frame s
  have hfit : snprintf (bufferSz - 1) (frame s) = frame s := snprintf_eq_self hlen
  have hfirst : (frame s ++ List.replicate (bufferSz - (frame s).length) 0)[0]? = some soh := rfl
  have hlast : (frame s ++ List.replicate (bufferSz - (frame s).length) 0)[(frame s).length - 1]? =
      some eot := by
    rw [List.getElem?_append_left (by omega), ← List.getLast?_eq_getElem?, frame,
      List.getLast?_append]
    rfl
  rw [transmit, cstr_eq_self hnul]
  simp only [hfit, hfirst, hlast, ne_eq, not_true, or_self, if_false, List.take_left]

/-- A command that is cut does not end in `EOT`, and `transmit` gives up. -/
theorem transmit_eq_none {s : Bytes} (hnul : NulFree s) (hlen : bufferSz - 1 ≤ (frame s).length) :
    transmit s = none := by
  have hcut : (snprintf (bufferSz - 1) (frame s)).length = bufferSz - 2 := by
    rw [snprintf, List.length_take]
    omega
  rw [transmit, cstr_eq_self hnul]
  refine if_pos (.inr ?_)
  rw [List.getElem?_append_right (by omega), hcut]
  intro hlast
  have hmem := List.mem_of_getElem? hlast
  exact absurd (List.eq_of_mem_replicate hmem) (by decide)

/-- Whatever `transmit` writes is the whole command. -/
theorem frame_of_transmit {s out : Bytes} (hnul : NulFree s) (h : transmit s = some out) :
    out = frame s := by
  rcases Nat.lt_or_ge (frame s).length (bufferSz - 1) with hlt | hge
  · rw [transmit_eq hnul hlt] at h
    exact (Option.some.inj h).symm
  · rw [transmit_eq_none hnul hge] at h
    cases h

/-- The client writes its string and what it reads behind it, if that has room. -/
theorem sendStr_eq_some_iff {s behind out : Bytes} (hnul : NulFree s)
    (hlen : s.length ≤ maxStrSz) : sendStr behind s = some out ↔
      (frame (s ++ cstr behind)).length < bufferSz - 1 ∧ out = frame (s ++ cstr behind) := by
  have hread : NulFree (s ++ cstr behind) := hnul.append (nulFree_cstr behind)
  have hstring : transmit (s ++ behind) = transmit (s ++ cstr behind) := by
    rw [transmit, transmit, hnul.cstr_append, cstr_eq_self hread]
  rw [sendStr, cstr_eq_self hnul, if_neg (Nat.not_lt.mpr hlen), hstring]
  constructor
  · intro h
    refine ⟨Nat.not_le.mp fun hge => ?_, frame_of_transmit hread h⟩
    rw [transmit_eq_none hread hge] at h
    cases h
  · rintro ⟨hfit, rfl⟩
    exact transmit_eq hread hfit

/-! ## Copies -/

/-- A copy is read as it was made only if the heap has a NUL behind it. -/
theorem fullCopy_string {x : Bytes} (hx : NulFree x) (behind : Bytes) :
    (fullCopy x behind).string = x ++ cstr behind := hx.cstr_append behind

theorem fullCopy_string_iff {x : Bytes} (hx : NulFree x) (behind : Bytes) :
    (fullCopy x behind).string = x ↔ cstr behind = [] := by
  rw [fullCopy_string hx, List.append_right_eq_self]

theorem nulFree_str : NulFree str := by decide

/-! ## Decoding -/

/-- Whatever is decoded stood between delimiters. -/
theorem decode_eq_some {heap : Heap} {buffer : Bytes} {d : Decoded}
    (h : decode heap buffer = some d) :
    ∃ pre command rest, cstr buffer = pre ++ soh :: (command ++ us :: rest) ∧ soh ∉ pre ∧
      us ∉ command ∧ d.command = fullCopy command heap.behindCommand ∧
      ((d.command.string ≠ str ∧ d.data = none) ∨
        (d.command.string = str ∧ ∃ data post, rest = data ++ eot :: post ∧ eot ∉ data ∧
          d.data = some (fullCopy data heap.behindData))) := by
  unfold decode at h
  cases h1 : index soh (cstr buffer) with
  | none => simp [h1] at h
  | some r1 =>
      obtain ⟨pre, afterSoh⟩ := r1
      obtain ⟨hs, hpre⟩ := index_eq_some h1
      cases h2 : index us afterSoh with
      | none => simp [h1, h2] at h
      | some r2 =>
          obtain ⟨command, afterUs⟩ := r2
          obtain ⟨ht, hcommand⟩ := index_eq_some h2
          subst ht
          simp only [h1, h2] at h
          split at h
          · next hstr =>
              cases h3 : index eot afterUs with
              | none => simp [h3] at h
              | some r3 =>
                  obtain ⟨data, post⟩ := r3
                  obtain ⟨hrest, hdata⟩ := index_eq_some h3
                  simp only [h3, Option.some.injEq] at h
                  subst h
                  exact ⟨pre, command, afterUs, hs, hpre, hcommand, rfl,
                    .inr ⟨hstr, data, post, hrest, hdata, rfl⟩⟩
          · next hstr =>
              obtain rfl := Option.some.inj h
              exact ⟨pre, command, afterUs, hs, hpre, hcommand, rfl, .inl ⟨hstr, rfl⟩⟩

/-- The decoder on a buffer with `SOH` and `US`. -/
theorem decode_of_split {heap : Heap} {buffer pre command rest : Bytes}
    (hs : cstr buffer = pre ++ soh :: (command ++ us :: rest)) (hpre : soh ∉ pre)
    (hcommand : us ∉ command) :
    decode heap buffer =
      if (fullCopy command heap.behindCommand).string = str then
        (index eot rest).map fun r =>
          ⟨fullCopy command heap.behindCommand, some (fullCopy r.1 heap.behindData)⟩
      else some ⟨fullCopy command heap.behindCommand, none⟩ := by
  rw [decode, hs, index_append hpre]
  dsimp only
  rw [index_append hcommand]
  dsimp only
  cases index eot rest <;> rfl

/-- The first `US` of a command is that of the frame, whatever the data. -/
theorem decode_frame {heap : Heap} {s rest : Bytes} (hnul : NulFree (frame s ++ rest))
    (hheap : cstr heap.behindCommand = []) :
    decode heap (frame s ++ rest) = (index eot (s ++ eot :: rest)).map fun r =>
      ⟨fullCopy str heap.behindCommand, some (fullCopy r.1 heap.behindData)⟩ := by
  have hframe : cstr (frame s ++ rest) = [] ++ soh :: (str ++ us :: (s ++ eot :: rest)) := by
    rw [cstr_eq_self hnul]
    simp [frame]
  rw [decode_of_split hframe List.not_mem_nil (by decide),
    if_pos ((fullCopy_string_iff nulFree_str _).mpr hheap)]

/-- Up to an `EOT` the data is read back. -/
theorem decode_frame_of_not_mem {heap : Heap} {s : Bytes} (hnul : NulFree s) (h : eot ∉ s)
    (hheap : cstr heap.behindCommand = []) : decode heap (frame s) =
      some ⟨fullCopy str heap.behindCommand, some (fullCopy s heap.behindData)⟩ := by
  have hnul' : NulFree (frame s ++ []) := by
    rw [List.append_nil]
    exact nulFree_frame hnul
  have hdec := decode_frame hnul' hheap
  rwa [List.append_nil, index_append h] at hdec

/-! ## From the string to the data -/

/-- The decoder reads `STR` and the string, from the copies and between the delimiters. -/
def Decodes (heap : Heap) (out s : Bytes) : Prop :=
  ∃ command data, decode heap out = some ⟨command, some data⟩ ∧ command.string = str ∧
    data.source = s ∧ data.string = s

/-- The whole command of `s` and of what is read behind it comes back as `s` if there is
no `EOT` before the end of `s`, one behind it, and a NUL behind the copies. -/
theorem decodes_frame_iff {heap : Heap} {s t : Bytes} (hs : NulFree s) (ht : NulFree t) :
    Decodes heap (frame (s ++ t)) s ↔ eot ∉ s ∧ (∀ b ∈ t.head?, b = eot) ∧ heap.Clean := by
  have hnul : NulFree (frame (s ++ t)) := nulFree_frame (hs.append ht)
  have hframe : cstr (frame (s ++ t)) = [] ++ soh :: (str ++ us :: (s ++ t ++ [eot])) := by
    rw [cstr_eq_self hnul]
    simp [frame]
  constructor
  · rintro ⟨command, data, hdecode, hstr, hsource, hstring⟩
    rw [decode_of_split hframe List.not_mem_nil (by decide)] at hdecode
    split at hdecode
    · next hcommand =>
        obtain ⟨⟨x, y⟩, hi, heq⟩ := Option.map_eq_some_iff.mp hdecode
        obtain ⟨hsplit, hx⟩ := index_eq_some hi
        obtain ⟨-, hdata⟩ := Decoded.mk.inj heq
        obtain rfl := Option.some.inj hdata
        obtain rfl : x = s := hsource
        refine ⟨hx, ?_, (fullCopy_string_iff nulFree_str _).mp hcommand,
          (fullCopy_string_iff hs _).mp hstring⟩
        cases t with
        | nil => simp
        | cons b t =>
            rw [List.append_assoc] at hsplit
            have hb : b = eot := (List.cons.inj (List.append_cancel_left hsplit)).1
            simpa using hb
    · cases hdecode
  · rintro ⟨heot, hhead, hheap⟩
    obtain ⟨post, hpost⟩ : ∃ post, t ++ [eot] = eot :: post := by
      cases t with
      | nil => exact ⟨[], rfl⟩
      | cons b t =>
          obtain rfl := hhead b rfl
          exact ⟨t ++ [eot], rfl⟩
    have hcommand := (fullCopy_string_iff nulFree_str heap.behindCommand).mpr hheap.command
    refine ⟨fullCopy str heap.behindCommand, fullCopy s heap.behindData, ?_, hcommand, rfl,
      (fullCopy_string_iff hs _).mpr hheap.data⟩
    rw [decode_of_split hframe List.not_mem_nil (by decide), if_pos hcommand, List.append_assoc,
      hpost, index_append heot]
    rfl

/-- For every string the client accepts, its buffer holds the whole command and the
controller decodes `STR` and the string from it exactly when the string has no `EOT`,
what the client reads behind its copy is nothing or starts with an `EOT` and has room
in the buffer, and the controller's heap has a NUL behind both of its copies. -/
theorem decode_transmit_iff {s : Bytes} (hnul : NulFree s) (hlen : s.length ≤ maxStrSz)
    (behind : Bytes) (heap : Heap) :
    (∃ out, sendStr behind s = some out ∧ out = frame (s ++ cstr behind) ∧ Decodes heap out s) ↔
      eot ∉ s ∧ (∀ b ∈ (cstr behind).head?, b = eot) ∧
        s.length + (cstr behind).length + 6 < bufferSz - 1 ∧ heap.Clean := by
  have hiff := @decodes_frame_iff heap s (cstr behind) hnul (nulFree_cstr behind)
  have hroom : (frame (s ++ cstr behind)).length = s.length + (cstr behind).length + 6 := by
    rw [length_frame, List.length_append]
  constructor
  · rintro ⟨out, hsent, rfl, hdecodes⟩
    obtain ⟨heot, hhead, hheap⟩ := hiff.mp hdecodes
    exact ⟨heot, hhead, hroom ▸ ((sendStr_eq_some_iff hnul hlen).mp hsent).1, hheap⟩
  · rintro ⟨heot, hhead, hfit, hheap⟩
    exact ⟨_, (sendStr_eq_some_iff hnul hlen).mpr ⟨hroom ▸ hfit, rfl⟩, rfl,
      hiff.mpr ⟨heot, hhead, hheap⟩⟩

/-- Delimiters other than `EOT` come back, with NULs behind the copies. -/
theorem decode_transmit_delimiters : ∃ out, sendStr [0] [97, 1, 31, 98] = some out ∧
    out = frame ([97, 1, 31, 98] ++ cstr [0]) ∧ Decodes ⟨[0], [0]⟩ out [97, 1, 31, 98] :=
  (decode_transmit_iff (by decide) (by decide) [0] ⟨[0], [0]⟩).mpr (by decide +kernel)

/-- The string `a EOT b` comes back as `a`. -/
theorem decode_transmit_eot : ¬ ∃ out, sendStr [0] [97, 4, 98] = some out ∧
    out = frame ([97, 4, 98] ++ cstr [0]) ∧ Decodes ⟨[0], [0]⟩ out [97, 4, 98] := by
  rintro ⟨out, -, rfl, hdecodes⟩
  have heot := (@decodes_frame_iff ⟨[0], [0]⟩ [97, 4, 98] (cstr [0]) (by decide) (by decide)).mp
    hdecodes
  exact absurd heot.1 (by decide)

/-- With a size behind the client's copy, a string of 24 bytes comes back longer. -/
example : ¬ Decodes ⟨[0], [0]⟩ (frame (List.replicate 24 65 ++ cstr [33, 4]))
    (List.replicate 24 65) := by
  rw [decodes_frame_iff (by decide) (by decide)]
  exact fun h => absurd (h.2.1 33 (by decide)) (by decide)

end ProbeStuffing.Controller

import ProbeStuffing.Controller.Decoder

/-!
# The copies of the decoder

`run_server` copies the command and the data out of its buffer.  Each copy gets a
block of `sublen` bytes, which `strncpy` fills to the last byte, since the source
goes on with a delimiter.  So no copy is terminated, and whoever reads it as a
string goes on into the heap (`copies_spec`).

`copies` are the blocks as they are filled, and `decode` gives the same copies
(`decode_eq_copies`).
-/

namespace ProbeStuffing.Controller

open CString

/-! ## Copies -/

/-- The copies of `run_server`: the command, and the data if the command is `STR`. -/
def copies (heap : Heap) (buffer : Bytes) : List Copy :=
  let s := cstr buffer
  match indexFrom soh s 0 with
  | none => []
  | some sohPtr =>
      let readPtr := sohPtr + 1
      match indexFrom us s readPtr with
      | none => []
      | some usPtr =>
          let command := copyOut s readPtr usPtr heap.behindCommand
          if command.string = str then
            let readPtr := usPtr + 1
            match indexFrom eot s readPtr with
            | none => [command]
            | some eotPtr => [command, copyOut s readPtr eotPtr heap.behindData]
          else [command]

/-- The buffer has a command. -/
def WellFormed (buffer : Bytes) : Prop :=
  ∃ pre tag data post, CommandAt (cstr buffer) pre tag data post

/-- Every copy is terminated inside its block, and read as the bytes it was made of. -/
structure Terminated (heap : Heap) (buffer : Bytes) : Prop where
  terminator : ∀ copy ∈ copies heap buffer, 0 ∈ copy.block
  seen : ∀ copy ∈ copies heap buffer, copy.string = copy.source

/-! ## The copies of a command -/

section Command

variable {buffer pre tag data post : Bytes}

theorem CommandAt.nulFree (h : CommandAt (cstr buffer) pre tag data post) :
    NulFree tag ∧ NulFree data := by
  have hbuffer := nulFree_cstr buffer
  rw [h.split] at hbuffer
  refine ⟨fun b hb => hbuffer b ?_, fun b hb => hbuffer b ?_⟩
  · simp [hb]
  · simp [hb]

/-- Both copies fill their blocks, and the tag is compared with what follows it. -/
theorem copies_eq (h : CommandAt (cstr buffer) pre tag data post) (heap : Heap) :
    copies heap buffer =
      fullCopy tag heap.behindCommand ::
        if (fullCopy tag heap.behindCommand).string = str then [fullCopy data heap.behindData]
        else [] := by
  obtain ⟨hs, hpre, htag, hdata⟩ := h
  have hnul := nulFree_cstr buffer
  have htagDrop := drop_soh hs
  have hdataDrop := drop_behind htagDrop
  have hus := indexFrom_append htagDrop htag
  have heot := indexFrom_append hdataDrop hdata
  simp only [copies, indexFrom_soh hs hpre, hus, heot, copyOut_eq htagDrop hnul,
    copyOut_eq hdataDrop hnul]
  split
  · rfl
  · rfl

/-- No copy is terminated, and it is read as it was copied exactly if the heap
happens to have a NUL behind it. -/
theorem copies_spec (h : CommandAt (cstr buffer) pre tag data post) (heap : Heap) :
    ∀ copy ∈ copies heap buffer,
      0 ∉ copy.block ∧ (copy.string = copy.source ↔ cstr copy.behind = []) := by
  obtain ⟨htag, hdata⟩ := h.nulFree
  have hfull : ∀ (x behind : Bytes), NulFree x → 0 ∉ (fullCopy x behind).block ∧
      ((fullCopy x behind).string = x ↔ cstr behind = []) :=
    fun x behind hx => ⟨fun h0 => hx 0 h0 rfl, fullCopy_string_iff hx behind⟩
  intro copy hcopy
  rw [copies_eq h] at hcopy
  rcases List.mem_cons.mp hcopy with rfl | hcopy
  · exact hfull tag heap.behindCommand htag
  · split at hcopy
    · cases List.mem_singleton.mp hcopy
      exact hfull data heap.behindData hdata
    · exact absurd hcopy List.not_mem_nil

/-- The decoder works on these copies. -/
theorem decode_eq_copies (h : CommandAt (cstr buffer) pre tag data post) (heap : Heap) :
    (decode heap buffer).map (fun d => d.command :: d.data.toList) = some (copies heap buffer) := by
  rw [copies_eq h, decode_of_split h.split h.soh_notMem h.us_notMem, index_append h.eot_notMem]
  split
  · rfl
  · rfl

end Command

/-- On no command are the copies terminated. -/
theorem not_terminated (heap : Heap) {buffer : Bytes} (h : WellFormed buffer) :
    ¬ Terminated heap buffer ∧ copies heap buffer ≠ [] ∧
      ∀ copy ∈ copies heap buffer,
        0 ∉ copy.block ∧ (copy.string = copy.source ↔ cstr copy.behind = []) := by
  obtain ⟨pre, tag, data, post, hc⟩ := h
  have hspec := copies_spec hc heap
  have hcommand : fullCopy tag heap.behindCommand ∈ copies heap buffer := by
    rw [copies_eq hc]
    exact List.mem_cons_self
  refine ⟨fun hterm => ?_, List.ne_nil_of_mem hcommand, hspec⟩
  exact (hspec _ hcommand).1 (hterm.terminator _ hcommand)

/-- `SOH STR US a EOT`. -/
theorem commandAt_frame : CommandAt (cstr (frame [97])) [] str [97] [] where
  split := by decide
  soh_notMem := by decide
  us_notMem := by decide
  eot_notMem := by decide

/-- With a byte behind the tag, `strcmp` sees another command. -/
theorem not_terminated_frame : ¬ Terminated ⟨[88], []⟩ (frame [97]) ∧
    copies ⟨[88], []⟩ (frame [97]) ≠ [] ∧
      ∀ copy ∈ copies ⟨[88], []⟩ (frame [97]),
        0 ∉ copy.block ∧ (copy.string = copy.source ↔ cstr copy.behind = []) :=
  not_terminated ⟨[88], []⟩ ⟨[], str, [97], [], commandAt_frame⟩

/-- With a NUL behind both blocks the strings come out right, and still neither
block has one. -/
theorem not_terminated_zero_heap : ¬ Terminated ⟨[0], [0]⟩ (frame [97]) := by
  intro h
  have hcommand : fullCopy str [0] ∈ copies ⟨[0], [0]⟩ (frame [97]) := by
    rw [copies_eq commandAt_frame]
    exact List.mem_cons_self
  exact absurd (h.terminator _ hcommand) (by decide)

end ProbeStuffing.Controller

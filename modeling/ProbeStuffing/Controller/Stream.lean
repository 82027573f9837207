import ProbeStuffing.Controller.Decoder

/-!
# Commands on a TCP stream

`run_server` decodes what each `read` returns, on its own: nothing is kept from
one read to the next, and of one read at most one command is taken.  TCP gives
no relation between the writes of the client and these reads, so `reads` below is
any cut of the stream.  With each read comes what C leaves open about it.

A read from which data is taken holds an `EOT`, and the stream has one for each
command.  So when every command is to be taken, no read holds two, and what a read
leaves behind cannot be the front of the next one.  Hence the cut that works is the
one with a read for each command.
-/

namespace ProbeStuffing.Controller

open CString

/-- The copies `run_server` hands to `process_and_save`, read by read.  The program ends
where a delimiter is not found, or in `process_and_save`. -/
def serve : List (Bytes × Luck) → List Copy
  | [] => []
  | (buffer, luck) :: reads =>
      match decode luck.heap buffer with
      | none => []
      | some decoded =>
          decoded.data.toList ++
            if decoded.data.all (luck.returns ·.string) then serve reads else []

/-- The bytes that were received. -/
def stream (reads : List (Bytes × Luck)) : Bytes := (reads.map Prod.fst).flatten

/-- `process_and_save` gets these strings, and no other bytes of the heap. -/
structure HandsOver (reads : List (Bytes × Luck)) (datas : List Bytes) : Prop where
  strings : (serve reads).map Copy.string = datas
  whole : ∀ copy ∈ serve reads, copy.string = copy.source

/-- What happens to one read. -/
theorem serve_cons_cases (buffer : Bytes) (luck : Luck) (reads : List (Bytes × Luck)) :
    (decode luck.heap buffer = none ∧ serve ((buffer, luck) :: reads) = []) ∨
    (∃ command, decode luck.heap buffer = some ⟨command, none⟩ ∧
      serve ((buffer, luck) :: reads) = serve reads) ∨
    ∃ command data, decode luck.heap buffer = some ⟨command, some data⟩ ∧
      serve ((buffer, luck) :: reads) =
        data :: if luck.returns data.string then serve reads else [] := by
  rw [serve]
  cases hd : decode luck.heap buffer with
  | none => exact .inl ⟨rfl, rfl⟩
  | some decoded =>
      obtain ⟨command, data⟩ := decoded
      cases data with
      | none => exact .inr (.inl ⟨command, rfl, rfl⟩)
      | some data => exact .inr (.inr ⟨command, data, rfl, rfl⟩)

/-! ## One `EOT` for each command -/

theorem count_eot_frame {s : Bytes} (h : eot ∉ s) : (frame s).count eot = 1 := by
  have hs : s.count eot = 0 := List.count_eq_zero_of_not_mem h
  have hhead : (soh :: str ++ [us]).count eot = 0 := by decide
  have heq : frame s = soh :: str ++ [us] ++ s ++ [eot] := by simp [frame]
  rw [heq, List.count_append, List.count_append, hhead, hs]
  decide

theorem count_eot_frames : ∀ {datas : List Bytes}, (∀ d ∈ datas, eot ∉ d) →
    (datas.map frame).flatten.count eot = datas.length
  | [], _ => rfl
  | d :: datas, h => by
      have ih := count_eot_frames fun e he => h e (List.mem_cons_of_mem d he)
      rw [List.map_cons, List.flatten_cons, List.count_append, ih,
        count_eot_frame (h d List.mem_cons_self), List.length_cons, Nat.add_comm]

/-- Behind the data that is handed over there is an `EOT`. -/
theorem length_serve_le : ∀ reads : List (Bytes × Luck),
    (serve reads).length ≤ (stream reads).count eot
  | [] => Nat.le_refl _
  | (buffer, luck) :: reads => by
      have ih := length_serve_le reads
      have hstream : (stream ((buffer, luck) :: reads)).count eot =
          buffer.count eot + (stream reads).count eot := by
        rw [stream, List.map_cons, List.flatten_cons, List.count_append, stream]
      rw [hstream]
      rcases serve_cons_cases buffer luck reads with
        ⟨-, h⟩ | ⟨command, -, h⟩ | ⟨command, data, hd, h⟩
      · simp [h]
      · rw [h]
        omega
      · obtain ⟨pre, tag, rest, hs, -, -, -, hdata⟩ := decode_eq_some hd
        rcases hdata with ⟨-, hnone⟩ | ⟨-, x, post, rfl, -, -⟩
        · cases hnone
        have heot : eot ∈ cstr buffer := by
          rw [hs]
          simp
        have heot : eot ∈ buffer := (List.takeWhile_prefix _).subset heot
        have hone : 0 < buffer.count eot := List.count_pos_iff.mpr heot
        have htail : (if luck.returns data.string then serve reads else []).length ≤
            (serve reads).length := by
          split <;> simp
        rw [h, List.length_cons]
        omega

/-! ## Which cuts work -/

/-- The first `SOH` of a frame is its first byte. -/
theorem eq_nil_of_soh {x command : Bytes} (h : x ++ soh :: command = soh :: str) :
    x = [] ∧ command = str := by
  cases x with
  | nil => exact ⟨rfl, (List.cons.inj h).2⟩
  | cons b x =>
      have hmem : soh ∈ str := by
        rw [← (List.cons.inj h).2]
        simp
      exact absurd hmem (by decide)

/-- A read from which the first data is taken, behind bytes without `EOT`, and holds no
other `EOT`: it starts with the command of this data. -/
theorem eq_frame_of_eot {t pre command data post tail tail' : Bytes} (hdata : eot ∉ data)
    (hfront : eot ∉ t ++ pre ++ soh :: command)
    (h : t ++ (pre ++ soh :: (command ++ us :: (data ++ eot :: post))) ++ tail =
      frame data ++ tail') : t = [] ∧ pre = [] ∧ command = str ∧ post ++ tail = tail' := by
  have hsplit : (t ++ pre ++ soh :: command ++ us :: data) ++ eot :: (post ++ tail) =
      (soh :: str ++ us :: data) ++ eot :: tail' := by
    simpa [frame] using h
  have hleft : eot ∉ t ++ pre ++ soh :: command ++ us :: data := by
    rw [List.mem_append, List.mem_cons]
    rintro (hm | hm | hm)
    · exact hfront hm
    · exact absurd hm (by decide)
    · exact hdata hm
  have hright : eot ∉ soh :: str ++ us :: data := by
    rw [List.mem_append, List.mem_cons (b := us)]
    rintro (hm | hm | hm)
    · exact absurd hm (by decide)
    · exact absurd hm (by decide)
    · exact hdata hm
  have hindex := index_append hleft (t := post ++ tail)
  rw [hsplit, index_append hright] at hindex
  obtain ⟨hbefore, hbehind⟩ := Prod.mk.inj (Option.some.inj hindex)
  obtain ⟨hnil, hstr⟩ := eq_nil_of_soh (List.append_cancel_right hbefore).symm
  obtain ⟨ht, hpre⟩ := List.append_eq_nil_iff.mp hnil
  exact ⟨ht, hpre, hstr, hbehind.symm⟩

/-- Every read but the last one with data has a string from which `process_and_save`
returns. -/
def Returns (reads : List (Bytes × Luck)) (datas : List Bytes) : Prop :=
  ∀ p ∈ (reads.zip datas).dropLast, p.1.2.returns p.2 = true

instance (reads : List (Bytes × Luck)) (datas : List Bytes) : Decidable (Returns reads datas) :=
  inferInstanceAs (Decidable (∀ p ∈ _, _))

theorem returns_cons {r r' : Bytes × Luck} {reads : List (Bytes × Luck)} {d d' : Bytes}
    {datas : List Bytes} : Returns (r :: r' :: reads) (d :: d' :: datas) ↔
      r.2.returns d = true ∧ Returns (r' :: reads) (d' :: datas) := by
  simp only [Returns, List.zip_cons_cons, List.dropLast_cons_cons, List.forall_mem_cons]

theorem nulFree_frames {datas : List Bytes} (h : ∀ d ∈ datas, NulFree d) :
    NulFree (datas.map frame).flatten := by
  intro b hb
  obtain ⟨s, hs, hbs⟩ := List.mem_flatten.mp hb
  obtain ⟨d, hd, rfl⟩ := List.mem_map.mp hs
  exact nulFree_frame (h d hd) b hbs

/-- The `EOT`s of a read from which data is taken. -/
theorem count_eot_command {pre command data post : Bytes} (hdata : eot ∉ data) :
    (pre ++ soh :: (command ++ us :: (data ++ eot :: post))).count eot =
      (pre ++ soh :: command).count eot + 1 + post.count eot := by
  have hnone : data.count eot = 0 := List.count_eq_zero_of_not_mem hdata
  have hus : List.count eot [us] = 0 := by decide
  have heq : pre ++ soh :: (command ++ us :: (data ++ eot :: post)) =
      (pre ++ soh :: command) ++ [us] ++ data ++ [eot] ++ post := by simp
  rw [heq, List.count_append, List.count_append, List.count_append, List.count_append, hus, hnone,
    List.count_singleton_self]

/-- When the rest of the stream has an `EOT` for every other command, a read with data is
the first frame, and what it has behind it has no `EOT`. -/
theorem frame_of_read {t buffer pre command data post tail : Bytes} {datas : List Bytes}
    (hdatas : ∀ d ∈ data :: datas, NulFree d ∧ eot ∉ d)
    (hbuffer : cstr buffer = pre ++ soh :: (command ++ us :: (data ++ eot :: post)))
    (ht : eot ∉ t) (hrest : datas.length ≤ tail.count eot)
    (hstream : t ++ (buffer ++ tail) = ((data :: datas).map frame).flatten) :
    t = [] ∧ command = str ∧ buffer = frame data ++ post ∧ eot ∉ post ∧
      post ++ tail = (datas.map frame).flatten := by
  have hdata : eot ∉ data := (hdatas data List.mem_cons_self).2
  have hnul : NulFree (t ++ (buffer ++ tail)) := by
    rw [hstream]
    exact nulFree_frames fun d hd => (hdatas d hd).1
  have hself : cstr buffer = buffer := cstr_eq_self fun b hb => hnul b (by simp [hb])
  rw [hself] at hbuffer
  have hcount : t.count eot + (buffer.count eot + tail.count eot) = datas.length + 1 := by
    have htotal := count_eot_frames fun d hd => (hdatas d hd).2
    rwa [← hstream, List.count_append, List.count_append, List.length_cons] at htotal
  have hone := @count_eot_command pre command data post hdata
  rw [← hbuffer] at hone
  have hfront : eot ∉ t ++ pre ++ soh :: command := by
    rw [List.append_assoc, List.mem_append, not_or]
    refine ⟨ht, List.count_eq_zero.mp ?_⟩
    omega
  have hpost : eot ∉ post := List.count_eq_zero.mp (by omega)
  rw [List.map_cons, List.flatten_cons, ← List.append_assoc, hbuffer] at hstream
  obtain ⟨rfl, rfl, rfl, htail⟩ := eq_frame_of_eot hdata hfront hstream
  refine ⟨rfl, rfl, ?_, hpost, htail⟩
  rw [hbuffer]
  simp [frame]

/-- Reads that are not empty, behind bytes without `EOT` that a read has left.  When they
hand over the data of the frames, nothing was left, and each of them is a frame. -/
theorem frames_of_handsOver : ∀ {reads : List (Bytes × Luck)} {datas : List Bytes} {t : Bytes},
    (∀ d ∈ datas, NulFree d ∧ eot ∉ d) → (∀ r ∈ reads, r.1 ≠ []) → eot ∉ t →
    t ++ stream reads = (datas.map frame).flatten → (serve reads).map Copy.source = datas →
    (∀ copy ∈ serve reads, copy.string = copy.source) →
    t = [] ∧ reads.map Prod.fst = datas.map frame ∧ (∀ r ∈ reads, r.2.heap.Clean) ∧
      Returns reads datas
  | [], datas, t, _, _, _, hstream, hsource, _ => by
      obtain rfl : [] = datas := hsource
      exact ⟨(List.append_eq_nil_iff.mp hstream).1, rfl, List.forall_mem_nil _,
        List.forall_mem_nil _⟩
  | (buffer, luck) :: reads, datas, t, hdatas, hne, ht, hstream, hsource, hwhole => by
      have hbuffer : buffer ≠ [] := hne _ List.mem_cons_self
      have hne' : ∀ r ∈ reads, r.1 ≠ [] := fun r hr => hne r (List.mem_cons_of_mem _ hr)
      have hcons : stream ((buffer, luck) :: reads) = buffer ++ stream reads := rfl
      rw [hcons] at hstream
      have hlen : (serve ((buffer, luck) :: reads)).length = datas.length := by
        rw [← hsource, List.length_map]
      have hle := length_serve_le reads
      rcases serve_cons_cases buffer luck reads with
        ⟨-, hs⟩ | ⟨command, -, hs⟩ | ⟨command, copy, hd, hs⟩
      · -- the program has ended, and the stream is not empty
        rw [hs] at hsource
        obtain rfl : [] = datas := hsource
        simp [hbuffer] at hstream
      · -- a read from which nothing is taken has no `EOT`, and is left for the next ones
        rw [hs] at hsource hwhole hlen
        have hcount : t.count eot + (buffer.count eot + (stream reads).count eot) =
            datas.length := by
          rw [← count_eot_frames fun d hd => (hdatas d hd).2, ← hstream, List.count_append,
            List.count_append]
        have hnot : eot ∉ t ++ buffer := by
          rw [List.mem_append, not_or]
          refine ⟨ht, List.count_eq_zero.mp ?_⟩
          omega
        have htail := frames_of_handsOver hdatas hne' hnot
          ((List.append_assoc ..).trans hstream) hsource hwhole
        exact absurd (List.append_eq_nil_iff.mp htail.1).2 hbuffer
      · obtain ⟨pre, tag, rest, hsplit, -, -, htag, hdata⟩ := decode_eq_some hd
        rcases hdata with ⟨-, hnone⟩ | ⟨hstr, x, post, rfl, hx, hcopy⟩
        · cases hnone
        obtain rfl := Option.some.inj hcopy
        rw [hs] at hsource hwhole hlen
        obtain ⟨datas', rfl⟩ : ∃ datas', datas = x :: datas' := ⟨_, hsource.symm⟩
        obtain ⟨-, hsource⟩ := List.cons.inj hsource
        -- the other strings need all the other `EOT`s
        have hrest : datas'.length ≤ (stream reads).count eot := by
          rw [List.length_cons, List.length_cons, Nat.add_right_cancel_iff] at hlen
          rw [← hlen]
          split
          · exact hle
          · exact Nat.zero_le _
        obtain ⟨rfl, rfl, hframe, hpost, htail⟩ := frame_of_read hdatas hsplit ht hrest hstream
        obtain ⟨hcopy, hwhole⟩ := List.forall_mem_cons.mp hwhole
        have hx0 : NulFree x := (hdatas x List.mem_cons_self).1
        have hclean : luck.heap.Clean :=
          ⟨(fullCopy_string_iff nulFree_str _).mp (htag ▸ hstr),
            (fullCopy_string_iff hx0 _).mp hcopy⟩
        replace hcopy : (fullCopy x luck.heap.behindData).string = x := hcopy
        rw [hcopy] at hsource hwhole
        have hdatas' : ∀ d ∈ datas', NulFree d ∧ eot ∉ d :=
          fun d hd => hdatas d (List.mem_cons_of_mem x hd)
        cases hreturns : luck.returns x with
        | false =>
            rw [hreturns] at hsource
            obtain rfl : [] = datas' := hsource
            obtain ⟨rfl, hnil⟩ := List.append_eq_nil_iff.mp htail
            cases reads with
            | nil => simp [hframe, hclean, Returns]
            | cons r reads =>
                exact absurd (List.append_eq_nil_iff.mp hnil).1 (hne' r List.mem_cons_self)
        | true =>
            rw [hreturns] at hsource hwhole
            obtain ⟨rfl, hframes, hcleans, hreturn⟩ :=
              frames_of_handsOver hdatas' hne' hpost htail hsource hwhole
            refine ⟨rfl, ?_, List.forall_mem_cons.mpr ⟨hclean, hcleans⟩, ?_⟩
            · rw [List.map_cons, List.map_cons, hframes, hframe, List.append_nil]
            · cases reads with
              | nil => exact List.forall_mem_nil _
              | cons r reads =>
                  cases datas' with
                  | nil => cases hframes
                  | cons d datas' => exact returns_cons.mpr ⟨hreturns, hreturn⟩

/-- One read for each command works. -/
theorem serve_frames : ∀ {reads : List (Bytes × Luck)} {datas : List Bytes},
    (∀ d ∈ datas, NulFree d ∧ eot ∉ d) → reads.map Prod.fst = datas.map frame →
    (∀ r ∈ reads, r.2.heap.Clean) → Returns reads datas →
    (serve reads).map Copy.source = datas ∧ ∀ copy ∈ serve reads, copy.string = copy.source
  | [], [], _, _, _, _ => ⟨rfl, List.forall_mem_nil _⟩
  | (buffer, luck) :: reads, d :: datas, hdatas, hframes, hclean, hreturn => by
      obtain ⟨hnul, heot⟩ := hdatas d List.mem_cons_self
      obtain ⟨hbuffer, hframes⟩ := List.cons.inj hframes
      replace hbuffer : buffer = frame d := hbuffer
      obtain ⟨hheap, hclean⟩ := List.forall_mem_cons.mp hclean
      have hcopy : (fullCopy d luck.heap.behindData).string = d :=
        (fullCopy_string_iff hnul _).mpr hheap.data
      have hserve : serve ((buffer, luck) :: reads) =
          fullCopy d luck.heap.behindData :: if luck.returns d then serve reads else [] := by
        rw [serve, hbuffer, decode_frame_of_not_mem hnul heot hheap.command]
        simp only [Option.toList_some, Option.all_some, hcopy, List.singleton_append]
      rw [hserve, List.forall_mem_cons, List.map_cons]
      cases reads with
      | nil =>
          cases datas with
          | nil =>
              refine ⟨?_, hcopy, ?_⟩ <;> split <;> first | rfl | exact List.forall_mem_nil _
          | cons d' datas => cases hframes
      | cons r reads =>
          cases datas with
          | nil => cases hframes
          | cons d' datas =>
              obtain ⟨hfirst, hreturn⟩ := returns_cons.mp hreturn
              obtain ⟨hsource, hwhole⟩ := serve_frames
                (fun e he => hdatas e (List.mem_cons_of_mem d he)) hframes hclean hreturn
              replace hfirst : luck.returns d = true := hfirst
              rw [hfirst, if_pos rfl, hsource]
              exact ⟨rfl, hcopy, hwhole⟩

/-- The commands of `transmit`, one for each string. -/
theorem frames_of_transmit : ∀ {datas commands : List Bytes}, (∀ d ∈ datas, NulFree d) →
    datas.map transmit = commands.map some → commands = datas.map frame
  | [], [], _, _ => rfl
  | d :: datas, c :: commands, hnul, h => by
      obtain ⟨hd, hrest⟩ := List.cons.inj h
      have hc : c = frame d := frame_of_transmit (hnul d List.mem_cons_self) hd
      have htail : commands = datas.map frame :=
        frames_of_transmit (fun e he => hnul e (List.mem_cons_of_mem d he)) hrest
      rw [hc, htail, List.map_cons]
  | [], _ :: _, _, h => nomatch h
  | _ :: _, [], _, h => nomatch h

/-- On the strings themselves, when there is a NUL behind every copy. -/
theorem map_string_eq {copies : List Copy} (h : ∀ copy ∈ copies, copy.string = copy.source) :
    copies.map Copy.string = copies.map Copy.source := List.map_congr_left h

theorem serve_whole_of_clean : ∀ {reads : List (Bytes × Luck)},
    (∀ r ∈ reads, r.2.heap.Clean) → ∀ copy ∈ serve reads, copy.string = copy.source
  | [], _ => List.forall_mem_nil _
  | (buffer, luck) :: reads, hclean => by
      obtain ⟨hheap, hclean⟩ := List.forall_mem_cons.mp hclean
      have ih := serve_whole_of_clean hclean
      rcases serve_cons_cases buffer luck reads with
        ⟨-, hs⟩ | ⟨command, -, hs⟩ | ⟨command, copy, hd, hs⟩
      · rw [hs]
        exact List.forall_mem_nil _
      · rwa [hs]
      · rw [hs, List.forall_mem_cons]
        constructor
        · obtain ⟨pre, tag, rest, hsplit, -, -, -, hdata⟩ := decode_eq_some hd
          rcases hdata with ⟨-, hnone⟩ | ⟨-, x, post, rfl, -, hcopy⟩
          · cases hnone
          obtain rfl := Option.some.inj hcopy
          have hnul := nulFree_cstr buffer
          rw [hsplit] at hnul
          exact (fullCopy_string_iff (fun b hb => hnul b (by simp [hb])) _).mpr hheap.data
        · split
          · exact ih
          · exact List.forall_mem_nil _

/-- For commands of the client and any cut of their stream into reads, the controller
takes over exactly the data strings when each read returned exactly one command, the heap
had a NUL behind every copy, and `process_and_save` came back from every string but the
last; and in no other case.  With a NUL behind every copy, no other strings can be those
of the commands either. -/
theorem serve_eq_iff {datas commands : List Bytes} {reads : List (Bytes × Luck)}
    (hdatas : ∀ d ∈ datas, NulFree d ∧ eot ∉ d)
    (hcommands : datas.map transmit = commands.map some)
    (hreads : ∀ r ∈ reads, 1 ≤ r.1.length ∧ r.1.length ≤ bufferSz - 1)
    (hcut : stream reads = commands.flatten) :
    (HandsOver reads datas ↔ reads.map Prod.fst = commands ∧ (∀ r ∈ reads, r.2.heap.Clean) ∧
        Returns reads datas) ∧
      ((∀ r ∈ reads, r.2.heap.Clean) → ((serve reads).map Copy.string = datas ↔
        reads.map Prod.fst = commands ∧ Returns reads datas)) := by
  have hframes : commands = datas.map frame := frames_of_transmit (fun d hd => (hdatas d hd).1)
    hcommands
  subst hframes
  have hiff : HandsOver reads datas ↔ reads.map Prod.fst = datas.map frame ∧
      (∀ r ∈ reads, r.2.heap.Clean) ∧ Returns reads datas := by
    constructor
    · rintro ⟨hstrings, hwhole⟩
      have hne : ∀ r ∈ reads, r.1 ≠ [] := fun r hr => List.ne_nil_of_length_pos (hreads r hr).1
      rw [map_string_eq hwhole] at hstrings
      exact (frames_of_handsOver hdatas hne List.not_mem_nil hcut hstrings hwhole).2
    · rintro ⟨hframes, hclean, hreturn⟩
      obtain ⟨hsource, hwhole⟩ := serve_frames hdatas hframes hclean hreturn
      exact ⟨(map_string_eq hwhole).trans hsource, hwhole⟩
  refine ⟨hiff, fun hclean => ⟨fun hstrings => ?_, fun ⟨hframes, hreturn⟩ => ?_⟩⟩
  · obtain ⟨hframes, -, hreturn⟩ := hiff.mp ⟨hstrings, serve_whole_of_clean hclean⟩
    exact ⟨hframes, hreturn⟩
  · exact (hiff.mpr ⟨hframes, hclean, hreturn⟩).strings

/-- `NA,1,2,0,1,0,1,` and a letter. -/
def letterRecord (letter : UInt8) : Bytes :=
  [78, 65, 44, 49, 44, 50, 44, 48, 44, 49, 44, 48, 44, 49, 44, letter]

/-- `process_and_save` gets through a string only where C says so. -/
def unlucky : Luck := { survives := false }

/-- Two commands, each in a read of its own. -/
theorem serve_two_reads : HandsOver
    [(frame (letterRecord 65), unlucky), (frame (letterRecord 66), unlucky)]
    [letterRecord 65, letterRecord 66] := by
  have hcut : stream [(frame (letterRecord 65), unlucky), (frame (letterRecord 66), unlucky)] =
      [frame (letterRecord 65), frame (letterRecord 66)].flatten := rfl
  refine (serve_eq_iff (by decide) (by decide) (by decide) hcut).1.mpr ⟨rfl, by decide, ?_⟩
  decide +kernel

/-- The two commands in one read: the second is lost. -/
theorem serve_coalesced : ∃ (datas commands : List Bytes) (reads : List (Bytes × Luck)),
    (∀ d ∈ datas, NulFree d ∧ eot ∉ d) ∧ datas.map transmit = commands.map some ∧
      (∀ r ∈ reads, 1 ≤ r.1.length ∧ r.1.length ≤ bufferSz - 1) ∧
      stream reads = commands.flatten ∧ (∀ r ∈ reads, r.2.heap.Clean) ∧
      (serve reads).map Copy.string ≠ datas :=
  ⟨[letterRecord 65, letterRecord 66], [frame (letterRecord 65), frame (letterRecord 66)],
    [(frame (letterRecord 65) ++ frame (letterRecord 66), unlucky)], by decide, by decide,
    by decide, by decide, by decide, by decide⟩

end ProbeStuffing.Controller

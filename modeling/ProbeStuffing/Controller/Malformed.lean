import ProbeStuffing.Controller.Rounds

/-!
# Malformed input

What a read must be for the server to take it well: no NULL is used, no length is
negative, and either the string between the delimiters is handed over or a round with this
read leaves the server as it was, its database and all its connections.

The decoder does not look for any of this.  So it holds exactly of the reads that have the
delimiters of a command, on a heap with a NUL behind the copy of the data; and never after
an error of `read` (`handled_iff`).
-/

namespace ProbeStuffing.Controller

open CString

/-- The server is as before after a round in which only this read is made. -/
def LeftAlone (luck : Luck) (read : Read) : Prop :=
  ∀ {Db : Type} (S : Sqlite Db) (serverSockfd sd : Nat) (s : Server Db) (clientAddr : Nat → InAddr)
    (conTs : List UInt64), sd ≠ 0 → sd ≠ serverSockfd → s.connections.clientSockfds.count sd = 1 →
      serverStep S serverSockfd s ⟨⟨[sd], none, [.read read luck]⟩, clientAddr, conTs⟩ =
        some (s, [])

/-- The read is decoded safely, and has a string that is handed over, as `DecodeOp.Safe`
says it must be, or no effect. -/
structure Handled (luck : Luck) (read : Read) : Prop where
  safe : ∀ op ∈ decodeOps luck.heap read.buffer, op.Safe read.buffer
  effect : (∃ data, handed (decodeOps luck.heap read.buffer) = [data]) ∨ LeftAlone luck read

/-! ## A round with one read -/

section OneRead

variable {serverSockfd sd : Nat} {st : Connections}

/-- The slots around the client. -/
theorem slots_around (h : st.clientSockfds.count sd = 1) :
    ∃ before behind, st.clientSockfds = before ++ sd :: behind ∧ sd ∉ before ∧ sd ∉ behind := by
  have hmem : sd ∈ st.clientSockfds := List.count_pos_iff.mp (by omega)
  obtain ⟨before, behind, hslots, hbefore⟩ := List.eq_append_cons_of_mem hmem
  refine ⟨before, behind, hslots, hbefore, ?_⟩
  have hzero : before.count sd = 0 := List.count_eq_zero_of_not_mem hbefore
  rw [hslots, List.count_append, hzero, List.count_cons_self] at h
  exact List.count_eq_zero.mp (by omega)

/-- A read from which nothing is taken changes nothing. -/
theorem serverRound_of_takeOver_none {luck : Luck} {read : Read}
    (hread : takeOver luck read.buffer = some none) (hsd : sd ≠ 0) (hserver : sd ≠ serverSockfd)
    (hslot : st.clientSockfds.count sd = 1) :
    serverRound serverSockfd st ⟨[sd], none, [.read read luck]⟩ = some (st, []) := by
  obtain ⟨before, behind, hslots, hbefore, hbehind⟩ := slots_around hslot
  have hwatched : sd ∈ watched serverSockfd st := by
    refine List.mem_cons_of_mem _ (List.mem_filter.mpr ⟨?_, decide_eq_true (by omega)⟩)
    rw [hslots]
    simp
  have hready : isSet serverSockfd st ⟨[sd], none, [.read read luck]⟩ = fun x => decide (x = sd) :=
    funext (isSet_singleton hwatched)
  have haccept : acceptClient serverSockfd st ⟨[sd], none, [.read read luck]⟩ = some (st, []) := by
    rw [acceptClient, hready, if_neg]
    simpa using hserver.symm
  have hidle : ∀ {sds : List Nat}, sd ∉ sds → ∀ x ∈ sds, decide (x = sd) = false :=
    fun hnot x hx => decide_eq_false fun heq => hnot (heq ▸ hx)
  have hserve : serveClients (fun x => decide (x = sd)) (sd :: behind) st.opened
      [.read read luck] = some (sd :: behind, st.opened, []) := by
    rw [serveClients, if_pos (decide_eq_true rfl)]
    simp only [hread, serveClients_all_idle (hidle hbehind)]
    rfl
  rw [serverRound, haccept, Option.bind_some, hready]
  dsimp only
  rw [hslots, serveClients_idle (hidle hbefore), hserve]
  dsimp only [Option.map_some]
  rw [← hslots]
  rfl

theorem leftAlone_of_takeOver {luck : Luck} {read : Read}
    (h : takeOver luck read.buffer = some none) : LeftAlone luck read := by
  intro Db S serverSockfd sd s clientAddr conTs hsd hserver hslot
  rw [serverStep, serverRound_of_takeOver_none h hsd hserver hslot]
  rfl

end OneRead

/-! ## Which reads -/

/-- A command with its delimiters has its data handed over, or is one the server does not
know and passes over. -/
theorem effect_of_wellDelimited {luck : Luck} {received : Bytes}
    (h : WellDelimited luck.heap (cstr received)) :
    (∃ data, handed (decodeOps luck.heap (Read.bytes received).buffer) = [data]) ∨
      LeftAlone luck (.bytes received) := by
  obtain ⟨pre, command, rest, hs, hpre, hcommand, hdata⟩ := h
  have hnul : NulFree command := nulFree_command hs
  have hdecode := @decode_of_split luck.heap _ _ _ _ hs hpre hcommand
  rw [← decode_buffer] at hdecode
  split at hdecode
  · next hstr =>
      rw [fullCopy_string hnul] at hstr
      obtain ⟨data, post, hsplit, hnot⟩ := exists_split (hdata hstr).1
      rw [hsplit, index_append hnot] at hdecode
      exact .inl ⟨_, handed_of_decode hdecode⟩
  · right
    refine leftAlone_of_takeOver ?_
    rw [takeOver, hdecode]
    rfl

/-- The server takes a read well exactly if it is one of bytes that have `SOH`, then `US`,
and behind a command that is compared as `STR` an `EOT`, with a NUL behind the copy of the
data. -/
theorem handled_iff (luck : Luck) (read : Read) : Handled luck read ↔
    ∃ received, read = .bytes received ∧ WellDelimited luck.heap (cstr received) := by
  constructor
  · rintro ⟨hsafe, -⟩
    have hwell := (decodeOps_safe_iff luck.heap read.buffer).mp hsafe
    cases read with
    | error =>
        obtain ⟨pre, command, rest, hs, -⟩ := hwell
        have hnil : cstr Read.error.buffer = [] := rfl
        rw [hnil] at hs
        simp at hs
    | bytes received =>
        rw [Read.buffer, cstr_append_zeros] at hwell
        exact ⟨received, rfl, hwell⟩
  · rintro ⟨received, rfl, hwell⟩
    refine ⟨(decodeOps_safe_iff luck.heap _).mpr ?_, effect_of_wellDelimited hwell⟩
    rwa [Read.buffer, cstr_append_zeros]

/-- Neither an error of `read` nor the byte `a` is taken well, whatever the heap. -/
theorem not_handled_malformed : (∀ luck, ¬ Handled luck .error) ∧
    ∀ luck, ¬ Handled luck (.bytes [97]) := by
  refine ⟨fun luck h => ?_, fun luck h => ?_⟩
  · -- `index` finds no `SOH` in the cleared buffer
    exact h.safe (.advance none) List.mem_cons_self rfl
  · exact h.safe (.advance none) List.mem_cons_self rfl

end ProbeStuffing.Controller

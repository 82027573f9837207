import ProbeStuffing.Controller.Command
import ProbeStuffing.Lib.GetoptLong

/-!
# The TCP client

`main` reads its options into five variables, checks them, connects and calls
`transmit`.  An option that is given again replaces the value it had, so what
counts of each option is its last value (`parseArgs_eq_some_iff`).  Two things
end the loop early: a `?`, and a string that is too long, even if it would have
been replaced.

A string is preferred to a file, and of a file nothing but the name is ever used:
the client connects, writes nothing and closes the connection.

The host and the string are copied into blocks of their lengths, and what the heap has
behind these is read with them.
-/

namespace ProbeStuffing.Controller

open CString Getopt

/-! ## Options -/

/-- `FLAG_CONNTYPE` -/
inductive ConnType where
  | tcp
  | udp
deriving DecidableEq

/-- The variables of the options. -/
structure Args where
  flagConntype : ConnType := .tcp
  argPort : Int := -1
  argHostAddr : Option Bytes := none
  argInputString : Option Bytes := none
  argInputFile : Option Bytes := none
deriving DecidableEq

/-- `"p:h:s:f:"` -/
def isClientOption (c : UInt8) : Bool := [112, 104, 115, 102].contains c

def longOptions : List (LongOption ConnType) :=
  [⟨ascii "tcp", .noArgument .tcp⟩, ⟨ascii "udp", .noArgument .udp⟩,
    ⟨ascii "host", .requiredArgument 104⟩, ⟨ascii "port", .requiredArgument 112⟩,
    ⟨ascii "str", .requiredArgument 115⟩, ⟨ascii "file", .requiredArgument 102⟩]

/-- The `switch` on an option; `none` ends the program. -/
def Args.next (a : Args) : LongResult ConnType → Option Args
  | .flag connType => some { a with flagConntype := connType }
  | .option opt optarg =>
      if opt = 112 then some { a with argPort := atoi optarg }
      else if opt = 104 then some { a with argHostAddr := some optarg }
      else if opt = 115 then
        if maxStrSz < optarg.length then none else some { a with argInputString := some optarg }
      else if opt = 102 then some { a with argInputFile := some optarg }
      else none
  | .unknown => none

/-- What `getopt_long` returns, call after call. -/
def clientOptions (args : List Bytes) : List (LongResult ConnType) :=
  getoptLong isClientOption longOptions args

/-- The loop over the options. -/
def parseArgs (args : List Bytes) : Option Args := (clientOptions args).foldlM Args.next {}

/-! ## The connection -/

/-- A connection of the client, from `connect` to `close`. -/
structure Connection where
  connType : ConnType
  host : Bytes
  port : UInt16
  written : Bytes
deriving DecidableEq

/-- What the heap has behind the blocks of `ARG_HOST_ADDR` and `ARG_INPUT_STRING`. -/
structure ClientHeap where
  behindHost : Bytes := []
  behindString : Bytes := []
deriving DecidableEq

/-- There is a NUL right behind each of them. -/
structure ClientHeap.Clean (heap : ClientHeap) : Prop where
  host : cstr heap.behindHost = []
  string : cstr heap.behindString = []

/-- What `transmit` writes, which is nothing without a string and when it gives
up; `none` when there is neither a string nor a file. -/
def Args.written (heap : ClientHeap) (a : Args) : Option Bytes :=
  match a.argInputString with
  | some string => some ((transmit (string ++ heap.behindString)).getD [])
  | none => a.argInputFile.map fun _ => []

/-- `main` behind the loop over the options; `none` is an error before the client
connects.  `connect` is tried until it succeeds. -/
def Args.connect (heap : ClientHeap) (a : Args) : Option Connection :=
  if a.argPort = -1 then none
  else
    match a.argHostAddr with
    | none => none
    | some host =>
        let host := cstr (host ++ heap.behindHost)
        if host = [] then none
        else (a.written heap).map (⟨a.flagConntype, host, UInt16.ofInt a.argPort, ·⟩)

/-- `main`, on the words behind the name of the program. -/
def clientMain (heap : ClientHeap) (args : List Bytes) : Option Connection :=
  (parseArgs args).bind (Args.connect heap)

/-! ## The last value of an option -/

variable {results : List (LongResult ConnType)}

/-- The value of an option in one result. -/
def valueOf (opt : UInt8) : LongResult ConnType → Option Bytes
  | .option opt' optarg => if opt' = opt then some optarg else none
  | _ => none

def flagOf : LongResult ConnType → Option ConnType
  | .flag connType => some connType
  | _ => none

/-- The last value of an option on a line. -/
def lastValue (opt : UInt8) (results : List (LongResult ConnType)) : Option Bytes :=
  (results.filterMap (valueOf opt)).getLast?

def lastFlag (results : List (LongResult ConnType)) : Option ConnType :=
  (results.filterMap flagOf).getLast?

/-- What the last values make of the variables. -/
def Args.ofLast (results : List (LongResult ConnType)) : Args where
  flagConntype := (lastFlag results).getD .tcp
  argPort := ((lastValue 112 results).map atoi).getD (-1)
  argHostAddr := lastValue 104 results
  argInputString := lastValue 115 results
  argInputFile := lastValue 102 results

/-- A result that does not end the program. -/
def Accepted : LongResult ConnType → Prop
  | .flag _ => True
  | .option opt optarg => isClientOption opt ∧ (opt = 115 → optarg.length ≤ maxStrSz)
  | .unknown => False

theorem lastValue_append (opt : UInt8) (result : LongResult ConnType) :
    lastValue opt (results ++ [result]) = (valueOf opt result).or (lastValue opt results) := by
  rw [lastValue, List.filterMap_append, List.getLast?_append]
  cases h : valueOf opt result <;> simp [h, lastValue]

theorem lastFlag_append (result : LongResult ConnType) :
    lastFlag (results ++ [result]) = (flagOf result).or (lastFlag results) := by
  rw [lastFlag, List.filterMap_append, List.getLast?_append]
  cases h : flagOf result <;> simp [h, lastFlag]

/-- One more option replaces the value it had. -/
theorem next_of_accepted {result : LongResult ConnType} (h : Accepted result) :
    (Args.ofLast results).next result = some (Args.ofLast (results ++ [result])) := by
  cases result with
  | flag connType =>
      simp [Args.next, Args.ofLast, lastValue_append, lastFlag_append, valueOf, flagOf]
  | unknown => exact h.elim
  | option opt optarg =>
      have hopt : opt = 112 ∨ opt = 104 ∨ opt = 115 ∨ opt = 102 := by
        simpa [isClientOption] using h.1
      rcases hopt with rfl | rfl | rfl | rfl
      · simp [Args.next, Args.ofLast, lastValue_append, lastFlag_append, valueOf, flagOf]
      · simp [Args.next, Args.ofLast, lastValue_append, lastFlag_append, valueOf, flagOf]
      · have hlen : ¬ maxStrSz < optarg.length := Nat.not_lt.mpr (h.2 rfl)
        simp [Args.next, Args.ofLast, lastValue_append, lastFlag_append, valueOf, flagOf, hlen]
      · simp [Args.next, Args.ofLast, lastValue_append, lastFlag_append, valueOf, flagOf]

/-- A string that is too long ends the program, and so does what is no option. -/
theorem next_of_not_accepted {result : LongResult ConnType} (h : ¬ Accepted result) (a : Args) :
    a.next result = none := by
  cases result with
  | flag connType => exact absurd trivial h
  | unknown => rfl
  | option opt optarg =>
      by_cases hvalid : isClientOption opt = true
      · obtain ⟨rfl, hlen⟩ : opt = 115 ∧ maxStrSz < optarg.length := by
          simpa [Accepted, hvalid] using h
        exact if_pos hlen
      · obtain ⟨h112, h104, h115, h102⟩ : opt ≠ 112 ∧ opt ≠ 104 ∧ opt ≠ 115 ∧ opt ≠ 102 := by
          simpa [isClientOption] using hvalid
        simp only [Args.next, h112, h104, h115, h102, if_false]

/-- Every option counts with its last value. -/
theorem parseArgs_eq_some_iff {args : List Bytes} {a : Args} :
    parseArgs args = some a ↔
      (∀ r ∈ clientOptions args, Accepted r) ∧ a = Args.ofLast (clientOptions args) :=
  @foldlM_eq_some_iff _ _ Args.next Accepted Args.ofLast (fun _ _ h => next_of_accepted h)
    (fun a _ h => next_of_not_accepted h a) (clientOptions args) a

/-! ## What is written -/

/-- A last value was given. -/
theorem mem_of_lastValue {opt : UInt8} {s : Bytes} (h : lastValue opt results = some s) :
    .option opt s ∈ results := by
  obtain ⟨r, hr, hvalue⟩ := List.mem_filterMap.mp (List.mem_of_getLast? h)
  cases r with
  | flag connType => cases hvalue
  | unknown => cases hvalue
  | option opt' optarg =>
      simp only [valueOf, Option.ite_none_right_eq_some, Option.some.injEq] at hvalue
      obtain ⟨rfl, rfl⟩ := hvalue
      exact hr

/-- The last values are enough to connect to a host. -/
structure Connects (heap : ClientHeap) (results : List (LongResult ConnType)) (host : Bytes) :
    Prop where
  accepted : ∀ r ∈ results, Accepted r
  port : (Args.ofLast results).argPort ≠ -1
  host_eq : lastValue 104 results = some host
  host_ne : host ++ cstr heap.behindHost ≠ []
  input : (lastValue 115 results).isSome ∨ (lastValue 102 results).isSome

/-- The string and what is read behind it in a frame, if this has room; or nothing. -/
def framed (heap : ClientHeap) (string : Bytes) : Bytes :=
  let read := string ++ cstr heap.behindString
  if (frame read).length < bufferSz - 1 then frame read else []

/-- The connection they ask for, in which nothing is written for a file. -/
def Connection.ofLast (heap : ClientHeap) (results : List (LongResult ConnType)) (host : Bytes) :
    Connection where
  connType := (lastFlag results).getD .tcp
  host := host ++ cstr heap.behindHost
  port := UInt16.ofInt (Args.ofLast results).argPort
  written := ((lastValue 115 results).map (framed heap)).getD []

theorem connect_eq_some_iff {heap : ClientHeap} {a : Args} {c : Connection} :
    a.connect heap = some c ↔
      a.argPort ≠ -1 ∧ ∃ host written, a.argHostAddr = some host ∧
        cstr (host ++ heap.behindHost) ≠ [] ∧ a.written heap = some written ∧
        c = ⟨a.flagConntype, cstr (host ++ heap.behindHost), UInt16.ofInt a.argPort, written⟩ := by
  unfold Args.connect
  split
  · next hport => simp [hport]
  · next hport =>
      split
      · next hhost => simp [hhost]
      · next host hhost =>
          dsimp only
          split
          · next hne => simp [hhost, hne]
          · next hne => simp [hport, hhost, hne, eq_comm]

/-- The string is written whole with what is read behind it, or not at all. -/
theorem transmit_getD {heap : ClientHeap} {string : Bytes} (hnul : NulFree string) :
    (transmit (string ++ heap.behindString)).getD [] = framed heap string := by
  have hread : NulFree (string ++ cstr heap.behindString) := hnul.append (nulFree_cstr _)
  have heq : transmit (string ++ heap.behindString) =
      transmit (string ++ cstr heap.behindString) := by
    rw [transmit, transmit, hnul.cstr_append, cstr_eq_self hread]
  rw [heq, framed]
  split
  · next hfit => rw [transmit_eq hread hfit, Option.getD_some]
  · next hfit => rw [transmit_eq_none hread (Nat.not_lt.mp hfit), Option.getD_none]

theorem written_ofLast {heap : ClientHeap}
    (hnul : ∀ opt s, lastValue opt results = some s → NulFree s) :
    (Args.ofLast results).written heap =
      if (lastValue 115 results).isSome ∨ (lastValue 102 results).isSome then
        some (((lastValue 115 results).map (framed heap)).getD [])
      else none := by
  unfold Args.written Args.ofLast
  cases hs : lastValue 115 results with
  | some s => simp [transmit_getD (hnul 115 s hs)]
  | none =>
      cases lastValue 102 results with
      | some path => simp
      | none => simp

theorem clientMain_eq_some_iff {heap : ClientHeap} {args : List Bytes} {c : Connection}
    (hnul : ∀ opt s, lastValue opt (clientOptions args) = some s → NulFree s) :
    clientMain heap args = some c ↔ ∃ host, Connects heap (clientOptions args) host ∧
      c = Connection.ofLast heap (clientOptions args) host := by
  rw [clientMain, Option.bind_eq_some_iff]
  constructor
  · rintro ⟨a, ha, hconnect⟩
    obtain ⟨hall, rfl⟩ := parseArgs_eq_some_iff.mp ha
    obtain ⟨hport, host, written, hhost, hne, hwritten, rfl⟩ := connect_eq_some_iff.mp hconnect
    have hread := (hnul 104 host hhost).cstr_append heap.behindHost
    rw [hread] at hne ⊢
    rw [written_ofLast hnul] at hwritten
    split at hwritten
    · next hinput =>
        obtain rfl := Option.some.inj hwritten
        exact ⟨host, ⟨hall, hport, hhost, hne, hinput⟩, rfl⟩
    · cases hwritten
  · rintro ⟨host, h, rfl⟩
    have hread := (hnul 104 host h.host_eq).cstr_append heap.behindHost
    have hwritten := @written_ofLast _ heap hnul
    rw [if_pos h.input] at hwritten
    refine ⟨_, parseArgs_eq_some_iff.mpr ⟨h.accepted, rfl⟩, connect_eq_some_iff.mpr
      ⟨h.port, host, _, h.host_eq, hread ▸ h.host_ne, hwritten, ?_⟩⟩
    rw [hread]
    rfl

/-- The options in the words that the other programs start the client with. -/
theorem clientOptions_words {host string : Bytes} (port : Int) (hhost : host ≠ [])
    (hne : string ≠ []) :
    clientOptions [ascii "--tcp", ascii "-h" ++ host, ascii "-p" ++ fmtInt port,
        ascii "-s" ++ string] =
      [.flag .tcp, .option 104 host, .option 112 (fmtInt port), .option 115 string] := by
  obtain ⟨b, host, rfl⟩ := List.exists_cons_of_ne_nil hhost
  obtain ⟨c, string, rfl⟩ := List.exists_cons_of_ne_nil hne
  obtain ⟨d, digits, hdigits⟩ :=
    List.exists_cons_of_ne_nil (List.ne_nil_of_length_pos (fmtInt_length_pos port))
  have hspelled : List.Forall₂ (LongSpelled isClientOption longOptions)
      [.flag .tcp, .option 104 (b :: host), .option 112 (d :: digits), .option 115 (c :: string)]
      [[ascii "--tcp"], [45 :: 104 :: b :: host], [45 :: 112 :: d :: digits],
        [45 :: 115 :: c :: string]] :=
    .cons (@LongSpelled.flag _ _ _ _ (ascii "tcp") ConnType.tcp (by decide) (by decide) rfl)
      (.cons (.short (.attached 104 b host) rfl) (.cons (.short (.attached 112 d digits) rfl)
        (.cons (.short (.attached 115 c string) rfl) .nil)))
  rw [hdigits]
  exact getoptLong_spelled (by decide) hspelled

/-- The words that the other programs start the client with, when it reads its host and
its string as they are. -/
theorem clientMain_words {heap : ClientHeap} (hheap : heap.Clean) {host string : Bytes} {port : Int}
    (hhost : host ≠ []) (hport : port ≠ -1) (hint : -(2 ^ 31) ≤ port ∧ port < 2 ^ 31)
    (hne : string ≠ []) (hhostNul : NulFree host) (hnul : NulFree string) :
    clientMain heap [ascii "--tcp", ascii "-h" ++ host, ascii "-p" ++ fmtInt port,
        ascii "-s" ++ string] =
      if string.length ≤ maxStrSz then some ⟨.tcp, host, UInt16.ofInt port, frame string⟩
      else none := by
  have hresults := clientOptions_words port hhost hne
  have hatoi : atoi (fmtInt port) = port := atoi_fmtInt hint.1 hint.2
  have hofLast : (Args.ofLast [.flag .tcp, .option 104 host, .option 112 (fmtInt port),
      .option 115 string]).argPort = port := hatoi
  split
  · next hlen =>
      have hfit : (frame string).length < bufferSz - 1 := by
        rw [length_frame]
        exact Nat.lt_of_le_of_lt (Nat.add_le_add_right hlen 6) (by decide)
      refine (clientMain_eq_some_iff ?_).mpr ⟨host, ?_, ?_⟩
      · rw [hresults]
        intro opt s hs
        have hmem := mem_of_lastValue hs
        simp only [List.mem_cons, reduceCtorEq, LongResult.option.injEq, false_or,
          List.not_mem_nil, or_false] at hmem
        rcases hmem with ⟨-, rfl⟩ | ⟨-, rfl⟩ | ⟨-, rfl⟩
        · exact hhostNul
        · exact nulFree_fmtInt port
        · exact hnul
      · rw [hresults]
        refine ⟨?_, hofLast.trans_ne hport, rfl, List.append_ne_nil_of_left_ne_nil hhost _, .inl rfl⟩
        simp only [List.forall_mem_cons]
        exact ⟨trivial, ⟨rfl, fun h => absurd h (by decide)⟩, ⟨rfl, fun h => absurd h (by decide)⟩,
          ⟨rfl, fun _ => hlen⟩, List.forall_mem_nil _⟩
      · have hlast : lastValue 115 [.flag ConnType.tcp, .option 104 host,
            .option 112 (fmtInt port), .option 115 string] = some string := rfl
        rw [hresults, Connection.ofLast, hofLast, hheap.host, List.append_nil, hlast,
          Option.map_some, Option.getD_some, framed, hheap.string, List.append_nil]
        exact congrArg (Connection.mk _ _ _) (if_pos hfit).symm
  · next hlen =>
      rw [clientMain, Option.bind_eq_none_iff]
      intro a ha
      have hlast := (parseArgs_eq_some_iff.mp ha).1 (.option 115 string)
      rw [hresults] at hlast
      exact absurd ((hlast (by simp)).2 rfl) hlen

/-- A line whose options are written in any of their ways asks for the connection
of their last values: what the client writes is the last string in its frame, with what
the heap has behind it, and nothing if there are only files. -/
theorem clientMain_spelled_iff {results : List (LongResult ConnType)} {words : List (List Bytes)}
    (hspelled : List.Forall₂ (LongSpelled isClientOption longOptions) results words)
    (hnul : ∀ word ∈ words.flatten, NulFree word) (heap : ClientHeap) (c : Connection) :
    clientMain heap words.flatten = some c ↔
      ∃ host, Connects heap results host ∧ c = Connection.ofLast heap results host := by
  have hresults : clientOptions words.flatten = results := getoptLong_spelled (by decide) hspelled
  have hvalue : ∀ opt s, lastValue opt (clientOptions words.flatten) = some s → NulFree s := by
    intro opt s hs
    rw [hresults] at hs
    exact nulFree_of_longSpelled hspelled hnul (mem_of_lastValue hs)
  rw [clientMain_eq_some_iff hvalue, hresults]

/-- `--ho=h -p7 --str a -sb`, of which the second string is sent, with an `x` that stood
behind it. -/
theorem clientMain_two_strings :
    clientMain ⟨[0], [120, 0]⟩ [ascii "--ho=h", ascii "-p7", ascii "--str", [97], ascii "-sb"] =
      some ⟨.tcp, [104], 7, frame [98, 120]⟩ := by
  have hspelled : List.Forall₂ (LongSpelled isClientOption longOptions)
      [.option 104 [104], .option 112 [55], .option 115 [97], .option 115 [98]]
      [[ascii "--ho=h"], [ascii "-p7"], [ascii "--str", [97]], [ascii "-sb"]] :=
    .cons (@LongSpelled.attached _ _ _ _ (ascii "ho") 104 [104] (by decide) (by decide) rfl)
      (.cons (.short (.attached 112 55 []) rfl)
        (.cons (@LongSpelled.separate _ _ _ _ (ascii "str") 115 [97] (by decide) (by decide) rfl)
          (.cons (.short (.attached 115 98 []) rfl) .nil)))
  have hnul : ∀ word ∈ [[ascii "--ho=h"], [ascii "-p7"], [ascii "--str", [97]],
      [ascii "-sb"]].flatten, NulFree word := by decide
  have haccepted : ∀ r ∈ ([.option 104 [104], .option 112 [55], .option 115 [97],
      .option 115 [98]] : List (LongResult ConnType)), Accepted r := by
    simp only [List.forall_mem_cons]
    exact ⟨⟨rfl, by decide⟩, ⟨rfl, by decide⟩, ⟨rfl, by decide⟩, ⟨rfl, by decide⟩,
      List.forall_mem_nil _⟩
  exact (clientMain_spelled_iff hspelled hnul _ _).mpr
    ⟨[104], ⟨haccepted, by decide, rfl, by decide, .inl rfl⟩, rfl⟩

end ProbeStuffing.Controller

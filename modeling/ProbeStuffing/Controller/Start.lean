import ProbeStuffing.Controller.TcpClient

/-!
# Starting the controller

`main` of the controller reads its options as the client does, but has other ones:
the database has a default and a long name only, and there is no host.  The port is
cut to 16 bits by `htons`.

A client gets to the controller if it asks for the same protocol and the same port.
-/

namespace ProbeStuffing.Controller

open CString Getopt

/-! ## Options -/

/-- The variables of the options. -/
structure ServerArgs where
  flagConntype : ConnType := .tcp
  argPort : Int := -1
  argDbFile : Bytes := ascii "db.sqlite3"
deriving DecidableEq

/-- `"p:"` -/
def isServerOption (c : UInt8) : Bool := c == 112

def serverLongOptions : List (LongOption ConnType) :=
  [⟨ascii "tcp", .noArgument .tcp⟩, ⟨ascii "udp", .noArgument .udp⟩,
    ⟨ascii "port", .requiredArgument 112⟩, ⟨ascii "db", .requiredArgument 100⟩]

/-- The `switch` on an option; `none` ends the program. -/
def ServerArgs.next (a : ServerArgs) : LongResult ConnType → Option ServerArgs
  | .flag connType => some { a with flagConntype := connType }
  | .option opt optarg =>
      if opt = 112 then some { a with argPort := atoi optarg }
      else if opt = 100 then some { a with argDbFile := optarg }
      else none
  | .unknown => none

def serverOptions (args : List Bytes) : List (LongResult ConnType) :=
  getoptLong isServerOption serverLongOptions args

def parseServerArgs (args : List Bytes) : Option ServerArgs :=
  (serverOptions args).foldlM ServerArgs.next {}

/-! ## Listening -/

/-- What `init_server` binds, and the database of `run_server`. -/
structure Listening where
  connType : ConnType
  port : UInt16
  dbFile : Bytes
deriving DecidableEq

/-- `main` behind the loop over the options; `none` is a line without a port. -/
def ServerArgs.listen (a : ServerArgs) : Option Listening :=
  if a.argPort = -1 then none else some ⟨a.flagConntype, UInt16.ofInt a.argPort, a.argDbFile⟩

/-- `main`, on the words behind the name of the program. -/
def controllerMain (args : List Bytes) : Option Listening :=
  (parseServerArgs args).bind ServerArgs.listen

/-- The client's `connect` gets to this controller, if its host is the controller's. -/
def Connection.Reaches (c : Connection) (l : Listening) : Prop :=
  c.connType = l.connType ∧ c.port = l.port

/-! ## The last value of an option -/

variable {results : List (LongResult ConnType)}

/-- What the last values make of the variables. -/
def ServerArgs.ofLast (results : List (LongResult ConnType)) : ServerArgs where
  flagConntype := (lastFlag results).getD .tcp
  argPort := ((lastValue 112 results).map atoi).getD (-1)
  argDbFile := (lastValue 100 results).getD (ascii "db.sqlite3")

/-- A result that does not end the program. -/
def ServerAccepted : LongResult ConnType → Prop
  | .flag _ => True
  | .option opt _ => opt = 112 ∨ opt = 100
  | .unknown => False

theorem serverNext_of_accepted {result : LongResult ConnType} (h : ServerAccepted result) :
    (ServerArgs.ofLast results).next result = some (ServerArgs.ofLast (results ++ [result])) := by
  cases result with
  | flag connType =>
      simp [ServerArgs.next, ServerArgs.ofLast, lastValue_append, lastFlag_append, valueOf, flagOf]
  | unknown => exact h.elim
  | option opt optarg =>
      rcases h with rfl | rfl
      · simp [ServerArgs.next, ServerArgs.ofLast, lastValue_append, lastFlag_append, valueOf, flagOf]
      · simp [ServerArgs.next, ServerArgs.ofLast, lastValue_append, lastFlag_append, valueOf, flagOf]

theorem serverNext_of_not_accepted {result : LongResult ConnType} (h : ¬ ServerAccepted result)
    (a : ServerArgs) : a.next result = none := by
  cases result with
  | flag connType => exact absurd trivial h
  | unknown => rfl
  | option opt optarg =>
      obtain ⟨hport, hdb⟩ := not_or.mp h
      rw [ServerArgs.next, if_neg hport, if_neg hdb]

theorem parseServerArgs_eq_some_iff {args : List Bytes} {a : ServerArgs} :
    parseServerArgs args = some a ↔
      (∀ r ∈ serverOptions args, ServerAccepted r) ∧ a = ServerArgs.ofLast (serverOptions args) :=
  @foldlM_eq_some_iff _ _ ServerArgs.next ServerAccepted ServerArgs.ofLast
    (fun _ _ h => serverNext_of_accepted h) (fun a _ h => serverNext_of_not_accepted h a)
    (serverOptions args) a

/-- The controller listens where the last values say. -/
theorem controllerMain_spelled {words : List (List Bytes)}
    (hspelled : List.Forall₂ (LongSpelled isServerOption serverLongOptions) results words)
    (l : Listening) : controllerMain words.flatten = some l ↔
      (∀ r ∈ results, ServerAccepted r) ∧ (ServerArgs.ofLast results).listen = some l := by
  have hresults : serverOptions words.flatten = results := getoptLong_spelled (by decide) hspelled
  rw [controllerMain, Option.bind_eq_some_iff]
  constructor
  · rintro ⟨a, ha, hlisten⟩
    obtain ⟨hall, rfl⟩ := parseServerArgs_eq_some_iff.mp ha
    rw [hresults] at hall hlisten
    exact ⟨hall, hlisten⟩
  · rintro ⟨hall, hlisten⟩
    refine ⟨_, parseServerArgs_eq_some_iff.mpr ⟨?_, rfl⟩, ?_⟩
    · rw [hresults]
      exact hall
    · rw [hresults]
      exact hlisten

end ProbeStuffing.Controller

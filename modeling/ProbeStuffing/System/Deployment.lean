import ProbeStuffing.Controller.Server
import ProbeStuffing.System.Delivery

/-!
# The whole deployment

The clients and access points of `network`, and behind them one controller with
its database.  When an access point runs its command, the TCP client connects to
the controller, writes, and closes; `system` returns after that.  A client that fails
may have come to any of these points, and the status that `system` returns is not 0 then.
What was written waits in the backlog of the listening socket until the controller accepts
the connection, and then in the connection until it is read.

The state has both, beside the parties.  A read returns a part of what is there,
and 0 only when nothing is left.  The controller is free to be as slow as it
likes, to accept and to serve in any order, and to run out of slots.
-/

namespace ProbeStuffing.System

open CString Tlv Trace Client Ap Controller

/-! ## State and inputs -/

/-- The state; `Db` is that of the database. -/
structure Deployment (α Db : Type) where
  net : State α := {}
  /-- What was written into the connections that are not accepted yet. -/
  backlog : List Bytes := []
  /-- What is unread in the connections that are open. -/
  streams : Nat → Option Bytes := fun _ => none
  server : Server Db

/-- How far the client of a command has come when the command fails. -/
inductive Failure where
  | unconnected
  /-- There is a connection, and nothing in it. -/
  | unwritten
  | written
deriving DecidableEq

/-- What is left open about the client that a command starts. -/
structure ClientRun where
  heap : ClientHeap := {}
  failure : Failure := .unconnected

inductive DeploymentInput (α : Type) where
  /-- A step of a client or an access point, and the client of its command. -/
  | net (i : Input α) (client : ClientRun)
  /-- A round of the controller, and the place in the backlog of the connection it accepts. -/
  | serve (i : ServerInput) (place : Nat)

inductive DeploymentEvent (α : Type) where
  | net (e : Event α)
  /-- A TCP client has connected, written this, and closed the connection. -/
  | connected (written : Bytes)
  | server (e : ServerEvent)

/-- There is a NUL behind every copy that is made in this step. -/
def DeploymentInput.Clean {α : Type} : DeploymentInput α → Prop
  | .net _ client => client.heap.Clean
  | .serve i _ => ∀ incoming ∈ i.activity.incoming, incoming.Clean

/-! ## The steps -/

/-- The command lines among events, with what `system` returns. -/
def commands {α : Type} (es : List (Event α)) : List (Bytes × Int) :=
  es.filterMap fun e =>
    match e with
    | .ap _ _ (.systemCall line status) => some (line, status)
    | _ => none

/-- The command lines. -/
def systemCalls {α : Type} (es : List (Event α)) : List Bytes := (commands es).map Prod.fst

/-- The connection that a command leaves, if it leaves one, by what is in it. -/
def ClientRun.leaves (client : ClientRun) (status : Int) (written : Bytes) : List Bytes :=
  if status = 0 then [written]
  else
    match client.failure with
    | .unconnected => []
    | .unwritten => [[]]
    | .written => [written]

/-- What the clients started by commands write to the controller; `none` if one of
the lines does something else. -/
def writtenBy (client : ClientRun) : List (Bytes × Int) → Option (List Bytes)
  | [] => some []
  | (line, status) :: rest =>
      match runCommand client.heap line with
      | none => none
      | some none => writtenBy client rest
      | some (some c) =>
          if c = toController c.written then
            (writtenBy client rest).map (client.leaves status c.written ++ ·)
          else none

/-- The reads of a round, taken off the connections; `none` if one of them could
not have returned what it did. -/
def drain : (Nat → Option Bytes) → List (Nat × Incoming) → Option (Nat → Option Bytes)
  | streams, [] => some streams
  | streams, (sd, .eof) :: reads =>
      if streams sd = some [] then drain (Function.update streams sd none) reads else none
  | streams, (sd, .read (.bytes received) _) :: reads =>
      match streams sd with
      | none => none
      | some unread =>
          if received ≠ [] ∧ received.length ≤ bufferSz - 1 ∧ received <+: unread then
            drain (Function.update streams sd (some (unread.drop received.length))) reads
          else none
  | _, (_, .read .error _) :: _ => none

/-- The connection that is accepted, if one is, moves from the backlog to the open ones. -/
def acceptStream {α Db : Type} (serverSockfd : Nat) (s : Deployment α Db) (activity : Activity)
    (place : Nat) : Option (List Bytes × (Nat → Option Bytes)) :=
  if isSet serverSockfd s.server.connections activity serverSockfd then
    match activity.accepted, s.backlog[place]? with
    | some fd, some written =>
        some (s.backlog.eraseIdx place, Function.update s.streams fd (some written))
    | _, _ => none
  else some (s.backlog, s.streams)

section Steps

variable {α Db : Type} [DecidableEq α] (S : Sqlite Db) (serverSockfd : Nat)

def netStep (s : Deployment α Db) (i : Input α) (client : ClientRun) :
    Option (Deployment α Db × List (DeploymentEvent α)) :=
  (network.step s.net i).bind fun r =>
    (writtenBy client (commands r.2)).map fun written =>
      ({ s with net := r.1, backlog := s.backlog ++ written },
        r.2.map .net ++ written.map .connected)

def serveStep (s : Deployment α Db) (i : ServerInput) (place : Nat) :
    Option (Deployment α Db × List (DeploymentEvent α)) :=
  (acceptStream serverSockfd s i.activity place).bind fun a =>
    (drain a.2 (roundReads serverSockfd s.server.connections i.activity)).bind fun streams =>
      (serverStep S serverSockfd s.server i).map fun r =>
        ({ s with backlog := a.1, streams := streams, server := r.1 }, r.2.map .server)

/-- All of it. -/
def deployment : Machine (Deployment α Db) (DeploymentInput α) (DeploymentEvent α) where
  step s
    | .net i client => netStep s i client
    | .serve i place => serveStep S serverSockfd s i place

end Steps

end ProbeStuffing.System

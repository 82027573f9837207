import ProbeStuffing.Ap.AckSlot
import ProbeStuffing.Client.Fragmentation
import ProbeStuffing.RoundTrip

/-!
# Clients, access points and the channel between them

Any number of clients run the send loop, each on one message after the other,
and any number of access points run `handle_probe_req`.  A client is named by
its MAC address.

The channel keeps every probe request that was ever sent, and an access point
may receive any of them at any time: it may be lost, delayed, duplicated or
overtaken.  A scan sends the block of the current fragment any number of times.
In the other direction only the kernel's scan cache stands between the two: an
entry of a dump holds the elements of some response that this access point has
sent to this client, at any time before.

`network` is a machine whose undefined steps are those the two programs cannot
take, so a run of it is an interleaving of theirs.
-/

namespace ProbeStuffing.System

open CString Tlv Trace Client Ap

/-! ## Messages and frames -/

/-- A line of input, and the clock when it was read. -/
structure Message where
  effort : Int
  dataToStuff : Bytes
  tvSec : Nat
  tvUsec : Nat
  nulFree : NulFree dataToStuff
  fits : dataToStuff.length ≤ 2 ^ 31 - 1
  usec_lt : tvUsec < 10 ^ 6
deriving DecidableEq

/-- `data_origin_ts_str`. -/
def Message.ts (m : Message) : Bytes := dataOriginTsStr m.tvSec m.tvUsec

/-- What the kernel puts around the block of a fragment. -/
structure Surroundings where
  da : Mac
  bssid : Mac
  before : List Element
  after : List Element
  ordinary : Ordinary (before ++ after)
deriving DecidableEq

def Mac.bytes (a : Mac) : Bytes := [a.a0, a.a1, a.a2, a.a3, a.a4, a.a5]

/-- A probe request of a client, with the message and the fragment it carries. -/
structure Frame where
  client : Mac
  message : Message
  seqNum : Nat
  fragment : Fragment
  around : Surroundings
deriving DecidableEq

/-- The elements of the frame. -/
def Frame.ie (f : Frame) : Bytes :=
  encode f.around.before ++ f.fragment.iesData ++ encode f.around.after

/-- The frame as it is received. -/
def Frame.bytes (f : Frame) : Bytes :=
  [0x40, 0, 0, 0] ++ Mac.bytes f.around.da ++ Mac.bytes f.client ++ Mac.bytes f.around.bssid ++
    [0, 0] ++ f.ie

/-! ## The state -/

/-- A client: its message, and the locals of the send loop. -/
structure Station where
  message : Option Message := none
  locals : Locals := {}

variable {α : Type} [DecidableEq α]

/-- All parties, the frames sent so far, and the responses sent so far. -/
structure State (α : Type) where
  bss : α → BssConf := fun _ => {}
  station : Mac → Station := fun _ => {}
  sent : List Frame := []
  responses : List (α × Mac × Bytes) := []

inductive Input (α : Type) where
  /-- The client reads a message. -/
  | start (c : Mac) (m : Message)
  /-- The kernel of the client sends the block of the current fragment. -/
  | scan (c : Mac) (around : Surroundings)
  /-- A round of the send loop; the entries of the dump are from these access points. -/
  | round (c : Mac) (err ret : Int) (dump : List (α × ScanEntry))
  /-- An access point receives a frame. -/
  | receive (a : α) (env : Env) (f : Frame)
  /-- An access point builds its beacon. -/
  | build (a : α) (env : Env)

inductive Event (α : Type) where
  | start (c : Mac) (m : Message)
  | transmit (f : Frame)
  /-- An event of the client's send loop on a message. -/
  | client (c : Mac) (m : Message) (e : Client.Event)
  /-- An event of an access point, and the frame it is handling. -/
  | ap (a : α) (f : Option Frame) (e : Ap.Event)

/-! ## The steps -/

def startStep (s : State α) (c : Mac) (m : Message) : Option (State α × List (Event α)) :=
  if (s.station c).locals.fragment = none then
    some
      ({ s with
          station := Function.update s.station c ⟨some m, Locals.start m.dataToStuff m.ts⟩ },
        [.start c m])
  else none

def scanStep (s : State α) (c : Mac) (around : Surroundings) :
    Option (State α × List (Event α)) :=
  match (s.station c).message, (s.station c).locals.fragment with
  | some m, some fragment =>
      let f : Frame := ⟨c, m, (s.station c).locals.seqNum, fragment, around⟩
      some ({ s with sent := f :: s.sent }, [.transmit f])
  | _, _ => none

/-- The entries of a dump hold responses sent to the client. -/
def DumpOk (s : State α) (c : Mac) (dump : List (α × ScanEntry)) : Prop :=
  ∀ p ∈ dump, ∀ ies ∈ p.2.informationElements, (p.1, c, ies) ∈ s.responses

instance (s : State α) (c : Mac) (dump : List (α × ScanEntry)) : Decidable (DumpOk s c dump) :=
  inferInstanceAs (Decidable (∀ p ∈ dump, _))

def roundStep (s : State α) (c : Mac) (err ret : Int) (dump : List (α × ScanEntry)) :
    Option (State α × List (Event α)) :=
  match (s.station c).message with
  | none => none
  | some m =>
      if DumpOk s c dump then
        let r := sendRound m.effort m.dataToStuff m.ts (s.station c).locals
          ⟨err, ret, dump.map Prod.snd⟩
        some
          ({ s with station := Function.update s.station c ⟨some m, r.1⟩ },
            r.2.map (.client c m))
      else none

/-- The responses an access point sends among its events. -/
def responsesOf (a : α) (es : List Ap.Event) : List (α × Mac × Bytes) :=
  es.filterMap fun e =>
    match e with
    | .sendMlme resp _ => some (a, resp.da, resp.variable)
    | _ => none

def receiveStep (s : State α) (a : α) (env : Env) (f : Frame) :
    Option (State α × List (Event α)) :=
  if f ∈ s.sent then
    (handleProbeReq env f.bytes (s.bss a)).map fun r =>
      ({ s with
          bss := Function.update s.bss a r.1
          responses := responsesOf a r.2 ++ s.responses },
        r.2.map (.ap a (some f)))
  else none

def buildStep (s : State α) (a : α) (env : Env) : State α × List (Event α) :=
  let r := ieee80211BuildApParams env (s.bss a)
  ({ s with bss := Function.update s.bss a r.1 }, r.2.map (.ap a none))

/-- The whole system. -/
def network : Machine (State α) (Input α) (Event α) where
  step s
    | .start c m => startStep s c m
    | .scan c around => scanStep s c around
    | .round c err ret dump => roundStep s c err ret dump
    | .receive a env f => receiveStep s a env f
    | .build a env => some (buildStep s a env)

end ProbeStuffing.System

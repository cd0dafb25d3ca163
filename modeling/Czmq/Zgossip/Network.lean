import Mathlib.Data.List.AList
import Mathlib.Logic.Function.Basic
import Czmq.Base.Machine

/-! A network of the gossip services of `zgossip.c`: the engine of `zgossip_engine.inc` for the
clients of a server, the handlers, and the commands. A connection of a remote is a pair of queues.
-/

namespace Czmq

namespace Zgossip

section
variable (Key Value : Type)

inductive Message where
  | hello
  | publish (key : Key) (value : Value)
  | ping
  | pong
  | invalid
  deriving DecidableEq

/-- The events of a client; `forward` comes with the current tuple. -/
inductive Event where
  | terminate
  | hello
  | publish (key : Key) (value : Value)
  | forward (key : Key) (value : Value)
  | ping
  | expired

/-- The state of a client between events; in `have tuple` there always is a next event. -/
inductive ClientState where
  | start
  | connected
  deriving DecidableEq

abbrev Tuples := AList fun _ : Key => Value

/-- The connection of a node: what is under way to the server and back, and the server's client for
it. -/
structure Connection where
  up : List (Message Key Value)
  down : List (Message Key Value)
  client : Option ClientState
  deriving DecidableEq

end

structure Network (Node Endpoint Key Value : Type) where
  tuples : Node → Tuples Key Value
  activeRemotes : Node → List Endpoint
  connection : Node → Endpoint → Connection Key Value

/-- An order in which `zhashx_first` and `zhashx_next` may go through a table. -/
structure Walk (α : Type) where
  order : List α → List α
  perm : ∀ l, (order l).Perm l

/-- What the owner of a node, the reactors and the network do: the server at an endpoint takes the
next message of a node, or a node the next one of a remote. -/
inductive Action (Node Endpoint Key Value : Type) where
  | publish (n : Node) (key : Key) (value : Value)
  | unpublish (n : Node) (key : Key)
  | connect (n : Node) (e : Endpoint) (walk : Walk (Σ _ : Key, Value))
  | expire (n : Node) (e : Endpoint)
  | handleProtocol (n : Node) (e : Endpoint) (walk : Walk (Σ _ : Key, Value))
  | remoteHandler (n : Node) (e : Endpoint)

inductive Idle where
  | noMessage
  | noClient
  deriving DecidableEq

variable {Node Endpoint Key Value : Type} [DecidableEq Node] [DecidableEq Endpoint] [DecidableEq Key]
  [DecidableEq Value]

def publishes (walk : Walk (Σ _ : Key, Value)) (tuples : Tuples Key Value) : List (Message Key Value) :=
  (walk.order tuples.entries).map fun x => .publish x.1 x.2

def protocolEvent : Message Key Value → Event Key Value
  | .hello => .hello
  | .publish key value => .publish key value
  | .ping => .ping
  | .pong | .invalid => .terminate

/-- `s_client_execute`: the client unless it is terminated, the messages sent, and a tuple to store
if it is new. A HELLO is answered with the known tuples. -/
def clientExecute (known : List (Message Key Value)) :
    ClientState → Event Key Value → Option ClientState × List (Message Key Value) × Option (Key × Value)
  | .start, .hello => (some .connected, known, none)
  | .start, .ping => (some .start, [.pong], none)
  | .start, .expired => (none, [], none)
  | .start, _ => (none, [.invalid], none)
  | .connected, .publish key value => (some .connected, [], some (key, value))
  | .connected, .forward key value => (some .connected, [.publish key value], none)
  | .connected, .ping => (some .connected, [.pong], none)
  | .connected, .expired => (none, [], none)
  | .connected, _ => (none, [.invalid], none)

def Connection.execute (c : Connection Key Value) (known : List (Message Key Value))
    (state : ClientState) (event : Event Key Value) : Connection Key Value × Option (Key × Value) :=
  let (client, sent, stored) := clientExecute known state event
  ({ c with client := client, down := c.down ++ sent }, stored)

def Connection.forward (c : Connection Key Value) (key : Key) (value : Value) : Connection Key Value :=
  match c.client with
  | none => c
  | some state => (c.execute [] state (.forward key value)).1

namespace Network

variable (owner : Endpoint → Option Node)

def initial : Network Node Endpoint Key Value where
  tuples := fun _ => ∅
  activeRemotes := fun _ => []
  connection := fun _ _ => ⟨[], [], none⟩

def setConnection (s : Network Node Endpoint Key Value) (n : Node) (e : Endpoint)
    (c : Connection Key Value) : Network Node Endpoint Key Value :=
  { s with connection := Function.update s.connection n (Function.update (s.connection n) e c) }

abbrev Delivered (Node Key Value : Type) := Option (Node × Key × Value)

def serverAccept (s : Network Node Endpoint Key Value) (n : Node) (key : Key) (value : Value) :
    Delivered Node Key Value × Network Node Endpoint Key Value :=
  if (s.tuples n).lookup key = some value then (none, s)
  else (some (n, key, value),
    { s with
      tuples := Function.update s.tuples n ((s.tuples n).insert key value)
      connection := fun a e =>
        let c := s.connection a e
        let c := if owner e = some n then c.forward key value else c
        if a = n ∧ e ∈ s.activeRemotes n then { c with up := c.up ++ [.publish key value] } else c })

def greet (s : Network Node Endpoint Key Value) (n : Node) (e : Endpoint)
    (walk : Walk (Σ _ : Key, Value)) : Network Node Endpoint Key Value :=
  let c := s.connection n e
  s.setConnection n e { c with up := c.up ++ .hello :: publishes walk (s.tuples n) }

def serverConnect (s : Network Node Endpoint Key Value) (n : Node) (e : Endpoint)
    (walk : Walk (Σ _ : Key, Value)) : Network Node Endpoint Key Value :=
  if e ∈ s.activeRemotes n then s.greet n e walk
  else
    match owner e with
    | none => s
    | some _ =>
      greet { s with activeRemotes := Function.update s.activeRemotes n (s.activeRemotes n ++ [e]) }
        n e walk

/-- One message of `s_server_handle_protocol`. An unknown client is a new one. -/
def handleProtocol (s : Network Node Endpoint Key Value) (n : Node) (e : Endpoint)
    (walk : Walk (Σ _ : Key, Value)) :
    Except Idle (Delivered Node Key Value × Network Node Endpoint Key Value) :=
  let c := s.connection n e
  match owner e, c.up with
  | some server, message :: up =>
    let (c, stored) := { c with up := up }.execute (publishes walk (s.tuples server))
      (c.client.getD .start) (protocolEvent message)
    let s := s.setConnection n e c
    match stored with
    | some (key, value) => .ok (s.serverAccept owner server key value)
    | none => .ok (none, s)
  | _, _ => .error .noMessage

def remoteHandler (s : Network Node Endpoint Key Value) (n : Node) (e : Endpoint) :
    Except Idle (Delivered Node Key Value × Network Node Endpoint Key Value) :=
  let c := s.connection n e
  match c.down with
  | [] => .error .noMessage
  | message :: down =>
    let c := { c with down := down }
    match message with
    | .publish key value => .ok ((s.setConnection n e c).serverAccept owner n key value)
    | .invalid => .ok (none, s.setConnection n e { c with up := c.up ++ [.hello] })
    | _ => .ok (none, s.setConnection n e c)

def expire (s : Network Node Endpoint Key Value) (n : Node) (e : Endpoint) :
    Except Idle (Delivered Node Key Value × Network Node Endpoint Key Value) :=
  let c := s.connection n e
  match c.client with
  | none => .error .noClient
  | some state => .ok (none, s.setConnection n e (c.execute [] state .expired).1)

def step (s : Network Node Endpoint Key Value) : Action Node Endpoint Key Value →
    Except Idle (Delivered Node Key Value × Network Node Endpoint Key Value)
  | .publish n key value => .ok (s.serverAccept owner n key value)
  | .unpublish n key => .ok (none, { s with tuples := Function.update s.tuples n ((s.tuples n).erase key) })
  | .connect n e walk => .ok (none, s.serverConnect owner n e walk)
  | .expire n e => s.expire n e
  | .handleProtocol n e walk => s.handleProtocol owner n e walk
  | .remoteHandler n e => s.remoteHandler owner n e

end Network

end Zgossip

end Czmq

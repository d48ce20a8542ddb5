/-
Signal dispatch of the NetherNet listener (`transport/listener.rs`). The signal handler takes one signal
at a time and waits for `handle_offer` to return; beside it run, for each offer, the task that reads the
offer's channel and the state callback of its peer connection. All of them act on one map from connection
ids to channels. A run takes their steps in any order; operations of WebRTC and of the signaling service
succeed or fail as the run says.

A channel is named by the position of its offer in the run. The map holds its only sender, so the channel
is closed as soon as the map has no entry for it.
-/
import BedrockRs.Lib.HashMap
import BedrockRs.Lib.Machine
import BedrockRs.Nethernet.Protocol.Signal

namespace BedrockRs.Nethernet

open Lib

/-- `RTCPeerConnectionState`. -/
inductive PeerState where
  | new
  | connecting
  | connected
  | disconnected
  | failed
  | closed
deriving DecidableEq, Repr

/-- How far `handle_offer` has come: no peer connection could be made, its channel is registered, the answer
was signalled and the state callback set, or it returned an error in between. -/
inductive Stage where
  | refused
  | handling
  | answered
  | failed
deriving DecidableEq, Repr

/-- Where the task of an offer stands: in its loop, behind it, or behind one or both of its clean-ups. -/
inductive Task where
  | receiving
  | ended
  | cleaned
  | done
deriving DecidableEq, Repr

/-- An offer with its peer connection. `down` is set when that has failed or closed; `callbacks` counts
the runs of the state callback that are waiting for the map. -/
structure Offer where
  id : UInt64
  stage : Stage
  down : Bool
  callbacks : Nat
deriving DecidableEq

/-- An offer with its channel and the task that reads it. -/
structure Connection extends Offer where
  queue : List SignalType
  firstCandidate : Bool
  task : Task
deriving DecidableEq

structure Listener where
  connections : List Connection
  dispatchers : HashMap UInt64 Nat
  notifiers : HashMap UInt64 Nat

namespace Listener

inductive Event where
  /-- An offer arrives; its peer connection can be made or not. -/
  | offer (id : UInt64) (created : Bool)
  /-- One of the fallible operations of `handle_offer` fails, or all of them succeed. -/
  | fail
  | answer
  | signal (type : SignalType) (id : UInt64)
  /-- A peer connection changes its state, and the state callback gets the map. -/
  | peer (i : Nat) (state : PeerState)
  | callback (i : Nat)
  /-- A task takes a signal, leaves its loop, and cleans up. -/
  | receive (i : Nat) (added : Bool)
  | taskEnd (i : Nat)
  | cleanDispatcher (i : Nat)
  | cleanNotifier (i : Nat)

def new : Listener := ⟨[], ∅, ∅⟩

/-- Whether `handle_offer` is running. -/
def busy (s : Listener) : Bool := s.connections.any fun c => c.stage = .handling

def modify (s : Listener) (i : Nat) (f : Connection → Connection) : Listener :=
  { s with connections := s.connections.modify i f }

/-- `handle_offer` returns. -/
def finish (s : Listener) (stage : Stage) : Listener :=
  { s with connections := s.connections.map fun c => if c.stage = .handling then { c with stage := stage } else c }

/-- The states in which the callback removes the dispatcher. -/
def cleansUp (state : PeerState) : Bool := state = .failed || state = .disconnected || state = .closed

/-- A state change of a peer connection, if one was made; the callback is set with the answer. -/
def changeState (state : PeerState) (c : Connection) : Connection :=
  if c.stage = .refused then c
  else
    { c with
      down := c.down || (state = .failed || state = .closed)
      callbacks := if c.stage = .answered ∧ cleansUp state then c.callbacks + 1 else c.callbacks }

def step (s : Listener) : Event → Listener
  | .offer id created =>
    if s.busy then s
    else if created then
      { connections := s.connections ++ [⟨⟨id, .handling, false, 0⟩, [], true, .receiving⟩]
        dispatchers := s.dispatchers.insert id s.connections.length
        notifiers := s.notifiers.insert id s.connections.length }
    else { s with connections := s.connections ++ [⟨⟨id, .refused, false, 0⟩, [], true, .done⟩] }
  | .fail => s.finish .failed
  | .answer => s.finish .answered
  | .signal type id =>
    if s.busy ∨ type = .offer then s
    else
      match s.dispatchers.lookup id with
      | some i => s.modify i fun c => { c with queue := c.queue ++ [type] }
      | none => s
  | .peer i state => s.modify i (changeState state)
  | .callback i =>
    match s.connections[i]? with
    | some c =>
      if c.callbacks = 0 then s
      else
        { s.modify i (fun c => { c with callbacks := c.callbacks - 1 }) with
          dispatchers := s.dispatchers.erase c.id }
    | none => s
  | .receive i added =>
    match s.connections[i]? with
    | some c =>
      match c.queue with
      | type :: queue =>
        if type = .candidate ∧ added ∧ c.firstCandidate then
          { s.modify i (fun c => { c with queue := queue, firstCandidate := false }) with
            notifiers := s.notifiers.erase c.id }
        else s.modify i fun c => { c with queue := queue }
      | [] => s
    | none => s
  | .taskEnd i =>
    match s.connections[i]? with
    | some c =>
      if c.task = .receiving ∧ c.queue = [] ∧ s.dispatchers.lookup c.id ≠ some i then
        s.modify i fun c => { c with task := .ended }
      else s
    | none => s
  | .cleanDispatcher i =>
    match s.connections[i]? with
    | some c =>
      if c.task = .ended then
        { s.modify i (fun c => { c with task := .cleaned }) with dispatchers := s.dispatchers.erase c.id }
      else s
    | none => s
  | .cleanNotifier i =>
    match s.connections[i]? with
    | some c =>
      if c.task = .cleaned then
        { s.modify i (fun c => { c with task := .done }) with notifiers := s.notifiers.erase c.id }
      else s
    | none => s

def run (events : List Event) : Listener := Machine.run step new events

end Listener

end BedrockRs.Nethernet

/-
A sending session and a managed receiving session over a network that may drop, duplicate, delay and
reorder datagrams, with what the receiver has done so far: the packets it returned, the split ids of
the messages it reassembled, and the datagrams it handled without error.
-/
import BedrockRs.Raknet.Delivery.Ordered
import BedrockRs.Raknet.Session.ManagedRuns

namespace BedrockRs.Raknet

open Lib

namespace Session

variable {F : Type}

/-- The split id of the message a packet completes, if it completes one. -/
def reassembledBy (s : Session F) (p : EncapsulatedPacket) (now : Instant) : List UInt16 :=
  match p.split, (s.splitAssembler.add p now).1 with
  | some split, .ok (some _) => [split.id]
  | _, _ => []

/-- The split ids of the messages that the packets of a datagram complete. -/
def reassembledIn (now : Instant) : Session F → List EncapsulatedPacket → List UInt16
  | _, [] => []
  | s, p :: rest =>
    s.reassembledBy p now ++
      match s.handleEncapsulated p now with
      | (.ok _, s) => reassembledIn now s rest
      | (.error _, _) => []

/-- An operation other than handling a payload. -/
def Local (op : Op) : Prop := ∀ packets now, op ≠ .handleDataPayload packets now

/-- Only a payload has reliable indexes to record. -/
theorem step_reliableTracker [Float64 F] (s : Session F) {op : Op} (h : Local op) :
    (s.step op).reliableTracker = s.reliableTracker := by
  have hcases := s.step_cases op
  generalize s.step op = s' at hcases
  cases hcases with
  | queuePacket hsame =>
    obtain ⟨_, _, _, _, _, _, hstep⟩ := hsame
    rw [hstep]
  | handleDataPayload _ => exact absurd rfl (h _ _)
  | _ => rfl

end Session

/-- The two sides and the receiver's history. -/
structure ManagedLink (F : Type) where
  sender : Sender F
  receiver : ManagedSession F
  returned : List IncomingPacket
  reassembled : List UInt16
  accepted : List Datagram

namespace ManagedLink

variable {F : Type} [Float64 F] (start : Instant)

/-- A step of either side, or the arrival of a datagram. -/
inductive Op
  | send (op : Session.Op)
  /-- The `i`-th datagram put out arrives. -/
  | deliver (i : Nat) (now : Instant)
  /-- The receiver does anything but handle a datagram. -/
  | receive (op : ManagedSession.Op) (h : ∀ dgram now, op ≠ .handleDatagram dgram now)

def new (mtu : Nat) (tunables : SessionTunables) (receiver : ManagedSession F) : ManagedLink F :=
  ⟨.new mtu tunables, receiver, [], [], []⟩

/-- The receiver handles a datagram. -/
def arrive (x : ManagedLink F) (d : Datagram) (now : Instant) : ManagedLink F :=
  let res := x.receiver.handleDatagram start d now
  { x with
    receiver := res.2
    returned := x.returned ++ Raknet.returned res.1
    -- a closed session does not look at the packets
    reassembled := x.reassembled ++
      if x.receiver.state = .closed then [] else x.receiver.inner.reassembledIn now d.packets
    accepted := x.accepted ++ if res.1.isOk then [d] else [] }

def step (x : ManagedLink F) : Op → ManagedLink F
  | .send op => { x with sender := x.sender.step op }
  | .deliver i now =>
    match x.sender.sent[i]? with
    | none => x
    | some d => x.arrive start d now
  | .receive op _ => { x with receiver := x.receiver.step start op }

theorem log_grows : ∀ (ops : List Op) (x : ManagedLink F),
    x.sender.log <+: (Machine.run (step start) x ops).sender.log
  | [], _ => List.prefix_rfl
  | op :: ops, x => by
    refine List.IsPrefix.trans ?_ (log_grows ops (x.step start op))
    cases op with
    | send op => exact List.prefix_append _ _
    | deliver i now =>
      rw [step]
      split <;> exact List.prefix_rfl
    | receive op h => exact List.prefix_rfl

theorem handlerOp_local (op : Session.Op) (h : ManagedSession.HandlerOp op) : Session.Local op := by
  rintro packets now rfl
  exact h

/-- What the receiver does between datagrams is no handling of a payload. -/
theorem receive_inner (m : ManagedSession F) {op : ManagedSession.Op}
    (h : ∀ dgram now, op ≠ .handleDatagram dgram now) :
    ManagedSession.InnerReach Session.Local m.inner (m.step start op).inner := by
  refine m.step_inner handlerOp_local start op ?_ (fun dgram now hop => absurd hop (h dgram now)) ?_
  · rintro now iter - packets now' hop
    cases hop
  · rintro pkt rel channel priority clock - - packets now hop
    cases hop

end ManagedLink

end BedrockRs.Raknet

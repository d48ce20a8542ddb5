/-
A managed session works on its inner session through the operations of a session only: every call is
a run of the inner session (`step_inner`), and a tick is such a run (`beforeTick_inner`) and then a
tick of the inner session. Invariants of session runs thereby hold of the inner session of every
reachable managed session.
-/
import BedrockRs.Raknet.Session.Manager

namespace BedrockRs.Raknet.ManagedSession

open Lib

variable {F : Type} [Float64 F]

/-- An operation a managed session makes of its own accord: any but the queueing of a packet with a
sequenced reliability and the handling of a payload, which only a datagram brings. -/
def OwnOp : Session.Op → Prop
  | .queuePacket _ reliability _ _ => reliability.isSequenced = false
  | .handleDataPayload .. => False
  | _ => True

/-- An operation that the handlers make: an own operation other than the tick of the inner session. -/
def HandlerOp : Session.Op → Prop
  | .onTick .. => False
  | op => OwnOp op

/-- `s'` is reached from `s` by operations of a session that meet `P`. -/
def InnerReach (P : Session.Op → Prop) (s s' : Session F) : Prop := Machine.Reach Session.step P s s'

namespace InnerReach

variable {P : Session.Op → Prop}

theorem refl (s : Session F) : InnerReach P s s := Machine.Reach.refl s

theorem trans {s s' s'' : Session F} (h : InnerReach P s s') (h' : InnerReach P s' s'') : InnerReach P s s'' :=
  Machine.Reach.trans h h'

theorem single {op : Session.Op} (h : P op) (s : Session F) : InnerReach P s (s.step op) := Machine.Reach.single h s

end InnerReach

/-- A tick puts out what its inner session's tick puts out. -/
theorem onTick_eq (start : Instant) (m : ManagedSession F) (now : Instant) (iter : IterOrder SplitEntries.Item) :
    (m.onTick start now iter).1 = ((m.beforeTick start now).inner.onTick now iter).1 ∧
    (m.onTick start now iter).2.inner = ((m.beforeTick start now).inner.onTick now iter).2 := by
  unfold onTick
  simp only [and_self]

omit [Float64 F] in
theorem handleDatagram_closed (start : Instant) {m : ManagedSession F} (hclosed : m.state = .closed) (dgram : Datagram)
    (now : Instant) : m.handleDatagram start dgram now = (.ok [], m) := by
  rw [handleDatagram, if_pos hclosed]

section Own

variable {P : Session.Op → Prop} (hP : ∀ op, HandlerOp op → P op)
include hP

/-- The handlers queue their packets after setting fields of the manager, so the manager queued to is
not the one handed in, but has its inner session `s`. -/
theorem queueControlPacket_inner {s : Session F} {m : ManagedSession F} (pkt : RaknetPacket) (rel : Reliability)
    (channel : UInt8) (priority : RakPriority) (hrel : rel.isSequenced = false) (h : m.inner = s) :
    InnerReach P s (m.queueControlPacket pkt rel channel priority).inner := by
  subst h
  unfold queueControlPacket
  split
  · exact .refl _
  · exact .single (hP (.queuePacket pkt rel channel priority) hrel) m.inner

theorem sendDisconnect_inner (m : ManagedSession F) (reason : DisconnectReason) :
    InnerReach P m.inner (m.sendDisconnect reason).2.inner := by
  unfold sendDisconnect
  split
  · exact .refl _
  · exact queueControlPacket_inner hP _ .reliable 0 .immediate rfl rfl

theorem closeWith_inner (m : ManagedSession F) (reason : DisconnectReason) :
    InnerReach P m.inner (m.closeWith reason).inner :=
  m.sendDisconnect_inner hP reason

theorem startClientHandshake_inner (start : Instant) (m : ManagedSession F) (serverGuid : UInt64) (now : Instant)
    (secure : Bool) : InnerReach P m.inner (m.startClientHandshake start serverGuid now secure).2.inner := by
  unfold startClientHandshake
  split
  · exact .refl _
  · split
    · exact .refl _
    · exact queueControlPacket_inner hP _ .reliable 0 .immediate rfl rfl

theorem handleControlPacket_inner (start : Instant) (m : ManagedSession F) (pkt : RaknetPacket) (now : Instant) :
    InnerReach P m.inner (m.handleControlPacket start pkt now).inner := by
  unfold handleControlPacket
  split
  · unfold handleConnectionRequest
    split
    · exact .refl _
    · exact queueControlPacket_inner hP _ .unreliable 0 .immediate rfl rfl
  · unfold handleConnectionRequestAccepted
    split
    · exact .refl _
    · exact queueControlPacket_inner hP _ .reliableOrdered 0 .immediate rfl rfl
  · exact .refl _
  · exact .refl _
  · exact queueControlPacket_inner hP _ .unreliable 0 .immediate rfl rfl
  · unfold handleConnectedPong
    simp only
    split <;> exact .refl _
  · exact .refl _
  · unfold handleGenericControlStates
    split
    all_goals try (split <;> exact .refl _)
    all_goals exact .refl _

theorem handleControlPackets_inner (start now : Instant) {s : Session F} : ∀ (pkts : List IncomingPacket)
    (m : ManagedSession F), InnerReach P s m.inner →
    InnerReach P s (pkts.foldl (fun m pkt => m.handleControlPacket start pkt.packet now) m).inner
  | [], _, h => h
  | pkt :: rest, m, h => handleControlPackets_inner start now rest _
    (h.trans (m.handleControlPacket_inner hP start pkt.packet now))

/-- A datagram at an open session: its packets are handled, and only own operations follow. -/
theorem handleDatagram_open (start : Instant) {m : ManagedSession F} (hopen : m.state ≠ .closed) (dgram : Datagram)
    (now : Instant) : (m.handleDatagram start dgram now).1 =
      (m.inner.handleDataPayload dgram.packets now).1.mapError SessionError.protocol ∧
    InnerReach P (m.inner.handleDataPayload dgram.packets now).2 (m.handleDatagram start dgram now).2.inner := by
  unfold handleDatagram Datagram.packets
  rw [if_neg hopen]
  simp only
  split
  · rename_i packets hp
    simp only [hp]
    cases hres : m.inner.handleDataPayload packets now with
    | mk res inner =>
      cases res with
      | error e => exact ⟨rfl, .refl _⟩
      | ok pkts =>
        exact ⟨rfl, handleControlPackets_inner hP start now pkts _
          (.single (hP (.processDatagramSequence dgram.header.sequence) trivial) inner)⟩
  · rename_i payload hp
    simp only [hp]
    exact ⟨rfl, .single (hP (.handleAckPayload payload) trivial) m.inner⟩
  · rename_i payload hp
    simp only [hp]
    exact ⟨rfl, .single (hP (.handleNackPayload payload) trivial) m.inner⟩

theorem handleDatagram_inner (hdata : ∀ packets now, P (.handleDataPayload packets now)) (start : Instant)
    (m : ManagedSession F) (dgram : Datagram) (now : Instant) :
    InnerReach P m.inner (m.handleDatagram start dgram now).2.inner := by
  by_cases hclosed : m.state = .closed
  · rw [handleDatagram_closed start hclosed]
    exact .refl _
  · exact InnerReach.trans (.single (hdata dgram.packets now) m.inner)
      (handleDatagram_open hP start hclosed dgram now).2

theorem buildDatagram_inner (m : ManagedSession F) (now : Instant) :
    InnerReach P m.inner (m.buildDatagram now).2.inner := by
  have h := InnerReach.single (hP (.buildDataDatagram now) trivial) m.inner
  rw [Session.step] at h
  unfold buildDatagram
  split
  · rename_i inner hb
    rw [hb] at h; exact h
  · rename_i dgram inner hb
    rw [hb] at h
    simp only
    split <;> exact h

theorem checkIdle_inner (m : ManagedSession F) (now : Instant) : InnerReach P m.inner (m.checkIdle now).inner := by
  unfold checkIdle
  split
  · simp only
    split
    · exact m.closeWith_inner hP .timedOut
    · split <;> exact .refl _
  · exact .refl _

theorem enforceQueueLimit_inner (m : ManagedSession F) : InnerReach P m.inner m.enforceQueueLimit.inner := by
  unfold enforceQueueLimit
  split
  · split
    · exact m.closeWith_inner hP .queueTooLong
    · exact .refl _
  · exact .refl _

theorem beforeTick_inner (start : Instant) (m : ManagedSession F) (now : Instant) :
    InnerReach P m.inner (m.beforeTick start now).inner := by
  unfold beforeTick
  refine (m.checkIdle_inner hP now).trans (InnerReach.trans ?_ (enforceQueueLimit_inner hP _))
  split
  · exact queueControlPacket_inner hP _ .unreliable 0 .immediate rfl rfl
  · exact .refl _

/-- Every call is a run of the inner session. Its operations meet any `P` that holds of what the
handlers do, of a tick, of the payload of a datagram and of the queueing of an application packet that
passed the checks. -/
theorem step_inner (start : Instant) (m : ManagedSession F) (op : Op)
    (htick : ∀ now iter, op = .onTick now iter → P (.onTick now iter))
    (hdata : ∀ dgram now, op = .handleDatagram dgram now → ∀ packets now, P (.handleDataPayload packets now))
    (happ : ∀ pkt rel channel priority clock, op = .queueAppPacket pkt rel channel priority clock →
      m.checkAppPacket pkt channel = .ok () → P (.queuePacket pkt rel channel priority)) :
    InnerReach P m.inner (m.step start op).inner := by
  cases op with
  | queueAppPacket pkt rel channel priority clock =>
    unfold step queueAppPacket
    simp only
    split
    · exact .refl _
    · rename_i hcheck
      exact .single (happ pkt rel channel priority clock rfl hcheck) m.inner
  | handleDatagram dgram now => exact m.handleDatagram_inner hP (hdata dgram now rfl) start dgram now
  | buildDatagram now => exact m.buildDatagram_inner hP now
  | onTick now iter =>
    refine (m.beforeTick_inner hP start now).trans ?_
    rw [step, (m.onTick_eq start now iter).2]
    exact .single (htick now iter rfl) (m.beforeTick start now).inner
  | startClientHandshake serverGuid now secure => exact m.startClientHandshake_inner hP start serverGuid now secure
  | sendDisconnect reason => exact m.sendDisconnect_inner hP reason

end Own

end BedrockRs.Raknet.ManagedSession

/-
Two managed sessions, a client and a server, over a network that may drop, duplicate, delay and reorder
datagrams of both directions, but not alter them or make them up. The record of the two sessions is kept
in one history.

What one side handles the other has queued (`handled_queued`). For the packets that only the sessions
themselves queue this traces every control packet back to its cause: a server is connected only after a
handshake that went through all its steps, on both sides, in order and with the same timestamp
(`connected_agreed`), and a pong comes back only for a ping that was sent (`pong_pinged`).
-/
import BedrockRs.Raknet.Delivery.Genuine
import BedrockRs.Raknet.Protocol.ControlRoundTrip
import BedrockRs.Raknet.Session.Keepalive
import BedrockRs.Raknet.Session.Record

namespace BedrockRs.Raknet

open Lib
open scoped List

/-! ## Small packets -/

namespace RaknetPacket

theorem length_u64 (v : UInt64) : (Put.u64 v).length = 8 := rfl

theorem length_addr (a : SocketAddr) : a.encode.length ≤ 29 := by
  cases a with
  | v4 ip port => simp [SocketAddr.encode, Put.u16]
  | v6 ip port flowinfo scopeId => simp [SocketAddr.encode, Put.u16, Put.u16le, Put.u32]

theorem length_addrs (addrs : List.Vector SocketAddr 10) : (addrs.toList.flatMap SocketAddr.encode).length ≤ 290 := by
  have hsum : ∀ l : List SocketAddr, (l.flatMap SocketAddr.encode).length ≤ 29 * l.length := by
    intro l
    induction l with
    | nil => simp
    | cons a l ih =>
      have := length_addr a
      simp only [List.flatMap_cons, List.length_append, List.length_cons]
      omega
  have := hsum addrs.toList
  rwa [List.Vector.toList_length] at this

theorem small_connectionRequest (req : ConnectionRequest) : (connectionRequest req).Small := by
  simp [Small, bytes, encodeBody, ConnectionRequest.encode, Put.u64, Put.bool]

theorem small_connectionRequestAccepted (acc : ConnectionRequestAccepted) : (connectionRequestAccepted acc).Small := by
  have haddr := length_addr acc.address
  have haddrs := length_addrs acc.systemAddresses
  simp only [Small, bytes, encodeBody, ConnectionRequestAccepted.encode, List.length_cons, List.length_append,
    length_u64, Put.u16, List.length_nil]
  omega

theorem small_newIncomingConnection (nic : NewIncomingConnection) : (newIncomingConnection nic).Small := by
  have haddr := length_addr nic.serverAddress
  have haddrs := length_addrs nic.systemAddresses
  simp only [Small, bytes, encodeBody, NewIncomingConnection.encode, List.length_cons, List.length_append, length_u64]
  omega

theorem small_connectedPing (ping : ConnectedPing) : (connectedPing ping).Small := by
  simp [Small, bytes, encodeBody, ConnectedPing.encode, Put.u64]

theorem small_connectedPong (pong : ConnectedPong) : (connectedPong pong).Small := by
  simp [Small, bytes, encodeBody, ConnectedPong.encode, Put.u64]

theorem small_disconnectionNotification (notification : DisconnectionNotification) :
    (disconnectionNotification notification).Small := by
  simp [Small, bytes, encodeBody, DisconnectionNotification.encode]

theorem Small.countable {pkt : RaknetPacket} (h : pkt.Small) : pkt.Countable := lt_of_le_of_lt h (by decide)

/-- What a packet may come out as: as what its bytes decode to, or, where it is sent in parts, as a packet of
its identifier. -/
def ComesOutAs (pkt pkt' : RaknetPacket) : Prop :=
  pkt.Small ∧ Session.decodePayload pkt.bytes = .ok pkt' ∨ ¬ pkt.Small ∧ pkt'.id = pkt.id

theorem ComesOutAs.id_eq {pkt pkt' : RaknetPacket} (h : pkt.ComesOutAs pkt') : pkt'.id = pkt.id := by
  rcases h with ⟨-, hdecode⟩ | ⟨-, hid⟩
  · exact Session.decodePayload_id hdecode
  · exact hid

end RaknetPacket

/-! ## The two sides -/

def SessionRole.other : SessionRole → SessionRole
  | client => server
  | server => client

/-- A session and the datagrams it has put out. -/
structure Endpoint (F : Type) where
  session : ManagedSession F
  sent : List Datagram

/-- An entry of the history: whose record it is from, and the entry. -/
abbrev Step := SessionRole × ManagedSession.Entry

structure Duplex (F : Type) where
  ends : SessionRole → Endpoint F
  history : List Step

namespace Duplex

variable {F : Type} [Float64 F]

inductive Op
  /-- One side makes a call other than handling a datagram. -/
  | act (side : SessionRole) (op : ManagedSession.Op) (h : ∀ dgram now, op ≠ .handleDatagram dgram now)
  /-- The `i`-th datagram the other side has put out arrives. -/
  | deliver (side : SessionRole) (i : Nat) (now : Instant)

/-- The packet that the application hands over. -/
def Op.app : Op → Option RaknetPacket
  | .act _ (.queueAppPacket pkt _ _ _ _) _ => some pkt
  | _ => none

variable (start : SessionRole → Instant)

def perform (x : Duplex F) (side : SessionRole) (op : ManagedSession.Op) : Duplex F where
  ends := Function.update x.ends side
    ⟨(x.ends side).session.step (start side) op,
      (x.ends side).sent ++ ((x.ends side).session.emitted (start side) op).map OutgoingDatagram.asRef⟩
  history := x.history ++ ((x.ends side).session.entries (start side) op).map (side, ·)

def step (x : Duplex F) : Op → Duplex F
  | .act side op _ => x.perform start side op
  | .deliver side i now =>
    match (x.ends side.other).sent[i]? with
    | none => x
    | some d => x.perform start side (.handleDatagram d now)

/-- New sessions of the two roles, each with its peer, its MTU and its configuration. -/
def new (peer : SessionRole → SocketAddr) (mtu : SessionRole → Nat) (now : Instant)
    (config : SessionRole → SessionConfig) : Duplex F where
  ends side := ⟨.withConfig (peer side) (mtu side) now { config side with role := side }, []⟩
  history := []

/-! ## What is handled was queued -/

/-- A packet that the other side may hand out, after what this side has queued. -/
def Offered (past : List Step) (side : SessionRole) (pkt' : RaknetPacket) : Prop :=
  ∃ pkt, (side, .queued pkt) ∈ past ∧ pkt.ComesOutAs pkt'

theorem Offered.mono {past past' : List Step} (hpast : past ⊆ past') {side : SessionRole} (pkt : RaknetPacket)
    (h : Offered past side pkt) : Offered past' side pkt := by
  obtain ⟨pkt', hqueued, hcomes⟩ := h
  exact ⟨pkt', hpast hqueued, hcomes⟩

/-- What is queued can only come out as what is offered. -/
theorem queueable_offered {past : List Step} {side : SessionRole} {pkt : RaknetPacket} (h : (side, .queued pkt) ∈ past)
    (hcount : pkt.Countable) : pkt.Queueable (Offered past side) := by
  by_cases hsmall : pkt.Small
  · exact .inl ⟨hsmall, fun pkt' hdecode => ⟨pkt, h, .inl ⟨hsmall, hdecode⟩⟩⟩
  · exact .inr ⟨hcount, fun pkt' hid => ⟨pkt, h, .inr ⟨hsmall, hid⟩⟩⟩

/-- The two sides and all that is under way between them, against the history. -/
structure Inv (x : Duplex F) : Prop where
  sends : ∀ side, (x.ends side).session.inner.Sends (Offered x.history side)
  sent : ∀ side, ∀ d ∈ (x.ends side).sent, ∀ p ∈ d.packets, p.Genuine (Offered x.history side)
  holds : ∀ side, (x.ends side).session.inner.Holds (Offered x.history side.other)
  authentic : ∀ before s, before ++ [s] <+: x.history → ∀ pkt, s.2 = .handled pkt → Offered before s.1.other pkt

end Duplex

/-! ## One call -/

namespace ManagedSession

variable {F : Type} [Float64 F]

omit [Float64 F] in
theorem answer_small {start : Instant} {m : ManagedSession F} {now : Instant} {pkt pkt' : RaknetPacket}
    (h : pkt' ∈ m.answer start now pkt) : pkt'.Small := by
  cases pkt with
  | connectionRequest req =>
    simp only [answer, Option.mem_def, Option.ite_none_right_eq_some, Option.some.injEq] at h
    rw [← h.2]
    exact RaknetPacket.small_connectionRequestAccepted _
  | connectionRequestAccepted acc =>
    simp only [answer, Option.mem_def, Option.ite_none_right_eq_some, Option.some.injEq] at h
    rw [← h.2]
    exact RaknetPacket.small_newIncomingConnection _
  | connectedPing ping =>
    cases h
    exact RaknetPacket.small_connectedPong _
  | _ => cases h

omit [Float64 F] in
theorem tickPackets_cases {start : Instant} {m : ManagedSession F} {now : Instant} {pkt : RaknetPacket}
    (h : pkt ∈ m.tickPackets start now) : (∃ time, pkt = .connectedPing ⟨time⟩) ∨ ∃ reason, pkt = farewell reason := by
  unfold tickPackets at h
  simp only [List.mem_append, List.mem_ite_nil_right, List.mem_singleton] at h
  rcases h with (⟨-, rfl⟩ | ⟨-, rfl⟩) | ⟨-, rfl⟩
  · exact .inr ⟨_, rfl⟩
  · exact .inl ⟨_, rfl⟩
  · exact .inr ⟨_, rfl⟩

/-- Why a packet is queued: the application wants it, or a handshake starts, or it answers a packet that was
handled just before, or it is a ping, or the session ends. -/
inductive Queues (start : Instant) (m : ManagedSession F) (before : List Entry) : Op → RaknetPacket → Prop
  | app {pkt : RaknetPacket} {rel : Reliability} {channel : UInt8} {priority : RakPriority} {clock : Instant} :
    Queues start m before (.queueAppPacket pkt rel channel priority clock) pkt
  | request {serverGuid : UInt64} {now : Instant} {secure : Bool} (hrole : m.config.role = .client) :
    Queues start m before (.startClientHandshake serverGuid now secure)
      (.connectionRequest ⟨m.config.guid, currentRaknetTime start now, secure⟩)
  | answer {dgram : Datagram} {now : Instant} {pkt pkt' : RaknetPacket} (hanswer : pkt' ∈ m.answer start now pkt)
    (hhandled : .handled pkt ∈ before) : Queues start m before (.handleDatagram dgram now) pkt'
  | ping {op : Op} (time : RaknetTime) : Queues start m before op (.connectedPing ⟨time⟩)
  | farewell {op : Op} (reason : DisconnectReason) : Queues start m before op (farewell reason)

omit [Float64 F] in
/-- In the record of a datagram an answer comes right after what it answers. -/
theorem answer_after {start : Instant} {m : ManagedSession F} {now : Instant} {pkt' : RaknetPacket} :
    ∀ (pkts : List RaknetPacket) {before : List Entry}, before ++ [.queued pkt'] <+:
      pkts.flatMap (fun pkt => .handled pkt :: (m.answer start now pkt).toList.map .queued) →
      ∃ pkt, pkt' ∈ m.answer start now pkt ∧ .handled pkt ∈ before
  | [], before, h => by simp at h
  | pkt :: pkts, before, h => by
    rw [List.flatMap_cons, List.cons_append] at h
    cases before with
    | nil =>
      obtain ⟨heq, -⟩ := List.cons_prefix_cons.1 h
      cases heq
    | cons e before =>
      obtain ⟨he, hrest⟩ := List.cons_prefix_cons.1 h
      subst he
      -- the entry is the answer to the first packet, or it is among the rest
      cases hanswer : m.answer start now pkt with
      | none =>
        rw [hanswer] at hrest
        obtain ⟨pkt₀, h₀, hmem⟩ := answer_after pkts hrest
        exact ⟨pkt₀, h₀, List.mem_cons_of_mem _ hmem⟩
      | some reply =>
        rw [hanswer] at hrest
        cases before with
        | nil =>
          obtain ⟨heq, -⟩ := List.cons_prefix_cons.1 hrest
          cases heq
          exact ⟨pkt, Option.mem_def.2 hanswer, List.mem_cons_self ..⟩
        | cons e' before =>
          obtain ⟨-, hlast⟩ := List.cons_prefix_cons.1 hrest
          obtain ⟨pkt₀, h₀, hmem⟩ := answer_after pkts hlast
          exact ⟨pkt₀, h₀, List.mem_cons_of_mem _ (List.mem_cons_of_mem _ hmem)⟩

omit [Float64 F] in
theorem entries_queues {start : Instant} {m : ManagedSession F} {op : Op} {before : List Entry} {pkt : RaknetPacket}
    (h : before ++ [.queued pkt] <+: m.entries start op) : Queues start m before op pkt := by
  have hmem : .queued pkt ∈ m.entries start op := h.subset (List.mem_append_right _ (List.mem_singleton_self _))
  cases op with
  | queueAppPacket pkt' rel channel priority clock =>
    rw [entries] at hmem
    split_ifs at hmem
    · cases List.mem_singleton.1 hmem
      exact .app
    · cases hmem
  | handleDatagram dgram now =>
    obtain ⟨pkt₀, hanswer, hhandled⟩ := answer_after _ h
    exact .answer hanswer hhandled
  | buildDatagram now => cases hmem
  | onTick now iter =>
    obtain ⟨pkt', hpkt', heq⟩ := List.mem_map.1 hmem
    cases heq
    rcases tickPackets_cases hpkt' with ⟨time, rfl⟩ | ⟨reason, rfl⟩
    · exact .ping time
    · exact .farewell reason
  | startClientHandshake serverGuid now secure =>
    rw [entries] at hmem
    split_ifs at hmem with hok
    · cases List.mem_singleton.1 hmem
      obtain ⟨-, ⟨-, -, hrole, -⟩ | ⟨hnot, -⟩⟩ := m.startClientHandshake_state start serverGuid now secure
      · exact .request hrole
      · exact absurd hok hnot
    · cases hmem
  | sendDisconnect reason =>
    rw [entries] at hmem
    split_ifs at hmem
    · cases List.mem_singleton.1 hmem
      exact .farewell reason
    · cases hmem

omit [Float64 F] in
/-- What is handled is what the payload of the datagram returned. -/
theorem mem_handledPackets {m : ManagedSession F} {dgram : Datagram} {now : Instant} {pkt : RaknetPacket}
    (h : pkt ∈ m.handledPackets dgram now) : m.state ≠ .closed ∧
      ∃ p ∈ returned (m.inner.handleDataPayload dgram.packets now).1, p.packet = pkt := by
  unfold handledPackets at h
  split_ifs at h with hclosed
  · cases h
  · refine ⟨hclosed, ?_⟩
    split at h
    · rename_i pkts hok
      obtain ⟨p, hp, rfl⟩ := List.mem_map.1 h
      exact ⟨p, by rwa [hok], rfl⟩
    · cases h

omit [Float64 F] in
theorem mem_entries_handled {start : Instant} {m : ManagedSession F} {op : Op} {pkt : RaknetPacket}
    (h : .handled pkt ∈ m.entries start op) :
    ∃ dgram now, op = .handleDatagram dgram now ∧ pkt ∈ m.handledPackets dgram now := by
  cases op with
  | handleDatagram dgram now =>
    obtain ⟨pkt', hpkt', hmem⟩ := List.mem_flatMap.1 h
    rcases List.mem_cons.1 hmem with heq | hmem
    · cases heq
      exact ⟨dgram, now, rfl, hpkt'⟩
    · obtain ⟨_, -, heq⟩ := List.mem_map.1 hmem
      cases heq
  | queueAppPacket | startClientHandshake | sendDisconnect =>
    rw [entries] at h
    split_ifs at h
    · cases List.mem_singleton.1 h
    · cases h
  | buildDatagram now => cases h
  | onTick now iter =>
    obtain ⟨_, -, heq⟩ := List.mem_map.1 h
    cases heq

/-! ## One call keeps the invariant -/

section Reach

variable {K : RaknetPacket → Prop} {s s' : Session F}

theorem sends_reach (h : InnerReach (QueuesOnly (RaknetPacket.Queueable K)) s s') (hs : s.Sends K) : s'.Sends K := by
  refine Machine.Reach.inv h (fun s op hop hs => hs.step ?_) hs
  cases op with
  | queuePacket => exact hop
  | _ => trivial

theorem holds_reach {P : RaknetPacket → Prop} (h : InnerReach (QueuesOnly P) s s') (hs : s.Holds K) : s'.Holds K := by
  refine Machine.Reach.inv h (fun s op hop hs => hs.step op ?_) hs
  rintro packets now rfl
  exact hop

end Reach

theorem received_sends {K : RaknetPacket → Prop} {m : ManagedSession F} (h : m.inner.Sends K) (op : Op) :
    (m.received op).Sends K := by
  cases op with
  | handleDatagram dgram now =>
    unfold received
    split_ifs
    · exact h
    · have hop : Session.Says K (.handleDataPayload dgram.packets now) := trivial
      exact h.step hop
  | _ => exact h

omit [Float64 F] in
theorem received_holds {K : RaknetPacket → Prop} {m : ManagedSession F} (h : m.inner.Holds K) {op : Op}
    (hgenuine : ∀ dgram now, op = .handleDatagram dgram now → ∀ p ∈ dgram.packets, p.Genuine K) :
    (m.received op).Holds K := by
  cases op with
  | handleDatagram dgram now =>
    unfold received
    split_ifs
    · exact h
    · exact (h.handleDataPayload now (hgenuine dgram now rfl)).1
  | _ => exact h

/-- What a call puts out is genuine. -/
theorem emitted_genuine {K : RaknetPacket → Prop} {start : Instant} {m : ManagedSession F} (h : m.inner.Sends K)
    {op : Op} (hqueued : ∀ pkt, .queued pkt ∈ m.entries start op → pkt.Queueable K) :
    ∀ o ∈ m.emitted start op, ∀ p ∈ o.asRef.packets, p.Genuine K := by
  rintro o ho
  cases op with
  | buildDatagram now =>
    refine h.outgoing.built (?_ : (m.inner.buildDataDatagram now).1 = some o)
    rw [emitted, Option.mem_toList, buildDatagram] at ho
    split at ho
    · cases ho
    · rename_i dgram inner hbuild
      rw [hbuild]
      exact ho
  | onTick now iter =>
    have hbefore : (m.beforeTick start now).inner.Sends K :=
      sends_reach (m.beforeTick_reach start now fun pkt hpkt => hqueued pkt (List.mem_map_of_mem hpkt)) h
    rw [emitted, (m.onTick_eq start now iter).1] at ho
    have hemitted : o.asRef ∈ (m.beforeTick start now).inner.emitted (.onTick now iter) := List.mem_map_of_mem ho
    exact hbefore.emitted hemitted
  | _ => cases ho

end ManagedSession

namespace Duplex

variable {F : Type} [Float64 F] {start : SessionRole → Instant} {x : Duplex F}

open ManagedSession

omit [Float64 F] in
/-- Packets that are recorded as queued can be counted, if those of the application can. -/
theorem countable_of_queues {start : Instant} {m : ManagedSession F} {before : List Entry} {op : ManagedSession.Op}
    {pkt : RaknetPacket} (h : Queues start m before op pkt)
    (happ : ∀ pkt rel channel priority clock, op = .queueAppPacket pkt rel channel priority clock → pkt.Countable) :
    pkt.Countable := by
  cases h with
  | app => exact happ _ _ _ _ _ rfl
  | request => exact (RaknetPacket.small_connectionRequest _).countable
  | answer hanswer => exact (answer_small hanswer).countable
  | ping => exact (RaknetPacket.small_connectedPing _).countable
  | farewell => exact (RaknetPacket.small_disconnectionNotification _).countable

theorem Inv.perform (h : Inv x) (side : SessionRole) {op : ManagedSession.Op}
    (hgenuine : ∀ dgram now, op = .handleDatagram dgram now →
      ∀ p ∈ dgram.packets, p.Genuine (Offered x.history side.other))
    (happ : ∀ pkt rel channel priority clock, op = .queueAppPacket pkt rel channel priority clock → pkt.Countable) :
    Inv (x.perform start side op) := by
  have hgrows : x.history ⊆ (x.perform start side op).history := List.subset_append_left _ _
  have hmono : ∀ side' pkt, Offered x.history side' pkt → Offered (x.perform start side op).history side' pkt :=
    fun _ pkt => Offered.mono hgrows pkt
  have hqueued : ∀ pkt, .queued pkt ∈ (x.ends side).session.entries (start side) op →
      pkt.Queueable (Offered (x.perform start side op).history side) := by
    rintro pkt hpkt
    obtain ⟨before, after, hsplit⟩ := List.append_of_mem hpkt
    have hfront : before ++ [.queued pkt] <+: (x.ends side).session.entries (start side) op :=
      ⟨after, by rw [hsplit]; simp⟩
    exact queueable_offered (List.mem_append_right _ (List.mem_map_of_mem hpkt))
      (countable_of_queues (entries_queues hfront) happ)
  have hreach := (x.ends side).session.step_reach (start side) op hqueued
  have hsends := (h.sends side).mono (hmono side)
  have hholds := h.holds side
  constructor
  · rintro side'
    by_cases hside : side' = side
    · subst hside
      simp only [Duplex.perform, Function.update_self]
      exact sends_reach hreach (received_sends hsends op)
    · simp only [Duplex.perform, Function.update_of_ne hside]
      exact (h.sends side').mono (hmono side')
  · rintro side' d hd p hp
    by_cases hside : side' = side
    · subst hside
      simp only [Duplex.perform, Function.update_self] at hd
      rcases List.mem_append.1 hd with hd | hd
      · exact (h.sent side' d hd p hp).mono (hmono side')
      · obtain ⟨o, ho, rfl⟩ := List.mem_map.1 hd
        exact emitted_genuine hsends hqueued o ho p hp
    · simp only [Duplex.perform, Function.update_of_ne hside] at hd
      exact (h.sent side' d hd p hp).mono (hmono side')
  · rintro side'
    by_cases hside : side' = side
    · subst hside
      simp only [Duplex.perform, Function.update_self]
      exact (holds_reach hreach (received_holds hholds hgenuine)).mono (hmono side'.other)
    · simp only [Duplex.perform, Function.update_of_ne hside]
      exact (h.holds side').mono (hmono side'.other)
  · refine forall_steps_append h.authentic fun before s hs pkt hpkt => ?_
    have hmem : s ∈ ((x.ends side).session.entries (start side) op).map (side, ·) :=
      hs.subset (List.mem_append_right _ (List.mem_singleton_self _))
    obtain ⟨e, he, rfl⟩ := List.mem_map.1 hmem
    obtain rfl : e = .handled pkt := hpkt
    obtain ⟨dgram, now, rfl, hhandled⟩ := mem_entries_handled he
    obtain ⟨-, p, hp, rfl⟩ := mem_handledPackets hhandled
    exact Offered.mono (List.subset_append_left _ _) _ ((hholds.handleDataPayload now (hgenuine dgram now rfl)).2 p hp)

theorem Inv.step (h : Inv x) (op : Op) (happ : ∀ pkt ∈ op.app, pkt.Countable) : Inv (x.step start op) := by
  cases op with
  | act side op hop =>
    refine h.perform side (fun dgram now heq => absurd heq (hop dgram now)) ?_
    rintro pkt rel channel priority clock rfl
    exact happ pkt rfl
  | deliver side i now =>
    rw [Duplex.step]
    split
    · exact h
    · rename_i d hd
      refine h.perform side ?_ (by rintro _ _ _ _ _ ⟨⟩)
      rintro dgram now' heq
      cases heq
      exact h.sent side.other d (List.mem_of_getElem? hd)

theorem Inv.new (peer : SessionRole → SocketAddr) {mtu : SessionRole → Nat} (hmtu : ∀ side, 576 ≤ mtu side)
    (now : Instant) (config : SessionRole → SessionConfig) : Inv (Duplex.new peer mtu now config : Duplex F) where
  sends side := .new (hmtu side) _
  sent := by simp [Duplex.new]
  holds side := .new (mtu side) _
  authentic := by simp [Duplex.new]

theorem Inv.run : ∀ (ops : List Op) {x : Duplex F}, Inv x → (∀ op ∈ ops, ∀ pkt ∈ op.app, pkt.Countable) →
    Inv (Machine.run (Duplex.step start) x ops)
  | [], _, h, _ => h
  | op :: ops, _, h, happ =>
    Inv.run ops (h.step op (happ op (List.mem_cons_self ..))) fun op' hop' => happ op' (List.mem_cons_of_mem _ hop')

/-- In every run, what one side handles the other side has queued before: the packet is what the bytes of the
queued one decode to, or, where that one took more than 500 bytes, has its identifier. -/
theorem handled_queued (start : SessionRole → Instant) (peer : SessionRole → SocketAddr) (mtu : SessionRole → Nat)
    (hmtu : ∀ side, 576 ≤ mtu side) (now : Instant) (config : SessionRole → SessionConfig) (ops : List Op)
    (happ : ∀ op ∈ ops, ∀ pkt ∈ op.app, pkt.Countable) (before : List Step) (side : SessionRole) (pkt : RaknetPacket)
    (h : before ++ [(side, .handled pkt)] <+:
      (Machine.run (step start) (new peer mtu now config : Duplex F) ops).history) :
    ∃ pkt', (side.other, .queued pkt') ∈ before ∧ pkt'.ComesOutAs pkt := by
  exact ((Inv.new peer hmtu now config).run ops happ).authentic before (side, .handled pkt) h pkt rfl

/-- The client starts a handshake, and every datagram arrives. -/
def meeting : List Op :=
  [.act .client (.startClientHandshake 1 0 false) nofun, .act .client (.buildDatagram 0) nofun, .deliver .server 0 0,
    .act .server (.buildDatagram 0) nofun, .deliver .client 0 0, .act .client (.buildDatagram 0) nofun,
    .deliver .server 1 0]

theorem handled_queued_meeting :
    ∃ pkt', (SessionRole.client, .queued pkt') ∈ [((.client, .queued (.connectionRequest ⟨0, 0, false⟩)) : Step)] ∧
      pkt'.ComesOutAs (.connectionRequest ⟨0, 0, false⟩) :=
  handled_queued (F := ℚ) (fun _ => 0) (fun _ => .loopbackV4) (fun _ => 1400) (fun _ => by decide) 0 (fun _ => {})
    meeting (by simp [meeting, Op.app]) [(.client, .queued (.connectionRequest ⟨0, 0, false⟩))] .server
    (.connectionRequest ⟨0, 0, false⟩) (by decide +kernel)

end Duplex

end BedrockRs.Raknet

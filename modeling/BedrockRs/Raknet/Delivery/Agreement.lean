/-
What two connected sessions agree on. A control packet that only the sessions themselves queue has a
cause (`Cause`): it starts a handshake or answers a packet handled before. What is handled was queued, so
causes can be followed from one side to the other: a server that is connected has gone through the whole
handshake with its client, step by step and under one timestamp (`connected_agreed`), and a pong answers
a ping of the side that gets it (`pong_pinged`).
-/
import BedrockRs.Raknet.Delivery.Duplex

namespace BedrockRs.Raknet.Duplex

open Lib ManagedSession
open scoped List

variable {F : Type} [Float64 F]

/-! ## Causes -/

/-- Why a session queues a packet by itself, after what the two sides have done. The client has this `guid`. -/
inductive Cause (guid : UInt64) (past : List Step) : SessionRole → RaknetPacket → Prop
  | request (time : RaknetTime) (secure : Bool) : Cause guid past .client (.connectionRequest ⟨guid, time, secure⟩)
  | acceptance {req : ConnectionRequest} {acc : ConnectionRequestAccepted}
    (hhandled : (.server, .handled (.connectionRequest req)) ∈ past) (htime : acc.requestTimestamp = req.timestamp) :
    Cause guid past .server (.connectionRequestAccepted acc)
  | arrival {acc : ConnectionRequestAccepted} {nic : NewIncomingConnection}
    (hhandled : (.client, .handled (.connectionRequestAccepted acc)) ∈ past)
      (htime : nic.acceptedTimestamp = acc.requestTimestamp) :
    Cause guid past .client (.newIncomingConnection nic)
  | ping (side : SessionRole) (time : RaknetTime) : Cause guid past side (.connectedPing ⟨time⟩)
  | pong {side : SessionRole} {ping : ConnectedPing} {pong : ConnectedPong}
    (hhandled : (side, .handled (.connectedPing ping)) ∈ past)
    (htime : pong.pingTime = ping.pingTime) : Cause guid past side (.connectedPong pong)
  | farewell (side : SessionRole) (reason : DisconnectReason) : Cause guid past side (farewell reason)

/-- Such a packet comes out as itself. -/
theorem Cause.comesOut {guid : UInt64} {past : List Step} {side : SessionRole} {pkt pkt' : RaknetPacket}
    (h : Cause guid past side pkt) (hcomes : pkt.ComesOutAs pkt') : pkt' = pkt := by
  have hsmall : pkt.Small := by
    cases h with
    | request => exact RaknetPacket.small_connectionRequest _
    | acceptance => exact RaknetPacket.small_connectionRequestAccepted _
    | arrival => exact RaknetPacket.small_newIncomingConnection _
    | ping => exact RaknetPacket.small_connectedPing _
    | pong => exact RaknetPacket.small_connectedPong _
    | farewell => exact RaknetPacket.small_disconnectionNotification _
  have hdecode : RaknetPacket.decodeFrom pkt.bytes = .ok pkt := by
    have hcarried : pkt.Carried fun _ => False := by cases h <;> trivial
    have hproof : pkt.withoutProof = pkt := by cases h <;> rfl
    have := hcarried.decodeFrom_encodeBody nofun
    rwa [hproof] at this
  rcases hcomes with ⟨-, hcomes⟩ | ⟨hlong, -⟩
  · rw [Session.decodePayload, hdecode] at hcomes
    exact (Except.ok.inj hcomes).symm
  · exact absurd hsmall hlong

theorem Cause.of_pong {guid : UInt64} {past : List Step} {side : SessionRole} {pong : ConnectedPong}
    (h : Cause guid past side (.connectedPong pong)) :
    ∃ ping, (side, .handled (.connectedPing ping)) ∈ past ∧ pong.pingTime = ping.pingTime := by
  cases h with
  | pong hhandled htime => exact ⟨_, hhandled, htime⟩

omit [Float64 F] in
theorem cause_of_answer {guid : UInt64} {past : List Step} {start : Instant} {m : ManagedSession F} {now : Instant}
    {side : SessionRole} (hrole : m.config.role = side) {pkt pkt' : RaknetPacket}
    (hanswer : pkt' ∈ m.answer start now pkt) (hhandled : (side, .handled pkt) ∈ past) : Cause guid past side pkt' := by
  cases pkt with
  | connectionRequest req =>
    simp only [answer, Option.mem_def, Option.ite_none_right_eq_some, Option.some.injEq] at hanswer
    obtain ⟨hserver, rfl⟩ := hanswer
    obtain rfl := hserver.symm.trans hrole
    exact .acceptance hhandled rfl
  | connectionRequestAccepted acc =>
    simp only [answer, Option.mem_def, Option.ite_none_right_eq_some, Option.some.injEq] at hanswer
    obtain ⟨hclient, rfl⟩ := hanswer
    obtain rfl := hclient.symm.trans hrole
    exact .arrival hhandled rfl
  | connectedPing ping =>
    cases hanswer
    exact .pong hhandled rfl
  | _ => cases hanswer

/-! ## The invariant -/

/-- The history tells why the sessions queued the packets of some identifiers, and what connected them. -/
structure Traced (guid : UInt64) (ids : List UInt8) (x : Duplex F) : Prop where
  role : ∀ side, (x.ends side).session.config.role = side
  guid_eq : (x.ends .client).session.config.guid = guid
  caused : ∀ before s, before ++ [s] <+: x.history → ∀ pkt, s.2 = .queued pkt → pkt.id ∈ ids → Cause guid before s.1 pkt
  connected : ∀ side, (x.ends side).session.state.rank = 2 →
    ∃ pkt, (side, .handled pkt) ∈ x.history ∧ pkt.sets side = some .connected

/-- A step connects a session only by a packet that it handles. -/
theorem rank_step {start : Instant} {m : ManagedSession F} {op : ManagedSession.Op}
    (h : (m.step start op).state.rank = 2) (hbefore : m.state.rank ≠ 2) :
    ∃ pkt, .handled pkt ∈ m.entries start op ∧ pkt.sets m.config.role = some .connected := by
  have hhistory : History m.config.role [] m := ⟨fun hrank => absurd hrank hbefore, rfl⟩
  have hlast := (hhistory.step start op).connected h
  rw [List.nil_append] at hlast
  obtain ⟨e, he, hsets⟩ := List.mem_filterMap.1 (List.mem_of_getLast? hlast)
  cases op with
  | handleDatagram dgram now =>
    obtain ⟨pkt, hpkt, rfl⟩ := List.mem_map.1 he
    exact ⟨pkt, List.mem_flatMap.2 ⟨pkt, hpkt, List.mem_cons_self ..⟩, hsets⟩
  | startClientHandshake serverGuid now secure =>
    rw [events] at he
    split_ifs at he
    · rw [List.mem_singleton.1 he] at hsets
      cases hsets
    · cases he
  | _ => cases he

variable {start : SessionRole → Instant} {guid : UInt64} {ids : List UInt8} {x : Duplex F}

theorem Traced.perform (h : Traced guid ids x) (side : SessionRole) {op : ManagedSession.Op}
    (happ : ∀ pkt rel channel priority clock, op = .queueAppPacket pkt rel channel priority clock → pkt.id ∉ ids) :
    Traced guid ids (x.perform start side op) := by
  have hconfig := (x.ends side).session.step_config (start side) op
  constructor
  · rintro side'
    by_cases hside : side' = side
    · subst hside
      simp only [Duplex.perform, Function.update_self]
      rw [hconfig, h.role]
    · simp only [Duplex.perform, Function.update_of_ne hside]
      exact h.role side'
  · by_cases hside : SessionRole.client = side
    · subst hside
      simp only [Duplex.perform, Function.update_self]
      rw [hconfig, h.guid_eq]
    · simp only [Duplex.perform, Function.update_of_ne hside]
      exact h.guid_eq
  · refine forall_steps_append h.caused fun before s hs pkt hpkt hid => ?_
    -- an entry of this call, with what the call recorded before it
    obtain ⟨front, ⟨rest, hrest⟩, heq⟩ : ∃ front, front <+: (x.ends side).session.entries (start side) op ∧
        front.map (side, ·) = before ++ [s] := by
      obtain ⟨after, hafter⟩ := hs
      obtain ⟨front, rest, hsplit, hfront, -⟩ := List.map_eq_append_iff.1 hafter.symm
      exact ⟨front, ⟨rest, hsplit.symm⟩, hfront⟩
    obtain ⟨init, last, rfl, rfl, hlast⟩ := List.map_eq_append_iff.1 heq
    obtain ⟨e, rfl, rfl⟩ := List.map_eq_singleton_iff.1 hlast
    obtain rfl : e = .queued pkt := hpkt
    have hqueues := entries_queues (⟨rest, hrest⟩ : init ++ [.queued pkt] <+: _)
    have hrole := h.role side
    cases hqueues with
    | app => exact absurd hid (happ _ _ _ _ _ rfl)
    | request hclient =>
      obtain rfl := hclient.symm.trans hrole
      rw [h.guid_eq]
      exact .request _ _
    | answer hanswer hhandled =>
      exact cause_of_answer hrole hanswer (List.mem_append_right _ (List.mem_map_of_mem hhandled))
    | ping time => exact .ping side time
    | farewell reason => exact .farewell side reason
  · rintro side' hrank
    by_cases hside : side' = side
    · subst hside
      simp only [Duplex.perform, Function.update_self] at hrank
      by_cases hbefore : (x.ends side').session.state.rank = 2
      · obtain ⟨pkt, hpkt, hsets⟩ := h.connected side' hbefore
        exact ⟨pkt, List.mem_append_left _ hpkt, hsets⟩
      · obtain ⟨pkt, hpkt, hsets⟩ := rank_step hrank hbefore
        rw [h.role] at hsets
        exact ⟨pkt, List.mem_append_right _ (List.mem_map_of_mem hpkt), hsets⟩
    · simp only [Duplex.perform, Function.update_of_ne hside] at hrank
      obtain ⟨pkt, hpkt, hsets⟩ := h.connected side' hrank
      exact ⟨pkt, List.mem_append_left _ hpkt, hsets⟩

theorem Traced.step (h : Traced guid ids x) (op : Op) (happ : ∀ pkt ∈ op.app, pkt.id ∉ ids) :
    Traced guid ids (x.step start op) := by
  cases op with
  | act side op hop =>
    refine h.perform side ?_
    rintro pkt rel channel priority clock rfl
    exact happ pkt rfl
  | deliver side i now =>
    rw [Duplex.step]
    split
    · exact h
    · exact h.perform side (by rintro _ _ _ _ _ ⟨⟩)

theorem Traced.run : ∀ (ops : List Op) {x : Duplex F}, Traced guid ids x → (∀ op ∈ ops, ∀ pkt ∈ op.app, pkt.id ∉ ids) →
    Traced guid ids (Machine.run (Duplex.step start) x ops)
  | [], _, h, _ => h
  | op :: ops, _, h, happ =>
    Traced.run ops (h.step op (happ op (List.mem_cons_self ..))) fun op' hop' => happ op' (List.mem_cons_of_mem _ hop')

theorem Traced.new (ids : List UInt8) (peer : SessionRole → SocketAddr) (mtu : SessionRole → Nat) (now : Instant)
    (config : SessionRole → SessionConfig) :
    Traced (config .client).guid ids (Duplex.new peer mtu now config : Duplex F) where
  role _ := rfl
  guid_eq := rfl
  caused := by simp [Duplex.new]
  connected := by
    rintro side hrank
    cases hrank

/-! ## Following causes -/

omit [Float64 F] in
/-- What is handled, of these identifiers, was queued by the other side, for a cause. -/
theorem Traced.handled_caused (h : Traced guid ids x) (hx : Inv x) {before : List Step} {side : SessionRole}
    {pkt : RaknetPacket} (hhandled : before ++ [(side, .handled pkt)] <+: x.history) (hid : pkt.id ∈ ids) :
    ∃ earlier, earlier ++ [(side.other, .queued pkt)] <+: before ∧ Cause guid earlier side.other pkt := by
  obtain ⟨pkt', hqueued, hcomes⟩ := hx.authentic before _ hhandled pkt rfl
  obtain ⟨earlier, later, rfl⟩ := List.append_of_mem hqueued
  have hfront : earlier ++ [(side.other, .queued pkt')] <+: x.history :=
    List.IsPrefix.trans ⟨later ++ [(side, .handled pkt)], by simp⟩ hhandled
  have hcause := h.caused earlier _ hfront pkt' rfl (hcomes.id_eq ▸ hid)
  obtain rfl := hcause.comesOut hcomes
  exact ⟨earlier, ⟨later, by simp⟩, hcause⟩

/-- What is in a history was put there at some time. -/
theorem exists_front {history : List Step} {s : Step} (h : s ∈ history) : ∃ before, before ++ [s] <+: history := by
  obtain ⟨before, after, rfl⟩ := List.append_of_mem h
  exact ⟨before, after, by simp⟩

/-- Steps in their order, and then two more. -/
theorem sublist_two {steps earlier before history : List Step} {s s' : Step} (h : steps <+ earlier)
    (hs : earlier ++ [s] <+: before) (hs' : before ++ [s'] <+: history) : steps ++ [s, s'] <+ history := by
  have hfront : steps ++ [s] <+ before := (h.append (List.Sublist.refl [s])).trans hs.sublist
  have := (hfront.append (List.Sublist.refl [s'])).trans hs'.sublist
  rwa [List.append_assoc] at this

/-! ## The handshake -/

/-- The handshake as far as the client needs it to be connected. -/
def opening (req : ConnectionRequest) (acc : ConnectionRequestAccepted) : List Step :=
  [(.client, .queued (.connectionRequest req)), (.server, .handled (.connectionRequest req)),
    (.server, .queued (.connectionRequestAccepted acc)), (.client, .handled (.connectionRequestAccepted acc))]

/-- What connects the server. -/
def closing (nic : NewIncomingConnection) : List Step :=
  [(.client, .queued (.newIncomingConnection nic)), (.server, .handled (.newIncomingConnection nic))]

/-- The identifiers of the packets of the handshake. -/
def handshakeIds : List UInt8 := [0x09, 0x10, 0x13]

omit [Float64 F] in
/-- An acceptance that the client handles ends an opening. -/
theorem Traced.accepted (h : Traced guid handshakeIds x) (hx : Inv x) {before : List Step}
    {acc : ConnectionRequestAccepted}
    (hhandled : before ++ [(.client, .handled (.connectionRequestAccepted acc))] <+: x.history) :
    ∃ req, req.clientGuid = guid ∧ acc.requestTimestamp = req.timestamp ∧
      opening req acc <+ before ++ [(.client, .handled (.connectionRequestAccepted acc))] := by
  obtain ⟨earlier, hqueued, hcause⟩ := h.handled_caused hx hhandled (by simp [RaknetPacket.id, handshakeIds])
  cases hcause with
  | @acceptance req _ hreq htime =>
    obtain ⟨before', hbefore'⟩ := exists_front hreq
    have hfront : before' ++ [(.server, .handled (.connectionRequest req))] <+: x.history :=
      hbefore'.trans ((List.prefix_append _ _).trans (hqueued.trans ((List.prefix_append _ _).trans hhandled)))
    obtain ⟨earlier', hqueued', hcause'⟩ := h.handled_caused hx hfront (by simp [RaknetPacket.id, handshakeIds])
    cases hcause' with
    | request time secure =>
      refine ⟨⟨guid, time, secure⟩, rfl, htime, ?_⟩
      have hrequest := sublist_two (List.nil_sublist earlier') hqueued' hbefore'
      exact sublist_two hrequest hqueued (List.prefix_refl _)

/-- In every run in which the applications queue no packets of the handshake themselves: a client that is
connected has had its request accepted, and a server that is connected has besides been told so by the client;
each step came after the one before it, and they carry the timestamp of the request on, and the identifier of
the client. -/
theorem connected_agreed (start : SessionRole → Instant) (peer : SessionRole → SocketAddr) (mtu : SessionRole → Nat)
    (hmtu : ∀ side, 576 ≤ mtu side) (now : Instant) (config : SessionRole → SessionConfig) (ops : List Op)
    (happ : ∀ op ∈ ops, ∀ pkt ∈ op.app, pkt.Countable ∧ pkt.id ∉ handshakeIds) :
    let x := Machine.run (step start) (new peer mtu now config : Duplex F) ops
    ((x.ends .client).session.isConnected = true → ∃ req acc, req.clientGuid = (config .client).guid ∧
      acc.requestTimestamp = req.timestamp ∧ opening req acc <+ x.history) ∧
    ((x.ends .server).session.isConnected = true → ∃ req acc nic, req.clientGuid = (config .client).guid ∧
      acc.requestTimestamp = req.timestamp ∧ nic.acceptedTimestamp = req.timestamp ∧
      opening req acc ++ closing nic <+ x.history) := by
  intro x
  have hx : Inv x := (Inv.new peer hmtu now config).run ops fun op hop pkt hpkt => (happ op hop pkt hpkt).1
  have h : Traced (config .client).guid handshakeIds x :=
    (Traced.new handshakeIds peer mtu now config).run ops fun op hop pkt hpkt => (happ op hop pkt hpkt).2
  have hrank : ∀ {side}, (x.ends side).session.isConnected = true → (x.ends side).session.state.rank = 2 :=
    fun hconnected =>
    (ConnectionState.rank_eq_two_iff _).2 (isConnected_iff.1 hconnected)
  constructor
  · intro hconnected
    obtain ⟨pkt, hpkt, hsets⟩ := h.connected .client (hrank hconnected)
    obtain ⟨before, hbefore⟩ := exists_front hpkt
    rcases Event.sets_connected (e := .handled pkt) hsets with ⟨nic, heq⟩ | ⟨-, acc, heq⟩
    · -- a server never queues a `NewIncomingConnection`
      cases heq
      obtain ⟨_, -, hcause⟩ := h.handled_caused hx hbefore (by simp [RaknetPacket.id, handshakeIds])
      cases hcause
    · cases heq
      obtain ⟨req, hguid, htime, hsteps⟩ := h.accepted hx hbefore
      exact ⟨req, acc, hguid, htime, hsteps.trans hbefore.sublist⟩
  · intro hconnected
    obtain ⟨pkt, hpkt, hsets⟩ := h.connected .server (hrank hconnected)
    obtain ⟨before, hbefore⟩ := exists_front hpkt
    rcases Event.sets_connected (e := .handled pkt) hsets with ⟨nic, heq⟩ | ⟨hclient, -⟩
    · cases heq
      obtain ⟨earlier, hqueued, hcause⟩ := h.handled_caused hx hbefore (by simp [RaknetPacket.id, handshakeIds])
      cases hcause with
      | @arrival acc _ hacc htime =>
        obtain ⟨before', hbefore'⟩ := exists_front hacc
        have hfront :=
          hbefore'.trans ((List.prefix_append _ _).trans (hqueued.trans ((List.prefix_append _ _).trans hbefore)))
        obtain ⟨req, hguid, htime', hsteps⟩ := h.accepted hx hfront
        exact ⟨req, acc, nic, hguid, htime', htime.trans htime',
          sublist_two (hsteps.trans hbefore'.sublist) hqueued hbefore⟩
    · cases hclient

theorem connected_agreed_meeting :
    ((Machine.run (step fun _ => 0) (new (fun _ => .loopbackV4) (fun _ => 1400) 0 fun _ => {} : Duplex ℚ) meeting).ends
      .server).session.isConnected = true ∧
    ∃ req acc nic, req.clientGuid = 0 ∧ acc.requestTimestamp = req.timestamp ∧ nic.acceptedTimestamp = req.timestamp ∧
      opening req acc ++ closing nic <+
        (Machine.run (step fun _ => 0) (new (fun _ => .loopbackV4) (fun _ => 1400) 0 fun _ => {} : Duplex ℚ)
          meeting).history := by
  have hconnected :
    ((Machine.run (step fun _ => 0) (new (fun _ => .loopbackV4) (fun _ => 1400) 0 fun _ => {} : Duplex ℚ)
      meeting).ends .server).session.isConnected = true := by decide +kernel
  refine ⟨hconnected, ?_⟩
  exact (connected_agreed (fun _ => 0) (fun _ => .loopbackV4) (fun _ => 1400) (fun _ => by decide) 0 (fun _ => {})
    meeting (by simp [meeting, Op.app])).2 hconnected

/-! ## Pings -/

/-- In every run in which the applications queue no pings and pongs themselves: a pong that one side handles was
queued by the other side for a ping that came from the first, with the time that the first put in it. -/
theorem pong_pinged (start : SessionRole → Instant) (peer : SessionRole → SocketAddr) (mtu : SessionRole → Nat)
    (hmtu : ∀ side, 576 ≤ mtu side) (now : Instant) (config : SessionRole → SessionConfig) (ops : List Op)
    (happ : ∀ op ∈ ops, ∀ pkt ∈ op.app, pkt.Countable ∧ pkt.id ∉ ([0x00, 0x03] : List UInt8)) (before : List Step)
    (side : SessionRole) (pong : ConnectedPong)
    (hpong : before ++ [(side, .handled (.connectedPong pong))] <+:
      (Machine.run (step start) (new peer mtu now config : Duplex F) ops).history) :
    [(side, .queued (.connectedPing ⟨pong.pingTime⟩)), (side.other, .handled (.connectedPing ⟨pong.pingTime⟩)),
      (side.other, .queued (.connectedPong pong))] <+ before := by
  have hx : Inv (Machine.run (step start) (new peer mtu now config : Duplex F) ops) :=
    (Inv.new peer hmtu now config).run ops fun op hop pkt hpkt => (happ op hop pkt hpkt).1
  have h :
      Traced (config .client).guid [0x00, 0x03] (Machine.run (step start) (new peer mtu now config : Duplex F) ops) :=
    (Traced.new _ peer mtu now config).run ops fun op hop pkt hpkt => (happ op hop pkt hpkt).2
  obtain ⟨earlier, hqueued, hcause⟩ := h.handled_caused hx hpong (by simp [RaknetPacket.id])
  obtain ⟨⟨time⟩, hping, htime⟩ := hcause.of_pong
  obtain ⟨before', hbefore'⟩ := exists_front hping
  have hfront := hbefore'.trans ((List.prefix_append _ _).trans (hqueued.trans ((List.prefix_append _ _).trans hpong)))
  obtain ⟨earlier', hqueued', -⟩ := h.handled_caused hx hfront (by simp [RaknetPacket.id])
  have hsteps := (sublist_two (List.nil_sublist earlier') hqueued' hbefore').append (List.Sublist.refl
    [(side.other, Entry.queued (.connectedPong pong))])
  have hother : side.other.other = side := by cases side <;> rfl
  rw [hother, ← show pong.pingTime = time from htime] at hsteps
  exact hsteps.trans hqueued.sublist

/-- The server pings, and the pong arrives. -/
def pinging : List Op :=
  meeting ++
    [.act .server (.onTick 7000000 (.stored _)) nofun, .act .server (.buildDatagram 7000000) nofun,
    .deliver .client 2 8000000, .act .client (.buildDatagram 9000000) nofun, .deliver .server 2 0]

theorem pong_pinged_pinging :
    [((.server, .queued (.connectedPing ⟨7⟩)) : Step), (.client, .handled (.connectedPing ⟨7⟩)),
      (.client, .queued (.connectedPong ⟨7, 8⟩))] <+
    (Machine.run (step fun _ => 0) (new (fun _ => .loopbackV4) (fun _ => 1400) 0 fun _ => {} : Duplex ℚ)
      pinging).history.take 9 :=
  pong_pinged (F := ℚ) (fun _ => 0) (fun _ => .loopbackV4) (fun _ => 1400) (fun _ => by decide) 0 (fun _ => {}) pinging
    (by simp [pinging, meeting, Op.app]) _ .server ⟨7, 8⟩ (by decide +kernel)

end BedrockRs.Raknet.Duplex

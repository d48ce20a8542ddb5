/-
What an acknowledgement is worth, end to end. Between a client and a server as in `Delivery.Duplex`, an
ACK that comes in names only numbers of datagrams that the other side has accepted: the sessions queue no
ACKs as packets, each acknowledges what it accepted, and the network makes nothing up. As long as the
numbers have not come round, the number tells the datagram. So a datagram with a reliable packet stays
tracked, and is sent again, until the other side has accepted it or the sender has given it up
(`tracked_until_accepted`).
-/
import BedrockRs.Raknet.Delivery.Agreement
import BedrockRs.Raknet.Session.AckSound
import BedrockRs.Raknet.Session.Issued

namespace BedrockRs.Raknet

open Lib
open scoped List

/-! ## Payloads without acknowledgements -/

namespace Session

variable {F : Type} {K : RaknetPacket → Prop} (hK : ∀ payload, ¬ K (.encapsulatedAck payload))
include hK

theorem decodeAndPush_incomingAcks {r : Session F} {enc : EncapsulatedPacket} (h : Decodes K enc.payload) :
    (r.decodeAndPush enc).2.incomingAcks = r.incomingAcks := by
  unfold decodeAndPush
  split
  · rfl
  · rename_i payload hdecode
    exact absurd (h _ hdecode) (hK payload)
  · rfl
  · rfl

theorem decodeAll_incomingAcks : ∀ {pkts : List EncapsulatedPacket} {r : Session F}, (∀ p ∈ pkts, Decodes K p.payload) →
    (r.decodeAll pkts).2.incomingAcks = r.incomingAcks
  | [], _, _ => rfl
  | pkt :: pkts, r, h => by
    have hfirst := decodeAndPush_incomingAcks hK (r := r) (h pkt (List.mem_cons_self ..))
    unfold decodeAll
    rcases hpush : r.decodeAndPush pkt with ⟨e | out, r'⟩
    · rw [hpush] at hfirst
      exact hfirst
    · rw [hpush] at hfirst
      have hrest := decodeAll_incomingAcks (r := r') fun p hp => h p (List.mem_cons_of_mem _ hp)
      dsimp only
      rcases hall : r'.decodeAll pkts with ⟨e | out', r''⟩
      · rw [hall] at hrest
        exact hrest.trans hfirst
      · rw [hall] at hrest
        exact hrest.trans hfirst

theorem Holds.deliver_incomingAcks {r : Session F} (h : Holds K r) {enc : EncapsulatedPacket}
    (henc : Decodes K enc.payload) : (r.deliver enc).2.incomingAcks = r.incomingAcks := by
  unfold Session.deliver
  split
  · obtain ⟨-, hready⟩ := h.buffered.handleOrdered henc
    unfold Session.handleOrdered
    dsimp only
    split
    · rename_i ready hr
      exact decodeAll_incomingAcks hK (hready ready hr)
    · rfl
  · exact decodeAndPush_incomingAcks hK henc

theorem Holds.handleEncapsulated_incomingAcks {r : Session F} (h : Holds K r) {p : EncapsulatedPacket}
    (hp : p.Genuine K) (now : Instant) : (r.handleEncapsulated p now).2.incomingAcks = r.incomingAcks := by
  obtain ⟨hparts, hassembled⟩ := h.parts.add hp now
  have hcases := r.handleEncapsulated_cases p now
  generalize r.handleEncapsulated p now = res at hcases
  cases hcases with
  | seen => rfl
  | refused _ => rfl
  | pending _ _ => rfl
  | @delivered enc a _ hadd =>
    rw [hadd] at hparts hassembled
    have hadded : Holds K { r with splitAssembler := a } := ⟨hparts, h.buffered⟩
    have hcommitted : Holds K (commitIndex { r with splitAssembler := a } (filterIndex p)) ∧
        (commitIndex { r with splitAssembler := a } (filterIndex p)).incomingAcks = r.incomingAcks := by
      cases filterIndex p with
      | none => exact ⟨hadded, rfl⟩
      | some idx => exact ⟨hadded.of_same rfl rfl, rfl⟩
    exact (hcommitted.1.deliver_incomingAcks hK (hassembled enc rfl)).trans hcommitted.2

/-- Frames that decode to no ACK bring no ACKs. -/
theorem Holds.handleDataPayload_incomingAcks (now : Instant) :
    ∀ {packets : List EncapsulatedPacket} {r : Session F}, Holds K r → (∀ p ∈ packets, p.Genuine K) →
      (r.handleDataPayload packets now).2.incomingAcks = r.incomingAcks
  | [], _, _, _ => rfl
  | p :: rest, r, h, hpackets => by
    have hp := hpackets p (List.mem_cons_self ..)
    have hacks := h.handleEncapsulated_incomingAcks hK hp now
    have hfirst := (h.handleEncapsulated hp now).1
    rcases hres : r.handleEncapsulated p now with ⟨e | out, r'⟩
    · rw [hres] at hacks
      rw [handleDataPayload_cons_error rest hres]
      exact hacks
    · rw [hres] at hacks hfirst
      rw [handleDataPayload_cons_ok rest hres]
      exact (hfirst.handleDataPayload_incomingAcks now fun q hq => hpackets q (List.mem_cons_of_mem _ hq)).trans hacks

end Session

namespace Duplex

open ManagedSession

variable {F : Type} [Float64 F]

/-! ## The ledger -/

/-- The call that an operation makes, and the side that makes it. -/
def call (x : Duplex F) : Op → Option (SessionRole × ManagedSession.Op)
  | .act side op _ => some (side, op)
  | .deliver side i now => (x.ends side.other).sent[i]?.map fun d => (side, .handleDatagram d now)

variable (start : SessionRole → Instant)

/-- What an operation adds to the ledger. -/
def booked (x : Duplex F) (op : Op) : List (SessionRole × DatagramEvent) :=
  (x.call op).toList.flatMap fun (side, op) => ((x.ends side).session.datagramEvents (start side) op).map (side, ·)

/-- The ledger of both sides: which datagrams were built, accepted and given up in a run. -/
def ledger (x : Duplex F) (ops : List Op) : List (SessionRole × DatagramEvent) :=
  Machine.outputs (step start) (booked start) x ops

/-- The datagrams that one side has built. -/
def builtBy (side : SessionRole) (log : List (SessionRole × DatagramEvent)) : List Datagram :=
  log.filterMap fun
    | (side', .built d) => if side' = side then some d else none
    | _ => none

variable {start} {x : Duplex F} {side : SessionRole} {log more : List (SessionRole × DatagramEvent)}

theorem step_call (op : Op) : x.step start op = match x.call op with
    | none => x
    | some (side, op) => x.perform start side op := by
  cases op with
  | act side op _ => rfl
  | deliver side i now =>
    simp only [step, call]
    cases (x.ends side.other).sent[i]? <;> rfl

theorem builtBy_append : builtBy side (log ++ more) = builtBy side log ++ builtBy side more := List.filterMap_append ..

theorem mem_builtBy {d : Datagram} : d ∈ builtBy side log ↔ (side, .built d) ∈ log := by
  unfold builtBy
  rw [List.mem_filterMap]
  constructor
  · rintro ⟨⟨side', e⟩, he, hd⟩
    cases e with
    | built d' =>
      simp only [Option.ite_none_right_eq_some, Option.some.injEq] at hd
      obtain ⟨rfl, rfl⟩ := hd
      exact he
    | accepted | gaveUp => cases hd
  · intro h
    exact ⟨_, h, by simp⟩

theorem builtBy_append_of_notMem (h : ∀ d, (side, .built d) ∉ more) :
    builtBy side (log ++ more) = builtBy side log := by
  have hmore : builtBy side more = [] := List.eq_nil_iff_forall_not_mem.2 fun d hd => h d (mem_builtBy.1 hd)
  rw [builtBy_append, hmore, List.append_nil]

/-- Every number that the ranges enumerate is that of a datagram the side has accepted. -/
def Acks (log : List (SessionRole × DatagramEvent)) (side : SessionRole) (ranges : List SequenceRange) : Prop :=
  ∀ r ∈ ranges, ∀ seq ∈ r.sequences, ∃ d, (side, .accepted d) ∈ log ∧ d.header.sequence = seq

theorem Acks.mono {ranges : List SequenceRange} (h : Acks log side ranges) (more : List (SessionRole × DatagramEvent)) :
    Acks (log ++ more) side ranges := by
  intro r hr seq hseq
  obtain ⟨d, hd, heq⟩ := h r hr seq hseq
  exact ⟨d, List.mem_append_left _ hd, heq⟩

theorem Acks.append {ranges ranges' : List SequenceRange} (h : Acks log side ranges) (h' : Acks log side ranges') :
    Acks log side (ranges ++ ranges') :=
  fun r hr => (List.mem_append.1 hr).elim (h r) (h' r)

/-- The books of one side, whose inner session is `s` and which has put out `sent`. -/
structure Books (log : List (SessionRole × DatagramEvent)) (side : SessionRole) (s : Session F) (sent : List Datagram) :
    Prop where
  issues : s.Issues (builtBy side log)
  issued : ∀ d ∈ sent, d.isData = true → d ∈ builtBy side log
  owed : Acks log side s.outgoingAcks.queue
  told : ∀ d ∈ sent, ∀ payload, d.payload = .ack payload → Acks log side payload.ranges
  heard : Acks log side.other s.incomingAcks
  accepted : ∀ d, (side, .accepted d) ∈ log → d ∈ builtBy side.other log
  kept : ∀ d ∈ builtBy side log, Session.hasReliable d = true →
    some d ∈ s.tracked ∨ (side.other, .accepted d) ∈ log ∨ (side, .gaveUp d) ∈ log

namespace Books

variable {s s' : Session F} {sent : List Datagram}

omit [Float64 F] in
theorem accepted_append (h : Books log side s sent)
    (hmore : ∀ d, (side, .accepted d) ∈ more → d ∈ builtBy side.other log) (d : Datagram)
    (hd : (side, .accepted d) ∈ log ++ more) : d ∈ builtBy side.other (log ++ more) := by
  rw [builtBy_append]
  rcases List.mem_append.1 hd with hd | hd
  · exact List.mem_append_left _ (h.accepted d hd)
  · exact List.mem_append_left _ (hmore d hd)

omit [Float64 F] in
theorem told_append (h : Books log side s sent) (more : List (SessionRole × DatagramEvent)) {new : List Datagram}
    (hnew : ∀ d ∈ new, ∀ payload, d.payload = .ack payload → Acks log side payload.ranges) :
    ∀ d ∈ sent ++ new, ∀ payload, d.payload = .ack payload → Acks (log ++ more) side payload.ranges := by
  intro d hd payload hp
  rcases List.mem_append.1 hd with hd | hd
  · exact (h.told d hd payload hp).mono more
  · exact (hnew d hd payload hp).mono more

omit [Float64 F] in
/-- What was accepted or given up stays so: a step has to answer for the tracked datagrams only. -/
theorem kept_append (h : Books log side s sent) (more : List (SessionRole × DatagramEvent)) {d : Datagram} {P : Prop}
    (hd : d ∈ builtBy side log) (hrel : Session.hasReliable d = true)
    (htracked : some d ∈ s.tracked → P ∨ (side.other, .accepted d) ∈ log ++ more ∨ (side, .gaveUp d) ∈ log ++ more) :
    P ∨ (side.other, .accepted d) ∈ log ++ more ∨ (side, .gaveUp d) ∈ log ++ more := by
  rcases h.kept d hd hrel with hd | hd | hd
  · exact htracked hd
  · exact .inr (.inl (List.mem_append_left _ hd))
  · exact .inr (.inr (List.mem_append_left _ hd))

omit [Float64 F] in
/-- A step that leaves the tracked datagrams alone and builds none. -/
theorem extend (h : Books log side s sent) (hqueue : s.SameQueue s')
    (hwrite : s'.datagramWriteIndex = s.datagramWriteIndex) (hbuilt : ∀ d, (side, .built d) ∉ more)
    (haccepted : ∀ d, (side, .accepted d) ∈ more → d ∈ builtBy side.other log)
    (howed : Acks (log ++ more) side s'.outgoingAcks.queue) (hheard : Acks (log ++ more) side.other s'.incomingAcks) :
    Books (log ++ more) side s' sent := by
  have hsame : builtBy side (log ++ more) = builtBy side log := builtBy_append_of_notMem hbuilt
  refine ⟨?_, ?_, howed, fun d hd payload hp => (h.told d hd payload hp).mono _, hheard, h.accepted_append haccepted,
    fun d hd hrel => ?_⟩
  · rw [hsame]
    exact h.issues.of_same hqueue hwrite
  · rw [hsame]
    exact h.issued
  · rw [hsame] at hd
    exact h.kept_append more hd hrel fun htracked => .inl (hqueue.1 ▸ htracked)

omit [Float64 F] in
/-- Packets that are queued are in no book. -/
theorem queue (h : Books log side s sent) (hsame : s.SameButQueue s') : Books log side s' sent := by
  obtain ⟨_, _, _, _, _, _, rfl⟩ := hsame
  exact ⟨h.issues.of_same ⟨rfl, rfl, rfl⟩ rfl, h.issued, h.owed, h.told, h.heard, h.accepted, h.kept⟩

omit [Float64 F] in
/-- The other side's events. -/
theorem other (h : Books log side s sent) {side' : SessionRole} (hside : side ≠ side') (events : List DatagramEvent) :
    Books (log ++ events.map (side', ·)) side s sent := by
  have hnot : ∀ event, (side, event) ∉ events.map (side', ·) := by
    intro event he
    obtain ⟨_, -, heq⟩ := List.mem_map.1 he
    exact hside (Prod.mk.inj heq).1.symm
  exact h.extend (.refl s) rfl (fun _ => hnot _) (fun d hd => absurd hd (hnot _)) (h.owed.mono _) (h.heard.mono _)

theorem build (h : Books log side s sent) (now : Instant)
    (hn : (builtBy side log).length + ((s.buildDataDatagram now).1.toList).length < 2 ^ 24) :
    Books (log ++ ((s.buildDataDatagram now).1.toList.map fun o => DatagramEvent.built o.asRef).map (side, ·)) side
      (s.buildDataDatagram now).2 (sent ++ (s.buildDataDatagram now).1.toList.map OutgoingDatagram.asRef) := by
  have hbuilt :
    builtBy side (log ++ ((s.buildDataDatagram now).1.toList.map fun o => DatagramEvent.built o.asRef).map (side, ·)) =
      builtBy side log ++ (s.buildDataDatagram now).1.toList.map OutgoingDatagram.asRef := by
    rw [builtBy_append]
    cases (s.buildDataDatagram now).1 <;> simp [builtBy]
  have hkept : (s.buildDataDatagram now).2.outgoingAcks = s.outgoingAcks ∧
      (s.buildDataDatagram now).2.incomingAcks = s.incomingAcks := by
    obtain ⟨_, _, _, _, hframe⟩ := s.buildDataDatagram_frame now
    rw [hframe]
    exact ⟨rfl, rfl⟩
  have hdata : ∀ o ∈ (s.buildDataDatagram now).1.toList, o.asRef.isData = true :=
    fun o ho => (Session.buildDataDatagram_built (Option.mem_toList.1 ho)).1
  refine ⟨?_, ?_, ?_, ?_, ?_, ?_, ?_⟩
  · rw [hbuilt]
    exact h.issues.build now hn
  · rw [hbuilt]
    intro d hd hisdata
    rcases List.mem_append.1 hd with hd | hd
    · exact List.mem_append_left _ (h.issued d hd hisdata)
    · exact List.mem_append_right _ hd
  · rw [hkept.1]
    exact h.owed.mono _
  · refine h.told_append _ fun d hd payload hp => ?_
    obtain ⟨o, ho, rfl⟩ := List.mem_map.1 hd
    have hisdata := hdata o ho
    rw [Datagram.isData, hp] at hisdata
    cases hisdata
  · rw [hkept.2]
    exact h.heard.mono _
  · exact h.accepted_append (by simp)
  · rw [hbuilt]
    intro d hd hrel
    rcases List.mem_append.1 hd with hd | hd
    · exact h.kept_append _ hd hrel fun htracked => .inl (h.issues.tracked_build now htracked)
    · obtain ⟨o, ho, rfl⟩ := List.mem_map.1 hd
      exact .inl ((Session.buildDataDatagram_built (Option.mem_toList.1 ho)).2.2 hrel)

/-- A tick: what an ACK took out of its slot, the other side has accepted. -/
theorem tick (h : Books log side s sent) (hother : ∀ d, (side.other, .accepted d) ∈ log → d ∈ builtBy side log)
    (now : Instant) (iter : IterOrder SplitEntries.Item) :
    Books (log ++ ((s.gaveUp now).map DatagramEvent.gaveUp).map (side, ·)) side (s.onTick now iter).2
      (sent ++ (s.onTick now iter).1.map OutgoingDatagram.asRef) := by
  have hbuilt : builtBy side (log ++ ((s.gaveUp now).map DatagramEvent.gaveUp).map (side, ·)) = builtBy side log :=
    builtBy_append_of_notMem (by simp)
  refine ⟨?_, ?_, ?_, ?_, ?_, ?_, ?_⟩
  · rw [hbuilt]
    exact h.issues.onTick now iter
  · rw [hbuilt]
    intro d hd hdata
    rcases List.mem_append.1 hd with hd | hd
    · exact h.issued d hd hdata
    · obtain ⟨o, ho, rfl⟩ := List.mem_map.1 hd
      rcases Session.onTick_data ho with hcontrol | htracked
      · rw [hcontrol] at hdata
        cases hdata
      · exact h.issues.tracked _ htracked
  · rw [Session.onTick_outgoingAcks]
    intro r hr
    refine (h.owed.mono _) r ?_
    rw [← AckQueue.popForMtu_append s.outgoingAcks s.mtu Session.ackOverhead]
    exact List.mem_append_right _ hr
  · refine h.told_append _ fun d hd payload hp r hr => ?_
    obtain ⟨o, ho, rfl⟩ := List.mem_map.1 hd
    exact h.owed r (Session.onTick_ack_ranges h.issues.queue ho hp r hr)
  · have hnone : (s.onTick now iter).2.incomingAcks = [] := by
      obtain ⟨_, _, htick⟩ := s.onTick_state now iter
      obtain ⟨_, _, _, hafter⟩ := s.afterResends_frame now iter
      rw [htick, hafter]
    rw [hnone]
    intro r hr
    cases hr
  · exact h.accepted_append (by simp)
  · rw [hbuilt]
    intro d hd hrel
    refine h.kept_append _ hd hrel fun htracked => ?_
    rcases h.issues.queue.tracked_onTick now iter htracked with hkept | ⟨r, hr, hseq⟩ | hgone
    · exact .inl hkept
    · -- the number that the ACK names is that of this datagram only
      obtain ⟨d', hd', heq⟩ := h.heard r hr _ hseq
      obtain rfl := h.issues.inj (hother d' hd') hd heq
      exact .inr (.inl (List.mem_append_left _ hd'))
    · exact .inr (.inr (List.mem_append_right _ (List.mem_map_of_mem (List.mem_map_of_mem hgone))))

omit [Float64 F] in
/-- A datagram that arrives: its number is acknowledged only if it is accepted. -/
theorem takeIn (h : Books log side s sent) {K : RaknetPacket → Prop} (hK : ∀ payload, ¬ K (.encapsulatedAck payload))
    (hholds : s.Holds K) {d : Datagram} (hgenuine : ∀ p ∈ d.packets, p.Genuine K)
    (hissued : d.isData = true → d ∈ builtBy side.other log)
    (htold : ∀ payload, d.payload = .ack payload → Acks log side.other payload.ranges) (now : Instant) :
    Books
    (log ++
      (if d.isData = true ∧ (s.handleDataPayload d.packets now).1.isOk = true then [DatagramEvent.accepted d]
        else []).map (side, ·)) side (takenIn s d now) sent := by
  obtain ⟨header, payload⟩ := d
  cases payload with
  | nak payload =>
    rw [if_neg (by simp [Datagram.isData]), List.map_nil, List.append_nil]
    exact ⟨h.issues.of_same ⟨rfl, rfl, rfl⟩ rfl, h.issued, h.owed, h.told, h.heard, h.accepted, h.kept⟩
  | ack payload =>
    rw [if_neg (by simp [Datagram.isData]), List.map_nil, List.append_nil]
    exact ⟨h.issues.of_same ⟨rfl, rfl, rfl⟩ rfl, h.issued, h.owed, h.told, h.heard.append (htold payload rfl),
      h.accepted, h.kept⟩
  | encapsulatedPackets packets =>
    have hacks : (s.handleDataPayload packets now).2.incomingAcks = s.incomingAcks :=
      hholds.handleDataPayload_incomingAcks hK now hgenuine
    obtain ⟨hqueue, hwrite, howed⟩ : s.SameQueue (s.handleDataPayload packets now).2 ∧
        (s.handleDataPayload packets now).2.datagramWriteIndex = s.datagramWriteIndex ∧
        (s.handleDataPayload packets now).2.outgoingAcks = s.outgoingAcks := by
      obtain ⟨_, _, _, _, _, hframe⟩ := Session.handleDataPayload_same packets s now
      rw [hframe]
      exact ⟨⟨rfl, rfl, rfl⟩, rfl, rfl⟩
    rw [takenIn_packets]
    by_cases hok : (s.handleDataPayload packets now).1.isOk = true
    · rw [if_pos hok, if_pos ⟨rfl, hok⟩]
      obtain ⟨_, _, hprocess⟩ := (s.handleDataPayload packets now).2.processDatagramSequence_frame header.sequence
      rw [hprocess]
      refine h.extend ⟨hqueue.1, hqueue.2.1, hqueue.2.2⟩ hwrite (by simp) ?_ ?_ ?_
      · intro d hd
        rw [List.map_singleton, List.mem_singleton] at hd
        cases hd
        exact hissued rfl
      · intro r hr seq hseq
        rw [howed] at hr
        rcases AckQueue.push_singleton_sequences s.outgoingAcks header.sequence hr hseq with ⟨r', hr', hseq'⟩ | rfl
        · exact h.owed.mono _ r' hr' seq hseq'
        · exact ⟨_, List.mem_append_right _ (List.mem_singleton_self _), rfl⟩
      · rw [hacks]
        exact h.heard.mono _
    · rw [if_neg hok, if_neg fun hboth => hok hboth.2]
      refine h.extend hqueue hwrite (by simp) (by simp) ?_ ?_
      · rw [howed]
        exact h.owed.mono _
      · rw [hacks]
        exact h.heard.mono _

end Books

/-! ## Runs -/

variable {guid : UInt64}

omit [Float64 F] in
/-- No ACK is under way as a packet: the applications queue none, and the sessions never do. -/
theorem Traced.no_ack (h : Traced guid [0xc0] x) (side : SessionRole) (payload : AckNackPayload) :
    ¬ Offered x.history side (.encapsulatedAck payload) := by
  rintro ⟨pkt, hqueued, hcomes⟩
  obtain ⟨before, hbefore⟩ := exists_front hqueued
  have hid : pkt.id = 0xc0 := hcomes.id_eq.symm
  have hcause := h.caused before _ hbefore pkt rfl (List.mem_singleton.2 hid)
  cases hcause <;> simp [RaknetPacket.id, farewell] at hid

/-- The books of both sides. -/
def Balanced (log : List (SessionRole × DatagramEvent)) (x : Duplex F) : Prop :=
  ∀ side, Books log side (x.ends side).session.inner (x.ends side).sent

/-- The side that makes a call. -/
theorem Balanced.moved (h : Balanced log x) (hx : Inv x) (ht : Traced guid [0xc0] x) {op : ManagedSession.Op}
    (hsent : ∀ d now, op = .handleDatagram d now → d ∈ (x.ends side.other).sent)
    (hn : (builtBy side (log ++ ((x.ends side).session.datagramEvents (start side) op).map (side, ·))).length <
      2 ^ 24) :
    Books (log ++ ((x.ends side).session.datagramEvents (start side) op).map (side, ·)) side
      ((x.ends side).session.moved (start side) op)
      ((x.ends side).sent ++ ((x.ends side).session.emitted (start side) op).map OutgoingDatagram.asRef) := by
  have hbooks := h side
  have hother : side.other.other = side := by cases side <;> rfl
  generalize hm : (x.ends side).session = m at *
  cases op with
  | buildDatagram now =>
    rw [datagramEvents, m.buildDatagram_out now] at hn ⊢
    rw [emitted, m.buildDatagram_out now]
    refine hbooks.build now ?_
    rw [builtBy_append, List.length_append] at hn
    refine lt_of_eq_of_lt (congrArg _ ?_) hn
    cases (m.inner.buildDataDatagram now).1 <;> simp [builtBy]
  | onTick now iter =>
    rw [emitted, (m.onTick_eq (start side) now iter).1]
    refine (hbooks.queue (m.beforeTick_same (start side) now)).tick (fun d hd => ?_) now iter
    have haccepted := (h side.other).accepted d hd
    rwa [hother] at haccepted
  | handleDatagram d now =>
    have hd := hsent d now rfl
    simp only [emitted, List.map_nil, List.append_nil, datagramEvents, ManagedSession.moved]
    by_cases hclosed : m.state = .closed
    · rw [if_pos hclosed, if_neg fun hall => hall.1 hclosed, List.map_nil, List.append_nil]
      exact hbooks
    · have hok : (m.handleDatagram (start side) d now).1.isOk = (m.inner.handleDataPayload d.packets now).1.isOk := by
        rw [(handleDatagram_open (P := fun _ => True) (fun _ _ => trivial) (start side) hclosed d now).1]
        cases (m.inner.handleDataPayload d.packets now).1 <;> rfl
      rw [if_neg hclosed]
      simp only [hok, ne_eq, hclosed, not_false_eq_true, true_and]
      have hholds := hx.holds side
      rw [hm] at hholds
      exact hbooks.takeIn (ht.no_ack side.other) hholds (hx.sent side.other d hd) ((h side.other).issued d hd)
        ((h side.other).told d hd) now
  | _ =>
    simp only [emitted, datagramEvents, List.map_nil, List.append_nil]
    exact hbooks

theorem Balanced.perform (h : Balanced log x) (hx : Inv x) (ht : Traced guid [0xc0] x) {op : ManagedSession.Op}
    (hsent : ∀ d now, op = .handleDatagram d now → d ∈ (x.ends side.other).sent)
    (hn : (builtBy side (log ++ ((x.ends side).session.datagramEvents (start side) op).map (side, ·))).length <
      2 ^ 24) :
    Balanced (log ++ ((x.ends side).session.datagramEvents (start side) op).map (side, ·))
    (x.perform start side op) := by
  intro side'
  by_cases hside : side' = side
  · subst hside
    simp only [Duplex.perform, Function.update_self]
    exact (h.moved hx ht hsent hn).queue ((x.ends side').session.step_moved (start side') op)
  · simp only [Duplex.perform, Function.update_of_ne hside]
    exact (h side').other hside _

theorem Balanced.step (h : Balanced log x) (hx : Inv x) (ht : Traced guid [0xc0] x) (op : Op)
    (hn : ∀ side, (builtBy side (log ++ booked start x op)).length < 2 ^ 24) :
    Balanced (log ++ booked start x op) (x.step start op) := by
  rw [step_call]
  unfold booked at hn ⊢
  cases hcall : x.call op with
  | none =>
    rw [Option.toList_none, List.flatMap_nil, List.append_nil]
    exact h
  | some call =>
    obtain ⟨side, op'⟩ := call
    rw [hcall] at hn
    simp only [Option.toList_some, List.flatMap_cons, List.flatMap_nil, List.append_nil] at hn ⊢
    refine h.perform hx ht (fun d now heq => ?_) (hn side)
    cases op with
    | act side op hop =>
      cases hcall
      exact absurd heq (hop d now)
    | deliver side i now =>
      obtain ⟨d', hd', heq'⟩ := Option.map_eq_some_iff.1 hcall
      cases heq'
      cases heq
      exact List.mem_of_getElem? hd'

theorem Balanced.new (peer : SessionRole → SocketAddr) (mtu : SessionRole → Nat) (now : Instant)
    (config : SessionRole → SessionConfig) : Balanced [] (Duplex.new peer mtu now config : Duplex F) := by
  intro side
  refine ⟨.new (mtu side) _, by simp [Duplex.new], ?_, by simp [Duplex.new], ?_, by simp, by simp [builtBy]⟩
  · intro r hr
    simp [Duplex.new, ManagedSession.withConfig, Session.withTunables, AckQueue.new] at hr
  · intro r hr
    simp [Duplex.new, ManagedSession.withConfig, Session.withTunables] at hr

/-- The books of a run, as long as the numbers have not come round on either side. -/
theorem Balanced.run (h : Balanced [] x) (hx : Inv x) (ht : Traced guid [0xc0] x) {ops : List Op}
    (happ : ∀ op ∈ ops, ∀ pkt ∈ op.app, pkt.Countable ∧ pkt.id ≠ 0xc0)
    (hbuilt : ∀ side, (builtBy side (ledger start x ops)).length < 2 ^ 24) :
    Balanced (ledger start x ops) (Machine.run (Duplex.step start) x ops) := by
  have hrun : Inv (Machine.run (Duplex.step start) x ops) ∧ Traced guid [0xc0] (Machine.run (Duplex.step start) x ops) ∧
      ((∀ side, (builtBy side ([] ++ ledger start x ops)).length < 2 ^ 24) →
        Balanced ([] ++ ledger start x ops) (Machine.run (Duplex.step start) x ops)) := by
    refine Machine.run_inv_outputs (C := fun _ op => ∀ pkt ∈ op.app, pkt.Countable ∧ pkt.id ≠ 0xc0)
      (P := fun log (x : Duplex F) => Inv x ∧ Traced guid [0xc0] x ∧
        ((∀ side, (builtBy side log).length < 2 ^ 24) → Balanced log x))
      ?_ ops [] ⟨hx, ht, fun _ => h⟩ (Machine.along_of_forall happ x)
    rintro log x op ⟨hx, ht, h⟩ hop
    refine ⟨hx.step op fun pkt hpkt => (hop pkt hpkt).1, ht.step op fun pkt hpkt => ?_, fun hn => ?_⟩
    · rw [List.mem_singleton]
      exact (hop pkt hpkt).2
    · -- fewer were built before the step
      refine (h fun side' => ?_).step hx ht op hn
      have hlen := hn side'
      rw [builtBy_append, List.length_append] at hlen
      omega
  exact hrun.2.2 hbuilt

/-- In every run in which neither side builds `2 ^ 24` datagrams and the applications queue no ACKs as packets:
a datagram with a reliable packet that one side has built is tracked there, to be sent again, or the other side
has accepted it, or a tick has given it up. -/
theorem tracked_until_accepted (start : SessionRole → Instant) (peer : SessionRole → SocketAddr)
    (mtu : SessionRole → Nat) (hmtu : ∀ side, 576 ≤ mtu side) (now : Instant) (config : SessionRole → SessionConfig)
    (ops : List Op) (happ : ∀ op ∈ ops, ∀ pkt ∈ op.app, pkt.Countable ∧ pkt.id ≠ 0xc0)
    (hbuilt : ∀ side, (builtBy side (ledger start (new peer mtu now config : Duplex F) ops)).length < 2 ^ 24)
    (side : SessionRole) (d : Datagram) (hd : (side, .built d) ∈ ledger start (new peer mtu now config : Duplex F) ops)
    (hrel : Session.hasReliable d = true) :
    some d ∈ ((Machine.run (step start) (new peer mtu now config : Duplex F) ops).ends side).session.inner.tracked ∨
      (side.other, .accepted d) ∈ ledger start (new peer mtu now config : Duplex F) ops ∨
      (side, .gaveUp d) ∈ ledger start (new peer mtu now config : Duplex F) ops := by
  have hbalanced :=
    (Balanced.new peer mtu now config).run (Inv.new peer hmtu now config) (Traced.new _ peer mtu now config) happ hbuilt
  exact (hbalanced side).kept d (mem_builtBy.2 hd) hrel

/-- The client's first datagram arrives, and the server acknowledges it. -/
def acknowledging : List Op :=
  [.act .client (.startClientHandshake 1 0 false) (by simp), .act .client (.buildDatagram 0) (by simp),
    .deliver .server 0 0, .act .server (.onTick 0 (.stored _)) (by simp), .deliver .client 0 0,
    .act .client (.onTick 0 (.stored _)) (by simp)]

/-- That datagram. -/
def firstDatagram : Datagram :=
  ⟨⟨DatagramFlags.valid.or .hasBAndAs, Sequence24.new 0⟩, .encapsulatedPackets
    [Session.singleEncap (RaknetPacket.connectionRequest ⟨0, 0, false⟩).bytes .reliable 0 (some (Sequence24.new 0))
      none]⟩

theorem tracked_until_accepted_acknowledging :
    some firstDatagram ∈
      ((Machine.run (step fun _ => 0) (new (fun _ => .loopbackV4) (fun _ => 1400) 0 fun _ => {} : Duplex ℚ)
        acknowledging).ends .client).session.inner.tracked ∨
      (SessionRole.server, .accepted firstDatagram) ∈
        ledger (fun _ => 0) (new (fun _ => .loopbackV4) (fun _ => 1400) 0 fun _ => {} : Duplex ℚ) acknowledging ∨
      (SessionRole.client, .gaveUp firstDatagram) ∈
        ledger (fun _ => 0) (new (fun _ => .loopbackV4) (fun _ => 1400) 0 fun _ => {} : Duplex ℚ) acknowledging :=
  tracked_until_accepted (F := ℚ) (fun _ => 0) (fun _ => .loopbackV4) (fun _ => 1400) (fun _ => by decide) 0
    (fun _ => {}) acknowledging (by simp [acknowledging, Op.app]) (fun side => by cases side <;> decide +kernel) .client
    firstDatagram (by decide +kernel) (by decide +kernel)

end Duplex

end BedrockRs.Raknet

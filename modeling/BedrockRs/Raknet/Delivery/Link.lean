/-
A sending and a receiving session over a network that may drop, duplicate, delay and reorder
datagrams, but not alter them: any datagram put out so far may arrive at any time, any number of
times. What comes out of an ordering channel is a subsequence of what was queued on it
(`returned_sublist_queued`), as long as the parts of a queued message can be counted in the 32 bits
they are counted in.
-/
import BedrockRs.Raknet.Delivery.Ordered

namespace BedrockRs.Raknet

open Lib
open scoped List

/-- The sender, the receiver, and the packets the receiver has returned. -/
structure Link (F : Type) where
  sender : Sender F
  receiver : Session F
  returned : List IncomingPacket

namespace Link

variable {F : Type} [Float64 F]

/-- A step of either side, or the arrival of a datagram. -/
inductive Op
  | send (op : Session.Op)
  /-- The `i`-th datagram put out arrives. -/
  | deliver (i : Nat) (now : Instant)
  /-- The receiver does anything but handle a payload. -/
  | receive (op : Session.Op) (h : ∀ packets now, op ≠ .handleDataPayload packets now)

def new (mtu : Nat) (tunables : SessionTunables) (mtu' : Nat) (tunables' : SessionTunables) : Link F :=
  ⟨.new mtu tunables, Session.withTunables mtu' tunables', []⟩

/-- The receiver handles the packets of a datagram. -/
def arrive (x : Link F) (d : Datagram) (now : Instant) : Link F :=
  { x with
    receiver := (x.receiver.handleDataPayload d.packets now).2
    returned := x.returned ++ Raknet.returned (x.receiver.handleDataPayload d.packets now).1 }

def step (x : Link F) : Op → Link F
  | .send op => { x with sender := x.sender.step op }
  | .deliver i now =>
    match x.sender.sent[i]? with
    | none => x
    | some d => x.arrive d now
  | .receive op _ => { x with receiver := x.receiver.step op }

/-- A step that queues no message on channel `c` with more parts than their `u32` count holds. -/
def CountsParts (c : UInt8) (x : Link F) : Op → Prop
  | .send op => ∀ m ∈ x.sender.session.queued op, m.reliability.isOrdered = true → m.channel = c → m.CountFits
  | .deliver .. | .receive .. => True

omit [Float64 F] in
instance (c : UInt8) (x : Link F) : ∀ op, Decidable (CountsParts c x op)
  | .send _ => inferInstanceAs (Decidable (∀ m ∈ _, _ → _ → Message.CountFits m))
  | .deliver .. | .receive .. => inferInstanceAs (Decidable True)

/-! ## The invariant -/

/-- The invariant of a link, for one channel. -/
structure Inv (c : UInt8) (x : Link F) : Prop where
  sender : x.sender.Inv
  fits : ∀ m ∈ orderedOn c x.sender.log, m.CountFits
  receives : ReceivesInOrder c x.sender.log x.receiver x.returned

theorem Inv.new (c : UInt8) (mtu : Nat) (tunables : SessionTunables) (mtu' : Nat) (tunables' : SessionTunables) :
    Inv c (Link.new mtu tunables mtu' tunables' : Link F) :=
  ⟨.new mtu tunables, fun m hm => by simp [Link.new, Sender.new, orderedOn] at hm, .new c mtu' tunables'⟩

/-- The bounds on what has been queued. -/
structure Bounded (c : UInt8) (log : List Message) : Prop where
  ordered : (orderedOn c log).length < 2 ^ 23
  fragmented : fragmentedCount log < 2 ^ 16

theorem Bounded.anti {c : UInt8} {log log' : List Message} (h : Bounded c log') (hp : log <+: log') :
    Bounded c log :=
  ⟨((hp.sublist.filter _).length_le).trans_lt h.ordered, (hp.sublist.countP_le).trans_lt h.fragmented⟩

omit [Float64 F] in
theorem Inv.distinguished {c : UInt8} {x : Link F} (h : Inv c x) (hb : Bounded c x.sender.log) :
    Distinguished c x.sender.session x.sender.log :=
  ⟨h.sender.numbered, h.sender.wellFormed, hb.fragmented, hb.ordered, h.fits⟩

theorem Inv.step {c : UInt8} {x : Link F} (h : Inv c x) (hb : Bounded c x.sender.log) (op : Op)
    (hop : CountsParts c x op) : Inv c (x.step op) := by
  cases op with
  | send op =>
    refine ⟨h.sender.step op, fun m hm => ?_, h.receives.append _⟩
    rw [Link.step, Sender.step, orderedOn_append] at hm
    rcases List.mem_append.1 hm with hm | hm
    · exact h.fits m hm
    · obtain ⟨hq, hon⟩ := List.mem_filter.1 hm
      rw [Bool.and_eq_true, beq_iff_eq] at hon
      exact hop m (Option.mem_toList.1 hq) hon.1 hon.2
  | deliver i now =>
    rw [Link.step]
    split
    · exact h
    · rename_i d hd
      refine ⟨h.sender, h.fits, h.receives.handleDataPayload (h.distinguished hb) now d.packets ?_⟩
      exact h.sender.framed.sent d (List.mem_of_getElem? hd)
  | receive op hlocal => exact ⟨h.sender, h.fits, h.receives.step (h.distinguished hb) op hlocal⟩

/-! ## Runs -/

theorem log_grows : ∀ (ops : List Op) (x : Link F), x.sender.log <+: (Machine.run step x ops).sender.log
  | [], _ => List.prefix_rfl
  | op :: ops, x => by
    refine List.IsPrefix.trans ?_ (log_grows ops (x.step op))
    cases op with
    | send op => exact List.prefix_append _ _
    | deliver i now =>
      rw [step]
      split <;> exact List.prefix_rfl
    | receive op h => exact List.prefix_rfl

theorem Inv.run {c : UInt8} : ∀ (ops : List Op) {x : Link F}, Inv c x → Machine.Along Link.step (CountsParts c) x ops →
    Bounded c (Machine.run Link.step x ops).sender.log → Inv c (Machine.run Link.step x ops)
  | [], _, h, _, _ => h
  | op :: ops, x, h, hc, hb => by
    have hx : Bounded c x.sender.log := hb.anti (log_grows (op :: ops) x)
    exact Inv.run ops (h.step hx op hc.1) hc.2 hb

/-- Ordered delivery. In every run in which each message queued on channel `c` has a part count that
fits its field, with fewer than `2 ^ 23` messages queued on the channel and fewer than `2 ^ 16`
fragmented ones, the packets that came out of the channel are a subsequence of the messages queued
on it. -/
theorem returned_sublist_queued (c : UInt8) (mtu : Nat) (tunables : SessionTunables) (mtu' : Nat)
    (tunables' : SessionTunables) (ops : List Op)
    (hcount : Machine.Along step (CountsParts c) (new mtu tunables mtu' tunables' : Link F) ops)
    (hordered : (orderedOn c (Machine.run step (new mtu tunables mtu' tunables' : Link F) ops).sender.log).length <
      2 ^ 23)
    (hfragmented : fragmentedCount (Machine.run step (new mtu tunables mtu' tunables' : Link F) ops).sender.log <
      2 ^ 16) :
    (Machine.run step (new mtu tunables mtu' tunables' : Link F) ops).returned.filter (onChannel c) <+
      (orderedOn c (Machine.run step (new mtu tunables mtu' tunables' : Link F) ops).sender.log).filterMap
        Message.surfaced := by
  have hinv := (Inv.new c mtu tunables mtu' tunables').run ops hcount ⟨hordered, hfragmented⟩
  cases hch :
    (Machine.run step (new mtu tunables mtu' tunables' : Link F) ops).receiver.ordering.channels[c.toNat]? with
  | none =>
    rw [hinv.receives.absent hch]
    exact List.nil_sublist _
  | some ch =>
    obtain ⟨read, hreads⟩ := hinv.receives.channel ch hch
    exact hreads.out.trans ((List.take_sublist read _).filterMap _)

/-- Two messages are queued and sent one by one, and their datagrams arrive the other way round. -/
def swappedRun : List Op :=
  [.send (.queuePacket (.userData 0x80 [1]) .reliableOrdered 0 .normal), .send (.buildDataDatagram 0),
    .send (.queuePacket (.userData 0x80 [2]) .reliableOrdered 0 .normal), .send (.buildDataDatagram 0),
    .deliver 1 0, .deliver 0 0]

theorem returned_sublist_queued_swapped :
    (Machine.run step (new 1400 {} 1400 {} : Link ℚ) swappedRun).returned.map IncomingPacket.packet =
      [.userData 0x80 [1], .userData 0x80 [2]] ∧
    (Machine.run step (new 1400 {} 1400 {} : Link ℚ) swappedRun).returned.filter (onChannel 0) <+
      (orderedOn 0 (Machine.run step (new 1400 {} 1400 {} : Link ℚ) swappedRun).sender.log).filterMap
        Message.surfaced :=
  ⟨by decide +kernel, returned_sublist_queued 0 1400 {} 1400 {} swappedRun (by decide +kernel) (by decide +kernel)
    (by decide +kernel)⟩

end Link

/-! ## A message with too many parts -/

namespace Session

variable {F : Type} [Float64 F]

omit [Float64 F] in
/-- A frame of weight 0 stays on top while fragments are pushed. -/
theorem enqueueFragments_peek (reliability : Reliability) (channel : UInt8) (orderingIndex : Option Sequence24)
    (splitId : UInt16) (parts : Nat) (priority : RakPriority) {top : QueuedEncap} (htop : top.weight = 0) :
    ∀ (pieces : List Bytes) (i bytes : Nat) {s : Session F}, s.outgoingHeap.peek = some top →
    (enqueueFragments reliability channel orderingIndex splitId parts priority i pieces bytes s).2.outgoingHeap.peek =
      some top
  | [], _, _, _, h => h
  | piece :: rest, i, bytes, s, h => by
    unfold enqueueFragments
    rw [allocReliableIndex_eq]
    refine enqueueFragments_peek reliability channel orderingIndex splitId parts priority htop rest (i + 1) _ ?_
    exact BinaryHeap.peek_push h (by simp [QueuedEncap.le, htop])

/-- A datagram that the first frame fills. -/
theorem fillDatagram_one {mtu currentSize bw : Nat} (fuel : Nat) {heap : BinaryHeap QueuedEncap} {top : QueuedEncap}
    (hpeek : heap.peek = some top) (hbw : top.pkt.size ≤ bw) (hfits : currentSize + top.pkt.size = mtu) :
    (fillDatagram mtu (fuel + 1) heap currentSize bw).1 = [top.pkt] := by
  obtain ⟨heap', hpop⟩ := BinaryHeap.pop_of_peek QueuedEncap.le hpeek
  have hrest : (fillDatagram mtu fuel heap' (currentSize + top.pkt.size) (bw - top.pkt.size)).1 = [] := by
    cases fuel with
    | zero => rfl
    | succ fuel =>
      unfold fillDatagram
      split
      · rfl
      · rename_i next _
        have hsize : 0 < next.pkt.size := by simp only [EncapsulatedPacket.size]; omega
        split
        · rfl
        · rw [if_pos (by omega)]
  unfold fillDatagram
  simp only [hpeek]
  rw [if_neg (by omega), if_neg (by omega), hpop]
  simp only [hrest]

theorem buildDataDatagram_one {s : Session F} {weight : Nat} {p : EncapsulatedPacket}
    (hpeek : s.outgoingHeap.peek = some ⟨weight, p⟩)
    (hbw : p.size ≤ s.sliding.getTransmissionBandwidth) (hfits : 32 + p.size = s.mtu) (now : Instant) :
    ∃ o, (s.buildDataDatagram now).1 = some o ∧ o.asRef.packets = [p] := by
  obtain ⟨fuel, hfuel⟩ := BinaryHeap.len_of_peek hpeek
  have hfill := fillDatagram_one fuel hpeek hbw hfits
  rw [← hfuel] at hfill
  exact buildDataDatagram_filled hpeek hbw hfill now

end Session

namespace Link

/-- The first part of a message of `2 ^ 32 + 1` parts, as it is sent at an MTU of 576: its count
field says 1. -/
def overlongPart : EncapsulatedPacket :=
  Session.fragmentEncap (0x80 :: List.replicate 523 0) .reliableOrdered 0 (some (Sequence24.new 0))
    (some (Sequence24.new 0)) ⟨1, 0, 0⟩

/-- A message of `2 ^ 32 + 1` parts is queued, its first part is sent and arrives. -/
def overlongRun (data : Bytes) : List Op :=
  [.send (.queuePacket (.userData 0x80 data) .reliableOrdered 0 .immediate), .send (.buildDataDatagram 0), .deliver 0 0]

/-- The message of that run, in `n + 1` parts. -/
def overlong (n : Nat) (data : Bytes) : Message :=
  ⟨.userData 0x80 data, .reliableOrdered, 0, Sequence24.new 0, some (Sequence24.new 0),
    .fragments 0 (Session.chunks 524 (n + 1) (0x80 :: data))⟩

section Overlong

variable {n : Nat} {data : Bytes} (hlen : data.length = 524 * n) (hn : n = 2 ^ 32)

include hlen hn

theorem overlong_message : (Session.withTunables 576 {} : Session ℚ).message (.userData 0x80 data) .reliableOrdered 0 =
    some (overlong n data) := by
  have hparts : (524 * n + 1 - 1) / 524 + 1 = n + 1 := by omega
  have hlong : ¬ 524 * n + 1 ≤ 534 := by omega
  have hwhole : max ((Session.withTunables 576 {} : Session ℚ).maxEncapsulatedPayloadLen .reliableOrdered false) 1 =
    534 := rfl
  have hsplit : max ((Session.withTunables 576 {} : Session ℚ).maxEncapsulatedPayloadLen
    (Session.normalizeReliabilityForSplit .reliableOrdered) true) 1 = 524 := rfl
  unfold Session.message
  rw [if_neg (by decide)]
  simp only [RaknetPacket.encode, RaknetPacket.encodeBody, RaknetPacket.id, List.length_cons, hlen, hwhole, hsplit,
    hparts]
  rw [if_neg hlong]
  rfl

theorem overlong_heap (hdata : data.take 523 = List.replicate 523 0) :
    ((Session.withTunables 576 {} : Session ℚ).queuePacket (.userData 0x80 data) .reliableOrdered 0
      .immediate).2.outgoingHeap.peek = some ⟨0, overlongPart⟩ := by
  have hparts : (524 * n + 1 - 1) / 524 + 1 = n + 1 := by omega
  have hlong : ¬ 524 * n + 1 ≤ 534 := by omega
  have hwhole : max ((Session.withTunables 576 {} : Session ℚ).maxEncapsulatedPayloadLen .reliableOrdered false) 1 =
    534 := rfl
  have hsplit : max ((Session.withTunables 576 {} : Session ℚ).maxEncapsulatedPayloadLen
    (Session.normalizeReliabilityForSplit .reliableOrdered) true) 1 = 524 := rfl
  unfold Session.queuePacket
  rw [if_neg (by decide)]
  simp only [RaknetPacket.encode, RaknetPacket.encodeBody, RaknetPacket.id, List.length_cons, hlen, hwhole]
  rw [if_neg hlong]
  unfold Session.enqueueFragmentedEncaps
  simp only [List.length_cons, hlen, hsplit, hparts]
  rw [Session.chunks, List.take_succ_cons, hdata]
  have hcount : UInt32.ofNat (n + 1) = 1 := by rw [hn]; rfl
  unfold Session.enqueueFragments
  simp only [hcount]
  refine Session.enqueueFragments_peek _ _ _ _ _ _ (by rfl) _ _ _ ?_
  rfl

end Overlong

/-- The part arrives and is taken for the whole message. -/
theorem overlong_returned : ((Session.withTunables 1400 {} : Session ℚ).handleDataPayload [overlongPart] 0).1 =
    .ok [⟨.userData 0x80 (List.replicate 523 0), .reliableOrdered, some 0⟩] := by
  decide +kernel

theorem returned_not_sublist_overlong : ¬ ∀ (c : UInt8) (mtu : Nat) (tunables : SessionTunables) (mtu' : Nat)
    (tunables' : SessionTunables) (ops : List Op),
    (orderedOn c (Machine.run step (new mtu tunables mtu' tunables' : Link ℚ) ops).sender.log).length < 2 ^ 23 →
    fragmentedCount (Machine.run step (new mtu tunables mtu' tunables' : Link ℚ) ops).sender.log < 2 ^ 16 →
    (Machine.run step (new mtu tunables mtu' tunables' : Link ℚ) ops).returned.filter (onChannel c) <+
      (orderedOn c (Machine.run step (new mtu tunables mtu' tunables' : Link ℚ) ops).sender.log).filterMap
        Message.surfaced := by
  intro h
  obtain ⟨n, hn⟩ : ∃ n, n = 2 ^ 32 := ⟨_, rfl⟩
  obtain ⟨data, hlen, hdata⟩ : ∃ data : Bytes, data.length = 524 * n ∧ data.take 523 = List.replicate 523 0 :=
    ⟨List.replicate (524 * n) 0, by simp, by rw [List.take_replicate, min_eq_left (by omega)]⟩
  have hmsg := overlong_message hlen hn
  have hpeek := overlong_heap hlen hn hdata
  obtain ⟨_, _, _, _, _, _, hsame⟩ := (Session.withTunables 576 {} : Session ℚ).queuePacket_same (.userData 0x80 data)
    .reliableOrdered 0 .immediate
  have hbw : overlongPart.size ≤ (SlidingWindow.new 576 : SlidingWindow ℚ).getTransmissionBandwidth := by decide +kernel
  have hsize : 32 + overlongPart.size = 576 := by decide +kernel
  have hmtu : ((Session.withTunables 576 {} : Session ℚ).queuePacket (.userData 0x80 data) .reliableOrdered 0
      .immediate).2.mtu = 576 := by rw [hsame]; rfl
  obtain ⟨o, hout, hpackets⟩ := Session.buildDataDatagram_one hpeek (by rw [hsame]; exact hbw) (hsize.trans hmtu.symm) 0
  -- what has been queued, sent and returned at the end
  have hsender : ∃ s, Machine.run step (new 576 {} 1400 {} : Link ℚ) (overlongRun data) =
      arrive ⟨⟨s, [overlong n data], [o.asRef]⟩, Session.withTunables 1400 {}, []⟩ o.asRef 0 := by
    refine ⟨(((Session.withTunables 576 {} : Session ℚ).step (.queuePacket (.userData 0x80 data) .reliableOrdered 0
      .immediate)).step (.buildDataDatagram 0)), ?_⟩
    simp only [overlongRun, Machine.run_cons, Machine.run_nil, step, new, Sender.step, Sender.new, Session.queued, hmsg,
      Session.emitted, Session.step, hout, Option.toList_some, Option.toList_none, List.map_cons, List.map_nil,
      List.append_nil, List.nil_append, List.getElem?_cons_zero]
  obtain ⟨s, hrun⟩ := hsender
  have hlog : (Machine.run step (new 576 {} 1400 {} : Link ℚ) (overlongRun data)).sender.log = [overlong n data] := by
    rw [hrun]; rfl
  have hordered : orderedOn 0 [overlong n data] = [overlong n data] := rfl
  have hsurfaced : (overlong n data).surfaced = some ⟨.userData 0x80 data, .reliableOrdered, some 0⟩ := by
    have hpayload : (overlong n data).payload = 0x80 :: data :=
      Session.flatten_chunks 524 (n + 1) _ (by rw [List.length_cons, hlen]; omega)
    have hdecode : Session.decodePayload (0x80 :: data) = .ok (.userData 0x80 data) := by
      rw [Session.decodePayload, RaknetPacket.decodeFrom_userData (by decide)]
    rw [Message.surfaced, hpayload, hdecode]
    rfl
  have hreturned : (Machine.run step (new 576 {} 1400 {} : Link ℚ) (overlongRun data)).returned =
      [⟨.userData 0x80 (List.replicate 523 0), .reliableOrdered, some 0⟩] := by
    rw [hrun, arrive, hpackets]
    simp only [overlong_returned]
    rfl
  have hsublist := h 0 576 {} 1400 {} (overlongRun data) (by rw [hlog, hordered, List.length_singleton]; decide)
    (by rw [hlog, show fragmentedCount [overlong n data] = 1 from rfl]; decide)
  rw [hlog, hordered, hreturned] at hsublist
  simp only [List.filterMap_cons, hsurfaced, List.filterMap_nil] at hsublist
  have hmem := hsublist.mem
    (List.mem_singleton_self (⟨.userData 0x80 (List.replicate 523 0), .reliableOrdered, some 0⟩ : IncomingPacket))
  rw [List.mem_singleton, IncomingPacket.mk.injEq, RaknetPacket.userData.injEq] at hmem
  have := congrArg List.length hmem.1.2
  rw [List.length_replicate, hlen] at this
  omega

end Link

end BedrockRs.Raknet

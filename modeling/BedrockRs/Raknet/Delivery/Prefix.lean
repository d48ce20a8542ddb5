/-
An ordering channel as a queue that is read from the front without a gap. What has come out of the
channel is a subsequence of what was queued on it in every run; it is all that the read index has passed
as long as the read index moves with packets that are handed out. Two things move it otherwise: an error
at a later packet of a datagram drops what the datagram released, and a tick skips the indexes of the
messages it gives up. In every run in which neither moves the read index of the channel, what has come
out is the front of what was queued (`returned_prefix_queued`).
-/
import BedrockRs.Raknet.Delivery.AtLeastOnce

namespace BedrockRs.Raknet

open Lib
open scoped List

/-! ## The read index -/

/-- What a receiver reads of a channel, if the session has it: the read index and what waits. -/
def OrderingChannels.viewAt (o : OrderingChannels) (c : UInt8) : Option (Sequence24 × BinaryHeap OrderedEncap) :=
  o.channels[c.toNat]?.map fun ch => (ch.orderRead, ch.heap)

/-- The read index of a channel, if the session has the channel. -/
def OrderingChannels.readAt (o : OrderingChannels) (c : UInt8) : Option Sequence24 :=
  o.channels[c.toNat]?.map OrderingChannel.orderRead

theorem OrderingChannels.readAt_of_viewAt {o o' : OrderingChannels} {c : UInt8} (h : o'.viewAt c = o.viewAt c) :
    o'.readAt c = o.readAt c := by
  have hread := congrArg (Option.map Prod.fst) h
  unfold viewAt at hread
  rwa [Option.map_map, Option.map_map] at hread

theorem OrderingChannels.nextOrderIndex_viewAt (o : OrderingChannels) (channel c : UInt8) :
    (o.nextOrderIndex channel).2.viewAt c = o.viewAt c := by
  unfold nextOrderIndex viewAt
  cases hch : o.channels[channel.toNat]? with
  | none => rfl
  | some ch =>
    dsimp only
    by_cases hc : channel.toNat = c.toNat
    · rw [← hc, List.getElem?_set_self (List.getElem?_eq_some_iff.1 hch).1, hch]
      rfl
    · rw [List.getElem?_set_ne hc]

/-- Only payloads and ticks move a read index or change what waits. -/
theorem Session.step_viewAt {F : Type} [Float64 F] (s : Session F) {op : Session.Op} (h : Session.Still op)
    (c : UInt8) : (s.step op).ordering.viewAt c = s.ordering.viewAt c := by
  have hcases := s.step_cases op
  generalize s.step op = s' at hcases
  cases hcases with
  | @queuePacket pkt reliability channel priority _ =>
    cases hm : s.message pkt reliability channel with
    | none => rw [Session.queuePacket_of_none hm]
    | some m =>
      rw [(Session.queuePacket_spec hm priority).ordering]
      unfold Session.allocOrderingIndex
      split
      · exact s.ordering.nextOrderIndex_viewAt m.channel c
      · rfl
  | handleDataPayload _ => exact absurd rfl (h.1 _ _)
  | onTick => exact absurd rfl (h.2 _ _)
  | _ => rfl

theorem Reads.val_orderRead {ordered : List Message} {out : List IncomingPacket} {ch : OrderingChannel} {read : Nat}
    (h : Reads ordered out ch read) (hlt : ordered.length < 2 ^ 23) : ch.orderRead.val = read := by
  have hbound := h.bound
  rw [h.index, Sequence24.val_new]
  exact Nat.mod_eq_of_lt (by omega)

/-- A message queued on a channel comes out on it. -/
theorem onChannel_surfaced {F : Type} {c : UInt8} {s : Session F} {log : List Message} (hd : Distinguished c s log)
    {m : Message} (hm : m ∈ orderedOn c log) {p : IncomingPacket} (hp : m.surfaced = some p) :
    onChannel c p = true := by
  obtain ⟨hlog, hon⟩ := List.mem_filter.1 hm
  rw [Bool.and_eq_true, beq_iff_eq] at hon
  obtain ⟨k, -, hidx⟩ := hd.numbered.ordered hlog hon.1
  have hsome : p.reliability = m.reliability ∧ p.orderingChannel = some m.channel := by
    unfold Message.surfaced at hp
    rw [hidx] at hp
    split at hp
    · cases hp
    · cases hp
    · cases hp
    · cases hp
      exact ⟨rfl, rfl⟩
  rw [onChannel, hsome.1, hsome.2, hon.1, hon.2, Bool.true_and, beq_iff_eq]

/-! ## A receiver that has handed out all it has passed -/

/-- All that the read index of the channel has passed has come out. -/
structure ReceivesAll {F : Type} (c : UInt8) (log : List Message) (r : Session F) (out : List IncomingPacket) :
    Prop where
  inOrder : ReceivesInOrder c log r out
  all : ∀ ch, r.ordering.channels[c.toNat]? = some ch →
    out.filter (onChannel c) = ((orderedOn c log).take ch.orderRead.val).filterMap Message.surfaced

namespace ReceivesAll

variable {F : Type} {c : UInt8} {s r : Session F} {log : List Message} {out : List IncomingPacket}

theorem new [Float64 F] (c : UInt8) (mtu : Nat) (tunables : SessionTunables) :
    ReceivesAll c [] (Session.withTunables mtu tunables : Session F) [] :=
  ⟨.new c mtu tunables, fun ch _ => by simp [orderedOn]⟩

/-- As long as the read index stays, nothing of the channel may come out. -/
theorem of_readAt (h : ReceivesAll c log r out) {r' : Session F} (h' : ReceivesInOrder c log r' out)
    (hread : r'.ordering.readAt c = r.ordering.readAt c) : ReceivesAll c log r' out := by
  refine ⟨h', fun ch hch => ?_⟩
  unfold OrderingChannels.readAt at hread
  rw [hch, Option.map_some] at hread
  obtain ⟨old, hold, hsame⟩ := Option.map_eq_some_iff.1 hread.symm
  rw [h.all old hold, hsame]

theorem append_other (h : ReceivesAll c log r out) {r' : Session F} {more : List IncomingPacket}
    (h' : ReceivesInOrder c log r' (out ++ more)) (hread : r'.ordering.readAt c = r.ordering.readAt c)
    (hmore : ∀ p ∈ more, onChannel c p = false) : ReceivesAll c log r' (out ++ more) := by
  refine ⟨h', fun ch hch => ?_⟩
  have hnil : more.filter (onChannel c) = [] := List.filter_eq_nil_iff.2 fun p hp => by simp [hmore p hp]
  rw [List.filter_append, hnil, List.append_nil]
  exact (h.of_readAt (h'.sublist (List.sublist_append_left _ _)) hread).all ch hch

/-- More messages are queued, behind all that has been passed. -/
theorem append (h : ReceivesAll c log r out) (hd : Distinguished c s log) (more : List Message) :
    ReceivesAll c (log ++ more) r out := by
  refine ⟨h.inOrder.append more, fun ch hch => ?_⟩
  obtain ⟨read, hreads⟩ := h.inOrder.channel ch hch
  have hbound := hreads.bound
  rw [h.all ch hch, hreads.val_orderRead hd.ordered, orderedOn_append, List.take_append_of_le_length hbound]

/-! ### One packet -/

/-- A packet of the channel: the read index moves past messages, and all of these are returned. -/
theorem handleOrdered_own (hd : Distinguished c s log) (h : ReceivesAll c log r out) {m : Message} {k : Nat}
    (hk : (orderedOn c log)[k]? = some m) {enc : EncapsulatedPacket} (hm : m.CarriedBy enc)
    (hchannel : enc.orderingChannel = some c) (hindex : enc.orderingIndex = some (Sequence24.new k))
    {o : List IncomingPacket} (hok : (r.handleOrdered enc).1 = .ok o) :
    ReceivesAll c log (r.handleOrdered enc).2 (out ++ o) := by
  have hinOrder := h.inOrder.handleOrdered_own hd hk hm hchannel hindex
  rw [hok] at hinOrder
  refine ⟨hinOrder, fun ch' hch' => ?_⟩
  obtain ⟨-, hordering⟩ := ReceivesInOrder.handleOrdered_state r enc
  rw [hordering] at hch'
  cases hch : r.ordering.channels[c.toNat]? with
  | none =>
    unfold OrderingChannels.handleOrdered at hch'
    simp only [hchannel, hch] at hch'
    cases hch'
  | some ch =>
    have hlt := (List.getElem?_eq_some_iff.1 hch).1
    have hres : r.ordering.handleOrdered enc = (some (ch.handleOrdered (Sequence24.new k) enc).1,
        ⟨r.ordering.channels.set c.toNat (ch.handleOrdered (Sequence24.new k) enc).2⟩) := by
      unfold OrderingChannels.handleOrdered
      simp only [hchannel, hch, hindex]
    rw [hres, List.getElem?_set_self hlt] at hch'
    cases hch'
    obtain ⟨read, hreads⟩ := h.inOrder.channel ch hch
    obtain ⟨n, hcarried, hnext⟩ := hreads.handleOrdered hd.ordered hk hm
    have hpassed : ∀ m' ∈ ((orderedOn c log).drop read).take n, m' ∈ orderedOn c log := fun m' hm' =>
      List.mem_of_mem_drop (List.mem_of_mem_take hm')
    -- the released packets decode to what their messages surface as, all of it on the channel
    have ho : o = (((orderedOn c log).drop read).take n).filterMap Message.surfaced := by
      unfold Session.handleOrdered at hok
      simp only [hres] at hok
      exact Session.decodeAll_carried hcarried (fun m' hm' => hd.fits m' (hpassed m' hm')) hok
    have hon : ∀ p ∈ o, onChannel c p = true := by
      intro p hp
      rw [ho] at hp
      obtain ⟨m', hm', hsurfaced⟩ := List.mem_filterMap.1 hp
      exact onChannel_surfaced hd (hpassed m' hm') hsurfaced
    have hread := (hnext [] (List.nil_sublist _)).val_orderRead hd.ordered
    rw [List.filter_append, h.all ch hch, hreads.val_orderRead hd.ordered, List.filter_eq_self.2 hon, ho, hread,
      List.take_add, List.filterMap_append]

/-- Delivering a packet that carries a message, without an error. -/
theorem deliver (hd : Distinguished c s log) (h : ReceivesAll c log r out) {m : Message} (hm : m ∈ log)
    {enc : EncapsulatedPacket} (hcarried : m.CarriedBy enc) {o : List IncomingPacket}
    (hok : (r.deliver enc).1 = .ok o) : ReceivesAll c log (r.deliver enc).2 (out ++ o) := by
  have hinOrder := h.inOrder.deliver hd hm hcarried
  rw [hok] at hinOrder
  change ReceivesInOrder c log _ (out ++ o) at hinOrder
  unfold Session.deliver at hok hinOrder ⊢
  split at hok
  · rename_i ho
    rw [if_pos ho] at hinOrder ⊢
    rw [hcarried.reliability] at ho
    obtain ⟨k, hk, hidx⟩ := hd.numbered.ordered hm ho
    have hch : enc.orderingChannel = some m.channel := by
      rw [hcarried.channel, hidx]
      rfl
    by_cases hc : m.channel = c
    · subst hc
      exact h.handleOrdered_own hd hk hcarried hch (hcarried.index.trans hidx) hok
    · have hne : enc.orderingChannel ≠ some c := by rwa [hch, ne_eq, Option.some.injEq]
      obtain ⟨-, hordering⟩ := ReceivesInOrder.handleOrdered_state r enc
      refine h.append_other hinOrder ?_ fun p hp => ?_
      · rw [hordering, OrderingChannels.readAt, OrderingChannels.handleOrdered_other hne, OrderingChannels.readAt]
      · -- what another channel releases is on that channel
        unfold Session.handleOrdered at hok
        simp only at hok
        split at hok
        · rename_i ready hr
          obtain ⟨enc', henc', -, hpe⟩ := Session.decodeAll_out hok p hp
          rw [h.inOrder.sorted.handleOrdered_channel hr enc' henc', hch] at hpe
          rw [onChannel, hpe, Bool.and_eq_false_iff]
          exact .inr (by simpa using hc)
        · cases hok
          cases hp
  · rename_i ho
    rw [if_neg ho] at hinOrder ⊢
    obtain ⟨_, _, hframe⟩ := r.decodeAndPush_frame enc
    refine h.append_other hinOrder (by rw [hframe]) fun p hp => ?_
    rw [onChannel, (Session.decodeAndPush_out hok p hp).1, Bool.eq_false_of_not_eq_true ho, Bool.false_and]

/-- Handling a frame of a queued message without an error. -/
theorem handleEncapsulated (hd : Distinguished c s log) (h : ReceivesAll c log r out) {m : Message} (hm : m ∈ log)
    {p : EncapsulatedPacket} (hp : p ∈ m.frames) (now : Instant) {o : List IncomingPacket}
    (hok : (r.handleEncapsulated p now).1 = .ok o) : ReceivesAll c log (r.handleEncapsulated p now).2 (out ++ o) := by
  have hinOrder := h.inOrder.handleEncapsulated hd hm hp now
  obtain ⟨hassembler, hcarried⟩ := SplitAssembler.add_frame hd.numbered hd.fragmented h.inOrder.assembler hm hp now
  have hcases := r.handleEncapsulated_cases p now
  generalize r.handleEncapsulated p now = res at hcases hok hinOrder
  cases hcases with
  | seen =>
    cases hok
    simpa using h
  | refused hadd => cases hok
  | pending _ hadd =>
    cases hok
    rw [List.append_nil]
    exact h.of_readAt (by simpa [returned] using hinOrder) rfl
  | @delivered enc a _ hadd =>
    rw [hadd] at hassembler hcarried
    have hcommitted := h.of_readAt (h.inOrder.committed hassembler (Session.filterIndex p)) (by
      cases Session.filterIndex p <;> rfl)
    exact hcommitted.deliver hd hm (hcarried enc rfl) hok

/-- Handling the frames of a datagram without an error. -/
theorem handleDataPayload (hd : Distinguished c s log) (now : Instant) (packets : List EncapsulatedPacket)
    (h : ReceivesAll c log r out) (hframes : ∀ p ∈ packets, ∃ m ∈ log, p ∈ m.frames) {o : List IncomingPacket}
    (hok : (r.handleDataPayload packets now).1 = .ok o) :
    ReceivesAll c log (r.handleDataPayload packets now).2 (out ++ o) := by
  induction packets generalizing r out o with
  | nil =>
    cases hok
    simpa [Session.handleDataPayload] using h
  | cons p rest ih =>
    obtain ⟨m, hm, hp⟩ := hframes p (List.mem_cons_self ..)
    rcases hres : r.handleEncapsulated p now with ⟨e | o₁, r₁⟩
    · rw [Session.handleDataPayload_cons_error rest hres] at hok
      cases hok
    · have hfirst := h.handleEncapsulated hd hm hp now (o := o₁) (by rw [hres])
      rw [hres] at hfirst
      rw [Session.handleDataPayload_cons_ok rest hres] at hok ⊢
      cases hrest : (r₁.handleDataPayload rest now).1 with
      | error e =>
        rw [hrest] at hok
        cases hok
      | ok o₂ =>
        rw [hrest] at hok
        cases hok
        rw [← List.append_assoc]
        exact ih hfirst (fun q hq => hframes q (List.mem_cons_of_mem _ hq)) hrest

/-! ### Other calls -/

theorem reach [Float64 F] (hd : Distinguished c s log) (h : ReceivesAll c log r out) {r' : Session F}
    (hreach : ManagedSession.InnerReach Session.Still r r') : ReceivesAll c log r' out :=
  hreach.inv (I := fun r => ReceivesAll c log r out)
    (fun r op hop h =>
      h.of_readAt (h.inOrder.step hd op hop.1) (OrderingChannels.readAt_of_viewAt (r.step_viewAt hop c))) h

end ReceivesAll

/-! ## Runs -/

namespace ManagedLink

variable {F : Type} [Float64 F] {start : Instant}

/-- A step that moves the read index of channel `c` only with a datagram that is accepted. -/
def HandsOut (start : Instant) (c : UInt8) (x : ManagedLink F) (op : Op) : Prop :=
  (x.step start op).receiver.inner.ordering.readAt c = x.receiver.inner.ordering.readAt c ∨
    match op with
    | .deliver i now => ∀ d ∈ x.sender.sent[i]?, (x.receiver.handleDatagram start d now).1.isOk = true
    | .send _ | .receive .. => False

instance (c : UInt8) (x : ManagedLink F) : ∀ op, Decidable (HandsOut start c x op)
  | .deliver i now =>
    inferInstanceAs (Decidable (_ ∨ ∀ d ∈ x.sender.sent[i]?, (x.receiver.handleDatagram start d now).1.isOk = true))
  | .send _ | .receive .. => inferInstanceAs (Decidable (_ ∨ False))

/-- The invariant of a link, for one channel. -/
structure Gapless (c : UInt8) (x : ManagedLink F) : Prop where
  sender : x.sender.Inv
  receives : ReceivesAll c x.sender.log x.receiver.inner x.returned

variable {c : UInt8}

theorem Gapless.arrive {x : ManagedLink F} (h : Gapless c x) (hd : Distinguished c x.sender.session x.sender.log)
    {d : Datagram} (hsent : d ∈ x.sender.sent) {now : Instant}
    (hhands : (x.arrive start d now).receiver.inner.ordering.readAt c = x.receiver.inner.ordering.readAt c ∨
      (x.receiver.handleDatagram start d now).1.isOk = true) : Gapless c (x.arrive start d now) := by
  refine ⟨h.sender, ?_⟩
  unfold ManagedLink.arrive at hhands ⊢
  dsimp only at hhands ⊢
  by_cases hclosed : x.receiver.state = .closed
  · simp only [ManagedSession.handleDatagram_closed start hclosed]
    rw [show Raknet.returned (.ok [] : Except SessionError _) = [] from rfl, List.append_nil]
    exact h.receives
  · obtain ⟨hout, hinner⟩ := ManagedSession.handleDatagram_open handlerOp_still start hclosed d now
    have hframes := h.sender.framed.sent d hsent
    rw [hout, returned_mapError]
    rw [hout] at hhands
    cases hpayload : (x.receiver.inner.handleDataPayload d.packets now).1 with
    | ok o =>
      exact (h.receives.handleDataPayload hd now d.packets hframes hpayload).reach hd hinner
    | error e =>
      -- nothing is returned, so the read index must have stayed
      rw [hpayload] at hhands
      have hread := hhands.resolve_right Bool.false_ne_true
      have hinOrder := h.receives.inOrder.handleDataPayload hd now d.packets hframes
      rw [hpayload] at hinOrder
      change ReceivesInOrder c _ _ (x.returned ++ []) at hinOrder
      rw [List.append_nil] at hinOrder
      rw [show Raknet.returned (.error e : Except DecodeError (List IncomingPacket)) = [] from rfl, List.append_nil]
      refine h.receives.of_readAt (hinner.inv (I := fun r => ReceivesInOrder c x.sender.log r x.returned)
        (fun r op hop hr => hr.step hd op hop.1) hinOrder) hread

theorem Gapless.step {x : ManagedLink F} (h : Gapless c x) (hd : Distinguished c x.sender.session x.sender.log)
    {op : Op} (hop : HandsOut start c x op) : Gapless c (x.step start op) := by
  cases op with
  | send op => exact ⟨h.sender.step op, h.receives.append hd _⟩
  | deliver i now =>
    rw [HandsOut, ManagedLink.step] at hop
    rw [ManagedLink.step]
    cases hsent : x.sender.sent[i]? with
    | none => exact h
    | some d =>
      rw [hsent] at hop
      exact h.arrive hd (List.mem_of_getElem? hsent) (hop.imp_right fun hok => hok d rfl)
  | receive op hlocal =>
    refine ⟨h.sender, h.receives.of_readAt ?_ (hop.resolve_right id)⟩
    exact (receive_inner start x.receiver hlocal).inv (I := fun r => ReceivesInOrder c x.sender.log r x.returned)
      (fun r op hop hr => hr.step hd op hop) h.receives.inOrder

theorem Gapless.run (ops : List Op) {x : ManagedLink F} (h : Gapless c x)
    (hhands : Machine.Along (ManagedLink.step start) (HandsOut start c) x ops)
    (hreliable : reliableCount (Machine.run (ManagedLink.step start) x ops).sender.log < 2 ^ 23)
    (hfragmented : fragmentedCount (Machine.run (ManagedLink.step start) x ops).sender.log < 2 ^ 16) :
    Gapless c (Machine.run (ManagedLink.step start) x ops) := by
  induction ops generalizing x with
  | nil => exact h
  | cons op ops ih =>
    obtain ⟨more, hlog⟩ := log_grows start (op :: ops) x
    have hb : Bounded x.sender.session x.sender.log := by
      refine ⟨h.sender.numbered, h.sender.wellFormed, ?_, ?_⟩
      · rw [← hlog, reliableCount_append] at hreliable
        omega
      · rw [← hlog, fragmentedCount_append] at hfragmented
        omega
    exact ih (h.step (hb.distinguished c) hhands.1) hhands.2 hreliable hfragmented

theorem new_gapless (c : UInt8) (mtu : Nat) (tunables : SessionTunables) (peer : SocketAddr) (mtu' : Nat)
    (now : Instant) (config : SessionConfig) :
    Gapless c (new mtu tunables (.withConfig peer mtu' now config) : ManagedLink F) :=
  ⟨.new mtu tunables, .new c mtu' config.session⟩

/-- Ordered delivery without a gap. In every run in which the read index of channel `c` moves with accepted
datagrams only, with fewer than `2 ^ 23` reliable indexes and fewer than `2 ^ 16` fragmented messages, the
packets that came out of the channel are the front of the messages queued on it. -/
theorem returned_prefix_queued (c : UInt8) (mtu : Nat) (tunables : SessionTunables) (peer : SocketAddr) (mtu' : Nat)
    (now : Instant) (config : SessionConfig) (ops : List Op)
    (hhands : Machine.Along (step start) (HandsOut start c)
      (new mtu tunables (.withConfig peer mtu' now config) : ManagedLink F) ops)
    (hreliable :
      reliableCount (Machine.run (step start) (new mtu tunables (.withConfig peer mtu' now config) : ManagedLink F)
        ops).sender.log < 2 ^ 23)
    (hfragmented :
      fragmentedCount (Machine.run (step start) (new mtu tunables (.withConfig peer mtu' now config) : ManagedLink F)
        ops).sender.log < 2 ^ 16) :
    (Machine.run (step start) (new mtu tunables (.withConfig peer mtu' now config) : ManagedLink F) ops).returned.filter
        (onChannel c) <+:
      (orderedOn c (Machine.run (step start) (new mtu tunables (.withConfig peer mtu' now config) : ManagedLink F)
        ops).sender.log).filterMap Message.surfaced := by
  have hinv := (new_gapless c mtu tunables peer mtu' now config).run ops hhands hreliable hfragmented
  cases hch : (Machine.run (step start) (new mtu tunables (.withConfig peer mtu' now config) : ManagedLink F)
      ops).receiver.inner.ordering.channels[c.toNat]? with
  | none =>
    rw [hinv.receives.inOrder.absent hch]
    exact List.nil_prefix
  | some ch =>
    rw [hinv.receives.all ch hch]
    exact (List.take_prefix _ _).filterMap _

/-- Three messages are sent on a channel one by one. The third and the first arrive, and the second is lost. -/
def lossyRun : List Op :=
  ([1, 2, 3].flatMap fun n =>
    [.send (.queuePacket (.userData 0x80 [n]) .reliableOrdered 0 .normal), .send (.buildDataDatagram 0)]) ++
  [.deliver 2 0, .deliver 0 0, .receive (.onTick 1 (IterOrder.stored _)) fun _ _ h => by cases h]

theorem returned_prefix_queued_lossy :
    (Machine.run (step 0) (new 1400 {} (.withConfig .loopbackV4 1400 0 {}) : ManagedLink ℚ) lossyRun).returned.map
      IncomingPacket.packet = [.userData 0x80 [1]] ∧
    (Machine.run (step 0) (new 1400 {} (.withConfig .loopbackV4 1400 0 {}) : ManagedLink ℚ) lossyRun).returned.filter
    (onChannel 0) <+:
      (orderedOn 0 (Machine.run (step 0) (new 1400 {} (.withConfig .loopbackV4 1400 0 {}) : ManagedLink ℚ)
        lossyRun).sender.log).filterMap Message.surfaced :=
  ⟨by decide +kernel,
    returned_prefix_queued 0 1400 {} .loopbackV4 1400 0 {} lossyRun (by decide +kernel) (by decide +kernel)
    (by decide +kernel)⟩

end ManagedLink

end BedrockRs.Raknet

/-
The receiving side of an ordering channel against the messages queued on it: the read index counts
through them, everything buffered is one of them at its own index, and what has come out of the
channel is a subsequence of what the read index has passed.
-/
import BedrockRs.Raknet.Delivery.Reassembly

namespace BedrockRs.Raknet

open Lib
open scoped List

/-! ## One channel -/

/-- What a message comes out as at the receiver's caller, if it comes out at all. -/
def Message.surfaced (m : Message) : Option IncomingPacket :=
  match Session.decodePayload m.payload with
  | .error _ => none
  | .ok (.encapsulatedAck _) => none
  | .ok (.encapsulatedNak _) => none
  | .ok pkt => some ⟨pkt, m.reliability, m.orderingIndex.map fun _ => m.channel⟩

/-- A channel that reads through `ordered`: the read index has passed `read` of the messages, the
buffered packets carry messages of `ordered` under their own indexes, and `out` is a subsequence of
the messages passed. -/
structure Reads (ordered : List Message) (out : List IncomingPacket) (c : OrderingChannel) (read : Nat) : Prop where
  index : c.orderRead = Sequence24.new read
  bound : read ≤ ordered.length
  heap : ∀ e ∈ c.heap.data, ∃ k m, ordered[k]? = some m ∧ e.index = Sequence24.new k ∧ m.CarriedBy e.pkt
  out : out <+ (ordered.take read).filterMap Message.surfaced

namespace Reads

variable {ordered : List Message} {out : List IncomingPacket} {c : OrderingChannel} {read : Nat}

theorem new (ordered : List Message) : Reads ordered [] OrderingChannel.new 0 :=
  ⟨rfl, Nat.zero_le _, fun e he => by simp [OrderingChannel.new, BinaryHeap.empty] at he, List.nil_sublist _⟩

theorem append (h : Reads ordered out c read) (more : List Message) : Reads (ordered ++ more) out c read := by
  refine ⟨h.index, by rw [List.length_append]; exact Nat.le_add_right_of_le h.bound, fun e he => ?_, ?_⟩
  · obtain ⟨k, m, hk, hidx, hm⟩ := h.heap e he
    exact ⟨k, m, by rw [List.getElem?_append_left (List.getElem?_eq_some_iff.1 hk).1]; exact hk, hidx, hm⟩
  · rw [List.take_append_of_le_length h.bound]; exact h.out

theorem sublist (h : Reads ordered out c read) {out' : List IncomingPacket} (hout : out' <+ out) :
    Reads ordered out' c read :=
  ⟨h.index, h.bound, h.heap, hout.trans h.out⟩

/-- Only the read index and the heap matter. -/
theorem of_same (h : Reads ordered out c read) {c' : OrderingChannel} (hread : c'.orderRead = c.orderRead)
    (hheap : c'.heap = c.heap) : Reads ordered out c' read :=
  ⟨hread.trans h.index, h.bound, by rw [hheap]; exact h.heap, h.out⟩

/-- The read index moves past messages, of which some come out. -/
theorem advance (h : Reads ordered out c read) {c' : OrderingChannel} {n : Nat} {more : List IncomingPacket}
    (hindex : c'.orderRead = Sequence24.new (read + n)) (hbound : read + n ≤ ordered.length)
    (hheap : ∀ e ∈ c'.heap.data, e ∈ c.heap.data)
    (hmore : more <+ ((ordered.drop read).take n).filterMap Message.surfaced) :
    Reads ordered (out ++ more) c' (read + n) := by
  refine ⟨hindex, hbound, fun e he => h.heap e (hheap e he), ?_⟩
  rw [List.take_add, List.filterMap_append]
  exact h.out.append hmore

end Reads

/-- The packets carry the messages, one by one. -/
abbrev CarriedIn (ms : List Message) (pkts : List EncapsulatedPacket) : Prop := List.Forall₂ Message.CarriedBy ms pkts

theorem index_eq_of_new {a b : Nat} (ha : a < 2 ^ 24) (hb : b < 2 ^ 24) (h : Sequence24.new a = Sequence24.new b) :
    a = b := by
  rw [Sequence24.ext_iff', Sequence24.val_new, Sequence24.val_new] at h
  omega

/-- What the release loop pops from a channel that reads at `read` carries the next messages. -/
theorem released_carried {ordered : List Message} (hlt : ordered.length < 2 ^ 23) : ∀ (popped : List OrderedEncap)
    {read : Nat}, read ≤ ordered.length →
    (∀ e ∈ popped, ∃ k m, ordered[k]? = some m ∧ e.index = Sequence24.new k ∧ m.CarriedBy e.pkt) →
    popped.map OrderedEncap.index = (List.range popped.length).map (fun i => Sequence24.new (read + i)) →
    read + popped.length ≤ ordered.length ∧
      CarriedIn ((ordered.drop read).take popped.length) (popped.map OrderedEncap.pkt)
  | [], read, hread, _, _ => ⟨by simpa using hread, by simp⟩
  | e :: popped, read, hread, hcarried, hindex => by
    obtain ⟨k, m, hk, hidx, hm⟩ := hcarried e (List.mem_cons_self ..)
    rw [List.map_cons, List.length_cons, List.range_succ_eq_map, List.map_cons, List.map_map, List.cons.injEq] at hindex
    obtain ⟨hhead, htail⟩ := hindex
    have hklt := (List.getElem?_eq_some_iff.1 hk).1
    have hkread : k = read := index_eq_of_new (by omega) (by omega) (hidx.symm.trans hhead)
    subst hkread
    have htail' : popped.map OrderedEncap.index =
        (List.range popped.length).map (fun i => Sequence24.new (k + 1 + i)) := by
      rw [htail]
      refine List.map_congr_left fun i _ => ?_
      exact congrArg Sequence24.new (by simp only [Nat.succ_eq_add_one]; omega)
    obtain ⟨hbound, ih⟩ :=
      released_carried hlt popped (by omega) (fun e' he' => hcarried e' (List.mem_cons_of_mem _ he')) htail'
    refine ⟨by rw [List.length_cons]; omega, ?_⟩
    rw [List.drop_eq_getElem_cons hklt, List.length_cons, List.take_succ_cons, List.map_cons]
    refine List.Forall₂.cons ?_ ih
    have := (List.getElem?_eq_some_iff.1 hk).2
    rw [this]; exact hm

namespace Reads

variable {ordered : List Message} {out : List IncomingPacket} {c : OrderingChannel} {read : Nat}

/-- The release loop after the message at the read index: the read index moves past it and past the
messages whose packets are popped. -/
theorem release (hlt : ordered.length < 2 ^ 23) (h : Reads ordered out c read) (hread : read < ordered.length) :
    ∃ n, CarriedIn ((ordered.drop (read + 1)).take n)
        (OrderingChannel.release { c with orderRead := c.orderRead.next }).1 ∧
      ∀ more, more <+ ((ordered.drop read).take (1 + n)).filterMap Message.surfaced →
        Reads ordered (out ++ more) (OrderingChannel.release { c with orderRead := c.orderRead.next }).2
        (read + (1 + n)) := by
  obtain ⟨popped, hout, hrel⟩ := OrderingChannel.drain_released c.heap.len { c with orderRead := c.orderRead.next }
  -- the loop pops the indexes from read + 1 on, one after the other
  have hnext : c.orderRead.next = Sequence24.new (read + 1) := by
    rw [h.index]
    apply Sequence24.ext
    simp only [Sequence24.next, Sequence24.val_new]
    omega
  have hindexes : popped.map OrderedEncap.index =
      (List.range popped.length).map (fun i => Sequence24.new (read + 1 + i)) := by
    rw [hrel.indexes]
    refine List.map_congr_left fun i _ => ?_
    simp only [hnext]
    apply Sequence24.ext
    simp only [Sequence24.val_new]
    omega
  have hmem : ∀ e ∈ popped, e ∈ c.heap.data := fun e he => hrel.heap.mem_iff.2 (List.mem_append_left _ he)
  obtain ⟨hbound, hcarried⟩ := released_carried hlt popped hread (fun e he => h.heap e (hmem e he)) hindexes
  refine ⟨popped.length, ?_, fun more hmore => h.advance ?_ (by omega) ?_ hmore⟩
  · rw [OrderingChannel.release,
      show ({ c with orderRead := c.orderRead.next } : OrderingChannel).heap.len = c.heap.len from rfl, hout]
    exact hcarried
  · refine hrel.read.trans ?_
    simp only [hnext]
    apply Sequence24.ext
    simp only [Sequence24.val_new]
    omega
  · exact fun e he => hrel.heap.mem_iff.2 (List.mem_append_right _ he)

/-- A packet of the channel: the packets returned carry the messages the read index moves past. -/
theorem handleOrdered (hlt : ordered.length < 2 ^ 23) (h : Reads ordered out c read) {k : Nat} {m : Message}
    (hk : ordered[k]? = some m) {enc : EncapsulatedPacket} (hm : m.CarriedBy enc) :
    ∃ n, CarriedIn ((ordered.drop read).take n) (c.handleOrdered (Sequence24.new k) enc).1 ∧
      ∀ more, more <+ ((ordered.drop read).take n).filterMap Message.surfaced →
        Reads ordered (out ++ more) (c.handleOrdered (Sequence24.new k) enc).2 (read + n) := by
  have hklt := (List.getElem?_eq_some_iff.1 hk).1
  -- nothing is returned and the read index stays
  have hstays : ∀ c', c.handleOrdered (Sequence24.new k) enc = ([], c') → c'.orderRead = c.orderRead →
      (∀ e ∈ c'.heap.data, e ∈ c.heap.data ∨ e = ⟨Sequence24.new k, enc⟩) →
      ∃ n, CarriedIn ((ordered.drop read).take n) (c.handleOrdered (Sequence24.new k) enc).1 ∧
        ∀ more, more <+ ((ordered.drop read).take n).filterMap Message.surfaced →
          Reads ordered (out ++ more) (c.handleOrdered (Sequence24.new k) enc).2 (read + n) := by
    intro c' he hread hheap
    rw [he]
    refine ⟨0, by simp, fun more hmore => ?_⟩
    rw [List.take_zero, List.filterMap_nil, List.sublist_nil] at hmore
    rw [hmore, List.append_nil]
    refine ⟨hread.trans h.index, h.bound, fun e he => ?_, h.out⟩
    rcases hheap e he with he | rfl
    · exact h.heap e he
    · exact ⟨k, m, hk, rfl, hm⟩
  rcases c.handleOrdered_cases (Sequence24.new k) enc with ⟨-, -, he⟩ | ⟨-, -, he⟩ | ⟨-, -, he⟩ | ⟨hidx, he⟩
  · refine hstays _ he rfl fun e hmem => ?_
    rw [(BinaryHeap.push_perm OrderedEncap.reverseLe c.heap ⟨Sequence24.new k, enc⟩).mem_iff, List.mem_cons] at hmem
    exact hmem.symm
  · exact hstays c he rfl fun e hmem => .inl hmem
  · exact hstays c he rfl fun e hmem => .inl hmem
  · have hkread : k = read := (index_eq_of_new (by have := h.bound; omega) (by omega) (h.index.symm.trans hidx)).symm
    subst hkread
    obtain ⟨n, hcarried, hreads⟩ := h.release hlt hklt
    rw [he]
    refine ⟨1 + n, ?_, hreads⟩
    rw [List.drop_eq_getElem_cons hklt, Nat.add_comm, List.take_succ_cons, (List.getElem?_eq_some_iff.1 hk).2]
    exact List.Forall₂.cons hm hcarried

/-- Skipping the index of a message moves the read index on; nothing comes out. -/
theorem skipIndex (hlt : ordered.length < 2 ^ 23) (h : Reads ordered out c read) {k : Nat} (hk : k < ordered.length) :
    ∃ read', Reads ordered out (c.skipIndex (Sequence24.new k)).2 read' := by
  unfold OrderingChannel.skipIndex
  split
  · exact ⟨read, h⟩
  · rename_i hidx
    rw [not_not] at hidx
    have hkread : k = read := (index_eq_of_new (by have := h.bound; omega) (by omega) (h.index.symm.trans hidx)).symm
    subst hkread
    obtain ⟨n, -, hreads⟩ := h.release hlt hk
    have := hreads [] (List.nil_sublist _)
    rw [List.append_nil] at this
    exact ⟨_, this⟩

end Reads

/-! ## Decoding -/

namespace Session

variable {F : Type}

/-- A packet that carries a message is decoded to what the message surfaces as. -/
theorem decodeAndPush_carried {s : Session F} {m : Message} {enc : EncapsulatedPacket} (h : m.CarriedBy enc)
    (hfits : m.CountFits) {out : List IncomingPacket} (hout : (s.decodeAndPush enc).1 = .ok out) :
    out = m.surfaced.toList := by
  unfold decodeAndPush at hout
  unfold Message.surfaced
  rw [h.payload hfits] at hout
  cases hp : decodePayload m.payload with
  | error e =>
    rw [hp] at hout
    cases hout
  | ok pkt =>
    rw [hp, h.reliability, h.channel] at hout
    cases pkt <;> cases hout <;> rfl

/-- A packet comes out with the metadata of the packet it was decoded from. -/
theorem decodeAndPush_out {s : Session F} {enc : EncapsulatedPacket} {out : List IncomingPacket}
    (hout : (s.decodeAndPush enc).1 = .ok out) :
    ∀ p ∈ out, p.reliability = enc.header.reliability ∧ p.orderingChannel = enc.orderingChannel := by
  unfold decodeAndPush at hout
  split at hout
  · cases hout
  · cases hout; simp
  · cases hout; simp
  · cases hout; simp

theorem decodeAll_out : ∀ {pkts : List EncapsulatedPacket} {s : Session F} {out : List IncomingPacket},
    (s.decodeAll pkts).1 = .ok out →
    ∀ p ∈ out, ∃ enc ∈ pkts, p.reliability = enc.header.reliability ∧ p.orderingChannel = enc.orderingChannel
  | [], s, out, hout, p, hp => by
    cases hout; cases hp
  | pkt :: pkts, s, out, hout, p, hp => by
    unfold decodeAll at hout
    split at hout
    · cases hout
    · rename_i out₁ s₁ h₁
      split at hout
      · cases hout
      · rename_i out₂ s₂ h₂
        cases hout
        rcases List.mem_append.1 hp with hp | hp
        · exact ⟨pkt, List.mem_cons_self .., decodeAndPush_out (s := s) (by rw [h₁]) p hp⟩
        · obtain ⟨enc, henc, he⟩ := decodeAll_out (s := s₁) (by rw [h₂]) p hp
          exact ⟨enc, List.mem_cons_of_mem _ henc, he⟩

theorem decodeAll_carried {ms : List Message} {pkts : List EncapsulatedPacket} (h : CarriedIn ms pkts)
    (hfits : ∀ m ∈ ms, m.CountFits) {s : Session F} {out : List IncomingPacket}
    (hout : (s.decodeAll pkts).1 = .ok out) : out = ms.filterMap Message.surfaced := by
  induction h generalizing s out with
  | nil =>
    cases hout; rfl
  | @cons m pkt ms pkts hm _ ih =>
    unfold decodeAll at hout
    split at hout
    · cases hout
    · rename_i out₁ s₁ h₁
      split at hout
      · cases hout
      · rename_i out₂ s₂ h₂
        cases hout
        have e₁ : out₁ = m.surfaced.toList := by
          refine decodeAndPush_carried (s := s) hm (hfits m (List.mem_cons_self ..)) ?_
          rw [h₁]
        have e₂ : out₂ = ms.filterMap Message.surfaced := by
          refine ih (fun m' hm' => hfits m' (List.mem_cons_of_mem _ hm')) (s := s₁) ?_
          rw [h₂]
        rw [e₁, e₂, List.filterMap_cons]
        cases m.surfaced <;> rfl

end Session

/-! ## All channels -/

namespace OrderingChannels

/-- Every packet is buffered in the heap of its own channel. -/
def Sorted (o : OrderingChannels) : Prop :=
  ∀ (c : UInt8) ch, o.channels[c.toNat]? = some ch → ∀ e ∈ ch.heap.data, e.pkt.orderingChannel = some c

theorem Sorted.set {o : OrderingChannels} (h : o.Sorted) {c : UInt8} {ch' : OrderingChannel}
    (hheap : ∀ e ∈ ch'.heap.data, e.pkt.orderingChannel = some c) : Sorted ⟨o.channels.set c.toNat ch'⟩ := by
  intro c' ch hch e he
  simp only at hch
  by_cases hc : c' = c
  · subst hc
    rw [List.getElem?_set] at hch
    simp only [if_true] at hch
    split at hch
    · cases hch; exact hheap e he
    · cases hch
  · rw [List.getElem?_set_ne fun e => hc (UInt8.toNat_inj.1 e.symm)] at hch
    exact h c' ch hch e he

theorem release_mem (ch : OrderingChannel) :
    (∀ p ∈ (OrderingChannel.release ch).1, ∃ e ∈ ch.heap.data, e.pkt = p) ∧
    ∀ e ∈ (OrderingChannel.release ch).2.heap.data, e ∈ ch.heap.data := by
  obtain ⟨popped, hout, hrel⟩ := OrderingChannel.drain_released ch.heap.len ch
  refine ⟨fun p hp => ?_, fun e he => hrel.heap.mem_iff.2 (List.mem_append_right _ he)⟩
  rw [OrderingChannel.release, hout] at hp
  obtain ⟨e, he, rfl⟩ := List.mem_map.1 hp
  exact ⟨e, hrel.heap.mem_iff.2 (List.mem_append_left _ he), rfl⟩

/-- What comes out with a packet was buffered on its channel. -/
theorem handleOrdered_mem {o : OrderingChannels} {enc : EncapsulatedPacket} {ready : List EncapsulatedPacket}
    (h : (o.handleOrdered enc).1 = some ready) : ∀ p ∈ ready, p = enc ∨
      ∃ c ch, enc.orderingChannel = some c ∧ o.channels[c.toNat]? = some ch ∧ ∃ e ∈ ch.heap.data, e.pkt = p := by
  unfold OrderingChannels.handleOrdered at h
  split at h
  · cases h
  · rename_i c hc
    split at h
    · cases h
    · rename_i ch hch
      split at h
      · cases h
      · rename_i idx _
        rw [Option.some.injEq] at h
        subst h
        intro p hp
        rcases ch.handleOrdered_cases idx enc with ⟨-, -, he⟩ | ⟨-, -, he⟩ | ⟨-, -, he⟩ | ⟨-, he⟩
        · rw [he] at hp; cases hp
        · rw [he] at hp; cases hp
        · rw [he] at hp; cases hp
        · rw [he] at hp
          refine (List.mem_cons.1 hp).imp_right fun hp => ⟨c, ch, hc, hch, ?_⟩
          exact (release_mem { ch with orderRead := ch.orderRead.next }).1 p hp

theorem Sorted.handleOrdered {o : OrderingChannels} (h : o.Sorted) (enc : EncapsulatedPacket) :
    Sorted (o.handleOrdered enc).2 := by
  unfold OrderingChannels.handleOrdered
  split
  · exact h
  · rename_i c hc
    split
    · exact h
    · rename_i ch hch
      split
      · exact h
      · rename_i idx _
        refine h.set fun e hmem => ?_
        rcases ch.handleOrdered_cases idx enc with ⟨-, -, he⟩ | ⟨-, -, he⟩ | ⟨-, -, he⟩ | ⟨-, he⟩
        · rw [he, (BinaryHeap.push_perm OrderedEncap.reverseLe ch.heap ⟨idx, enc⟩).mem_iff, List.mem_cons] at hmem
          rcases hmem with rfl | hmem
          · exact hc
          · exact h c ch hch e hmem
        · rw [he] at hmem; exact h c ch hch e hmem
        · rw [he] at hmem; exact h c ch hch e hmem
        · rw [he] at hmem
          exact h c ch hch e ((release_mem { ch with orderRead := ch.orderRead.next }).2 e hmem)

/-- A packet comes out with packets of its own channel. -/
theorem Sorted.handleOrdered_channel {o : OrderingChannels} (h : o.Sorted) {enc : EncapsulatedPacket}
    {ready : List EncapsulatedPacket} (hr : (o.handleOrdered enc).1 = some ready) :
    ∀ p ∈ ready, p.orderingChannel = enc.orderingChannel := by
  intro p hp
  rcases handleOrdered_mem hr p hp with rfl | ⟨c, ch, hc, hch, e, he, rfl⟩
  · rfl
  · rw [hc]; exact h c ch hch e he

theorem Sorted.skipIndex {o : OrderingChannels} (h : o.Sorted) (c : UInt8) (index : Sequence24) :
    Sorted (o.skipIndex c index).2 := by
  unfold OrderingChannels.skipIndex
  split
  · exact h
  · rename_i ch hch
    refine h.set fun e he => h c ch hch e ?_
    unfold OrderingChannel.skipIndex at he
    split at he
    · exact he
    · exact (release_mem { ch with orderRead := ch.orderRead.next }).2 e he

end OrderingChannels

/-! ## The receiver -/

/-- A packet that came out of an ordering channel. -/
def onChannel (c : UInt8) (p : IncomingPacket) : Bool := p.reliability.isOrdered && p.orderingChannel == some c

/-- The receiver of the messages in `log` that has returned `out` so far: its assembler collects their
parts and its channel `c` reads through the messages queued on it. -/
structure ReceivesInOrder {F : Type} (c : UInt8) (log : List Message) (r : Session F) (out : List IncomingPacket) :
    Prop where
  assembler : r.splitAssembler.AssemblerOf log
  sorted : r.ordering.Sorted
  channel : ∀ ch, r.ordering.channels[c.toNat]? = some ch →
    ∃ read, Reads (orderedOn c log) (out.filter (onChannel c)) ch read
  absent : r.ordering.channels[c.toNat]? = none → out.filter (onChannel c) = []

/-- What is fixed about the messages a receiver gets: they are numbered, split ids name one message,
and on channel `c` indexes are below half a turn and parts can be counted. -/
structure Distinguished {F : Type} (c : UInt8) (s : Session F) (log : List Message) : Prop where
  numbered : Numbered s log
  wellFormed : ∀ m ∈ log, m.WellFormed
  fragmented : fragmentedCount log < 2 ^ 16
  ordered : (orderedOn c log).length < 2 ^ 23
  fits : ∀ m ∈ orderedOn c log, m.CountFits

namespace ReceivesInOrder

variable {F : Type} {c : UInt8} {s r : Session F} {log : List Message} {out : List IncomingPacket}

theorem of_same (h : ReceivesInOrder c log r out) {r' : Session F} (ha : r'.splitAssembler = r.splitAssembler)
    (ho : r'.ordering = r.ordering) : ReceivesInOrder c log r' out :=
  ⟨by rw [ha]; exact h.assembler, by rw [ho]; exact h.sorted, by rw [ho]; exact h.channel, by rw [ho]; exact h.absent⟩

theorem append (h : ReceivesInOrder c log r out) (more : List Message) : ReceivesInOrder c (log ++ more) r out := by
  refine ⟨h.assembler.append more, h.sorted, fun ch hc => ?_, h.absent⟩
  obtain ⟨read, hreads⟩ := h.channel ch hc
  rw [orderedOn_append]
  exact ⟨read, hreads.append _⟩

theorem sublist (h : ReceivesInOrder c log r out) {out' : List IncomingPacket} (hout : out' <+ out) :
    ReceivesInOrder c log r out' := by
  refine ⟨h.assembler, h.sorted, fun ch hc => ?_, fun hc => ?_⟩
  · obtain ⟨read, hreads⟩ := h.channel ch hc
    exact ⟨read, hreads.sublist (hout.filter _)⟩
  · have := hout.filter (onChannel c)
    rwa [h.absent hc, List.sublist_nil] at this

/-- Packets that are not on the channel do not matter. -/
theorem append_other (h : ReceivesInOrder c log r out) {more : List IncomingPacket}
    (hmore : ∀ p ∈ more, onChannel c p = false) : ReceivesInOrder c log r (out ++ more) := by
  have hnil : more.filter (onChannel c) = [] := List.filter_eq_nil_iff.2 fun p hp => by simp [hmore p hp]
  have hfilter : (out ++ more).filter (onChannel c) = out.filter (onChannel c) := by
    rw [List.filter_append, hnil, List.append_nil]
  exact ⟨h.assembler, h.sorted, by rw [hfilter]; exact h.channel, by rw [hfilter]; exact h.absent⟩

end ReceivesInOrder

/-- What a call returns to its caller; an error returns no packets. -/
def returned {ε : Type} (res : Except ε (List IncomingPacket)) : List IncomingPacket :=
  match res with
  | .ok out => out
  | .error _ => []

theorem returned_mapError {ε ε' : Type} (f : ε → ε') (res : Except ε (List IncomingPacket)) :
    returned (res.mapError f) = returned res := by
  cases res <;> rfl

/-- What came out first is dropped if the rest fails. -/
theorem returned_map_append_sublist {ε : Type} (first : List IncomingPacket) (res : Except ε (List IncomingPacket)) :
    returned (res.map (first ++ ·)) <+ first ++ returned res := by
  cases res with
  | ok out => exact List.Sublist.refl _
  | error e => exact List.nil_sublist _

theorem mem_returned {ε : Type} {res : Except ε (List IncomingPacket)} {p : IncomingPacket} (h : p ∈ returned res) :
    ∃ out, res = .ok out ∧ p ∈ out := by
  cases res with
  | ok out => exact ⟨out, rfl, h⟩
  | error e => cases h

/-- A packet of another channel leaves the channel alone. -/
theorem OrderingChannels.handleOrdered_other {o : OrderingChannels} {enc : EncapsulatedPacket} {c : UInt8}
    (h : enc.orderingChannel ≠ some c) : (o.handleOrdered enc).2.channels[c.toNat]? = o.channels[c.toNat]? := by
  unfold handleOrdered
  split
  · rfl
  · rename_i c' hc'
    split
    · rfl
    · split
      · rfl
      · refine List.getElem?_set_ne fun e => h ?_
        rw [hc', UInt8.toNat_inj.1 e]

theorem OrderingChannels.skipIndex_other {o : OrderingChannels} {c c' : UInt8} (h : c' ≠ c) (index : Sequence24) :
    (o.skipIndex c' index).2.channels[c.toNat]? = o.channels[c.toNat]? := by
  unfold skipIndex
  split
  · rfl
  · exact List.getElem?_set_ne fun e => h (UInt8.toNat_inj.1 e)

namespace ReceivesInOrder

variable {F : Type} {c : UInt8} {s r : Session F} {log : List Message} {out : List IncomingPacket}

/-- Delivering an unordered packet. -/
theorem decodeAndPush (h : ReceivesInOrder c log r out) {enc : EncapsulatedPacket}
    (henc : enc.header.reliability.isOrdered = false) :
    ReceivesInOrder c log (r.decodeAndPush enc).2 (out ++ returned (r.decodeAndPush enc).1) := by
  obtain ⟨_, _, hframe⟩ := r.decodeAndPush_frame enc
  rw [hframe]
  refine (h.append_other fun p hp => ?_).of_same rfl rfl
  obtain ⟨o, ho, hp⟩ := mem_returned hp
  rw [onChannel, (Session.decodeAndPush_out ho p hp).1, henc, Bool.false_and]

/-- The session after an ordered packet: the channels as `handle_ordered` leaves them. -/
theorem handleOrdered_state (r : Session F) (enc : EncapsulatedPacket) :
    (r.handleOrdered enc).2.splitAssembler = r.splitAssembler ∧
    (r.handleOrdered enc).2.ordering = (r.ordering.handleOrdered enc).2 := by
  unfold Session.handleOrdered
  simp only
  split
  · rename_i ready _
    obtain ⟨_, _, hframe⟩ := Session.decodeAll_frame ready { r with ordering := (r.ordering.handleOrdered enc).2 }
    rw [hframe]; exact ⟨rfl, rfl⟩
  · exact ⟨rfl, rfl⟩

/-- What comes out with an ordered packet is ordered. -/
theorem handleOrdered_isOrdered (h : ∀ c, ReceivesInOrder c log r out) {enc : EncapsulatedPacket}
    (henc : enc.header.reliability.isOrdered = true) :
    ∀ p ∈ returned (r.handleOrdered enc).1, p.reliability.isOrdered = true := by
  intro p hp
  obtain ⟨o, ho, hp⟩ := mem_returned hp
  unfold Session.handleOrdered at ho
  simp only at ho
  split at ho
  · rename_i ready hr
    obtain ⟨enc', henc', hrel, -⟩ := Session.decodeAll_out ho p hp
    rw [hrel]
    rcases OrderingChannels.handleOrdered_mem hr enc' henc' with rfl | ⟨c, ch, hc, hch, e, he, rfl⟩
    · exact henc
    · obtain ⟨read, hreads⟩ := (h c).channel ch hch
      obtain ⟨k, m, hk, -, hm⟩ := hreads.heap e he
      have hon := (List.mem_filter.1 (List.mem_of_getElem? hk)).2
      rw [Bool.and_eq_true] at hon
      rw [hm.reliability]; exact hon.1
  · cases ho; cases hp

/-- Delivering a packet of another channel. -/
theorem handleOrdered_other (h : ReceivesInOrder c log r out) {enc : EncapsulatedPacket}
    (henc : enc.orderingChannel ≠ some c) :
    ReceivesInOrder c log (r.handleOrdered enc).2 (out ++ returned (r.handleOrdered enc).1) := by
  obtain ⟨hassembler, hordering⟩ := handleOrdered_state r enc
  have hsorted := h.sorted.handleOrdered enc
  have hchannel := OrderingChannels.handleOrdered_other (o := r.ordering) henc
  refine append_other ⟨by rw [hassembler]; exact h.assembler, by rw [hordering]; exact hsorted, ?_, ?_⟩ fun p hp => ?_
  · rw [hordering, hchannel]; exact h.channel
  · rw [hordering, hchannel]; exact h.absent
  · obtain ⟨o, ho, hp⟩ := mem_returned hp
    have hp' : p.orderingChannel ≠ some c := by
      unfold Session.handleOrdered at ho
      simp only at ho
      split at ho
      · rename_i ready hr
        obtain ⟨enc', henc', -, hpe⟩ := Session.decodeAll_out ho p hp
        rw [hpe, h.sorted.handleOrdered_channel hr enc' henc']
        exact henc
      · cases ho; cases hp
    simp [onChannel, hp']

/-- Delivering a packet of the channel: what is returned are messages the read index moves past. -/
theorem handleOrdered_own (hd : Distinguished c s log) (h : ReceivesInOrder c log r out) {m : Message} {k : Nat}
    (hk : (orderedOn c log)[k]? = some m) {enc : EncapsulatedPacket} (hm : m.CarriedBy enc)
    (hchannel : enc.orderingChannel = some c) (hindex : enc.orderingIndex = some (Sequence24.new k)) :
    ReceivesInOrder c log (r.handleOrdered enc).2 (out ++ returned (r.handleOrdered enc).1) := by
  obtain ⟨hassembler, hordering⟩ := handleOrdered_state r enc
  have hsorted := h.sorted.handleOrdered enc
  cases hch : r.ordering.channels[c.toNat]? with
  | none =>
    have hnone : r.ordering.handleOrdered enc = (none, r.ordering) := by
      unfold OrderingChannels.handleOrdered
      simp only [hchannel, hch]
    have hres : r.handleOrdered enc = (.ok [], r) := by
      unfold Session.handleOrdered
      simp only [hnone]
    rw [hres]
    simpa [returned] using h
  | some ch =>
    have hlt := (List.getElem?_eq_some_iff.1 hch).1
    have hres : r.ordering.handleOrdered enc = (some (ch.handleOrdered (Sequence24.new k) enc).1,
        ⟨r.ordering.channels.set c.toNat (ch.handleOrdered (Sequence24.new k) enc).2⟩) := by
      unfold OrderingChannels.handleOrdered
      simp only [hchannel, hch, hindex]
    obtain ⟨read, hreads⟩ := h.channel ch hch
    obtain ⟨n, hcarried, hnext⟩ := hreads.handleOrdered hd.ordered hk hm
    -- the messages passed, and what of them is returned
    have hms : ∀ m' ∈ ((orderedOn c log).drop read).take n, m' ∈ orderedOn c log := fun m' hm' =>
      List.mem_of_mem_drop (List.mem_of_mem_take hm')
    have hout : returned (r.handleOrdered enc).1 <+
        (((orderedOn c log).drop read).take n).filterMap Message.surfaced := by
      unfold Session.handleOrdered
      simp only [hres]
      cases hdec : (Session.decodeAll { r with ordering := ⟨r.ordering.channels.set c.toNat
          (ch.handleOrdered (Sequence24.new k) enc).2⟩ } (ch.handleOrdered (Sequence24.new k) enc).1).1 with
      | error e => exact List.nil_sublist _
      | ok o =>
        rw [Session.decodeAll_carried hcarried (fun m' hm' => hd.fits m' (hms m' hm')) hdec]; exact List.Sublist.refl _
    refine ⟨by rw [hassembler]; exact h.assembler, by rw [hordering]; exact hsorted, fun ch' hch' => ?_, fun hch' => ?_⟩
    · rw [hordering, hres, List.getElem?_set_self hlt] at hch'
      cases hch'
      rw [List.filter_append]
      refine ⟨_, hnext _ ?_⟩
      exact List.filter_sublist.trans hout
    · rw [hordering, hres, List.getElem?_set_self hlt] at hch'
      cases hch'

/-- Delivering a packet that carries a message. -/
theorem deliver (hd : Distinguished c s log) (h : ReceivesInOrder c log r out) {m : Message} (hm : m ∈ log)
    {enc : EncapsulatedPacket} (hcarried : m.CarriedBy enc) :
    ReceivesInOrder c log (r.deliver enc).2 (out ++ returned (r.deliver enc).1) := by
  unfold Session.deliver
  split
  · rename_i ho
    rw [hcarried.reliability] at ho
    obtain ⟨k, hk, hidx⟩ := hd.numbered.ordered hm ho
    have hch : enc.orderingChannel = some m.channel := by rw [hcarried.channel, hidx]; rfl
    by_cases hc : m.channel = c
    · subst hc
      exact h.handleOrdered_own hd hk hcarried hch (hcarried.index.trans hidx)
    · exact h.handleOrdered_other (by rw [hch]; simpa using hc)
  · rename_i ho
    exact h.decodeAndPush (by simpa using ho)

/-- Only the assembler and the tracker have changed. -/
theorem committed (h : ReceivesInOrder c log r out) {a : SplitAssembler} (ha : a.AssemblerOf log)
    (ridx : Option Sequence24) :
    ReceivesInOrder c log (Session.commitIndex { r with splitAssembler := a } ridx) out := by
  have hadded : ReceivesInOrder c log { r with splitAssembler := a } out := ⟨ha, h.sorted, h.channel, h.absent⟩
  cases ridx with
  | none => exact hadded
  | some idx => exact hadded.of_same rfl rfl

/-- Handling a frame of a queued message. -/
theorem handleEncapsulated (hd : Distinguished c s log) (h : ReceivesInOrder c log r out) {m : Message} (hm : m ∈ log)
    {p : EncapsulatedPacket} (hp : p ∈ m.frames) (now : Instant) :
    ReceivesInOrder c log (r.handleEncapsulated p now).2 (out ++ returned (r.handleEncapsulated p now).1) := by
  obtain ⟨hassembler, hcarried⟩ := SplitAssembler.add_frame hd.numbered hd.fragmented h.assembler hm hp now
  have hcases := r.handleEncapsulated_cases p now
  generalize r.handleEncapsulated p now = res at hcases
  cases hcases with
  | seen => simpa [returned] using h
  | refused hadd =>
    rw [hadd] at hassembler
    simpa [returned, Session.commitIndex] using h.committed hassembler none
  | pending _ hadd =>
    rw [hadd] at hassembler
    simpa [returned, Session.commitIndex] using h.committed hassembler none
  | @delivered enc a _ hadd =>
    rw [hadd] at hassembler hcarried
    exact (h.committed hassembler _).deliver hd hm (hcarried enc rfl)

/-- Handling the frames of a datagram. An error drops what came out before it. -/
theorem handleDataPayload (hd : Distinguished c s log) (now : Instant) : ∀ (packets : List EncapsulatedPacket)
    {r : Session F} {out : List IncomingPacket}, ReceivesInOrder c log r out →
      (∀ p ∈ packets, ∃ m ∈ log, p ∈ m.frames) →
    ReceivesInOrder c log (r.handleDataPayload packets now).2 (out ++ returned (r.handleDataPayload packets now).1)
  | [], r, out, h, _ => by simpa [Session.handleDataPayload, returned] using h
  | p :: rest, r, out, h, hframes => by
    obtain ⟨m, hm, hp⟩ := hframes p (List.mem_cons_self ..)
    have hfirst := h.handleEncapsulated hd hm hp now
    rcases hres : r.handleEncapsulated p now with ⟨e | o₁, r₁⟩
    · rw [hres] at hfirst
      rw [Session.handleDataPayload_cons_error rest hres]
      exact hfirst
    · rw [hres] at hfirst
      rw [Session.handleDataPayload_cons_ok rest hres]
      have hrest := handleDataPayload hd now rest hfirst fun q hq => hframes q (List.mem_cons_of_mem _ hq)
      rw [List.append_assoc] at hrest
      exact hrest.sublist ((returned_map_append_sublist _ _).append_left out)

/-- Skipping the ordering indexes of dropped entries. -/
theorem skipDropped (hd : Distinguished c s log) :
    ∀ (dropped : List (Option UInt8 × Option Sequence24)) {r : Session F}, ReceivesInOrder c log r out →
    (∀ idx, (some c, some idx) ∈ dropped → ∃ k < (orderedOn c log).length, idx = Sequence24.new k) →
    ReceivesInOrder c log { r with ordering := Session.skipDropped r.ordering dropped } out
  | [], r, h, _ => h.of_same rfl rfl
  | (some c', some idx) :: rest, r, h, hidx => by
    -- one skip, which concerns the channel or leaves it alone; then the rest
    have hskip : ReceivesInOrder c log { r with ordering := (r.ordering.skipIndex c' idx).2 } out := by
      refine ⟨h.assembler, h.sorted.skipIndex c' idx, fun ch hch => ?_, fun hch => ?_⟩
      · by_cases hc : c' = c
        · subst hc
          obtain ⟨k, hk, rfl⟩ := hidx idx (List.mem_cons_self ..)
          unfold OrderingChannels.skipIndex at hch
          cases hold : r.ordering.channels[c'.toNat]? with
          | none =>
            simp only [hold] at hch
            cases hch
          | some ch₀ =>
            simp only [hold, List.getElem?_set_self (List.getElem?_eq_some_iff.1 hold).1] at hch
            cases hch
            obtain ⟨read, hreads⟩ := h.channel ch₀ hold
            exact hreads.skipIndex hd.ordered hk
        · exact h.channel ch (by rw [← OrderingChannels.skipIndex_other hc idx]; exact hch)
      · refine h.absent ?_
        by_cases hc : c' = c
        · subst hc
          cases hold : r.ordering.channels[c'.toNat]? with
          | none => rfl
          | some ch₀ =>
            simp only [OrderingChannels.skipIndex, hold,
              List.getElem?_set_self (List.getElem?_eq_some_iff.1 hold).1] at hch
            cases hch
        · rw [← OrderingChannels.skipIndex_other hc idx]; exact hch
    have := skipDropped hd rest hskip fun i hi => hidx i (List.mem_cons_of_mem _ hi)
    exact this.of_same rfl rfl
  | (some _, none) :: rest, r, h, hidx => skipDropped hd rest h fun i hi => hidx i (List.mem_cons_of_mem _ hi)
  | (none, _) :: rest, r, h, hidx => skipDropped hd rest h fun i hi => hidx i (List.mem_cons_of_mem _ hi)

/-- Dropped entries of the channel have indexes of messages queued on it. -/
theorem prune_index (hd : Distinguished c s log) (h : ReceivesInOrder c log r out) (now : Instant)
    (iter : IterOrder SplitEntries.Item) {idx : Sequence24}
    (hidx : (some c, some idx) ∈ (r.splitAssembler.prune now iter).1) :
    ∃ k < (orderedOn c log).length, idx = Sequence24.new k := by
  obtain ⟨item, hitem, heq⟩ := List.mem_map.1 hidx
  have hmem : item ∈ r.splitAssembler.entries.entries := (iter.perm _).mem_iff.1 (List.mem_of_mem_filter hitem)
  obtain ⟨m, hm, pieces, hentry⟩ := h.assembler item.1 item.2 (AList.mem_lookup_iff.2 hmem)
  rw [Prod.mk.injEq, hentry.channel, hentry.index] at heq
  obtain ⟨hch, hi⟩ := heq
  have ho : m.reliability.isOrdered = true := by
    by_contra ho
    rw [(hd.wellFormed m hm).unordered (by simpa using ho)] at hi
    cases hi
  obtain ⟨k, hk, hmi⟩ := hd.numbered.ordered hm ho
  rw [hmi, Option.map_some, Option.some.injEq] at hch
  rw [hmi, Option.some.injEq] at hi
  rw [hch] at hk
  exact ⟨k, (List.getElem?_eq_some_iff.1 hk).1, hi.symm⟩

theorem pruneSplits (hd : Distinguished c s log) (h : ReceivesInOrder c log r out) (now : Instant)
    (iter : IterOrder SplitEntries.Item) : ReceivesInOrder c log (r.pruneSplits now iter) out := by
  have hpruned : ReceivesInOrder c log { r with splitAssembler := (r.splitAssembler.prune now iter).2 } out :=
    ⟨h.assembler.prune now iter, h.sorted, h.channel, h.absent⟩
  exact (hpruned.skipDropped hd _ fun idx hidx => h.prune_index hd now iter hidx).of_same rfl rfl

/-- Allocating an ordering index leaves read indexes and heaps alone. -/
theorem allocOrderingIndex (h : ReceivesInOrder c log r out) (reliability : Reliability) (channel : UInt8) :
    ReceivesInOrder c log (r.allocOrderingIndex reliability channel).2 out := by
  unfold Session.allocOrderingIndex
  split
  · simp only
    unfold OrderingChannels.nextOrderIndex
    cases hold : r.ordering.channels[channel.toNat]? with
    | none => exact h.of_same rfl rfl
    | some ch₀ =>
      have hlt := (List.getElem?_eq_some_iff.1 hold).1
      refine ⟨h.assembler, h.sorted.set fun e he => h.sorted channel ch₀ hold e he, fun ch hch => ?_,
        fun hch => h.absent ?_⟩
      · simp only [List.getElem?_set] at hch
        split at hch
        · rename_i hc
          cases hch
          rw [hc] at hold
          obtain ⟨read, hreads⟩ := h.channel ch₀ hold
          exact ⟨read, hreads.of_same rfl rfl⟩
        · exact h.channel ch hch
      · simp only [List.getElem?_set] at hch
        split at hch
        · cases hch
        · exact hch
  · exact h

/-- Every operation other than handling a payload. -/
theorem step [Float64 F] (hd : Distinguished c s log) (h : ReceivesInOrder c log r out) (op : Session.Op)
    (hop : ∀ packets now, op ≠ .handleDataPayload packets now) : ReceivesInOrder c log (r.step op) out := by
  have hcases := r.step_cases op
  generalize r.step op = r' at hcases
  cases hcases with
  | @queuePacket pkt reliability channel priority _ =>
    cases hm : r.message pkt reliability channel with
    | none => rwa [Session.queuePacket_of_none hm]
    | some m =>
      obtain ⟨_, _, _, _, _, _, hsame⟩ := r.queuePacket_same pkt reliability channel priority
      obtain ⟨_, halloc⟩ := r.allocOrderingIndex_frame m.reliability m.channel
      refine (h.allocOrderingIndex m.reliability m.channel).of_same ?_ (Session.queuePacket_spec hm priority).ordering
      rw [hsame, halloc]
  | handleDataPayload _ => exact absurd rfl (hop _ _)
  | onTick => exact (h.pruneSplits hd _ _).of_same rfl rfl
  | _ => exact h.of_same rfl rfl

/-- A new receiver. -/
theorem new [Float64 F] (c : UInt8) (mtu : Nat) (tunables : SessionTunables) :
    ReceivesInOrder c [] (Session.withTunables mtu tunables : Session F) [] := by
  have hch : ∀ (i : Nat) ch, (OrderingChannels.new tunables.maxOrderingChannels).channels[i]? = some ch →
      ch = OrderingChannel.new := by
    intro i ch hi
    simp only [OrderingChannels.new, List.getElem?_replicate] at hi
    split at hi
    · cases hi; rfl
    · cases hi
  refine ⟨.new _ _ _, fun c ch hc e he => ?_, fun ch hc => ?_, fun _ => rfl⟩
  · rw [hch _ ch hc] at he
    cases he
  · rw [hch _ ch hc]
    exact ⟨0, .new _⟩

end ReceivesInOrder

end BedrockRs.Raknet

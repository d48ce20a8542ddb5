/-
What a session keeps for its peer. A peer decides which packets arrive, in which order and how many; the
tunables decide how much of it is kept. The buffers of reassembly, of ordered delivery, of the duplicate
filter and of outgoing acknowledgements are each bounded by one invariant (`Within`) that their
operations keep, and a session has them all (`Footprint`) in every run in which no packet carries more
than `n` bytes of payload. So the bytes of payload a session holds have a bound as well (`heldBytes_le`).

The acknowledgements that came in since the last tick are not bounded and not counted here.
-/
import BedrockRs.Raknet.Session.ChannelRuns
import BedrockRs.Raknet.Session.ManagedRuns
import BedrockRs.Raknet.Session.SplitErrors

namespace BedrockRs.Raknet

open Lib

/-! ## The acknowledgement queue -/

namespace AckQueue

/-- A queue of at most `capacity` ranges. -/
structure Within (capacity : Nat) (q : AckQueue) : Prop where
  limit : q.maxRanges = capacity
  ranges : q.queue.length ≤ capacity

namespace Within

variable {capacity : Nat} {q : AckQueue}

theorem new (capacity : Nat) : (AckQueue.new capacity).Within capacity := ⟨rfl, Nat.zero_le _⟩

theorem tryMerge (h : q.Within capacity) {range : SequenceRange} {merged : AckQueue}
    (hmerge : q.tryMerge range = some merged) : merged.Within capacity := by
  unfold AckQueue.tryMerge at hmerge
  split at hmerge
  · rename_i last hlast
    obtain ⟨range', -, rfl⟩ := Option.map_eq_some_iff.1 hmerge
    have hlen : (q.queue.dropLast ++ [range']).length = q.queue.length := by
      rw [List.length_append, List.length_dropLast, List.length_singleton]
      exact Nat.sub_add_cancel (List.length_pos_of_mem (List.mem_of_getLast? hlast))
    exact ⟨h.limit, hlen.trans_le h.ranges⟩
  · cases hmerge

theorem pushBack (h : q.Within capacity) (hroom : ¬ q.queue.length ≥ q.maxRanges) (range : SequenceRange) :
    (q.pushBack range).Within capacity := by
  refine ⟨h.limit, ?_⟩
  have hlimit := h.limit
  rw [AckQueue.pushBack, List.length_append, List.length_singleton]
  omega

theorem pushPlain (h : q.Within capacity) (range : SequenceRange) : (q.pushPlain range).Within capacity := by
  unfold AckQueue.pushPlain
  split
  · exact h
  · rename_i hroom
    split
    · exact h.tryMerge ‹_›
    · exact h.pushBack hroom range

theorem push (h : q.Within capacity) (range : SequenceRange) : (q.push range).Within capacity := by
  unfold AckQueue.push
  split
  · exact h
  · rename_i hroom
    split
    · exact h.tryMerge ‹_›
    · split
      · exact (h.pushPlain _).pushPlain _
      · exact h.pushBack hroom range

theorem popForMtu (h : q.Within capacity) (mtu baseOverhead : Nat) :
    (q.popForMtu mtu baseOverhead).2.Within capacity := by
  refine ⟨h.limit, ?_⟩
  have hlen := congrArg List.length (q.popForMtu_append mtu baseOverhead)
  rw [List.length_append] at hlen
  have := h.ranges
  omega

theorem queueNaks (stop : Sequence24) : ∀ (fuel : Nat) {q : AckQueue} (start : Sequence24), q.Within capacity →
    (Session.queueNaks stop fuel q start).Within capacity
  | 0, _, _, h => h.push _
  | fuel + 1, _, _, h => by
    unfold Session.queueNaks
    simp only
    split
    · exact h.push _
    · exact queueNaks stop fuel _ (h.push _)

end Within

end AckQueue

/-! ## The duplicate filter -/

namespace ReliableTracker

/-- A filter whose bitmap has at most `window` bits. -/
structure Within (window : Nat) (t : ReliableTracker) : Prop where
  limit : t.maxWindow = window
  bits : t.window.length ≤ window

theorem Within.see {window : Nat} {t : ReliableTracker} (h : t.Within window) (ridx : Sequence24) :
    (t.see ridx).2.Within window := by
  by_cases hbase : ridx = t.base
  · subst hbase
    obtain ⟨k, hwindow, -, hmax⟩ := t.see_base
    refine ⟨hmax.trans h.limit, ?_⟩
    have hlen := congrArg List.length hwindow
    rw [List.length_append] at hlen
    have := h.bits
    omega
  · by_cases hdist : t.base.distanceTo ridx ≤ t.maxWindow
    · rw [see_of_inWindow hbase hdist]
      refine ⟨h.limit, ?_⟩
      have hlimit := h.limit
      have hbits := h.bits
      rw [mark, List.length_set, resize, List.length_append, List.length_replicate]
      omega
    · rw [see_of_outOfWindow ⟨hbase, Nat.not_le.1 hdist⟩]
      exact h

end ReliableTracker

/-! ## Reassembly -/

namespace SplitEntry

/-- An entry of at most `parts` parts of at most `n` bytes. -/
structure Within (parts n : Nat) (entry : SplitEntry) : Prop where
  parts : entry.parts.length ≤ parts
  bytes : ∀ part, some part ∈ entry.parts → part.length ≤ n

/-- The bytes of payload that an entry holds. -/
def heldBytes (entry : SplitEntry) : Nat := (entry.parts.map fun part => (part.getD []).length).sum

theorem Within.heldBytes_le {parts n : Nat} {entry : SplitEntry} (h : entry.Within parts n) :
    entry.heldBytes ≤ parts * n := by
  have hpart : ∀ k ∈ entry.parts.map fun part => (part.getD []).length, k ≤ n := by
    intro k hk
    obtain ⟨part, hpart, rfl⟩ := List.mem_map.1 hk
    cases part with
    | none => exact Nat.zero_le n
    | some part => exact h.bytes part hpart
  calc entry.heldBytes ≤ entry.parts.length * n := by simpa [heldBytes] using List.sum_le_card_nsmul _ n hpart
    _ ≤ parts * n := Nat.mul_le_mul_right n h.parts

end SplitEntry

namespace SplitAssembler

/-- An assembler of at most `concurrent` entries, which are `Within` their own limits. -/
structure Within (parts concurrent n : Nat) (a : SplitAssembler) : Prop where
  maxParts : a.maxParts = parts
  maxConcurrent : a.maxConcurrent = concurrent
  room : a.entries.entries.length ≤ concurrent
  entries : ∀ id entry, a.entries.lookup id = some entry → entry.Within parts n

namespace Within

variable {parts concurrent n : Nat} {a : SplitAssembler} {pkt : EncapsulatedPacket} {split : SplitInfo} {now : Instant}

theorem new (ttl : Duration) (parts concurrent n : Nat) :
    (SplitAssembler.new ttl parts concurrent).Within parts concurrent n :=
  ⟨rfl, rfl, Nat.zero_le _, fun _ _ h => by cases h⟩

theorem openEntry (h : a.Within parts concurrent n) (hadmits : a.Admits pkt split) :
    (openEntry pkt split now).Within parts n := by
  refine ⟨?_, fun part hpart => ?_⟩
  · rw [SplitAssembler.openEntry, List.length_replicate, ← h.maxParts]
    exact hadmits.count
  · cases List.eq_of_mem_replicate hpart

/-- The entry a fragment is added to, with its part. -/
theorem filled (h : a.Within parts concurrent n) (hfits : a.Fits pkt split now) (hpkt : pkt.payload.length ≤ n) :
    (a.filled pkt split now).Within parts n := by
  have hentry : (a.entryFor pkt split now).Within parts n := by
    unfold entryFor
    cases hlookup : a.entries.lookup split.id with
    | none => exact h.openEntry hfits.admits
    | some entry => exact h.entries _ _ hlookup
  refine ⟨(List.length_set ..).trans_le hentry.parts, fun part hpart => ?_⟩
  rcases List.mem_or_eq_of_mem_set hpart with hold | hnew
  · exact hentry.bytes part hold
  · cases hnew
    exact hpkt

/-- A fragment that the assembler admits takes up one of its entries. -/
theorem insert (h : a.Within parts concurrent n) (hadmits : a.Admits pkt split) {entry : SplitEntry}
    (hentry : entry.Within parts n) :
    Within parts concurrent n { a with entries := a.entries.insert split.id entry } := by
  refine ⟨h.maxParts, h.maxConcurrent, ?_, HashMap.every_insert h.entries hentry⟩
  have hroom := h.room
  by_cases hmem : split.id ∈ a.entries
  · exact (HashMap.len_insert_of_mem hmem entry).trans_le hroom
  · rcases hadmits.room with hlt | hsome
    · have hlen : (a.entries.insert split.id entry).entries.length = a.entries.entries.length + 1 :=
        HashMap.len_insert_of_notMem hmem entry
      have := h.maxConcurrent
      show (a.entries.insert split.id entry).entries.length ≤ concurrent
      omega
    · exact absurd (AList.lookup_isSome.1 hsome) hmem

theorem add (h : a.Within parts concurrent n) (hpkt : pkt.payload.length ≤ n) (now : Instant) :
    (a.add pkt now).2.Within parts concurrent n := by
  have hcases := a.add_cases pkt now
  generalize a.add pkt now = result at hcases
  cases hcases with
  | whole _ => exact h
  | refused _ => exact h
  | duplicate _ => exact h
  | opened hadmits _ _ => exact h.insert hadmits (h.openEntry hadmits)
  | stored hfits _ => exact h.insert hfits.admits (h.filled hfits hpkt)
  | broken hfits _ _ => exact h.insert hfits.admits (h.filled hfits hpkt)
  | completed _ _ _ =>
    exact ⟨h.maxParts, h.maxConcurrent, (HashMap.len_erase_le _ _).trans h.room, HashMap.every_erase h.entries _⟩

theorem prune (h : a.Within parts concurrent n) (now : Instant) (iter : IterOrder SplitEntries.Item) :
    (a.prune now iter).2.Within parts concurrent n :=
  ⟨h.maxParts, h.maxConcurrent, (List.length_filter_le _ _).trans h.room,
    HashMap.every_retain h.entries fun entry => !a.expired now entry⟩

end Within

theorem length_joinParts : ∀ {ps : List (Option Bytes)} {payload : Bytes}, joinParts ps = .ok payload →
    payload.length = (ps.map fun part => (part.getD []).length).sum
  | [], payload, h => by
    cases h
    rfl
  | none :: _, _, h => by cases h
  | some part :: ps, payload, h => by
    unfold joinParts at h
    cases hrest : joinParts ps with
    | error e =>
      rw [hrest] at h
      cases h
    | ok rest =>
      rw [hrest] at h
      cases h
      rw [List.length_append, length_joinParts hrest]
      rfl

/-- What comes out of the assembler is as long as the parts of one entry at most. -/
theorem Within.add_payload {parts concurrent n : Nat} {a a' : SplitAssembler} (h : a.Within parts concurrent n)
    {pkt enc : EncapsulatedPacket} (hpkt : pkt.payload.length ≤ n) {now : Instant}
    (hadd : a.add pkt now = (.ok (some enc), a')) : enc.payload.length ≤ max 1 parts * n := by
  have hcases := a.add_cases pkt now
  rw [hadd] at hcases
  cases hcases with
  | whole _ => exact hpkt.trans (Nat.le_mul_of_pos_left n (Nat.lt_of_lt_of_le Nat.one_pos (Nat.le_max_left 1 parts)))
  | @completed split payload hfits _ hjoin =>
    calc (assembled (a.filled pkt split now) payload).payload.length = (a.filled pkt split now).heldBytes :=
          length_joinParts hjoin
      _ ≤ parts * n := (h.filled hfits hpkt).heldBytes_le
      _ ≤ max 1 parts * n := Nat.mul_le_mul_right n (Nat.le_max_right 1 parts)

/-- The bytes of payload that an assembler holds. -/
def heldBytes (a : SplitAssembler) : Nat := (a.entries.entries.map fun item => item.2.heldBytes).sum

theorem Within.heldBytes_le {parts concurrent n : Nat} {a : SplitAssembler} (h : a.Within parts concurrent n) :
    a.heldBytes ≤ concurrent * (parts * n) := by
  have hentry : ∀ k ∈ a.entries.entries.map fun item => item.2.heldBytes, k ≤ parts * n := by
    intro k hk
    obtain ⟨item, hitem, rfl⟩ := List.mem_map.1 hk
    exact (h.entries item.1 item.2 ((List.mem_dlookup_iff a.entries.nodupKeys).2 hitem)).heldBytes_le
  calc a.heldBytes ≤ a.entries.entries.length * (parts * n) := by
        simpa [heldBytes] using List.sum_le_card_nsmul _ _ hentry
    _ ≤ concurrent * (parts * n) := Nat.mul_le_mul_right _ h.room

end SplitAssembler

/-! ## Ordered delivery -/

namespace OrderingChannel

/-- A channel whose buffer has at most 2048 packets, of at most `n` bytes each. -/
structure Within (n : Nat) (c : OrderingChannel) : Prop where
  room : c.heap.len ≤ 2048
  bytes : ∀ o ∈ c.heap.data, o.pkt.payload.length ≤ n

/-- The bytes of payload that a channel holds. -/
def heldBytes (c : OrderingChannel) : Nat := (c.heap.data.map fun o => o.pkt.payload.length).sum

namespace Within

variable {n : Nat} {c : OrderingChannel}

theorem release (h : c.Within n) (orderRead : Sequence24) :
    (OrderingChannel.release { c with orderRead }).2.Within n := by
  obtain ⟨popped, -, hrel⟩ := drain_released c.heap.len { c with orderRead }
  refine ⟨(release_len_le _).trans h.room, fun o ho => h.bytes o ?_⟩
  exact hrel.heap.symm.subset (List.mem_append_right popped ho)

theorem handleOrdered (h : c.Within n) (idx : Sequence24) {enc : EncapsulatedPacket} (henc : enc.payload.length ≤ n) :
    (c.handleOrdered idx enc).2.Within n := by
  refine ⟨c.handleOrdered_len idx enc h.room, ?_⟩
  rcases c.handleOrdered_cases idx enc with ⟨-, -, he⟩ | ⟨-, -, he⟩ | ⟨-, -, he⟩ | ⟨-, he⟩
  · rw [he]
    intro o ho
    rcases BinaryHeap.mem_push.1 ho with rfl | hold
    · exact henc
    · exact h.bytes o hold
  · rw [he]
    exact h.bytes
  · rw [he]
    exact h.bytes
  · rw [he]
    exact (h.release _).bytes

theorem skipIndex (h : c.Within n) (index : Sequence24) : (c.skipIndex index).2.Within n := by
  unfold OrderingChannel.skipIndex
  split
  · exact h
  · exact h.release _

theorem heldBytes_le (h : c.Within n) : c.heldBytes ≤ 2048 * n := by
  have hpacket : ∀ k ∈ c.heap.data.map fun o => o.pkt.payload.length, k ≤ n := by
    intro k hk
    obtain ⟨o, ho, rfl⟩ := List.mem_map.1 hk
    exact h.bytes o ho
  calc c.heldBytes ≤ c.heap.len * n := by simpa [heldBytes, BinaryHeap.len] using List.sum_le_card_nsmul _ n hpacket
    _ ≤ 2048 * n := Nat.mul_le_mul_right n h.room

end Within

end OrderingChannel

namespace OrderingChannels

/-- Channels in a fixed number, which are `Within` their own limits. -/
structure Within (count n : Nat) (o : OrderingChannels) : Prop where
  count : o.maxChannels = count
  channels : ∀ c ∈ o.channels, c.Within n

/-- The bytes of payload that all channels hold. -/
def heldBytes (o : OrderingChannels) : Nat := (o.channels.map OrderingChannel.heldBytes).sum

namespace Within

variable {count n : Nat} {o : OrderingChannels}

theorem new (count n : Nat) : (OrderingChannels.new count).Within count n := by
  refine ⟨List.length_replicate, fun c hc => ?_⟩
  rw [List.eq_of_mem_replicate hc]
  exact ⟨Nat.zero_le _, fun o ho => absurd ho List.not_mem_nil⟩

theorem set (h : o.Within count n) {c : OrderingChannel} (hc : c.Within n) (i : Nat) :
    Within count n ⟨o.channels.set i c⟩ :=
  ⟨(List.length_set ..).trans h.count, set_kept h.channels hc i⟩

theorem nextOrderIndex (h : o.Within count n) (channel : UInt8) : (o.nextOrderIndex channel).2.Within count n := by
  unfold OrderingChannels.nextOrderIndex
  split
  · exact h
  · rename_i c hc
    have hchannel := h.channels c (List.mem_of_getElem? hc)
    have hnext : OrderingChannel.Within n { c with orderWrite := c.orderWrite.next } := ⟨hchannel.room, hchannel.bytes⟩
    exact h.set hnext _

theorem handleOrdered (h : o.Within count n) {enc : EncapsulatedPacket} (henc : enc.payload.length ≤ n) :
    (o.handleOrdered enc).2.Within count n := by
  unfold OrderingChannels.handleOrdered
  split
  · exact h
  · split
    · exact h
    · rename_i c hc
      split
      · exact h
      · exact h.set ((h.channels c (List.mem_of_getElem? hc)).handleOrdered _ henc) _

theorem skipIndex (h : o.Within count n) (channel : UInt8) (index : Sequence24) :
    (o.skipIndex channel index).2.Within count n := by
  unfold OrderingChannels.skipIndex
  split
  · exact h
  · rename_i c hc
    exact h.set ((h.channels c (List.mem_of_getElem? hc)).skipIndex index) _

theorem heldBytes_le (h : o.Within count n) : o.heldBytes ≤ count * (2048 * n) := by
  have hchannel : ∀ k ∈ o.channels.map OrderingChannel.heldBytes, k ≤ 2048 * n := by
    intro k hk
    obtain ⟨c, hc, rfl⟩ := List.mem_map.1 hk
    exact (h.channels c hc).heldBytes_le
  calc o.heldBytes ≤ o.maxChannels * (2048 * n) := by
        simpa [heldBytes, maxChannels] using List.sum_le_card_nsmul _ _ hchannel
    _ = count * (2048 * n) := by rw [h.count]

end Within

end OrderingChannels

/-! ## The session -/

namespace Session

variable {F : Type}

/-- What a session with these tunables keeps for a peer whose packets carry at most `n` bytes each. -/
structure Footprint (tunables : SessionTunables) (n : Nat) (s : Session F) : Prop where
  ordering : s.ordering.Within tunables.maxOrderingChannels (max 1 tunables.maxSplitParts * n)
  splits : s.splitAssembler.Within tunables.maxSplitParts tunables.maxConcurrentSplits n
  filter : s.reliableTracker.Within tunables.reliableWindow
  acks : s.outgoingAcks.Within tunables.ackQueueCapacity
  naks : s.outgoingNaks.Within tunables.ackQueueCapacity

/-- The bytes of payload that a session holds for its peer. -/
def heldBytes (s : Session F) : Nat := s.ordering.heldBytes + s.splitAssembler.heldBytes

/-- An operation that brings packets of at most `n` bytes only. -/
def Op.Short (n : Nat) : Op → Prop
  | .handleDataPayload packets _ => ∀ p ∈ packets, p.payload.length ≤ n
  | _ => True

namespace Footprint

variable {tunables : SessionTunables} {n : Nat} {s : Session F}

theorem heldBytes_le (h : s.Footprint tunables n) : s.heldBytes ≤
    tunables.maxOrderingChannels * (2048 * (max 1 tunables.maxSplitParts * n)) +
      tunables.maxConcurrentSplits * (tunables.maxSplitParts * n) :=
  Nat.add_le_add h.ordering.heldBytes_le h.splits.heldBytes_le

theorem queuePacket (h : s.Footprint tunables n) (pkt : RaknetPacket) (reliability : Reliability) (channel : UInt8)
    (priority : RakPriority) : (s.queuePacket pkt reliability channel priority).2.Footprint tunables n := by
  cases hmsg : s.message pkt reliability channel with
  | none =>
    rw [queuePacket_of_none hmsg]
    exact h
  | some m =>
    have hordering : (s.queuePacket pkt reliability channel priority).2.ordering.Within tunables.maxOrderingChannels
        (max 1 tunables.maxSplitParts * n) := by
      rw [(queuePacket_spec hmsg priority).ordering]
      unfold allocOrderingIndex
      split
      · exact h.ordering.nextOrderIndex _
      · exact h.ordering
    obtain ⟨_, _, _, _, _, _, hsame⟩ := s.queuePacket_same pkt reliability channel priority
    rw [hsame] at hordering ⊢
    exact ⟨hordering, h.splits, h.filter, h.acks, h.naks⟩

theorem commitIndex (h : s.Footprint tunables n) (ridx : Option Sequence24) :
    (s.commitIndex ridx).Footprint tunables n := by
  cases ridx with
  | none => exact h
  | some idx => exact ⟨h.ordering, h.splits, h.filter.see idx, h.acks, h.naks⟩

theorem deliver (h : s.Footprint tunables n) {enc : EncapsulatedPacket}
    (henc : enc.payload.length ≤ max 1 tunables.maxSplitParts * n) : (s.deliver enc).2.Footprint tunables n := by
  obtain ⟨_, _, hdeliver⟩ := s.deliver_frame enc
  rw [hdeliver]
  refine ⟨?_, h.splits, h.filter, h.acks, h.naks⟩
  dsimp only
  split
  · exact h.ordering.handleOrdered henc
  · exact h.ordering

theorem handleEncapsulated (h : s.Footprint tunables n) {enc : EncapsulatedPacket} (henc : enc.payload.length ≤ n)
    (now : Instant) : (s.handleEncapsulated enc now).2.Footprint tunables n := by
  have hsplits := h.splits.add henc now
  have hcases := s.handleEncapsulated_cases enc now
  generalize s.handleEncapsulated enc now = result at hcases
  cases hcases with
  | seen _ _ => exact h
  | refused hadd =>
    rw [hadd] at hsplits
    exact ⟨h.ordering, hsplits, h.filter, h.acks, h.naks⟩
  | pending _ hadd =>
    rw [hadd] at hsplits
    exact ⟨h.ordering, hsplits, h.filter, h.acks, h.naks⟩
  | @delivered enc' splitAssembler _ hadd =>
    rw [hadd] at hsplits
    have hadded : Footprint tunables n { s with splitAssembler } := ⟨h.ordering, hsplits, h.filter, h.acks, h.naks⟩
    exact (hadded.commitIndex _).deliver (h.splits.add_payload henc hadd)

theorem handleDataPayload (h : s.Footprint tunables n) {packets : List EncapsulatedPacket}
    (hpackets : ∀ p ∈ packets, p.payload.length ≤ n) (now : Instant) :
    (s.handleDataPayload packets now).2.Footprint tunables n := by
  induction packets generalizing s with
  | nil => exact h
  | cons enc rest ih =>
    have hfirst := h.handleEncapsulated (hpackets enc (List.mem_cons_self ..)) now
    rcases hhandled : s.handleEncapsulated enc now with ⟨_ | out, s'⟩
    · rw [hhandled] at hfirst
      rw [handleDataPayload_cons_error rest hhandled]
      exact hfirst
    · rw [hhandled] at hfirst
      rw [handleDataPayload_cons_ok rest hhandled]
      exact ih hfirst fun p hp => hpackets p (List.mem_cons_of_mem _ hp)

theorem processDatagramSequence (h : s.Footprint tunables n) (seq : Sequence24) :
    (s.processDatagramSequence seq).Footprint tunables n := by
  unfold Session.processDatagramSequence
  simp only
  split
  · exact ⟨h.ordering, h.splits, h.filter, h.acks.push _, h.naks⟩
  · split
    · exact ⟨h.ordering, h.splits, h.filter, h.acks.push _, h.naks⟩
    · exact ⟨h.ordering, h.splits, h.filter, h.acks.push _, h.naks.queueNaks _ _ _⟩

theorem skipDropped {count k : Nat} (dropped : List (Option UInt8 × Option Sequence24)) {o : OrderingChannels}
    (h : o.Within count k) : (Session.skipDropped o dropped).Within count k := by
  induction dropped generalizing o with
  | nil => exact h
  | cons item rest ih =>
    rcases item with ⟨_ | ch, _ | idx⟩
    · exact ih h
    · exact ih h
    · exact ih h
    · exact ih (h.skipIndex ch idx)

variable [Float64 F]

theorem onTick (h : s.Footprint tunables n) (now : Instant) (iter : IterOrder SplitEntries.Item) :
    (s.onTick now iter).2.Footprint tunables n := by
  obtain ⟨acks, naks, hstate⟩ := s.onTick_state now iter
  obtain ⟨_, _, _, hframe⟩ := s.afterResends_frame now iter
  have hacks := s.onTick_outgoingAcks now iter
  have hnaks := s.onTick_outgoingNaks now iter
  rw [hstate] at hacks hnaks ⊢
  rw [hframe]
  refine ⟨skipDropped _ h.ordering, h.splits.prune now iter, h.filter, ?_, ?_⟩
  · show acks.Within _
    rw [show acks = _ from hacks]
    exact h.acks.popForMtu _ _
  · show naks.Within _
    rw [show naks = _ from hnaks]
    exact h.naks.popForMtu _ _

theorem new (mtu : Nat) (tunables : SessionTunables) (n : Nat) :
    (withTunables mtu tunables : Session F).Footprint tunables n :=
  ⟨.new _ _, .new _ _ _ _, ⟨rfl, Nat.zero_le _⟩, .new _, .new _⟩

theorem step (h : s.Footprint tunables n) {op : Op} (hop : op.Short n) : (s.step op).Footprint tunables n := by
  cases op with
  | queuePacket pkt reliability channel priority => exact h.queuePacket pkt reliability channel priority
  | buildDataDatagram now =>
    obtain ⟨_, _, _, _, hbuild⟩ := s.buildDataDatagram_frame now
    rw [Session.step, hbuild]
    exact ⟨h.ordering, h.splits, h.filter, h.acks, h.naks⟩
  | handleDataPayload packets now => exact h.handleDataPayload hop now
  | processDatagramSequence seq => exact h.processDatagramSequence seq
  | handleAckPayload payload => exact ⟨h.ordering, h.splits, h.filter, h.acks, h.naks⟩
  | handleNackPayload payload => exact ⟨h.ordering, h.splits, h.filter, h.acks, h.naks⟩
  | onTick now iter => exact h.onTick now iter

end Footprint

end Session

namespace ManagedSession

variable {F : Type} [Float64 F] {tunables : SessionTunables} {n : Nat}

/-- A call that brings packets of at most `n` bytes only. -/
def Op.Short (n : Nat) : Op → Prop
  | .handleDatagram dgram _ => ∀ p ∈ dgram.packets, p.payload.length ≤ n
  | _ => True

theorem short_of_handlerOp {op : Session.Op} (h : HandlerOp op) : op.Short n := by
  cases op with
  | handleDataPayload packets now => exact h.elim
  | _ => trivial

theorem footprint_reach {s s' : Session F} (h : s.Footprint tunables n)
    (hreach : InnerReach (Session.Op.Short n) s s') : s'.Footprint tunables n :=
  hreach.inv (fun _ _ hop h => h.step hop) h

theorem footprint_step (start : Instant) {m : ManagedSession F} (h : m.inner.Footprint tunables n) {op : Op}
    (hop : op.Short n) : (m.step start op).inner.Footprint tunables n := by
  have hown : ∀ op, HandlerOp op → op.Short n := fun _ => short_of_handlerOp
  by_cases hdata : ∃ dgram now, op = .handleDatagram dgram now
  · obtain ⟨dgram, now, rfl⟩ := hdata
    show (m.handleDatagram start dgram now).2.inner.Footprint tunables n
    by_cases hclosed : m.state = .closed
    · rw [handleDatagram_closed start hclosed]
      exact h
    · exact footprint_reach (h.handleDataPayload hop now) (handleDatagram_open hown start hclosed dgram now).2
  · refine footprint_reach h
      (m.step_inner hown start op (fun _ _ _ => trivial) (fun dgram now hop => ?_) fun _ _ _ _ _ _ _ => trivial)
    exact absurd ⟨dgram, now, hop⟩ hdata

/-- In every run in which no packet carries more than `n` bytes, a managed session keeps to its tunables. -/
theorem footprint_run (start : Instant) (peer : SocketAddr) (mtu : Nat) (now : Instant) (config : SessionConfig)
    {ops : List Op} (hops : ∀ op ∈ ops, op.Short n) :
    (Machine.run (step start) (.withConfig peer mtu now config : ManagedSession F) ops).inner.Footprint config.session
    n := by
  have hreach : Machine.Reach (step start) (Op.Short n) (.withConfig peer mtu now config : ManagedSession F) _ :=
    ⟨ops, hops, rfl⟩
  exact hreach.inv (I := fun m => m.inner.Footprint config.session n) (fun _ _ hop h => footprint_step start h hop)
    (.new mtu config.session n)

end ManagedSession

end BedrockRs.Raknet

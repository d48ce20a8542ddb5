/-
Expired split packets and the channels they were to be delivered on. A tick tells the channel of an
expired message to skip its index, and the channel does so only if it waits for that very index at that
moment; what is dropped ahead of the read index is forgotten. So a tick lets no channel wait for a lost
message, in whatever order the map is walked, when nothing it drops is ahead of the read index of its
channel. Where something is, the read index can come to stand at a number that no packet will ever carry.
-/
import BedrockRs.Raknet.Session.ChannelRuns
import BedrockRs.Raknet.Session.SplitExpiry

namespace BedrockRs.Raknet

open Lib

namespace OrderingChannel

/-! ## One channel -/

theorem skipAll_append (c : OrderingChannel) (as bs : List Sequence24) :
    c.skipAll (as ++ bs) = (c.skipAll as).skipAll bs :=
  List.foldl_append

/-- Indexes the channel does not wait for are skipped over without effect. -/
theorem skipAll_of_notMem {c : OrderingChannel} {indexes : List Sequence24} (h : c.orderRead ∉ indexes) :
    c.skipAll indexes = c := by
  induction indexes with
  | nil => rfl
  | cons index rest ih =>
    obtain ⟨hne, hrest⟩ := not_or.1 fun hmem => h (List.mem_cons.2 hmem)
    have hskip : (c.skipIndex index).2 = c := by
      unfold skipIndex
      rw [if_pos hne]
    show ((c.skipIndex index).2).skipAll rest = c
    rw [hskip, ih hrest]

/-- A skip moves the read index by one, and by one more for each packet it releases. -/
theorem skipIndex_read (c : OrderingChannel) : ∃ k, 1 ≤ k ∧ k ≤ c.heap.len + 1 ∧
    (c.skipIndex c.orderRead).2.orderRead = Sequence24.new (c.orderRead.val + k) := by
  obtain ⟨popped, -, hrel⟩ := drain_released c.heap.len { c with orderRead := c.orderRead.next }
  have hlen := hrel.heap.length_eq
  rw [List.length_append] at hlen
  dsimp only at hlen
  refine ⟨popped.length + 1, by omega, ?_, ?_⟩
  · unfold BinaryHeap.len
    omega
  · unfold skipIndex
    rw [if_neg (not_not_intro rfl)]
    exact hrel.read.trans (Sequence24.next_add c.orderRead popped.length)

/-- None of the indexes is ahead of the read index. -/
def NoneAhead (c : OrderingChannel) (indexes : List Sequence24) : Prop :=
  ∀ index ∈ indexes, c.orderRead.lt index = false

/-- A number that is not ahead is not reached by a step of fewer than half a turn. -/
theorem ne_of_not_ahead {read index : Sequence24} {k : Nat} (h : read.lt index = false) (hpos : 1 ≤ k)
    (hk : k ≤ 2 ^ 23) : Sequence24.new (read.val + k) ≠ index := by
  rintro rfl
  rw [← Bool.not_eq_true, Sequence24.lt_iff_distanceTo, Sequence24.distanceTo_new_add _ (by omega)] at h
  omega

/-- With nothing ahead, the channel skips the index it waits for, once, if it is among those dropped. -/
theorem skipAll_of_noneAhead {c : OrderingChannel} (hlen : c.heap.len ≤ 2048) {indexes : List Sequence24}
    (h : c.NoneAhead indexes) :
    c.skipAll indexes = if c.orderRead ∈ indexes then (c.skipIndex c.orderRead).2 else c := by
  by_cases hmem : c.orderRead ∈ indexes
  · rw [if_pos hmem]
    obtain ⟨before, behind, rfl, hbefore⟩ := List.eq_append_cons_of_mem hmem
    obtain ⟨k, hpos, hk, hread⟩ := c.skipIndex_read
    rw [skipAll_append, skipAll_of_notMem hbefore]
    show ((c.skipIndex c.orderRead).2).skipAll behind = _
    -- the read index has moved on, and none of the rest is in front of it
    refine skipAll_of_notMem ?_
    intro hagain
    rw [hread] at hagain
    have hahead := h _ (List.mem_append_right _ (List.mem_cons_of_mem _ hagain))
    exact ne_of_not_ahead hahead hpos (by omega) rfl
  · rw [if_neg hmem, skipAll_of_notMem hmem]

end OrderingChannel

namespace Session

variable {F : Type}

/-! ## The tick -/

/-- The read index of a channel. -/
def readAt (s : Session F) (i : Nat) : Option Sequence24 := (s.ordering.channels[i]?).map OrderingChannel.orderRead

/-- A tick at `now` drops a split entry of the ordered message `(ch, idx)`. -/
def Drops (s : Session F) (now : Instant) (ch : UInt8) (idx : Sequence24) : Prop :=
  ∃ item ∈ s.splitAssembler.entries.entries, s.splitAssembler.expired now item.2 = true ∧
    item.2.orderingChannel = some ch ∧ item.2.orderingIndex = some idx

/-- Nothing that a tick at `now` drops is ahead of the read index of its channel. -/
def DropsNothingAhead (s : Session F) (now : Instant) : Prop :=
  ∀ ch idx, s.Drops now ch idx → ∀ read, s.readAt ch.toNat = some read → read.lt idx = false

theorem mem_expiredIndexes {s : Session F} {now : Instant} {iter : IterOrder SplitEntries.Item} {i : Nat}
    {idx : Sequence24} : idx ∈ s.expiredIndexes now iter i ↔ ∃ ch : UInt8, ch.toNat = i ∧ s.Drops now ch idx := by
  unfold expiredIndexes Drops
  simp only [List.mem_filterMap, List.mem_filter, (iter.perm s.splitAssembler.entries.entries).mem_iff]
  constructor
  · rintro ⟨item, ⟨hitem, hexpired⟩, hindex⟩
    rcases hch : item.2.orderingChannel with _ | ch
    · rw [hch] at hindex
      cases hindex
    · rcases hidx : item.2.orderingIndex with _ | idx'
      · rw [hch, hidx] at hindex
        cases hindex
      · rw [hch, hidx, droppedIndex] at hindex
        split at hindex
        · rename_i hi
          cases hindex
          exact ⟨ch, hi, item, hitem, hexpired, hch, hidx⟩
        · cases hindex
  · rintro ⟨ch, rfl, item, hitem, hexpired, hch, hidx⟩
    refine ⟨item, ⟨hitem, hexpired⟩, ?_⟩
    rw [hch, hidx, droppedIndex, if_pos rfl]

variable [Float64 F]

/-- What such a tick does to a channel, whichever way it walks over the map. -/
theorem onTick_channel_of_noneAhead {s : Session F} (hlen : ∀ c ∈ s.ordering.channels, c.heap.len ≤ 2048)
    {now : Instant} (h : s.DropsNothingAhead now) (iter : IterOrder SplitEntries.Item) {i : Nat} {c : OrderingChannel}
    (hc : s.ordering.channels[i]? = some c) :
    (s.onTick now iter).2.ordering.channels[i]? =
      some (if c.orderRead ∈ s.expiredIndexes now iter i then (c.skipIndex c.orderRead).2 else c) := by
  have hread : s.readAt i = some c.orderRead := by
    rw [readAt, hc]
    rfl
  have hnone : c.NoneAhead (s.expiredIndexes now iter i) := by
    intro idx hidx
    obtain ⟨ch, rfl, hdrops⟩ := mem_expiredIndexes.1 hidx
    exact h ch idx hdrops _ hread
  rw [onTick_channel, hc, Option.map_some,
    OrderingChannel.skipAll_of_noneAhead (hlen c (List.mem_of_getElem? hc)) hnone]

/-- The channel stands at the index, and has not been past it at any time since. -/
def LeftWaiting (s : Session F) (ops : List Op) (ch : UInt8) (idx : Sequence24) : Prop :=
  (Machine.run step s ops).readAt ch.toNat = some idx ∧
    ∀ earlier, earlier <+: ops → ∀ read, (Machine.run step s earlier).readAt ch.toNat = some read → read.gt idx = false

/-- Right after such a tick every dropped index is behind: it was before, or the channel has just skipped it. -/
theorem passed_of_drops {s : Session F} (hlen : ∀ c ∈ s.ordering.channels, c.heap.len ≤ 2048) {now : Instant}
    (h : s.DropsNothingAhead now) (iter : IterOrder SplitEntries.Item) {ch : UInt8} {idx : Sequence24}
    (hdrops : s.Drops now ch idx) {c : OrderingChannel} (hc : s.ordering.channels[ch.toNat]? = some c) :
    c.orderRead.gt idx = true ∨ ∃ read, (s.onTick now iter).2.readAt ch.toNat = some read ∧ read.gt idx = true := by
  have hread : s.readAt ch.toNat = some c.orderRead := by
    rw [readAt, hc]
    rfl
  have hahead := h ch idx hdrops _ hread
  by_cases hidx : c.orderRead = idx
  · right
    obtain ⟨k, hpos, hk, hskip⟩ := c.skipIndex_read
    have hmem : c.orderRead ∈ s.expiredIndexes now iter ch.toNat := mem_expiredIndexes.2 ⟨ch, rfl, hidx ▸ hdrops⟩
    have hroom := hlen c (List.mem_of_getElem? hc)
    refine ⟨(c.skipIndex c.orderRead).2.orderRead, ?_, ?_⟩
    · rw [readAt, onTick_channel_of_noneAhead hlen h iter hc, if_pos hmem]
      rfl
    · rw [hskip, ← hidx, Sequence24.gt_iff_distanceTo, Sequence24.distanceTo_new_add _ (by omega)]
      omega
  · left
    have hne := Sequence24.ext_iff'.not.1 hidx
    have hread := c.orderRead.isLt
    have hdropped := idx.isLt
    rw [← Bool.not_eq_true, Sequence24.lt_iff] at hahead
    rw [Sequence24.gt_iff]
    omega

/-- If a tick drops nothing ahead of a read index, no dropped index keeps its channel waiting from then on,
and the read indexes do not depend on the way over the map. -/
theorem onTick_unblocks (mtu : Nat) (tunables : SessionTunables) (before : List Op) (now : Instant)
    (h : (after mtu tunables before : Session F).DropsNothingAhead now) :
    (∀ iter ch idx, (after mtu tunables before : Session F).Drops now ch idx → ∀ later,
      ¬ LeftWaiting (after mtu tunables before : Session F) (.onTick now iter :: later) ch idx) ∧
    ∀ iter iter' i, ((after mtu tunables before : Session F).onTick now iter).2.readAt i =
      ((after mtu tunables before : Session F).onTick now iter').2.readAt i := by
  have hlen := heap_len_after (F := F) mtu tunables before
  constructor
  · rintro iter ch idx hdrops later ⟨hstands, hnever⟩
    cases hc : (after mtu tunables before : Session F).ordering.channels[ch.toNat]? with
    | none =>
      -- there is no such channel, before the tick or at any time after it
      have hcount : ∀ ops, (after mtu tunables ops : Session F).ordering.channels.length =
          tunables.maxOrderingChannels :=
        ordering_after (OrderingChannels.kept_maxChannels _) mtu tunables List.length_replicate
      have hnone : (after mtu tunables (before ++ .onTick now iter :: later) : Session F).ordering.channels[ch.toNat]? =
          none := by
        rw [List.getElem?_eq_none_iff] at hc ⊢
        rw [hcount] at hc ⊢
        exact hc
      rw [after, Machine.run_append] at hnone
      rw [readAt, after, hnone] at hstands
      cases hstands
    | some c =>
      rcases passed_of_drops hlen h iter hdrops hc with hgt | ⟨read, hread, hgt⟩
      · have hpast := hnever [] List.nil_prefix c.orderRead (by rw [Machine.run_nil, readAt, hc, Option.map_some])
        rw [hgt] at hpast
        cases hpast
      · have hpast := hnever [.onTick now iter] ⟨later, rfl⟩ read hread
        rw [hgt] at hpast
        cases hpast
  · intro iter iter' i
    unfold readAt
    cases hc : (after mtu tunables before : Session F).ordering.channels[i]? with
    | none =>
      rw [onTick_channel, onTick_channel, hc]
      rfl
    | some c =>
      have hmem : c.orderRead ∈ (after mtu tunables before : Session F).expiredIndexes now iter i ↔
          c.orderRead ∈ (after mtu tunables before : Session F).expiredIndexes now iter' i :=
        mem_expiredIndexes.trans mem_expiredIndexes.symm
      rw [onTick_channel_of_noneAhead hlen h iter hc, onTick_channel_of_noneAhead hlen h iter' hc]
      simp only [hmem]

/-- The first of two fragments of an ordered message. -/
def orderedFragment (index : Nat) (id : UInt16) : EncapsulatedPacket :=
  { header := ⟨.reliableOrdered, true, false⟩, bitLength := 8, reliableIndex := some (Sequence24.new index)
    sequenceIndex := none, orderingIndex := some (Sequence24.new index), orderingChannel := some 0
    split := some ⟨2, id, 0⟩, payload := [0x80] }

/-- One half of the first message arrives, and nothing of the second. -/
theorem onTick_unblocks_first :
    (after 1400 {} [.handleDataPayload [orderedFragment 0 0] 0] : Session ℚ).Drops (Duration.fromSecs 30) 0
    (Sequence24.new 0) ∧ ¬ LeftWaiting (after 1400 {} [.handleDataPayload [orderedFragment 0 0] 0] : Session ℚ)
      [.onTick (Duration.fromSecs 30) (IterOrder.stored _)] 0 (Sequence24.new 0) := by
  have hdrops : (after 1400 {} [.handleDataPayload [orderedFragment 0 0] 0] : Session ℚ).Drops (Duration.fromSecs 30) 0
      (Sequence24.new 0) := by
    unfold Drops
    decide +kernel
  refine ⟨hdrops,
    (onTick_unblocks (F := ℚ) 1400 {} [.handleDataPayload [orderedFragment 0 0] 0] (Duration.fromSecs 30) ?_).1
    (IterOrder.stored _) 0 (Sequence24.new 0) hdrops []⟩
  rintro ch idx ⟨item, hitem, -, hch, hidx⟩ read hread
  have hentries :
    (after 1400 {} [.handleDataPayload [orderedFragment 0 0] 0] : Session ℚ).splitAssembler.entries.entries.map
      (fun item => (item.2.orderingChannel, item.2.orderingIndex)) = [(some 0, some (Sequence24.new 0))] := by
        decide +kernel
  have hmem :=
    List.mem_map_of_mem (f := fun item : SplitEntries.Item => (item.2.orderingChannel, item.2.orderingIndex)) hitem
  rw [hentries, List.mem_singleton, hch, hidx] at hmem
  cases hmem
  have hfirst : (after 1400 {} [.handleDataPayload [orderedFragment 0 0] 0] : Session ℚ).readAt 0 =
      some (Sequence24.new 0) := by
    decide +kernel
  rw [show (0 : UInt8).toNat = 0 from rfl, hfirst] at hread
  cases hread
  rfl

/-- One half of each of two messages arrives, and both expire in one tick. -/
def twoHalves : Session ℚ := after 1400 {} [.handleDataPayload [orderedFragment 0 0, orderedFragment 1 1] 0]

/-- If the map is walked from the second message to the first, the channel is left waiting for the second. -/
theorem onTick_blocks :
    ¬ (∀ (mtu : Nat) (tunables : SessionTunables) (before : List Op) (now : Instant) iter ch idx,
      (after mtu tunables before : Session ℚ).Drops now ch idx → ∀ later,
        ¬ LeftWaiting (after mtu tunables before : Session ℚ) (.onTick now iter :: later) ch idx) ∧
    (twoHalves.onTick (Duration.fromSecs 30) (IterOrder.stored _)).2.readAt 0 ≠
      (twoHalves.onTick (Duration.fromSecs 30) ⟨List.reverse, List.reverse_perm⟩).2.readAt 0 := by
  have hstored : (twoHalves.onTick (Duration.fromSecs 30) (IterOrder.stored _)).2.readAt 0 =
      some (Sequence24.new 1) := by
    decide +kernel
  have hreversed : (twoHalves.onTick (Duration.fromSecs 30) ⟨List.reverse, List.reverse_perm⟩).2.readAt 0 =
      some (Sequence24.new 2) := by decide +kernel
  have hstart : twoHalves.readAt 0 = some (Sequence24.new 0) := by decide +kernel
  have hdrops : twoHalves.Drops (Duration.fromSecs 30) 0 (Sequence24.new 1) := by
    unfold Drops
    decide +kernel
  -- the two ticks differ in the order of the walk only
  constructor
  · intro hnever
    refine hnever 1400 {} [.handleDataPayload [orderedFragment 0 0, orderedFragment 1 1] 0] (Duration.fromSecs 30)
      (IterOrder.stored _) 0 (Sequence24.new 1) hdrops [] ⟨hstored, ?_⟩
    intro earlier hearlier read hread
    rcases List.prefix_cons_iff.1 hearlier with rfl | ⟨rest, rfl, hrest⟩
    · rw [show (0 : UInt8).toNat = 0 from rfl] at hread
      cases hstart.symm.trans hread
      decide
    · cases List.prefix_nil.1 hrest
      cases hstored.symm.trans hread
      decide
  · rw [hstored, hreversed]
    decide

end Session

end BedrockRs.Raknet

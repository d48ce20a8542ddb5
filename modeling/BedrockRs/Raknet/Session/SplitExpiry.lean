/-
What a tick does to buffered ordered packets. An expired split entry makes `skip_index` move a
channel's read index past the lost message and release what waits behind it; the tick drops the
released packets. So a tick keeps every buffered packet exactly when no read index is moved onto the
index at the top of its channel's heap.
-/
import BedrockRs.Raknet.Session.Frame
import BedrockRs.Raknet.Session.OrderingSpec

namespace BedrockRs.Raknet

open Lib
open scoped List

/-! ## One channel -/

namespace OrderingChannel

/-- The channel after skipping the indexes in order. -/
def skipAll (c : OrderingChannel) (indexes : List Sequence24) : OrderingChannel :=
  indexes.foldl (fun c index => (c.skipIndex index).2) c

/-- Walking over `indexes` from the read index `read`, a skip never stops right before `top`. -/
def NeverReaches (top : Option Sequence24) : Sequence24 → List Sequence24 → Prop
  | _, [] => True
  | read, index :: rest =>
    if read = index then top ≠ some read.next ∧ NeverReaches top read.next rest else NeverReaches top read rest

instance (top : Option Sequence24) : ∀ (read : Sequence24) (indexes : List Sequence24),
    Decidable (NeverReaches top read indexes)
  | _, [] => inferInstanceAs (Decidable True)
  | read, index :: rest =>
    have := instDecidableNeverReaches top read.next rest
    have := instDecidableNeverReaches top read rest
    inferInstanceAs (Decidable (if read = index then _ ∧ _ else _))

theorem skipIndex_released (c : OrderingChannel) (index : Sequence24) :
    (c.skipIndex index).2.heap.data <+~ c.heap.data := by
  unfold skipIndex
  split
  · exact List.Subperm.refl _
  · obtain ⟨popped, -, hrel⟩ := drain_released c.heap.len { c with orderRead := c.orderRead.next }
    exact (List.sublist_append_right popped _).subperm.trans hrel.heap.symm.subperm

theorem skipAll_released (c : OrderingChannel) (indexes : List Sequence24) :
    (c.skipAll indexes).heap.data <+~ c.heap.data :=
  List.foldlRecOn (motive := fun c' : OrderingChannel => c'.heap.data <+~ c.heap.data) indexes _
    (List.Subperm.refl _) fun c' h index _ => (c'.skipIndex_released index).trans h

theorem skipAll_keeps_iff : ∀ (indexes : List Sequence24) (c : OrderingChannel),
    c.heap.data <+~ (c.skipAll indexes).heap.data ↔
      NeverReaches (c.heap.peek.map OrderedEncap.index) c.orderRead indexes
  | [], c => iff_of_true (List.Subperm.refl _) trivial
  | index :: rest, c => by
    show c.heap.data <+~ (((c.skipIndex index).2).skipAll rest).heap.data ↔ _
    unfold NeverReaches skipIndex
    by_cases hread : c.orderRead = index
    · simp only [hread, ne_eq, not_true_eq_false, if_false, if_true]
      rw [← hread]
      by_cases htop : c.heap.peek.map OrderedEncap.index = some c.orderRead.next
      · -- the loop takes the top, and no later skip puts it back
        obtain ⟨top, hpeek, hidx⟩ := Option.map_eq_some_iff.1 htop
        have hless := release_of_peek_eq (c := { c with orderRead := c.orderRead.next }) hpeek hidx
        refine iff_of_false (fun hsub => ?_) fun h => h.1 htop
        have h1 := hsub.length_le
        have h2 := (skipAll_released (release { c with orderRead := c.orderRead.next }).2 rest).length_le
        unfold BinaryHeap.len at hless
        simp only at hless
        omega
      · have hne : ∀ top, c.heap.peek = some top → top.index ≠ c.orderRead.next := by
          intro top hpeek hidx
          exact htop (by rw [hpeek, Option.map_some, hidx])
        rw [release_of_peek_ne (c := { c with orderRead := c.orderRead.next }) hne]
        rw [skipAll_keeps_iff rest { c with orderRead := c.orderRead.next }]
        simp [htop]
    · simp only [hread, ne_eq, not_false_eq_true, if_true, if_false]
      exact skipAll_keeps_iff rest c

end OrderingChannel

namespace Session

variable {F : Type} [Float64 F]

/-! ## All channels -/

/-- The ordering index of a dropped split entry, if it belongs to channel `i`. -/
def droppedIndex (i : Nat) : Option UInt8 × Option Sequence24 → Option Sequence24
  | (some ch, some idx) => if ch.toNat = i then some idx else none
  | _ => none

theorem skipDropped_channel (i : Nat) : ∀ (dropped : List (Option UInt8 × Option Sequence24)) (o : OrderingChannels),
    (skipDropped o dropped).channels[i]? =
      (o.channels[i]?).map fun c => c.skipAll (dropped.filterMap (droppedIndex i))
  | [], o => by simp [skipDropped, OrderingChannel.skipAll]
  | (some ch, some idx) :: rest, o => by
    rw [skipDropped, skipDropped_channel i rest]
    unfold OrderingChannels.skipIndex
    by_cases hch : ch.toNat = i
    · rw [hch]
      cases hc : o.channels[i]? with
      | none => simp [hc]
      | some c =>
        have hi := (List.getElem?_eq_some_iff.1 hc).1
        simp [droppedIndex, hch, hi, OrderingChannel.skipAll]
    · cases hc : o.channels[ch.toNat]? with
      | none => simp [droppedIndex, hch]
      | some c => simp [droppedIndex, hch]
  | (none, _) :: rest, o => skipDropped_channel i rest o
  | (some _, none) :: rest, o => skipDropped_channel i rest o

omit [Float64 F] in
/-- The ordering indexes, on channel `i`, of the split entries that expire at `now`, in the order in
which the map is walked. -/
def expiredIndexes (s : Session F) (now : Instant) (iter : IterOrder SplitEntries.Item) (i : Nat) : List Sequence24 :=
  ((iter.order s.splitAssembler.entries.entries).filter fun item => s.splitAssembler.expired now item.2).filterMap
    fun item => droppedIndex i (item.2.orderingChannel, item.2.orderingIndex)

theorem onTick_channel (s : Session F) (now : Instant) (iter : IterOrder SplitEntries.Item) (i : Nat) :
    (s.onTick now iter).2.ordering.channels[i]? =
      (s.ordering.channels[i]?).map fun c => c.skipAll (s.expiredIndexes now iter i) := by
  obtain ⟨_, _, htick⟩ := s.onTick_state now iter
  obtain ⟨_, _, _, hafter⟩ := s.afterResends_frame now iter
  rw [htick, hafter]
  show (skipDropped s.ordering (s.splitAssembler.prune now iter).1).channels[i]? = _
  rw [skipDropped_channel]
  unfold SplitAssembler.prune expiredIndexes
  rw [List.filterMap_map]
  rfl

/-- Conservation on tick, exactly. A tick keeps every packet buffered in an ordering heap if and only
if, on every channel, walking over the ordering indexes of the expired split entries never moves the
read index onto the index at the top of the heap. -/
theorem onTick_keeps_buffered_iff (s : Session F) (now : Instant) (iter : IterOrder SplitEntries.Item) :
    (∀ (i : Nat) (c c' : OrderingChannel), s.ordering.channels[i]? = some c →
      (s.onTick now iter).2.ordering.channels[i]? = some c' → c.heap.data <+~ c'.heap.data) ↔
    ∀ (i : Nat) (c : OrderingChannel), s.ordering.channels[i]? = some c →
      OrderingChannel.NeverReaches (c.heap.peek.map OrderedEncap.index) c.orderRead (s.expiredIndexes now iter i) := by
  constructor
  · intro h i c hc
    refine (OrderingChannel.skipAll_keeps_iff _ c).1 (h i c _ hc ?_)
    rw [onTick_channel, hc]; rfl
  · intro h i c c' hc hc'
    rw [onTick_channel, hc] at hc'
    cases hc'
    exact (OrderingChannel.skipAll_keeps_iff _ c).2 (h i c hc)

/-- The second of two ordered messages, sent whole. -/
def laterPacket : EncapsulatedPacket :=
  { header := ⟨.reliableOrdered, false, false⟩, bitLength := 8, reliableIndex := some (Sequence24.new 2)
    sequenceIndex := none, orderingIndex := some (Sequence24.new 1), orderingChannel := some 0, split := none
    payload := [0x81] }

/-- One of two fragments of the first message arrives, then the whole second message. -/
def lostFragmentRun : List Op :=
  [.handleDataPayload [{ laterPacket with
      header := ⟨.reliableOrdered, true, false⟩, reliableIndex := some (Sequence24.new 0)
      orderingIndex := some (Sequence24.new 0), split := some ⟨2, 0, 0⟩, payload := [0x80] }] 0,
    .handleDataPayload [laterPacket] (Duration.fromSecs 1)]

/-- When the fragment expires, the buffered second message leaves the heap and is gone. -/
theorem onTick_discards_buffered :
    (after 1400 {} lostFragmentRun : Session ℚ).ordering.channels[0]? =
      some ⟨Sequence24.new 0, Sequence24.new 0, ⟨[⟨Sequence24.new 1, laterPacket⟩]⟩⟩ ∧
    ((after 1400 {} lostFragmentRun : Session ℚ).onTick (Duration.fromSecs 30)
      (IterOrder.stored _)).2.ordering.channels[0]? = some ⟨Sequence24.new 2, Sequence24.new 0, ⟨[]⟩⟩ ∧
    ¬ ∀ (i : Nat) (c c' : OrderingChannel), (after 1400 {} lostFragmentRun : Session ℚ).ordering.channels[i]? = some c →
      ((after 1400 {} lostFragmentRun : Session ℚ).onTick (Duration.fromSecs 30)
        (IterOrder.stored _)).2.ordering.channels[i]? = some c' → c.heap.data <+~ c'.heap.data := by
  have hbefore : (after 1400 {} lostFragmentRun : Session ℚ).ordering.channels[0]? =
      some ⟨Sequence24.new 0, Sequence24.new 0, ⟨[⟨Sequence24.new 1, laterPacket⟩]⟩⟩ := by decide +kernel
  have hafter : ((after 1400 {} lostFragmentRun : Session ℚ).onTick (Duration.fromSecs 30)
      (IterOrder.stored _)).2.ordering.channels[0]? = some ⟨Sequence24.new 2, Sequence24.new 0, ⟨[]⟩⟩ := by
    decide +kernel
  refine ⟨hbefore, hafter, fun h => ?_⟩
  have hle := (h 0 _ _ hbefore hafter).length_le
  simp at hle

end Session

end BedrockRs.Raknet

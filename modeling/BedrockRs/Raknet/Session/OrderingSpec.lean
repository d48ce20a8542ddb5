/-
What the operations of one ordering channel do: which packets the release loop takes from the heap,
and the cases of `handle_ordered` and `skip_index`. Every result about ordered delivery uses these
lemmas and none unfolds the loop again.
-/
import BedrockRs.Raknet.Session.OrderingChannels

namespace BedrockRs.Raknet.OrderingChannel

open Lib

/-! ## The release loop -/

/-- What the release loop does between `c` and `c'`: it takes `popped` from the heap, whose indexes
count up from the read index, and moves the read index past them. -/
structure Released (c c' : OrderingChannel) (popped : List OrderedEncap) : Prop where
  heap : c.heap.data.Perm (popped ++ c'.heap.data)
  indexes : popped.map OrderedEncap.index =
    (List.range popped.length).map fun i => Sequence24.new (c.orderRead.val + i)
  read : c'.orderRead = Sequence24.new (c.orderRead.val + popped.length)
  write : c'.orderWrite = c.orderWrite

theorem Released.refl (c : OrderingChannel) : Released c c [] :=
  ⟨List.Perm.refl _, rfl, by simp, rfl⟩

theorem Released.cons {c c' : OrderingChannel} {entry : OrderedEncap} {heap : BinaryHeap OrderedEncap}
    {popped : List OrderedEncap} (hperm : c.heap.data.Perm (entry :: heap.data)) (hidx : entry.index = c.orderRead)
    (h : Released { c with heap, orderRead := c.orderRead.next } c' popped) : Released c c' (entry :: popped) := by
  refine ⟨hperm.trans (List.Perm.cons _ h.heap), ?_, ?_, h.write⟩
  · rw [List.map_cons, h.indexes, List.length_cons, List.range_succ_eq_map, List.map_cons, List.map_map, hidx,
      Nat.add_zero, Sequence24.new_val]
    congr 1
    exact List.map_congr_left fun i _ => Sequence24.next_add c.orderRead i
  · rw [h.read, List.length_cons]
    exact Sequence24.next_add c.orderRead popped.length

theorem drain_released : ∀ (fuel : Nat) (c : OrderingChannel), ∃ popped,
    (drain fuel c).1 = popped.map OrderedEncap.pkt ∧ Released c (drain fuel c).2 popped
  | 0, c => ⟨[], rfl, .refl c⟩
  | fuel + 1, c => by
    unfold drain
    split
    · exact ⟨[], rfl, .refl c⟩
    · rename_i top hpeek
      split
      · rename_i hidx
        split
        · exact ⟨[], rfl, .refl c⟩
        · rename_i entry heap hpop
          obtain ⟨hpeek', hperm⟩ := BinaryHeap.pop_some hpop
          rw [hpeek] at hpeek'
          cases hpeek'
          obtain ⟨popped, hout, hrel⟩ := drain_released fuel { c with heap, orderRead := c.orderRead.next }
          exact ⟨top :: popped, by simp only [hout, List.map_cons], hrel.cons hperm hidx⟩
      · exact ⟨[], rfl, .refl c⟩

/-- The loop does nothing when the top of the heap is not the index read next. -/
theorem drain_of_peek_ne {c : OrderingChannel} (h : ∀ top, c.heap.peek = some top → top.index ≠ c.orderRead) :
    ∀ fuel, drain fuel c = ([], c)
  | 0 => rfl
  | fuel + 1 => by
    unfold drain
    split
    · rfl
    · rename_i top hpeek
      rw [if_neg (h top hpeek)]

theorem release_of_peek_ne {c : OrderingChannel} (h : ∀ top, c.heap.peek = some top → top.index ≠ c.orderRead) :
    release c = ([], c) :=
  drain_of_peek_ne h _

/-- The loop takes the top of the heap when it is the index read next. -/
theorem release_of_peek_eq {c : OrderingChannel} {top : OrderedEncap} (hpeek : c.heap.peek = some top)
    (hidx : top.index = c.orderRead) : (release c).2.heap.len < c.heap.len := by
  obtain ⟨heap, hpop⟩ := BinaryHeap.pop_of_peek OrderedEncap.reverseLe hpeek
  have hlen := BinaryHeap.len_pop hpop
  obtain ⟨popped, -, hrel⟩ := drain_released heap.len { c with heap, orderRead := c.orderRead.next }
  have hle := hrel.heap.length_eq
  rw [List.length_append] at hle
  unfold release
  rw [hlen]
  unfold drain
  rw [hpeek]
  simp only [hidx, if_true, hpop]
  unfold BinaryHeap.len at *
  simp only at hle
  omega

/-! ## The operations -/

/-- A packet for later is kept in the heap, or dropped when the heap is full; one from the past is
dropped; the expected one is returned with what it releases. -/
theorem handleOrdered_cases (c : OrderingChannel) (idx : Sequence24) (enc : EncapsulatedPacket) :
    (c.orderRead.lt idx = true ∧ c.heap.len < 2048 ∧ c.handleOrdered idx enc =
      ([], { c with heap := c.heap.push OrderedEncap.reverseLe ⟨idx, enc⟩ })) ∨
    (c.orderRead.lt idx = true ∧ 2048 ≤ c.heap.len ∧ c.handleOrdered idx enc = ([], c)) ∨
    (c.orderRead.lt idx = false ∧ c.orderRead.gt idx = true ∧ c.handleOrdered idx enc = ([], c)) ∨
    (c.orderRead = idx ∧ c.handleOrdered idx enc = (enc :: (release { c with orderRead := c.orderRead.next }).1,
      (release { c with orderRead := c.orderRead.next }).2)) := by
  unfold handleOrdered
  split
  · rename_i hlt
    split
    · exact .inr (.inl ⟨hlt, ‹_›, rfl⟩)
    · exact .inl ⟨hlt, by omega, rfl⟩
  · rename_i hlt
    split
    · exact .inr (.inr (.inl ⟨by simpa using hlt, ‹_›, rfl⟩))
    · rename_i hgt
      refine .inr (.inr (.inr ⟨?_, rfl⟩))
      by_contra hne
      have h1 := c.orderRead.isLt
      have h2 := idx.isLt
      have h3 := (Sequence24.ext_iff' (a := c.orderRead) (b := idx)).not.1 hne
      rw [Sequence24.lt_iff] at hlt
      rw [Sequence24.gt_iff] at hgt
      omega

end BedrockRs.Raknet.OrderingChannel

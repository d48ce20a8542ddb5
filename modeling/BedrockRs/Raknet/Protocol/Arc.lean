/-
Ranges of sequence numbers as arcs of the circle. A range is a start and a count (`addNat_count`), its numbers are the
first `count` steps from the start, and two arcs whose starts are close cover an arc together (`numbers_union`). The
circular comparisons of `AckQueue::push` and of the gap loop are read off the positions on an arc.
-/
import BedrockRs.Raknet.Protocol.Ack

namespace BedrockRs.Raknet

/-! ## Steps from a sequence number -/

namespace Sequence24

/-- `n` steps of `next`. -/
def addNat (a : Sequence24) (n : Nat) : Sequence24 := new (a.val + n)

@[simp] theorem addNat_zero (a : Sequence24) : a.addNat 0 = a := by simp [addNat]

@[simp] theorem addNat_addNat (a : Sequence24) (i j : Nat) : (a.addNat i).addNat j = a.addNat (i + j) := by
  apply ext
  simp only [addNat, val_new]
  omega

theorem next_addNat (a : Sequence24) (n : Nat) : (a.addNat n).next = a.addNat (n + 1) := by
  apply ext
  simp only [next, addNat, val_new]
  omega

theorem addNat_turn (a : Sequence24) (n : Nat) : a.addNat (n + 2 ^ 24) = a.addNat n := by
  apply ext
  simp only [addNat, val_new]
  omega

@[simp] theorem addNat_distanceTo (a b : Sequence24) : a.addNat (a.distanceTo b) = b := new_add_distanceTo a b

theorem distanceTo_addNat (a : Sequence24) {n : Nat} (h : n < 2 ^ 24) : a.distanceTo (a.addNat n) = n :=
  distanceTo_new_add a h

theorem distanceTo_addNat_of_le (a : Sequence24) {i j : Nat} (hij : i ≤ j) (h : j - i < 2 ^ 24) :
    (a.addNat i).distanceTo (a.addNat j) = j - i := by
  have hj : a.addNat j = (a.addNat i).addNat (j - i) := by rw [addNat_addNat, Nat.add_sub_cancel' hij]
  rw [hj, distanceTo_addNat _ h]

theorem distanceTo_addNat_of_lt (a : Sequence24) {i j : Nat} (hji : j < i) (h : i - j ≤ 2 ^ 24) :
    (a.addNat i).distanceTo (a.addNat j) = 2 ^ 24 - (i - j) := by
  rw [← a.addNat_turn j, distanceTo_addNat_of_le a (by omega) (by omega)]
  omega

theorem addNat_injective (a : Sequence24) {i j : Nat} (hi : i < 2 ^ 24) (hj : j < 2 ^ 24)
    (h : a.addNat i = a.addNat j) : i = j := by
  rw [← a.distanceTo_addNat hi, h, a.distanceTo_addNat hj]

theorem ge_iff_distanceTo {a b : Sequence24} : a.ge b = true ↔ a.distanceTo b = 0 ∨ 2 ^ 23 < a.distanceTo b := by
  rw [ge_iff, lt_iff_distanceTo]
  omega

/-! Less than half a turn from `a` on, the comparisons are those of the positions. -/

section Positions

variable (a : Sequence24) {i j : Nat}

theorem ge_addNat (hi : i < 2 ^ 23) (hj : j < 2 ^ 23) : (a.addNat i).ge (a.addNat j) = true ↔ j ≤ i := by
  rw [ge_iff_distanceTo]
  rcases Nat.lt_or_ge j i with hij | hij
  · rw [distanceTo_addNat_of_lt a hij (by omega)]
    omega
  · rw [distanceTo_addNat_of_le a hij (by omega)]
    omega

theorem lt_addNat (hi : i < 2 ^ 23) (hj : j < 2 ^ 23) : (a.addNat j).lt (a.addNat i) = true ↔ j < i := by
  have hge := a.ge_addNat hj hi
  rw [ge_iff] at hge
  rw [← not_iff_not, hge, Nat.not_lt]

theorem max_addNat (hi : i < 2 ^ 23) (hj : j < 2 ^ 23) : (a.addNat i).max (a.addNat j) = a.addNat (Max.max i j) := by
  have hlt := a.lt_addNat hi hj
  by_cases hij : j < i
  · rw [max, if_pos (hlt.2 hij), Nat.max_eq_left hij.le]
  · rw [max, if_neg (hlt.not.2 hij), Nat.max_eq_right (Nat.le_of_not_lt hij)]

theorem min_addNat (hi : i < 2 ^ 23) (hj : j < 2 ^ 23) : (a.addNat i).min (a.addNat j) = a.addNat (Min.min i j) := by
  have hlt := a.lt_addNat hi hj
  by_cases hij : j < i
  · rw [min, if_pos (hlt.2 hij), Nat.min_eq_right hij.le]
  · rw [min, if_neg (hlt.not.2 hij), Nat.min_eq_left (Nat.le_of_not_lt hij)]

end Positions

end Sequence24

/-! ## Arcs -/

namespace SequenceRange

open Sequence24

/-- How many sequence numbers a range covers. -/
def count (r : SequenceRange) : Nat := r.start.distanceTo r.end + 1

/-- The sequence numbers a range covers. -/
def numbers (r : SequenceRange) : Finset Sequence24 := r.sequences.toFinset

/-- The range of `n` numbers from `a` on. -/
def arc (a : Sequence24) (n : Nat) : SequenceRange := ⟨a, a.addNat (n - 1)⟩

theorem count_le (r : SequenceRange) : r.count ≤ 2 ^ 24 := distanceTo_lt r.start r.end

theorem arc_count (r : SequenceRange) : arc r.start r.count = r := by
  unfold arc count
  rw [Nat.add_sub_cancel, addNat_distanceTo]

theorem next_end (r : SequenceRange) : r.end.next = r.start.addNat r.count := by
  unfold count
  rw [← next_addNat, addNat_distanceTo]

theorem sequences_eq (r : SequenceRange) : r.sequences = (List.range r.count).map r.start.addNat := rfl

@[simp] theorem length_sequences (r : SequenceRange) : r.sequences.length = r.count := by
  rw [sequences_eq, List.length_map, List.length_range]

theorem one_le_count (r : SequenceRange) : 1 ≤ r.count := Nat.le_add_left 1 _

theorem start_mem_numbers (r : SequenceRange) : r.start ∈ r.numbers := by
  rw [numbers, List.mem_toFinset, mem_sequences, distanceTo_eq_zero_iff.2 rfl]
  exact Nat.zero_le _

theorem count_arc (a : Sequence24) {n : Nat} (hn : 1 ≤ n) (hle : n ≤ 2 ^ 24) : (arc a n).count = n := by
  unfold arc count
  rw [distanceTo_addNat a (by omega)]
  omega

theorem mem_numbers_arc {a x : Sequence24} {n : Nat} (hn : 1 ≤ n) (hle : n ≤ 2 ^ 24) :
    x ∈ (arc a n).numbers ↔ ∃ i < n, a.addNat i = x := by
  rw [numbers, List.mem_toFinset, sequences_eq, count_arc a hn hle, List.mem_map]
  simp only [List.mem_range]
  rfl

theorem nodup_sequences (r : SequenceRange) : r.sequences.Nodup := by
  have hle := r.count_le
  refine List.Nodup.map_on (fun i hi j hj h => ?_) List.nodup_range
  rw [List.mem_range] at hi hj
  change i < r.count at hi
  change j < r.count at hj
  exact addNat_injective r.start (by omega) (by omega) h

theorem card_numbers (r : SequenceRange) : r.numbers.card = r.count := by
  rw [numbers, List.toFinset_card_of_nodup r.nodup_sequences, length_sequences]

/-- Two arcs of which the second starts within the first, or right behind it, are one arc. -/
theorem numbers_union (a : Sequence24) {n m i : Nat} (hn : 1 ≤ n) (hm : 1 ≤ m) (hi : i ≤ n)
    (hle : max n (i + m) ≤ 2 ^ 24) :
    (arc a n).numbers ∪ (arc (a.addNat i) m).numbers = (arc a (max n (i + m))).numbers := by
  ext x
  rw [Finset.mem_union, mem_numbers_arc hn (by omega), mem_numbers_arc hm (by omega), mem_numbers_arc (by omega) hle]
  constructor
  · rintro (⟨j, hj, rfl⟩ | ⟨j, hj, rfl⟩)
    · exact ⟨j, by omega, rfl⟩
    · exact ⟨i + j, by omega, (addNat_addNat a i j).symm⟩
  · rintro ⟨j, hj, rfl⟩
    by_cases hjn : j < n
    · exact .inl ⟨j, hjn, rfl⟩
    · refine .inr ⟨j - i, by omega, ?_⟩
      rw [addNat_addNat, Nat.add_sub_cancel' (by omega)]

/-- Arcs whose union is small are small, and so is the arc they make. -/
theorem max_lt_of_card {a : Sequence24} {n m i k : Nat} (hn : 1 ≤ n) (hm : 1 ≤ m) (hi : i ≤ n) (hn' : n ≤ 2 ^ 24)
    (hm' : m ≤ 2 ^ 24) (hk : k ≤ 2 ^ 23) (hcard : ((arc a n).numbers ∪ (arc (a.addNat i) m).numbers).card < k) :
    max n (i + m) < k := by
  have hleft := (Finset.card_le_card Finset.subset_union_left).trans_lt hcard
  have hright := (Finset.card_le_card Finset.subset_union_right).trans_lt hcard
  rw [card_numbers, count_arc a hn hn'] at hleft
  rw [card_numbers, count_arc _ hm hm'] at hright
  have hle : max n (i + m) ≤ 2 ^ 24 := by omega
  rwa [numbers_union a hn hm hi hle, card_numbers, count_arc a (by omega) hle] at hcard

end SequenceRange

end BedrockRs.Raknet

/-
`AckQueue::push` as set union. A range that touches the last one is merged into it, into the arc that both cover
(`absorb_of_touches`); any other range goes behind it as it is, since the halves of a wrapping range are merged again
(`push_of_not_touches`). Both need ranges that cover less than half a turn together.
-/
import BedrockRs.Raknet.Protocol.Arc
import BedrockRs.Raknet.Session.AckQueue

namespace BedrockRs.Raknet

open Sequence24 SequenceRange

/-! ## Two ranges -/

/-- The range follows `last` directly, or overlaps it. -/
def SequenceRange.Touches (last range : SequenceRange) : Prop :=
  last.end.next = range.start ∨ ¬ Disjoint last.numbers range.numbers

instance (last range : SequenceRange) : Decidable (last.Touches range) :=
  inferInstanceAs (Decidable (_ ∨ ¬ Disjoint _ _))

namespace AckQueue

/-- The pushed arc starts within the last one, or right behind it. -/
theorem absorb_ahead (a : Sequence24) {n m i : Nat} (hn : 1 ≤ n) (hm : 1 ≤ m) (hi : i ≤ n)
    (hlt : max n (i + m) < 2 ^ 23) : absorb (arc a n) (arc (a.addNat i) m) = some (arc a (max n (i + m))) := by
  unfold absorb arc
  dsimp only
  rw [next_addNat, addNat_addNat, show n - 1 + 1 = n by omega]
  by_cases hnext : a.addNat n = a.addNat i
  · obtain rfl := a.addNat_injective (by omega) (by omega) hnext
    rw [if_pos rfl, show max n (n + m) - 1 = n + (m - 1) by omega]
  · have hne : i ≠ n := fun h => hnext (by rw [h])
    have hstart := a.min_addNat (i := 0) (j := i) (by omega) (by omega)
    have hends := a.ge_addNat (i := i + (m - 1)) (j := 0) (by omega) (by omega)
    rw [addNat_zero] at hstart hends
    rw [if_neg hnext, if_pos, hstart, a.max_addNat (by omega) (by omega)]
    · rw [Nat.zero_min, addNat_zero, show Max.max (n - 1) (i + (m - 1)) = max n (i + m) - 1 by omega]
    · rw [Bool.and_eq_true, a.ge_addNat (by omega) (by omega), hends]
      omega

/-- The last arc starts within the pushed one, behind its start. -/
theorem absorb_behind (a : Sequence24) {n m i : Nat} (hn : 1 ≤ n) (hi : 1 ≤ i) (him : i < m)
    (hlt : max m (i + n) < 2 ^ 23) : absorb (arc (a.addNat i) n) (arc a m) = some (arc a (max m (i + n))) := by
  unfold absorb arc
  dsimp only
  rw [addNat_addNat, next_addNat]
  have hnext : a.addNat (i + (n - 1) + 1) ≠ a := fun h => by
    have hzero := a.addNat_injective (j := 0) (by omega) (by omega) (h.trans a.addNat_zero.symm)
    omega
  have hstart := a.min_addNat (i := i) (j := 0) (by omega) (by omega)
  have hends := a.ge_addNat (i := i + (n - 1)) (j := 0) (by omega) (by omega)
  rw [addNat_zero] at hstart hends
  rw [if_neg hnext, if_pos, hstart, a.max_addNat (by omega) (by omega)]
  · rw [Nat.min_zero, addNat_zero, show Max.max (i + (n - 1)) (m - 1) = max m (i + n) - 1 by omega]
  · rw [Bool.and_eq_true, a.ge_addNat (by omega) (by omega), hends]
    omega

/-- Arcs with a number between them on one side, and none in common, are not merged: one of the two comparisons fails,
since the two gaps together are less than a turn. -/
theorem absorb_apart (a : Sequence24) {n m i : Nat} (hn : 1 ≤ n) (hm : 1 ≤ m) (hi : n < i) (hturn : i + m ≤ 2 ^ 24) :
    absorb (arc a n) (arc (a.addNat i) m) = none := by
  unfold absorb arc
  dsimp only
  rw [next_addNat, addNat_addNat, show n - 1 + 1 = n by omega]
  have hnext : a.addNat n ≠ a.addNat i := fun h => by
    have heq := a.addNat_injective (by omega) (by omega) h
    omega
  have hahead := a.distanceTo_addNat_of_le (i := n - 1) (j := i) (by omega) (by omega)
  have hback := a.distanceTo_addNat_of_lt (i := i + (m - 1)) (j := 0) (by omega) (by omega)
  rw [addNat_zero] at hback
  rw [if_neg hnext, if_neg]
  rw [Bool.and_eq_true, ge_iff_distanceTo, ge_iff_distanceTo, hahead, hback]
  omega

/-- Where a range lies from the last one: it starts within it or right behind it, or it starts before it and reaches it,
or a number lies between the two on its way there and none is in common. -/
theorem position_cases (last range : SequenceRange) :
    (∃ i ≤ last.count, range = arc (last.start.addNat i) range.count) ∨
    (∃ i, 1 ≤ i ∧ i < range.count ∧ last = arc (range.start.addNat i) last.count) ∨
    ∃ i, last.count < i ∧ i + range.count ≤ 2 ^ 24 ∧ range = arc (last.start.addNat i) range.count := by
  have hrange : range = arc (last.start.addNat (last.start.distanceTo range.start)) range.count := by
    rw [addNat_distanceTo, arc_count]
  have hlast : last = arc (range.start.addNat (range.start.distanceTo last.start)) last.count := by
    rw [addNat_distanceTo, arc_count]
  rcases Nat.lt_or_ge last.count (last.start.distanceTo range.start) with hlt | hle
  · have hne : last.start ≠ range.start := fun h => by
      rw [distanceTo_eq_zero_iff.2 h] at hlt
      exact absurd hlt (Nat.not_lt_zero _)
    have hturn := distanceTo_add_distanceTo hne
    have hpos : range.start.distanceTo last.start ≠ 0 := distanceTo_eq_zero_iff.not.2 (Ne.symm hne)
    rcases Nat.lt_or_ge (range.start.distanceTo last.start) range.count with hin | hout
    · exact .inr (.inl ⟨_, by omega, hin, hlast⟩)
    · exact .inr (.inr ⟨_, hlt, by omega, hrange⟩)
  · exact .inl ⟨_, hle, hrange⟩

/-- A range that touches the last one is merged with it into the range of their numbers. -/
theorem absorb_of_touches {last range : SequenceRange} (h : last.Touches range)
    (hcard : (last.numbers ∪ range.numbers).card < 2 ^ 23) :
    ∃ merged, absorb last range = some merged ∧ merged.numbers = last.numbers ∪ range.numbers := by
  have hn := one_le_count last
  have hm := one_le_count range
  rcases position_cases last range with ⟨i, hi, hrange⟩ | ⟨i, hi, him, hlast⟩ | ⟨i, hi, hturn, hrange⟩
  · rw [hrange, ← arc_count last] at hcard ⊢
    have hlt := max_lt_of_card hn hm hi last.count_le range.count_le le_rfl hcard
    exact ⟨_, absorb_ahead last.start hn hm hi hlt, (numbers_union last.start hn hm hi (by omega)).symm⟩
  · rw [hlast, ← arc_count range] at hcard ⊢
    rw [Finset.union_comm] at hcard ⊢
    have hlt := max_lt_of_card hm hn him.le range.count_le last.count_le le_rfl hcard
    exact ⟨_, absorb_behind range.start hn hi him hlt, (numbers_union range.start hm hn him.le (by omega)).symm⟩
  · exfalso
    rcases h with hnext | hmeet
    · rw [next_end, hrange] at hnext
      have := last.start.addNat_injective (by omega) (by omega) hnext
      omega
    · rw [hrange, ← arc_count last] at hmeet
      refine hmeet (Finset.disjoint_left.2 fun x hx hx' => ?_)
      obtain ⟨j, hj, rfl⟩ := (mem_numbers_arc hn (by omega)).1 hx
      obtain ⟨k, hk, hjk⟩ := (mem_numbers_arc hm (by omega)).1 hx'
      rw [addNat_addNat] at hjk
      have := last.start.addNat_injective (by omega) (by omega) hjk
      omega

theorem absorb_of_not_touches {last range : SequenceRange} (h : ¬ last.Touches range) : absorb last range = none := by
  have hn := one_le_count last
  have hm := one_le_count range
  obtain ⟨hnext, hmeet⟩ := not_or.1 h
  rw [not_not] at hmeet
  rcases position_cases last range with ⟨i, hi, hrange⟩ | ⟨i, hi, him, hlast⟩ | ⟨i, hi, hturn, hrange⟩
  · exfalso
    have hstart : range.start = last.start.addNat i := by rw [hrange, arc]
    rcases Nat.lt_or_ge i last.count with hlt | hge
    · refine Finset.disjoint_left.1 hmeet ?_ (start_mem_numbers range)
      rw [← arc_count last, hstart]
      exact (mem_numbers_arc hn last.count_le).2 ⟨i, hlt, rfl⟩
    · refine hnext ?_
      rw [hstart, show i = last.count by omega, next_end]
  · exfalso
    refine Finset.disjoint_left.1 hmeet (start_mem_numbers last) ?_
    rw [hlast, ← arc_count range]
    exact (mem_numbers_arc hm range.count_le).2 ⟨i, him, rfl⟩
  · rw [hrange, ← arc_count last]
    exact absorb_apart last.start hn hm hi hturn

/-! ## Pushing -/

/-- The sequence numbers that the ranges of the queue cover. -/
def covered (q : AckQueue) : Finset Sequence24 := (q.queue.flatMap SequenceRange.sequences).toFinset

theorem mem_covered {q : AckQueue} {x : Sequence24} : x ∈ q.covered ↔ ∃ r ∈ q.queue, x ∈ r.numbers := by
  simp [covered, numbers]

theorem push_of_full {q : AckQueue} (h : q.maxRanges ≤ q.queue.length) (range : SequenceRange) : q.push range = q := by
  rw [push, if_pos h]

theorem push_of_absorb {q : AckQueue} {init : List SequenceRange} {last range merged : SequenceRange}
    (hroom : q.queue.length < q.maxRanges) (hq : q.queue = init ++ [last]) (habsorb : absorb last range = some merged) :
    q.push range = { q with queue := init ++ [merged] } := by
  have hmerge : q.tryMerge range = some { q with queue := init ++ [merged] } := by
    rw [tryMerge, hq, List.getLast?_concat, List.dropLast_concat]
    dsimp only
    rw [habsorb, Option.map_some]
  rw [push, if_neg (by omega), hmerge]

theorem tryMerge_of_not_touches {q : AckQueue} {range : SequenceRange}
    (h : ∀ last ∈ q.queue.getLast?, ¬ last.Touches range) : q.tryMerge range = none := by
  unfold tryMerge
  cases hlast : q.queue.getLast? with
  | none => rfl
  | some last =>
    dsimp only
    rw [absorb_of_not_touches (h last hlast), Option.map_none]

/-- The tail of a wrapping range starts where the range starts and lies within it. -/
theorem splitWrapping_tail {range tail head : SequenceRange} (h : range.splitWrapping = some (tail, head)) :
    tail.start = range.start ∧ tail.numbers ⊆ range.numbers ∧ absorb tail head = some range := by
  unfold splitWrapping at h
  split at h
  · cases h
  · rename_i hwraps
    cases h
    rw [Bool.not_eq_true', Bool.not_eq_false, wraps, decide_eq_true_eq, value, value] at hwraps
    refine ⟨rfl, fun x hx => ?_, ?_⟩
    · rw [numbers, List.mem_toFinset, mem_sequences] at hx ⊢
      refine hx.trans ?_
      have := range.start.isLt
      unfold distanceTo
      rw [if_pos (by simp only [val_new]; omega), if_neg (by omega)]
      simp only [val_new]
      omega
    · rw [absorb, if_pos (show (Sequence24.new 0x00FFFFFF).next = Sequence24.new 0 by decide)]

/-- A range that does not touch the last one goes behind it. Of a wrapping range the tail is pushed and the head
is merged into it; where there is room for one range only, the head is lost. -/
theorem push_of_not_touches {q : AckQueue} {range : SequenceRange} (hroom : q.queue.length < q.maxRanges)
    (h : ∀ last ∈ q.queue.getLast?, ¬ last.Touches range) :
    ∃ r, r.numbers ⊆ range.numbers ∧ (q.queue.length + 2 ≤ q.maxRanges → r = range) ∧ q.push range = q.pushBack r := by
  rw [push, if_neg (by omega), tryMerge_of_not_touches h]
  cases hsplit : range.splitWrapping with
  | none => exact ⟨range, subset_rfl, fun _ => rfl, rfl⟩
  | some halves =>
    obtain ⟨tail, head⟩ := halves
    obtain ⟨hstart, hsub, habsorb⟩ := splitWrapping_tail hsplit
    have htail : ∀ last ∈ q.queue.getLast?, ¬ last.Touches tail := by
      rintro last hlast (hnext | hmeet)
      · exact h last hlast (.inl (hnext.trans hstart))
      · exact h last hlast (.inr fun hdisjoint => hmeet (hdisjoint.mono_right hsub))
    have hpushed : q.pushPlain tail = q.pushBack tail := by
      rw [pushPlain, if_neg (by omega), tryMerge_of_not_touches htail]
    have hlen : (q.pushBack tail).queue.length = q.queue.length + 1 := by
      rw [pushBack, List.length_append, List.length_singleton]
    dsimp only
    rw [hpushed, ← push_of_not_wraps _ (splitWrapping_halves hsplit).2]
    by_cases hmore : q.queue.length + 2 ≤ q.maxRanges
    · refine ⟨range, subset_rfl, fun _ => rfl, push_of_absorb ?_ rfl habsorb⟩
      rw [hlen]
      exact hmore
    · refine ⟨tail, hsub, fun h => absurd h hmore, push_of_full ?_ head⟩
      have hmax : (q.pushBack tail).maxRanges = q.maxRanges := rfl
      omega

/-- `push` is set union, as long as two ranges are left free and the range covers less than half a turn together
with the last one. -/
theorem covered_push {q : AckQueue} {range : SequenceRange} (hroom : q.queue.length + 2 ≤ q.maxRanges)
    (hcard : ∀ last ∈ q.queue.getLast?, (last.numbers ∪ range.numbers).card < 2 ^ 23) :
    (q.push range).covered = q.covered ∪ range.numbers := by
  by_cases h : ∀ last ∈ q.queue.getLast?, ¬ last.Touches range
  · obtain ⟨r, -, hwhole, hpush⟩ := push_of_not_touches (by omega) h
    rw [hpush, hwhole hroom]
    ext x
    simp [mem_covered, pushBack, or_and_right, exists_or]
  · push Not at h
    obtain ⟨last, hlast, htouches⟩ := h
    obtain ⟨init, hq⟩ := List.getLast?_eq_some_iff.1 hlast
    obtain ⟨merged, habsorb, hmerged⟩ := absorb_of_touches htouches (hcard last hlast)
    rw [push_of_absorb (by omega) hq habsorb]
    ext x
    simp [mem_covered, hq, hmerged, or_and_right, exists_or, or_assoc]

/-- `push` unites where there is room, and `pop_for_mtu` takes a prefix of any queue and leaves the rest. -/
theorem covered_push_popForMtu (q : AckQueue) :
    (∀ range : SequenceRange, q.queue.length + 2 ≤ q.maxRanges →
      (∀ last ∈ q.queue.getLast?, (last.numbers ∪ range.numbers).card < 2 ^ 23) →
      (q.push range).covered = q.covered ∪ range.numbers) ∧
    ∀ mtu baseOverhead, (q.popForMtu mtu baseOverhead).1 ++ (q.popForMtu mtu baseOverhead).2.queue = q.queue :=
  ⟨fun _ => covered_push, q.popForMtu_append⟩

/-- A range that wraps around and overlaps the last one. -/
theorem covered_push_popForMtu_wrapping :
    ((⟨4, [⟨Sequence24.new (2 ^ 24 - 4), Sequence24.new (2 ^ 24 - 2)⟩]⟩ : AckQueue).push
        ⟨Sequence24.new (2 ^ 24 - 3), Sequence24.new 1⟩).covered =
      (⟨4, [⟨Sequence24.new (2 ^ 24 - 4), Sequence24.new (2 ^ 24 - 2)⟩]⟩ : AckQueue).covered ∪
        (⟨Sequence24.new (2 ^ 24 - 3), Sequence24.new 1⟩ : SequenceRange).numbers :=
  (covered_push_popForMtu ⟨4, [⟨Sequence24.new (2 ^ 24 - 4), Sequence24.new (2 ^ 24 - 2)⟩]⟩).1
    ⟨Sequence24.new (2 ^ 24 - 3), Sequence24.new 1⟩ (by decide) (by decide +kernel)

end AckQueue

end BedrockRs.Raknet

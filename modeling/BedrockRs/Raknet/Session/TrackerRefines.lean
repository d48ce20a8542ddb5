/-
The reliable tracker against the set of the indexes it was shown. The bitmap stands for the set as
long as every index arrives at or ahead of the smallest one not seen yet, and an index that fills
the gap at the base finds no further gap behind it (`InStep`): then `has_seen` tells exactly the
indexes shown before, and `see` takes exactly the others (`see_refines_seen`). An index behind the
base is forgotten, and `advance_base` shifts the bits behind a gap.
-/
import BedrockRs.Lib.Machine
import BedrockRs.Raknet.Session.TrackerSpec

namespace BedrockRs.Raknet.ReliableTracker

open Lib

/-! ## The set of seen indexes -/

/-- The smallest index not in a list. -/
def firstUnseen (seen : List Nat) : Nat := ((List.range (seen.length + 1)).find? fun n => decide (n ∉ seen)).getD 0

theorem firstUnseen_spec (seen : List Nat) : firstUnseen seen ∉ seen ∧ ∀ n < firstUnseen seen, n ∈ seen := by
  -- a list of `k` indexes cannot hold all of the first `k + 1`
  have hsome : ((List.range (seen.length + 1)).find? fun n => decide (n ∉ seen)).isSome = true := by
    by_contra hnone
    rw [Bool.not_eq_true, Option.isSome_eq_false_iff, Option.isNone_iff_eq_none, List.find?_eq_none] at hnone
    have hsub : List.range (seen.length + 1) ⊆ seen := fun n hn => by simpa using hnone n hn
    have hlen := (List.nodup_range.subperm hsub).length_le
    rw [List.length_range] at hlen
    omega
  obtain ⟨s, hs⟩ := Option.isSome_iff_exists.1 hsome
  rw [firstUnseen, hs, Option.getD_some]
  rw [List.find?_range_eq_some] at hs
  obtain ⟨hnot, -, hbelow⟩ := hs
  exact ⟨by simpa using hnot, fun n hn => by simpa using hbelow n hn⟩

theorem firstUnseen_eq {seen : List Nat} {s : Nat} (hnot : s ∉ seen) (hbelow : ∀ n < s, n ∈ seen) :
    firstUnseen seen = s := by
  obtain ⟨hnot', hbelow'⟩ := firstUnseen_spec seen
  rcases Nat.lt_trichotomy (firstUnseen seen) s with hlt | heq | hgt
  · exact absurd (hbelow _ hlt) hnot'
  · exact heq
  · exact absurd (hbelow' _ hgt) hnot

/-- The indexes shown so far, with one more. -/
def shown (seen : List Nat) (r : Nat) : List Nat := seen ++ [r]

/-- The tracker after the indexes of a list. -/
def seeAll (maxWindow : Nat) (seen : List Nat) : ReliableTracker :=
  seen.foldl (fun t r => (t.see (Sequence24.new r)).2) (new maxWindow)

/-- An index at most `maxWindow` ahead of the smallest index not yet seen, and fewer than `2 ^ 23`
behind it. -/
def Near (maxWindow : Nat) (seen : List Nat) (r : Nat) : Prop :=
  r ≤ firstUnseen seen + maxWindow ∧ firstUnseen seen < r + 2 ^ 23

/-- The tracker judges an index as the set of seen indexes does. -/
def Judges (maxWindow : Nat) (seen : List Nat) (r : Nat) : Prop :=
  ((seeAll maxWindow seen).hasSeen (Sequence24.new r) = true ↔ r ∈ seen) ∧
  (((seeAll maxWindow seen).see (Sequence24.new r)).1 = true ↔
  (seeAll maxWindow seen).hasSeen (Sequence24.new r) = false)

/-- An index at the smallest unseen index, where no later index was seen past an unseen one, or ahead
of it by less than a turn. -/
def InStep (seen : List Nat) (r : Nat) : Prop :=
  firstUnseen seen ≤ r ∧ r < firstUnseen seen + 2 ^ 24 ∧
  (r = firstUnseen seen → ∀ n ∈ seen, ∀ k < n, firstUnseen seen < k → k ∈ seen)

instance (maxWindow : Nat) (seen : List Nat) (r : Nat) : Decidable (Near maxWindow seen r) :=
  inferInstanceAs (Decidable (_ ∧ _))

instance (maxWindow : Nat) (seen : List Nat) (r : Nat) : Decidable (Judges maxWindow seen r) :=
  inferInstanceAs (Decidable (_ ∧ _))

instance (seen : List Nat) (r : Nat) : Decidable (InStep seen r) := inferInstanceAs (Decidable (_ ∧ _ ∧ _))

/-! ## The bitmap stands for the set -/

/-- The base is the smallest unseen index, slot `o` of the bitmap stands for the index `o + 1` after
it, and the bitmap ends with a set bit. -/
structure StandsFor (t : ReliableTracker) (seen : List Nat) : Prop where
  base : t.base = Sequence24.new (firstUnseen seen)
  bits : ∀ o : Nat, t.window[o]? = some true ↔ firstUnseen seen + 1 + o ∈ seen
  ends : ∀ o < t.window.length, ∃ o' ≥ o, t.window[o']? = some true

theorem standsFor_new (maxWindow : Nat) : StandsFor (new maxWindow) [] := by
  refine ⟨rfl, fun o => ?_, fun o ho => ?_⟩
  · simp [new]
  · simp [new] at ho

theorem new_eq_new_iff {a b : Nat} (h : a ≤ b) (hlt : b < a + 2 ^ 24) :
    Sequence24.new b = Sequence24.new a ↔ b = a := by
  rw [Sequence24.ext_iff', Sequence24.val_new, Sequence24.val_new]
  omega

theorem distanceTo_ahead {a b : Nat} (h : a ≤ b) (hlt : b < a + 2 ^ 24) :
    (Sequence24.new a).distanceTo (Sequence24.new b) = b - a := by
  have hb : Sequence24.new b = Sequence24.new ((Sequence24.new a).val + (b - a)) := by
    apply Sequence24.ext
    simp only [Sequence24.val_new]
    omega
  rw [hb]
  exact Sequence24.distanceTo_new_add _ (by omega)

/-- In the window, `see` takes an index exactly when it was not seen. -/
theorem see_eq_not_hasSeen {t : ReliableTracker} {ridx : Sequence24}
    (h : ridx = t.base ∨ t.base.distanceTo ridx ≤ t.maxWindow) : (t.see ridx).1 = true ↔ t.hasSeen ridx = false := by
  unfold see hasSeen
  by_cases hbase : ridx = t.base
  · simp [hbase]
  · have hdist := h.resolve_left hbase
    have h0 : t.base.distanceTo ridx ≠ 0 := fun h0 => hbase (Sequence24.distanceTo_eq_zero_iff.1 h0).symm
    simp only [if_neg hbase, if_neg h0, if_neg (Nat.not_lt.2 hdist), if_neg (not_or.2 ⟨h0, Nat.not_lt.2 hdist⟩)]
    by_cases hin : t.base.distanceTo ridx - 1 < t.window.length
    · rw [if_neg (Nat.not_le.2 hin), if_pos hin]
      split
      · rename_i hbit
        simp [hbit]
      · rename_i hbit
        simpa using hbit
    · rw [if_pos (Nat.not_lt.1 hin), if_neg hin, if_neg (getElem?_resize_false (Nat.not_lt.1 hin))]
      simp

section Step

variable {t : ReliableTracker} {seen : List Nat} {r : Nat}

/-- What the tracker says about an index in step. -/
theorem StandsFor.judges (h : StandsFor t seen) (hwin : r ≤ firstUnseen seen + t.maxWindow) (hr : InStep seen r) :
    (t.hasSeen (Sequence24.new r) = true ↔ r ∈ seen) ∧
    ((t.see (Sequence24.new r)).1 = true ↔ t.hasSeen (Sequence24.new r) = false) := by
  obtain ⟨hle, hlt, -⟩ := hr
  have hdist : t.base.distanceTo (Sequence24.new r) = r - firstUnseen seen := by rw [h.base, distanceTo_ahead hle hlt]
  have hbase : Sequence24.new r = t.base ↔ r = firstUnseen seen := by rw [h.base, new_eq_new_iff hle hlt]
  constructor
  · rw [hasSeen_iff, Ne, hbase, hdist]
    constructor
    · rintro ⟨hne, -, hbit⟩
      rw [h.bits] at hbit
      rwa [show firstUnseen seen + 1 + (r - firstUnseen seen - 1) = r by omega] at hbit
    · intro hmem
      have hne : r ≠ firstUnseen seen := fun heq => (firstUnseen_spec seen).1 (heq ▸ hmem)
      refine ⟨hne, by omega, ?_⟩
      rwa [h.bits, show firstUnseen seen + 1 + (r - firstUnseen seen - 1) = r by omega]
  · apply see_eq_not_hasSeen
    right
    omega

/-- The index at the base moves it past everything seen after it. -/
theorem StandsFor.see_first (h : StandsFor t seen)
    (hgap : ∀ n ∈ seen, ∀ k < n, firstUnseen seen < k → k ∈ seen) :
    StandsFor (t.see t.base).2 (shown seen (firstUnseen seen)) := by
  obtain ⟨hnot, hbelow⟩ := firstUnseen_spec seen
  -- the window ends in a set bit, so that without a gap every bit of it is set
  have hfree : t.GapFree := by
    intro b hb
    obtain ⟨o, ho, rfl⟩ := List.getElem_of_mem hb
    obtain ⟨o', hle, hbit⟩ := h.ends o ho
    have hmem : firstUnseen seen + 1 + o ∈ seen := by
      rcases Nat.eq_or_lt_of_le hle with rfl | hlt
      · exact (h.bits _).1 hbit
      · exact hgap _ ((h.bits o').1 hbit) _ (by omega) (by omega)
    rw [← h.bits, List.getElem?_eq_getElem ho] at hmem
    exact Option.some.inj hmem
  have hrange : ∀ n, firstUnseen seen < n → (n ∈ seen ↔ n ≤ firstUnseen seen + t.window.length) := by
    intro n hn
    have hbit := h.bits (n - firstUnseen seen - 1)
    rw [show firstUnseen seen + 1 + (n - firstUnseen seen - 1) = n by omega] at hbit
    rw [← hbit]
    constructor
    · intro hset
      have := (List.getElem?_eq_some_iff.1 hset).1
      omega
    · intro hle
      have hin : n - firstUnseen seen - 1 < t.window.length := by omega
      rw [List.getElem?_eq_getElem hin, hfree _ (List.getElem_mem hin)]
  have hfirst : firstUnseen (shown seen (firstUnseen seen)) = firstUnseen seen + (t.window.length + 1) := by
    apply firstUnseen_eq
    · rw [shown, List.mem_append, List.mem_singleton, hrange _ (by omega)]
      omega
    · intro n hn
      rw [shown, List.mem_append, List.mem_singleton]
      rcases Nat.lt_trichotomy n (firstUnseen seen) with hlt | heq | hgt
      · exact .inl (hbelow n hlt)
      · exact .inr heq
      · exact .inl ((hrange n hgt).2 (by omega))
  rw [see_base_gapFree hfree]
  refine ⟨?_, fun o => ?_, fun o ho => ?_⟩
  · rw [hfirst, h.base]
    apply Sequence24.ext
    simp only [Sequence24.val_new]
    omega
  · rw [hfirst, shown, List.mem_append, List.mem_singleton, hrange _ (by omega)]
    simp
    omega
  · simp at ho

/-- An index ahead of the base sets its bit. -/
theorem StandsFor.see_later (h : StandsFor t seen) (hlater : firstUnseen seen < r) (hlt : r < firstUnseen seen + 2 ^ 24)
    (hwin : r ≤ firstUnseen seen + t.maxWindow) : StandsFor (t.see (Sequence24.new r)).2 (shown seen r) := by
  obtain ⟨hnot, hbelow⟩ := firstUnseen_spec seen
  have hdist : t.base.distanceTo (Sequence24.new r) = r - firstUnseen seen := by
    rw [h.base, distanceTo_ahead hlater.le hlt]
  have hne : Sequence24.new r ≠ t.base := by
    rw [h.base, Ne, new_eq_new_iff hlater.le hlt]
    omega
  -- the first unseen number stays, so the base does
  have hfirst : firstUnseen (shown seen r) = firstUnseen seen := by
    apply firstUnseen_eq
    · rw [shown, List.mem_append, List.mem_singleton]
      rintro (hmem | heq)
      · exact hnot hmem
      · omega
    · exact fun n hn => List.mem_append_left _ (hbelow n hn)
  have hpos : 0 < r - firstUnseen seen := by omega
  rw [see_of_inWindow hne (by omega), hdist]
  refine ⟨?_, fun o => ?_, fun o ho => ?_⟩
  · rw [hfirst]
    exact h.base
  · rw [mark_bit hpos, h.bits, hfirst, shown, List.mem_append, List.mem_singleton, or_comm]
    apply or_congr_right
    omega
  · -- the bitmap grows up to the bit that is set
    by_cases hin : o < t.window.length
    · obtain ⟨o', hle, hbit⟩ := h.ends o hin
      exact ⟨o', hle, (mark_bit hpos o').2 (.inr hbit)⟩
    · refine ⟨r - firstUnseen seen - 1, ?_, (mark_bit hpos _).2 (.inl rfl)⟩
      simp only [mark, resize, List.length_set, List.length_append, List.length_replicate] at ho
      omega

theorem StandsFor.see (h : StandsFor t seen) (hwin : r ≤ firstUnseen seen + t.maxWindow) (hr : InStep seen r) :
    StandsFor (t.see (Sequence24.new r)).2 (shown seen r) := by
  obtain ⟨hle, hlt, hgap⟩ := hr
  rcases Nat.eq_or_lt_of_le hle with heq | hlater
  · rw [← heq, ← h.base]
    exact h.see_first (hgap heq.symm)
  · exact h.see_later hlater hlt hwin

end Step

theorem maxWindow_see (t : ReliableTracker) (ridx : Sequence24) : (t.see ridx).2.maxWindow = t.maxWindow := by
  unfold ReliableTracker.see
  split
  · rfl
  · simp only
    split
    · rfl
    · split <;> split <;> rfl

theorem seeAll_shown (maxWindow : Nat) (seen : List Nat) (r : Nat) :
    seeAll maxWindow (shown seen r) = ((seeAll maxWindow seen).see (Sequence24.new r)).2 := by
  rw [shown, seeAll, List.foldl_append]
  rfl

theorem maxWindow_seeAll (maxWindow : Nat) (seen : List Nat) : (seeAll maxWindow seen).maxWindow = maxWindow := by
  refine List.foldlRecOn (motive := fun t : ReliableTracker => t.maxWindow = maxWindow) seen _ rfl ?_
  intro t ht r _
  rw [maxWindow_see, ht]

/-- The tracker refines the set of the indexes shown to it, in every run whose indexes are near the
smallest unseen one and in step with it. -/
theorem see_refines_seen (maxWindow : Nat) (rs : List Nat) (hnear : Machine.Along shown (Near maxWindow) [] rs)
    (hstep : Machine.Along shown InStep [] rs) : Machine.Along shown (Judges maxWindow) [] rs := by
  have hrun : ∀ (rs seen : List Nat), StandsFor (seeAll maxWindow seen) seen →
    Machine.Along shown (Near maxWindow) seen rs →
      Machine.Along shown InStep seen rs → Machine.Along shown (Judges maxWindow) seen rs := by
    intro rs
    induction rs with
    | nil => exact fun _ _ _ _ => trivial
    | cons r rs ih =>
      rintro seen h ⟨hr, hnear⟩ ⟨hin, hstep⟩
      have hwin : r ≤ firstUnseen seen + (seeAll maxWindow seen).maxWindow := by
        rw [maxWindow_seeAll]
        exact hr.1
      refine ⟨h.judges hwin hin, ih _ ?_ hnear hstep⟩
      rw [seeAll_shown]
      exact h.see hwin hin
  exact hrun rs [] (standsFor_new maxWindow) hnear hstep

theorem see_refines_seen_swapped : Machine.Along shown (Judges 16) [] [1, 0, 2, 4, 4, 3] :=
  see_refines_seen 16 [1, 0, 2, 4, 4, 3] (by decide) (by decide)

/-- Two runs on which the tracker does not judge as the set does: the repeated index behind the base
counts as unseen, and once the base has moved to a gap the unseen index `3` counts as seen. -/
theorem see_not_refines_seen :
    (Machine.Along shown (Near 16) [] [0, 0] ∧ ¬ Machine.Along shown (Judges 16) [] [0, 0]) ∧
    Machine.Along shown (Near 16) [] [2, 0, 3] ∧ ¬ Machine.Along shown (Judges 16) [] [2, 0, 3] := by
  decide

end BedrockRs.Raknet.ReliableTracker

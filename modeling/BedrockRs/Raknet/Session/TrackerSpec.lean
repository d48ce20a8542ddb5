/-
What the reliable tracker does, in terms of its bitmap: when an index counts as seen, and how
recording one moves the base or marks a bit. What was shown stays on record (`Tracks`), and what is
on record was shown (`Vouches`), as long as the base only moves over a bitmap without a gap.
-/
import BedrockRs.Lib.Std
import BedrockRs.Raknet.Session.ReliableTracker

namespace BedrockRs.Raknet.ReliableTracker

/-- The bitmap with the bit of the `dist`-th index after the base set, grown as needed. -/
def mark (window : List Bool) (dist : Nat) : List Bool := (resize window dist).set (dist - 1) true

/-- An index that `see` does not record: ahead of the window, or behind the base. -/
def OutOfWindow (t : ReliableTracker) (ridx : Sequence24) : Prop := ridx ≠ t.base ∧ t.maxWindow < t.base.distanceTo ridx

/-- An index the tracker can keep a record of: the base, or ahead of it and in the window. -/
def InWindow (t : ReliableTracker) (ridx : Sequence24) : Prop :=
  ridx = t.base ∨ (ridx.gt t.base = true ∧ t.base.distanceTo ridx ≤ t.maxWindow)

/-- No index is missing between the base and the last index recorded ahead of it. -/
def GapFree (t : ReliableTracker) : Prop := ∀ b ∈ t.window, b = true

instance (t : ReliableTracker) (ridx : Sequence24) : Decidable (t.InWindow ridx) := inferInstanceAs (Decidable (_ ∨ _))

instance (t : ReliableTracker) : Decidable t.GapFree := inferInstanceAs (Decidable (∀ b ∈ t.window, b = true))

theorem hasSeen_iff {t : ReliableTracker} {ridx : Sequence24} : t.hasSeen ridx = true ↔
    ridx ≠ t.base ∧ t.base.distanceTo ridx ≤ t.maxWindow ∧ t.window[t.base.distanceTo ridx - 1]? = some true := by
  unfold hasSeen
  split
  · rename_i h
    exact iff_of_false (by simp) fun hn => hn.1 h
  · rename_i hne
    have hdist : t.base.distanceTo ridx ≠ 0 := fun h0 => hne (Sequence24.distanceTo_eq_zero_iff.1 h0).symm
    simp only
    rw [if_neg hdist]
    split
    · rename_i hfar
      exact iff_of_false (by simp) fun hn => absurd hn.2.1 (Nat.not_le.2 hfar)
    · rename_i hnear
      split
      · simp [hne, Nat.not_lt.1 hnear]
      · rename_i hlen
        refine iff_of_false (by simp) fun hn => ?_
        rw [List.getElem?_eq_none_iff.2 (Nat.not_lt.1 hlen)] at hn
        cases hn.2.2

theorem advance_eq : ∀ (window : List Bool) (base : Sequence24), ∃ k,
    window = List.replicate k true ++ (advance base window).2 ∧ (advance base window).1 = Sequence24.new (base.val + k)
  | [], base => ⟨0, rfl, by simp [advance]⟩
  | false :: window, base => ⟨0, rfl, by simp [advance]⟩
  | true :: window, base => by
    obtain ⟨k, hw, hb⟩ := advance_eq window base.next
    refine ⟨k + 1, ?_, ?_⟩
    · rw [advance, List.replicate_succ, List.cons_append, ← hw]
    · rw [advance, hb, Sequence24.next_add]

/-- The base is recorded by moving past it and past the bits set at the front of the bitmap. -/
theorem see_base (t : ReliableTracker) : ∃ k, t.window = List.replicate k true ++ (t.see t.base).2.window ∧
    (t.see t.base).2.base = Sequence24.new (t.base.val + (k + 1)) ∧ (t.see t.base).2.maxWindow = t.maxWindow := by
  obtain ⟨k, hw, hb⟩ := advance_eq t.window t.base.next
  unfold see
  rw [if_pos rfl]
  exact ⟨k, hw, hb.trans (Sequence24.next_add t.base k), rfl⟩

theorem see_of_outOfWindow {t : ReliableTracker} {ridx : Sequence24} (h : t.OutOfWindow ridx) :
    (t.see ridx).2 = t := by
  unfold see
  rw [if_neg h.1]
  simp only
  rw [if_pos (.inr h.2)]

theorem getElem?_resize_false {window : List Bool} {n i : Nat} (hi : window.length ≤ i) :
    ¬ (resize window n)[i]? = some true := by
  rw [resize, List.getElem?_append_right hi, List.getElem?_replicate]
  split <;> simp

/-- An index in the window is recorded by setting its bit. -/
theorem see_of_inWindow {t : ReliableTracker} {ridx : Sequence24} (hne : ridx ≠ t.base)
    (hdist : t.base.distanceTo ridx ≤ t.maxWindow) :
    (t.see ridx).2 = { t with window := mark t.window (t.base.distanceTo ridx) } := by
  have h0 : t.base.distanceTo ridx ≠ 0 := fun h0 => hne (Sequence24.distanceTo_eq_zero_iff.1 h0).symm
  have hresize : (if t.window.length ≤ t.base.distanceTo ridx - 1 then resize t.window (t.base.distanceTo ridx - 1 + 1)
      else t.window) = resize t.window (t.base.distanceTo ridx) := by
    split
    · rw [Nat.sub_one_add_one h0]
    · rename_i hlen
      rw [resize, Nat.sub_eq_zero_of_le (by omega), List.replicate_zero, List.append_nil]
  unfold see
  rw [if_neg hne]
  simp only
  rw [if_neg (not_or.2 ⟨h0, Nat.not_lt.2 hdist⟩), hresize]
  split
  · rename_i hbit
    rw [mark, Lib.set_of_getElem? hbit]
  · rfl

/-! ## The bitmap without gaps -/

theorem mark_bit {window : List Bool} {dist : Nat} (hd : 0 < dist) (o : Nat) :
    (mark window dist)[o]? = some true ↔ o = dist - 1 ∨ window[o]? = some true := by
  have hlen : dist - 1 < (resize window dist).length := by
    rw [resize, List.length_append, List.length_replicate]; omega
  rw [mark, List.getElem?_set]
  split
  · rename_i ho
    exact iff_of_true rfl (.inl ho.symm)
  · rename_i ho
    rw [or_iff_right (Ne.symm ho)]
    rcases Nat.lt_or_ge o window.length with hin | hout
    · rw [resize, List.getElem?_append_left hin]
    · rw [List.getElem?_eq_none hout]
      exact iff_of_false (getElem?_resize_false hout) (by simp)

theorem advance_gapFree : ∀ (window : List Bool) (base : Sequence24), (∀ b ∈ window, b = true) →
    advance base window = (Sequence24.new (base.val + window.length), [])
  | [], base, _ => by simp [advance]
  | false :: _, _, h => absurd (h false (List.mem_cons_self ..)) (by simp)
  | true :: window, base, h => by
    rw [advance, advance_gapFree window base.next fun b hb => h b (List.mem_cons_of_mem _ hb), Sequence24.next_add,
      List.length_cons]

/-- Without gaps, the base moves past everything recorded. -/
theorem see_base_gapFree {t : ReliableTracker} (h : t.GapFree) :
    (t.see t.base).2 = { t with base := Sequence24.new (t.base.val + (t.window.length + 1)), window := [] } := by
  unfold see
  rw [if_pos rfl]
  simp only [advanceBase, advance_gapFree t.window t.base.next h, Sequence24.next_add]

/-! ## The record in plain numbers

While fewer than `count ≤ 2 ^ 23` indexes are in use, the base and the indexes of the set bits are
plain numbers. A window of more than half a turn can also hold bits of indexes behind the base, a
turn too far; no base ever reaches those. -/

structure Tracks (t : ReliableTracker) (count base : Nat) : Prop where
  index : t.base = Sequence24.new base
  le : base ≤ count
  bits : ∀ o : Nat, t.window[o]? = some true → base + 1 + o < count ∨ 2 ^ 24 ≤ base + 1 + o

/-- Index `r` is recorded: behind the base, or ahead of it with its bit set. -/
def Recorded (t : ReliableTracker) (base r : Nat) : Prop :=
  r < base ∨ (base < r ∧ t.window[r - base - 1]? = some true)

theorem Tracks.new (maxWindow : Nat) : Tracks (ReliableTracker.new maxWindow) 0 0 :=
  ⟨rfl, Nat.le_refl 0, fun o h => by simp [ReliableTracker.new] at h⟩

theorem Tracks.mono {t : ReliableTracker} {count count' base : Nat} (h : Tracks t count base) (hle : count ≤ count') :
    Tracks t count' base :=
  ⟨h.index, h.le.trans hle, fun o ho => (h.bits o ho).imp_left fun hlt => hlt.trans_le hle⟩

theorem distanceTo_new {a b : Nat} (ha : a < 2 ^ 24) (hb : b < 2 ^ 24) :
    (Sequence24.new a).distanceTo (Sequence24.new b) = if a ≤ b then b - a else 2 ^ 24 - a + b := by
  simp only [Sequence24.distanceTo, Sequence24.val_new, Nat.mod_eq_of_lt ha, Nat.mod_eq_of_lt hb, ge_iff_le]

section See

variable {t : ReliableTracker} {count base r : Nat} (hcount : count < 2 ^ 23) (h : Tracks t count base) (hr : r < count)

include hcount h hr

/-- A recorded index that arrives in the window is seen. -/
theorem Recorded.hasSeen (hrec : Recorded t base r) (hin : t.InWindow (Sequence24.new r)) :
    t.hasSeen (Sequence24.new r) = true := by
  have hle := h.le
  have hdist := distanceTo_new (a := base) (b := r) (by omega) (by omega)
  have hgt : base < r → t.base.distanceTo (Sequence24.new r) = r - base := fun hlt => by
    rw [h.index, hdist, if_pos hlt.le]
  rcases hin with heq | ⟨hahead, hwin⟩
  · have : r = base := by
      rw [h.index, Sequence24.ext_iff', Sequence24.val_new, Sequence24.val_new] at heq; omega
    rcases hrec with hlt | ⟨hlt, -⟩ <;> omega
  · rw [h.index, Sequence24.gt_iff_of_small (by rw [Sequence24.val_new]; omega) (by rw [Sequence24.val_new]; omega),
      Sequence24.val_new, Sequence24.val_new] at hahead
    rcases hrec with hlt | ⟨hlt, hbit⟩
    · omega
    · refine hasSeen_iff.2 ⟨fun heq => ?_, hwin, ?_⟩
      · rw [h.index, Sequence24.ext_iff', Sequence24.val_new, Sequence24.val_new] at heq; omega
      · rw [hgt hlt]; exact hbit

/-- Recording an index keeps what is recorded, as long as the base only moves when there is no gap;
an index in the window is recorded. -/
theorem Tracks.see (hgap : Sequence24.new r = t.base → t.GapFree) : ∃ base',
    Tracks (t.see (Sequence24.new r)).2 count base' ∧
    (∀ r', Recorded t base r' → Recorded (t.see (Sequence24.new r)).2 base' r') ∧
    (t.InWindow (Sequence24.new r) → Recorded (t.see (Sequence24.new r)).2 base' r) := by
  have hle := h.le
  have hdist := distanceTo_new (a := base) (b := r) (by omega) (by omega)
  by_cases heq : Sequence24.new r = t.base
  · have hrb : r = base := by
      rw [h.index, Sequence24.ext_iff', Sequence24.val_new, Sequence24.val_new] at heq; omega
    subst hrb
    rw [heq, see_base_gapFree (hgap heq)]
    -- the set bits are those of the indexes up to some index below `count`
    have hlen : r + (t.window.length + 1) ≤ count := by
      by_contra hlong
      have hin : count - r - 1 < t.window.length := by omega
      have hbit : t.window[count - r - 1]? = some true := by
        rw [List.getElem?_eq_getElem hin, hgap heq _ (List.getElem_mem hin)]
      have := h.bits _ hbit
      omega
    refine ⟨r + (t.window.length + 1), ⟨?_, hlen, fun o ho => by simp at ho⟩, fun r' hrec => .inl ?_,
      fun _ => .inl (by omega)⟩
    · rw [h.index]
      apply Sequence24.ext
      simp only [Sequence24.val_new]
      omega
    · rcases hrec with hlt | ⟨hlt, hbit⟩
      · omega
      · have := (List.getElem?_eq_some_iff.1 hbit).1
        omega
  · by_cases hwin : t.base.distanceTo (Sequence24.new r) ≤ t.maxWindow
    · have hpos : 0 < t.base.distanceTo (Sequence24.new r) :=
        Nat.pos_of_ne_zero fun h0 => heq (Sequence24.distanceTo_eq_zero_iff.1 h0).symm
      have hrb : r ≠ base := fun e => heq (by rw [h.index, e])
      rw [see_of_inWindow heq hwin]
      have hdist' : t.base.distanceTo (Sequence24.new r) = if base ≤ r then r - base else 2 ^ 24 - base + r := by
        rw [h.index, hdist]
      refine ⟨base, ⟨h.index, h.le, fun o ho => ?_⟩, fun r' hrec => ?_, fun hin => ?_⟩
      · rcases (mark_bit hpos o).1 ho with rfl | ho
        · split at hdist' <;> omega
        · exact h.bits o ho
      · exact hrec.imp_right fun ⟨hlt, hbit⟩ => ⟨hlt, (mark_bit hpos _).2 (.inr hbit)⟩
      · rcases hin with hin | ⟨hahead, -⟩
        · exact absurd hin heq
        · rw [h.index,
            Sequence24.gt_iff_of_small (by rw [Sequence24.val_new]; omega) (by rw [Sequence24.val_new]; omega),
            Sequence24.val_new, Sequence24.val_new] at hahead
          refine .inr ⟨by omega, (mark_bit hpos _).2 (.inl ?_)⟩
          rw [if_pos (by omega)] at hdist'
          omega
    · rw [see_of_outOfWindow ⟨heq, Nat.lt_of_not_le hwin⟩]
      refine ⟨base, h, fun _ hrec => hrec, fun hin => ?_⟩
      exact absurd hin (not_or.2 ⟨heq, fun hn => hwin hn.2⟩)

end See

/-! ## What counts as seen was shown

The other direction: the base has passed, and the set bits stand for, indexes of a list only. -/

structure Vouches (t : ReliableTracker) (seen : List Nat) (base : Nat) : Prop where
  index : t.base = Sequence24.new base
  behind : ∀ n < base, n ∈ seen
  bits : ∀ o : Nat, t.window[o]? = some true → base + 1 + o ∈ seen ∨ 2 ^ 24 ≤ base + 1 + o

theorem Vouches.new (maxWindow : Nat) : Vouches (ReliableTracker.new maxWindow) [] 0 :=
  ⟨rfl, fun n hn => absurd hn (Nat.not_lt_zero n), fun o h => by simp [ReliableTracker.new] at h⟩

section Vouches

variable {t : ReliableTracker} {seen : List Nat} {base r : Nat} (hsmall : ∀ n ∈ seen, n < 2 ^ 23)
  (h : Vouches t seen base)

include hsmall h

theorem Vouches.base_le : base ≤ 2 ^ 23 := by
  by_contra hlong
  have := hsmall _ (h.behind (2 ^ 23) (by omega))
  omega

/-- An index that counts as seen was shown. -/
theorem Vouches.mem_of_hasSeen (hr : r < 2 ^ 23) (hseen : t.hasSeen (Sequence24.new r) = true) : r ∈ seen := by
  have hbase := h.base_le hsmall
  obtain ⟨hne, -, hbit⟩ := hasSeen_iff.1 hseen
  rcases Nat.lt_trichotomy r base with hlt | heq | hgt
  · exact h.behind r hlt
  · exact absurd (by rw [h.index, heq]) hne
  · rw [h.index, distanceTo_new (by omega) (by omega), if_pos hgt.le] at hbit
    have hslot : base + 1 + (r - base - 1) = r := by omega
    rcases h.bits _ hbit with hmem | hfar
    · rwa [hslot] at hmem
    · omega

/-- Showing the base an index moves it past everything it has on record, if there is no gap. -/
theorem Vouches.see_base (hgap : t.GapFree) :
    Vouches (t.see t.base).2 (base :: seen) (base + (t.window.length + 1)) := by
  have hbase := h.base_le hsmall
  have hbit : ∀ o < t.window.length, base + 1 + o ∈ seen ∨ 2 ^ 24 ≤ base + 1 + o := by
    intro o ho
    refine h.bits o ?_
    rw [List.getElem?_eq_getElem ho, hgap _ (List.getElem_mem ho)]
  -- a bit half a turn ahead would stand for an index that is not in use
  have hlen : base + t.window.length < 2 ^ 23 + 1 := by
    by_contra hlong
    rcases hbit (2 ^ 23 - base) (by omega) with hmem | hfar
    · have := hsmall _ hmem
      omega
    · omega
  rw [see_base_gapFree hgap]
  refine ⟨?_, fun n hn => ?_, fun o ho => by simp at ho⟩
  · rw [h.index]
    apply Sequence24.ext
    simp only [Sequence24.val_new]
    omega
  · rw [List.mem_cons]
    rcases Nat.lt_trichotomy n base with hlt | heq | hgt
    · exact .inr (h.behind n hlt)
    · exact .inl heq
    · rcases hbit (n - base - 1) (by omega) with hmem | hfar
      · rw [show base + 1 + (n - base - 1) = n by omega] at hmem
        exact .inr hmem
      · omega

/-- Showing an index ahead of the base sets at most its own bit. -/
theorem Vouches.see_ahead (hr : r < 2 ^ 23) (hne : Sequence24.new r ≠ t.base) :
    Vouches (t.see (Sequence24.new r)).2 (r :: seen) base := by
  have hbase := h.base_le hsmall
  have hmem : ∀ {n : Nat}, n ∈ seen → n ∈ r :: seen := fun hn => List.mem_cons_of_mem _ hn
  by_cases hwin : t.base.distanceTo (Sequence24.new r) ≤ t.maxWindow
  · have hpos : 0 < t.base.distanceTo (Sequence24.new r) :=
      Nat.pos_of_ne_zero fun h0 => hne (Sequence24.distanceTo_eq_zero_iff.1 h0).symm
    rw [see_of_inWindow hne hwin]
    refine ⟨h.index, fun n hn => hmem (h.behind n hn), fun o ho => ?_⟩
    rcases (mark_bit hpos o).1 ho with rfl | ho
    · rw [h.index, distanceTo_new (by omega) (by omega)] at hpos ⊢
      split
      · left
        rw [if_pos ‹_›] at hpos
        rw [show base + 1 + (r - base - 1) = r by omega]
        exact List.mem_cons_self ..
      · right
        omega
    · exact (h.bits o ho).imp_left hmem
  · rw [see_of_outOfWindow ⟨hne, Nat.lt_of_not_le hwin⟩]
    exact ⟨h.index, fun n hn => hmem (h.behind n hn), fun o ho => (h.bits o ho).imp_left hmem⟩

theorem Vouches.see (hr : r < 2 ^ 23) (hgap : Sequence24.new r = t.base → t.GapFree) :
    ∃ base', Vouches (t.see (Sequence24.new r)).2 (r :: seen) base' := by
  by_cases heq : Sequence24.new r = t.base
  · have hbase := h.base_le hsmall
    have hrb : r = base := by
      rw [h.index, Sequence24.ext_iff', Sequence24.val_new, Sequence24.val_new] at heq
      omega
    rw [heq, hrb]
    exact ⟨_, h.see_base hsmall (hgap heq)⟩
  · exact ⟨base, h.see_ahead hsmall hr heq⟩

end Vouches

end BedrockRs.Raknet.ReliableTracker

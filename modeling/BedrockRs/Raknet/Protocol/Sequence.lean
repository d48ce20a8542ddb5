/-
The 24-bit circular sequence number `Sequence24` (`protocol/types/sequence.rs`): successor,
predecessor, forward distance, offset by a signed integer, and the circular comparison. A value
carries its bound, so every `Sequence24` is one that `Sequence24::new` can build.

The comparison is the source's `Ord::cmp`, which is no linear order: it is not transitive, and two
numbers exactly half a turn apart are each less than the other. What the rest of the development
uses is its arithmetic reading (`lt_iff`, `gt_iff`, …) and its agreement with the plain order below
half a turn.
-/
import Mathlib.Tactic

namespace BedrockRs.Raknet

/-- Sequence type for a U24. -/
structure Sequence24 where
  val : Nat
  isLt : val < 2 ^ 24
deriving DecidableEq, Repr

namespace Sequence24

/-- `HALF`: half of the modulus `1 << 24`. -/
abbrev half : Nat := 2 ^ 23

def new (v : Nat) : Sequence24 := ⟨v % 2 ^ 24, Nat.mod_lt _ (by decide)⟩

def value (a : Sequence24) : Nat := a.val

def next (a : Sequence24) : Sequence24 := new (a.val + 1)

def prev (a : Sequence24) : Sequence24 :=
  if a.val = 0 then new (2 ^ 24 - 1) else ⟨a.val - 1, by have := a.isLt; omega⟩

/-- Steps of `next` from `a` to `newer`. -/
def distanceTo (a newer : Sequence24) : Nat :=
  if newer.val ≥ a.val then newer.val - a.val else (2 ^ 24 - a.val) + newer.val

def cmp (a b : Sequence24) : Ordering :=
  let d : Int := (a.val : Int) - (b.val : Int)
  if d = 0 then .eq
  -- `a` is newer (greater)
  else if (0 < d ∧ d < half) ∨ (d < 0 ∧ d < -half) then .gt
  else .lt

/-- `a < b`, `a <= b`, `a > b` and `a >= b` as `PartialOrd` derives them from `cmp`. -/
def lt (a b : Sequence24) : Bool := a.cmp b = .lt
def le (a b : Sequence24) : Bool := a.cmp b ≠ .gt
def gt (a b : Sequence24) : Bool := a.cmp b = .gt
def ge (a b : Sequence24) : Bool := a.cmp b ≠ .lt

/-- `std::cmp::max` and `std::cmp::min`, which ask whether the second number is less than the first. -/
def max (a b : Sequence24) : Sequence24 := if b.lt a then a else b
def min (a b : Sequence24) : Sequence24 := if b.lt a then b else a

/-- `Add<i32>`: the remainder is the truncated one of the source, made non-negative afterwards. -/
def addI32 (a : Sequence24) (rhs : Int) : Sequence24 :=
  let value := ((a.val : Int) + rhs).tmod (2 ^ 24)
  new (if value < 0 then value + 2 ^ 24 else value).toNat

/-! ## Arithmetic readings -/

@[ext] theorem ext {a b : Sequence24} (h : a.val = b.val) : a = b := by
  obtain ⟨x, hx⟩ := a; obtain ⟨y, hy⟩ := b; cases h; rfl

theorem ext_iff' {a b : Sequence24} : a = b ↔ a.val = b.val := ⟨fun h => by rw [h], ext⟩

@[simp] theorem val_new (v : Nat) : (new v).val = v % 2 ^ 24 := rfl

theorem val_next (a : Sequence24) : a.next.val = if a.val = 2 ^ 24 - 1 then 0 else a.val + 1 := by
  have := a.isLt
  simp only [next, val_new]
  split <;> omega

theorem val_next_of_lt {a : Sequence24} (h : a.val < 2 ^ 24 - 1) : a.next.val = a.val + 1 := by
  rw [val_next, if_neg (by omega)]

theorem val_prev (a : Sequence24) : a.prev.val = if a.val = 0 then 2 ^ 24 - 1 else a.val - 1 := by
  unfold prev
  split <;> simp

theorem distanceTo_lt (a b : Sequence24) : a.distanceTo b < 2 ^ 24 := by
  have := a.isLt; have := b.isLt
  unfold distanceTo
  split <;> omega

theorem distanceTo_eq_zero_iff {a b : Sequence24} : a.distanceTo b = 0 ↔ a = b := by
  have := a.isLt; have := b.isLt
  unfold distanceTo
  rw [ext_iff']
  split <;> omega

/-- A sequence number is recovered from a base and its distance. -/
theorem new_add_distanceTo (a b : Sequence24) : new (a.val + a.distanceTo b) = b := by
  have := a.isLt; have := b.isLt
  apply ext
  unfold distanceTo
  split <;> simp only [val_new] <;> omega

theorem distanceTo_new_add (a : Sequence24) {i : Nat} (h : i < 2 ^ 24) : a.distanceTo (new (a.val + i)) = i := by
  have := a.isLt
  have hv : (new (a.val + i)).val = (a.val + i) % 2 ^ 24 := rfl
  unfold distanceTo
  split <;> omega

theorem next_add (a : Sequence24) (i : Nat) : new (a.next.val + i) = new (a.val + (i + 1)) := by
  apply ext
  simp only [next, val_new]
  omega

@[simp] theorem new_val (a : Sequence24) : new a.val = a := by
  apply ext
  have := a.isLt
  simp only [val_new]; omega

theorem addI32_nat (a : Sequence24) (i : Nat) : a.addI32 i = new (a.val + i) := by
  apply ext
  unfold addI32
  simp only [val_new]
  have h : (((a.val : Int) + (i : Int)).tmod (2 ^ 24)) = (((a.val + i) % 2 ^ 24 : Nat) : Int) := by
    rw [Int.tmod_eq_emod_of_nonneg (by omega)]; push_cast; rfl
  rw [h, if_neg (by omega)]
  omega

/-! ## The circular comparison -/

theorem gt_iff {a b : Sequence24} : a.gt b = true ↔
    (b.val < a.val ∧ a.val - b.val < 2 ^ 23) ∨ (a.val < b.val ∧ 2 ^ 23 < b.val - a.val) := by
  have := a.isLt; have := b.isLt
  unfold gt cmp half
  simp only [decide_eq_true_eq]
  split
  · simp; omega
  · split
    · simp; omega
    · simp; omega

theorem lt_iff {a b : Sequence24} : a.lt b = true ↔
    (a.val < b.val ∧ b.val - a.val ≤ 2 ^ 23) ∨ (b.val < a.val ∧ 2 ^ 23 ≤ a.val - b.val) := by
  have := a.isLt; have := b.isLt
  unfold lt cmp half
  simp only [decide_eq_true_eq]
  split
  · simp; omega
  · split
    · simp; omega
    · simp; omega

theorem ge_iff {a b : Sequence24} : a.ge b = true ↔ ¬ a.lt b = true := by
  simp [ge, lt]

theorem le_iff {a b : Sequence24} : a.le b = true ↔ ¬ a.gt b = true := by
  simp [le, gt]

/-- Below half a turn the circular order is the order of the values. -/
theorem lt_iff_of_small {a b : Sequence24} (ha : a.val < 2 ^ 23) (hb : b.val < 2 ^ 23) :
    a.lt b = true ↔ a.val < b.val := by
  rw [lt_iff]; omega

theorem gt_iff_of_small {a b : Sequence24} (ha : a.val < 2 ^ 23) (hb : b.val < 2 ^ 23) :
    a.gt b = true ↔ b.val < a.val := by
  rw [gt_iff]; omega

/-- `>` is the distance reading: `b > a` exactly when `b` is fewer than half a turn ahead. -/
theorem gt_iff_distanceTo {a b : Sequence24} :
    b.gt a = true ↔ 1 ≤ a.distanceTo b ∧ a.distanceTo b < 2 ^ 23 := by
  have := a.isLt; have := b.isLt
  rw [gt_iff]
  unfold distanceTo
  split <;> omega

/-- `<` is the distance reading, with the half-turn point counted as ahead. -/
theorem lt_iff_distanceTo {a b : Sequence24} :
    a.lt b = true ↔ 1 ≤ a.distanceTo b ∧ a.distanceTo b ≤ 2 ^ 23 := by
  have := a.isLt; have := b.isLt
  rw [lt_iff]
  unfold distanceTo
  split <;> omega

/-! ## The contract of `Ord` -/

theorem cmp_eq_iff {a b : Sequence24} : a.cmp b = .eq ↔ a = b := by
  rw [ext_iff']
  unfold cmp
  simp only
  split_ifs with hzero hgreater
  · simp only [true_iff]
    omega
  · simp only [false_iff]
    omega
  · simp only [false_iff]
    omega

/-- The distances to and from another number make a full turn. -/
theorem distanceTo_add_distanceTo {a b : Sequence24} (h : a ≠ b) : a.distanceTo b + b.distanceTo a = 2 ^ 24 := by
  have hne := (ext_iff' (a := a) (b := b)).not.1 h
  have := a.isLt; have := b.isLt
  unfold distanceTo
  split <;> split <;> omega

/-- Comparing the other way round gives the opposite result, but for two numbers half a turn apart: neither of them is
newer, and each compares as older. -/
theorem cmp_swap_iff {a b : Sequence24} : a.cmp b = (b.cmp a).swap ↔ a.distanceTo b ≠ 2 ^ 23 := by
  by_cases hab : a = b
  · subst hab
    rw [cmp_eq_iff.2 rfl, distanceTo_eq_zero_iff.2 rfl]
    exact ⟨fun _ => by decide, fun _ => rfl⟩
  · have hturn := distanceTo_add_distanceTo hab
    have hba : b.gt a = true ↔ 1 ≤ a.distanceTo b ∧ a.distanceTo b < 2 ^ 23 := gt_iff_distanceTo
    have hab' : a.gt b = true ↔ 1 ≤ b.distanceTo a ∧ b.distanceTo a < 2 ^ 23 := gt_iff_distanceTo
    have hpos : a.distanceTo b ≠ 0 := distanceTo_eq_zero_iff.not.2 hab
    have hpos' : b.distanceTo a ≠ 0 := distanceTo_eq_zero_iff.not.2 (Ne.symm hab)
    have hlt : ∀ {x y : Sequence24}, x ≠ y → x.gt y ≠ true → x.cmp y = .lt := by
      intro x y hne hngt
      cases hxy : x.cmp y with
      | lt => rfl
      | eq => exact absurd (cmp_eq_iff.1 hxy) hne
      | gt => exact absurd (by rw [gt, hxy]; rfl) hngt
    rcases lt_trichotomy (a.distanceTo b) (2 ^ 23) with hd | hd | hd
    · have hb : b.cmp a = .gt := by simpa [gt] using hba.2 (by omega)
      rw [hlt hab (hab'.not.2 (by omega)), hb]
      exact ⟨fun _ => hd.ne, fun _ => rfl⟩
    · rw [hlt hab (hab'.not.2 (by omega)), hlt (Ne.symm hab) (hba.not.2 (by omega))]
      exact ⟨fun h => absurd h (by decide), fun h => absurd hd h⟩
    · have ha : a.cmp b = .gt := by simpa [gt] using hab'.2 (by omega)
      rw [ha, hlt (Ne.symm hab) (hba.not.2 (by omega))]
      exact ⟨fun _ => hd.ne', fun _ => rfl⟩

theorem addI32_distanceTo (a b : Sequence24) : a.addI32 (a.distanceTo b) = b := by
  rw [addI32_nat, new_add_distanceTo]

@[simp] theorem prev_next (a : Sequence24) : a.next.prev = a := by
  have := a.isLt
  apply ext
  simp only [val_prev, val_next]
  by_cases h : a.val = 2 ^ 24 - 1
  · rw [if_pos h, if_pos rfl, h]
  · rw [if_neg h, if_neg (by omega)]
    omega

@[simp] theorem next_prev (a : Sequence24) : a.prev.next = a := by
  have := a.isLt
  apply ext
  simp only [val_next, val_prev]
  by_cases h : a.val = 0
  · rw [if_pos h, if_pos rfl, h]
  · rw [if_neg h, if_neg (by omega)]
    omega

/-- The comparison against the circular distance, `Add<i32>` against it, and the two neighbours of a number. The
comparison is antisymmetric except half a turn away, where no other reading of `>` as a distance below half a turn is
possible. -/
theorem ord_distance (a b : Sequence24) :
    (a.cmp b = (b.cmp a).swap ↔ a.distanceTo b ≠ 2 ^ 23) ∧ (a.cmp b = .eq ↔ a = b) ∧
      (b.gt a = true ↔ 1 ≤ a.distanceTo b ∧ a.distanceTo b < 2 ^ 23) ∧ a.addI32 (a.distanceTo b) = b ∧
      a.next.prev = a ∧ a.prev.next = a :=
  ⟨cmp_swap_iff, cmp_eq_iff, gt_iff_distanceTo, addI32_distanceTo a b, prev_next a, next_prev a⟩

/-- Zero and half a turn: each compares as older than the other. -/
theorem cmp_not_swap : ¬ ∀ a b : Sequence24, a.cmp b = (b.cmp a).swap :=
  fun h => absurd (h (new 0) (new (2 ^ 23))) (by decide)

end Sequence24

end BedrockRs.Raknet

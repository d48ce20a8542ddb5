/-
Pieces of the Rust language and standard library that the modelled code computes with and that have
no counterpart here: instants and durations, the unspecified iteration order of a hash map, writes to
a vector, `u8` arithmetic that may overflow, and the operations of `f64`.

Floating point stays abstract. `Float64` only names the operations, with no law, so a result proved
for every instance holds whatever the rounding does; the instance on `ℚ` is exact arithmetic and
computes.
-/
import Mathlib.Data.Rat.Floor
import Mathlib.Tactic

namespace BedrockRs.Lib

/-! ## Time -/

/-- A point of the monotonic clock, in nanoseconds from a fixed origin. -/
abbrev Instant := Nat

/-- A span of time in nanoseconds. -/
abbrev Duration := Nat

namespace Duration

def fromSecs (s : Nat) : Duration := s * 1000000000

def fromMillis (ms : Nat) : Duration := ms * 1000000

def asMillis (d : Duration) : Nat := d / 1000000

end Duration

/-- `now.duration_since(earlier)`, which is zero when `earlier` is later than `now`. -/
def Instant.durationSince (now earlier : Instant) : Duration := now - earlier

/-! ## Iteration order -/

/-- An order in which a hash map may be walked: some rearrangement of its entries. -/
structure IterOrder (α : Type) where
  order : List α → List α
  perm : ∀ l, (order l).Perm l

/-- The entries as they are stored. -/
def IterOrder.stored (α : Type) : IterOrder α := ⟨id, fun l => List.Perm.refl l⟩

/-! ## Lists as vectors -/

/-- Writing back what is there changes nothing. -/
theorem set_of_getElem? {α : Type} {l : List α} {i : Nat} {a : α} (h : l[i]? = some a) : l.set i a = l := by
  obtain ⟨hi, rfl⟩ := List.getElem?_eq_some_iff.1 h
  exact List.set_getElem_self hi

theorem subperm_filterMap {α β : Type} {l l' : List α} (h : l.Subperm l') (f : α → Option β) :
    (l.filterMap f).Subperm (l'.filterMap f) := by
  obtain ⟨k, hperm, hsub⟩ := h
  exact ⟨k.filterMap f, hperm.filterMap f, hsub.filterMap f⟩

theorem filterMap_positions {α β : Type} (f : α → Option β) (l : List α) :
    (List.range l.length).filterMap (fun i => l[i]?.bind f) = l.filterMap f := by
  induction l using List.reverseRecOn with
  | nil => rfl
  | append_singleton l a ih =>
    have hsame : (List.range l.length).filterMap (fun i => (l ++ [a])[i]?.bind f) =
        (List.range l.length).filterMap (fun i => l[i]?.bind f) :=
      List.filterMap_congr fun i hi => by rw [List.getElem?_append_left (List.mem_range.1 hi)]
    rw [List.length_append, List.length_singleton, List.range_succ, List.filterMap_append, List.filterMap_append,
      hsame, ih]
    simp [List.filterMap_cons]

/-- The last value that `f` gives is that of the last element it keeps. -/
theorem getLast?_filterMap_eq_bind {α β : Type} (f : α → Option β) (l : List α) :
    (l.filterMap f).getLast? = (l.filter fun a => (f a).isSome).getLast?.bind f := by
  induction l using List.reverseRecOn with
  | nil => rfl
  | append_singleton l a ih =>
    rw [List.filterMap_append, List.filter_append]
    cases ha : f a with
    | none =>
      rw [List.filterMap_cons_none ha, List.filterMap_nil, List.append_nil, List.filter_cons_of_neg (by simp [ha]),
        List.filter_nil, List.append_nil]
      exact ih
    | some b =>
      rw [List.filterMap_cons_some ha, List.filterMap_nil, List.getLast?_concat, List.filter_cons_of_pos (by simp [ha]),
        List.filter_nil, List.getLast?_concat, Option.bind_some, ha]

/-- The last element that `f` keeps, with what follows it. -/
theorem split_getLast?_filterMap {α β : Type} {f : α → Option β} {l : List α} {b : β}
    (h : (l.filterMap f).getLast? = some b) :
    ∃ pre a post, l = pre ++ a :: post ∧ f a = some b ∧ ∀ x ∈ post, f x = none := by
  induction l using List.reverseRecOn with
  | nil => cases h
  | append_singleton l a ih =>
    rw [List.filterMap_append] at h
    cases ha : f a with
    | none =>
      rw [List.filterMap_cons_none ha, List.filterMap_nil, List.append_nil] at h
      obtain ⟨pre, a', post, rfl, hb, hpost⟩ := ih h
      refine ⟨pre, a', post ++ [a], by simp, hb, fun x hx => ?_⟩
      rcases List.mem_append.1 hx with hx | hx
      · exact hpost x hx
      · rwa [List.mem_singleton.1 hx]
    | some c =>
      rw [List.filterMap_cons_some ha, List.filterMap_nil, List.getLast?_concat] at h
      exact ⟨l, a, [], rfl, by rw [ha, h], fun x hx => by cases hx⟩

/-- Writing over an element that `f` drops. -/
theorem filterMap_set_perm {α β : Type} {f : α → Option β} {l : List α} {i : Nat} {a : α} (h : l[i]? = some a)
    (ha : f a = none) (a' : α) : ((l.set i a').filterMap f).Perm ((f a').toList ++ l.filterMap f) := by
  obtain ⟨hi, rfl⟩ := List.getElem?_eq_some_iff.1 h
  have hrest : ((l.eraseIdx i).filterMap f).Perm (l.filterMap f) := by
    have := (List.getElem_cons_eraseIdx_perm hi).filterMap f
    rwa [List.filterMap_cons_none ha] at this
  refine ((List.set_perm_cons_eraseIdx hi a').filterMap f).trans ?_
  cases ha' : f a' with
  | none => rwa [List.filterMap_cons_none ha']
  | some b =>
    rw [List.filterMap_cons_some ha']
    exact hrest.cons b

theorem flatMap_set_perm {α β : Type} {f : α → List β} {l : List α} {i : Nat} {a a' : α} {b : List β}
    (h : l[i]? = some a) (ha : f a' = f a ++ b) : ((l.set i a').flatMap f).Perm (l.flatMap f ++ b) := by
  obtain ⟨hi, rfl⟩ := List.getElem?_eq_some_iff.1 h
  have hl : (l.flatMap f).Perm (f l[i] ++ (l.eraseIdx i).flatMap f) :=
    ((List.getElem_cons_eraseIdx_perm hi).flatMap_right f).symm
  have hset : ((l.set i a').flatMap f).Perm (f l[i] ++ b ++ (l.eraseIdx i).flatMap f) := by
    rw [← ha]
    exact (List.set_perm_cons_eraseIdx hi a').flatMap_right f
  refine hset.trans (List.Perm.trans ?_ (hl.append_right b).symm)
  rw [List.append_assoc, List.append_assoc]
  exact List.perm_append_comm.append_left _

/-- What holds at every step of a list, step by step. -/
theorem forall_steps_concat {α : Type} {P : List α → α → Prop} {l : List α} {a : α} :
    (∀ before x, before ++ [x] <+: l ++ [a] → P before x) ↔ (∀ before x, before ++ [x] <+: l → P before x) ∧ P l a := by
  constructor
  · intro h
    exact ⟨fun before x hx => h before x (hx.trans (List.prefix_append _ _)), h l a (List.prefix_refl _)⟩
  · rintro ⟨hinit, hlast⟩ before x hx
    rcases List.prefix_concat_iff.1 hx with heq | hx
    · obtain ⟨rfl, hxa⟩ := List.append_inj' heq rfl
      obtain rfl := List.singleton_inj.1 hxa
      exact hlast
    · exact hinit before x hx

theorem forall_steps_append {α : Type} {P : List α → α → Prop} {l more : List α}
    (hl : ∀ before x, before ++ [x] <+: l → P before x)
    (hmore : ∀ before x, before ++ [x] <+: more → P (l ++ before) x) :
    ∀ before x, before ++ [x] <+: l ++ more → P before x := by
  induction more using List.reverseRecOn with
  | nil => rwa [List.append_nil]
  | append_singleton more a ih =>
    rw [← List.append_assoc, forall_steps_concat]
    exact ⟨ih fun before x hx => hmore before x (hx.trans (List.prefix_append _ _)), hmore more a (List.prefix_refl _)⟩

/-- The `k`-th element that meets `p` has `k` others before it. -/
theorem exists_take_of_filter_getElem? {α : Type} (p : α → Bool) :
    ∀ {l : List α} {k : Nat} {a : α}, (l.filter p)[k]? = some a → ∃ i, l[i]? = some a ∧ ((l.take i).filter p).length = k
  | [], _, _, h => by simp at h
  | x :: l, k, a, h => by
    rw [List.filter_cons] at h
    split at h
    · rename_i hx
      cases k with
      | zero =>
        refine ⟨0, ?_, rfl⟩
        simpa using h
      | succ k =>
        obtain ⟨i, hi, hk⟩ := exists_take_of_filter_getElem? p (l := l) (by simpa using h)
        exact ⟨i + 1, by simpa using hi, by simp [hx, hk]⟩
    · rename_i hx
      obtain ⟨i, hi, hk⟩ := exists_take_of_filter_getElem? p h
      exact ⟨i + 1, by simpa using hi, by simp [hx, hk]⟩

/-- After one element of a list is replaced, every element is still there or was the replaced one. -/
theorem exists_mem_set {α : Type} {R : α → α → Prop} (hrefl : ∀ x, R x x) {l : List α} {i : Nat} {old new : α}
    (hold : l[i]? = some old) (hnew : R old new) : ∀ x ∈ l, ∃ y ∈ l.set i new, R x y := by
  intro x hx
  obtain ⟨j, hj⟩ := List.mem_iff_getElem?.1 hx
  by_cases hij : i = j
  · subst hij
    rw [hold] at hj
    cases hj
    exact ⟨new, List.mem_set (List.getElem?_eq_some_iff.1 hold).1 new, hnew⟩
  · refine ⟨x, List.mem_iff_getElem?.2 ⟨j, ?_⟩, hrefl x⟩
    rw [List.getElem?_set_ne hij, hj]

/-! ## Overflow -/

/-- How the code is built: `dev` stops at an overflow and at a failed `debug_assert!`, `release` wraps
round and has no such assertions. -/
inductive Profile where
  | dev
  | release
deriving DecidableEq, Repr

theorem toNat_ofNat_small {k : Nat} (h : k ≤ 255) : (UInt8.ofNat k).toNat = k := by
  rw [UInt8.toNat_ofNat']
  omega

namespace Profile

/-- `a + b` on `u8`; `none` is the panic. -/
def addU8 (p : Profile) (a b : UInt8) : Option UInt8 :=
  if p = .dev ∧ 256 ≤ a.toNat + b.toNat then none else some (a + b)

/-- `a - b` on `u8`. -/
def subU8 (p : Profile) (a b : UInt8) : Option UInt8 :=
  if p = .dev ∧ a.toNat < b.toNat then none else some (a - b)

def debugAssert (p : Profile) (b : Bool) : Option Unit := if p = .dev ∧ b = false then none else some ()

theorem addU8_one {a : UInt8} (p : Profile) (h : a ≠ 255) : p.addU8 a 1 = some (a + 1) := by
  refine if_neg fun hover => h ?_
  have ha := a.toNat_lt
  have hb : (1 : UInt8).toNat = 1 := rfl
  exact UInt8.toNat_inj.1 (by rw [show (255 : UInt8).toNat = 255 from rfl]; omega)

theorem subU8_one {a : UInt8} (p : Profile) (h : a ≠ 0) : p.subU8 a 1 = some (a - 1) := by
  refine if_neg fun hover => h ?_
  have hb : (1 : UInt8).toNat = 1 := rfl
  exact UInt8.toNat_inj.1 (by rw [show (0 : UInt8).toNat = 0 from rfl]; omega)

end Profile

/-! ## Floating point -/

/-- The operations of `f64` that the congestion window uses. -/
class Float64 (F : Type) where
  /-- The number nearest to a rational: a literal, or an integer cast `as f64`. -/
  ofRat : ℚ → F
  add : F → F → F
  sub : F → F → F
  mul : F → F → F
  div : F → F → F
  abs : F → F
  max : F → F → F
  lt : F → F → Bool
  le : F → F → Bool
  eq : F → F → Bool
  /-- The saturating cast `as usize`: truncated, and zero below zero. -/
  toNat : F → Nat

instance : Float64 ℚ where
  ofRat q := q
  add := (· + ·)
  sub := (· - ·)
  mul := (· * ·)
  div := (· / ·)
  abs q := |q|
  max := max
  lt a b := a < b
  le a b := a ≤ b
  eq a b := a = b
  toNat q := ⌊q⌋.toNat

namespace Float64

@[simp] theorem ofRat_rat (q : ℚ) : (ofRat q : ℚ) = q := rfl
@[simp] theorem add_rat (a b : ℚ) : add a b = a + b := rfl
@[simp] theorem sub_rat (a b : ℚ) : sub a b = a - b := rfl
@[simp] theorem mul_rat (a b : ℚ) : mul a b = a * b := rfl
@[simp] theorem div_rat (a b : ℚ) : div a b = a / b := rfl
@[simp] theorem max_rat (a b : ℚ) : max a b = Max.max a b := rfl
@[simp] theorem toNat_rat (q : ℚ) : toNat q = ⌊q⌋.toNat := rfl

@[simp] theorem lt_rat {a b : ℚ} : lt a b = true ↔ a < b := decide_eq_true_iff
@[simp] theorem le_rat {a b : ℚ} : le a b = true ↔ a ≤ b := decide_eq_true_iff
@[simp] theorem eq_rat {a b : ℚ} : eq a b = true ↔ a = b := decide_eq_true_iff

end Float64

end BedrockRs.Lib

/-
The array-backed binary max-heap of the Rust standard library (`std::collections::BinaryHeap`),
over an arbitrary element type and an arbitrary `<=` test: `push` sifts the new element up, `pop`
moves the last element to the root, sifts it down to the bottom and then up again. The comparison
is a plain Boolean function, so a heap over a comparison that is no order still has a definite
behaviour.

What holds for any comparison: `push` and `pop` keep the elements (as a permutation) and `pop`
takes exactly the element `peek` shows. What holds when the comparison agrees with a key into a
linear order on the elements of the heap: the heap order is kept and `peek` shows a greatest key.
-/
import Mathlib.Data.List.Basic
import Mathlib.Order.Basic
import Mathlib.Tactic

namespace BedrockRs.Lib

/-- The elements of a binary heap in level order. -/
structure BinaryHeap (α : Type) where
  data : List α
deriving DecidableEq, Repr

namespace BinaryHeap

variable {α : Type}

/-! ## Operations -/

def empty : BinaryHeap α := ⟨[]⟩

def len (h : BinaryHeap α) : Nat := h.data.length

def isEmpty (h : BinaryHeap α) : Bool := h.data.isEmpty

def peek (h : BinaryHeap α) : Option α := h.data.head?

/-- Exchanges two positions; out-of-range positions leave the list alone. -/
def swap (l : List α) (i j : Nat) : List α :=
  match l[i]?, l[j]? with
  | some x, some y => (l.set i y).set j x
  | _, _ => l

/-- Moves the element at `pos` up while it is greater than its parent. `pos` itself is enough
fuel: a parent's position is smaller. -/
def siftUp (le : α → α → Bool) : Nat → List α → Nat → List α
  | 0, l, _ => l
  | fuel + 1, l, pos =>
    if pos = 0 then l
    else
      match l[pos]?, l[(pos - 1) / 2]? with
      | some x, some p =>
        if le x p then l else siftUp le fuel (swap l pos ((pos - 1) / 2)) ((pos - 1) / 2)
      | _, _ => l

/-- Moves the element at `pos` down to the bottom along the greater children (the right one on a
tie), and returns the data with the final position. -/
def siftDownToBottom (le : α → α → Bool) : Nat → List α → Nat → List α × Nat
  | 0, l, pos => (l, pos)
  | fuel + 1, l, pos =>
    match l[2 * pos + 1]?, l[2 * pos + 2]? with
    | some a, some b =>
      let child := if le a b then 2 * pos + 2 else 2 * pos + 1
      siftDownToBottom le fuel (swap l pos child) child
    -- only the left child exists: the loop of the source ends and moves there once more
    | some _, none => (swap l pos (2 * pos + 1), 2 * pos + 1)
    | _, _ => (l, pos)

def push (le : α → α → Bool) (h : BinaryHeap α) (x : α) : BinaryHeap α :=
  ⟨siftUp le h.data.length (h.data ++ [x]) h.data.length⟩

def pop (le : α → α → Bool) (h : BinaryHeap α) : Option (α × BinaryHeap α) :=
  match h.data.getLast?, h.data.dropLast with
  | none, _ => none
  | some item, [] => some (item, ⟨[]⟩)
  | some item, top :: rest =>
    let (l, pos) := siftDownToBottom le (rest.length + 1) (item :: rest) 0
    some (top, ⟨siftUp le pos l pos⟩)

/-! ## Elements are kept -/

theorem swap_perm (l : List α) (i j : Nat) : (swap l i j).Perm l := by
  unfold swap
  split
  · rename_i x y hx hy
    obtain ⟨hi, rfl⟩ := List.getElem?_eq_some_iff.1 hx
    obtain ⟨hj, rfl⟩ := List.getElem?_eq_some_iff.1 hy
    exact List.set_set_perm hi hj
  · exact List.Perm.refl l

theorem getElem?_swap {l : List α} {i j : Nat} (hi : i < l.length) (hj : j < l.length) (k : Nat) :
    (swap l i j)[k]? = if k = j then l[i]? else if k = i then l[j]? else l[k]? := by
  have hx : l[i]? = some l[i] := List.getElem?_eq_getElem hi
  have hy : l[j]? = some l[j] := List.getElem?_eq_getElem hj
  unfold swap
  rw [hx, hy]
  simp only [List.getElem?_set, List.length_set]
  by_cases hkj : k = j
  · subst hkj; simp [hj]
  · by_cases hki : k = i
    · subst hki; simp [hi, hkj, Ne.symm hkj]
    · simp [hkj, hki, Ne.symm hkj, Ne.symm hki]

theorem siftUp_perm (le : α → α → Bool) : ∀ (fuel : Nat) (l : List α) (pos : Nat),
    (siftUp le fuel l pos).Perm l
  | 0, l, _ => List.Perm.refl l
  | fuel + 1, l, pos => by
    unfold siftUp
    split
    · exact List.Perm.refl l
    · split
      · split
        · exact List.Perm.refl l
        · exact (siftUp_perm le fuel _ _).trans (swap_perm l _ _)
      · exact List.Perm.refl l

theorem siftDownToBottom_perm (le : α → α → Bool) : ∀ (fuel : Nat) (l : List α) (pos : Nat),
    (siftDownToBottom le fuel l pos).1.Perm l
  | 0, l, _ => List.Perm.refl l
  | fuel + 1, l, pos => by
    unfold siftDownToBottom
    split
    · exact (siftDownToBottom_perm le fuel _ _).trans (swap_perm l _ _)
    · exact swap_perm l _ _
    · exact List.Perm.refl l

theorem push_perm (le : α → α → Bool) (h : BinaryHeap α) (x : α) :
    (h.push le x).data.Perm (x :: h.data) := by
  unfold push
  exact (siftUp_perm le _ _ _).trans List.perm_append_comm

@[simp] theorem isEmpty_push (le : α → α → Bool) (h : BinaryHeap α) (x : α) : (h.push le x).isEmpty = false := by
  have hlen := (push_perm le h x).length_eq
  rw [isEmpty, List.isEmpty_eq_false_iff]
  rintro hnil
  rw [hnil] at hlen
  cases hlen

theorem pop_concat (le : α → α → Bool) (init : List α) (item : α) :
    (⟨init ++ [item]⟩ : BinaryHeap α).pop le = match init with
      | [] => some (item, ⟨[]⟩)
      | top :: rest => some (top, ⟨siftUp le (siftDownToBottom le (rest.length + 1) (item :: rest) 0).2
          (siftDownToBottom le (rest.length + 1) (item :: rest) 0).1
          (siftDownToBottom le (rest.length + 1) (item :: rest) 0).2⟩) := by
  unfold pop
  simp only [List.getLast?_append, List.getLast?_singleton, Option.some_or, List.dropLast_concat]
  cases init <;> rfl

/-- `pop` takes the element `peek` shows and keeps the others. -/
theorem pop_some {le : α → α → Bool} {h h' : BinaryHeap α} {x : α} (hp : h.pop le = some (x, h')) :
    h.peek = some x ∧ h.data.Perm (x :: h'.data) := by
  obtain ⟨l⟩ := h
  rcases List.eq_nil_or_concat l with rfl | ⟨init, item, rfl⟩
  · simp [pop] at hp
  · simp only [List.concat_eq_append] at hp ⊢
    rw [pop_concat] at hp
    cases init with
    | nil => cases hp; exact ⟨rfl, List.Perm.refl _⟩
    | cons top rest =>
      cases hp
      refine ⟨rfl, List.Perm.cons _ (List.perm_append_comm.trans ?_)⟩
      exact ((siftUp_perm le _ _ _).trans (siftDownToBottom_perm le _ _ _)).symm

theorem len_of_peek {h : BinaryHeap α} {x : α} (hp : h.peek = some x) : ∃ n, h.len = n + 1 := by
  obtain ⟨rest, hdata⟩ := List.head?_eq_some_iff.1 hp
  exact ⟨rest.length, by rw [len, hdata, List.length_cons]⟩

theorem pop_of_peek (le : α → α → Bool) {h : BinaryHeap α} {x : α} (hp : h.peek = some x) :
    ∃ h', h.pop le = some (x, h') := by
  obtain ⟨l⟩ := h
  rcases List.eq_nil_or_concat l with rfl | ⟨init, item, rfl⟩
  · simp [peek] at hp
  · simp only [List.concat_eq_append] at hp ⊢
    rw [pop_concat]
    cases init with
    | nil => cases hp; exact ⟨_, rfl⟩
    | cons top rest => cases hp; exact ⟨_, rfl⟩

theorem pop_none_iff (le : α → α → Bool) (h : BinaryHeap α) : h.pop le = none ↔ h.data = [] := by
  constructor
  · intro hq
    cases hd : h.data with
    | nil => rfl
    | cons x l =>
      obtain ⟨h', hh⟩ := pop_of_peek le (h := h) (x := x) (by simp [peek, hd])
      rw [hh] at hq; cases hq
  · intro hd; simp [pop, hd]

theorem mem_push {le : α → α → Bool} {h : BinaryHeap α} {x y : α} :
    y ∈ (h.push le x).data ↔ y = x ∨ y ∈ h.data := by
  rw [(push_perm le h x).mem_iff, List.mem_cons]

theorem len_pop {le : α → α → Bool} {h h' : BinaryHeap α} {x : α} (hp : h.pop le = some (x, h')) :
    h.len = h'.len + 1 :=
  (pop_some hp).2.length_eq

/-- Sifting up an element that is not greater than the root leaves the root where it is. -/
theorem siftUp_head {le : α → α → Bool} {x t : α} (hle : le x t = true) : ∀ (fuel : Nat) {l : List α} {pos : Nat},
    0 < pos → l[pos]? = some x → l[0]? = some t → (siftUp le fuel l pos)[0]? = some t
  | 0, _, _, _, _, ht => ht
  | fuel + 1, l, pos, hpos, hx, ht => by
    unfold siftUp
    rw [if_neg (Nat.pos_iff_ne_zero.1 hpos), hx]
    split
    · rename_i x' p hx' hp
      cases hx'
      split
      · exact ht
      · rename_i hnle
        have hparent : 0 < (pos - 1) / 2 := by
          by_contra h0
          rw [show (pos - 1) / 2 = 0 by omega, ht] at hp
          cases hp
          exact hnle hle
        have hget := getElem?_swap (List.getElem?_eq_some_iff.1 hx).1 (List.getElem?_eq_some_iff.1 hp).1
        refine siftUp_head hle fuel hparent ?_ ?_
        · rw [hget, if_pos rfl, hx]
        · rw [hget, if_neg (by omega), if_neg (by omega), ht]
    · exact ht

theorem peek_push {le : α → α → Bool} {h : BinaryHeap α} {x t : α} (hp : h.peek = some t) (hle : le x t = true) :
    (h.push le x).peek = some t := by
  rw [peek, List.head?_eq_getElem?] at hp ⊢
  have hpos : 0 < h.data.length := (List.getElem?_eq_some_iff.1 hp).1
  refine siftUp_head hle _ hpos (by simp) ?_
  rw [List.getElem?_append_left hpos, hp]

/-! ## Heap order -/

section Order

variable {κ : Type} [LinearOrder κ] (key : α → κ)

/-- The comparison reads off the key on the elements of `l`. -/
def Agrees (le : α → α → Bool) (l : List α) : Prop :=
  ∀ x ∈ l, ∀ y ∈ l, (le x y = true ↔ key x ≤ key y)

/-- No element is greater than its parent. -/
def IsHeap (l : List α) : Prop :=
  ∀ i x p, 0 < i → l[i]? = some x → l[(i - 1) / 2]? = some p → key x ≤ key p

/-- The heap order with one suspect edge, the one from `pos` up to its parent. -/
structure UpReady (l : List α) (pos : Nat) : Prop where
  off : ∀ i x p, 0 < i → i ≠ pos → l[i]? = some x → l[(i - 1) / 2]? = some p → key x ≤ key p
  grand : ∀ c x g, 0 < c → (c - 1) / 2 = pos → 0 < pos → l[c]? = some x → l[(pos - 1) / 2]? = some g →
    key x ≤ key g

/-- The heap order with suspect edges only at `pos`, both up and down. -/
structure DownReady (l : List α) (pos : Nat) : Prop where
  off : ∀ i x p, 0 < i → i ≠ pos → (i - 1) / 2 ≠ pos → l[i]? = some x → l[(i - 1) / 2]? = some p →
    key x ≤ key p
  grand : ∀ c x g, 0 < c → (c - 1) / 2 = pos → 0 < pos → l[c]? = some x → l[(pos - 1) / 2]? = some g →
    key x ≤ key g

variable {key}

theorem Agrees.perm {le : α → α → Bool} {l m : List α} (h : Agrees key le l) (p : m.Perm l) :
    Agrees key le m :=
  fun x hx y hy => h x (p.mem_iff.1 hx) y (p.mem_iff.1 hy)

theorem UpReady.swap {l : List α} {pos : Nat} {x p : α} (h : UpReady key l pos) (h0 : pos ≠ 0)
    (hx : l[pos]? = some x) (hp : l[(pos - 1) / 2]? = some p) (hlt : key p ≤ key x) :
    UpReady key (swap l pos ((pos - 1) / 2)) ((pos - 1) / 2) := by
  have hlp : pos < l.length := (List.getElem?_eq_some_iff.1 hx).1
  have hq : (pos - 1) / 2 < pos := by omega
  have hlq : (pos - 1) / 2 < l.length := by omega
  -- the pair above the hole first, then what hangs below the element that moved down
  constructor
  · intro i y g hi hiq hy hg
    rw [getElem?_swap hlp hlq] at hy hg
    rw [if_neg hiq] at hy
    by_cases hip : i = pos
    · rw [if_pos hip, hp] at hy
      rw [hip, if_pos rfl, hx] at hg
      cases hy; cases hg; exact hlt
    · rw [if_neg hip] at hy
      split at hg
      · rename_i hpar
        rw [hx] at hg; cases hg
        exact le_trans (h.off i y p hi hip hy (by rw [hpar]; exact hp)) hlt
      · split at hg
        · rename_i hpar
          rw [hp] at hg; cases hg
          exact h.grand i y p hi hpar (by omega) hy hp
        · exact h.off i y g hi hip hy hg
  · intro c y g hc hcq hq0 hy hg
    rw [getElem?_swap hlp hlq] at hy hg
    rw [if_neg (by omega), if_neg (by omega)] at hg
    have hpg : key p ≤ key g := h.off _ p g hq0 (by omega) hp hg
    rw [if_neg (by omega)] at hy
    split at hy
    · rw [hp] at hy; cases hy; exact hpg
    · rename_i hcp
      exact le_trans (h.off c y p hc hcp hy (by rw [hcq]; exact hp)) hpg

/-- Sifting up repairs the one suspect edge. -/
theorem siftUp_isHeap {le : α → α → Bool} : ∀ (fuel : Nat) (l : List α) (pos : Nat), pos ≤ fuel →
    pos < l.length → Agrees key le l → UpReady key l pos → IsHeap key (siftUp le fuel l pos)
  | 0, l, pos, hf, _, _, h => by
    intro i x p hi hx hp
    exact h.off i x p hi (by omega) hx hp
  | fuel + 1, l, pos, hf, hlt, ha, h => by
    unfold siftUp
    split
    · rename_i h0
      intro i x p hi hx hp
      exact h.off i x p hi (by omega) hx hp
    · rename_i h0
      split
      · rename_i x p hx hp
        have hcmp := ha x (List.mem_of_getElem? hx) p (List.mem_of_getElem? hp)
        split
        · -- the element is in its place, and all other edges were good
          rename_i hle
          intro i y g hi hy hg
          by_cases hip : i = pos
          · subst hip
            rw [hx] at hy; rw [hp] at hg; cases hy; cases hg
            exact hcmp.1 hle
          · exact h.off i y g hi hip hy hg
        · rename_i hle
          have hpx : key p ≤ key x := le_of_not_ge fun hxp => hle (hcmp.2 hxp)
          have hperm := swap_perm l pos ((pos - 1) / 2)
          exact siftUp_isHeap fuel _ _ (by omega) (by rw [hperm.length_eq]; omega) (ha.perm hperm)
            (h.swap h0 hx hp hpx)
      · rename_i hno
        have h1 : l[pos]? = some l[pos] := List.getElem?_eq_getElem hlt
        have h2 : l[(pos - 1) / 2]? = some l[(pos - 1) / 2] := List.getElem?_eq_getElem (by omega)
        exact absurd h2 (hno _ _ h1)

theorem DownReady.swap {l : List α} {pos c : Nat} {y : α} (h : DownReady key l pos) (hc : 0 < c)
    (hcp : (c - 1) / 2 = pos) (hlp : pos < l.length) (hy : l[c]? = some y)
    (hmax : ∀ d z, 0 < d → (d - 1) / 2 = pos → l[d]? = some z → key z ≤ key y) :
    DownReady key (swap l pos c) c := by
  have hlc : c < l.length := (List.getElem?_eq_some_iff.1 hy).1
  constructor
  · intro i z g hi hic hpc hz hg
    rw [getElem?_swap hlp hlc] at hz hg
    rw [if_neg hic] at hz
    rw [if_neg hpc] at hg
    split at hz
    · rename_i hip
      subst hip
      rw [hy] at hz; cases hz
      rw [if_neg (by omega)] at hg
      exact h.grand c y g hc hcp hi hy hg
    · rename_i hip
      split at hg
      · rename_i hpar
        rw [hy] at hg; cases hg
        exact hmax i z hi hpar hz
      · rename_i hpar
        exact h.off i z g hi hip hpar hz hg
  · intro d z g hd hdc _ hz hg
    rw [getElem?_swap hlp hlc] at hz hg
    rw [hcp, if_neg (by omega), if_pos rfl, hy] at hg
    cases hg
    rw [if_neg (by omega), if_neg (by omega)] at hz
    exact h.off d z y hd (by omega) (by omega) hz (by rw [hdc]; exact hy)

theorem DownReady.bottom {l : List α} {pos : Nat} (h : DownReady key l pos) (hb : l.length ≤ 2 * pos + 1) :
    UpReady key l pos := by
  constructor
  · intro i x p hi hip hx hp
    have hil : i < l.length := (List.getElem?_eq_some_iff.1 hx).1
    exact h.off i x p hi hip (by omega) hx hp
  · exact h.grand

/-- Sifting down leaves one suspect edge, at the returned position. -/
theorem siftDownToBottom_upReady {le : α → α → Bool} : ∀ (fuel : Nat) (l : List α) (pos : Nat),
    l.length ≤ fuel + pos → pos < l.length → Agrees key le l → DownReady key l pos →
      UpReady key (siftDownToBottom le fuel l pos).1 (siftDownToBottom le fuel l pos).2 ∧
      (siftDownToBottom le fuel l pos).2 < l.length
  | 0, l, pos, hf, hlt, _, _ => by omega
  | fuel + 1, l, pos, hf, hlt, ha, h => by
    unfold siftDownToBottom
    split
    · rename_i a b hla hlb
      have hcmp := ha a (List.mem_of_getElem? hla) b (List.mem_of_getElem? hlb)
      have hkids : ∀ d z, 0 < d → (d - 1) / 2 = pos → l[d]? = some z → z = a ∨ z = b := by
        intro d z hd hdp hz
        have : d = 2 * pos + 1 ∨ d = 2 * pos + 2 := by omega
        rcases this with rfl | rfl
        · rw [hla] at hz; cases hz; exact .inl rfl
        · rw [hlb] at hz; cases hz; exact .inr rfl
      have step : ∀ c y, 0 < c → (c - 1) / 2 = pos → l[c]? = some y → key a ≤ key y → key b ≤ key y →
          UpReady key (siftDownToBottom le fuel (BinaryHeap.swap l pos c) c).1
            (siftDownToBottom le fuel (BinaryHeap.swap l pos c) c).2 ∧
          (siftDownToBottom le fuel (BinaryHeap.swap l pos c) c).2 < l.length := by
        intro c y hc hcp hy h1 h2
        have hlc : c < l.length := (List.getElem?_eq_some_iff.1 hy).1
        have hperm := swap_perm l pos c
        have hr := h.swap hc hcp hlt hy (fun d z hd hdp hz => by
          rcases hkids d z hd hdp hz with rfl | rfl
          · exact h1
          · exact h2)
        have := siftDownToBottom_upReady fuel _ c (by rw [hperm.length_eq]; omega)
          (by rw [hperm.length_eq]; omega) (ha.perm hperm) hr
        rwa [hperm.length_eq] at this
      split
      · rename_i hle
        exact step _ b (by omega) (by omega) hlb (hcmp.1 hle) le_rfl
      · rename_i hle
        exact step _ a (by omega) (by omega) hla le_rfl (le_of_not_ge fun hab => hle (hcmp.2 hab))
    · rename_i a hla hlb
      have hlc : 2 * pos + 1 < l.length := (List.getElem?_eq_some_iff.1 hla).1
      have hlen : l.length ≤ 2 * pos + 2 := List.getElem?_eq_none_iff.1 hlb
      refine ⟨DownReady.bottom ?_ (by rw [(swap_perm l _ _).length_eq]; omega), hlc⟩
      refine h.swap (by omega) (by omega) hlt hla fun d z hd hdp hz => ?_
      have hdl : d < l.length := (List.getElem?_eq_some_iff.1 hz).1
      have hd1 : d = 2 * pos + 1 := by omega
      rw [hd1, hla] at hz; cases hz; exact le_rfl
    · rename_i hno1 hno2
      refine ⟨h.bottom ?_, hlt⟩
      by_contra hb
      have h1 : l[2 * pos + 1]? = some l[2 * pos + 1] := List.getElem?_eq_getElem (by omega)
      cases h2 : l[2 * pos + 2]? with
      | none => exact hno2 _ h1 h2
      | some b => exact hno1 _ _ h1 h2

theorem push_isHeap {le : α → α → Bool} {h : BinaryHeap α} {x : α} (ha : Agrees key le (x :: h.data))
    (hh : IsHeap key h.data) : IsHeap key (h.push le x).data := by
  unfold push
  have hperm : (h.data ++ [x]).Perm (x :: h.data) := List.perm_append_comm
  refine siftUp_isHeap _ _ _ le_rfl (by simp) (ha.perm hperm) ⟨?_, ?_⟩
  · intro i y p hi hip hy hp
    have hil : i < h.data.length := by
      have := (List.getElem?_eq_some_iff.1 hy).1
      simp only [List.length_append, List.length_singleton] at this
      omega
    rw [List.getElem?_append_left hil] at hy
    rw [List.getElem?_append_left (by omega)] at hp
    exact hh i y p hi hy hp
  · intro c y g hc hcp _ hy _
    have := (List.getElem?_eq_some_iff.1 hy).1
    simp only [List.length_append, List.length_singleton] at this
    omega

theorem pop_isHeap {le : α → α → Bool} {h h' : BinaryHeap α} {x : α} (ha : Agrees key le h.data)
    (hh : IsHeap key h.data) (hp : h.pop le = some (x, h')) : IsHeap key h'.data := by
  obtain ⟨l⟩ := h
  rcases List.eq_nil_or_concat l with rfl | ⟨init, item, rfl⟩
  · simp [pop] at hp
  · simp only [List.concat_eq_append] at hp ha hh
    rw [pop_concat] at hp
    cases init with
    | nil => cases hp; exact fun i y p _ hy => by simp at hy
    | cons top rest =>
      cases hp
      have hmem : ∀ y ∈ item :: rest, y ∈ x :: rest ++ [item] := by
        intro y hy
        rcases List.mem_cons.1 hy with rfl | hy
        · simp
        · simp [hy]
      have hsub : Agrees key le (item :: rest) := fun y hy z hz => ha y (hmem y hy) z (hmem z hz)
      -- off the root the two lists agree, so only edges at the root are suspect
      have hget : ∀ (i : Nat) y, 0 < i → (item :: rest)[i]? = some y → (x :: rest ++ [item])[i]? = some y := by
        intro i y hi hy
        have hil := (List.getElem?_eq_some_iff.1 hy).1
        obtain ⟨j, rfl⟩ : ∃ j, i = j + 1 := ⟨i - 1, by omega⟩
        simp only [List.length_cons] at hil
        simp only [List.getElem?_cons_succ] at hy
        rw [List.getElem?_append_left (by simp; omega), List.getElem?_cons_succ]; exact hy
      have hready : DownReady key (item :: rest) 0 := by
        constructor
        · intro i y p hi _ hpar hy hp
          exact hh i y p hi (hget i y hi hy) (hget _ p (by omega) hp)
        · intro c y g _ _ h0; omega
      obtain ⟨hup, hlt⟩ := siftDownToBottom_upReady (rest.length + 1) (item :: rest) 0 (by simp) (by simp) hsub hready
      have hperm := siftDownToBottom_perm le (rest.length + 1) (item :: rest) 0
      exact siftUp_isHeap _ _ _ le_rfl (by rw [hperm.length_eq]; exact hlt) (hsub.perm hperm) hup

/-- The root of a heap has a greatest key. -/
theorem peek_greatest {h : BinaryHeap α} {x : α} (hh : IsHeap key h.data) (hp : h.peek = some x) :
    ∀ y ∈ h.data, key y ≤ key x := by
  have root : h.data[0]? = some x := by rw [← hp, peek, List.head?_eq_getElem?]
  have all : ∀ (i : Nat) y, h.data[i]? = some y → key y ≤ key x := by
    intro i
    induction i using Nat.strong_induction_on with
    | _ i ih =>
      intro y hy
      by_cases h0 : i = 0
      · subst h0; rw [root] at hy; cases hy; exact le_rfl
      · have hil := (List.getElem?_eq_some_iff.1 hy).1
        have hpar : h.data[(i - 1) / 2]? = some (h.data.get ⟨(i - 1) / 2, by omega⟩) :=
          List.getElem?_eq_getElem (by omega)
        exact le_trans (hh i y _ (by omega) hy hpar) (ih _ (by omega) _ hpar)
  intro y hy
  obtain ⟨i, hi⟩ := List.mem_iff_getElem?.1 hy
  exact all i y hi

theorem empty_isHeap : IsHeap key (empty : BinaryHeap α).data := by
  intro i x p _ hx; simp [empty] at hx

end Order

end BinaryHeap

end BedrockRs.Lib

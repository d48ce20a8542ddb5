/-
Runs of `handle_ordered` on one channel. A run always returns the packets `0, 1, …` in order up to
its read index (`handleAll_returned`). The release loop leaves only later packets in the heap, or a
second copy of the last one it took (`drain_clear_or_stale`); behind such a stale top only packets
that arrive exactly when they are expected get through (`handleAll_stuck`).
-/
import BedrockRs.Raknet.Session.OrderingSpec
import Mathlib.Order.OrderDual

namespace BedrockRs.Raknet

open Lib
open scoped List

namespace OrderingChannel

/-- The sort key of the heap: the smallest index is the greatest. -/
def key (e : OrderedEncap) : ℕᵒᵈ := OrderDual.toDual e.index.val

/-- Below half a turn the heap's comparison is the one of the keys. -/
theorem agrees_key {l : List OrderedEncap} (h : ∀ e ∈ l, e.index.val < 2 ^ 23) :
    BinaryHeap.Agrees key OrderedEncap.reverseLe l := by
  intro x hx y hy
  unfold OrderedEncap.reverseLe key
  rw [Sequence24.le_iff, Sequence24.gt_iff_of_small (h y hy) (h x hx), OrderDual.toDual_le_toDual]
  omega

/-- A channel whose indexes are at most `n`, with the heap in order. -/
structure Bounded (n : Nat) (c : OrderingChannel) : Prop where
  read : c.orderRead.val ≤ n + 1
  entries : ∀ e ∈ c.heap.data, e.index.val ≤ n ∧ e.pkt.orderingIndex = some e.index
  order : BinaryHeap.IsHeap key c.heap.data

theorem Bounded.agrees {n : Nat} {c : OrderingChannel} (hn : n < 2 ^ 23) (h : Bounded n c) :
    BinaryHeap.Agrees key OrderedEncap.reverseLe c.heap.data :=
  agrees_key fun e he => by have := (h.entries e he).1; omega

/-- The top of the heap has the smallest index. -/
theorem Bounded.peek_le {n : Nat} {c : OrderingChannel} (h : Bounded n c) {top : OrderedEncap}
    (hpeek : c.heap.peek = some top) : ∀ e ∈ c.heap.data, top.index.val ≤ e.index.val :=
  fun e he => OrderDual.toDual_le_toDual.1 (BinaryHeap.peek_greatest h.order hpeek e he)

theorem Bounded.pop {n : Nat} {c : OrderingChannel} (hn : n < 2 ^ 23) (h : Bounded n c) {top entry : OrderedEncap}
    {heap : BinaryHeap OrderedEncap} (hpeek : c.heap.peek = some top) (hidx : top.index = c.orderRead)
    (hpop : c.heap.pop OrderedEncap.reverseLe = some (entry, heap)) :
    entry = top ∧ c.heap.data.Perm (top :: heap.data) ∧ c.orderRead.next.val = c.orderRead.val + 1 ∧
      Bounded n { c with heap, orderRead := c.orderRead.next } := by
  obtain ⟨hpeek', hperm⟩ := BinaryHeap.pop_some hpop
  rw [hpeek] at hpeek'
  cases hpeek'
  have hle := (h.entries top (hperm.mem_iff.2 (List.mem_cons_self ..))).1
  rw [hidx] at hle
  have hnext := Sequence24.val_next_of_lt (a := c.orderRead) (by omega)
  refine ⟨rfl, hperm, hnext, ⟨?_, fun e he => ?_, ?_⟩⟩
  · show c.orderRead.next.val ≤ n + 1
    omega
  · exact h.entries e (hperm.mem_iff.2 (List.mem_cons_of_mem _ he))
  · exact BinaryHeap.pop_isHeap (h.agrees hn) h.order hpop

/-! ## What is returned -/

/-- The ordering indexes `a, …, b - 1`. -/
def indexes (a b : Nat) : List (Option Sequence24) := (List.range' a (b - a)).map fun i => some (Sequence24.new i)

theorem indexes_self (a : Nat) : indexes a a = [] := by simp [indexes]

theorem indexes_append {a b c : Nat} (hab : a ≤ b) (hbc : b ≤ c) : indexes a b ++ indexes b c = indexes a c := by
  unfold indexes
  rw [← List.map_append]
  congr 1
  have h := List.range'_append_1 (s := a) (m := b - a) (n := c - b)
  rw [show a + (b - a) = b by omega, show b - a + (c - b) = c - a by omega] at h
  exact h

theorem indexes_cons {a b : Nat} (hab : a < b) : indexes a b = some (Sequence24.new a) :: indexes (a + 1) b := by
  rw [← indexes_append (Nat.le_succ a) hab]
  simp [indexes]

/-- What a call returned: the packets from the old read index to the new one. -/
structure Returned (n : Nat) (c c' : OrderingChannel) (out : List EncapsulatedPacket) : Prop where
  bounded : Bounded n c'
  mono : c.orderRead.val ≤ c'.orderRead.val
  out : out.map EncapsulatedPacket.orderingIndex = indexes c.orderRead.val c'.orderRead.val

theorem Returned.nil {n : Nat} {c c' : OrderingChannel} (h : Bounded n c') (hread : c'.orderRead = c.orderRead) :
    Returned n c c' [] :=
  ⟨h, by rw [hread], by rw [hread, indexes_self]; rfl⟩

theorem Returned.cons {n : Nat} {c c' : OrderingChannel} {heap : BinaryHeap OrderedEncap} {enc : EncapsulatedPacket}
    {out : List EncapsulatedPacket} (hnext : c.orderRead.next.val = c.orderRead.val + 1)
    (htag : enc.orderingIndex = some c.orderRead)
    (h : Returned n { c with heap, orderRead := c.orderRead.next } c' out) : Returned n c c' (enc :: out) := by
  have hmono := h.mono
  have hout := h.out
  simp only [hnext] at hmono hout
  refine ⟨h.bounded, by omega, ?_⟩
  rw [List.map_cons, hout, htag, indexes_cons (a := c.orderRead.val) (by omega), Sequence24.new_val]

theorem drain_returned {n : Nat} (hn : n < 2 ^ 23) : ∀ (fuel : Nat) (c : OrderingChannel), Bounded n c →
    Returned n c (drain fuel c).2 (drain fuel c).1
  | 0, c, h => .nil h rfl
  | fuel + 1, c, h => by
    unfold drain
    split
    · exact .nil h rfl
    · rename_i top hpeek
      split
      · rename_i hidx
        split
        · exact .nil h rfl
        · rename_i entry heap hpop
          obtain ⟨rfl, hperm, hnext, hb⟩ := h.pop hn hpeek hidx hpop
          refine .cons hnext ?_ (drain_returned hn fuel _ hb)
          rw [← hidx]
          exact (h.entries entry (hperm.mem_iff.2 (List.mem_cons_self ..))).2
      · exact .nil h rfl

theorem handleOrdered_returned {n : Nat} (hn : n < 2 ^ 23) {c : OrderingChannel} (h : Bounded n c) {idx : Sequence24}
    {enc : EncapsulatedPacket} (hidx : idx.val ≤ n) (htag : enc.orderingIndex = some idx) :
    Returned n c (c.handleOrdered idx enc).2 (c.handleOrdered idx enc).1 := by
  rcases c.handleOrdered_cases idx enc with ⟨-, -, e⟩ | ⟨-, -, e⟩ | ⟨-, -, e⟩ | ⟨hread, e⟩
  · rw [e]
    refine .nil ⟨h.read, fun x hx => ?_, ?_⟩ rfl
    · rcases BinaryHeap.mem_push.1 hx with rfl | hx
      · exact ⟨hidx, htag⟩
      · exact h.entries x hx
    · refine BinaryHeap.push_isHeap (agrees_key fun x hx => ?_) h.order
      rcases List.mem_cons.1 hx with rfl | hx
      · show idx.val < 2 ^ 23
        omega
      · have := (h.entries x hx).1; omega
  · rw [e]; exact .nil h rfl
  · rw [e]; exact .nil h rfl
  · rw [e]
    subst hread
    have hnext := Sequence24.val_next_of_lt (a := c.orderRead) (by omega)
    have hb : Bounded n { c with orderRead := c.orderRead.next } :=
      ⟨by show c.orderRead.next.val ≤ n + 1; omega, h.entries, h.order⟩
    exact .cons hnext htag (drain_returned hn c.heap.len _ hb)

/-! ## What is left in the heap -/

/-- The indexes in the heap. -/
def buffered (c : OrderingChannel) : List Nat := c.heap.data.map fun e => e.index.val

theorem mem_buffered {c : OrderingChannel} {i : Nat} : i ∈ c.buffered ↔ ∃ e ∈ c.heap.data, e.index.val = i :=
  List.mem_map

/-- A second copy of the index released last is the top of the heap, and the loop stops at it. -/
theorem Bounded.stops {n i : Nat} {c : OrderingChannel} (h : Bounded n c) (hdup : i ∈ c.buffered)
    (hlow : ∀ j ∈ c.buffered, i ≤ j) (hread : i + 1 = c.orderRead.val) (fuel : Nat) :
    drain fuel c = ([], c) ∧ ∃ top, c.heap.peek = some top ∧ top.index.val = i := by
  obtain ⟨e, he, rfl⟩ := mem_buffered.1 hdup
  obtain ⟨top, hpeek⟩ : ∃ top, c.heap.peek = some top := by
    cases hd : c.heap.data with
    | nil =>
      rw [hd] at he
      cases he
    | cons x l => exact ⟨x, by simp [BinaryHeap.peek, hd]⟩
  have htop : top.index.val = e.index.val :=
    le_antisymm (h.peek_le hpeek e he) (hlow _ (List.mem_map_of_mem (List.mem_of_head? hpeek)))
  refine ⟨drain_of_peek_ne (fun t ht heq => ?_) fuel, top, hpeek, htop⟩
  rw [hpeek] at ht
  cases ht
  have := congrArg Sequence24.val heq
  omega

/-- After the loop the heap holds only later indexes, or its top is a second copy of the last index
that was released. -/
theorem drain_clear_or_stale {n : Nat} (hn : n < 2 ^ 23) : ∀ (fuel : Nat) (c : OrderingChannel), Bounded n c →
    c.heap.len ≤ fuel → (∀ i ∈ c.buffered, c.orderRead.val ≤ i) →
    (∀ i ∈ (drain fuel c).2.buffered, (drain fuel c).2.orderRead.val < i) ∨
    ∃ top, (drain fuel c).2.heap.peek = some top ∧ top.index.val + 1 = (drain fuel c).2.orderRead.val ∧
      2 ≤ c.buffered.count top.index.val
  | 0, c, h, hlen, _ => by
    left
    have hnil : c.heap.data = [] := List.length_eq_zero_iff.1 (Nat.le_zero.1 hlen)
    intro i hi
    rw [show (drain 0 c).2 = c from rfl, buffered, hnil] at hi
    cases hi
  | fuel + 1, c, h, hlen, hlow => by
    unfold drain
    split
    · rename_i hpeek
      left
      intro i hi
      obtain ⟨e, he, -⟩ := mem_buffered.1 hi
      rw [BinaryHeap.peek, List.head?_eq_none_iff] at hpeek
      rw [hpeek] at he
      cases he
    · rename_i top hpeek
      have htop : top ∈ c.heap.data := List.mem_of_head? hpeek
      have htoplow := hlow _ (List.mem_map_of_mem htop)
      split
      · rename_i hidx
        split
        · rename_i hpop
          rw [BinaryHeap.pop_none_iff] at hpop
          rw [hpop] at htop
          cases htop
        · rename_i entry heap hpop
          -- the loop releases the top and goes on, unless the same index is buffered once more
          obtain ⟨rfl, hperm, hnext, hb⟩ := h.pop hn hpeek hidx hpop
          have hlen' := BinaryHeap.len_pop hpop
          have hcount : ∀ i, c.buffered.count i = (List.map (fun e => e.index.val) (entry :: heap.data)).count i :=
            fun i => (hperm.map _).count_eq i
          by_cases hdup : c.orderRead.val ∈ ({ c with heap, orderRead := c.orderRead.next } : OrderingChannel).buffered
          · -- the second copy is the new top, one behind the read index
            have hlow' : ∀ j ∈ ({ c with heap, orderRead := c.orderRead.next } : OrderingChannel).buffered,
                c.orderRead.val ≤ j := by
              intro j hj
              obtain ⟨e, he, rfl⟩ := mem_buffered.1 hj
              exact hlow _ (List.mem_map_of_mem (hperm.mem_iff.2 (List.mem_cons_of_mem _ he)))
            obtain ⟨hstop, top', hpeek', hval⟩ := hb.stops hdup hlow' hnext.symm fuel
            rw [hstop]
            refine .inr ⟨top', hpeek', (congrArg (· + 1) hval).trans hnext.symm, ?_⟩
            have hmem : 0 < (heap.data.map fun e => e.index.val).count c.orderRead.val := List.count_pos_iff.2 hdup
            rw [hcount, hval, List.map_cons, hidx, List.count_cons_self]
            omega
          · have hlow' : ∀ i ∈ ({ c with heap, orderRead := c.orderRead.next } : OrderingChannel).buffered,
                c.orderRead.next.val ≤ i := by
              intro i hi
              have hne : i ≠ c.orderRead.val := fun e => hdup (e ▸ hi)
              -- the top is not the index that is due, so it is a later one, and all others with it
              obtain ⟨e, he, rfl⟩ := mem_buffered.1 hi
              have := hlow _ (List.mem_map_of_mem (hperm.mem_iff.2 (List.mem_cons_of_mem _ he)))
              omega
            rcases drain_clear_or_stale hn fuel _ hb (by simp only; omega) hlow' with hclear | ⟨top', h1, h2, h3⟩
            · exact .inl hclear
            · refine .inr ⟨top', h1, h2, h3.trans ?_⟩
              rw [hcount, List.map_cons]
              exact List.count_le_count_cons
      · rename_i hidx
        left
        intro i hi
        obtain ⟨e, he, rfl⟩ := mem_buffered.1 hi
        have hle := h.peek_le hpeek e he
        have hne := (Sequence24.ext_iff' (a := top.index) (b := c.orderRead)).not.1 hidx
        show c.orderRead.val < e.index.val
        omega

/-- The loop takes the indexes from the old read index up to the new one, each once. -/
theorem drain_buffered {n : Nat} (hn : n < 2 ^ 23) (fuel : Nat) {c : OrderingChannel} (h : Bounded n c) :
    c.buffered.Perm (List.range' c.orderRead.val ((drain fuel c).2.orderRead.val - c.orderRead.val) ++
      (drain fuel c).2.buffered) := by
  obtain ⟨popped, hout, hrel⟩ := drain_released fuel c
  have hret := drain_returned hn fuel c h
  have htags : popped.map (fun e => some e.index) = indexes c.orderRead.val (drain fuel c).2.orderRead.val := by
    rw [← hret.out, hout, List.map_map]
    refine List.map_congr_left fun e he => ?_
    exact (h.entries e (hrel.heap.mem_iff.2 (List.mem_append_left _ he))).2.symm
  have hvals : popped.map (fun e => e.index.val) =
      List.range' c.orderRead.val ((drain fuel c).2.orderRead.val - c.orderRead.val) := by
    have := congrArg (List.map fun o : Option Sequence24 => (o.map Sequence24.val).getD 0) htags
    simp only [indexes, List.map_map] at this
    refine this.trans ((List.map_congr_left fun i hi => ?_).trans (List.map_id _))
    have hlt := (List.mem_range'_1.1 hi).2
    have hread := hret.bounded.read
    have hmono := hret.mono
    exact Nat.mod_eq_of_lt (by omega)
  rw [← hvals, buffered, buffered, ← List.map_append]
  exact hrel.heap.map _

/-! ## Runs -/

/-- The ordering index of a packet. -/
def indexOf (enc : EncapsulatedPacket) : Sequence24 := enc.orderingIndex.getD (Sequence24.new 0)

/-- One call of `handle_ordered`, by the channel it leaves behind. -/
def arrive (c : OrderingChannel) (enc : EncapsulatedPacket) : OrderingChannel := (c.handleOrdered (indexOf enc) enc).2

/-- A run of calls: what they return, concatenated, and the channel at the end. -/
def handleAll (c : OrderingChannel) : List EncapsulatedPacket → List EncapsulatedPacket × OrderingChannel
  | [] => ([], c)
  | enc :: rest =>
    let (out, c) := c.handleOrdered (indexOf enc) enc
    let (more, c) := handleAll c rest
    (out ++ more, c)

theorem handleAll_cons (c : OrderingChannel) (x : EncapsulatedPacket) (rest : List EncapsulatedPacket) :
    c.handleAll (x :: rest) = ((c.handleOrdered (indexOf x) x).1 ++ ((c.arrive x).handleAll rest).1,
      ((c.arrive x).handleAll rest).2) := rfl

/-- A packet with an ordering index of at most `n`. -/
def Indexed (n : Nat) (enc : EncapsulatedPacket) : Prop := enc.orderingIndex.isSome = true ∧ (indexOf enc).val ≤ n

theorem Indexed.tag {n : Nat} {enc : EncapsulatedPacket} (h : Indexed n enc) :
    enc.orderingIndex = some (indexOf enc) := by
  obtain ⟨idx, hidx⟩ := Option.isSome_iff_exists.1 h.1
  rw [indexOf, hidx]; rfl

theorem handleAll_returned {n : Nat} (hn : n < 2 ^ 23) : ∀ (xs : List EncapsulatedPacket) (c : OrderingChannel),
    Bounded n c → (∀ x ∈ xs, Indexed n x) → Returned n c (c.handleAll xs).2 (c.handleAll xs).1
  | [], c, h, _ => .nil h rfl
  | x :: rest, c, h, hx => by
    have hstep := handleOrdered_returned hn h (hx x (List.mem_cons_self ..)).2 (hx x (List.mem_cons_self ..)).tag
    have ih := handleAll_returned hn rest _ hstep.bounded fun y hy => hx y (List.mem_cons_of_mem _ hy)
    refine ⟨ih.bounded, hstep.mono.trans ih.mono, ?_⟩
    rw [handleAll_cons, List.map_append, hstep.out, arrive, ih.out]
    exact indexes_append hstep.mono ih.mono

/-- Once the read index has passed `n`, no packet up to `n` moves it. -/
theorem handleAll_done {n : Nat} (hn : n < 2 ^ 23) : ∀ (xs : List EncapsulatedPacket) (c : OrderingChannel),
    c.orderRead.val = n + 1 → (∀ x ∈ xs, Indexed n x) → (c.handleAll xs).2.orderRead.val = n + 1
  | [], c, h, _ => h
  | x :: rest, c, h, hx => by
    rw [handleAll_cons]
    refine handleAll_done hn rest _ ?_ fun y hy => hx y (List.mem_cons_of_mem _ hy)
    unfold arrive
    have hle := (hx x (List.mem_cons_self ..)).2
    rcases c.handleOrdered_cases (indexOf x) x with ⟨-, -, e⟩ | ⟨-, -, e⟩ | ⟨-, -, e⟩ | ⟨hread, -⟩
    · rw [e]; exact h
    · rw [e]; exact h
    · rw [e]; exact h
    · rw [hread] at h; omega

/-- Behind a stale entry only packets that arrive when they are expected get through. -/
theorem handleAll_stuck {n : Nat} (hn : n < 2 ^ 23) : ∀ (xs : List EncapsulatedPacket) (c : OrderingChannel),
    Bounded n c → (∃ i ∈ c.buffered, i < c.orderRead.val) → (∀ x ∈ xs, Indexed n x) →
    ((c.handleAll xs).2.orderRead.val = n + 1 ↔
      List.range' c.orderRead.val (n + 1 - c.orderRead.val) <+ xs.map fun x => (indexOf x).val)
  | [], c, h, _, _ => by
    have := h.read
    rw [List.map_nil, List.sublist_nil, List.range'_eq_nil_iff]
    show c.orderRead.val = n + 1 ↔ _
    omega
  | x :: rest, c, h, hstale, hx => by
    have hrest : ∀ y ∈ rest, Indexed n y := fun y hy => hx y (List.mem_cons_of_mem _ hy)
    have hidx := (hx x (List.mem_cons_self ..)).2
    have hbounded := (handleOrdered_returned hn h hidx (hx x (List.mem_cons_self ..)).tag).bounded
    rcases Nat.lt_or_ge n c.orderRead.val with hdone | hopen
    · have hread : c.orderRead.val = n + 1 := by have := h.read; omega
      rw [hread, Nat.sub_self]
      exact iff_of_true (handleAll_done hn (x :: rest) c hread hx) (List.nil_sublist _)
    have hrange : List.range' c.orderRead.val (n + 1 - c.orderRead.val) =
        c.orderRead.val :: List.range' (c.orderRead.val + 1) (n + 1 - (c.orderRead.val + 1)) := by
      rw [show n + 1 - c.orderRead.val = (n + 1 - (c.orderRead.val + 1)) + 1 by omega, List.range'_succ]
    -- a packet that is not expected changes neither the read index nor what is stale
    have hskip : (indexOf x).val ≠ c.orderRead.val →
        (List.range' c.orderRead.val (n + 1 - c.orderRead.val) <+ (x :: rest).map (fun x => (indexOf x).val) ↔
          List.range' c.orderRead.val (n + 1 - c.orderRead.val) <+ rest.map fun x => (indexOf x).val) := by
      intro hne
      rw [hrange, List.map_cons]
      constructor
      · intro hsub
        rcases List.sublist_cons_iff.1 hsub with hsub | ⟨r, hr, -⟩
        · exact hsub
        · exact absurd (List.cons.inj hr).1.symm hne
      · exact fun hsub => hsub.cons _
    rw [handleAll_cons]
    unfold arrive
    rcases c.handleOrdered_cases (indexOf x) x with ⟨hlt, -, e⟩ | ⟨hlt, -, e⟩ | ⟨-, hgt, e⟩ | ⟨hread, e⟩
    · rw [Sequence24.lt_iff_of_small (by omega) (by omega)] at hlt
      rw [hskip (by omega), e]
      rw [e] at hbounded
      refine handleAll_stuck hn rest _ hbounded ?_ hrest
      obtain ⟨i, hi, hlt'⟩ := hstale
      obtain ⟨entry, hentry, rfl⟩ := mem_buffered.1 hi
      exact ⟨_, List.mem_map_of_mem (BinaryHeap.mem_push.2 (.inr hentry)), hlt'⟩
    · rw [Sequence24.lt_iff_of_small (by omega) (by omega)] at hlt
      rw [hskip (by omega), e]
      exact handleAll_stuck hn rest c h hstale hrest
    · rw [Sequence24.gt_iff_of_small (by omega) (by omega)] at hgt
      rw [hskip (by omega), e]
      exact handleAll_stuck hn rest c h hstale hrest
    · have hnext := Sequence24.val_next_of_lt (a := c.orderRead) (by omega)
      obtain ⟨i, hi, hlt⟩ := hstale
      obtain ⟨entry, hentry, rfl⟩ := mem_buffered.1 hi
      have hstop : ∀ top, c.heap.peek = some top → top.index ≠ c.orderRead.next := by
        intro top hpeek heq
        have hle := h.peek_le hpeek entry hentry
        have := congrArg Sequence24.val heq
        omega
      rw [e] at hbounded ⊢
      rw [release_of_peek_ne (c := { c with orderRead := c.orderRead.next }) hstop] at hbounded ⊢
      have ih := handleAll_stuck hn rest _ hbounded ⟨_, hi, by simp only; omega⟩ hrest
      simp only [hnext] at ih
      rw [ih, hrange, List.map_cons, ← hread, List.cons_sublist_cons]

end OrderingChannel

end BedrockRs.Raknet

/-
Ordering completeness. The read index of a channel keeps up with the arrivals as long as no index is
buffered twice. When one is, its second copy stays in the heap as a stale top once the first is
released, and the packets buffered behind it are stranded: the run is complete exactly when
everything after that index arrives in order once more.
-/
import BedrockRs.Lib.Machine
import BedrockRs.Raknet.Session.OrderingRuns

namespace BedrockRs.Raknet

open Lib
open scoped List

namespace OrderingChannel

/-! ## Indexes that arrive twice too early -/

/-- At some point index `k` has arrived twice while a smaller index is still missing. -/
def BufferedTwice (is : List Nat) (k : Nat) : Prop := ∃ arr, arr <+: is ∧ 2 ≤ arr.count k ∧ ∃ j < k, j ∉ arr

/-- Either no index is buffered twice, or, for the smallest one, all later indexes arrive in order
after the arrival that completes the indexes up to it. -/
def Recovers (n : Nat) (is : List Nat) : Prop :=
  ∀ k, BufferedTwice is k → (∀ k' < k, ¬ BufferedTwice is k') → ∀ pre x post, is = pre ++ x :: post →
    (∃ j ≤ k, j ∉ pre) → (∀ j ≤ k, j ∈ pre ++ [x]) → List.range' (k + 1) (n - k) <+ post

theorem BufferedTwice.mono {is is' : List Nat} {k : Nat} (h : BufferedTwice is k) (hp : is <+: is') :
    BufferedTwice is' k := by
  obtain ⟨arr, ha, hc, hj⟩ := h
  exact ⟨arr, ha.trans hp, hc, hj⟩

/-- What arrives after the indexes below `k` are complete is not buffered. -/
theorem BufferedTwice.of_complete {arr rest : List Nat} {k : Nat} (hall : ∀ j < k, j ∈ arr)
    (h : BufferedTwice (arr ++ rest) k) : BufferedTwice arr k := by
  obtain ⟨arr', ha, hc, j, hj, hmiss⟩ := h
  rcases List.prefix_or_prefix_of_prefix ha (List.prefix_append arr rest) with hp | hp
  · exact ⟨arr', hp, hc, j, hj, hmiss⟩
  · exact absurd (hp.subset (hall j hj)) hmiss

/-- The channel after the arrivals `arr`, none of which was released too early: the read index is the
least index missing, and the heap holds the later ones. -/
structure Waiting (n : Nat) (arr : List Nat) (c : OrderingChannel) : Prop extends Bounded n c where
  opened : c.orderRead.val ≤ n
  below : ∀ j < c.orderRead.val, j ∈ arr
  missing : c.orderRead.val ∉ arr
  heap : c.buffered.Perm (arr.filter fun i => decide (c.orderRead.val < i))
  clean : ∀ k < c.orderRead.val, ¬ BufferedTwice arr k

theorem Waiting.count {n : Nat} {arr : List Nat} {c : OrderingChannel} (h : Waiting n arr c) {k : Nat}
    (hk : c.orderRead.val < k) : arr.count k = c.buffered.count k := by
  rw [h.heap.count_eq, List.count_filter]
  simpa using hk

theorem Waiting.clean_append {n : Nat} {arr : List Nat} {c : OrderingChannel} (h : Waiting n arr c) (i : Nat) :
    ∀ k < c.orderRead.val, ¬ BufferedTwice (arr ++ [i]) k :=
  fun k hk hb => h.clean k hk (hb.of_complete fun j hj => h.below j (by omega))

/-- An arrival that is not expected is buffered or dropped. -/
theorem Waiting.later {n : Nat} (hn : n < 2 ^ 23) {arr : List Nat} {c : OrderingChannel} (h : Waiting n arr c)
    {x : EncapsulatedPacket} (hx : Indexed n x) (hroom : c.heap.len < 2048)
    (hne : (indexOf x).val ≠ c.orderRead.val) : Waiting n (arr ++ [(indexOf x).val]) (c.arrive x) := by
  have hopened := h.opened
  have hbounded := (handleOrdered_returned hn h.toBounded hx.2 hx.tag).bounded
  have hidx := hx.2
  unfold arrive
  -- buffered, refused by a full heap, too old, or expected: the second and the last do not occur
  rcases c.handleOrdered_cases (indexOf x) x with ⟨hlt, -, e⟩ | ⟨-, hfull, -⟩ | ⟨-, hgt, e⟩ | ⟨hread, -⟩
  · rw [Sequence24.lt_iff_of_small (by omega) (by omega)] at hlt
    rw [e] at hbounded ⊢
    refine ⟨hbounded, h.opened, fun j hj => List.mem_append_left _ (h.below j hj), ?_, ?_, h.clean_append _⟩
    · rw [List.mem_append, List.mem_singleton]
      rintro (hm | hm)
      · exact h.missing hm
      · exact hne hm.symm
    · have hsingle : [(indexOf x).val].filter (fun i => decide (c.orderRead.val < i)) = [(indexOf x).val] := by
        simp [hlt]
      rw [List.filter_append, hsingle]
      refine (((BinaryHeap.push_perm _ c.heap ⟨indexOf x, x⟩).map _).trans ?_)
      rw [List.map_cons]
      exact (List.perm_append_singleton ..).symm.trans (h.heap.append_right _)
  · omega
  · rw [Sequence24.gt_iff_of_small (by omega) (by omega)] at hgt
    rw [e] at hbounded ⊢
    refine ⟨hbounded, h.opened, fun j hj => List.mem_append_left _ (h.below j hj), ?_, ?_, h.clean_append _⟩
    · rw [List.mem_append, List.mem_singleton]
      rintro (hm | hm)
      · exact h.missing hm
      · exact hne hm.symm
    · rw [List.filter_append, List.filter_cons_of_neg (by simp; omega), List.filter_nil, List.append_nil]
      exact h.heap
  · exact absurd (congrArg Sequence24.val hread).symm hne

/-- What the expected arrival releases: the buffered indexes up to the new read index, each once. -/
structure Advanced (n : Nat) (arr : List Nat) (c c' : OrderingChannel) : Prop where
  bounded : Bounded n c'
  mono : c.orderRead.val < c'.orderRead.val
  perm : c.buffered.Perm
    (List.range' (c.orderRead.val + 1) (c'.orderRead.val - (c.orderRead.val + 1)) ++ c'.buffered)
  left : (∀ i ∈ c'.buffered, c'.orderRead.val < i) ∨
    ∃ top, c'.heap.peek = some top ∧ top.index.val + 1 = c'.orderRead.val ∧ 2 ≤ c.buffered.count top.index.val

theorem Waiting.advanced {n : Nat} (hn : n < 2 ^ 23) {arr : List Nat} {c : OrderingChannel} (h : Waiting n arr c)
    {x : EncapsulatedPacket} (hread : (indexOf x).val = c.orderRead.val) : Advanced n arr c (c.arrive x) := by
  have hopened := h.opened
  have hnext := Sequence24.val_next_of_lt (a := c.orderRead) (by omega)
  have hb : Bounded n { c with orderRead := c.orderRead.next } :=
    ⟨by show c.orderRead.next.val ≤ n + 1; omega, h.entries, h.order⟩
  have harrive : c.arrive x = (drain c.heap.len { c with orderRead := c.orderRead.next }).2 := by
    unfold arrive
    rcases c.handleOrdered_cases (indexOf x) x with ⟨hlt, -, -⟩ | ⟨hlt, -, -⟩ | ⟨-, hgt, -⟩ | ⟨-, e⟩
    · rw [Sequence24.lt_iff_of_small (by omega) (by omega)] at hlt; omega
    · rw [Sequence24.lt_iff_of_small (by omega) (by omega)] at hlt; omega
    · rw [Sequence24.gt_iff_of_small (by omega) (by omega)] at hgt; omega
    · rw [e]; rfl
  have hlow : ∀ i ∈ c.buffered, c.orderRead.next.val ≤ i := by
    intro i hi
    have hlt : c.orderRead.val < i := by simpa using (List.mem_filter.1 (h.heap.mem_iff.1 hi)).2
    omega
  have hperm := drain_buffered hn c.heap.len hb
  have hret := drain_returned hn c.heap.len _ hb
  have hleft := drain_clear_or_stale hn c.heap.len _ hb (Nat.le_refl _) hlow
  rw [← harrive] at hperm hret hleft
  have hmono := hret.mono
  simp only [hnext] at hmono hperm
  exact ⟨hret.bounded, hmono, hperm, hleft⟩

theorem Waiting.mem_iff {n : Nat} {arr : List Nat} {c : OrderingChannel} (h : Waiting n arr c) {j : Nat}
    (hj : c.orderRead.val < j) : j ∈ arr ↔ j ∈ c.buffered := by
  rw [h.heap.mem_iff, List.mem_filter]
  simp [hj]

/-- All indexes below the new read index have arrived. -/
theorem Waiting.below_of_advanced {n : Nat} {arr : List Nat} {c c' : OrderingChannel} (h : Waiting n arr c)
    (ha : Advanced n arr c c') : ∀ j < c'.orderRead.val, j ∈ arr ++ [c.orderRead.val] := by
  intro j hj
  rcases Nat.lt_trichotomy j c.orderRead.val with hlt | rfl | hgt
  · exact List.mem_append_left _ (h.below j hlt)
  · exact List.mem_append_right _ (List.mem_singleton_self _)
  · refine List.mem_append_left _ ((h.mem_iff hgt).2 (ha.perm.mem_iff.2 (List.mem_append_left _ ?_)))
    exact List.mem_range'_1.2 ⟨by omega, by omega⟩

/-- Below what is left in the heap, no index was buffered twice. -/
theorem Waiting.clean_of_advanced {n m : Nat} {arr : List Nat} {c c' : OrderingChannel} (h : Waiting n arr c)
    (ha : Advanced n arr c c') (hm : m ≤ c'.orderRead.val) (hleft : ∀ i ∈ c'.buffered, m ≤ i) :
    ∀ k < m, ¬ BufferedTwice (arr ++ [c.orderRead.val]) k := by
  rintro k hk hbt
  rcases Nat.lt_or_ge k c.orderRead.val with hlt | hge
  · exact h.clean_append _ k hlt hbt
  obtain ⟨arr', hpre, hcount, j, hj, hmiss⟩ := hbt
  have hpre' : arr' <+: arr := by
    rcases List.prefix_concat_iff.1 hpre with rfl | hp
    · exact absurd (h.below_of_advanced ha j (by omega)) hmiss
    · exact hp
  have htwo := hcount.trans (hpre'.sublist.count_le k)
  rcases Nat.eq_or_lt_of_le hge with rfl | hgt
  · rw [List.count_eq_zero_of_not_mem h.missing] at htwo; omega
  · have hleft0 : c'.buffered.count k = 0 :=
      List.count_eq_zero_of_not_mem fun hk' => by have := hleft k hk'; omega
    have hone : List.count k (List.range' (c.orderRead.val + 1) (c'.orderRead.val - (c.orderRead.val + 1))) ≤ 1 :=
      List.nodup_iff_count_le_one.1 (List.nodup_range' ..) k
    rw [h.count hgt, ha.perm.count_eq, List.count_append, hleft0] at htwo
    omega

/-- When only later indexes are left in the heap, the channel waits for the new read index. -/
theorem Waiting.clear {n : Nat} {arr : List Nat} {c c' : OrderingChannel} (h : Waiting n arr c)
    (ha : Advanced n arr c c') (hclear : ∀ i ∈ c'.buffered, c'.orderRead.val < i) (hle : c'.orderRead.val ≤ n) :
    Waiting n (arr ++ [c.orderRead.val]) c' := by
  have hmono := ha.mono
  refine ⟨ha.bounded, hle, h.below_of_advanced ha, ?_, ?_, h.clean_of_advanced ha le_rfl fun i hi => (hclear i hi).le⟩
  · rw [List.mem_append, List.mem_singleton]
    rintro (hm | hm)
    · rcases List.mem_append.1 (ha.perm.mem_iff.1 ((h.mem_iff hmono).1 hm)) with hr | hr
      · have := (List.mem_range'_1.1 hr).2; omega
      · exact absurd (hclear _ hr) (lt_irrefl _)
    · omega
  · have hrange : (List.range' (c.orderRead.val + 1) (c'.orderRead.val - (c.orderRead.val + 1))).filter
        (fun i => decide (c'.orderRead.val < i)) = [] :=
      List.filter_eq_nil_iff.2 fun i hi => by
        have := (List.mem_range'_1.1 hi).2
        simp only [decide_eq_true_eq]; omega
    have hkeep : c'.buffered.filter (fun i => decide (c'.orderRead.val < i)) = c'.buffered :=
      List.filter_eq_self.2 fun i hi => by simpa using hclear i hi
    have hfil := ha.perm.filter fun i => decide (c'.orderRead.val < i)
    rw [List.filter_append, hrange, List.nil_append, hkeep] at hfil
    have harr := h.heap.filter fun i => decide (c'.orderRead.val < i)
    rw [List.filter_filter] at harr
    rw [List.filter_append, List.filter_cons_of_neg (by simp only [decide_eq_true_eq]; omega), List.filter_nil,
      List.append_nil]
    refine hfil.symm.trans (harr.trans (List.Perm.of_eq (List.filter_congr fun i _ => ?_)))
    rw [← Bool.decide_and]
    exact decide_eq_decide.2 (by omega)

/-- A second copy of the last index released was buffered twice, and no smaller index was. -/
theorem Waiting.stale {n : Nat} {arr : List Nat} {c c' : OrderingChannel} (h : Waiting n arr c)
    (ha : Advanced n arr c c') {top : OrderedEncap} (hpeek : c'.heap.peek = some top)
    (htop : top.index.val + 1 = c'.orderRead.val) (hcount : 2 ≤ c.buffered.count top.index.val) :
    BufferedTwice arr top.index.val ∧ ∀ k < top.index.val, ¬ BufferedTwice (arr ++ [c.orderRead.val]) k := by
  have hlt : c.orderRead.val < top.index.val := by
    have hmem : top.index.val ∈ c.buffered := List.count_pos_iff.1 (by omega)
    simpa using (List.mem_filter.1 (h.heap.mem_iff.1 hmem)).2
  refine ⟨⟨arr, List.prefix_rfl, by rw [h.count hlt]; exact hcount, _, hlt, h.missing⟩, ?_⟩
  refine h.clean_of_advanced ha (by omega) fun i hi => ?_
  obtain ⟨e, he, rfl⟩ := mem_buffered.1 hi
  exact ha.bounded.peek_le hpeek e he

/-- When the indexes up to `k` are complete with `x`, and `k` is the smallest index buffered twice, what
comes after `x` decides. -/
theorem recovers_iff_of_stale {n k x : Nat} {arr rest : List Nat} (hbt : BufferedTwice arr k) (hx : x ∉ arr)
    (hxk : x ≤ k) (hall : ∀ j ≤ k, j ∈ arr ++ [x]) (hleast : ∀ k' < k, ¬ BufferedTwice (arr ++ [x]) k') :
    Recovers n (arr ++ x :: rest) ↔ List.range' (k + 1) (n - k) <+ rest := by
  have htotal : arr ++ x :: rest = (arr ++ [x]) ++ rest := by simp
  constructor
  · intro h
    refine h k (hbt.mono (List.prefix_append _ _)) (fun k' hk' hb => ?_) arr x rest rfl ⟨x, hxk, hx⟩ hall
    rw [htotal] at hb
    exact hleast k' hk' (hb.of_complete fun j hj => hall j (by omega))
  · intro hsub k' hbt' hleast' pre y post heq ⟨j, hj, hmiss⟩ hcomplete
    -- both are the smallest index buffered twice
    have hkk : k' = k := by
      rcases Nat.lt_trichotomy k' k with hlt | rfl | hgt
      · rw [htotal] at hbt'
        exact absurd (hbt'.of_complete fun j hj => hall j (by omega)) (hleast k' hlt)
      · rfl
      · exact absurd (hbt.mono (List.prefix_append _ _)) (hleast' k hgt)
    subst hkk
    -- and both splits are at the arrival that completes the indexes up to it
    have hpre : pre ++ [y] <+: (arr ++ [x]) ++ rest := ⟨post, by rw [← htotal, heq]; simp⟩
    have harr : arr ++ [x] <+: pre ++ y :: post := ⟨rest, by rw [← heq]; simp⟩
    have hlen : pre.length = arr.length := by
      rcases Nat.lt_trichotomy pre.length arr.length with hlt | heq' | hgt
      · have hp : pre ++ [y] <+: arr := by
          refine List.prefix_of_prefix_length_le hpre ?_ (by simp; omega)
          exact ⟨[x] ++ rest, by simp⟩
        exact absurd (hp.subset (hcomplete x hxk)) hx
      · exact heq'
      · have hp : arr ++ [x] <+: pre :=
          List.prefix_of_prefix_length_le harr (List.prefix_append _ _) (by simp; omega)
        exact absurd (hp.subset (hall j hj)) hmiss
    obtain ⟨-, htail⟩ := List.append_inj heq hlen.symm
    rw [← (List.cons.inj htail).2]
    exact hsub

theorem recovers_of_clean {n : Nat} {arr rest : List Nat} (hle : ∀ j ∈ arr ++ rest, j ≤ n)
    (hall : ∀ j ≤ n, j ∈ arr) (hclean : ∀ k ≤ n, ¬ BufferedTwice arr k) : Recovers n (arr ++ rest) := by
  intro k hbt
  have hk : k ≤ n := by
    obtain ⟨arr', hpre, hcount, -⟩ := hbt
    exact hle k (hpre.subset (List.count_pos_iff.1 (by omega)))
  exact absurd (hbt.of_complete fun j hj => hall j (by omega)) (hclean k hk)

theorem handleAll_waiting {n : Nat} (hn : n < 2 ^ 23) : ∀ (xs : List EncapsulatedPacket) (arr : List Nat)
    (c : OrderingChannel), Waiting n arr c → (∀ j ∈ arr, j ≤ n) → (∀ x ∈ xs, Indexed n x) →
    (∀ j ≤ n, j ∈ arr ++ xs.map fun x => (indexOf x).val) →
    Machine.Along arrive (fun c _ => c.heap.len < 2048) c xs →
    ((c.handleAll xs).2.orderRead.val = n + 1 ↔ Recovers n (arr ++ xs.map fun x => (indexOf x).val))
  | [], arr, c, h, _, _, hall, _ => by
    rw [List.map_nil, List.append_nil] at hall
    exact absurd (hall _ h.opened) h.missing
  | x :: rest, arr, c, h, harr, hx, hall, hroom => by
    have hrest : ∀ y ∈ rest, Indexed n y := fun y hy => hx y (List.mem_cons_of_mem _ hy)
    have hxi := hx x (List.mem_cons_self ..)
    have harr' : ∀ j ∈ arr ++ [(indexOf x).val], j ≤ n := by
      intro j hj
      rcases List.mem_append.1 hj with hj | hj
      · exact harr j hj
      · rw [List.mem_singleton.1 hj]; exact hxi.2
    have htotal : arr ++ (x :: rest).map (fun x => (indexOf x).val) =
        (arr ++ [(indexOf x).val]) ++ rest.map fun x => (indexOf x).val := by simp
    rw [handleAll_cons]
    by_cases hread : (indexOf x).val = c.orderRead.val
    · have ha := h.advanced hn hread
      have hbound := ha.bounded.read
      rcases ha.left with hclear | ⟨top, hpeek, htop, hcount⟩
      · rcases Nat.lt_or_ge n (c.arrive x).orderRead.val with hdone | hopen
        · -- everything has arrived and nothing was buffered twice
          have hlast : (c.arrive x).orderRead.val = n + 1 := by omega
          refine iff_of_true (handleAll_done hn rest _ hlast hrest) ?_
          rw [htotal]
          refine recovers_of_clean (fun j hj => ?_) (fun j hj => ?_) (fun k hk => ?_)
          · rcases List.mem_append.1 hj with hj | hj
            · exact harr' j hj
            · obtain ⟨y, hy, rfl⟩ := List.mem_map.1 hj
              exact (hrest y hy).2
          · rw [hread]; exact h.below_of_advanced ha j (by omega)
          · rw [hread]
            exact h.clean_of_advanced ha le_rfl (fun i hi => (hclear i hi).le) k (by omega)
        · have hwait := h.clear ha hclear hopen
          rw [← hread] at hwait
          rw [htotal] at hall ⊢
          exact handleAll_waiting hn rest _ _ hwait harr' hrest hall hroom.2
      · -- a stale top: the channel is stuck from here on
        obtain ⟨hbt, hleast⟩ := h.stale ha hpeek htop hcount
        have hmono := ha.mono
        have hstuck := handleAll_stuck hn rest (c.arrive x) ha.bounded
          ⟨_, List.mem_map_of_mem (List.mem_of_head? hpeek), by omega⟩ hrest
        rw [hstuck, List.map_cons, recovers_iff_of_stale hbt (hread ▸ h.missing) (by omega)
          (fun j hj => hread ▸ h.below_of_advanced ha j (by omega)) (hread ▸ hleast), ← htop,
          show n + 1 - (top.index.val + 1) = n - top.index.val by omega]
    · have hwait := h.later hn hxi hroom.1 hread
      rw [htotal] at hall ⊢
      exact handleAll_waiting hn rest _ _ hwait harr' hrest hall hroom.2

theorem waiting_new (n : Nat) : Waiting n [] new where
  read := Nat.zero_le _
  entries := fun e he => by simp [new, BinaryHeap.empty] at he
  order := BinaryHeap.empty_isHeap
  opened := Nat.zero_le _
  below := fun j hj => absurd hj (Nat.not_lt_zero j)
  missing := List.not_mem_nil
  heap := List.Perm.refl _
  clean := fun k hk => absurd hk (Nat.not_lt_zero k)

theorem handleOrdered_subset (c : OrderingChannel) (idx : Sequence24) (enc : EncapsulatedPacket) :
    (∀ p ∈ (c.handleOrdered idx enc).1, p = enc ∨ p ∈ c.heap.data.map OrderedEncap.pkt) ∧
    ∀ p ∈ (c.handleOrdered idx enc).2.heap.data.map OrderedEncap.pkt, p = enc ∨
      p ∈ c.heap.data.map OrderedEncap.pkt := by
  rcases c.handleOrdered_cases idx enc with ⟨-, -, e⟩ | ⟨-, -, e⟩ | ⟨-, -, e⟩ | ⟨-, e⟩
  · rw [e]
    refine ⟨fun p hp => (List.not_mem_nil hp).elim, fun p hp => ?_⟩
    obtain ⟨entry, hentry, rfl⟩ := List.mem_map.1 hp
    rcases BinaryHeap.mem_push.1 hentry with rfl | hentry
    · exact .inl rfl
    · exact .inr (List.mem_map_of_mem hentry)
  · rw [e]; exact ⟨fun p hp => (List.not_mem_nil hp).elim, fun p hp => .inr hp⟩
  · rw [e]; exact ⟨fun p hp => (List.not_mem_nil hp).elim, fun p hp => .inr hp⟩
  · rw [e]
    obtain ⟨popped, hout, hrel⟩ := drain_released c.heap.len { c with orderRead := c.orderRead.next }
    have hperm := hrel.heap.map OrderedEncap.pkt
    rw [List.map_append] at hperm
    refine ⟨fun p hp => ?_, fun p hp => .inr (hperm.mem_iff.2 (List.mem_append_right _ hp))⟩
    rcases List.mem_cons.1 hp with rfl | hp
    · exact .inl rfl
    · unfold release at hp
      rw [hout] at hp
      exact .inr (hperm.mem_iff.2 (List.mem_append_left _ hp))

/-- Nothing is returned that did not arrive. -/
theorem handleAll_subset : ∀ (xs : List EncapsulatedPacket) (c : OrderingChannel),
    ∀ p ∈ (c.handleAll xs).1, p ∈ xs ∨ p ∈ c.heap.data.map OrderedEncap.pkt
  | [], c, p, hp => (List.not_mem_nil hp).elim
  | x :: rest, c, p, hp => by
    obtain ⟨hout, hheap⟩ := c.handleOrdered_subset (indexOf x) x
    rw [handleAll_cons] at hp
    rcases List.mem_append.1 hp with hp | hp
    · rcases hout p hp with rfl | hp
      · exact .inl (List.mem_cons_self ..)
      · exact .inr hp
    · rcases handleAll_subset rest _ p hp with hp | hp
      · exact .inl (List.mem_cons_of_mem _ hp)
      · rcases hheap p hp with rfl | hp
        · exact .inl (List.mem_cons_self ..)
        · exact .inr hp

end OrderingChannel

/-! ## All channels -/

namespace OrderingChannels

open OrderingChannel

/-- A run of calls of `handle_ordered`: what they return, concatenated, and the channels at the end. -/
def handleAll (o : OrderingChannels) : List EncapsulatedPacket → List EncapsulatedPacket × OrderingChannels
  | [] => ([], o)
  | enc :: rest =>
    let (ready, o) := o.handleOrdered enc
    let (more, o) := handleAll o rest
    (ready.getD [] ++ more, o)

/-- The number of packets buffered on a channel. -/
def heapLen (o : OrderingChannels) (ch : UInt8) : Nat := ((o.channels[ch.toNat]?).map fun c => c.heap.len).getD 0

theorem handleOrdered_channel {o : OrderingChannels} {ch : UInt8} {c : OrderingChannel} {x : EncapsulatedPacket}
    (hc : o.channels[ch.toNat]? = some c) (hch : x.orderingChannel = some ch) (hidx : x.orderingIndex.isSome = true) :
    (o.handleOrdered x).1 = some (c.handleOrdered (indexOf x) x).1 ∧
      (o.handleOrdered x).2.channels[ch.toNat]? = some (c.arrive x) := by
  obtain ⟨idx, hidx⟩ := Option.isSome_iff_exists.1 hidx
  obtain ⟨hlt, rfl⟩ := List.getElem?_eq_some_iff.1 hc
  have hget : indexOf x = idx := by rw [indexOf, hidx]; rfl
  unfold handleOrdered arrive
  simp [hch, hidx, hget, hlt]

theorem handleAll_channel : ∀ {xs : List EncapsulatedPacket} {o : OrderingChannels} {ch : UInt8} {c : OrderingChannel},
    o.channels[ch.toNat]? = some c → (∀ x ∈ xs, x.orderingChannel = some ch ∧ x.orderingIndex.isSome = true) →
    (o.handleAll xs).1 = (c.handleAll xs).1 ∧
    (Machine.Along (fun o x => (o.handleOrdered x).2) (fun o _ => o.heapLen ch < 2048) o xs →
      Machine.Along arrive (fun c _ => c.heap.len < 2048) c xs)
  | [], o, ch, c, _, _ => ⟨rfl, fun _ => trivial⟩
  | x :: rest, o, ch, c, hc, hx => by
    obtain ⟨hout, hc'⟩ := handleOrdered_channel hc (hx x (List.mem_cons_self ..)).1 (hx x (List.mem_cons_self ..)).2
    obtain ⟨ih, hroom⟩ := handleAll_channel hc' fun y hy => hx y (List.mem_cons_of_mem _ hy)
    constructor
    · show (o.handleOrdered x).1.getD [] ++ ((o.handleOrdered x).2.handleAll rest).1 = _
      rw [hout, ih, Option.getD_some, OrderingChannel.handleAll_cons]
    · rintro ⟨hlen, hrest⟩
      rw [heapLen, hc] at hlen
      exact ⟨hlen, hroom hrest⟩

/-- Ordering completeness, exactly. A run of `handle_ordered` on one channel, whose indexes are those
from `0` to `n` with repetitions and in any order and whose heap never fills up, returns exactly the
packets `0, …, n`, each once and in order, if and only if no index is buffered twice or everything
after the smallest such index arrives in order again. -/
theorem handleOrdered_complete_iff (maxChannels n : Nat) (ch : UInt8) (xs : List EncapsulatedPacket)
    (hch : ch.toNat < maxChannels) (hn : n < 2 ^ 23)
    (hxs : ∀ x ∈ xs, x.orderingChannel = some ch ∧ ∃ i ≤ n, x.orderingIndex = some (Sequence24.new i))
    (hall : ∀ i ≤ n, ∃ x ∈ xs, x.orderingIndex = some (Sequence24.new i))
    (hroom : Machine.Along (fun o x => (o.handleOrdered x).2) (fun o _ => o.heapLen ch < 2048) (new maxChannels) xs) :
    (((new maxChannels).handleAll xs).1.map EncapsulatedPacket.orderingIndex =
        (List.range (n + 1)).map (fun i => some (Sequence24.new i)) ∧
      ∀ p ∈ ((new maxChannels).handleAll xs).1, p ∈ xs) ↔
    Recovers n (xs.map fun x => (indexOf x).val) := by
  have hnew : (new maxChannels).channels[ch.toNat]? = some OrderingChannel.new := by
    simp [new, hch]
  have hval : ∀ {x : EncapsulatedPacket} {i : Nat}, i ≤ n → x.orderingIndex = some (Sequence24.new i) →
      (indexOf x).val = i := by
    intro x i hi hx
    rw [indexOf, hx]
    exact Nat.mod_eq_of_lt (by omega)
  have hindexed : ∀ x ∈ xs, Indexed n x := by
    intro x hx
    obtain ⟨-, i, hi, hidx⟩ := hxs x hx
    exact ⟨by rw [hidx]; rfl, by rw [hval hi hidx]; exact hi⟩
  have harrived : ∀ j ≤ n, j ∈ [] ++ xs.map fun x => (indexOf x).val := by
    intro j hj
    obtain ⟨x, hx, hidx⟩ := hall j hj
    exact List.mem_map.2 ⟨x, hx, hval hj hidx⟩
  obtain ⟨hout, hroom'⟩ := handleAll_channel hnew fun x (hx : x ∈ xs) => ⟨(hxs x hx).1, (hindexed x hx).1⟩
  have hret := handleAll_returned hn xs OrderingChannel.new (waiting_new n).toBounded hindexed
  have hrun := handleAll_waiting hn xs [] OrderingChannel.new (waiting_new n) (fun j hj => (List.not_mem_nil hj).elim)
    hindexed harrived (hroom' hroom)
  have hsubset : ∀ p ∈ (OrderingChannel.new.handleAll xs).1, p ∈ xs := fun p hp =>
    (handleAll_subset xs _ p hp).elim id fun hp => (List.not_mem_nil hp).elim
  have hrange : (List.range (n + 1)).map (fun i => some (Sequence24.new i)) = indexes 0 (n + 1) := by
    rw [indexes, List.range_eq_range']; rfl
  -- the packets returned are those below the read index, so that all are out when it stands at n + 1
  rw [List.nil_append] at hrun
  rw [← hrun, hout, hret.out, hrange]
  constructor
  · rintro ⟨heq, -⟩
    have hlen := congrArg List.length heq
    simp only [indexes, List.length_map, List.length_range'] at hlen
    have hzero : OrderingChannel.new.orderRead.val = 0 := rfl
    omega
  · intro heq
    exact ⟨by rw [heq]; rfl, hsubset⟩

/-- An ordered packet on channel 0 with ordering index `i`. -/
def orderedPacket (i : Nat) : EncapsulatedPacket :=
  { header := ⟨.reliableOrdered, false, false⟩, bitLength := 8, reliableIndex := some (Sequence24.new i)
    sequenceIndex := none, orderingIndex := some (Sequence24.new i), orderingChannel := some 0, split := none
    payload := [0x80] }

theorem handleOrdered_complete_iff_swapped :
    (((new 16).handleAll [orderedPacket 1, orderedPacket 0]).1.map EncapsulatedPacket.orderingIndex =
        (List.range 2).map (fun i => some (Sequence24.new i)) ∧
      ∀ p ∈ ((new 16).handleAll [orderedPacket 1, orderedPacket 0]).1, p ∈ [orderedPacket 1, orderedPacket 0]) ↔
    Recovers 1 ([orderedPacket 1, orderedPacket 0].map fun x => (indexOf x).val) :=
  handleOrdered_complete_iff 16 1 0 [orderedPacket 1, orderedPacket 0] (by decide) (by decide) (by decide) (by decide)
    ⟨by decide, by decide, trivial⟩

/-- Index 1 is buffered twice before 0 arrives: its second copy hides the buffered 2 for good, and
only 0 and 1 are returned. -/
theorem handleOrdered_strands : ¬ ∀ (maxChannels n : Nat) (ch : UInt8) (xs : List EncapsulatedPacket),
    ch.toNat < maxChannels → n < 2 ^ 23 →
    (∀ x ∈ xs, x.orderingChannel = some ch ∧ ∃ i ≤ n, x.orderingIndex = some (Sequence24.new i)) →
    (∀ i ≤ n, ∃ x ∈ xs, x.orderingIndex = some (Sequence24.new i)) →
    Machine.Along (fun o x => (o.handleOrdered x).2) (fun o _ => o.heapLen ch < 2048) (new maxChannels) xs →
    ((new maxChannels).handleAll xs).1.map EncapsulatedPacket.orderingIndex =
        (List.range (n + 1)).map (fun i => some (Sequence24.new i)) ∧
      ∀ p ∈ ((new maxChannels).handleAll xs).1, p ∈ xs := by
  intro h
  have hout : ((new 16).handleAll [orderedPacket 1, orderedPacket 1, orderedPacket 2, orderedPacket 0]).1 =
      [orderedPacket 0, orderedPacket 1] := by decide +kernel
  have hreturned :=
    (h 16 2 0 [orderedPacket 1, orderedPacket 1, orderedPacket 2, orderedPacket 0] (by decide) (by decide) (by decide)
      (by decide) ⟨by decide, by decide, by decide, by decide +kernel, trivial⟩).1
  rw [hout] at hreturned
  exact absurd hreturned (by decide)

end OrderingChannels

end BedrockRs.Raknet

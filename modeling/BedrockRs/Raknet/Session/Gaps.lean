/-
Gap detection (`process_datagram_sequence`). A received sequence number ahead of the read index leaves a
gap behind it, which the loops cut into consecutive NAK ranges of at most `MAX_ACK_SEQUENCES` numbers.
They stop for every gap up to half a turn, and the ranges they push cover the gap once
(`processDatagramSequence_gap`). The queue they are pushed into merges them again, so the NAK datagrams
keep to the bound only while the gaps are small (`nak_ranges_bounded`).
-/
import BedrockRs.Raknet.Session.AckQueueSpec
import BedrockRs.Raknet.Session.Tracked

namespace BedrockRs.Raknet.Session

open Lib SequenceRange

variable {F : Type}

/-! ## The loops -/

/-- The ranges that the loop of the gap report pushes, or `none` when it has not stopped after `fuel` rounds. -/
def nakRanges (stop : Sequence24) : Nat → Sequence24 → Option (List SequenceRange)
  | 0, _ => none
  | fuel + 1, start =>
    let last := chunkEnd stop (maxAckSequences - 1) start
    if last = stop then some [⟨start, last⟩] else (nakRanges stop fuel last.next).map (⟨start, last⟩ :: ·)

/-- The inner loop stops at `stop`, or after `n` numbers. -/
theorem chunkEnd_addNat (a : Sequence24) : ∀ (n : Nat) {d i : Nat}, i ≤ d → d - i ≤ 2 ^ 23 →
    chunkEnd (a.addNat d) n (a.addNat i) = a.addNat (min (i + n) d)
  | 0, d, i, hid, _ => by rw [chunkEnd, Nat.add_zero, Nat.min_eq_left hid]
  | n + 1, d, i, hid, hd => by
    rw [chunkEnd]
    have hlt := Sequence24.lt_iff_distanceTo (a := a.addNat i) (b := a.addNat d)
    rw [a.distanceTo_addNat_of_le hid (by omega)] at hlt
    rcases Nat.eq_or_lt_of_le hid with rfl | hlt'
    · rw [if_neg (hlt.not.2 (by omega)), Nat.min_eq_right (by omega)]
    · rw [if_pos (hlt.2 (by omega)), a.next_addNat, chunkEnd_addNat a n hlt' (by omega),
        show i + 1 + n = i + (n + 1) by omega]

/-- The `n` numbers from `start` on, cut into consecutive ranges within the bound. -/
structure Cut (start : Sequence24) (n : Nat) (ranges : List SequenceRange) : Prop where
  first : ranges.head?.map SequenceRange.start = some start
  consecutive : ranges.IsChain fun r r' => r.end.next = r'.start
  bounded : ∀ r ∈ ranges, 1 ≤ r.count ∧ r.count ≤ maxAckSequences
  numbers : ranges.flatMap SequenceRange.sequences = (List.range n).map start.addNat

theorem Cut.single (start : Sequence24) {n : Nat} (hn : 1 ≤ n) (hle : n ≤ maxAckSequences) :
    Cut start n [arc start n] := by
  have hcount := count_arc start hn (hle.trans (by decide))
  refine ⟨rfl, List.isChain_singleton _, fun r hr => ?_, ?_⟩
  · rw [List.mem_singleton.1 hr, hcount]
    exact ⟨hn, hle⟩
  · rw [List.flatMap_singleton, sequences_eq, hcount]
    rfl

theorem Cut.cons {start : Sequence24} {n m : Nat} {ranges : List SequenceRange} (hn : 1 ≤ n) (hle : n ≤ maxAckSequences)
    (h : Cut (start.addNat n) m ranges) : Cut start (n + m) (arc start n :: ranges) := by
  have hcount := count_arc start hn (hle.trans (by decide))
  refine ⟨rfl, ?_, fun r hr => ?_, ?_⟩
  · rw [List.isChain_cons]
    refine ⟨fun r hr => ?_, h.consecutive⟩
    have hfirst := h.first
    rw [hr, Option.map_some, Option.some.injEq] at hfirst
    rw [next_end, hcount, hfirst]
    rfl
  · rcases List.mem_cons.1 hr with rfl | hr
    · rw [hcount]
      exact ⟨hn, hle⟩
    · exact h.bounded r hr
  · rw [List.flatMap_cons, h.numbers, sequences_eq, hcount, List.range_add, List.map_append, List.map_map]
    simp [Function.comp_def, arc]

/-- The loop stops, and cuts the gap. -/
theorem nakRanges_cut (a : Sequence24) {d : Nat} (hd : d < 2 ^ 23) : ∀ (fuel : Nat) {i : Nat}, i ≤ d → d - i < fuel →
    ∃ ranges, nakRanges (a.addNat d) fuel (a.addNat i) = some ranges ∧ Cut (a.addNat i) (d - i + 1) ranges
  | 0, i, _, hfuel => absurd hfuel (Nat.not_lt_zero _)
  | fuel + 1, i, hid, hfuel => by
    have hmax : maxAckSequences = 8192 := rfl
    rw [nakRanges, chunkEnd_addNat a _ hid (by omega)]
    have hchunk : (⟨a.addNat i, a.addNat (min (i + (maxAckSequences - 1)) d)⟩ : SequenceRange) =
        arc (a.addNat i) (min (maxAckSequences - 1) (d - i) + 1) := by
      rw [arc, Sequence24.addNat_addNat]
      congr 2
      omega
    rw [hchunk]
    by_cases hlast : d ≤ i + (maxAckSequences - 1)
    · rw [if_pos (by rw [Nat.min_eq_right hlast]), show min (maxAckSequences - 1) (d - i) = d - i by omega]
      exact ⟨_, rfl, .single _ (by omega) (by omega)⟩
    · have hne : a.addNat (min (i + (maxAckSequences - 1)) d) ≠ a.addNat d := fun h => by
        have heq := a.addNat_injective (by omega) (by omega) h
        omega
      rw [if_neg hne, a.next_addNat, show min (i + (maxAckSequences - 1)) d + 1 = i + maxAckSequences by omega,
        show min (maxAckSequences - 1) (d - i) + 1 = maxAckSequences by omega]
      obtain ⟨ranges, hranges, hcut⟩ := nakRanges_cut a hd fuel (i := i + maxAckSequences) (by omega) (by omega)
      rw [hranges, show d - i + 1 = maxAckSequences + (d - (i + maxAckSequences) + 1) by omega]
      rw [← Sequence24.addNat_addNat] at hcut
      exact ⟨_, rfl, .cons (by omega) le_rfl hcut⟩

/-- The first chunk, which is the only one when the gap is within the bound. -/
theorem nakRanges_first {a : Sequence24} {d fuel : Nat} (hd : d < 2 ^ 23) {ranges : List SequenceRange}
    (h : nakRanges (a.addNat d) (fuel + 1) a = some ranges) :
    ∃ rest, ranges = arc a (min (d + 1) maxAckSequences) :: rest ∧ (d + 1 ≤ maxAckSequences → rest = []) := by
  have hchunk := chunkEnd_addNat a (maxAckSequences - 1) (Nat.zero_le d) (by omega)
  rw [a.addNat_zero, Nat.zero_add] at hchunk
  have hmax : maxAckSequences = 8192 := rfl
  rw [nakRanges, hchunk] at h
  rw [arc, show min (d + 1) maxAckSequences - 1 = min (maxAckSequences - 1) d by omega]
  split at h
  · cases h
    exact ⟨[], rfl, fun _ => rfl⟩
  · rename_i hlast
    obtain ⟨rest, -, rfl⟩ := Option.map_eq_some_iff.1 h
    exact ⟨rest, rfl, fun hle => absurd (by rw [Nat.min_eq_right (by omega)]) hlast⟩

/-- The queue gets what the loop pushes. -/
theorem queueNaks_eq (stop : Sequence24) :
    ∀ (fuel : Nat) {naks : AckQueue} {start : Sequence24} {ranges : List SequenceRange},
      nakRanges stop (fuel + 1) start = some ranges → queueNaks stop fuel naks start = ranges.foldl AckQueue.push naks
  | 0, naks, start, ranges, h => by
    rw [nakRanges] at h
    split at h
    · cases h
      rfl
    · cases h
  | fuel + 1, naks, start, ranges, h => by
    rw [nakRanges] at h
    rw [queueNaks]
    split at h
    · rename_i hlast
      cases h
      rw [if_pos hlast]
      rfl
    · rename_i hlast
      obtain ⟨rest, hrest, rfl⟩ := Option.map_eq_some_iff.1 h
      rw [if_neg hlast, queueNaks_eq stop fuel hrest]
      rfl

/-- A number that is neither the expected one nor older is at most half a turn ahead. -/
theorem ahead_distanceTo {a b : Sequence24} (hahead : a.gt b = false) (hne : b ≠ a) :
    ∃ d, d < 2 ^ 23 ∧ a.distanceTo b = d + 1 ∧ b.prev = a.addNat d := by
  have hgt := Sequence24.gt_iff_distanceTo (a := b) (b := a)
  rw [hahead] at hgt
  have hturn := Sequence24.distanceTo_add_distanceTo (Ne.symm hne)
  have hpos : a.distanceTo b ≠ 0 := Sequence24.distanceTo_eq_zero_iff.not.2 (Ne.symm hne)
  have hpos' : b.distanceTo a ≠ 0 := Sequence24.distanceTo_eq_zero_iff.not.2 hne
  simp only [Bool.false_eq_true, false_iff] at hgt
  refine ⟨a.distanceTo b - 1, by omega, by omega, ?_⟩
  have hb : b = (a.addNat (a.distanceTo b - 1)).next := by
    rw [a.next_addNat, Nat.sub_add_cancel (by omega), a.addNat_distanceTo]
  conv_lhs => rw [hb]
  exact Sequence24.prev_next _

theorem processDatagramSequence_cut {s : Session F} {seq : Sequence24} (hahead : s.datagramReadIndex.gt seq = false)
    (hne : seq ≠ s.datagramReadIndex) : ∃ ranges,
    nakRanges seq.prev (s.datagramReadIndex.distanceTo seq) s.datagramReadIndex = some ranges ∧
    s.processDatagramSequence seq = { s with
      datagramReadIndex := seq.next
      outgoingNaks := ranges.foldl AckQueue.push s.outgoingNaks
      outgoingAcks := s.outgoingAcks.push ⟨seq, seq⟩ } ∧
    Cut s.datagramReadIndex (s.datagramReadIndex.distanceTo seq) ranges := by
  obtain ⟨d, hd, hdist, hprev⟩ := ahead_distanceTo hahead hne
  obtain ⟨ranges, hranges, hcut⟩ := nakRanges_cut s.datagramReadIndex hd (d + 1) (Nat.zero_le d) (Nat.lt_succ_self d)
  rw [s.datagramReadIndex.addNat_zero, ← hprev] at hranges
  rw [s.datagramReadIndex.addNat_zero, Nat.sub_zero] at hcut
  rw [hdist]
  refine ⟨ranges, hranges, ?_, hcut⟩
  have hfuel : s.datagramReadIndex.distanceTo seq.prev = d := by
    rw [hprev, s.datagramReadIndex.distanceTo_addNat (by omega)]
  rw [processDatagramSequence, if_neg (by rw [hahead]; exact Bool.false_ne_true), if_neg hne, hfuel,
    queueNaks_eq _ _ hranges]

/-- A sequence number ahead of the read index, by up to half a turn: the loops stop, the ranges they push are
consecutive and within the bound and cover the gap once, and the number itself is acknowledged. -/
theorem processDatagramSequence_gap (s : Session F) (seq : Sequence24) (hahead : s.datagramReadIndex.gt seq = false)
    (hne : seq ≠ s.datagramReadIndex) : ∃ ranges,
    nakRanges seq.prev (s.datagramReadIndex.distanceTo seq) s.datagramReadIndex = some ranges ∧
    s.processDatagramSequence seq = { s with
      datagramReadIndex := seq.next
      outgoingNaks := ranges.foldl AckQueue.push s.outgoingNaks
      outgoingAcks := s.outgoingAcks.push ⟨seq, seq⟩ } ∧
    (ranges.IsChain fun r r' => r.end.next = r'.start) ∧
    (∀ r ∈ ranges, 1 ≤ r.sequences.length ∧ r.sequences.length ≤ maxAckSequences) ∧
    ranges.flatMap SequenceRange.sequences =
      (List.range (s.datagramReadIndex.distanceTo seq)).map s.datagramReadIndex.addNat ∧
    (ranges.flatMap SequenceRange.sequences).Nodup := by
  obtain ⟨ranges, hranges, hstate, hcut⟩ := processDatagramSequence_cut hahead hne
  refine ⟨ranges, hranges, hstate, hcut.consecutive, fun r hr => ?_, hcut.numbers, ?_⟩
  · rw [length_sequences]
    exact hcut.bounded r hr
  · rw [hcut.numbers]
    have hlt := s.datagramReadIndex.distanceTo_lt seq
    refine List.Nodup.map_on (fun i hi j hj h => ?_) List.nodup_range
    rw [List.mem_range] at hi hj
    exact s.datagramReadIndex.addNat_injective (by omega) (by omega) h

/-- Half a turn ahead of a new session's read index. -/
theorem processDatagramSequence_gap_half : ∃ ranges,
    nakRanges (Sequence24.new (2 ^ 23)).prev (2 ^ 23) (Sequence24.new 0) = some ranges ∧
      ranges.flatMap SequenceRange.sequences = (List.range (2 ^ 23)).map (Sequence24.new 0).addNat := by
  obtain ⟨ranges, hranges, -, -, -, hnumbers, -⟩ :=
    processDatagramSequence_gap (withTunables 1400 {} : Session ℚ) (Sequence24.new (2 ^ 23)) (by decide) (by decide)
  exact ⟨ranges, hranges, hnumbers⟩

/-! ## NAK datagrams -/

/-- The gap between the read index and a received sequence number can be queued within the bound: the queue is
full, or it has room for one range only and the first chunk does not touch the last one, or the gap is within
the bound, and so is the gap together with the last range if it touches that. -/
def GapFits (naks : AckQueue) (prev seq : Sequence24) : Prop :=
  naks.maxRanges ≤ naks.queue.length ∨
  (naks.queue.length + 1 = naks.maxRanges ∧
    ∀ last ∈ naks.queue.getLast?, ¬ last.Touches (arc prev (min (prev.distanceTo seq) maxAckSequences))) ∨
  (prev.distanceTo seq ≤ maxAckSequences ∧ ∀ last ∈ naks.queue.getLast?, last.Touches (arc prev (prev.distanceTo seq)) →
    (last.numbers ∪ (arc prev (prev.distanceTo seq)).numbers).card ≤ maxAckSequences)

instance (naks : AckQueue) (prev seq : Sequence24) : Decidable (GapFits naks prev seq) := by
  unfold GapFits
  infer_instance

/-- Every range of the queue is within the bound. -/
def Bounded (q : AckQueue) : Prop := ∀ r ∈ q.queue, r.count ≤ maxAckSequences

theorem Bounded.pushBack {q : AckQueue} (h : Bounded q) {r : SequenceRange} (hr : r.count ≤ maxAckSequences) :
    Bounded (q.pushBack r) := by
  intro r' hr'
  rcases List.mem_append.1 hr' with hr' | hr'
  · exact h r' hr'
  · rwa [List.mem_singleton.1 hr']

/-- One chunk. -/
theorem Bounded.push {q : AckQueue} (h : Bounded q) {range : SequenceRange} (hrange : range.count ≤ maxAckSequences)
    (hfits : ∀ last ∈ q.queue.getLast?, last.Touches range → (last.numbers ∪ range.numbers).card ≤ maxAckSequences) :
    Bounded (q.push range) := by
  rcases Nat.lt_or_ge q.queue.length q.maxRanges with hroom | hfull
  · by_cases htouches : ∀ last ∈ q.queue.getLast?, ¬ last.Touches range
    · obtain ⟨r, hsub, -, hpush⟩ := AckQueue.push_of_not_touches hroom htouches
      rw [hpush]
      refine h.pushBack (le_trans ?_ hrange)
      rw [← card_numbers, ← card_numbers]
      exact Finset.card_le_card hsub
    · push Not at htouches
      obtain ⟨last, hlast, htouches⟩ := htouches
      obtain ⟨init, hq⟩ := List.getLast?_eq_some_iff.1 hlast
      have hcard := hfits last hlast htouches
      obtain ⟨merged, habsorb, hmerged⟩ := AckQueue.absorb_of_touches htouches (hcard.trans_lt (by decide))
      rw [AckQueue.push_of_absorb hroom hq habsorb]
      intro r hr
      rcases List.mem_append.1 hr with hr | hr
      · exact h r (by rw [hq]; exact List.mem_append_left _ hr)
      · rw [List.mem_singleton.1 hr, ← card_numbers, hmerged]
        exact hcard
  · rwa [AckQueue.push_of_full hfull]

theorem foldl_push_of_full {q : AckQueue} (h : q.maxRanges ≤ q.queue.length) (ranges : List SequenceRange) :
    ranges.foldl AckQueue.push q = q := by
  induction ranges with
  | nil => rfl
  | cons range ranges ih => rw [List.foldl_cons, AckQueue.push_of_full h, ih]

/-- The loops keep the queue within the bound when the gap fits. -/
theorem Bounded.queueGap {s : Session F} (h : Bounded s.outgoingNaks) {seq : Sequence24}
    (hahead : s.datagramReadIndex.gt seq = false) (hne : seq ≠ s.datagramReadIndex)
    (hfits : GapFits s.outgoingNaks s.datagramReadIndex seq) :
    Bounded (s.processDatagramSequence seq).outgoingNaks := by
  obtain ⟨ranges, hranges, hstate, -⟩ := processDatagramSequence_cut hahead hne
  obtain ⟨d, hd, hdist, hprev⟩ := ahead_distanceTo hahead hne
  rw [hdist, hprev] at hranges
  obtain ⟨rest, rfl, hrest⟩ := nakRanges_first hd hranges
  have hcount :=
    count_arc s.datagramReadIndex (n := min (d + 1) maxAckSequences) (Nat.le_min.2 ⟨by omega, by decide⟩) (by omega)
  rw [hstate]
  unfold GapFits at hfits
  rw [hdist] at hfits
  dsimp only
  rcases hfits with hfull | ⟨hone, happart⟩ | ⟨hle, htouch⟩
  · rwa [foldl_push_of_full hfull]
  · obtain ⟨r, hsub, -, hpush⟩ := AckQueue.push_of_not_touches (by omega) happart
    rw [List.foldl_cons, hpush, foldl_push_of_full]
    · refine h.pushBack ?_
      have hcard := Finset.card_le_card hsub
      rw [card_numbers, card_numbers, hcount] at hcard
      omega
    · rw [AckQueue.pushBack, List.length_append, List.length_singleton]
      exact hone.ge
  · rw [hrest hle, Nat.min_eq_left hle] at *
    exact h.push (by omega) htouch

/-- A received sequence number leaves no gap, or one that fits. -/
def NaksFit (s : Session F) : Op → Prop
  | .processDatagramSequence seq =>
    s.datagramReadIndex.gt seq = true ∨ seq = s.datagramReadIndex ∨ GapFits s.outgoingNaks s.datagramReadIndex seq
  | _ => True

instance (s : Session F) : ∀ op, Decidable (s.NaksFit op)
  | .processDatagramSequence _ => inferInstanceAs (Decidable (_ ∨ _ ∨ _))
  | .queuePacket .. | .buildDataDatagram _ | .handleDataPayload .. | .handleAckPayload _ | .handleNackPayload _
    | .onTick .. =>
    inferInstanceAs (Decidable True)

variable [Float64 F]

theorem Bounded.step {s : Session F} (h : Bounded s.outgoingNaks) {op : Op} (hfits : s.NaksFit op) :
    Bounded (s.step op).outgoingNaks := by
  rcases (s.step_cases op).control with ⟨seq, rfl⟩ | ⟨now, iter, rfl⟩ | ⟨-, hnaks⟩
  · rw [Session.step]
    by_cases hgt : s.datagramReadIndex.gt seq = true
    · rw [processDatagramSequence, if_pos hgt]
      exact h
    · by_cases heq : seq = s.datagramReadIndex
      · rw [processDatagramSequence, if_neg hgt, if_pos heq]
        exact h
      · exact h.queueGap (Bool.eq_false_iff.2 hgt) heq ((hfits.resolve_left hgt).resolve_left heq)
  · -- the tick takes ranges off the front of the queue
    intro r hr
    refine h r ?_
    rw [← AckQueue.popForMtu_append s.outgoingNaks s.mtu ackOverhead]
    rw [Session.step, onTick_outgoingNaks] at hr
    exact List.mem_append_right _ hr
  · rwa [hnaks]

omit [Float64 F] in
theorem buildNakDatagram_ranges (s : Session F) {o : OutgoingDatagram} {payload : AckNackPayload}
    (ho : o ∈ s.buildNakDatagram.1) (hp : o.asRef.payload = .nak payload) :
    ∀ r ∈ payload.ranges, r ∈ s.outgoingNaks.queue := by
  unfold buildNakDatagram at ho
  dsimp only at ho
  split at ho
  · cases ho
  · cases ho
    cases hp
    intro r hr
    rw [← AckQueue.popForMtu_append s.outgoingNaks s.mtu ackOverhead]
    exact List.mem_append_left _ ((List.perm_insertionSort _ _).mem_iff.1 hr)

/-- The NAK datagram of a tick carries ranges of the queue only. -/
theorem onTick_nak_ranges {s : Session F} (hq : QueueInv s) {now : Instant} {iter : IterOrder SplitEntries.Item}
    {o : OutgoingDatagram} {payload : AckNackPayload} (ho : o ∈ (s.onTick now iter).1)
    (hp : o.asRef.payload = .nak payload) : ∀ r ∈ payload.ranges, r ∈ s.outgoingNaks.queue := by
  rcases onTick_control hq ho (by rw [Datagram.isData, hp]) with hack | hnak
  · unfold buildAckDatagram at hack
    dsimp only at hack
    split at hack
    · cases hack
    · cases hack
      cases hp
  · have hranges := buildNakDatagram_ranges _ hnak hp
    obtain ⟨_, _, _, hafter⟩ := s.afterResends_frame now iter
    rw [buildAckDatagram_state, hafter] at hranges
    exact hranges

/-- In every run in which the gaps fit, the ranges of the NAK datagrams cover at most `MAX_ACK_SEQUENCES` numbers. -/
theorem nak_ranges_bounded (mtu : Nat) (tunables : SessionTunables) (ops : List Op)
    (hfits : Machine.Along step NaksFit (withTunables mtu tunables : Session F) ops) (now : Instant)
    (iter : IterOrder SplitEntries.Item) (o : OutgoingDatagram) (payload : AckNackPayload)
    (ho : o ∈ ((after mtu tunables ops : Session F).onTick now iter).1) (hp : o.asRef.payload = .nak payload) :
    ∀ r ∈ payload.ranges, r.sequences.length ≤ maxAckSequences := by
  have hnew : Bounded (withTunables mtu tunables : Session F).outgoingNaks := by
    intro r hr
    cases hr
  have hrun :=
    Machine.run_inv (P := fun s : Session F => Bounded s.outgoingNaks) (fun s op h hc => h.step hc) ops hnew hfits
  intro r hr
  rw [length_sequences]
  exact hrun r (onTick_nak_ranges (queueInv_after mtu tunables ops) ho hp r hr)

/-- A gap of three numbers. -/
theorem nak_ranges_bounded_three :
    (⟨Sequence24.new 0, Sequence24.new 2⟩ : SequenceRange).sequences.length ≤ maxAckSequences :=
  nak_ranges_bounded (F := ℚ) 1400 {} [.processDatagramSequence (Sequence24.new 3)] (by decide +kernel) 0
    (IterOrder.stored _)
    (.owned ⟨⟨DatagramFlags.valid.or .nack, Sequence24.new 0⟩, .nak ⟨[⟨Sequence24.new 0, Sequence24.new 2⟩]⟩⟩) _
    (by decide +kernel) rfl _ (List.mem_singleton_self _)

/-! ## The chunks merged again -/

omit [Float64 F] in
/-- Chunks that are pushed behind a range that they continue end up in that range. -/
theorem foldl_push_nakRanges (stop : Sequence24) : ∀ (fuel : Nat) {start : Sequence24} {ranges : List SequenceRange},
    nakRanges stop fuel start = some ranges → ∀ {q : AckQueue} {r : SequenceRange}, q.queue = [r] → 1 < q.maxRanges →
      r.end.next = start → ranges.foldl AckQueue.push q = { q with queue := [⟨r.start, stop⟩] }
  | 0, start, ranges, h, q, r, _, _, _ => by cases h
  | fuel + 1, start, ranges, h, q, r, hq, hmax, hnext => by
    have hinit : q.queue = [] ++ [r] := hq
    have hpush : ∀ last : Sequence24, q.push ⟨start, last⟩ = { q with queue := [⟨r.start, last⟩] } := fun last =>
      AckQueue.push_of_absorb (by rw [hq]; exact hmax) hinit (by rw [AckQueue.absorb, if_pos hnext])
    rw [nakRanges] at h
    split at h
    · rename_i hlast
      cases h
      rw [List.foldl_cons, List.foldl_nil, hpush, hlast]
    · obtain ⟨rest, hrest, rfl⟩ := Option.map_eq_some_iff.1 h
      rw [List.foldl_cons, hpush]
      exact foldl_push_nakRanges stop fuel hrest (r := ⟨r.start, chunkEnd stop (maxAckSequences - 1) start⟩) rfl
        hmax rfl

omit [Float64 F] in
/-- A gap of any size goes into an empty queue as one range. -/
theorem processDatagramSequence_naks {s : Session F} {seq : Sequence24} (hahead : s.datagramReadIndex.gt seq = false)
    (hne : seq ≠ s.datagramReadIndex) (hempty : s.outgoingNaks.queue = []) (hroom : 2 ≤ s.outgoingNaks.maxRanges) :
    (s.processDatagramSequence seq).outgoingNaks =
      { s.outgoingNaks with queue := [⟨s.datagramReadIndex, seq.prev⟩] } := by
  obtain ⟨ranges, hranges, hstate, -⟩ := processDatagramSequence_cut hahead hne
  obtain ⟨d, -, hdist, -⟩ := ahead_distanceTo hahead hne
  rw [hstate]
  dsimp only
  rw [hdist, nakRanges] at hranges
  have hpush : ∀ range : SequenceRange, s.outgoingNaks.push range = { s.outgoingNaks with queue := [range] } := by
    intro range
    have hlast : ∀ last ∈ s.outgoingNaks.queue.getLast?, ¬ last.Touches range := by
      rw [hempty]
      rintro last ⟨⟩
    have hlen : s.outgoingNaks.queue.length = 0 := by rw [hempty, List.length_nil]
    obtain ⟨r, -, hwhole, hpush⟩ := AckQueue.push_of_not_touches (by omega) hlast
    rw [hpush, hwhole (by omega), AckQueue.pushBack, hempty, List.nil_append]
  split at hranges
  · rename_i hlast
    cases hranges
    rw [List.foldl_cons, List.foldl_nil, hpush, hlast]
  · obtain ⟨rest, hrest, rfl⟩ := Option.map_eq_some_iff.1 hranges
    rw [List.foldl_cons, hpush]
    exact foldl_push_nakRanges _ d hrest (r := ⟨s.datagramReadIndex, _⟩) rfl hroom rfl

/-- Sequence number 8193 on a new session: the 8192 numbers of the first chunk and the one of the second go out as one
range. -/
theorem not_nak_ranges_bounded : ¬ ∀ (ops : List Op) (now : Instant) (iter : IterOrder SplitEntries.Item)
    (o : OutgoingDatagram) (payload : AckNackPayload), o ∈ ((after 1400 {} ops : Session ℚ).onTick now iter).1 →
      o.asRef.payload = .nak payload → ∀ r ∈ payload.ranges, r.sequences.length ≤ maxAckSequences := by
  intro h
  have hstate : (after 1400 {} [.processDatagramSequence (Sequence24.new 8193)] : Session ℚ) =
      { (withTunables 1400 {} : Session ℚ) with
        datagramReadIndex := Sequence24.new 8194
        outgoingNaks := ⟨1024, [⟨Sequence24.new 0, Sequence24.new 8192⟩]⟩
        outgoingAcks := ⟨1024, [⟨Sequence24.new 8193, Sequence24.new 8193⟩]⟩ } := by
    have hahead : (withTunables 1400 {} : Session ℚ).datagramReadIndex.gt (Sequence24.new 8193) = false := by decide
    have hne : Sequence24.new 8193 ≠ (withTunables 1400 {} : Session ℚ).datagramReadIndex := by decide
    have hnaks := processDatagramSequence_naks hahead hne rfl (by decide)
    obtain ⟨ranges, -, hseq, -⟩ := processDatagramSequence_cut hahead hne
    show (withTunables 1400 {} : Session ℚ).processDatagramSequence (Sequence24.new 8193) = _
    rw [hseq] at hnaks ⊢
    dsimp only at hnaks
    rw [hnaks]
    rfl
  have hrange := h [.processDatagramSequence (Sequence24.new 8193)] 0 (IterOrder.stored _)
    (.owned ⟨⟨DatagramFlags.valid.or .nack, Sequence24.new 0⟩, .nak ⟨[⟨Sequence24.new 0, Sequence24.new 8192⟩]⟩⟩) _
    (by rw [hstate]; decide +kernel) rfl _ (List.mem_singleton_self _)
  rw [length_sequences] at hrange
  revert hrange
  decide

end BedrockRs.Raknet.Session

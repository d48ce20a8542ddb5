/-
ACK and NAK payloads are read back up to what they mean. A wrapping range is written as two records,
so the decoded list of ranges need not be the one that was sent; it holds no wrapping range, and
running through it visits the same sequence numbers in the same order.
-/
import BedrockRs.Raknet.Protocol.OpenConnection
import BedrockRs.Raknet.Protocol.Size

namespace BedrockRs.Raknet

open BedrockRs.Lib.Codec

/-- Items written one after the other are read back by a reader of as many. -/
theorem list_reads {α : Type} {item : Get α} {put : α → Bytes} :
    ∀ {items : List α}, (∀ a ∈ items, Reads item (put a) a) →
      Reads (Get.list item items.length) (items.flatMap put) items
  | [], _ => .pure _
  | a :: items, h => by
    have hrest := list_reads fun b hb => h b (List.mem_cons_of_mem a hb)
    rw [List.flatMap_cons, ← List.append_nil (items.flatMap put)]
    exact (h a (List.mem_cons_self ..)).bind (hrest.bind (.pure _))

namespace SequenceRange

theorem reads (r : SequenceRange) : Reads decode r.encode r := by
  obtain ⟨start, stop⟩ := r
  unfold encode
  rw [List.append_assoc]
  apply (bool_reads _).bind
  apply (sequence24_reads start).bind
  by_cases h : start = stop
  · subst h
    simp only [decide_true, if_true]
    exact .bind (.pure start) (.pure _)
  · simp only [h, decide_false, if_false]
    rw [← List.append_nil (Put.sequence24 stop)]
    exact (sequence24_reads stop).bind (.pure _)

/-- The records a range is sent in. -/
def records (r : SequenceRange) : List SequenceRange :=
  match r.splitWrapping with
  | some (tail, head) => [tail, head]
  | none => [r]

theorem length_records_eq (r : SequenceRange) : r.records.length = r.recordCount := by
  unfold records splitWrapping recordCount
  cases r.wraps <;> simp

theorem flatMap_records (r : SequenceRange) :
    (match r.splitWrapping with
      | some (tail, head) => tail.encode ++ head.encode
      | none => r.encode) = r.records.flatMap encode := by
  unfold records
  cases r.splitWrapping <;> simp

/-- No record wraps. -/
theorem wraps_of_mem_records {r s : SequenceRange} (h : s ∈ r.records) : s.wraps = false := by
  unfold records splitWrapping at h
  cases hr : r.wraps with
  | false =>
    simp only [hr, Bool.not_false, if_true, List.mem_singleton] at h
    exact h ▸ hr
  | true =>
    simp only [hr, Bool.not_true, Bool.false_eq_true, if_false, List.mem_cons, List.not_mem_nil, or_false] at h
    have := r.start.isLt
    rcases h with rfl | rfl
    · refine decide_eq_false ?_
      rintro ⟨-, hgt⟩
      have hgt' : r.start.val > 0x00FFFFFF := hgt
      omega
    · simp [wraps, Sequence24.value]

/-- The two records of a wrapping range enumerate it: up to the largest number, then on from zero. -/
theorem sequences_records (r : SequenceRange) : r.records.flatMap sequences = r.sequences := by
  unfold records splitWrapping
  cases hr : r.wraps with
  | false => simp
  | true =>
    have hlt : r.end.val < r.start.val := (of_decide_eq_true hr).2
    have hs := r.start.isLt
    have he := r.end.isLt
    have hwhole : r.start.distanceTo r.end + 1 = (2 ^ 24 - r.start.val) + (r.end.val + 1) := by
      unfold Sequence24.distanceTo
      rw [if_neg (by omega)]
      omega
    have htail : r.start.distanceTo (Sequence24.new 0x00FFFFFF) + 1 = 2 ^ 24 - r.start.val := by
      unfold Sequence24.distanceTo
      rw [Sequence24.val_new, if_pos (by omega)]
      omega
    have hhead : (Sequence24.new 0).distanceTo r.end = r.end.val := by
      unfold Sequence24.distanceTo
      rw [Sequence24.val_new, if_pos (by omega)]
      omega
    simp only [Bool.not_true, Bool.false_eq_true, if_false, List.flatMap_cons, List.flatMap_nil, List.append_nil]
    unfold sequences
    rw [htail, hhead, hwhole, List.range_add (n := 2 ^ 24 - r.start.val), List.map_append, List.map_map]
    congr 1
    apply List.map_congr_left
    intro i _
    apply Sequence24.ext
    simp only [Function.comp_apply, Sequence24.val_new]
    omega

end SequenceRange

namespace AckNackPayload

open SequenceRange

/-- The sequence numbers that `for_each_sequence_in_range` visits over the ranges of a payload, in order. -/
def visited (p : AckNackPayload) : List Sequence24 :=
  p.ranges.foldl (fun seen r => r.forEachSequenceInRange (fun seen x => seen ++ [x]) seen) []

theorem visited_eq (p : AckNackPayload) : p.visited = p.ranges.flatMap sequences := by
  unfold visited
  rw [foldl_forEach, List.foldl_append_eq_append, List.nil_append, ← List.flatMap_def, List.flatMap_singleton']

/-- The payload as the wire carries it: every range replaced by its records. -/
def unwrapped (p : AckNackPayload) : AckNackPayload := ⟨p.ranges.flatMap records⟩

theorem length_unwrapped (p : AckNackPayload) : p.unwrapped.ranges.length = (p.ranges.map recordCount).sum := by
  simp only [unwrapped, List.length_flatMap, length_records_eq]

theorem visited_unwrapped (p : AckNackPayload) : p.unwrapped.visited = p.visited := by
  rw [visited_eq, visited_eq, unwrapped, List.flatMap_assoc]
  congr
  funext r
  exact r.sequences_records

/-- Written, a payload of no more than `MAX_ACK_SEQUENCES` records is read as its records. -/
theorem reads (p : AckNackPayload) (h : (p.ranges.map recordCount).sum ≤ maxAckSequences) :
    Reads decode p.encode p.unwrapped := by
  have hlen : (UInt16.ofNat (p.ranges.map recordCount).sum).toNat = p.unwrapped.ranges.length := by
    rw [length_unwrapped, UInt16.toNat_ofNat_of_lt' (by unfold maxAckSequences at h; simp only [UInt16.size]; omega)]
  have hbytes : p.encode = Put.u16 (UInt16.ofNat (p.ranges.map recordCount).sum) ++
      (p.unwrapped.ranges.flatMap SequenceRange.encode ++ []) := by
    rw [unwrapped, List.append_nil, List.flatMap_assoc]
    exact congrArg (_ ++ ·) (List.flatMap_congr fun r _ => flatMap_records r)
  rw [hbytes]
  apply (u16_reads _).bind
  rw [hlen, if_neg (by rw [length_unwrapped]; omega)]
  exact (list_reads fun r _ => r.reads).bind (.pure _)

/-- A payload without wrapping ranges is its own list of records. -/
theorem unwrapped_of_not_wraps {p : AckNackPayload} (h : ∀ r ∈ p.ranges, r.wraps = false) : p.unwrapped = p := by
  obtain ⟨ranges⟩ := p
  have hself : ranges.flatMap records = ranges.flatMap fun r => [r] := by
    apply List.flatMap_congr
    intro r hr
    rw [records, splitWrapping, h r hr]
    rfl
  rw [unwrapped, hself, List.flatMap_singleton']

/-- Decoding the encoding takes every byte of it, and what comes out enumerates the same sequence
numbers through ranges that do not wrap. -/
theorem decode_encode_visits (p : AckNackPayload) (h : (p.ranges.map recordCount).sum ≤ maxAckSequences) :
    ∃ q, decode p.encode = .ok (q, []) ∧ (∀ r ∈ q.ranges, r.wraps = false) ∧ q.visited = p.visited ∧
      p.size = p.encode.length := by
  refine ⟨p.unwrapped, (p.reads h).all, ?_, p.visited_unwrapped, p.length_encode.symm⟩
  intro r hr
  obtain ⟨s, -, hs⟩ := List.mem_flatMap.1 hr
  exact wraps_of_mem_records hs

/-- A range from the largest number to zero, next to a singleton. -/
theorem decode_encode_visits_wrapping :
    ∃ q, decode (encode ⟨[⟨.new 0x00FFFFFF, .new 0⟩, ⟨.new 7, .new 7⟩]⟩) = .ok (q, []) ∧
      (∀ r ∈ q.ranges, r.wraps = false) ∧ q.visited = visited ⟨[⟨.new 0x00FFFFFF, .new 0⟩, ⟨.new 7, .new 7⟩]⟩ ∧
      size ⟨[⟨.new 0x00FFFFFF, .new 0⟩, ⟨.new 7, .new 7⟩]⟩ =
      (encode ⟨[⟨.new 0x00FFFFFF, .new 0⟩, ⟨.new 7, .new 7⟩]⟩).length :=
  decode_encode_visits _ (by decide)

end AckNackPayload

end BedrockRs.Raknet

/-
ACK and NAK payloads (`protocol/ack.rs`): inclusive, possibly wrapping ranges of sequence numbers,
their wire form (a wrapping range is sent as its two halves), and the enumeration of a range that
the session runs over incoming payloads (`for_each_sequence_in_range` of `session/inbound.rs`).
-/
import BedrockRs.Raknet.Protocol.Wire

namespace BedrockRs.Raknet

/-- `MAX_ACK_SEQUENCES`. -/
def maxAckSequences : Nat := 8192

structure SequenceRange where
  start : Sequence24
  «end» : Sequence24
deriving DecidableEq, Repr

namespace SequenceRange

def size (r : SequenceRange) : Nat := if r.start ≠ r.end then 4 + 3 else 4

def wraps (r : SequenceRange) : Bool := r.start ≠ r.end ∧ r.start.value > r.end.value

def splitWrapping (r : SequenceRange) : Option (SequenceRange × SequenceRange) :=
  if !r.wraps then none
  else some (⟨r.start, Sequence24.new 0x00FFFFFF⟩, ⟨Sequence24.new 0, r.end⟩)

def recordCount (r : SequenceRange) : Nat := if r.wraps then 2 else 1

def encodedSize (r : SequenceRange) : Nat :=
  match r.splitWrapping with
  | some (tail, head) => tail.size + head.size
  | none => r.size

def encode (r : SequenceRange) : Bytes :=
  Put.bool (r.start = r.end) ++ Put.sequence24 r.start ++
    if r.start = r.end then [] else Put.sequence24 r.end

def decode : Get SequenceRange := do
  let singleton ← Get.bool
  let start ← Get.sequence24
  let stop ← if singleton then pure start else Get.sequence24
  return ⟨start, stop⟩

/-- The loop of `for_each_sequence_in_range`: visit `seq`, stop at `stop`, else go on with the
successor. The distance to `stop` bounds the number of further visits. -/
def visit {σ : Type} (stop : Sequence24) (f : σ → Sequence24 → σ) : Nat → σ → Sequence24 → σ
  | 0, acc, seq => f acc seq
  | fuel + 1, acc, seq => if seq = stop then f acc seq else visit stop f fuel (f acc seq) seq.next

def forEachSequenceInRange {σ : Type} (r : SequenceRange) (f : σ → Sequence24 → σ) (init : σ) : σ :=
  visit r.end f (r.start.distanceTo r.end) init r.start

/-- The sequence numbers a range enumerates, in order. -/
def sequences (r : SequenceRange) : List Sequence24 :=
  (List.range (r.start.distanceTo r.end + 1)).map fun i => Sequence24.new (r.start.val + i)

end SequenceRange

structure AckNackPayload where
  ranges : List SequenceRange
deriving DecidableEq, Repr

namespace AckNackPayload

def encode (p : AckNackPayload) : Bytes :=
  let totalRecords := (p.ranges.map SequenceRange.recordCount).sum
  Put.u16 (UInt16.ofNat totalRecords) ++ p.ranges.flatMap fun r =>
    match r.splitWrapping with
    | some (tail, head) => tail.encode ++ head.encode
    | none => r.encode

def decode : Get AckNackPayload := do
  let len ← Get.u16
  if len.toNat > maxAckSequences then throw .invalidAckPacket
  return ⟨← Get.list SequenceRange.decode len.toNat⟩

def size (p : AckNackPayload) : Nat := 2 + (p.ranges.map SequenceRange.encodedSize).sum

end AckNackPayload

/-! ## Enumeration -/

namespace SequenceRange

open Sequence24

theorem visit_eq_foldl {σ : Type} (f : σ → Sequence24 → σ) (stop : Sequence24) :
    ∀ (n : Nat) (seq : Sequence24) (acc : σ), seq.distanceTo stop = n →
      visit stop f n acc seq = ((List.range (n + 1)).map fun i => new (seq.val + i)).foldl f acc
  | 0, seq, acc, h => by
    simp [visit]
  | n + 1, seq, acc, h => by
    have hne : seq ≠ stop := fun e => by rw [distanceTo_eq_zero_iff.2 e] at h; omega
    have hd : seq.next.distanceTo stop = n := by
      have hs : stop = new (seq.next.val + n) := by
        rw [next_add, ← h, new_add_distanceTo]
      have := distanceTo_lt seq stop
      rw [hs, distanceTo_new_add _ (by omega)]
    rw [visit, if_neg hne, visit_eq_foldl f stop n seq.next (f acc seq) hd, List.range_succ_eq_map (n := n + 1)]
    simp only [List.map_cons, List.foldl_cons, List.map_map, Function.comp_def, Nat.add_zero, new_val, next_add]

/-- `for_each_sequence_in_range` is a left fold over the enumerated sequence numbers. -/
theorem forEach_eq_foldl {σ : Type} (r : SequenceRange) (f : σ → Sequence24 → σ) (init : σ) :
    r.forEachSequenceInRange f init = r.sequences.foldl f init :=
  visit_eq_foldl f r.end _ r.start init rfl

/-- Collecting what `for_each_sequence_in_range` visits gives the enumerated sequence numbers. -/
theorem forEach_collect (r : SequenceRange) :
    r.forEachSequenceInRange (fun visited x => visited ++ [x]) [] = r.sequences := by
  rw [forEach_eq_foldl, List.foldl_append_eq_append, List.nil_append, ← List.flatMap_def, List.flatMap_singleton']

/-- A loop over the ranges of a payload is a left fold over all their sequence numbers. -/
theorem foldl_forEach {σ : Type} (f : σ → Sequence24 → σ) (ranges : List SequenceRange) (init : σ) :
    ranges.foldl (fun s r => r.forEachSequenceInRange f s) init = (ranges.flatMap sequences).foldl f init := by
  rw [List.foldl_flatMap]
  congr
  funext s r
  exact r.forEach_eq_foldl f s

theorem mem_sequences {r : SequenceRange} {x : Sequence24} :
    x ∈ r.sequences ↔ r.start.distanceTo x ≤ r.start.distanceTo r.end := by
  unfold sequences
  rw [List.mem_map]
  constructor
  · rintro ⟨i, hi, rfl⟩
    have := distanceTo_lt r.start r.end
    rw [List.mem_range] at hi
    rw [distanceTo_new_add _ (by omega)]; omega
  · intro h
    exact ⟨r.start.distanceTo x, List.mem_range.2 (by omega), new_add_distanceTo _ _⟩

end SequenceRange

end BedrockRs.Raknet

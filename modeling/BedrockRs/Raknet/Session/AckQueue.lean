/-
The bounded, merged queue of ACK/NAK ranges (`session/ack_queue.rs`).
-/
import BedrockRs.Raknet.Protocol.Ack

namespace BedrockRs.Raknet

structure AckQueue where
  maxRanges : Nat
  queue : List SequenceRange
deriving DecidableEq, Repr

namespace AckQueue

def new (maxRanges : Nat) : AckQueue := ⟨maxRanges, []⟩

/-- The last range with `range` merged in, when the two touch or overlap. -/
def absorb (last range : SequenceRange) : Option SequenceRange :=
  if last.end.next = range.start then some ⟨last.start, range.end⟩
  else if last.end.ge range.start && range.end.ge last.start then
    some ⟨last.start.min range.start, last.end.max range.end⟩
  else none

def tryMerge (q : AckQueue) (range : SequenceRange) : Option AckQueue :=
  match q.queue.getLast? with
  | some last => (absorb last range).map fun merged => { q with queue := q.queue.dropLast ++ [merged] }
  | none => none

def pushBack (q : AckQueue) (range : SequenceRange) : AckQueue := { q with queue := q.queue ++ [range] }

/-- `push` of a range that does not wrap. -/
def pushPlain (q : AckQueue) (range : SequenceRange) : AckQueue :=
  if q.queue.length ≥ q.maxRanges then q
  else
    match q.tryMerge range with
    | some merged => merged
    | none => q.pushBack range

/-- The recursive calls of the source are on the two halves of a wrapping range, which do not wrap
(`push_eq` gives back the recursive equation). -/
def push (q : AckQueue) (range : SequenceRange) : AckQueue :=
  if q.queue.length ≥ q.maxRanges then q
  else
    match q.tryMerge range with
    | some merged => merged
    | none =>
      match range.splitWrapping with
      | some (tail, head) => (q.pushPlain tail).pushPlain head
      | none => q.pushBack range

/-- The loop of `pop_for_mtu` with `used` bytes taken up and `taken` telling whether a range was
popped: the popped ranges and the rest of the queue. -/
def popLoop (mtu : Nat) : Nat → Bool → List SequenceRange → List SequenceRange × List SequenceRange
  | _, _, [] => ([], [])
  | used, taken, front :: rest =>
    if taken && used + front.encodedSize > mtu then ([], front :: rest)
    else
      let (ranges, left) := popLoop mtu (used + front.encodedSize) true rest
      (front :: ranges, left)

/-- Pops ranges whose encoded size, plus `baseOverhead` bytes, fits the MTU; the first range is
popped in any case. -/
def popForMtu (q : AckQueue) (mtu baseOverhead : Nat) : List SequenceRange × AckQueue :=
  let (ranges, left) := popLoop mtu baseOverhead false q.queue
  (ranges, { q with queue := left })

theorem push_of_not_wraps (q : AckQueue) {range : SequenceRange} (h : range.wraps = false) :
    q.push range = q.pushPlain range := by
  unfold push pushPlain
  rw [show range.splitWrapping = none by simp [SequenceRange.splitWrapping, h]]

theorem splitWrapping_halves {range tail head : SequenceRange} (h : range.splitWrapping = some (tail, head)) :
    tail.wraps = false ∧ head.wraps = false := by
  unfold SequenceRange.splitWrapping at h
  split at h
  · cases h
  · simp only [Option.some.injEq, Prod.mk.injEq] at h
    obtain ⟨rfl, rfl⟩ := h
    have h1 := range.start.isLt
    refine ⟨decide_eq_false ?_, decide_eq_false ?_⟩
    · rintro ⟨-, hgt⟩
      simp only [Sequence24.value, Sequence24.val_new] at hgt; omega
    · rintro ⟨-, hgt⟩
      simp only [Sequence24.value, Sequence24.val_new] at hgt; omega

/-- The recursive equation of the source. -/
theorem push_eq (q : AckQueue) (range : SequenceRange) : q.push range =
    if q.queue.length ≥ q.maxRanges then q
    else
      match q.tryMerge range with
      | some merged => merged
      | none =>
        match range.splitWrapping with
        | some (tail, head) => (q.push tail).push head
        | none => q.pushBack range := by
  conv_lhs => unfold push
  cases hs : range.splitWrapping with
  | none => rfl
  | some halves =>
    obtain ⟨tail, head⟩ := halves
    obtain ⟨ht, hh⟩ := splitWrapping_halves hs
    simp only [push_of_not_wraps _ ht, push_of_not_wraps _ hh]

theorem popLoop_append (mtu : Nat) : ∀ (used : Nat) (taken : Bool) (q : List SequenceRange),
    (popLoop mtu used taken q).1 ++ (popLoop mtu used taken q).2 = q
  | _, _, [] => rfl
  | used, taken, front :: rest => by
    unfold popLoop
    split
    · rfl
    · simp only [List.cons_append, popLoop_append mtu _ true rest]

/-- `pop_for_mtu` takes a prefix of the queue and leaves the rest. -/
theorem popForMtu_append (q : AckQueue) (mtu baseOverhead : Nat) :
    (q.popForMtu mtu baseOverhead).1 ++ (q.popForMtu mtu baseOverhead).2.queue = q.queue :=
  popLoop_append mtu baseOverhead false q.queue

end AckQueue

end BedrockRs.Raknet

/-
The retransmission queue over whole runs: what every operation does to the tracked datagrams, to the
base of their slots and to the congestion window's byte counter, and the invariant `Tracked` of
every reachable session. From it: a tick resends exactly the tracked datagrams that are due, in
sequence order, and never holds one back for want of bandwidth.
-/
import BedrockRs.Raknet.Session.Frame
import Mathlib.Data.List.ReduceOption
import Mathlib.Data.List.TakeWhile

namespace BedrockRs.Raknet.Session

open Lib

variable {F : Type} [Float64 F]

/-! ## Slots -/

/-- The datagrams in the slots, without their times. -/
def tracked (s : Session F) : List (Option Datagram) := s.sentDatagrams.map (Option.map TrackedDatagram.datagram)

/-- Total size of the datagrams in the slots. -/
def bytesOf (slots : List (Option Datagram)) : Nat := (slots.reduceOption.map Datagram.size).sum

@[simp] theorem bytesOf_nil : bytesOf [] = 0 := rfl

@[simp] theorem bytesOf_none_cons (slots : List (Option Datagram)) : bytesOf (none :: slots) = bytesOf slots := rfl

@[simp] theorem bytesOf_some_cons (d : Datagram) (slots : List (Option Datagram)) :
    bytesOf (some d :: slots) = d.size + bytesOf slots := rfl

@[simp] theorem bytesOf_append (as bs : List (Option Datagram)) : bytesOf (as ++ bs) = bytesOf as + bytesOf bs := by
  simp [bytesOf, List.reduceOption_append]

@[simp] theorem bytesOf_replicate_none (n : Nat) : bytesOf (List.replicate n none) = 0 := by
  induction n with
  | zero => rfl
  | succ n ih => rw [List.replicate_succ, bytesOf_none_cons, ih]

/-- Every datagram has a size, so only empty slots count for nothing. -/
theorem bytesOf_eq_zero_iff : ∀ (slots : List (Option Datagram)), bytesOf slots = 0 ↔ ∀ slot ∈ slots, slot = none
  | [] => by simp
  | none :: slots => by simp [bytesOf_eq_zero_iff slots]
  | some d :: slots => by
    have := d.size_pos
    simp only [bytesOf_some_cons, List.mem_cons, forall_eq_or_imp, reduceCtorEq, false_and, iff_false]
    omega

theorem bytesOf_set : ∀ {slots : List (Option Datagram)} {i : Nat} {old : Option Datagram} (new : Option Datagram),
    slots[i]? = some old → bytesOf (slots.set i new) + bytesOf [old] = bytesOf slots + bytesOf [new]
  | [], i, old, new, h => by simp at h
  | slot :: slots, 0, old, new, h => by
    cases h
    have hcons : ∀ x : Option Datagram, bytesOf (x :: slots) = bytesOf [x] + bytesOf slots :=
      fun x => bytesOf_append [x] slots
    rw [List.set_cons_zero, hcons new, hcons slot]
    omega
  | slot :: slots, i + 1, old, new, h => by
    have hcons : ∀ xs, bytesOf (slot :: xs) = bytesOf [slot] + bytesOf xs := fun xs => bytesOf_append [slot] xs
    have hi : slots[i]? = some old := by simpa using h
    have ih := bytesOf_set new hi
    rw [List.set_cons_succ, hcons (slots.set i new), hcons slots]
    omega

/-! ## What the steps of the cleanup drop -/

theorem dropLeading_eq (timeout : Duration) (now : Instant) : ∀ (slots : List (Option TrackedDatagram))
    (base : Sequence24), ∃ dropped, slots = dropped ++ (dropLeading timeout now base slots).2 ∧
      (dropLeading timeout now base slots).1 = Sequence24.new (base.val + dropped.length)
  | [], base => ⟨[], rfl, by simp [dropLeading]⟩
  | none :: slots, base => by
    obtain ⟨dropped, h, hb⟩ := dropLeading_eq timeout now slots base.next
    refine ⟨none :: dropped, by rw [dropLeading, List.cons_append, ← h], ?_⟩
    rw [dropLeading, hb, Sequence24.next_add, List.length_cons]
  | some t :: slots, base => by
    unfold dropLeading
    split
    · obtain ⟨dropped, h, hb⟩ := dropLeading_eq timeout now slots base.next
      refine ⟨some t :: dropped, by rw [List.cons_append, ← h], ?_⟩
      rw [hb, Sequence24.next_add, List.length_cons]
    · exact ⟨[], rfl, by simp⟩

theorem evictExcess_eq (max : Nat) : ∀ (slots : List (Option TrackedDatagram)) (base : Sequence24),
    ∃ dropped, slots = dropped ++ (evictExcess max base slots).2 ∧
      (evictExcess max base slots).1 = Sequence24.new (base.val + dropped.length)
  | [], base => ⟨[], rfl, by simp [evictExcess]⟩
  | slot :: slots, base => by
    unfold evictExcess
    split
    · obtain ⟨dropped, h, hb⟩ := evictExcess_eq max slots base.next
      refine ⟨slot :: dropped, by rw [List.cons_append, ← h], ?_⟩
      rw [hb, Sequence24.next_add, List.length_cons]
    · exact ⟨[], rfl, by simp⟩

theorem trimTrailing_eq (slots : List (Option TrackedDatagram)) :
    ∃ n, slots = trimTrailing slots ++ List.replicate n none := by
  have h := List.takeWhile_append_dropWhile (p := Option.isNone) (l := slots.reverse)
  have hnone : slots.reverse.takeWhile Option.isNone =
      List.replicate (slots.reverse.takeWhile Option.isNone).length none := by
    refine List.eq_replicate_iff.2 ⟨rfl, fun slot hslot => ?_⟩
    exact Option.isNone_iff_eq_none.1 (List.mem_takeWhile_imp hslot)
  refine ⟨(slots.reverse.takeWhile Option.isNone).length, ?_⟩
  unfold trimTrailing
  rw [← List.reverse_replicate, ← List.reverse_append, ← hnone, h, List.reverse_reverse]

omit [Float64 F] in
/-- The cleanup drops slots at the front, moving the base along, and empty slots at the back. -/
theorem cleanSentDatagrams_eq (s : Session F) (now : Instant) : ∃ dropped n,
    s.tracked = dropped ++ (s.cleanSentDatagrams now).tracked ++ List.replicate n none ∧
    (s.cleanSentDatagrams now).sentDatagramsBase = Sequence24.new (s.sentDatagramsBase.val + dropped.length) := by
  obtain ⟨d1, h1, hb1⟩ := dropLeading_eq s.sentDatagramTimeout now s.sentDatagrams s.sentDatagramsBase
  obtain ⟨d2, h2, hb2⟩ := evictExcess_eq s.maxSentDatagrams
    (dropLeading s.sentDatagramTimeout now s.sentDatagramsBase s.sentDatagrams).2
    (dropLeading s.sentDatagramTimeout now s.sentDatagramsBase s.sentDatagrams).1
  obtain ⟨n, h3⟩ := trimTrailing_eq (evictExcess s.maxSentDatagrams
    (dropLeading s.sentDatagramTimeout now s.sentDatagramsBase s.sentDatagrams).1
    (dropLeading s.sentDatagramTimeout now s.sentDatagramsBase s.sentDatagrams).2).2
  refine ⟨(d1 ++ d2).map (Option.map TrackedDatagram.datagram), n, ?_, ?_⟩
  · show s.sentDatagrams.map _ = _ ++ (trimTrailing _).map _ ++ _
    conv_lhs => rw [h1, h2, h3]
    simp
  · show (evictExcess _ _ _).1 = _
    rw [hb2, hb1]
    apply Sequence24.ext
    simp only [Sequence24.val_new, List.length_map, List.length_append]
    omega

/-! ## What the other steps do to the slots -/

omit [Float64 F] in
theorem getElem?_tracked (s : Session F) (i : Nat) :
    s.tracked[i]? = (s.sentDatagrams[i]?).map (Option.map TrackedDatagram.datagram) :=
  List.getElem?_map

omit [Float64 F] in
theorem tracked_set (s : Session F) (i : Nat) (slot : Option TrackedDatagram) (w : SlidingWindow F) :
    ({ s with sentDatagrams := s.sentDatagrams.set i slot, sliding := w } : Session F).tracked =
      s.tracked.set i (slot.map TrackedDatagram.datagram) :=
  List.map_set

omit [Float64 F] in
/-- Writing new times into a slot changes nothing here. -/
theorem tracked_retime {s : Session F} {i : Nat} {t t' : TrackedDatagram} (w : SlidingWindow F)
    (h : s.sentDatagrams[i]? = some (some t)) (hd : t'.datagram = t.datagram) :
    ({ s with sentDatagrams := s.sentDatagrams.set i (some t'), sliding := w } : Session F).tracked = s.tracked := by
  have hi := (List.getElem?_eq_some_iff.1 h).1
  rw [tracked_set]
  apply List.ext_getElem?
  intro j
  rw [List.getElem?_set]
  split
  · rename_i hij
    subst hij
    rw [getElem?_tracked, h, tracked, List.length_map, if_pos hi, Option.map_some, hd]; rfl
  · rfl

/-- A sequence number that is not tracked, or its datagram removed from its slot and its size from
the byte counter. -/
theorem ackOne_cases (now : Instant) (s : Session F) (seq : Sequence24) :
    (ackOne now s seq = s ∧ ∀ d, s.tracked[s.sentDatagramsBase.distanceTo seq]? ≠ some (some d)) ∨
    ∃ d, s.tracked[s.sentDatagramsBase.distanceTo seq]? = some (some d) ∧
      (ackOne now s seq).tracked = s.tracked.set (s.sentDatagramsBase.distanceTo seq) none ∧
      (ackOne now s seq).sentDatagramsBase = s.sentDatagramsBase ∧
      (d.isData = true → (ackOne now s seq).sliding.unackedBytes =
        if s.sliding.unackedBytes - d.size < 0 then 0 else s.sliding.unackedBytes - d.size) := by
  unfold ackOne
  simp only
  split
  · rename_i t ht
    refine .inr ⟨t.datagram, by rw [getElem?_tracked, ht]; rfl, tracked_set s _ none _, rfl, fun hd => ?_⟩
    simp only [hd, if_true, SlidingWindow.unackedBytes_onAck]
  · rename_i hno
    refine .inl ⟨rfl, fun d hd => ?_⟩
    rw [getElem?_tracked] at hd
    cases hs : s.sentDatagrams[s.sentDatagramsBase.distanceTo seq]? with
    | none => rw [hs] at hd; cases hd
    | some slot =>
      cases slot with
      | none => rw [hs] at hd; cases hd
      | some t => exact hno t hs

/-- The parts of a session the retransmission queue is about: slots, base and byte counter. -/
def SameQueue (s s' : Session F) : Prop :=
  s'.tracked = s.tracked ∧ s'.sentDatagramsBase = s.sentDatagramsBase ∧
    s'.sliding.unackedBytes = s.sliding.unackedBytes

omit [Float64 F] in
theorem SameQueue.refl (s : Session F) : SameQueue s s := ⟨rfl, rfl, rfl⟩

omit [Float64 F] in
theorem SameQueue.trans {s s' s'' : Session F} (h : SameQueue s s') (h' : SameQueue s' s'') : SameQueue s s'' :=
  ⟨h'.1.trans h.1, h'.2.1.trans h.2.1, h'.2.2.trans h.2.2⟩

theorem nakOne_sameQueue (now : Instant) (s : Session F) (seq : Sequence24) : SameQueue s (nakOne now s seq) := by
  unfold nakOne
  simp only
  split
  · rename_i t ht
    split
    · exact ⟨tracked_retime _ ht rfl, rfl, SlidingWindow.unackedBytes_onNak _⟩
    · exact .refl s
  · exact .refl s

theorem processIncomingNaks_sameQueue (s : Session F) (now : Instant) : SameQueue s (s.processIncomingNaks now) := by
  have hfold : SameQueue s ((s.incomingNaks.flatMap SequenceRange.sequences).foldl (nakOne now) s) :=
    List.foldlRecOn _ _ (SameQueue.refl s) fun s' hs seq _ => hs.trans (nakOne_sameQueue now s' seq)
  rw [← SequenceRange.foldl_forEach] at hfold
  exact hfold

theorem resendOne_sameQueue (now : Instant) (s : Session F) (seq : Sequence24) :
    SameQueue s (resendOne now s seq).2 := by
  unfold resendOne
  simp only
  split
  · rename_i t ht
    exact ⟨tracked_retime s.sliding ht rfl, rfl, rfl⟩
  · exact .refl s

theorem resendLoop_sameQueue (now : Instant) : ∀ (seqs : List Sequence24) (s : Session F),
    SameQueue s (resendLoop now seqs s).2
  | [], s => .refl s
  | seq :: rest, s => (resendOne_sameQueue now s seq).trans (resendLoop_sameQueue now rest _)

theorem resendDue_sameQueue (s : Session F) (now : Instant) : SameQueue s (s.resendDue now).2 := by
  unfold resendDue resendDatagrams
  simp only
  split
  · refine (resendLoop_sameQueue now (s.collectResendableDatagrams now s.sliding.getRetransmissionBandwidth) s).trans ?_
    split
    · exact .refl _
    · exact ⟨rfl, rfl, SlidingWindow.unackedBytes_onResend _ _⟩
  · exact .refl s

/-- A tick changes the retransmission queue by its ACKs and the cleanup only. -/
theorem onTick_sameQueue (s : Session F) (now : Instant) (iter : IterOrder SplitEntries.Item) :
    SameQueue ((s.applyAcks now).cleanSentDatagrams now) (s.onTick now iter).2 := by
  have hnak := processIncomingNaks_sameQueue ((s.applyAcks now).cleanSentDatagrams now) now
  have hdue : SameQueue (s.beforeResends now iter) (s.afterResends now iter) := resendDue_sameQueue _ now
  obtain ⟨_, _, htick⟩ := s.onTick_state now iter
  rw [htick]
  exact hnak.trans ⟨hdue.1, hdue.2.1, hdue.2.2⟩

/-- What building a datagram does: nothing to the queue, or one more datagram tracked at the write
index. -/
theorem buildDataDatagram_cases (s : Session F) (now : Instant) :
    (SameQueue s (s.buildDataDatagram now).2 ∧
      ((s.buildDataDatagram now).2.datagramWriteIndex = s.datagramWriteIndex ∧ (s.buildDataDatagram now).1 = none ∨
       (s.buildDataDatagram now).2.datagramWriteIndex = s.datagramWriteIndex.next ∧
        ((s.buildDataDatagram now).1).isSome = true)) ∨
    ∃ d, (s.buildDataDatagram now).1 = some (.shared d) ∧ d.isData = true ∧ d.header.sequence = s.datagramWriteIndex ∧
      (s.buildDataDatagram now).2.datagramWriteIndex = s.datagramWriteIndex.next ∧
      (s.buildDataDatagram now).2.sentDatagramsBase = s.sentDatagramsBase ∧
      (s.buildDataDatagram now).2.sliding.unackedBytes = s.sliding.unackedBytes + d.size ∧
      (s.buildDataDatagram now).2.tracked = (s.tracked ++ List.replicate
        (s.sentDatagramsBase.distanceTo s.datagramWriteIndex + 1 - s.tracked.length) none).set
        (s.sentDatagramsBase.distanceTo s.datagramWriteIndex) (some d) := by
  unfold buildDataDatagram
  split
  · exact .inl ⟨.refl s, .inl ⟨rfl, rfl⟩⟩
  · simp only
    split
    · exact .inl ⟨.refl s, .inl ⟨rfl, rfl⟩⟩
    · split
      · exact .inl ⟨.refl s, .inl ⟨rfl, rfl⟩⟩
      · split
        · refine .inr ⟨_, rfl, rfl, rfl, rfl, rfl, rfl, ?_⟩
          simp only [trackSentDatagram, tracked, setTracked, List.map_set, List.map_append, List.map_replicate,
            List.length_map, Option.map_some, Option.map_none]
        · exact .inl ⟨.refl s, .inr ⟨rfl, rfl⟩⟩

/-! ## The invariant of the retransmission queue -/

/-- Slot `i` holds nothing, or the DATA datagram with the `i`-th sequence number from the base; the
byte counter covers all of them. -/
structure QueueInv (s : Session F) : Prop where
  length : s.tracked.length ≤ 2 ^ 24
  aligned : ∀ i d, s.tracked[i]? = some (some d) →
    d.isData = true ∧ d.header.sequence = Sequence24.new (s.sentDatagramsBase.val + i)
  bytes : (bytesOf s.tracked : Int) ≤ s.sliding.unackedBytes

omit [Float64 F] in
theorem QueueInv.of_same {s s' : Session F} (h : QueueInv s) (e : SameQueue s s') : QueueInv s' := by
  obtain ⟨e1, e2, e3⟩ := e
  exact ⟨e1 ▸ h.length, e1 ▸ e2 ▸ h.aligned, e1 ▸ e3 ▸ h.bytes⟩

theorem QueueInv.ackOne {s : Session F} (h : QueueInv s) (now : Instant) (seq : Sequence24) :
    QueueInv (Session.ackOne now s seq) := by
  obtain ⟨hs, -⟩ | ⟨d, hd, ht, hb, hu⟩ := ackOne_cases now s seq
  · rw [hs]; exact h
  · have hset := bytesOf_set none hd
    have hbytes := h.bytes
    simp only [bytesOf_some_cons, bytesOf_none_cons, bytesOf_nil] at hset
    refine ⟨by rw [ht, List.length_set]; exact h.length, fun i e he => ?_, ?_⟩
    · rw [ht, List.getElem?_set] at he
      rw [hb]
      split at he
      · split at he <;> cases he
      · exact h.aligned i e he
    · rw [hu (h.aligned _ d hd).1, ht]
      split <;> omega

theorem QueueInv.applyAcks {s : Session F} (h : QueueInv s) (now : Instant) : QueueInv (s.applyAcks now) := by
  have hfold : QueueInv ((s.incomingAcks.flatMap SequenceRange.sequences).foldl (Session.ackOne now) s) :=
    List.foldlRecOn _ _ h fun _ hs seq _ => hs.ackOne now seq
  rw [← SequenceRange.foldl_forEach] at hfold
  exact hfold.of_same ⟨rfl, rfl, rfl⟩

omit [Float64 F] in
theorem QueueInv.cleanSentDatagrams {s : Session F} (h : QueueInv s) (now : Instant) :
    QueueInv (s.cleanSentDatagrams now) := by
  obtain ⟨dropped, n, ht, hb⟩ := s.cleanSentDatagrams_eq now
  have hlen := h.length
  have hbytes : (bytesOf s.tracked : Int) ≤ (s.cleanSentDatagrams now).sliding.unackedBytes := h.bytes
  rw [ht] at hlen hbytes
  simp only [List.length_append] at hlen
  simp only [bytesOf_append, bytesOf_replicate_none] at hbytes
  refine ⟨by omega, fun i d hd => ?_, by omega⟩
  have hi : i < (s.cleanSentDatagrams now).tracked.length := (List.getElem?_eq_some_iff.1 hd).1
  have hslot : s.tracked[dropped.length + i]? = some (some d) := by
    rw [ht, List.append_assoc, List.getElem?_append_right (by omega), Nat.add_sub_cancel_left,
      List.getElem?_append_left hi, hd]
  obtain ⟨h1, h2⟩ := h.aligned _ d hslot
  refine ⟨h1, h2.trans ?_⟩
  rw [hb]
  apply Sequence24.ext
  simp only [Sequence24.val_new]
  omega

theorem QueueInv.buildDataDatagram {s : Session F} (h : QueueInv s) (now : Instant) :
    QueueInv (s.buildDataDatagram now).2 := by
  obtain ⟨hs, -⟩ | ⟨d, -, hdata, hseq, -, hb, hu, ht⟩ := s.buildDataDatagram_cases now
  · exact h.of_same hs
  · have hdist := Sequence24.distanceTo_lt s.sentDatagramsBase s.datagramWriteIndex
    have hlen := h.length
    have hbytes := h.bytes
    generalize hk : s.sentDatagramsBase.distanceTo s.datagramWriteIndex = k at ht hdist
    -- the queue grows with empty slots up to the number of the new datagram, then takes it in
    have hget : ∀ (i : Nat) e, (s.tracked ++ List.replicate (k + 1 - s.tracked.length) none)[i]? = some (some e) →
        s.tracked[i]? = some (some e) := by
      intro i e he
      rcases Nat.lt_or_ge i s.tracked.length with hi | hi
      · rwa [List.getElem?_append_left hi] at he
      · rw [List.getElem?_append_right hi, List.getElem?_replicate] at he
        split at he <;> cases he
    refine ⟨?_, fun i e he => ?_, ?_⟩
    · rw [ht]
      simp only [List.length_set, List.length_append, List.length_replicate]
      omega
    · rw [ht, List.getElem?_set] at he
      rw [hb]
      split at he
      · rename_i hki
        split at he
        · cases he
          rw [← hki, ← hk, Sequence24.new_add_distanceTo]
          exact ⟨hdata, hseq⟩
        · cases he
      · exact h.aligned i e (hget i e he)
    · rw [hu, ht]
      have hk' : k < (s.tracked ++ List.replicate (k + 1 - s.tracked.length) none).length := by
        simp only [List.length_append, List.length_replicate]; omega
      have hset := bytesOf_set (some d) (List.getElem?_eq_getElem hk')
      simp only [bytesOf_append, bytesOf_replicate_none, bytesOf_some_cons, bytesOf_nil] at hset
      omega

/-- Operations other than building and ticking leave the retransmission queue alone. -/
theorem step_queue (s : Session F) (op : Op) :
    (∃ now, op = .buildDataDatagram now) ∨ (∃ now iter, op = .onTick now iter) ∨
      (∀ now, op ≠ .buildDataDatagram now) ∧ (∀ now iter, op ≠ .onTick now iter) ∧
        SameQueue s (s.step op) ∧ (s.step op).datagramWriteIndex = s.datagramWriteIndex := by
  cases op with
  | buildDataDatagram now => exact .inl ⟨now, rfl⟩
  | onTick now iter => exact .inr (.inl ⟨now, iter, rfl⟩)
  | queuePacket pkt reliability channel priority =>
    refine .inr (.inr ⟨fun _ => by simp, fun _ _ => by simp, ?_⟩)
    obtain ⟨_, _, _, _, _, _, e⟩ := s.queuePacket_same pkt reliability channel priority
    rw [step, e]; exact ⟨⟨rfl, rfl, rfl⟩, rfl⟩
  | handleDataPayload packets now =>
    refine .inr (.inr ⟨fun _ => by simp, fun _ _ => by simp, ?_⟩)
    obtain ⟨_, _, _, _, _, e⟩ := handleDataPayload_same packets s now
    rw [step, e]; exact ⟨⟨rfl, rfl, rfl⟩, rfl⟩
  | processDatagramSequence seq =>
    refine .inr (.inr ⟨fun _ => by simp, fun _ _ => by simp, ?_⟩)
    obtain ⟨_, _, e⟩ := s.processDatagramSequence_frame seq
    rw [step, e]; exact ⟨⟨rfl, rfl, rfl⟩, rfl⟩
  | handleAckPayload payload =>
    exact .inr (.inr ⟨fun _ => by simp, fun _ _ => by simp, ⟨rfl, rfl, rfl⟩, rfl⟩)
  | handleNackPayload payload =>
    exact .inr (.inr ⟨fun _ => by simp, fun _ _ => by simp, ⟨rfl, rfl, rfl⟩, rfl⟩)

theorem QueueInv.step {s : Session F} (h : QueueInv s) (op : Op) : QueueInv (s.step op) := by
  rcases s.step_queue op with ⟨now, rfl⟩ | ⟨now, iter, rfl⟩ | ⟨-, -, hs, -⟩
  · exact h.buildDataDatagram now
  · exact ((h.applyAcks now).cleanSentDatagrams now).of_same (s.onTick_sameQueue now iter)
  · exact h.of_same hs

/-- The invariant holds after any sequence of operations. -/
theorem queueInv_after (mtu : Nat) (tunables : SessionTunables) (ops : List Op) :
    QueueInv (after mtu tunables ops : Session F) :=
  Machine.run_inv_all (fun _ op h => h.step op) ops
    ⟨Nat.zero_le _, fun i d hd => by simp [tracked, withTunables] at hd, le_refl _⟩

/-! ## Resends -/

/-- The datagram in a slot, if its next send is due. -/
def dueSlot (now : Instant) : Option TrackedDatagram → Option Datagram
  | none => none
  | some t => if t.nextSend ≤ now then some t.datagram else none

/-- The datagrams in `slots` that are due, in slot order. -/
def dueIn (now : Instant) (slots : List (Option TrackedDatagram)) : List Datagram := slots.filterMap (dueSlot now)

/-- The tracked datagrams of a session that are due, in slot order. -/
def due (s : Session F) (now : Instant) : List Datagram := dueIn now s.sentDatagrams

omit [Float64 F] in
/-- The datagram tracked under a sequence number. -/
def trackedAt (s : Session F) (seq : Sequence24) : Option Datagram :=
  (s.tracked[s.sentDatagramsBase.distanceTo seq]?).join

omit [Float64 F] in
theorem SameQueue.trackedAt {s s' : Session F} (h : SameQueue s s') : s'.trackedAt = s.trackedAt := by
  funext seq
  unfold Session.trackedAt
  rw [h.1, h.2.1]

theorem resendOne_out (now : Instant) (s : Session F) (seq : Sequence24) :
    (resendOne now s seq).1 = (s.trackedAt seq).map .shared := by
  unfold resendOne trackedAt
  rw [getElem?_tracked]
  simp only
  split
  · rename_i t ht
    rw [ht]; rfl
  · rename_i hno
    rcases hs : s.sentDatagrams[s.sentDatagramsBase.distanceTo seq]? with _ | _ | t
    · rfl
    · rfl
    · exact absurd hs (hno t)

theorem resendLoop_out (now : Instant) : ∀ (seqs : List Sequence24) (s : Session F),
    (resendLoop now seqs s).1 = (seqs.filterMap s.trackedAt).map .shared
  | [], s => rfl
  | seq :: rest, s => by
    unfold resendLoop
    simp only
    rw [resendLoop_out now rest, (resendOne_sameQueue now s seq).trackedAt, resendOne_out]
    cases h : s.trackedAt seq <;> simp [h]

omit [Float64 F] in
/-- With bandwidth for all slots, the collected sequence numbers lead back to the due datagrams. -/
theorem collectFrom_trackedAt (s : Session F) (now : Instant) (hlen : s.tracked.length ≤ 2 ^ 24) :
    ∀ (slots : List (Option TrackedDatagram)) (i bw : Nat), s.sentDatagrams.drop i = slots →
      bytesOf (slots.map (Option.map TrackedDatagram.datagram)) ≤ bw →
      (collectFrom s.sentDatagramsBase now i bw slots).filterMap s.trackedAt = dueIn now slots
  | [], i, bw, _, _ => rfl
  | none :: slots, i, bw, hd, hbw => by
    rw [collectFrom, collectFrom_trackedAt s now hlen slots (i + 1) bw (by rw [← List.drop_drop, hd]; rfl) hbw]
    rfl
  | some t :: slots, i, bw, hd, hbw => by
    have hdrop : s.sentDatagrams.drop (i + 1) = slots := by rw [← List.drop_drop, hd]; rfl
    have hslot : s.sentDatagrams[i]? = some (some t) := by
      have h0 := congrArg (·[0]?) hd
      simpa using h0
    have hi : i < 2 ^ 24 := by
      have := (List.getElem?_eq_some_iff.1 hslot).1
      rw [tracked, List.length_map] at hlen
      omega
    simp only [List.map_cons, Option.map_some, bytesOf_some_cons] at hbw
    unfold collectFrom
    by_cases hdue : t.nextSend ≤ now
    · rw [if_pos ⟨hdue, by omega⟩, List.filterMap_cons,
        collectFrom_trackedAt s now hlen slots (i + 1) _ hdrop (by omega), Sequence24.addI32_nat, trackedAt,
        Sequence24.distanceTo_new_add _ hi, getElem?_tracked, hslot]
      simp [dueIn, dueSlot, hdue]
    · rw [if_neg (fun h => hdue h.1), collectFrom_trackedAt s now hlen slots (i + 1) bw hdrop (by omega)]
      simp [dueIn, dueSlot, hdue]

/-- The resends are the due datagrams: either the bandwidth covers them, or there are none. -/
theorem resendDue_out {s : Session F} (h : QueueInv s) (now : Instant) :
    (s.resendDue now).1 = (s.due now).map .shared := by
  unfold resendDue due
  simp only
  have hbytes := h.bytes
  split
  · have hbw : bytesOf s.tracked ≤ s.sliding.getRetransmissionBandwidth := by
      unfold SlidingWindow.getRetransmissionBandwidth; omega
    show (resendLoop now _ s).1 = _
    rw [resendLoop_out, collectResendableDatagrams,
      collectFrom_trackedAt s now h.length s.sentDatagrams 0 _ rfl hbw]
  · rename_i hbw
    have hzero : bytesOf s.tracked = 0 := by
      unfold SlidingWindow.getRetransmissionBandwidth at hbw; omega
    have hnone : ∀ slot ∈ s.sentDatagrams, slot = none := fun slot hslot =>
      Option.map_eq_none_iff.1 ((bytesOf_eq_zero_iff _).1 hzero _ (List.mem_map_of_mem hslot))
    have hdue : dueIn now s.sentDatagrams = [] := by
      refine List.filterMap_eq_nil_iff.2 fun slot hslot => ?_
      rw [hnone slot hslot]; rfl
    rw [hdue]; rfl

omit [Float64 F] in
/-- Due datagrams are DATA datagrams, in the order of their sequence numbers from the base. -/
theorem due_sorted {s : Session F} (h : QueueInv s) (now : Instant) :
    (∀ d ∈ s.due now, d.isData = true) ∧ (s.due now).Pairwise fun a b =>
      s.sentDatagramsBase.distanceTo a.header.sequence < s.sentDatagramsBase.distanceTo b.header.sequence := by
  have hslot : ∀ (i : Nat) (slot : Option TrackedDatagram) (d : Datagram), s.sentDatagrams[i]? = some slot →
      dueSlot now slot = some d →
      d.isData = true ∧ s.sentDatagramsBase.distanceTo d.header.sequence = i := by
    intro i slot d hi hd
    cases slot with
    | none => cases hd
    | some t =>
      obtain rfl : t.datagram = d := Option.some.inj (Option.ite_none_right_eq_some.1 hd).2
      obtain ⟨hdata, hseq⟩ := h.aligned i t.datagram (by rw [getElem?_tracked, hi]; rfl)
      have hlen := h.length
      have hlt := (List.getElem?_eq_some_iff.1 hi).1
      rw [tracked, List.length_map] at hlen
      rw [hseq, Sequence24.distanceTo_new_add _ (by omega)]
      exact ⟨hdata, rfl⟩
  refine ⟨fun d hd => ?_, ?_⟩
  · obtain ⟨slot, hmem, hd⟩ := List.mem_filterMap.1 hd
    obtain ⟨i, hi⟩ := List.mem_iff_getElem?.1 hmem
    exact (hslot i slot d hi hd).1
  · rw [due, dueIn, List.pairwise_filterMap, List.pairwise_iff_getElem]
    intro i j hi hj hij x hx y hy
    rw [(hslot i _ x (List.getElem?_eq_getElem hi) hx).2, (hslot j _ y (List.getElem?_eq_getElem hj) hy).2]
    exact hij

omit [Float64 F] in
theorem buildAckDatagram_notData (s : Session F) : ∀ o ∈ s.buildAckDatagram.1, o.asRef.isData = false := by
  unfold buildAckDatagram
  simp only
  split
  · simp
  · rintro o ⟨⟩; rfl

omit [Float64 F] in
theorem buildNakDatagram_notData (s : Session F) : ∀ o ∈ s.buildNakDatagram.1, o.asRef.isData = false := by
  unfold buildNakDatagram
  simp only
  split
  · simp
  · rintro o ⟨⟩; rfl

theorem QueueInv.processIncomingAcksNaks {s : Session F} (h : QueueInv s) (now : Instant) :
    QueueInv (s.processIncomingAcksNaks now) :=
  ((h.applyAcks now).cleanSentDatagrams now).of_same (processIncomingNaks_sameQueue _ now)

theorem QueueInv.beforeResends {s : Session F} (h : QueueInv s) (now : Instant) (iter : IterOrder SplitEntries.Item) :
    QueueInv (s.beforeResends now iter) :=
  (h.processIncomingAcksNaks now).of_same ⟨rfl, rfl, rfl⟩

/-- What a tick puts out besides DATA datagrams is the ACK or the NAK datagram it builds. -/
theorem onTick_control {s : Session F} (hq : QueueInv s) {now : Instant} {iter : IterOrder SplitEntries.Item}
    {o : OutgoingDatagram} (ho : o ∈ (s.onTick now iter).1) (hcontrol : o.asRef.isData = false) :
    o ∈ (s.afterResends now iter).buildAckDatagram.1 ∨
      o ∈ (s.afterResends now iter).buildAckDatagram.2.buildNakDatagram.1 := by
  rw [onTick_eq, List.mem_append, List.mem_append, Option.mem_toList, Option.mem_toList] at ho
  rcases ho with (hres | hack) | hnak
  · rw [resendDue_out (hq.beforeResends now iter) now] at hres
    obtain ⟨d, hd, rfl⟩ := List.mem_map.1 hres
    have hdata := (due_sorted (hq.beforeResends now iter) now).1 d hd
    exact absurd (hdata.symm.trans hcontrol) (by decide)
  · exact .inl hack
  · exact .inr hnak

/-- Retransmission is complete and exact. In every reachable state and at every time, the DATA
datagrams a tick puts out are those still tracked after its ACKs and the cleanup whose next send,
after its NAKs, is due; each once, in sequence order. -/
theorem onTick_resends_due (mtu : Nat) (tunables : SessionTunables) (ops : List Op) (now : Instant)
    (iter : IterOrder SplitEntries.Item) :
    let s : Session F := after mtu tunables ops
    ((s.onTick now iter).1.map OutgoingDatagram.asRef).filter Datagram.isData =
      (s.processIncomingAcksNaks now).due now ∧
    ((s.processIncomingAcksNaks now).due now).Pairwise fun a b =>
      (s.processIncomingAcksNaks now).sentDatagramsBase.distanceTo a.header.sequence <
        (s.processIncomingAcksNaks now).sentDatagramsBase.distanceTo b.header.sequence := by
  intro s
  have hinv : QueueInv s := queueInv_after mtu tunables ops
  obtain ⟨hdata, hsorted⟩ := due_sorted (hinv.processIncomingAcksNaks now) now
  refine ⟨?_, hsorted⟩
  have hmap : ((s.processIncomingAcksNaks now).due now).map (OutgoingDatagram.asRef ∘ .shared) =
      (s.processIncomingAcksNaks now).due now := List.map_id _
  have hack : ∀ d ∈ (s.afterResends now iter).buildAckDatagram.1.toList.map OutgoingDatagram.asRef,
      ¬ d.isData = true := by
    simp only [List.mem_map, Option.mem_toList]
    rintro d ⟨o, ho, rfl⟩
    simp [buildAckDatagram_notData _ o ho]
  have hnak : ∀ d ∈ (s.afterResends now iter).buildAckDatagram.2.buildNakDatagram.1.toList.map OutgoingDatagram.asRef,
      ¬ d.isData = true := by
    simp only [List.mem_map, Option.mem_toList]
    rintro d ⟨o, ho, rfl⟩
    simp [buildNakDatagram_notData _ o ho]
  -- pruning the splits does not touch what is due
  have hdue : (s.beforeResends now iter).due now = (s.processIncomingAcksNaks now).due now := rfl
  rw [onTick_eq, resendDue_out (hinv.beforeResends now iter) now, hdue, List.map_append, List.map_append, List.map_map,
    hmap, List.filter_append, List.filter_append, List.filter_eq_self.2 hdata, List.filter_eq_nil_iff.2 hack,
    List.filter_eq_nil_iff.2 hnak, List.append_nil, List.append_nil]

end BedrockRs.Raknet.Session

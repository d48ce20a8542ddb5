/-
The byte counter of the congestion window against the datagrams still tracked. ACKs take a datagram
out of its slot and out of the counter. The cleanup of a tick drops timed-out and evicted datagrams
without telling the counter, so the two agree exactly as long as no tick drops an occupied slot.
-/
import BedrockRs.Raknet.Session.Tracked

namespace BedrockRs.Raknet.Session

open Lib

variable {F : Type} [Float64 F]

/-- The byte counter is the total size of the tracked datagrams. -/
def Accounted (s : Session F) : Prop := s.sliding.unackedBytes = bytesOf s.tracked

omit [Float64 F] in
theorem Accounted.of_same {s s' : Session F} (e : SameQueue s s') : Accounted s' ↔ Accounted s := by
  obtain ⟨e1, e2, e3⟩ := e
  unfold Accounted
  rw [e1, e3]

/-! ## Acknowledged slots -/

omit [Float64 F] in
/-- Whether the ACK ranges queued for the next tick enumerate the sequence number of slot `i`. -/
def isAcked (s : Session F) (i : Nat) : Bool :=
  (s.incomingAcks.flatMap SequenceRange.sequences).contains (Sequence24.new (s.sentDatagramsBase.val + i))

omit [Float64 F] in
/-- The slots with the acknowledged ones emptied. -/
def survivors (s : Session F) : List (Option TrackedDatagram) :=
  s.sentDatagrams.mapIdx fun i slot => if s.isAcked i then none else slot

theorem ackOne_base (now : Instant) (s : Session F) (seq : Sequence24) :
    (ackOne now s seq).sentDatagramsBase = s.sentDatagramsBase := by
  unfold ackOne
  simp only
  split <;> rfl

theorem length_ackOne (now : Instant) (s : Session F) (seq : Sequence24) :
    (ackOne now s seq).sentDatagrams.length = s.sentDatagrams.length := by
  unfold ackOne
  simp only
  split <;> simp

theorem applyAcks_base (now : Instant) (s : Session F) :
    (s.applyAcks now).sentDatagramsBase = s.sentDatagramsBase := by
  have hfold : ((s.incomingAcks.flatMap SequenceRange.sequences).foldl (ackOne now) s).sentDatagramsBase =
      s.sentDatagramsBase :=
    List.foldlRecOn (motive := fun s' : Session F => s'.sentDatagramsBase = s.sentDatagramsBase) _ _ rfl
      fun s' hs seq _ => (ackOne_base now s' seq).trans hs
  rw [← SequenceRange.foldl_forEach] at hfold
  exact hfold

theorem ackOne_slots (now : Instant) (s : Session F) (seq : Sequence24) (hlen : s.sentDatagrams.length ≤ 2 ^ 24)
    (i : Nat) : (ackOne now s seq).sentDatagrams[i]? = (s.sentDatagrams[i]?).map fun slot =>
      if Sequence24.new (s.sentDatagramsBase.val + i) = seq then none else slot := by
  -- a slot's number and its distance from the base determine each other below a turn
  have hdist : ∀ slot, s.sentDatagrams[i]? = some slot →
      (Sequence24.new (s.sentDatagramsBase.val + i) = seq ↔ s.sentDatagramsBase.distanceTo seq = i) := by
    intro slot hi
    have := (List.getElem?_eq_some_iff.1 hi).1
    constructor
    · rintro rfl; exact Sequence24.distanceTo_new_add _ (by omega)
    · rintro rfl; exact Sequence24.new_add_distanceTo _ _
  cases hi : s.sentDatagrams[i]? with
  | none =>
    rw [Option.map_none, List.getElem?_eq_none_iff, length_ackOne]
    exact List.getElem?_eq_none_iff.1 hi
  | some slot =>
    unfold ackOne
    simp only
    split
    · rename_i t ht
      simp only [List.getElem?_set, Option.map_some]
      split
      · rename_i hk
        rw [if_pos ((hdist slot hi).2 hk), if_pos (List.getElem?_eq_some_iff.1 ht).1]
      · rename_i hk
        rw [if_neg (fun h => hk ((hdist slot hi).1 h)), hi]
    · rename_i hno
      rw [hi, Option.map_some]
      split
      · rename_i hk
        cases slot with
        | none => rfl
        | some t => exact absurd ((hdist _ hi).1 hk ▸ hi) (hno t)
      · rfl

theorem applyAcks_slots (now : Instant) (s : Session F) (hlen : s.sentDatagrams.length ≤ 2 ^ 24) :
    (s.applyAcks now).sentDatagrams = s.survivors := by
  have fold : ∀ (seqs : List Sequence24) (s : Session F), s.sentDatagrams.length ≤ 2 ^ 24 → ∀ i : Nat,
      (seqs.foldl (ackOne now) s).sentDatagrams[i]? = (s.sentDatagrams[i]?).map fun slot =>
        if seqs.contains (Sequence24.new (s.sentDatagramsBase.val + i)) then none else slot := by
    intro seqs
    induction seqs with
    | nil => intro s _ i; simp
    | cons seq seqs ih =>
      intro s hlen i
      rw [List.foldl_cons, ih _ ((length_ackOne now s seq).trans_le hlen), ackOne_slots now s seq hlen, ackOne_base,
        Option.map_map]
      congr
      funext slot
      simp only [Function.comp, List.contains_cons, Bool.or_eq_true, beq_iff_eq]
      by_cases h1 : Sequence24.new (s.sentDatagramsBase.val + i) = seq
      · simp [h1]
      · simp [h1]
  apply List.ext_getElem?
  intro i
  unfold survivors
  rw [List.getElem?_mapIdx]
  have := fold (s.incomingAcks.flatMap SequenceRange.sequences) s hlen i
  rw [← SequenceRange.foldl_forEach] at this
  exact this

omit [Float64 F] in
/-- The session with `acks` as the queued ACK ranges. -/
def withAcks (s : Session F) (acks : List SequenceRange) : Session F := { s with incomingAcks := acks }

omit [Float64 F] in
theorem QueueInv.withAcks {s : Session F} (h : QueueInv s) (acks : List SequenceRange) : QueueInv (s.withAcks acks) :=
  h.of_same ⟨rfl, rfl, rfl⟩

omit [Float64 F] in
theorem QueueInv.sequence {s : Session F} (h : QueueInv s) {i : Nat} {t : TrackedDatagram}
    (ht : s.sentDatagrams[i]? = some (some t)) :
    t.datagram.header.sequence = Sequence24.new (s.sentDatagramsBase.val + i) := by
  apply (h.aligned i t.datagram _).2
  rw [getElem?_tracked, ht]
  rfl

/-- The ACK step empties the slots of the datagrams whose sequence number a range enumerates. -/
theorem QueueInv.applyAcks_slots {s : Session F} (h : QueueInv s) (now : Instant) :
    (s.applyAcks now).sentDatagrams = s.sentDatagrams.map fun slot =>
      slot.filter fun t => decide (∀ r ∈ s.incomingAcks, t.datagram.header.sequence ∉ r.sequences) := by
  have hlen : s.sentDatagrams.length ≤ 2 ^ 24 := by simpa [tracked] using h.length
  rw [Session.applyAcks_slots now s hlen]
  apply List.ext_getElem?
  intro i
  rw [survivors, List.getElem?_mapIdx, List.getElem?_map]
  cases hslot : s.sentDatagrams[i]? with
  | none => rfl
  | some slot =>
    cases slot with
    | none => simp
    | some t =>
      have hacked : s.isAcked i = true ↔ ∃ r ∈ s.incomingAcks, t.datagram.header.sequence ∈ r.sequences := by
        rw [isAcked, ← h.sequence hslot]
        simp
      by_cases hex : ∃ r ∈ s.incomingAcks, t.datagram.header.sequence ∈ r.sequences
      · simp [Option.filter, hacked.2 hex, hex]
      · have hnot : s.isAcked i = false := by simpa using mt hacked.1 hex
        push Not at hex
        simp only [Option.map_some, hnot, Bool.false_eq_true, if_false, Option.filter, decide_eq_true hex, if_true]

/-- Every tracked datagram of a reachable session stands in the slot of its sequence number, and
applying ACK ranges, whatever they are, empties exactly the slots of the datagrams whose sequence
number some range enumerates. -/
theorem applyAcks_exact (mtu : Nat) (tunables : SessionTunables) (ops : List Op) :
    (∀ i t, (after mtu tunables ops : Session F).sentDatagrams[i]? = some (some t) →
      t.datagram.header.sequence =
        Sequence24.new ((after mtu tunables ops : Session F).sentDatagramsBase.val + i)) ∧
    ∀ (acks : List SequenceRange) (now : Instant),
      (((after mtu tunables ops : Session F).withAcks acks).applyAcks now).sentDatagramsBase =
        (after mtu tunables ops : Session F).sentDatagramsBase ∧
      (((after mtu tunables ops : Session F).withAcks acks).applyAcks now).sentDatagrams =
        (after mtu tunables ops : Session F).sentDatagrams.map fun slot =>
          slot.filter fun t => decide (∀ r ∈ acks, t.datagram.header.sequence ∉ r.sequences) := by
  have hq : QueueInv (after mtu tunables ops : Session F) := queueInv_after mtu tunables ops
  constructor
  · exact fun i t ht => hq.sequence ht
  · exact fun acks now => ⟨applyAcks_base now _, (hq.withAcks acks).applyAcks_slots now⟩

/-- As long as the counter agrees, an ACK never takes it below zero. -/
theorem Accounted.ackOne {s : Session F} (hq : QueueInv s) (h : Accounted s) (now : Instant) (seq : Sequence24) :
    Accounted (Session.ackOne now s seq) := by
  obtain ⟨hs, -⟩ | ⟨d, hd, ht, -, hu⟩ := ackOne_cases now s seq
  · rw [hs]; exact h
  · have hset := bytesOf_set none hd
    simp only [bytesOf_some_cons, bytesOf_none_cons, bytesOf_nil] at hset
    unfold Accounted at h ⊢
    rw [hu (hq.aligned _ d hd).1, ht]
    split <;> omega

theorem Accounted.applyAcks {s : Session F} (hq : QueueInv s) (h : Accounted s) (now : Instant) :
    Accounted (s.applyAcks now) := by
  have hfold : QueueInv ((s.incomingAcks.flatMap SequenceRange.sequences).foldl (Session.ackOne now) s) ∧
      Accounted ((s.incomingAcks.flatMap SequenceRange.sequences).foldl (Session.ackOne now) s) :=
    List.foldlRecOn (motive := fun s => QueueInv s ∧ Accounted s) _ _ ⟨hq, h⟩
      fun _ hs seq _ => ⟨hs.1.ackOne now seq, hs.2.ackOne hs.1 now seq⟩
  rw [← SequenceRange.foldl_forEach] at hfold
  exact hfold.2

/-! ## The cleanup -/

/-- No occupied slot is dropped: the first one, if any, has not timed out, and from it on there are
at most `max` slots. -/
def Keeps (timeout : Duration) (max : Nat) (now : Instant) (slots : List (Option TrackedDatagram)) : Prop :=
  ∀ t rest, slots.dropWhile Option.isNone = some t :: rest →
    Instant.durationSince now t.sendTime ≤ timeout ∧ rest.length + 1 ≤ max

/-- Total size of the datagrams in the slots, with their times. -/
def slotBytes (slots : List (Option TrackedDatagram)) : Nat :=
  bytesOf (slots.map (Option.map TrackedDatagram.datagram))

@[simp] theorem slotBytes_none_cons (slots : List (Option TrackedDatagram)) :
    slotBytes (none :: slots) = slotBytes slots := rfl

@[simp] theorem slotBytes_some_cons (t : TrackedDatagram) (slots : List (Option TrackedDatagram)) :
    slotBytes (some t :: slots) = t.datagram.size + slotBytes slots := rfl

theorem slotBytes_suffix {slots rest : List (Option TrackedDatagram)} (h : rest <:+ slots) :
    slotBytes rest ≤ slotBytes slots := by
  obtain ⟨dropped, rfl⟩ := h
  unfold slotBytes
  rw [List.map_append, bytesOf_append]
  omega

theorem dropLeading_suffix (timeout : Duration) (now : Instant) (base : Sequence24)
    (slots : List (Option TrackedDatagram)) : (dropLeading timeout now base slots).2 <:+ slots := by
  obtain ⟨dropped, h, -⟩ := dropLeading_eq timeout now slots base
  exact ⟨dropped, h.symm⟩

theorem evictExcess_suffix (max : Nat) (base : Sequence24) (slots : List (Option TrackedDatagram)) :
    (evictExcess max base slots).2 <:+ slots := by
  obtain ⟨dropped, h, -⟩ := evictExcess_eq max slots base
  exact ⟨dropped, h.symm⟩

theorem slotBytes_trimTrailing (slots : List (Option TrackedDatagram)) :
    slotBytes (trimTrailing slots) = slotBytes slots := by
  obtain ⟨n, h⟩ := trimTrailing_eq slots
  conv_rhs => rw [h]
  simp [slotBytes]

/-- The two dropping steps of the cleanup keep all bytes exactly when they drop no occupied slot. -/
theorem slotBytes_dropped_iff (timeout : Duration) (max : Nat) (now : Instant) :
    ∀ (slots : List (Option TrackedDatagram)) (base : Sequence24),
      slotBytes (evictExcess max (dropLeading timeout now base slots).1 (dropLeading timeout now base slots).2).2 =
        slotBytes slots ↔ Keeps timeout max now slots
  | [], base => by simp [dropLeading, evictExcess, Keeps]
  | none :: slots, base => by
    rw [dropLeading, slotBytes_none_cons, slotBytes_dropped_iff timeout max now slots base.next]
    simp [Keeps]
  | some t :: slots, base => by
    have hkeeps : Keeps timeout max now (some t :: slots) ↔
        Instant.durationSince now t.sendTime ≤ timeout ∧ slots.length + 1 ≤ max := by
      simp [Keeps]
    -- what is left of the slots after `t` weighs less than the slots from `t` on
    have hless : ∀ rest, rest <:+ slots → slotBytes rest ≠ slotBytes (some t :: slots) := by
      intro rest hrest
      have := slotBytes_suffix hrest
      have := t.datagram.size_pos
      rw [slotBytes_some_cons]
      omega
    rw [hkeeps]
    unfold dropLeading
    split
    · rename_i hout
      refine iff_of_false (hless _ ((evictExcess_suffix _ _ _).trans (dropLeading_suffix _ _ _ _))) ?_
      rintro ⟨hin, -⟩
      exact absurd hin (Nat.not_le.2 hout)
    · rename_i hout
      simp only
      unfold evictExcess
      split
      · rename_i hlong
        refine iff_of_false (hless _ (evictExcess_suffix _ _ _)) ?_
        rintro ⟨-, hshort⟩
        omega
      · rename_i hshort
        exact iff_of_true rfl ⟨Nat.le_of_not_lt hout, by omega⟩

omit [Float64 F] in
theorem accounted_cleanSentDatagrams_iff {s : Session F} (h : Accounted s) (now : Instant) :
    Accounted (s.cleanSentDatagrams now) ↔ Keeps s.sentDatagramTimeout s.maxSentDatagrams now s.sentDatagrams := by
  rw [← slotBytes_dropped_iff _ _ _ s.sentDatagrams s.sentDatagramsBase, ← slotBytes_trimTrailing]
  have hs : s.sliding.unackedBytes = slotBytes s.sentDatagrams := h
  show s.sliding.unackedBytes = slotBytes _ ↔ _
  rw [hs]
  constructor
  · intro e; exact (Int.ofNat.inj e).symm
  · intro e; exact congrArg Int.ofNat e.symm

/-! ## Fresh slots -/

/-- The DATA datagram an operation builds, if any. -/
def built (s : Session F) : Op → Option OutgoingDatagram
  | .buildDataDatagram now => (s.buildDataDatagram now).1
  | _ => none

/-- The DATA datagrams a run builds. -/
def builtDatagrams (s : Session F) : List Op → List OutgoingDatagram
  | [] => []
  | op :: ops => (s.built op).toList ++ builtDatagrams (s.step op) ops

/-- After `n` datagrams the write index is `n`, and the slots end at or before it. -/
structure WriteInv (n : Nat) (s : Session F) : Prop where
  write : s.datagramWriteIndex.val = n
  behind : s.sentDatagramsBase.val + s.tracked.length ≤ n

omit [Float64 F] in
theorem WriteInv.of_same {n : Nat} {s s' : Session F} (h : WriteInv n s) (e : SameQueue s s')
    (hw : s'.datagramWriteIndex = s.datagramWriteIndex) : WriteInv n s' := by
  obtain ⟨e1, e2, e3⟩ := e
  exact ⟨hw ▸ h.write, e1 ▸ e2 ▸ h.behind⟩

theorem WriteInv.onTick {n : Nat} {s : Session F} (hq : QueueInv s) (h : WriteInv n s) (now : Instant)
    (iter : IterOrder SplitEntries.Item) : WriteInv n (s.onTick now iter).2 := by
  have hlen : (s.applyAcks now).tracked.length = s.tracked.length := by
    have hl := hq.length
    rw [tracked, List.length_map] at hl
    rw [tracked, tracked, applyAcks_slots now s hl, survivors]
    simp
  obtain ⟨dropped, m, ht, hb⟩ := (s.applyAcks now).cleanSentDatagrams_eq now
  obtain ⟨e1, e2, -⟩ := s.onTick_sameQueue now iter
  have hwrite : (s.onTick now iter).2.datagramWriteIndex = s.datagramWriteIndex := by
    obtain ⟨_, _, htick⟩ := s.onTick_state now iter
    obtain ⟨_, _, _, hafter⟩ := s.afterResends_frame now iter
    rw [htick, hafter]; rfl
  refine ⟨hwrite ▸ h.write, ?_⟩
  have hbehind := h.behind
  have hn : n < 2 ^ 24 := h.write ▸ s.datagramWriteIndex.isLt
  have hlens := congrArg List.length ht
  simp only [List.length_append, List.length_replicate] at hlens
  rw [e1, e2, hb, applyAcks_base, Sequence24.val_new]
  omega

omit [Float64 F] in
/-- The slot a new datagram goes to lies behind all slots. -/
theorem WriteInv.distance {n : Nat} {s : Session F} (h : WriteInv n s) :
    s.tracked.length ≤ s.sentDatagramsBase.distanceTo s.datagramWriteIndex ∧
      s.sentDatagramsBase.val + s.sentDatagramsBase.distanceTo s.datagramWriteIndex = n := by
  have hb := h.behind
  have hw := h.write
  unfold Sequence24.distanceTo
  rw [if_pos (by omega)]
  omega

theorem WriteInv.buildDataDatagram {n : Nat} {s : Session F} (h : WriteInv n s) (now : Instant)
    (hn : n + ((s.buildDataDatagram now).1.toList).length < 2 ^ 24) :
    WriteInv (n + ((s.buildDataDatagram now).1.toList).length) (s.buildDataDatagram now).2 := by
  have hbehind := h.behind
  have hwrite := h.write
  obtain ⟨hs, ⟨hw, ho⟩ | ⟨hw, ho⟩⟩ | ⟨d, ho, -, -, hw, hb, -, ht⟩ := s.buildDataDatagram_cases now
  · rw [ho]; exact h.of_same hs hw
  · obtain ⟨o, ho⟩ := Option.isSome_iff_exists.1 ho
    rw [ho, Option.toList_some, List.length_singleton] at hn ⊢
    refine ⟨?_, ?_⟩
    · rw [hw, Sequence24.val_next_of_lt (by omega), hwrite]
    · rw [hs.1, hs.2.1]; omega
  · obtain ⟨hk, hkn⟩ := h.distance
    rw [ho, Option.toList_some, List.length_singleton] at hn ⊢
    refine ⟨?_, ?_⟩
    · rw [hw, Sequence24.val_next_of_lt (by omega), hwrite]
    · rw [ht, hb, List.length_set, List.length_append, List.length_replicate]; omega

theorem Accounted.buildDataDatagram {n : Nat} {s : Session F} (hw : WriteInv n s) (h : Accounted s) (now : Instant) :
    Accounted (s.buildDataDatagram now).2 := by
  obtain ⟨hs, -⟩ | ⟨d, -, -, -, -, -, hu, ht⟩ := s.buildDataDatagram_cases now
  · exact (Accounted.of_same hs).2 h
  · obtain ⟨hk, -⟩ := hw.distance
    unfold Accounted at h ⊢
    have hslot : (s.tracked ++ List.replicate (s.sentDatagramsBase.distanceTo s.datagramWriteIndex + 1 -
        s.tracked.length) none)[s.sentDatagramsBase.distanceTo s.datagramWriteIndex]? = some none := by
      rw [List.getElem?_append_right hk, List.getElem?_replicate, if_pos (by omega)]
    have hset := bytesOf_set (some d) hslot
    simp only [bytesOf_append, bytesOf_replicate_none, bytesOf_some_cons, bytesOf_none_cons, bytesOf_nil] at hset
    rw [hu, ht, h]
    omega

/-! ## Runs -/

/-- The condition on a step: a tick drops no occupied slot, once the slots that the queued ACKs name
are empty. -/
def KeepsTracked (s : Session F) : Op → Prop
  | .onTick now _ => Keeps s.sentDatagramTimeout s.maxSentDatagrams now s.survivors
  | _ => True

theorem accounted_onTick_iff {s : Session F} (hq : QueueInv s) (h : Accounted s) (now : Instant)
    (iter : IterOrder SplitEntries.Item) :
    Accounted (s.onTick now iter).2 ↔ Keeps s.sentDatagramTimeout s.maxSentDatagrams now s.survivors := by
  have hl := hq.length
  rw [tracked, List.length_map] at hl
  obtain ⟨_, _, _, hframe⟩ := forEachRange_same (ackOne_same now) s.incomingAcks s
  have hmax : (s.applyAcks now).sentDatagramTimeout = s.sentDatagramTimeout ∧
      (s.applyAcks now).maxSentDatagrams = s.maxSentDatagrams := by
    unfold applyAcks
    rw [hframe]
    exact ⟨rfl, rfl⟩
  rw [Accounted.of_same (s.onTick_sameQueue now iter), accounted_cleanSentDatagrams_iff (h.applyAcks hq now),
    applyAcks_slots now s hl, hmax.1, hmax.2]

theorem WriteInv.step {n : Nat} {s : Session F} (hq : QueueInv s) (h : WriteInv n s) (op : Op)
    (hn : n + (s.built op).toList.length < 2 ^ 24) : WriteInv (n + (s.built op).toList.length) (s.step op) := by
  rcases s.step_queue op with ⟨now, rfl⟩ | ⟨now, iter, rfl⟩ | ⟨hb, -, hs, hw⟩
  · exact h.buildDataDatagram now hn
  · exact h.onTick hq now iter
  · have hnone : s.built op = none := by
      cases op <;> first | rfl | exact absurd rfl (hb _)
    rw [hnone]; exact h.of_same hs hw

theorem accounted_step_iff {n : Nat} {s : Session F} (hq : QueueInv s) (hw : WriteInv n s) (h : Accounted s) (op : Op) :
    Accounted (s.step op) ↔ KeepsTracked s op := by
  rcases s.step_queue op with ⟨now, rfl⟩ | ⟨now, iter, rfl⟩ | ⟨-, ht, hs, -⟩
  · exact iff_of_true (h.buildDataDatagram hw now) trivial
  · exact accounted_onTick_iff hq h now iter
  · refine iff_of_true ((Accounted.of_same hs).2 h) ?_
    cases op <;> first | trivial | exact absurd rfl (ht _ _)

theorem accounted_run_iff : ∀ (ops : List Op) (n : Nat) (s : Session F), QueueInv s → WriteInv n s → Accounted s →
    n + (s.builtDatagrams ops).length < 2 ^ 24 →
    ((∀ done, done <+: ops → Accounted (Machine.run step s done)) ↔ Machine.Along step KeepsTracked s ops)
  | [], n, s, _, _, h, _ => by
    refine iff_of_true (fun done hdone => ?_) trivial
    rw [List.prefix_nil.1 hdone]; exact h
  | op :: ops, n, s, hq, hw, h, hn => by
    have hstep := accounted_step_iff hq hw h op
    rw [builtDatagrams, List.length_append] at hn
    have ih := fun hacc => accounted_run_iff ops _ (s.step op) (hq.step op) (hw.step hq op (by omega)) hacc (by omega)
    constructor
    · intro hall
      have hacc := hall [op] (by simp)
      refine ⟨hstep.1 hacc, (ih hacc).1 fun done hdone => ?_⟩
      exact hall (op :: done) (List.cons_prefix_cons.2 ⟨rfl, hdone⟩)
    · rintro ⟨hkeep, hrest⟩ done hdone
      rcases List.prefix_cons_iff.1 hdone with rfl | ⟨rest, rfl, hrest'⟩
      · exact h
      · exact (ih (hstep.2 hkeep)).2 hrest rest hrest'

/-- Congestion accounting, exactly. In a run that builds fewer than `2 ^ 24` datagrams, the byte
counter is the total size of the tracked datagrams in every state reached if and only if no tick
drops an occupied slot. -/
theorem unackedBytes_accounted_iff (mtu : Nat) (tunables : SessionTunables) (ops : List Op)
    (hbuilt : (builtDatagrams (withTunables mtu tunables : Session F) ops).length < 2 ^ 24) :
    (∀ done, done <+: ops → Accounted (after mtu tunables done : Session F)) ↔
      Machine.Along step KeepsTracked (withTunables mtu tunables : Session F) ops :=
  accounted_run_iff ops 0 _ (queueInv_after mtu tunables []) ⟨rfl, Nat.le_refl 0⟩ rfl (by omega)

/-- One reliable packet is sent and never acknowledged; the next tick comes after the timeout of
10 s. -/
def timeoutRun : List Op :=
  [.queuePacket (.userData 0x80 [1]) .reliable 0 .normal, .buildDataDatagram 0,
    .onTick (Duration.fromSecs 11) (IterOrder.stored _)]

theorem unackedBytes_accounted_iff_timeoutRun :
    (builtDatagrams (withTunables 1400 {} : Session ℚ) timeoutRun).length < 2 ^ 24 ∧
    ((∀ done, done <+: timeoutRun → Accounted (after 1400 {} done : Session ℚ)) ↔
      Machine.Along step KeepsTracked (withTunables 1400 {} : Session ℚ) timeoutRun) :=
  ⟨by decide +kernel, unackedBytes_accounted_iff 1400 {} timeoutRun (by decide +kernel)⟩

/-- The 12 bytes of the dropped datagram stay in the counter, with nothing tracked. -/
theorem unackedBytes_leak_timeoutRun : ¬ ∀ (mtu : Nat) (tunables : SessionTunables) (ops : List Op),
    (builtDatagrams (withTunables mtu tunables : Session ℚ) ops).length < 2 ^ 24 →
    Accounted (after mtu tunables ops : Session ℚ) := by
  intro h
  have hbytes : (after 1400 {} timeoutRun : Session ℚ).sliding.unackedBytes = 12 := by decide +kernel
  have htracked : (after 1400 {} timeoutRun : Session ℚ).tracked = [] := by decide +kernel
  have haccounted := h 1400 {} timeoutRun (by decide +kernel)
  unfold Accounted at haccounted
  rw [hbytes, htracked] at haccounted
  exact absurd haccounted (by decide)

end BedrockRs.Raknet.Session

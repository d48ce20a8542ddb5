/-
ACK soundness: a session acknowledges only sequence numbers it was given. The queue of outgoing ACKs
only ever takes singletons, and merging a singleton into the last range adds no other number, for
every placement around the wrap and the half-turn point.
-/
import BedrockRs.Raknet.Session.Tracked

namespace BedrockRs.Raknet

open Lib

/-! ## Pushing one sequence number -/

namespace AckQueue

open Sequence24

/-- Half a turn apart or not, two distinct numbers are ordered one way or the other. -/
theorem lt_or_lt_of_ne {a b : Sequence24} (h : a ≠ b) : a.lt b = true ∨ b.lt a = true := by
  have h1 := (Sequence24.ext_iff' (a := a) (b := b)).not.1 h
  have := a.isLt; have := b.isLt
  rw [lt_iff, lt_iff]
  omega

/-- A singleton extends the last range by itself or lies within it already. -/
theorem absorb_singleton {last merged : SequenceRange} {seq : Sequence24}
    (h : absorb last ⟨seq, seq⟩ = some merged) :
    merged = ⟨last.start, seq⟩ ∧ last.end.next = seq ∨ merged = last := by
  unfold absorb at h
  split at h
  · rename_i hnext
    cases h; exact .inl ⟨rfl, hnext⟩
  · split at h
    · rename_i hge
      cases h
      rw [Bool.and_eq_true, ge_iff, ge_iff] at hge
      obtain ⟨h1, h2⟩ := hge
      right
      have hmin : last.start.min seq = last.start := if_neg h2
      have hmax : last.end.max seq = last.end := by
        unfold Sequence24.max
        split
        · rfl
        · rename_i hlt
          by_contra hne
          rcases lt_or_lt_of_ne hne with hless | hless
          · exact hlt hless
          · exact h1 hless
      rw [hmin, hmax]
    · cases h

/-- A range extended by the number after its end enumerates that number besides its own. When the
range is the full circle, the extended one is only its start. -/
theorem mem_sequences_extend {start stop seq x : Sequence24} (h : stop.next = seq)
    (hx : x ∈ (⟨start, seq⟩ : SequenceRange).sequences) :
    x ∈ (⟨start, stop⟩ : SequenceRange).sequences ∨ x = seq := by
  rw [SequenceRange.mem_sequences] at hx ⊢
  subst h
  by_cases hxs : x = stop.next
  · exact .inr hxs
  · left
    have hne := (Sequence24.ext_iff' (a := x) (b := stop.next)).not.1 hxs
    rw [val_next] at hne
    have h1 := start.isLt; have h2 := stop.isLt; have h3 := x.isLt
    simp only [distanceTo, val_next] at hx ⊢
    split_ifs at hx hne ⊢ <;> omega

theorem push_singleton_sequences (q : AckQueue) (seq : Sequence24) {r : SequenceRange} {x : Sequence24}
    (hr : r ∈ (q.push ⟨seq, seq⟩).queue) (hx : x ∈ r.sequences) :
    (∃ r' ∈ q.queue, x ∈ r'.sequences) ∨ x = seq := by
  have hwraps : (⟨seq, seq⟩ : SequenceRange).wraps = false := by simp [SequenceRange.wraps]
  rw [push_of_not_wraps q hwraps] at hr
  unfold pushPlain at hr
  split at hr
  · exact .inl ⟨r, hr, hx⟩
  · split at hr
    · rename_i merged hmerge
      unfold tryMerge at hmerge
      split at hmerge
      · rename_i last hlast
        obtain ⟨range, habsorb, rfl⟩ := Option.map_eq_some_iff.1 hmerge
        have hmem : last ∈ q.queue := List.mem_of_getLast? hlast
        rcases List.mem_append.1 hr with hr | hr
        · exact .inl ⟨r, List.mem_of_mem_dropLast hr, hx⟩
        · rw [List.mem_singleton] at hr
          subst hr
          -- one number extends the last range by itself, or lies in it already
          rcases absorb_singleton habsorb with ⟨rfl, hnext⟩ | rfl
          · exact (mem_sequences_extend hnext hx).imp (fun h => ⟨last, hmem, h⟩) id
          · exact .inl ⟨r, hmem, hx⟩
      · cases hmerge
    · rcases List.mem_append.1 hr with hr | hr
      · exact .inl ⟨r, hr, hx⟩
      · rw [List.mem_singleton] at hr
        subst hr
        right
        rw [SequenceRange.mem_sequences, distanceTo_eq_zero_iff.2 rfl, Nat.le_zero, distanceTo_eq_zero_iff] at hx
        exact hx.symm

end AckQueue

namespace Session

variable {F : Type} [Float64 F]

/-! ## Runs -/

/-- Every number a queued ACK range enumerates was received in `done`. -/
def AcksReceived (done : List Op) (s : Session F) : Prop :=
  ∀ r ∈ s.outgoingAcks.queue, ∀ x ∈ r.sequences, Op.processDatagramSequence x ∈ done

omit [Float64 F] in
theorem AcksReceived.of_eq {done : List Op} {s s' : Session F} (h : AcksReceived done s) (op : Op)
    (e : s'.outgoingAcks = s.outgoingAcks) : AcksReceived (done ++ [op]) s' :=
  fun r hr x hx => List.mem_append_left _ (h r (e ▸ hr) x hx)

theorem AcksReceived.step {done : List Op} {s : Session F} (h : AcksReceived done s) (op : Op) :
    AcksReceived (done ++ [op]) (s.step op) := by
  rcases (s.step_cases op).control with ⟨seq, rfl⟩ | ⟨now, iter, rfl⟩ | ⟨hacks, -⟩
  · obtain ⟨_, _, e⟩ := s.processDatagramSequence_frame seq
    intro r hr x hx
    rw [Session.step, e] at hr
    rcases AckQueue.push_singleton_sequences s.outgoingAcks seq hr hx with ⟨r', hr', hx'⟩ | rfl
    · exact List.mem_append_left _ (h r' hr' x hx')
    · exact List.mem_append_right _ (List.mem_singleton_self _)
  · -- the tick takes ranges off the front of the queue
    intro r hr x hx
    refine List.mem_append_left _ (h r ?_ x hx)
    rw [← AckQueue.popForMtu_append s.outgoingAcks s.mtu ackOverhead]
    rw [Session.step, onTick_outgoingAcks] at hr
    exact List.mem_append_right _ hr
  · exact h.of_eq op hacks

theorem acksReceived_after (mtu : Nat) (tunables : SessionTunables) (ops : List Op) :
    AcksReceived ops (after mtu tunables ops : Session F) := by
  have hnew : AcksReceived [] (withTunables mtu tunables : Session F) := fun r hr => by
    simp [withTunables, AckQueue.new] at hr
  exact Machine.run_inv_history (C := fun _ _ => True) (P := AcksReceived) (fun done s op h _ => h.step op) ops []
    (withTunables mtu tunables) hnew (Machine.along_true _ ops)

omit [Float64 F] in
theorem buildAckDatagram_ranges (s : Session F) {o : OutgoingDatagram} {payload : AckNackPayload}
    (ho : o ∈ s.buildAckDatagram.1) (hp : o.asRef.payload = .ack payload) :
    ∀ r ∈ payload.ranges, r ∈ s.outgoingAcks.queue := by
  unfold buildAckDatagram at ho
  simp only at ho
  split at ho
  · cases ho
  · cases ho
    cases hp
    intro r hr
    rw [← AckQueue.popForMtu_append s.outgoingAcks s.mtu ackOverhead]
    exact List.mem_append_left _ ((List.perm_insertionSort _ _).mem_iff.1 hr)

/-- The ACK datagrams of a tick carry ranges of the queue only. -/
theorem onTick_ack_ranges {s : Session F} (hq : QueueInv s) {now : Instant} {iter : IterOrder SplitEntries.Item}
    {o : OutgoingDatagram} {payload : AckNackPayload} (ho : o ∈ (s.onTick now iter).1)
    (hp : o.asRef.payload = .ack payload) : ∀ r ∈ payload.ranges, r ∈ s.outgoingAcks.queue := by
  rcases onTick_control hq ho (by rw [Datagram.isData, hp]) with hack | hnak
  · have hranges := buildAckDatagram_ranges _ hack hp
    obtain ⟨_, _, _, hafter⟩ := s.afterResends_frame now iter
    rw [hafter] at hranges
    exact hranges
  · unfold buildNakDatagram at hnak
    simp only at hnak
    split at hnak
    · cases hnak
    · cases hnak; cases hp

/-- ACK soundness: every sequence number that the ranges of an ACK datagram enumerate was received
earlier in the run. -/
theorem ack_sequences_received (mtu : Nat) (tunables : SessionTunables) (ops : List Op) (now : Instant)
    (iter : IterOrder SplitEntries.Item) (o : OutgoingDatagram) (payload : AckNackPayload) (r : SequenceRange)
    (x : Sequence24) (ho : o ∈ ((after mtu tunables ops : Session F).onTick now iter).1)
    (hp : o.asRef.payload = .ack payload) (hr : r ∈ payload.ranges)
    (hx : x ∈ r.forEachSequenceInRange (fun visited seq => visited ++ [seq]) []) :
    Op.processDatagramSequence x ∈ ops := by
  rw [r.forEach_collect] at hx
  exact acksReceived_after mtu tunables ops r (onTick_ack_ranges (queueInv_after mtu tunables ops) ho hp r hr) x hx

/-- Two numbers received across the wrap go out as one range. -/
theorem ack_sequences_received_wrap :
    OutgoingDatagram.owned ⟨⟨DatagramFlags.valid.or .ack, Sequence24.new 0⟩,
        .ack ⟨[⟨Sequence24.new (2 ^ 24 - 1), Sequence24.new 0⟩]⟩⟩ ∈
      ((after 1400 {} [.processDatagramSequence (Sequence24.new (2 ^ 24 - 1)),
        .processDatagramSequence (Sequence24.new 0)] : Session ℚ).onTick 0 (IterOrder.stored _)).1 ∧
    Op.processDatagramSequence (Sequence24.new 0) ∈ [Op.processDatagramSequence (Sequence24.new (2 ^ 24 - 1)),
      .processDatagramSequence (Sequence24.new 0)] :=
  have hout : OutgoingDatagram.owned ⟨⟨DatagramFlags.valid.or .ack, Sequence24.new 0⟩,
        .ack ⟨[⟨Sequence24.new (2 ^ 24 - 1), Sequence24.new 0⟩]⟩⟩ ∈
      ((after 1400 {} [.processDatagramSequence (Sequence24.new (2 ^ 24 - 1)),
        .processDatagramSequence (Sequence24.new 0)] : Session ℚ).onTick 0 (IterOrder.stored _)).1 := by
    decide +kernel
  ⟨hout, ack_sequences_received 1400 {} _ 0 (IterOrder.stored _) _ _ _ (Sequence24.new 0) hout rfl
    (List.mem_singleton_self _) (by decide +kernel)⟩

end Session

end BedrockRs.Raknet

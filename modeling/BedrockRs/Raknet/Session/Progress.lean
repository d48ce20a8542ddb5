/-
The sender does not get stuck. Over exact rationals the congestion window never falls below the MTU, and
every frame in the outgoing heap leaves room for the headers of a datagram; so with nothing unacknowledged
the next datagram takes at least the frame on top of the heap.
-/
import BedrockRs.Raknet.Session.Mtu

namespace BedrockRs.Raknet

open Lib

/-! ## The congestion window -/

namespace SlidingWindow

section Kept

variable {F : Type} [Float64 F]

/-- `P` is kept by everything that is done to the window. -/
structure Kept (P : SlidingWindow F → Prop) : Prop where
  send : ∀ w d, P w → P (w.onReliableSend d)
  ack : ∀ w now d seq sendTime, P w → P (w.onAck now d seq sendTime)
  nak : ∀ w, P w → P w.onNak
  resend : ∀ w seq, P w → P (w.onResend seq)

theorem updateRtt_mtu (w : SlidingWindow F) (rttMs : F) : (w.updateRtt rttMs).mtu = w.mtu := by
  unfold updateRtt
  split <;> rfl

theorem updateRtt_cwnd (w : SlidingWindow F) (rttMs : F) : (w.updateRtt rttMs).cwnd = w.cwnd := by
  unfold updateRtt
  split <;> rfl

omit [Float64 F] in
theorem enterBlock_mtu (w : SlidingWindow F) (seq : Sequence24) : (w.enterBlock seq).mtu = w.mtu := by
  unfold enterBlock
  split <;> rfl

omit [Float64 F] in
theorem enterBlock_cwnd (w : SlidingWindow F) (seq : Sequence24) : (w.enterBlock seq).cwnd = w.cwnd := by
  unfold enterBlock
  split <;> rfl

end Kept

/-- The window has room for a datagram of the size of the MTU. -/
structure AtLeastMtu (mtu : Nat) (w : SlidingWindow ℚ) : Prop where
  mtu_eq : w.mtu = mtu
  le_cwnd : (mtu : ℚ) ≤ w.cwnd

theorem AtLeastMtu.growCwnd {mtu : Nat} (hpos : 0 < mtu) {w : SlidingWindow ℚ} (h : AtLeastMtu mtu w)
    (isNewBlock : Bool) : AtLeastMtu mtu (w.growCwnd isNewBlock) := by
  obtain ⟨rfl, hcwnd⟩ := h
  have hmtu : (0 : ℚ) < w.mtu := Nat.cast_pos.2 hpos
  have hwindow : 0 < w.cwnd := lt_of_lt_of_le hmtu hcwnd
  unfold SlidingWindow.growCwnd isInSlowStart
  simp only [Float64.ofRat_rat, Float64.add_rat, Float64.mul_rat, Float64.div_rat]
  split
  · rename_i hslow
    split
    · rename_i hcross
      -- slow start with a threshold: the threshold is not below the window, nor so below the MTU
      simp only [Bool.or_eq_true, Float64.eq_rat, Float64.le_rat, Bool.and_eq_true, Bool.not_eq_true',
        ← Bool.not_eq_true] at hslow hcross
      have hthresh : w.cwnd ≤ w.ssThresh := hslow.resolve_left hcross.1
      refine ⟨rfl, ?_⟩
      have hquot : 0 ≤ (w.mtu : ℚ) * w.mtu / (w.cwnd + w.mtu) := by positivity
      dsimp only
      linarith
    · refine ⟨rfl, ?_⟩
      dsimp only
      linarith
  · split
    · refine ⟨rfl, ?_⟩
      have hquot : 0 ≤ (w.mtu : ℚ) * w.mtu / w.cwnd := by positivity
      dsimp only
      linarith
    · exact ⟨rfl, hcwnd⟩

theorem AtLeastMtu.kept {mtu : Nat} (hpos : 0 < mtu) : Kept (AtLeastMtu mtu) where
  send _ _ h := ⟨h.mtu_eq, h.le_cwnd⟩
  ack w now d seq sendTime h := by
    unfold onAck
    refine AtLeastMtu.growCwnd hpos ?_ _
    constructor
    · rw [enterBlock_mtu, updateRtt_mtu]
      exact h.mtu_eq
    · rw [enterBlock_cwnd, updateRtt_cwnd]
      exact h.le_cwnd
  nak w h := by
    unfold onNak
    split
    · exact ⟨h.mtu_eq, h.le_cwnd⟩
    · exact h
  resend w seq h := by
    unfold onResend
    dsimp only
    split
    · refine ⟨h.mtu_eq, ?_⟩
      rw [h.mtu_eq]
      exact le_refl _
    · exact h

/-- With nothing unacknowledged, all of the window may be sent. -/
theorem AtLeastMtu.bandwidth {mtu : Nat} {w : SlidingWindow ℚ} (h : AtLeastMtu mtu w) (hunacked : w.unackedBytes = 0) :
    mtu ≤ w.getTransmissionBandwidth := by
  have hpos : (0 : ℚ) ≤ w.cwnd := le_trans (Nat.cast_nonneg mtu) h.le_cwnd
  have hfloor : (mtu : ℤ) ≤ ⌊w.cwnd⌋ := Int.le_floor.2 (by exact_mod_cast h.le_cwnd)
  unfold getTransmissionBandwidth
  simp only [hunacked, Int.cast_zero, Float64.ofRat_rat, Float64.le_rat, hpos, if_true, Float64.sub_rat, sub_zero,
    Float64.toNat_rat]
  omega

end SlidingWindow

namespace Session

/-! ## The window of a session -/

section Kept

variable {F : Type} [Float64 F] {P : SlidingWindow F → Prop} (hP : SlidingWindow.Kept P)
include hP

theorem ackOne_sliding {s : Session F} (h : P s.sliding) (now : Instant) (seq : Sequence24) :
    P (ackOne now s seq).sliding := by
  unfold ackOne
  dsimp only
  split
  · split
    · exact hP.ack _ _ _ _ _ h
    · exact h
  · exact h

theorem nakOne_sliding {s : Session F} (h : P s.sliding) (now : Instant) (seq : Sequence24) :
    P (nakOne now s seq).sliding := by
  unfold nakOne
  dsimp only
  split
  · split
    · exact hP.nak _ h
    · exact h
  · exact h

omit [Float64 F] hP in
theorem forEachRange_sliding {f : Session F → Sequence24 → Session F} (hf : ∀ s seq, P s.sliding → P (f s seq).sliding)
    (ranges : List SequenceRange) {s : Session F} (h : P s.sliding) :
    P (ranges.foldl (fun s range => range.forEachSequenceInRange f s) s).sliding := by
  rw [SequenceRange.foldl_forEach]
  exact List.foldlRecOn (motive := fun s : Session F => P s.sliding) _ _ h fun s hs seq _ => hf s seq hs

theorem processIncomingAcksNaks_sliding {s : Session F} (h : P s.sliding) (now : Instant) :
    P (s.processIncomingAcksNaks now).sliding := by
  have hacks : P (s.applyAcks now).sliding :=
    forEachRange_sliding (fun s seq hs => ackOne_sliding hP hs now seq) s.incomingAcks h
  exact forEachRange_sliding (fun s seq hs => nakOne_sliding hP hs now seq) _
    (s := (s.applyAcks now).cleanSentDatagrams now) hacks

omit hP in
theorem resendLoop_sliding (now : Instant) : ∀ (seqs : List Sequence24) (s : Session F),
    (resendLoop now seqs s).2.sliding = s.sliding
  | [], _ => rfl
  | seq :: seqs, s => by
    refine (resendLoop_sliding now seqs (resendOne now s seq).2).trans ?_
    unfold resendOne
    dsimp only
    split <;> rfl

theorem resendDue_sliding {s : Session F} (h : P s.sliding) (now : Instant) : P (s.resendDue now).2.sliding := by
  unfold resendDue resendDatagrams
  dsimp only
  split
  · split
    · rwa [resendLoop_sliding]
    · dsimp only
      rw [resendLoop_sliding]
      exact hP.resend _ _ h
  · exact h

theorem onTick_sliding {s : Session F} (h : P s.sliding) (now : Instant) (iter : IterOrder SplitEntries.Item) :
    P (s.onTick now iter).2.sliding := by
  obtain ⟨_, _, htick⟩ := s.onTick_state now iter
  rw [htick]
  exact resendDue_sliding hP (s := s.beforeResends now iter) (processIncomingAcksNaks_sliding hP h now) now

theorem buildDataDatagram_sliding {s : Session F} (h : P s.sliding) (now : Instant) :
    P (s.buildDataDatagram now).2.sliding := by
  unfold buildDataDatagram
  split
  · exact h
  · dsimp only
    split
    · exact h
    · split
      · exact h
      · split
        · exact hP.send _ _ h
        · exact h

theorem step_sliding {s : Session F} (h : P s.sliding) (op : Op) : P (s.step op).sliding := by
  cases op with
  | buildDataDatagram now => exact buildDataDatagram_sliding hP h now
  | onTick now iter => exact onTick_sliding hP h now iter
  | queuePacket pkt reliability channel priority =>
    obtain ⟨_, _, _, _, _, _, hstep⟩ := s.queuePacket_same pkt reliability channel priority
    rw [step, hstep]
    exact h
  | handleDataPayload packets now =>
    obtain ⟨_, _, _, _, _, hstep⟩ := handleDataPayload_same packets s now
    rw [step, hstep]
    exact h
  | processDatagramSequence seq =>
    obtain ⟨_, _, hstep⟩ := s.processDatagramSequence_frame seq
    rw [step, hstep]
    exact h
  | handleAckPayload payload => exact h
  | handleNackPayload payload => exact h

end Kept

theorem atLeastMtu_after {mtu : Nat} (hpos : 0 < mtu) (tunables : SessionTunables) (ops : List Op) :
    SlidingWindow.AtLeastMtu mtu (after mtu tunables ops : Session ℚ).sliding :=
  Machine.run_inv_all (P := fun s : Session ℚ => SlidingWindow.AtLeastMtu mtu s.sliding)
    (fun _ op h => step_sliding (SlidingWindow.AtLeastMtu.kept hpos) h op) ops ⟨rfl, le_refl _⟩

/-! ## The frames in the heap -/

variable {F : Type}

/-- A frame's header takes the overhead that the payload limit subtracts. -/
theorem size_singleEncap {n : Nat} {payload : Bytes} (hlen : payload.length ≤ n) (hn : n < 2 ^ 13)
    (reliability : Reliability) (channel : UInt8) (reliableIndex orderingIndex : Option Sequence24) :
    (singleEncap payload reliability channel reliableIndex orderingIndex).size ≤
      encapsulatedHeaderOverhead reliability false + n := by
  have hpayload : (singleEncap payload reliability channel reliableIndex orderingIndex).payloadLen = payload.length :=
    payloadLen_of_lt (by omega)
  unfold EncapsulatedPacket.size
  rw [hpayload]
  exact Nat.add_le_add_left hlen _

theorem size_fragmentEncap {n : Nat} {chunk : Bytes} (hlen : chunk.length ≤ n) (hn : n < 2 ^ 13)
    (reliability : Reliability) (channel : UInt8) (reliableIndex orderingIndex : Option Sequence24)
    (split : SplitInfo) : (fragmentEncap chunk reliability channel reliableIndex orderingIndex split).size ≤
      encapsulatedHeaderOverhead reliability true + n := by
  have hpayload : (fragmentEncap chunk reliability channel reliableIndex orderingIndex split).payloadLen =
      chunk.length :=
    payloadLen_of_lt (by omega)
  unfold EncapsulatedPacket.size
  rw [hpayload]
  exact Nat.add_le_add_left hlen _

theorem encapsulatedHeaderOverhead_le (reliability : Reliability) (isSplit : Bool) :
    encapsulatedHeaderOverhead reliability isSplit ≤ 23 := by
  unfold encapsulatedHeaderOverhead
  split <;> split <;> split <;> split <;> omega

/-- Payload limit, header and the headers of a datagram make up the MTU. -/
theorem overhead_add_payload {s : Session F} (hlo : 576 ≤ s.mtu) (reliability : Reliability) (isSplit : Bool) :
    encapsulatedHeaderOverhead reliability isSplit + max (s.maxEncapsulatedPayloadLen reliability isSplit) 1 =
      s.mtu - 32 := by
  have hoverhead := encapsulatedHeaderOverhead_le reliability isSplit
  unfold maxEncapsulatedPayloadLen Datagram.ipv4HeaderSize Datagram.udpHeaderSize Datagram.raknetDatagramHeaderSize
  omega

/-- Whole or in fragments, a message is sent in frames that leave room for the headers of a datagram. -/
theorem message_size {s : Session F} (hlo : 576 ≤ s.mtu) (hhi : s.mtu ≤ 1400) {pkt : RaknetPacket}
    {reliability : Reliability} {channel : UInt8} {m : Message} (h : s.message pkt reliability channel = some m) :
    ∀ p ∈ m.frames, p.size ≤ s.mtu - 32 := by
  unfold message at h
  split at h
  · cases h
  · split at h
    · cases h
    · rename_i payload _
      split at h
      · rename_i hlen
        have hroom := overhead_add_payload hlo reliability false
        cases h
        intro p hp
        rw [Message.frames, List.mem_singleton] at hp
        subst hp
        rw [← hroom]
        exact size_singleEncap hlen (by omega) _ _ _ _
      · have hroom := overhead_add_payload hlo (normalizeReliabilityForSplit reliability) true
        cases h
        intro p hp
        obtain ⟨i, hi, rfl⟩ := List.mem_mapIdx.1 hp
        rw [← hroom]
        exact size_fragmentEncap (length_of_mem_chunks (List.getElem_mem hi)) (by omega) _ _ _ _ _

/-- The frames in the heap of a session with this MTU leave room for the headers. -/
structure RoomFor (mtu : Nat) (s : Session F) : Prop where
  outgoing : Outgoing (fun p => p.size ≤ mtu - 32) (fun _ => True) s
  mtu_eq : s.mtu = mtu

theorem roomFor_after [Float64 F] {mtu : Nat} (hlo : 576 ≤ mtu) (hhi : mtu ≤ 1400) (tunables : SessionTunables)
    (ops : List Op) : RoomFor mtu (after mtu tunables ops : Session F) := by
  refine Machine.run_inv_all (P := RoomFor mtu) ?_ ops ⟨.new mtu tunables, rfl⟩
  rintro s op ⟨houtgoing, rfl⟩
  refine ⟨houtgoing.step op ?_ fun _ _ _ => trivial, s.step_mtu op⟩
  rintro pkt reliability channel priority - m hm
  exact message_size hlo hhi hm

/-! ## Progress -/

/-- The loop of `fill_datagram` takes the top frame if the bandwidth and the rest of the datagram allow it. -/
theorem fillDatagram_top (mtu fuel : Nat) {size bw : Nat} {heap : BinaryHeap QueuedEncap} {top : QueuedEncap}
    (hpeek : heap.peek = some top) (hbw : top.pkt.size ≤ bw) (hroom : size + top.pkt.size ≤ mtu) :
    ∃ rest, (fillDatagram mtu (fuel + 1) heap size bw).1 = top.pkt :: rest := by
  obtain ⟨heap', hpop⟩ := BinaryHeap.pop_of_peek QueuedEncap.le hpeek
  unfold fillDatagram
  rw [hpeek]
  dsimp only
  rw [if_neg (Nat.not_lt.2 hbw), if_neg (Nat.not_lt.2 hroom), hpop]
  exact ⟨_, rfl⟩

/-- The datagram that is built starts with the top frame of the heap. -/
theorem buildDataDatagram_top [Float64 F] {s : Session F} {top : QueuedEncap} (hpeek : s.outgoingHeap.peek = some top)
    (hbw : top.pkt.size ≤ s.sliding.getTransmissionBandwidth) (hroom : 32 + top.pkt.size ≤ s.mtu) (now : Instant) :
    ∃ o rest, (s.buildDataDatagram now).1 = some o ∧ o.asRef.packets = top.pkt :: rest := by
  obtain ⟨len, hlen⟩ := BinaryHeap.len_of_peek hpeek
  obtain ⟨rest, hfill⟩ := fillDatagram_top s.mtu len hpeek hbw hroom
  rw [← hlen] at hfill
  obtain ⟨o, ho, hframes⟩ := buildDataDatagram_filled hpeek hbw hfill now
  exact ⟨o, rest, ho, hframes⟩

/-- Sender progress: over exact rationals, for every MTU from 576 to 1400 and after any operations, the window is
at least the MTU, every frame in the heap leaves room for the headers, and with nothing unacknowledged the next
datagram starts with the frame on top of the heap, if there is one. -/
theorem sender_progress (mtu : Nat) (hlo : 576 ≤ mtu) (hhi : mtu ≤ 1400) (tunables : SessionTunables) (ops : List Op) :
    (mtu : ℚ) ≤ (after mtu tunables ops : Session ℚ).sliding.cwnd ∧
    (∀ queued ∈ (after mtu tunables ops : Session ℚ).outgoingHeap.data, queued.pkt.size ≤ mtu - 32) ∧
    ((after mtu tunables ops : Session ℚ).outgoingHeap.isEmpty = false →
      (after mtu tunables ops : Session ℚ).sliding.unackedBytes = 0 →
      ∀ now, ∃ top o rest, (after mtu tunables ops : Session ℚ).outgoingHeap.peek = some top ∧
        ((after mtu tunables ops : Session ℚ).buildDataDatagram now).1 = some o ∧
        o.asRef.packets = top.pkt :: rest) := by
  have hwindow := atLeastMtu_after (show 0 < mtu by omega) tunables ops
  obtain ⟨houtgoing, hmtu⟩ := roomFor_after (F := ℚ) hlo hhi tunables ops
  have hsizes : ∀ queued ∈ (after mtu tunables ops : Session ℚ).outgoingHeap.data, queued.pkt.size ≤ mtu - 32 :=
    fun queued hqueued => houtgoing.queued _ (List.mem_map_of_mem hqueued)
  refine ⟨hwindow.le_cwnd, hsizes, ?_⟩
  intro hnonempty hunacked now
  cases hpeek : (after mtu tunables ops : Session ℚ).outgoingHeap.peek with
  | none =>
    rw [BinaryHeap.peek, List.head?_eq_none_iff] at hpeek
    rw [BinaryHeap.isEmpty, hpeek] at hnonempty
    cases hnonempty
  | some top =>
    have htop := hsizes top (List.mem_of_mem_head? hpeek)
    have hbandwidth := hwindow.bandwidth hunacked
    obtain ⟨o, rest, ho, hrest⟩ := buildDataDatagram_top hpeek (by omega) (by omega) now
    exact ⟨top, o, rest, rfl, ho, hrest⟩

/-- A packet that fills the datagram of the smallest MTU is sent at once. -/
theorem sender_progress_full : ∃ top o rest, (after 576 {} [fullPacket] : Session ℚ).outgoingHeap.peek = some top ∧
    ((after 576 {} [fullPacket] : Session ℚ).buildDataDatagram 0).1 = some o ∧ o.asRef.packets = top.pkt :: rest :=
  (sender_progress 576 (by decide) (by decide) {} [fullPacket]).2.2 (by decide +kernel) (by decide +kernel) 0

end Session

end BedrockRs.Raknet

/-
The MTU bound. Pieces are cut so that a frame's bit length fits its 16 bits, so the sizes that packing
adds up are the sizes the encoder writes; `fill_datagram` and `pop_for_mtu` stop before the total
passes the MTU. Every datagram that is put out, new, resent, ACK or NAK, stays within it.
-/
import BedrockRs.Raknet.Protocol.Size
import BedrockRs.Raknet.Session.Outgoing

namespace BedrockRs.Raknet

open Lib

/-! ## Lengths of frames -/

/-- The payload has the length that the bit length gives. -/
def EncapsulatedPacket.Exact (p : EncapsulatedPacket) : Prop := p.payload.length = p.payloadLen

/-- A length below `2^13` survives the shift by three in sixteen bits. -/
theorem payloadLen_of_lt {n : Nat} (h : n < 2 ^ 13) : ((UInt16.ofNat n <<< 3).toNat + 7) >>> 3 = n := by
  have hn : (UInt16.ofNat n).toNat = n := UInt16.toNat_ofNat_of_lt' (by unfold UInt16.size; omega)
  simp only [UInt16.toNat_shiftLeft, hn, UInt16.reduceToNat, Nat.reduceMod, Nat.shiftLeft_eq, Nat.shiftRight_eq_div_pow]
  omega

namespace Session

variable {F : Type} [Float64 F]

theorem length_of_mem_chunks {maxLen : Nat} : ∀ {parts : Nat} {payload piece : Bytes},
    piece ∈ chunks maxLen parts payload → piece.length ≤ maxLen
  | 0, _, _, h => by cases h
  | parts + 1, payload, piece, h => by
    rcases List.mem_cons.1 h with rfl | h
    · rw [List.length_take]
      exact Nat.min_le_left _ _
    · exact length_of_mem_chunks h

omit [Float64 F] in
theorem maxEncapsulatedPayloadLen_le (s : Session F) (reliability : Reliability) (isSplit : Bool) :
    max (s.maxEncapsulatedPayloadLen reliability isSplit) 1 ≤ s.mtu + 1 := by
  unfold maxEncapsulatedPayloadLen
  omega

omit [Float64 F] in
/-- The frames a message is cut into have payloads of the length they announce. -/
theorem message_exact {s : Session F} (hmtu : s.mtu ≤ 1400) {pkt : RaknetPacket} {reliability : Reliability}
    {channel : UInt8} {m : Message} (h : s.message pkt reliability channel = some m) : ∀ p ∈ m.frames, p.Exact := by
  unfold message at h
  split at h
  · cases h
  · split at h
    · cases h
    · rename_i payload _
      split at h
      · rename_i hlen
        have := s.maxEncapsulatedPayloadLen_le reliability false
        cases h
        intro p hp
        rw [Message.frames, List.mem_singleton] at hp
        subst hp
        exact (payloadLen_of_lt (n := payload.length) (by omega)).symm
      · cases h
        intro p hp
        obtain ⟨i, hi, rfl⟩ := List.mem_mapIdx.1 hp
        have hpiece := length_of_mem_chunks (List.getElem_mem hi)
        have := s.maxEncapsulatedPayloadLen_le (normalizeReliabilityForSplit reliability) true
        exact (payloadLen_of_lt (Nat.lt_of_le_of_lt hpiece (by omega))).symm

/-! ## Packing -/

/-- The loop of `fill_datagram` keeps the running total within the MTU. -/
theorem fillDatagram_size (mtu : Nat) : ∀ (fuel : Nat) (heap : BinaryHeap QueuedEncap) (size bw : Nat), size ≤ mtu →
    size + ((fillDatagram mtu fuel heap size bw).1.map EncapsulatedPacket.size).sum ≤ mtu
  | 0, heap, size, bw, h => h
  | fuel + 1, heap, size, bw, h => by
    unfold fillDatagram
    split
    · exact h
    · rename_i top hpeek
      split
      · exact h
      · split
        · exact h
        · rename_i hfits
          obtain ⟨heap', hpop⟩ := BinaryHeap.pop_of_peek QueuedEncap.le hpeek
          rw [hpop]
          have ih := fillDatagram_size mtu fuel heap' (size + top.pkt.size) (bw - top.pkt.size) (by omega)
          simp only [List.map_cons, List.sum_cons]
          omega

theorem buildDataDatagram_size {s : Session F} {now : Instant} {o : OutgoingDatagram} (hmtu : 576 ≤ s.mtu)
    (h : (s.buildDataDatagram now).1 = some o) :
    Datagram.ipv4HeaderSize + Datagram.udpHeaderSize + o.asRef.size ≤ s.mtu := by
  have hfill := fillDatagram_size s.mtu s.outgoingHeap.len s.outgoingHeap
    (Datagram.ipv4HeaderSize + Datagram.udpHeaderSize + Datagram.raknetDatagramHeaderSize)
    s.sliding.getTransmissionBandwidth
      (by unfold Datagram.ipv4HeaderSize Datagram.udpHeaderSize Datagram.raknetDatagramHeaderSize; omega)
  have hsize : ∀ header packets, (Datagram.mk header (.encapsulatedPackets packets)).size =
      Datagram.raknetDatagramHeaderSize + (packets.map EncapsulatedPacket.size).sum := fun _ _ => rfl
  unfold buildDataDatagram at h
  split at h
  · cases h
  · simp only at h
    split at h
    · cases h
    · split at h
      · cases h
      · split at h
        · cases h
          simp only [trackSentDatagram, OutgoingDatagram.asRef, hsize]
          omega
        · cases h
          simp only [OutgoingDatagram.asRef, hsize]
          omega

end Session

/-! ## Acknowledgements -/

theorem SequenceRange.encodedSize_le (r : SequenceRange) : r.encodedSize ≤ 14 := by
  have hsize : ∀ r : SequenceRange, r.size ≤ 7 := by
    intro r
    unfold SequenceRange.size
    split <;> omega
  unfold SequenceRange.encodedSize
  split
  · rename_i tail head _
    have := hsize tail
    have := hsize head
    omega
  · have := hsize r
    omega

/-- The loop of `pop_for_mtu` keeps its running total within the MTU, the first range included when
it fits in any case. -/
theorem AckQueue.popLoop_size (mtu : Nat) : ∀ (used : Nat) (taken : Bool) (q : List SequenceRange),
    used + (if taken then 0 else 14) ≤ mtu →
    used + ((popLoop mtu used taken q).1.map SequenceRange.encodedSize).sum ≤ mtu
  | used, taken, [], h => by
    simp only [popLoop, List.map_nil, List.sum_nil]
    omega
  | used, taken, front :: rest, h => by
    have hfront := front.encodedSize_le
    unfold popLoop
    split
    · simp only [List.map_nil, List.sum_nil]
      omega
    · rename_i hfits
      have hused : used + front.encodedSize ≤ mtu := by
        cases taken with
        | false => simp only [Bool.false_eq_true, if_false] at h; omega
        | true => simpa using hfits
      have ih := popLoop_size mtu (used + front.encodedSize) true rest (by simpa using hused)
      simp only [List.map_cons, List.sum_cons]
      omega

namespace Session

variable {F : Type} [Float64 F]

theorem size_sortRanges (ranges : List SequenceRange) :
    (AckNackPayload.mk (sortRanges ranges)).size = 2 + (ranges.map SequenceRange.encodedSize).sum := by
  show 2 + ((ranges.insertionSort _).map SequenceRange.encodedSize).sum = _
  rw [((List.perm_insertionSort _ ranges).map SequenceRange.encodedSize).sum_eq]

/-- What is popped for an ACK or NAK datagram fits behind its flags byte. -/
theorem popForMtu_size {mtu : Nat} (hmtu : 576 ≤ mtu) (q : AckQueue) :
    Datagram.ipv4HeaderSize + Datagram.udpHeaderSize +
      (1 + (AckNackPayload.mk (sortRanges (q.popForMtu mtu ackOverhead).1)).size) ≤ mtu := by
  have hpop := AckQueue.popLoop_size mtu ackOverhead false q.queue (by
    simp only [ackOverhead, Datagram.ipv4HeaderSize, Datagram.udpHeaderSize, Bool.false_eq_true, if_false]
    omega)
  rw [size_sortRanges]
  have hover : ackOverhead = Datagram.ipv4HeaderSize + Datagram.udpHeaderSize + 2 + 1 := rfl
  have hranges : (q.popForMtu mtu ackOverhead).1 = (AckQueue.popLoop mtu ackOverhead false q.queue).1 := rfl
  rw [hranges]
  omega

omit [Float64 F] in
theorem buildAckDatagram_size {s : Session F} (hmtu : 576 ≤ s.mtu) {o : OutgoingDatagram}
    (h : o ∈ s.buildAckDatagram.1) : Datagram.ipv4HeaderSize + Datagram.udpHeaderSize + o.asRef.size ≤ s.mtu := by
  unfold buildAckDatagram at h
  simp only at h
  split at h
  · cases h
  · cases h
    exact popForMtu_size hmtu s.outgoingAcks

omit [Float64 F] in
theorem buildNakDatagram_size {s : Session F} (hmtu : 576 ≤ s.mtu) {o : OutgoingDatagram}
    (h : o ∈ s.buildNakDatagram.1) : Datagram.ipv4HeaderSize + Datagram.udpHeaderSize + o.asRef.size ≤ s.mtu := by
  unfold buildNakDatagram at h
  simp only at h
  split at h
  · cases h
  · cases h
    exact popForMtu_size hmtu s.outgoingNaks

/-! ## Runs -/

/-- The on-wire packet of a datagram of exact frames, headers included, is no larger than `mtu`. -/
structure Fits (mtu : Nat) (d : Datagram) : Prop where
  exact : ∀ p ∈ d.packets, p.Exact
  size : Datagram.ipv4HeaderSize + Datagram.udpHeaderSize + d.size ≤ mtu

/-- Everything on its way out of a session with this MTU fits it. -/
structure WithinMtu (mtu : Nat) (s : Session F) : Prop where
  outgoing : Outgoing EncapsulatedPacket.Exact (Fits mtu) s
  mtu : s.mtu = mtu

theorem step_mtu (s : Session F) (op : Op) : (s.step op).mtu = s.mtu := (s.step_cases op).fixed.1

theorem WithinMtu.built {mtu : Nat} {s : Session F} (h : WithinMtu mtu s) (hlo : 576 ≤ mtu) {now : Instant}
    {o : OutgoingDatagram} (ho : (s.buildDataDatagram now).1 = some o) : Fits mtu o.asRef := by
  refine ⟨h.outgoing.built ho, ?_⟩
  have := buildDataDatagram_size (h.mtu ▸ hlo) ho
  rwa [h.mtu] at this

theorem WithinMtu.step {mtu : Nat} {s : Session F} (h : WithinMtu mtu s) (hlo : 576 ≤ mtu) (hhi : mtu ≤ 1400)
    (op : Op) : WithinMtu mtu (s.step op) := by
  refine ⟨h.outgoing.step op ?_ fun now o ho => h.built hlo ho, (s.step_mtu op).trans h.mtu⟩
  rintro pkt reliability channel priority rfl m hm
  exact message_exact (by rw [h.mtu]; exact hhi) hm

theorem WithinMtu.ticked {mtu : Nat} {s : Session F} (h : WithinMtu mtu s) (hlo : 576 ≤ mtu) {now : Instant}
    {iter : IterOrder SplitEntries.Item} {o : OutgoingDatagram} (ho : o ∈ (s.onTick now iter).1) :
    Fits mtu o.asRef := by
  have hdata : o.asRef.isData = false → ∀ p ∈ o.asRef.packets, p.Exact := by
    intro hnot p hp
    rw [Datagram.packets_of_not_isData hnot] at hp
    cases hp
  obtain ⟨_, _, _, hafter⟩ := s.afterResends_frame now iter
  have hmtu : (s.afterResends now iter).mtu = mtu := by rw [hafter]; exact h.mtu
  obtain htracked | hack | hnak := onTick_out ho
  · exact h.outgoing.tracked _ htracked
  · refine ⟨hdata (buildAckDatagram_notData _ o hack), ?_⟩
    have := buildAckDatagram_size (hmtu ▸ hlo) hack
    rwa [hmtu] at this
  · have hmtu' : (s.afterResends now iter).buildAckDatagram.2.mtu = mtu := by rw [buildAckDatagram_state]; exact hmtu
    refine ⟨hdata (buildNakDatagram_notData _ o hnak), ?_⟩
    have := buildNakDatagram_size (hmtu' ▸ hlo) hnak
    rwa [hmtu'] at this

theorem withinMtu_after {mtu : Nat} (hlo : 576 ≤ mtu) (hhi : mtu ≤ 1400) (tunables : SessionTunables) (ops : List Op) :
    WithinMtu mtu (after mtu tunables ops : Session F) :=
  Machine.run_inv_all (fun _ op h => h.step hlo hhi op) ops ⟨.new mtu tunables, rfl⟩

/-- The MTU bound: for every MTU from 576 to 1400, after any sequence of operations on a session,
every datagram that `build_data_datagram` or `on_tick` returns and that encodes is encoded in `size()`
bytes, and with the IP and UDP headers it is no longer than the MTU. -/
theorem datagrams_within_mtu (mtu : Nat) (hlo : 576 ≤ mtu) (hhi : mtu ≤ 1400) (tunables : SessionTunables)
    (ops : List Op) (now : Instant) (iter : IterOrder SplitEntries.Item) (o : OutgoingDatagram)
    (ho : ((after mtu tunables ops : Session F).buildDataDatagram now).1 = some o ∨
      o ∈ ((after mtu tunables ops : Session F).onTick now iter).1) (bytes : Bytes) (hb : o.encode = .ok bytes) :
    bytes.length = o.asRef.size ∧ Datagram.ipv4HeaderSize + Datagram.udpHeaderSize + bytes.length ≤ mtu := by
  have hinv := withinMtu_after (F := F) hlo hhi tunables ops
  have hfits : Fits mtu o.asRef := ho.elim (hinv.built hlo) (hinv.ticked hlo)
  have hlen : bytes.length = o.asRef.size := Datagram.encode_length hfits.exact hb
  exact ⟨hlen, by rw [hlen]; exact hfits.size⟩

/-- A packet that fills a datagram of the smallest MTU: 534 payload bytes behind 42 header bytes. -/
def fullPacket : Op := .queuePacket (.userData 0x80 (List.replicate 533 0)) .reliableOrdered 0 .normal

theorem datagrams_within_mtu_full :
    ∃ o bytes, ((after 576 {} [fullPacket] : Session ℚ).buildDataDatagram 0).1 = some o ∧ o.encode = .ok bytes ∧
      bytes.length = 548 ∧
    (bytes.length = o.asRef.size ∧ Datagram.ipv4HeaderSize + Datagram.udpHeaderSize + bytes.length ≤ 576) := by
  have hout : ((after 576 {} [fullPacket] : Session ℚ).buildDataDatagram 0).1 =
      some (.shared ⟨⟨DatagramFlags.valid.or .hasBAndAs, Sequence24.new 0⟩, .encapsulatedPackets
        [singleEncap (0x80 :: List.replicate 533 0) .reliableOrdered 0 (some (Sequence24.new 0))
          (some (Sequence24.new 0))]⟩) := by
    decide +kernel
  refine ⟨_, _, hout, rfl, by decide +kernel, ?_⟩
  exact datagrams_within_mtu 576 (by decide) (by decide) {} [fullPacket] 0 (IterOrder.stored _) _ (.inl hout) _ rfl

end Session

end BedrockRs.Raknet

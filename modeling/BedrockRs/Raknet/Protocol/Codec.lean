/-
The codec of DATA datagrams. A frame is well formed when its optional fields are there exactly when
its reliability and its split flag call for them and its payload has the length its bit length gives;
what `encode` writes for such a frame is what `decode` takes off the buffer, whatever follows, and
every frame `decode` returns is well formed. A datagram reads frames up to the end of the buffer, so
its round trip is an induction over the frames.
-/
import BedrockRs.Lib.Codec
import BedrockRs.Raknet.Protocol.Datagram

namespace BedrockRs.Raknet

open BedrockRs.Lib.Codec

/-! ## Integers -/

/-- A disjunction of bits above and bits below position `i` is a sum. -/
theorem or_eq_add {a b : Nat} (i : Nat) (ha : a % 2 ^ i = 0) (hb : b < 2 ^ i) : a ||| b = a + b := by
  obtain ⟨k, rfl⟩ := Nat.dvd_of_mod_eq_zero ha
  rw [Nat.mul_comm, ← Nat.shiftLeft_eq, Nat.shiftLeft_add_eq_or_of_lt hb]

theorem u8_reads (v : UInt8) : Reads Get.u8 [v] v := fun _ => rfl

theorem u16_reads (v : UInt16) : Reads Get.u16 (Put.u16 v) v := by
  intro rest
  have hv : ((v >>> 8).toUInt8.toUInt16 <<< 8) ||| v.toUInt8.toUInt16 = v := by
    apply UInt16.toNat_inj.1
    have := v.toNat_lt
    simp only [UInt16.toNat_or, UInt16.toNat_shiftLeft, UInt8.toNat_toUInt16, UInt16.toNat_toUInt8,
      UInt16.toNat_shiftRight, Nat.shiftRight_eq_div_pow, Nat.shiftLeft_eq, UInt16.reduceToNat, Nat.reduceMod,
      Nat.reducePow]
    rw [or_eq_add 8 (by omega) (by omega)]
    omega
  show Except.ok (_, rest) = _
  rw [hv]

theorem u32_reads (v : UInt32) : Reads Get.u32 (Put.u32 v) v := by
  intro rest
  have hv : ((v >>> 24).toUInt8.toUInt32 <<< 24) ||| ((v >>> 16).toUInt8.toUInt32 <<< 16) |||
      ((v >>> 8).toUInt8.toUInt32 <<< 8) ||| v.toUInt8.toUInt32 = v := by
    apply UInt32.toNat_inj.1
    have := v.toNat_lt
    simp only [UInt32.toNat_or, UInt32.toNat_shiftLeft, UInt8.toNat_toUInt32, UInt32.toNat_toUInt8,
      UInt32.toNat_shiftRight, Nat.shiftRight_eq_div_pow, Nat.shiftLeft_eq, UInt32.reduceToNat, Nat.reduceMod,
      Nat.reducePow]
    generalize v.toNat = n at *
    -- the bytes are joined from the top, so each sum ends where the next byte starts
    have h1 : n / 16777216 % 256 * 16777216 % 4294967296 ||| n / 65536 % 256 * 65536 % 4294967296 =
        n / 65536 * 65536 := by
      rw [or_eq_add 24 (by omega) (by omega)]; omega
    have h2 : n / 65536 * 65536 ||| n / 256 % 256 * 256 % 4294967296 = n / 256 * 256 := by
      rw [or_eq_add 16 (by omega) (by omega)]; omega
    rw [h1, h2, or_eq_add 8 (by omega) (by omega)]
    omega
  show Except.ok (_, rest) = _
  rw [hv]

theorem sequence24_reads (v : Sequence24) : Reads Get.sequence24 (Put.sequence24 v) v := by
  intro rest
  show Except.ok (_, rest) = _
  congr 2
  apply Sequence24.ext
  have := v.isLt
  simp only [Sequence24.val_new, UInt8.toNat_ofNat']
  omega

theorem bytes_reads {n : Nat} {bs : Bytes} (h : bs.length = n) : Reads (Get.bytes n) bs bs := by
  intro rest
  subst h
  unfold Get.bytes
  rw [if_neg (by rw [List.length_append]; omega), List.take_left, List.drop_left]

/-! ## Frames -/

namespace EncapsulatedPacket

/-- Each optional field is there exactly when the reliability and the split flag call for it, and the
payload has the length that the bit length gives. -/
structure WellFormed (p : EncapsulatedPacket) : Prop where
  reliable : p.reliableIndex.isSome = p.header.reliability.isReliable
  sequenced : p.sequenceIndex.isSome = p.header.reliability.isSequenced
  ordering : p.orderingIndex.isSome = (p.header.reliability.isOrdered || p.header.reliability.isSequenced)
  channel : p.orderingChannel.isSome = (p.header.reliability.isOrdered || p.header.reliability.isSequenced)
  split : p.split.isSome = p.header.isSplit
  payload : p.payload.length = p.payloadLen

theorem header_decode {b : UInt8} {h : EncapsulatedPacketHeader} (hb : EncapsulatedPacketHeader.fromByte b = .ok h)
    (rest : Bytes) : EncapsulatedPacketHeader.decode (b :: rest) = .ok (h, rest) := by
  unfold EncapsulatedPacketHeader.decode
  simp only [bind, StateT.bind, Get.u8, Except.bind, hb]
  rfl

theorem header_reads (h : EncapsulatedPacketHeader) : Reads EncapsulatedPacketHeader.decode [h.toByte] h := by
  have hb : EncapsulatedPacketHeader.fromByte h.toByte = .ok h := by
    obtain ⟨rel, split, bas⟩ := h
    cases rel <;> cases split <;> cases bas <;> decide
  exact fun rest => header_decode hb rest

theorem split_reads (split : SplitInfo) :
    Reads (do return ⟨← Get.u32, ← Get.u16, ← Get.u32⟩) (Put.u32 split.count ++ Put.u16 split.id ++ Put.u32 split.index)
      split := by
  rw [List.append_assoc, ← List.append_nil (Put.u32 split.index)]
  exact (u32_reads split.count).bind ((u16_reads split.id).bind ((u32_reads split.index).bind (.pure split)))

/-- What `encodePart` writes for a field that is there exactly when it is wanted, `decodePart` reads. -/
theorem part_reads {α : Type} {wanted : Bool} {field : Option α} (e : EncodeError) {put : α → Bytes} {item : Get α}
    (hitem : ∀ a, Reads item (put a) a) (h : field.isSome = wanted) :
    ∃ bs, encodePart wanted field e put = .ok bs ∧ Reads (decodePart wanted item) bs field := by
  subst h
  cases field with
  | none => exact ⟨[], rfl, .pure none⟩
  | some a => exact ⟨put a, rfl, (hitem a).map some⟩

/-- A well-formed frame is encoded to at least three bytes, which decode to it. -/
theorem WellFormed.reads {p : EncapsulatedPacket} (h : p.WellFormed) :
    ∃ bs, p.encode = .ok bs ∧ 3 ≤ bs.length ∧ Reads decode bs p := by
  obtain ⟨b1, e1, r1⟩ := part_reads .missingReliableIndex sequence24_reads h.reliable
  obtain ⟨b2, e2, r2⟩ := part_reads .missingSequenceIndex sequence24_reads h.sequenced
  obtain ⟨b3, e3, r3⟩ := part_reads .missingOrderingIndex sequence24_reads h.ordering
  obtain ⟨b4, e4, r4⟩ := part_reads .missingOrderingChannel u8_reads h.channel
  obtain ⟨b5, e5, r5⟩ := part_reads .missingSplitInfo split_reads h.split
  refine ⟨p.header.toByte :: Put.u16 p.bitLength ++ b1 ++ b2 ++ b3 ++ b4 ++ b5 ++ p.payload, ?_, ?_, ?_⟩
  · unfold encode
    simp only [e1, e2, e3, e4, e5, bind, Except.bind]
    rfl
  · simp only [Put.u16, List.length_append, List.length_cons]
    omega
  · have hr : Reads decode ([p.header.toByte] ++ (Put.u16 p.bitLength ++ (b1 ++ (b2 ++ (b3 ++ (b4 ++ (b5 ++
        (p.payload ++ [])))))))) p :=
      (header_reads p.header).bind <| (u16_reads p.bitLength).bind <| r1.bind <| r2.bind <| r3.bind <| r4.bind <|
        r5.bind <| (bytes_reads h.payload).bind <| .pure p
    simpa only [List.append_assoc, List.append_nil, List.cons_append, List.nil_append] using hr

theorem decodePart_isSome {α : Type} {wanted : Bool} {item : Get α} {src rest : Bytes} {field : Option α}
    (h : decodePart wanted item src = .ok (field, rest)) : field.isSome = wanted := by
  unfold decodePart at h
  cases wanted with
  | false =>
    obtain ⟨rfl, -⟩ := pure_ok.1 h
    rfl
  | true =>
    obtain ⟨a, -, rfl⟩ := map_ok.1 h
    rfl

theorem bytes_length {n : Nat} {src rest bs : Bytes} (h : Get.bytes n src = .ok (bs, rest)) : bs.length = n := by
  unfold Get.bytes at h
  split at h
  · cases h
  · cases h
    rw [List.length_take]
    omega

/-- Every frame that `decode` returns is well formed. -/
theorem decode_wellFormed {src rest : Bytes} {p : EncapsulatedPacket} (h : decode src = .ok (p, rest)) :
    p.WellFormed := by
  obtain ⟨header, _, -, h⟩ := bind_ok.1 h
  obtain ⟨bitLength, _, -, h⟩ := bind_ok.1 h
  obtain ⟨reliableIndex, _, h1, h⟩ := bind_ok.1 h
  obtain ⟨sequenceIndex, _, h2, h⟩ := bind_ok.1 h
  obtain ⟨orderingIndex, _, h3, h⟩ := bind_ok.1 h
  obtain ⟨orderingChannel, _, h4, h⟩ := bind_ok.1 h
  obtain ⟨split, _, h5, h⟩ := bind_ok.1 h
  obtain ⟨payload, _, h6, h⟩ := bind_ok.1 h
  obtain ⟨rfl, -⟩ := pure_ok.1 h
  exact ⟨decodePart_isSome h1, decodePart_isSome h2, decodePart_isSome h3, decodePart_isSome h4, decodePart_isSome h5,
    bytes_length h6⟩

end EncapsulatedPacket

/-! ## DATA datagrams -/

namespace Datagram

/-- A DATA datagram that uses only defined flags, neither ACK nor NACK, and whose frames are well
formed. -/
structure WellFormed (d : Datagram) : Prop where
  isData : d.isData = true
  defined : DatagramFlags.fromBitsTruncate d.header.flags.bits = d.header.flags
  notAck : d.header.flags.contains .ack = false
  notNack : d.header.flags.contains .nack = false
  packets : ∀ p ∈ d.packets, p.WellFormed

/-- Well-formed frames in a row are read back up to the end of the buffer. -/
theorem decodePackets_encode : ∀ {ps : List EncapsulatedPacket}, (∀ p ∈ ps, p.WellFormed) →
    ∃ frames, ps.mapM EncapsulatedPacket.encode = .ok frames ∧
      ∀ fuel, frames.flatten.length ≤ fuel → decodePackets fuel frames.flatten = .ok (ps, [])
  | [], _ => by
    refine ⟨[], rfl, fun fuel _ => ?_⟩
    cases fuel <;> rfl
  | p :: ps, h => by
    obtain ⟨b, hb, hlen, hread⟩ := (h p (List.mem_cons_self ..)).reads
    obtain ⟨frames, hf, hrest⟩ := decodePackets_encode fun q hq => h q (List.mem_cons_of_mem _ hq)
    refine ⟨b :: frames, ?_, ?_⟩
    · rw [List.mapM_cons, hb]
      simp only [bind, Except.bind, hf]
      rfl
    · intro fuel hfuel
      rw [List.flatten_cons, List.length_append] at hfuel
      obtain ⟨fuel, rfl⟩ := Nat.exists_eq_succ_of_ne_zero (n := fuel) (by omega)
      rw [List.flatten_cons]
      have hne : ¬ (b ++ frames.flatten).length = 0 := by rw [List.length_append]; omega
      show (if (b ++ frames.flatten).length = 0 then pure [] else
        (EncapsulatedPacket.decode >>= fun p => decodePackets fuel >>= fun rest => pure (p :: rest)) : Get _) _ = _
      rw [if_neg hne]
      exact bind_ok.2 ⟨p, _, hread _, bind_ok.2 ⟨ps, [], hrest fuel (by omega), rfl⟩⟩

/-- Every frame read on the way to the end of the buffer is well formed. -/
theorem decodePackets_wellFormed : ∀ {fuel : Nat} {src rest : Bytes} {ps : List EncapsulatedPacket},
    decodePackets fuel src = .ok (ps, rest) → ∀ p ∈ ps, p.WellFormed
  | 0, _, _, _, h => by
    obtain ⟨rfl, -⟩ := pure_ok.1 h
    exact fun p hp => absurd hp List.not_mem_nil
  | fuel + 1, src, rest, ps, h => by
    have h' : (if src.length = 0 then pure [] else
      (EncapsulatedPacket.decode >>= fun p => decodePackets fuel >>= fun rest => pure (p :: rest)) : Get _) src =
        .ok (ps, rest) := h
    split at h'
    · obtain ⟨rfl, -⟩ := pure_ok.1 h'
      exact fun p hp => absurd hp List.not_mem_nil
    · obtain ⟨p, _, hp, h'⟩ := bind_ok.1 h'
      obtain ⟨tail, _, htail, h'⟩ := bind_ok.1 h'
      obtain ⟨rfl, -⟩ := pure_ok.1 h'
      intro q hq
      rcases List.mem_cons.1 hq with rfl | hq
      · exact EncapsulatedPacket.decode_wellFormed hp
      · exact decodePackets_wellFormed htail q hq

theorem WellFormed.decode_encode {d : Datagram} (h : d.WellFormed) :
    ∃ bs, d.encode = .ok bs ∧ decode.run bs = .ok (d, []) := by
  obtain ⟨⟨flags, sequence⟩, payload⟩ := d
  obtain ⟨hdata, hdef, hack, hnack, hps⟩ := h
  cases payload with
  | nak _ => cases hdata
  | ack _ => cases hdata
  | encapsulatedPackets ps =>
    obtain ⟨frames, hf, hread⟩ := decodePackets_encode (show ∀ p ∈ ps, p.WellFormed from hps)
    refine ⟨flags.bits :: Put.sequence24 sequence ++ frames.flatten, ?_, ?_⟩
    · simp only [encode, hf, bind, Except.bind]
      rfl
    · simp only at hdef hack hnack
      have hseq := sequence24_reads sequence frames.flatten
      have hpure : ∀ {α : Type} (a : α) (src : Bytes), (StateT.pure a : Get α) src = .ok (a, src) := fun _ _ => rfl
      simp only [decode, StateT.run, bind, StateT.bind, Get.u8, List.cons_append, Except.bind, hdef, hack, hnack,
        Bool.false_eq_true, if_false, hseq, Get.remaining, get, getThe, MonadStateOf.get, StateT.get, pure, Except.pure,
        hpure, hread _ (Nat.le_refl _)]

/-- A byte string that decodes to a DATA datagram decodes to a well-formed one. -/
theorem decode_wellFormed {src rest : Bytes} {d : Datagram} (h : decode.run src = .ok (d, rest))
    (hdata : d.isData = true) : d.WellFormed := by
  obtain ⟨raw, _, -, h⟩ := bind_ok.1 (show decode src = _ from h)
  have htrunc : ∀ b : UInt8, DatagramFlags.fromBitsTruncate (DatagramFlags.fromBitsTruncate b).bits =
      DatagramFlags.fromBitsTruncate b := by
    intro b
    show DatagramFlags.mk (b &&& 252 &&& 252) = ⟨b &&& 252⟩
    rw [UInt8.and_assoc, UInt8.and_self]
  split at h
  · obtain ⟨payload, _, -, h⟩ := bind_ok.1 h
    obtain ⟨rfl, -⟩ := pure_ok.1 h
    cases hdata
  · rename_i hack
    split at h
    · obtain ⟨payload, _, -, h⟩ := bind_ok.1 h
      obtain ⟨rfl, -⟩ := pure_ok.1 h
      cases hdata
    · rename_i hnack
      obtain ⟨sequence, _, -, h⟩ := bind_ok.1 h
      obtain ⟨n, _, -, h⟩ := bind_ok.1 h
      obtain ⟨ps, _, hps, h⟩ := bind_ok.1 h
      obtain ⟨rfl, -⟩ := pure_ok.1 h
      exact ⟨rfl, htrunc raw, Bool.eq_false_iff.2 hack, Bool.eq_false_iff.2 hnack, decodePackets_wellFormed hps⟩

/-- The DATA codec: a well-formed datagram encodes to bytes that decode to it and are all consumed;
whatever decodes to a DATA datagram is well formed, and encoding it again loses nothing. -/
theorem data_roundTrip :
    (∀ d : Datagram, d.WellFormed → ∃ bs, d.encode = .ok bs ∧ decode.run bs = .ok (d, [])) ∧
      ∀ (b rest : Bytes) (d : Datagram), decode.run b = .ok (d, rest) → d.isData = true →
        d.WellFormed ∧ ∃ bs, d.encode = .ok bs ∧ decode.run bs = .ok (d, []) := by
  refine ⟨fun d h => h.decode_encode, fun b rest d h hdata => ?_⟩
  have hwf := decode_wellFormed h hdata
  exact ⟨hwf, hwf.decode_encode⟩

/-- One ordered frame and one split frame with a bit length that is no multiple of eight. -/
def twoFrames : Datagram where
  header := ⟨.valid, Sequence24.new 0x010203⟩
  payload := .encapsulatedPackets
    [⟨⟨.reliableOrdered, false, false⟩, 16, some (Sequence24.new 7), none, some (Sequence24.new 1), some 3, none,
      [0xfe, 1]⟩, ⟨⟨.unreliable, true, true⟩, 3, none, none, none, none, some ⟨2, 9, 1⟩, [5]⟩]

/-- The bytes of `twoFrames`, with the reserved bits set in the flags byte. -/
def twoFramesBytes : Bytes :=
  [0x83, 3, 2, 1, 0x60, 0, 16, 7, 0, 0, 1, 0, 0, 3, 0xfe, 1, 0x14, 0, 3, 0, 0, 0, 2, 0, 9, 0, 0, 0, 1, 5]

theorem data_roundTrip_twoFrames :
    (twoFrames.WellFormed ∧ ∃ bs, twoFrames.encode = .ok bs ∧ decode.run bs = .ok (twoFrames, [])) ∧
      decode.run twoFramesBytes = .ok (twoFrames, []) ∧ twoFrames.encode ≠ .ok twoFramesBytes := by
  have hd : decode.run twoFramesBytes = .ok (twoFrames, []) := by decide +kernel
  obtain ⟨hwf, -⟩ := data_roundTrip.2 twoFramesBytes [] twoFrames hd rfl
  exact ⟨⟨hwf, data_roundTrip.1 twoFrames hwf⟩, hd, by decide +kernel⟩

end Datagram

end BedrockRs.Raknet

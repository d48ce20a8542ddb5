/-
Which byte strings `Datagram::decode` takes for a DATA datagram. It looks at the ACK and NAK bits of the
first byte only, skips the three bytes of the sequence number and then reads frames to the end; a
frame is as long as its own header and bit length say, whatever stands in it. So a byte string is
taken exactly when its bytes from the fifth on are frames one after the other. The offline packets
share their leading bytes with this grammar: the magic rules it out for the two connection requests,
but a ping starts with eight bytes of the sender's choice.
-/
import BedrockRs.Raknet.Protocol.Codec
import BedrockRs.Raknet.Protocol.Registry

namespace BedrockRs.Raknet

open BedrockRs.Lib.Codec

/-! ## Frames by their length -/

/-- The length of a frame with this header and bit length. -/
def EncapsulatedPacketHeader.frameLength (h : EncapsulatedPacketHeader) (bitLength : UInt16) : Nat :=
  let rel := h.reliability
  3 + (if rel.isReliable then 3 else 0) + (if rel.isSequenced then 3 else 0) +
    (if rel.isOrdered || rel.isSequenced then 3 + 1 else 0) + (if h.isSplit then 4 + 2 + 4 else 0) +
    (bitLength.toNat + 7) >>> 3

/-- Bytes that are exactly as long as a frame with their first byte and bit length. -/
def IsFrame (f : Bytes) : Prop :=
  ∃ b hi lo body h, f = b :: hi :: lo :: body ∧ EncapsulatedPacketHeader.fromByte b = .ok h ∧
    f.length = h.frameLength ((hi.toUInt16 <<< 8) ||| lo.toUInt16)

/-- Frames one after the other. -/
def Framed (src : Bytes) : Prop := ∃ frames : List Bytes, (∀ f ∈ frames, IsFrame f) ∧ src = frames.flatten

theorem u16_takes : Takes Get.u16 2 := fun
  | [] | [_] => ⟨fun h => absurd h (by simp), fun _ => ⟨_, rfl⟩⟩
  | _ :: _ :: _ => ⟨fun _ => ⟨_, rfl⟩, fun h => absurd h (by simp)⟩

theorem u8_takes : Takes Get.u8 1 := fun
  | [] => ⟨fun h => absurd h (by simp), fun _ => ⟨_, rfl⟩⟩
  | _ :: _ => ⟨fun _ => ⟨_, rfl⟩, fun h => absurd h (by simp)⟩

theorem u32_takes : Takes Get.u32 4 := fun
  | [] | [_] | [_, _] | [_, _, _] => ⟨fun h => absurd h (by simp), fun _ => ⟨_, rfl⟩⟩
  | _ :: _ :: _ :: _ :: _ => ⟨fun _ => ⟨_, rfl⟩, fun h => absurd h (by simp)⟩

theorem sequence24_takes : Takes Get.sequence24 3 := fun
  | [] | [_] | [_, _] => ⟨fun h => absurd h (by simp), fun _ => ⟨_, rfl⟩⟩
  | _ :: _ :: _ :: _ => ⟨fun _ => ⟨_, rfl⟩, fun h => absurd h (by simp)⟩

theorem bytes_takes (n : Nat) : Takes (Get.bytes n) n := by
  intro src
  unfold Get.bytes
  constructor
  · intro h
    exact ⟨src.take n, by rw [if_neg (by omega)]⟩
  · intro h
    exact ⟨.unexpectedEof, by rw [if_pos h]⟩

namespace EncapsulatedPacket

theorem part_takes {α : Type} {item : Get α} {n : Nat} (h : Takes item n) (wanted : Bool) :
    Takes (decodePart wanted item) (if wanted then n else 0) := by
  unfold decodePart
  split
  · exact h.map some
  · exact .pure none

theorem fromByte_ok (b : UInt8) : ∃ h, EncapsulatedPacketHeader.fromByte b = .ok h := by
  have h : ∀ n : Fin 256, (EncapsulatedPacketHeader.fromByte (UInt8.ofNat n)).isOk = true := by decide +kernel
  have hb := h ⟨b.toNat, b.toNat_lt⟩
  simp only [UInt8.ofNat_toNat] at hb
  cases hf : EncapsulatedPacketHeader.fromByte b with
  | error e => rw [hf] at hb; cases hb
  | ok header => exact ⟨header, rfl⟩

theorem header_takes : Takes EncapsulatedPacketHeader.decode 1 := by
  unfold EncapsulatedPacketHeader.decode
  refine Takes.bind (n := 1) (k := 0) u8_takes fun b => ?_
  obtain ⟨header, hb⟩ := fromByte_ok b
  rw [hb]
  exact .pure header

/-- The part of `decode` after header and bit length. -/
def decodeFields (header : EncapsulatedPacketHeader) (bitLength : UInt16) : Get EncapsulatedPacket := do
  let rel := header.reliability
  let hasOrdering := rel.isOrdered || rel.isSequenced
  let reliableIndex ← decodePart rel.isReliable Get.sequence24
  let sequenceIndex ← decodePart rel.isSequenced Get.sequence24
  let orderingIndex ← decodePart hasOrdering Get.sequence24
  let orderingChannel ← decodePart hasOrdering Get.u8
  let split ← decodePart header.isSplit do return ⟨← Get.u32, ← Get.u16, ← Get.u32⟩
  let payload ← Get.bytes ((bitLength.toNat + 7) >>> 3)
  return ⟨header, bitLength, reliableIndex, sequenceIndex, orderingIndex, orderingChannel, split, payload⟩

theorem decode_eq {b : UInt8} {header : EncapsulatedPacketHeader} (h : EncapsulatedPacketHeader.fromByte b = .ok header)
    (hi lo : UInt8) (tail : Bytes) :
    decode (b :: hi :: lo :: tail) = decodeFields header ((hi.toUInt16 <<< 8) ||| lo.toUInt16) tail := by
  show ((EncapsulatedPacketHeader.decode (b :: hi :: lo :: tail)).bind _) = _
  rw [header_decode h]
  rfl

theorem decodeFields_takes (header : EncapsulatedPacketHeader) (bitLength : UInt16) :
    Takes (decodeFields header bitLength) (header.frameLength bitLength - 3) := by
  have hsplit : Takes (do return ⟨← Get.u32, ← Get.u16, ← Get.u32⟩ : Get SplitInfo) (4 + (2 + (4 + 0))) :=
    u32_takes.bind fun _ => u16_takes.bind fun _ => u32_takes.bind fun _ => .pure _
  have hfields := (part_takes sequence24_takes header.reliability.isReliable).bind fun reliableIndex =>
    (part_takes sequence24_takes header.reliability.isSequenced).bind fun sequenceIndex =>
    (part_takes sequence24_takes (header.reliability.isOrdered || header.reliability.isSequenced)).bind
      fun orderingIndex =>
    (part_takes u8_takes (header.reliability.isOrdered || header.reliability.isSequenced)).bind fun orderingChannel =>
    (part_takes hsplit header.isSplit).bind fun split =>
    (bytes_takes ((bitLength.toNat + 7) >>> 3)).bind fun payload => Takes.pure
      (⟨header, bitLength, reliableIndex, sequenceIndex, orderingIndex, orderingChannel, split, payload⟩ :
        EncapsulatedPacket)
  have hlen : header.frameLength bitLength - 3 = (if header.reliability.isReliable then 3 else 0) +
      ((if header.reliability.isSequenced then 3 else 0) +
      ((if header.reliability.isOrdered || header.reliability.isSequenced then 3 else 0) +
      ((if header.reliability.isOrdered || header.reliability.isSequenced then 1 else 0) +
      ((if header.isSplit then 4 + (2 + (4 + 0)) else 0) + ((bitLength.toNat + 7) >>> 3 + 0))))) := by
    unfold EncapsulatedPacketHeader.frameLength
    dsimp only
    split_ifs <;> omega
  rw [hlen]
  exact hfields

/-- `decode` takes exactly one frame. -/
theorem decode_ok_iff {src rest : Bytes} : (∃ p, decode src = .ok (p, rest)) ↔ ∃ f, IsFrame f ∧ src = f ++ rest := by
  constructor
  · rintro ⟨p, hp⟩
    have hlen : 3 ≤ src.length := by
      obtain ⟨header, tail, hheader, hp⟩ := bind_ok.1 hp
      obtain ⟨bitLength, tail', hbits, -⟩ := bind_ok.1 hp
      obtain ⟨-, rfl⟩ := header_takes.ok_iff.1 ⟨_, hheader⟩
      have hle := (u16_takes.ok_iff.1 ⟨_, hbits⟩).1
      rw [List.length_drop] at hle
      omega
    -- the first three bytes say how long the frame is, and the reader looks at its length only
    match src, hlen with
    | b :: hi :: lo :: tail, _ =>
      obtain ⟨header, hb⟩ := fromByte_ok b
      rw [decode_eq hb] at hp
      obtain ⟨hle, rfl⟩ := (decodeFields_takes header _).ok_iff.1 ⟨p, hp⟩
      have hfull : 3 ≤ header.frameLength ((hi.toUInt16 <<< 8) ||| lo.toUInt16) := by
        unfold EncapsulatedPacketHeader.frameLength
        dsimp only
        omega
      refine ⟨b :: hi :: lo :: tail.take (header.frameLength ((hi.toUInt16 <<< 8) ||| lo.toUInt16) - 3),
        ⟨b, hi, lo, _, header, rfl, hb, ?_⟩, ?_⟩
      · simp only [List.length_cons, List.length_take]
        omega
      · simp only [List.cons_append, List.take_append_drop]
  · rintro ⟨f, ⟨b, hi, lo, body, header, rfl, hb, hlen⟩, rfl⟩
    have htakes := decodeFields_takes header ((hi.toUInt16 <<< 8) ||| lo.toUInt16)
    simp only [List.length_cons] at hlen
    rw [show header.frameLength ((hi.toUInt16 <<< 8) ||| lo.toUInt16) - 3 = body.length by omega] at htakes
    simp only [List.cons_append, decode_eq hb]
    exact htakes.ok_iff.2 ⟨by simp, by simp⟩

end EncapsulatedPacket

/-! ## Datagrams -/

theorem IsFrame.length_pos {f : Bytes} (h : IsFrame f) : 0 < f.length := by
  obtain ⟨b, hi, lo, body, header, rfl, -, -⟩ := h
  simp

/-- Bytes are framed when they start with a frame and the rest is framed. -/
theorem framed_iff {src : Bytes} (hne : src ≠ []) :
    Framed src ↔ ∃ f rest, IsFrame f ∧ src = f ++ rest ∧ Framed rest := by
  constructor
  · rintro ⟨frames, hframes, rfl⟩
    cases frames with
    | nil => exact absurd rfl hne
    | cons f frames =>
      exact ⟨f, frames.flatten, hframes f (List.mem_cons_self ..), List.flatten_cons ..,
        frames, fun g hg => hframes g (List.mem_cons_of_mem _ hg), rfl⟩
  · rintro ⟨f, rest, hf, rfl, frames, hframes, rfl⟩
    refine ⟨f :: frames, fun g hg => ?_, (List.flatten_cons ..).symm⟩
    rcases List.mem_cons.1 hg with rfl | hg
    · exact hf
    · exact hframes g hg

namespace Datagram

/-- With fuel for every byte, the frames are read exactly when the bytes are framed. -/
theorem decodePackets_ok_iff : ∀ {fuel : Nat} {src : Bytes}, src.length ≤ fuel →
    ((∃ ps rest, decodePackets fuel src = .ok (ps, rest)) ↔ Framed src)
  | 0, src, h => by
    obtain rfl := List.length_eq_zero_iff.1 (Nat.le_zero.1 h)
    exact ⟨fun _ => ⟨[], by simp, rfl⟩, fun _ => ⟨[], [], rfl⟩⟩
  | fuel + 1, [], h => ⟨fun _ => ⟨[], by simp, rfl⟩, fun _ => ⟨[], [], rfl⟩⟩
  | fuel + 1, b :: src, h => by
    have heq : decodePackets (fuel + 1) (b :: src) =
        (EncapsulatedPacket.decode >>= fun p => decodePackets fuel >>= fun ps => pure (p :: ps)) (b :: src) := rfl
    rw [framed_iff (by simp), heq]
    constructor
    · rintro ⟨ps, rest, hps⟩
      obtain ⟨p, mid, hp, hps⟩ := bind_ok.1 hps
      obtain ⟨ps', rest', hps', -⟩ := bind_ok.1 hps
      obtain ⟨f, hf, hsrc⟩ := EncapsulatedPacket.decode_ok_iff.1 ⟨p, hp⟩
      have hlen := congrArg List.length hsrc
      rw [List.length_append] at hlen
      have hmid : mid.length ≤ fuel := by have := hf.length_pos; omega
      exact ⟨f, mid, hf, hsrc, (decodePackets_ok_iff hmid).1 ⟨ps', rest', hps'⟩⟩
    · rintro ⟨f, mid, hf, hsrc, hmid⟩
      obtain ⟨p, hp⟩ := EncapsulatedPacket.decode_ok_iff.2 ⟨f, hf, hsrc⟩
      have hlen := congrArg List.length hsrc
      rw [List.length_append] at hlen
      have hle : mid.length ≤ fuel := by have := hf.length_pos; omega
      obtain ⟨ps, rest, hps⟩ := (decodePackets_ok_iff hle).2 hmid
      exact ⟨p :: ps, rest, bind_ok.2 ⟨p, mid, hp, bind_ok.2 ⟨ps, rest, hps, pure_ok.2 ⟨rfl, rfl⟩⟩⟩⟩

/-- A byte string without the ACK and NAK bits decodes exactly when it has a sequence number and is
framed behind it. -/
theorem decode_ok_iff {b : UInt8} (hack : (DatagramFlags.fromBitsTruncate b).contains .ack = false)
    (hnack : (DatagramFlags.fromBitsTruncate b).contains .nack = false) (tail : Bytes) :
    (∃ d rest, decode (b :: tail) = .ok (d, rest)) ↔ 3 ≤ tail.length ∧ Framed (tail.drop 3) := by
  have heq : decode (b :: tail) =
    (Get.sequence24 >>= fun seq => Get.remaining >>= fun n => decodePackets n >>= fun ps =>
      (pure ⟨⟨DatagramFlags.fromBitsTruncate b, seq⟩, .encapsulatedPackets ps⟩ : Get Datagram)) tail := by
    show (if (DatagramFlags.fromBitsTruncate b).contains .ack then _
      else if (DatagramFlags.fromBitsTruncate b).contains .nack then _ else _ : Get Datagram) tail = _
    rw [hack, hnack]
    rfl
  rw [heq]
  constructor
  · rintro ⟨d, rest, hd⟩
    obtain ⟨seq, mid, hseq, hd⟩ := bind_ok.1 hd
    obtain ⟨hlen, rfl⟩ := sequence24_takes.ok_iff.1 ⟨seq, hseq⟩
    obtain ⟨n, mid, hn, hd⟩ := bind_ok.1 hd
    cases hn
    obtain ⟨ps, mid, hps, -⟩ := bind_ok.1 hd
    exact ⟨hlen, (decodePackets_ok_iff (Nat.le_refl _)).1 ⟨ps, mid, hps⟩⟩
  · rintro ⟨hlen, hframed⟩
    obtain ⟨seq, hseq⟩ := sequence24_takes.ok_iff.2 ⟨hlen, rfl⟩
    obtain ⟨ps, rest, hps⟩ := (decodePackets_ok_iff (Nat.le_refl _)).2 hframed
    exact ⟨_, rest, bind_ok.2 ⟨seq, _, hseq, bind_ok.2 ⟨_, _, rfl, bind_ok.2 ⟨ps, rest, hps, pure_ok.2 ⟨rfl, rfl⟩⟩⟩⟩⟩

end Datagram

/-! ## Offline packets -/

namespace RaknetPacket

/-- The two kinds of unconnected ping. -/
def isPing : RaknetPacket → Bool
  | unconnectedPing _ | unconnectedPingOpenConnections _ => true
  | _ => false

/-- The packets that a listener answers without a session. -/
def isOfflineRequest : RaknetPacket → Bool
  | unconnectedPing _ | unconnectedPingOpenConnections _ | openConnectionRequest1 _ | openConnectionRequest2 _ => true
  | _ => false

theorem offlineRequest_id {pkt : RaknetPacket} (h : pkt.isOfflineRequest = true) :
    pkt.id ∈ ([0x01, 0x02, 0x05, 0x07] : List UInt8) := by
  cases pkt <;> simp_all [isOfflineRequest, RaknetPacket.id]

end RaknetPacket

theorem vector_u8_ok : ∀ {n : Nat} {src rest : Bytes} {v : List.Vector UInt8 n},
    Get.vector Get.u8 n src = .ok (v, rest) → src = v.toList ++ rest
  | 0, src, rest, v, h => by
    obtain ⟨rfl, rfl⟩ := pure_ok.1 h
    rfl
  | n + 1, src, rest, v, h => by
    obtain ⟨b, mid, hb, h⟩ := bind_ok.1 h
    obtain ⟨w, mid', hw, h⟩ := bind_ok.1 h
    obtain ⟨rfl, rfl⟩ := pure_ok.1 h
    cases src with
    | nil => cases hb
    | cons a src =>
      cases hb
      rw [vector_u8_ok hw, List.Vector.toList_cons, List.cons_append]

theorem defaultMagic_ok {src rest : Bytes} {magic : Magic} (h : Get.defaultMagic src = .ok (magic, rest)) :
    magic = defaultUnconnectedMagic ∧ src = defaultUnconnectedMagic.toList ++ rest := by
  obtain ⟨m, mid, hm, h⟩ := bind_ok.1 h
  have heq : m = defaultUnconnectedMagic ∧ magic = m ∧ mid = rest := by
    by_cases hne : m = defaultUnconnectedMagic
    · rw [if_neg (not_not_intro hne)] at h
      obtain ⟨rfl, rfl⟩ := pure_ok.1 h
      exact ⟨hne, rfl, rfl⟩
    · rw [if_pos hne] at h
      cases h
  obtain ⟨rfl, rfl, rfl⟩ := heq
  obtain ⟨n, mid', hn, hm⟩ := bind_ok.1 hm
  cases hn
  by_cases hlen : src.length < 16
  · rw [if_pos hlen] at hm
    cases hm
  · rw [if_neg hlen] at hm
    exact ⟨rfl, vector_u8_ok hm⟩

/-- The bytes behind the third of the magic call for a frame of more than eight thousand bytes. -/
theorem magic_not_framed {rest : Bytes} (h : rest.length ≤ 2048) :
    ¬ Framed ((defaultUnconnectedMagic.toList ++ rest).drop 3) := by
  have hdrop : (defaultUnconnectedMagic.toList ++ rest).drop 3 =
      0x00 :: 0xfe :: 0xfe :: ([0xfe, 0xfe, 0xfd, 0xfd, 0xfd, 0xfd, 0x12, 0x34, 0x56, 0x78] ++ rest) := rfl
  rw [hdrop, framed_iff (by simp)]
  rintro ⟨f, rest', ⟨b, hi, lo, body, header, rfl, hb, hlen⟩, hsrc, -⟩
  have htotal := congrArg List.length hsrc
  simp only [List.length_append, List.length_cons, List.length_nil] at htotal
  simp only [List.cons_append, List.cons.injEq] at hsrc
  obtain ⟨rfl, rfl, rfl, -⟩ := hsrc
  have hheader : EncapsulatedPacketHeader.fromByte 0x00 = .ok ⟨.unreliable, false, false⟩ := rfl
  rw [hheader] at hb
  cases hb
  have hframe : EncapsulatedPacketHeader.frameLength ⟨.unreliable, false, false⟩
      (((0xfe : UInt8).toUInt16 <<< 8) ||| (0xfe : UInt8).toUInt16) = 8163 := by decide
  rw [hframe] at hlen
  simp only [List.length_cons] at hlen
  omega

/-- An offline request of at most 2048 bytes is also a datagram exactly when it is a ping whose bytes from
the fifth on are framed. -/
theorem RaknetPacket.datagram_decode_iff {bytes : Bytes} {pkt : RaknetPacket} (h : decodeFrom bytes = .ok pkt)
    (hoff : pkt.isOfflineRequest = true) (hlen : bytes.length ≤ 2048) :
    (∃ d rest, Datagram.decode bytes = .ok (d, rest)) ↔ pkt.isPing = true ∧ Framed (bytes.drop 4) := by
  obtain ⟨tail, rfl, hbody⟩ := decodeFrom_ok h
  rw [List.length_cons] at hlen
  have hping : ∀ {p : UnconnectedPing} {rest : Bytes}, UnconnectedPing.decode tail = .ok (p, rest) →
      3 ≤ tail.length := by
    intro p rest hp
    obtain ⟨time, mid, htime, -⟩ := bind_ok.1 hp
    match tail, htime with
    | _ :: _ :: _ :: _ :: _ :: _ :: _ :: _ :: _, _ => simp
  -- the magic stands where the first frame would, and gives it a length beyond the end
  have hmagic : ∀ {m : Magic} {rest : Bytes}, Get.defaultMagic tail = .ok (m, rest) → ¬ Framed (tail.drop 3) := by
    intro m rest hm
    rw [(defaultMagic_ok hm).2]
    apply magic_not_framed
    rw [(defaultMagic_ok hm).2, List.length_append] at hlen
    omega
  -- no request's id has the bits of an ACK or a NAK, so the rest is read as frames
  have hflags : (DatagramFlags.fromBitsTruncate pkt.id).contains .ack = false ∧
      (DatagramFlags.fromBitsTruncate pkt.id).contains .nack = false := by
    have hids : ([0x01, 0x02, 0x05, 0x07] : List UInt8).all fun id => decide
        ((DatagramFlags.fromBitsTruncate id).contains .ack = false ∧
          (DatagramFlags.fromBitsTruncate id).contains .nack = false) := by decide
    exact of_decide_eq_true (List.all_eq_true.1 hids pkt.id (offlineRequest_id hoff))
  rw [Datagram.decode_ok_iff hflags.1 hflags.2]
  show _ ∧ Framed (tail.drop 3) ↔ _ ∧ Framed (tail.drop 3)
  cases pkt with
  | unconnectedPing req | unconnectedPingOpenConnections req =>
    obtain ⟨rest, hdec⟩ := hbody _ rfl
    obtain ⟨p, hp, -⟩ := map_ok.1 hdec
    exact ⟨fun hd => ⟨rfl, hd.2⟩, fun hd => ⟨hping hp, hd.2⟩⟩
  | openConnectionRequest1 req | openConnectionRequest2 req =>
    obtain ⟨rest, hdec⟩ := hbody _ rfl
    obtain ⟨p, hp, -⟩ := map_ok.1 hdec
    obtain ⟨m, mid, hm, -⟩ := bind_ok.1 hp
    exact ⟨fun hd => absurd hd.2 (hmagic hm), fun hd => (nomatch hd.1)⟩
  | _ => cases hoff

end BedrockRs.Raknet

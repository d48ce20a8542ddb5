/-
The sizes the protocol announces and the bytes its encoders write. `EncapsulatedPacket::size` counts
the payload by the bit length, so a frame is written in `size` bytes exactly when its payload has that
length; the sizes of ACK and NAK payloads count a wrapping range as the two records it is sent in.
-/
import BedrockRs.Raknet.Protocol.Datagram

namespace BedrockRs.Raknet

@[simp] theorem Put.length_u16 (v : UInt16) : (Put.u16 v).length = 2 := rfl

@[simp] theorem Put.length_sequence24 (v : Sequence24) : (Put.sequence24 v).length = 3 := rfl

/-! ## Frames -/

namespace EncapsulatedPacket

theorem encodePart_length {α : Type} {wanted : Bool} {field : Option α} {e : EncodeError} {put : α → Bytes} {n : Nat}
    (hput : ∀ a, (put a).length = n) {bs : Bytes} (h : encodePart wanted field e put = .ok bs) :
    bs.length = if wanted then n else 0 := by
  unfold encodePart at h
  split at h
  · rename_i hw
    rw [if_pos hw]
    split at h
    · cases h
      exact hput _
    · cases h
  · rename_i hw
    rw [if_neg hw]
    cases h
    rfl

theorem bind_eq_ok {α β : Type} {x : Except EncodeError α} {f : α → Except EncodeError β} {b : β}
    (h : x >>= f = .ok b) : ∃ a, x = .ok a ∧ f a = .ok b := by
  cases x with
  | error e => cases h
  | ok a => exact ⟨a, rfl, h⟩

/-- The payload is written as it is, whatever the bit length says; everything else has its size. -/
theorem encode_length {p : EncapsulatedPacket} {bs : Bytes} (h : p.encode = .ok bs) :
    bs.length + p.payloadLen = p.size + p.payload.length := by
  unfold encode at h
  obtain ⟨b1, h1, h⟩ := bind_eq_ok h
  obtain ⟨b2, h2, h⟩ := bind_eq_ok h
  obtain ⟨b3, h3, h⟩ := bind_eq_ok h
  obtain ⟨b4, h4, h⟩ := bind_eq_ok h
  obtain ⟨b5, h5, h⟩ := bind_eq_ok h
  cases h
  have l1 := encodePart_length Put.length_sequence24 h1
  have l2 := encodePart_length Put.length_sequence24 h2
  have l3 := encodePart_length Put.length_sequence24 h3
  have l4 := encodePart_length (n := 1) (fun _ => rfl) h4
  have l5 := encodePart_length (n := 10) (fun _ => rfl) h5
  simp only [size, List.length_append, List.length_cons, Put.length_u16, l1, l2, l3, l4, l5]
  cases p.header.reliability.isOrdered || p.header.reliability.isSequenced <;> simp <;> omega

end EncapsulatedPacket

/-! ## ACK and NAK payloads -/

theorem SequenceRange.length_encode (r : SequenceRange) : r.encode.length = r.size := by
  unfold SequenceRange.encode SequenceRange.size
  by_cases h : r.start = r.end <;> simp [h, Put.bool]

/-- What the payload writes for one range, in one record or in two. -/
theorem SequenceRange.length_records (r : SequenceRange) :
    (match r.splitWrapping with
      | some (tail, head) => tail.encode ++ head.encode
      | none => r.encode).length = r.encodedSize := by
  unfold SequenceRange.encodedSize
  cases r.splitWrapping with
  | none => exact r.length_encode
  | some halves => simp only [List.length_append, SequenceRange.length_encode]

theorem AckNackPayload.length_encode (p : AckNackPayload) : p.encode.length = p.size := by
  rw [AckNackPayload.encode, AckNackPayload.size, List.length_append, Put.length_u16, List.length_flatMap]
  congr 2
  exact List.map_congr_left fun r _ => r.length_records

/-! ## Datagrams -/

namespace Datagram

theorem mapM_encode_length : ∀ {ps : List EncapsulatedPacket} {frames : List Bytes},
    (∀ p ∈ ps, p.payload.length = p.payloadLen) → ps.mapM EncapsulatedPacket.encode = .ok frames →
      frames.flatten.length = (ps.map EncapsulatedPacket.size).sum
  | [], frames, _, h => by
    cases h
    rfl
  | p :: ps, frames, hps, h => by
    rw [List.mapM_cons] at h
    obtain ⟨b, hb, h⟩ := EncapsulatedPacket.bind_eq_ok h
    obtain ⟨bs, hbs, h⟩ := EncapsulatedPacket.bind_eq_ok h
    cases h
    have hp := EncapsulatedPacket.encode_length hb
    rw [hps p (List.mem_cons_self ..)] at hp
    have ih := mapM_encode_length (fun q hq => hps q (List.mem_cons_of_mem _ hq)) hbs
    rw [List.flatten_cons, List.length_append, ih, List.map_cons, List.sum_cons]
    omega

/-- A datagram whose payloads have the lengths their bit lengths give is written in `size` bytes. -/
theorem encode_length {d : Datagram} (hd : ∀ p ∈ d.packets, p.payload.length = p.payloadLen) {bs : Bytes}
    (h : d.encode = .ok bs) : bs.length = d.size := by
  obtain ⟨header, payload⟩ := d
  cases payload with
  | encapsulatedPackets ps =>
    obtain ⟨frames, hf, h⟩ := EncapsulatedPacket.bind_eq_ok h
    cases h
    have hlen : frames.flatten.length = (ps.map EncapsulatedPacket.size).sum := mapM_encode_length hd hf
    simp only [size, raknetDatagramHeaderSize, List.length_cons, List.length_append, Put.length_sequence24, hlen]
  | nak payload | ack payload =>
    cases h
    rw [List.length_cons, AckNackPayload.length_encode, size, Nat.add_comm]

/-- The first byte on the wire holds the flags. -/
theorem encode_head {d : Datagram} {bytes : Bytes} (h : d.encode = .ok bytes) :
    ∃ tail, bytes = d.header.flags.bits :: tail := by
  unfold encode at h
  split at h
  · obtain ⟨frames, -, h⟩ := EncapsulatedPacket.bind_eq_ok h
    cases h
    exact ⟨_, rfl⟩
  · cases h
    exact ⟨_, rfl⟩
  · cases h
    exact ⟨_, rfl⟩

end Datagram

end BedrockRs.Raknet

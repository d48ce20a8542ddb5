/-
The registry of packet identifiers (`define_raknet_packets` of `protocol/packet/registry.rs`): the 25
identifiers it matches on, and that the rest is user data. A registered body decodes to its own kind
of packet or stops with an error, and that error is never `UnknownId`, which only code outside the
registry could raise.
-/
import BedrockRs.Lib.Codec
import BedrockRs.Raknet.Protocol.Packet

namespace BedrockRs.Raknet

open BedrockRs.Lib.Codec

/-- The identifiers of the built-in packets, in the order of `define_raknet_packets`. -/
def registeredIds : List UInt8 :=
  [0x00, 0x03, 0x01, 0x1c, 0x02, 0x05, 0x06, 0x07, 0x08, 0x09, 0x10, 0x11, 0x12, 0x13, 0x04, 0x14, 0x15, 0x16,
    0x17, 0x19, 0x1a, 0x1b, 0x1d, 0xa0, 0xc0]

theorem RaknetPacket.isUserId_iff (id : UInt8) : IsUserId id ↔ id ∉ registeredIds := by
  have h : ∀ n : Fin 256, IsUserId (UInt8.ofNat n) ↔ UInt8.ofNat n ∉ registeredIds := by decide +kernel
  simpa using h ⟨id.toNat, id.toNat_lt⟩

/-! ## The errors of a body -/

/-- Any error but `UnknownId`. -/
def DecodeError.IsKnown (e : DecodeError) : Prop := ∀ id, e ≠ .unknownId id

namespace Get

theorem u8_known : FailsWith DecodeError.IsKnown u8
  | [], _, h => by cases h; exact fun _ => nofun

theorem u16_known : FailsWith DecodeError.IsKnown u16
  | [], _, h | [_], _, h => by cases h; exact fun _ => nofun

theorem u16le_known : FailsWith DecodeError.IsKnown u16le
  | [], _, h | [_], _, h => by cases h; exact fun _ => nofun

theorem u32_known : FailsWith DecodeError.IsKnown u32
  | [], _, h | [_], _, h | [_, _], _, h | [_, _, _], _, h => by cases h; exact fun _ => nofun

theorem u64_known : FailsWith DecodeError.IsKnown u64
  | [], _, h | [_], _, h | [_, _], _, h | [_, _, _], _, h | [_, _, _, _], _, h | [_, _, _, _, _], _, h
  | [_, _, _, _, _, _], _, h | [_, _, _, _, _, _, _], _, h => by cases h; exact fun _ => nofun

theorem sequence24_known : FailsWith DecodeError.IsKnown sequence24
  | [], _, h | [_], _, h | [_, _], _, h => by cases h; exact fun _ => nofun

theorem remaining_known : FailsWith DecodeError.IsKnown remaining := fun _ _ h => nomatch h

theorem rest_known : FailsWith DecodeError.IsKnown rest := fun _ _ h => nomatch h

theorem bytes_known (n : Nat) : FailsWith DecodeError.IsKnown (bytes n) := by
  intro src e h
  unfold bytes at h
  split at h <;> cases h
  exact fun _ => nofun

theorem bool_known : FailsWith DecodeError.IsKnown bool := u8_known.bind fun _ => .pure _

theorem vector_known {α : Type} {item : Get α} (h : FailsWith DecodeError.IsKnown item) :
    ∀ n, FailsWith DecodeError.IsKnown (vector item n)
  | 0 => .pure _
  | n + 1 => h.bind fun _ => (vector_known h n).bind fun _ => .pure _

theorem list_known {α : Type} {item : Get α} (h : FailsWith DecodeError.IsKnown item) :
    ∀ n, FailsWith DecodeError.IsKnown (list item n)
  | 0 => .pure _
  | n + 1 => h.bind fun _ => (list_known h n).bind fun _ => .pure _

theorem magic_known : FailsWith DecodeError.IsKnown magic :=
  remaining_known.bind fun _ => .ite (.throw fun _ => nofun) (vector_known u8_known 16)

theorem defaultMagic_known : FailsWith DecodeError.IsKnown defaultMagic :=
  magic_known.bind fun _ => .ite (.throw fun _ => nofun) (.pure _)

theorem advertisement_known : FailsWith DecodeError.IsKnown advertisement :=
  remaining_known.bind fun _ => .ite (.pure _) (u16_known.bind fun _ => (bytes_known _).bind fun _ => .pure _)

end Get

open Get

theorem SocketAddr.decode_known : FailsWith DecodeError.IsKnown SocketAddr.decode :=
  u8_known.bind fun _ => .ite
    (remaining_known.bind fun _ => .ite (.throw fun _ => nofun)
      ((vector_known u8_known 4).bind fun _ => u16_known.bind fun _ => .pure _))
    (.ite
      (remaining_known.bind fun _ => .ite (.throw fun _ => nofun)
        (u16le_known.bind fun _ => u16_known.bind fun _ => u32_known.bind fun _ =>
          (vector_known u8_known 16).bind fun _ => u32_known.bind fun _ => .pure _))
      (.throw fun _ => nofun))

theorem SequenceRange.decode_known : FailsWith DecodeError.IsKnown SequenceRange.decode :=
  bool_known.bind fun _ => sequence24_known.bind fun _ =>
    .ite ((FailsWith.pure _).bind fun _ => .pure _) (sequence24_known.bind fun _ => .pure _)

theorem AckNackPayload.decode_known : FailsWith DecodeError.IsKnown AckNackPayload.decode :=
  u16_known.bind fun _ => .ite (.throw fun _ => nofun)
    ((list_known SequenceRange.decode_known _).bind fun _ => .pure _)

theorem DisconnectReason.decode_known : FailsWith DecodeError.IsKnown DisconnectReason.decode := by
  apply u8_known.bind
  intro v
  split <;> first | exact .pure _ | exact .throw fun _ => nofun

theorem LegacyPayload.decode_known (id : UInt8) : FailsWith DecodeError.IsKnown (LegacyPayload.decode id) :=
  rest_known.bind fun _ => .throw fun _ => nofun

theorem OpenConnectionRequest2.decode_known : FailsWith DecodeError.IsKnown OpenConnectionRequest2.decode := by
  apply defaultMagic_known.bind
  intro magic
  refine FailsWith.bind ?_ fun _ => SocketAddr.decode_known.bind fun _ => u16_known.bind fun _ =>
    u64_known.bind fun _ => .pure _
  intro src e h
  cases src with
  | nil => cases h; exact fun _ => nofun
  | cons first rest =>
    simp only at h
    split at h
    · -- the four cookie bytes are all that can be missing here
      have hget : FailsWith DecodeError.IsKnown (get : Get Bytes) := fun _ _ h => by cases h
      have hset : ∀ src, FailsWith DecodeError.IsKnown (set src : Get PUnit) := fun src _ e h =>
        nomatch (show (Except.ok (PUnit.unit, src) : Except DecodeError (PUnit × Bytes)) = .error e from h)
      exact (u32_known.bind fun _ => hget.bind fun _ => (hset _).bind fun _ => .pure _) _ e h
    · cases h

namespace RaknetPacket

/-- `body` reads a control packet, and what it fails with is not `UnknownId`. -/
structure IsControl (body : Get RaknetPacket) : Prop where
  known : FailsWith DecodeError.IsKnown body
  kind : ∀ src rest id payload, body src ≠ .ok (userData id payload, rest)

theorem IsControl.map {α : Type} {body : Get α} (h : FailsWith DecodeError.IsKnown body) {f : α → RaknetPacket}
    (hf : ∀ a id payload, f a ≠ userData id payload) : IsControl (f <$> body) := by
  refine ⟨h.map f, fun src rest id payload hb => ?_⟩
  obtain ⟨a, -, ha⟩ := map_ok.1 hb
  exact hf a id payload ha

theorem IsControl.pure {pkt : RaknetPacket} (hp : ∀ id payload, pkt ≠ userData id payload) :
    IsControl (Pure.pure pkt) := by
  refine ⟨.pure pkt, fun src rest id payload hb => ?_⟩
  exact hp id payload (pure_ok.1 hb).1

/-- Every registered body reads a control packet. -/
theorem decodeBody_isControl {id : UInt8} {body : Get RaknetPacket} (h : decodeBody id = some body) :
    IsControl body := by
  have hpong : FailsWith DecodeError.IsKnown UnconnectedPong.decode :=
    u64_known.bind fun _ => u64_known.bind fun _ => defaultMagic_known.bind fun _ => advertisement_known.bind fun _ =>
      .pure _
  have hping : FailsWith DecodeError.IsKnown UnconnectedPing.decode :=
    u64_known.bind fun _ => defaultMagic_known.bind fun _ => .pure _
  have hguid : FailsWith DecodeError.IsKnown MagicGuid.decode :=
    defaultMagic_known.bind fun _ => u64_known.bind fun _ => .pure _
  have hsystem := vector_known SocketAddr.decode_known 10
  unfold decodeBody at h
  -- one case for each registered id, in the order of the registry
  split at h <;> cases h
  · exact .map (u64_known.bind fun _ => .pure _) nofun
  · exact .map (u64_known.bind fun _ => u64_known.bind fun _ => .pure _) nofun
  · exact .map hping nofun
  · exact .map hpong nofun
  · exact .map hping nofun
  · exact .map (defaultMagic_known.bind fun _ => u8_known.bind fun _ =>
      (rest_known.bind fun _ => .pure _).bind fun _ => .pure _) nofun
  · exact .map (defaultMagic_known.bind fun _ => u64_known.bind fun _ => bool_known.bind fun _ => .ite
      ((u32_known.map some).bind fun _ => u16_known.bind fun _ => .pure _)
      ((FailsWith.pure _).bind fun _ => u16_known.bind fun _ => .pure _)) nofun
  · exact .map OpenConnectionRequest2.decode_known nofun
  · exact .map (defaultMagic_known.bind fun _ => u64_known.bind fun _ => SocketAddr.decode_known.bind fun _ =>
      u16_known.bind fun _ => bool_known.bind fun _ => .pure _) nofun
  · exact .map (u64_known.bind fun _ => u64_known.bind fun _ => bool_known.bind fun _ => .pure _) nofun
  · exact .map (SocketAddr.decode_known.bind fun _ => u16_known.bind fun _ => hsystem.bind fun _ =>
      u64_known.bind fun _ => u64_known.bind fun _ => .pure _) nofun
  · exact .map hguid nofun
  · exact .map hguid nofun
  · exact .map (SocketAddr.decode_known.bind fun _ => hsystem.bind fun _ => u64_known.bind fun _ =>
      u64_known.bind fun _ => .pure _) nofun
  · exact .pure nofun
  · exact .pure nofun
  · exact .map
      (remaining_known.bind fun _ => .ite (.pure _) (DisconnectReason.decode_known.bind fun _ => .pure _)) nofun
  · exact .map (LegacyPayload.decode_known _) nofun
  · exact .map (LegacyPayload.decode_known _) nofun
  · exact .map (u8_known.bind fun _ => defaultMagic_known.bind fun _ => u64_known.bind fun _ => .pure _) nofun
  · exact .pure nofun
  · exact .map (LegacyPayload.decode_known _) nofun
  · exact .map hpong nofun
  · exact .map AckNackPayload.decode_known nofun
  · exact .map AckNackPayload.decode_known nofun

/-- A registered body reads a packet of its own identifier. -/
theorem decodeBody_id {id : UInt8} {body : Get RaknetPacket} (h : decodeBody id = some body) {src rest : Bytes}
    {pkt : RaknetPacket} (hb : body src = .ok (pkt, rest)) : pkt.id = id := by
  unfold decodeBody at h
  split at h <;> cases h <;> rename_i hid <;> apply UInt8.toNat_inj.1 <;> rw [hid]
  all_goals first
    | obtain ⟨a, -, rfl⟩ := map_ok.1 hb
      rfl
    | obtain ⟨rfl, -⟩ := pure_ok.1 hb
      rfl

/-- What `decode` returns starts with its own identifier. -/
theorem decodeFrom_ok {src : Bytes} {pkt : RaknetPacket} (h : decodeFrom src = .ok pkt) :
    ∃ tail, src = pkt.id :: tail ∧ ∀ body, decodeBody pkt.id = some body → ∃ rest, body tail = .ok (pkt, rest) := by
  cases src with
  | nil => cases h
  | cons id tail =>
    cases hbody : decodeBody id with
    | none =>
      rw [decodeFrom_userData hbody] at h
      cases h
      exact ⟨tail, rfl, fun body hb => by rw [show (userData id tail).id = id from rfl, hbody] at hb; cases hb⟩
    | some body =>
      rw [decodeFrom_registered hbody] at h
      cases hb : body tail with
      | error e =>
        rw [hb] at h
        cases h
      | ok p =>
        obtain ⟨pkt', rest⟩ := p
        rw [hb] at h
        cases h
        have hid := decodeBody_id hbody hb
        refine ⟨tail, by rw [hid], fun body' hbody' => ⟨rest, ?_⟩⟩
        rw [hid, hbody] at hbody'
        cases hbody'
        exact hb

end RaknetPacket

end BedrockRs.Raknet

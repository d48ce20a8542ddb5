/-
Every control packet is read back as it was written. What the wire does not carry is named once, in
`Carried`: a magic other than the default one, an empty or overlong advertisement, a wrapping range,
a cookie that reads as an address, and the three legacy packets. The proof flag of the second request
is written and skipped, so it comes back unset.
-/
import BedrockRs.Raknet.Protocol.AckRoundTrip

namespace BedrockRs.Raknet

open BedrockRs.Lib.Codec

/-! ## Fields -/

theorem vector_reads {α : Type} {item : Get α} {put : α → Bytes} (hitem : ∀ a, Reads item (put a) a) :
    ∀ {n : Nat} (v : List.Vector α n), Reads (Get.vector item n) (v.toList.flatMap put) v
  | 0, v => by
    rw [List.Vector.eq_nil v]
    exact .pure _
  | n + 1, v => by
    obtain ⟨a, w, rfl⟩ := v.exists_eq_cons
    rw [List.Vector.toList_cons, List.flatMap_cons, ← List.append_nil (w.toList.flatMap put)]
    exact (hitem a).bind ((vector_reads hitem w).bind (.pure _))

theorem DisconnectReason.reads (reason : DisconnectReason) : Reads decode [reason.toByte] reason := by
  cases reason <;> exact fun _ => rfl

/-- An advertisement is the last field of its packets: what is left of the buffer tells if there is one. -/
theorem advertisement_decode {ad : Advertisement} (h : ∀ bytes ∈ ad, 1 ≤ bytes.length ∧ bytes.length ≤ 65535) :
    Get.advertisement (Put.advertisement ad) = .ok (ad, []) := by
  cases ad with
  | none => rfl
  | some bytes =>
    obtain ⟨hpos, hmax⟩ := h bytes rfl
    have hnonempty : bytes.isEmpty = false := by
      cases bytes with
      | nil => simp at hpos
      | cons b bs => rfl
    have hput : Put.advertisement (some bytes) = Put.u16 (UInt16.ofNat bytes.length) ++ (bytes ++ []) := by
      simp only [Put.advertisement, hnonempty, Bool.false_eq_true, if_false,
        Nat.min_eq_left (show bytes.length ≤ 2 ^ 16 - 1 from hmax), List.take_length, List.append_nil]
    have hlen : bytes.length = (UInt16.ofNat bytes.length).toNat :=
      (UInt16.toNat_ofNat_of_lt' (by simp only [UInt16.size]; omega)).symm
    have hread :
      Reads (do return some (← Get.bytes (← Get.u16).toNat)) (Put.u16 (UInt16.ofNat bytes.length) ++ (bytes ++ []))
        (some bytes) :=
      (u16_reads _).bind ((bytes_reads hlen).bind (.pure _))
    -- the two length bytes are there, so the buffer is not empty
    have hne : ¬ (Put.u16 (UInt16.ofNat bytes.length) ++ (bytes ++ [])).length = 0 := by
      simp [Put.u16]
    rw [hput]
    refine bind_ok.2 ⟨_, _, rfl, ?_⟩
    rw [if_neg hne]
    exact hread.all

/-! ## Bodies -/

theorem ConnectedPing.reads (p : ConnectedPing) : Reads decode p.encode p := (u64_reads p.pingTime).map ConnectedPing.mk

theorem ConnectedPong.reads (p : ConnectedPong) : Reads decode p.encode p := by
  unfold encode
  rw [← List.append_nil (Put.u64 p.pongTime)]
  exact (u64_reads _).bind ((u64_reads _).bind (.pure _))

theorem DisconnectionNotification.reads (p : DisconnectionNotification) : Reads decode p.encode p := by
  intro rest
  exact map_ok.2 ⟨p.reason, p.reason.reads rest, rfl⟩

theorem UnconnectedPing.reads (time : RaknetTime) :
    Reads decode (encode ⟨time, defaultUnconnectedMagic⟩) ⟨time, defaultUnconnectedMagic⟩ := by
  unfold encode
  rw [← List.append_nil defaultUnconnectedMagic.toList]
  exact (u64_reads time).bind (defaultMagic_reads.bind (.pure _))

theorem UnconnectedPong.decode_encode {ad : Advertisement} (h : ∀ bytes ∈ ad, 1 ≤ bytes.length ∧ bytes.length ≤ 65535)
    (time : RaknetTime) (guid : UInt64) :
    decode (encode ⟨time, guid, defaultUnconnectedMagic, ad⟩) =
      .ok (⟨time, guid, defaultUnconnectedMagic, ad⟩, []) := by
  unfold encode
  rw [List.append_assoc, List.append_assoc]
  exact bind_ok.2 ⟨_, _, u64_reads time _, bind_ok.2 ⟨_, _, u64_reads guid _, bind_ok.2 ⟨_, _, defaultMagic_reads _,
    bind_ok.2 ⟨_, _, advertisement_decode h, rfl⟩⟩⟩⟩

theorem OpenConnectionReply1.reads_all (guid : UInt64) (cookie : Option UInt32) (mtu : UInt16) :
    Reads decode (encode ⟨defaultUnconnectedMagic, guid, cookie, mtu⟩)
    ⟨defaultUnconnectedMagic, guid, cookie, mtu⟩ := by
  cases cookie with
  | some cookie => exact OpenConnectionReply1.reads guid cookie mtu
  | none =>
    have hfields : Reads decode (defaultUnconnectedMagic.toList ++ (Put.u64 guid ++ (Put.bool false ++ ([] ++
        (Put.u16 mtu ++ []))))) ⟨defaultUnconnectedMagic, guid, none, mtu⟩ :=
      defaultMagic_reads.bind <| (u64_reads guid).bind <| (bool_reads false).bind <| (Reads.pure none).bind <|
        (u16_reads mtu).bind <| .pure _
    simpa only [encode, Option.isSome_none, List.append_assoc, List.append_nil, List.nil_append] using hfields

/-- Without a cookie the address follows the magic, and its version byte says so. -/
theorem OpenConnectionRequest2.decode_encode_none (proof : Bool) (addr : SocketAddr) (mtu : UInt16) (guid : UInt64) :
    decode (encode ⟨defaultUnconnectedMagic, none, proof, addr, mtu, guid⟩) =
      .ok (⟨defaultUnconnectedMagic, none, false, addr, mtu, guid⟩, []) := by
  have hbytes : encode ⟨defaultUnconnectedMagic, none, proof, addr, mtu, guid⟩ =
      defaultUnconnectedMagic.toList ++ (addr.encode ++ (Put.u16 mtu ++ (Put.u64 guid ++ []))) := by
    simp only [encode, List.append_assoc, List.append_nil]
  have hfields : ((do return ⟨defaultUnconnectedMagic, none, false, ← SocketAddr.decode, ← Get.u16, ← Get.u64⟩ :
      Get OpenConnectionRequest2)) (addr.encode ++ (Put.u16 mtu ++ (Put.u64 guid ++ []))) =
        .ok (⟨defaultUnconnectedMagic, none, false, addr, mtu, guid⟩, []) :=
    bind_ok.2 ⟨_, _, addr.reads _, bind_ok.2 ⟨_, _, u16_reads mtu _, bind_ok.2 ⟨_, _, u64_reads guid _, rfl⟩⟩⟩
  rw [hbytes]
  refine bind_ok.2 ⟨_, _, defaultMagic_reads _, bind_ok.2 ⟨none, _, ?_, hfields⟩⟩
  cases addr <;> rfl

theorem OpenConnectionReply2.reads (guid : UInt64) (addr : SocketAddr) (mtu : UInt16) (security : Bool) :
    Reads decode (encode ⟨defaultUnconnectedMagic, guid, addr, mtu, security⟩)
      ⟨defaultUnconnectedMagic, guid, addr, mtu, security⟩ := by
  have hfields : Reads decode (defaultUnconnectedMagic.toList ++ (Put.u64 guid ++ (addr.encode ++ (Put.u16 mtu ++
      (Put.bool security ++ []))))) ⟨defaultUnconnectedMagic, guid, addr, mtu, security⟩ :=
    defaultMagic_reads.bind <| (u64_reads guid).bind <| addr.reads.bind <| (u16_reads mtu).bind <|
      (bool_reads security).bind <| .pure _
  simpa only [encode, List.append_assoc, List.append_nil] using hfields

theorem IncompatibleProtocolVersion.reads (protocol : UInt8) (guid : UInt64) :
    Reads decode (encode ⟨protocol, defaultUnconnectedMagic, guid⟩) ⟨protocol, defaultUnconnectedMagic, guid⟩ := by
  have hfields : Reads decode ([protocol] ++ (defaultUnconnectedMagic.toList ++ (Put.u64 guid ++ [])))
      ⟨protocol, defaultUnconnectedMagic, guid⟩ :=
    (u8_reads protocol).bind <| defaultMagic_reads.bind <| (u64_reads guid).bind <| .pure _
  simpa only [encode, List.append_assoc, List.append_nil] using hfields

theorem MagicGuid.reads (guid : UInt64) :
    Reads decode (encode ⟨defaultUnconnectedMagic, guid⟩) ⟨defaultUnconnectedMagic, guid⟩ := by
  unfold encode
  rw [← List.append_nil (Put.u64 guid)]
  exact defaultMagic_reads.bind ((u64_reads guid).bind (.pure _))

theorem ConnectionRequest.reads (p : ConnectionRequest) : Reads decode p.encode p := by
  unfold encode
  rw [List.append_assoc, ← List.append_nil (Put.bool p.secure)]
  exact (u64_reads _).bind ((u64_reads _).bind ((bool_reads _).bind (.pure _)))

theorem ConnectionRequestAccepted.reads (p : ConnectionRequestAccepted) : Reads decode p.encode p := by
  have hfields :
    Reads decode (p.address.encode ++ (Put.u16 p.systemIndex ++ (p.systemAddresses.toList.flatMap SocketAddr.encode ++
      (Put.u64 p.requestTimestamp ++ (Put.u64 p.acceptedTimestamp ++ []))))) p :=
    p.address.reads.bind <| (u16_reads _).bind <| (vector_reads SocketAddr.reads p.systemAddresses).bind <|
      (u64_reads _).bind <| (u64_reads _).bind <| .pure _
  simpa only [encode, List.append_assoc, List.append_nil] using hfields

theorem NewIncomingConnection.reads (p : NewIncomingConnection) : Reads decode p.encode p := by
  have hfields : Reads decode (p.serverAddress.encode ++ (p.systemAddresses.toList.flatMap SocketAddr.encode ++
      (Put.u64 p.requestTimestamp ++ (Put.u64 p.acceptedTimestamp ++ [])))) p :=
    p.serverAddress.reads.bind <| (vector_reads SocketAddr.reads p.systemAddresses).bind <|
      (u64_reads _).bind <| (u64_reads _).bind <| .pure _
  simpa only [encode, List.append_assoc, List.append_nil] using hfields

/-- A payload of at most `MAX_ACK_SEQUENCES` ranges that do not wrap. -/
def AckNackPayload.Carried (p : AckNackPayload) : Prop :=
  p.ranges.length ≤ maxAckSequences ∧ ∀ r ∈ p.ranges, r.wraps = false

theorem AckNackPayload.Carried.reads {p : AckNackPayload} (h : p.Carried) : Reads decode p.encode p := by
  have hself := unwrapped_of_not_wraps h.2
  have hcount := length_unwrapped p
  rw [hself] at hcount
  have hreads := p.reads (hcount ▸ h.1)
  rwa [hself] at hreads

/-! ## Packets -/

namespace RaknetPacket

/-- The control packets that the wire carries, with the cookies a second request may hold. -/
def Carried (issued : UInt32 → Prop) : RaknetPacket → Prop
  | unconnectedPing body => body.magic = defaultUnconnectedMagic
  | unconnectedPingOpenConnections body => body.magic = defaultUnconnectedMagic
  | unconnectedPong body =>
    body.magic = defaultUnconnectedMagic ∧ ∀ ad ∈ body.advertisement, 1 ≤ ad.length ∧ ad.length ≤ 65535
  | advertiseSystem body =>
    body.magic = defaultUnconnectedMagic ∧ ∀ ad ∈ body.advertisement, 1 ≤ ad.length ∧ ad.length ≤ 65535
  | openConnectionRequest1 body => body.magic = defaultUnconnectedMagic
  | openConnectionReply1 body => body.magic = defaultUnconnectedMagic
  | openConnectionRequest2 body => body.magic = defaultUnconnectedMagic ∧ ∀ cookie ∈ body.cookie, issued cookie
  | openConnectionReply2 body => body.magic = defaultUnconnectedMagic
  | connectionRequestFailed body => body.magic = defaultUnconnectedMagic
  | alreadyConnected body => body.magic = defaultUnconnectedMagic
  | incompatibleProtocolVersion body => body.magic = defaultUnconnectedMagic
  | encapsulatedNak body => body.Carried
  | encapsulatedAck body => body.Carried
  | connectionLost _ | connectionBanned _ | timestamp _ | userData .. => False
  | connectedPing _ | connectedPong _ | connectionRequest _ | connectionRequestAccepted _ | newIncomingConnection _
  | detectLostConnection | noFreeIncomingConnections | disconnectionNotification _ | ipRecentlyConnected => True

/-- The packet without the proof flag, which no reader restores. -/
def withoutProof : RaknetPacket → RaknetPacket
  | openConnectionRequest2 body => openConnectionRequest2 { body with clientProof := false }
  | p => p

/-- The body of a carried packet is read by the reader its identifier is registered with. -/
theorem Carried.decodeFrom_encodeBody {issued : UInt32 → Prop}
    (hissued : ∀ cookie, issued cookie → IsUnambiguous cookie) {p : RaknetPacket} (h : p.Carried issued) :
    decodeFrom (p.id :: p.encodeBody) = .ok p.withoutProof := by
  -- a body with a magic carries the default one; the rest is the round trip of the body's own reader
  cases p with
  | connectedPing body => exact decodeFrom_of_body (f := connectedPing) rfl body.reads.all
  | connectedPong body => exact decodeFrom_of_body (f := connectedPong) rfl body.reads.all
  | unconnectedPing body =>
    obtain ⟨time, magic⟩ := body
    obtain rfl : magic = _ := h
    exact decodeFrom_of_body (f := unconnectedPing) rfl (UnconnectedPing.reads time).all
  | unconnectedPingOpenConnections body =>
    obtain ⟨time, magic⟩ := body
    obtain rfl : magic = _ := h
    exact decodeFrom_of_body (f := unconnectedPingOpenConnections) rfl (UnconnectedPing.reads time).all
  | unconnectedPong body =>
    obtain ⟨time, guid, magic, ad⟩ := body
    obtain ⟨rfl, had⟩ : magic = _ ∧ _ := h
    exact decodeFrom_of_body (f := unconnectedPong) rfl (UnconnectedPong.decode_encode had time guid)
  | advertiseSystem body =>
    obtain ⟨time, guid, magic, ad⟩ := body
    obtain ⟨rfl, had⟩ : magic = _ ∧ _ := h
    exact decodeFrom_of_body (f := advertiseSystem) rfl (UnconnectedPong.decode_encode had time guid)
  | openConnectionRequest1 body =>
    obtain ⟨magic, version, padding⟩ := body
    obtain rfl : magic = _ := h
    exact decodeFrom_request1 version padding
  | openConnectionReply1 body =>
    obtain ⟨magic, guid, cookie, mtu⟩ := body
    obtain rfl : magic = _ := h
    exact decodeFrom_of_body (f := openConnectionReply1) rfl (OpenConnectionReply1.reads_all guid cookie mtu).all
  | openConnectionRequest2 body =>
    obtain ⟨magic, cookie, proof, addr, mtu, guid⟩ := body
    obtain ⟨rfl, hcookie⟩ : magic = _ ∧ _ := h
    -- the reader tells a cookie from an address by its bytes, and issued cookies do not look like one
    cases cookie with
    | none =>
      have hbody := OpenConnectionRequest2.decode_encode_none proof addr mtu guid
      exact decodeFrom_of_body (f := openConnectionRequest2) rfl hbody
    | some cookie => exact decodeFrom_request2 (hissued cookie (hcookie cookie rfl)) proof addr mtu guid
  | openConnectionReply2 body =>
    obtain ⟨magic, guid, addr, mtu, security⟩ := body
    obtain rfl : magic = _ := h
    exact decodeFrom_of_body (f := openConnectionReply2) rfl (OpenConnectionReply2.reads guid addr mtu security).all
  | connectionRequest body => exact decodeFrom_of_body (f := connectionRequest) rfl body.reads.all
  | connectionRequestAccepted body => exact decodeFrom_of_body (f := connectionRequestAccepted) rfl body.reads.all
  | newIncomingConnection body => exact decodeFrom_of_body (f := newIncomingConnection) rfl body.reads.all
  | connectionRequestFailed body =>
    obtain ⟨magic, guid⟩ := body
    obtain rfl : magic = _ := h
    exact decodeFrom_of_body (f := connectionRequestFailed) rfl (MagicGuid.reads guid).all
  | alreadyConnected body =>
    obtain ⟨magic, guid⟩ := body
    obtain rfl : magic = _ := h
    exact decodeFrom_of_body (f := alreadyConnected) rfl (MagicGuid.reads guid).all
  | incompatibleProtocolVersion body =>
    obtain ⟨protocol, magic, guid⟩ := body
    obtain rfl : magic = _ := h
    exact decodeFrom_of_body (f := incompatibleProtocolVersion) rfl
      (IncompatibleProtocolVersion.reads protocol guid).all
  | disconnectionNotification body => exact decodeFrom_of_body (f := disconnectionNotification) rfl body.reads.all
  | detectLostConnection => rfl
  | noFreeIncomingConnections => rfl
  | ipRecentlyConnected => rfl
  | encapsulatedNak body =>
    have hbody : body.Carried := h
    exact decodeFrom_of_body (f := encapsulatedNak) rfl hbody.reads.all
  | encapsulatedAck body =>
    have hbody : body.Carried := h
    exact decodeFrom_of_body (f := encapsulatedAck) rfl hbody.reads.all
  | connectionLost _ | connectionBanned _ | timestamp _ | userData _ _ => exact h.elim

end RaknetPacket

end BedrockRs.Raknet

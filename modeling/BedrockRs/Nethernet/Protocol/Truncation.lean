/-
Discovery packets that were cut off. A receiver takes a datagram into a buffer of fixed size and loses
what does not fit. The cipher works block by block and the padding is checked at the end only, so a cut
packet may well decrypt; but its payload then ends before the packet in it does, and no authentication is
needed to reject it.
-/
import BedrockRs.Nethernet.Protocol.DiscoveryRoundTrip

namespace BedrockRs.Nethernet

open Lib BedrockRs.Lib.Codec

/-! ## Readers do not look ahead -/

theorem extends_readExact (n : Nat) : Extends (readExact n) := by
  intro src buf rest h more
  unfold readExact at h ⊢
  split_ifs at h with hlt
  cases h
  rw [if_neg (by rw [List.length_append]; omega), List.take_append_of_le_length (by omega),
    List.drop_append_of_le_length (by omega)]

theorem extends_readBytes {readLength : Get Nat} (h : Extends readLength) : Extends (readBytes readLength) :=
  h.bind fun _ => (Extends.throw _).bind (fun _ => extends_readExact _) |>.ite (extends_readExact _)

theorem extends_readBytesU32 : Extends readBytesU32 :=
  ((extends_readExact 4).map _).bind fun _ => extends_readBytes (Extends.pure _)

theorem Packet.extends_read (b : Backend) (packetId : UInt16) : Extends (read b packetId) := by
  have hresponse : Extends (readResponse b) := by
    refine extends_readBytesU32.bind fun hexData => ?_
    split
    · exact Extends.pure _
    · exact Extends.throw _
  have hmessage : Extends (readMessage b) := by
    refine ((extends_readExact 8).map _).bind fun recipientId => extends_readBytesU32.bind fun dataBytes => ?_
    split
    · exact Extends.pure _
    · exact Extends.throw _
  exact (Extends.pure _).ite (hresponse.ite (hmessage.ite (Extends.throw _)))

theorem extends_readPayload (b : Backend) : Extends (readPayload b) := by
  have hheader : Extends Header.read :=
    ((extends_readExact 2).map _).bind fun _ => ((extends_readExact 8).map _).bind fun _ =>
      (extends_readExact 8).bind fun _ => Extends.pure _
  exact ((extends_readExact 2).map _).bind fun _ => hheader.bind fun header =>
    (Packet.extends_read b header.packetId).bind fun _ => Extends.pure _

/-! ## Cut ciphertexts -/

/-- The first blocks of a ciphertext are the ciphertext of the first blocks. -/
theorem take_mapBlocks {f : Bytes → Bytes} (hf : ∀ block, block.length = 16 → (f block).length = 16) :
    ∀ (k : Nat) {n : Nat} {buf : Bytes}, k ≤ n → 16 * n ≤ buf.length →
      (mapBlocks f n buf).take (16 * k) = mapBlocks f k (buf.take (16 * k))
  | 0, _, _, _, _ => rfl
  | k + 1, 0, _, hk, _ => absurd hk (Nat.not_succ_le_zero k)
  | k + 1, n + 1, buf, hk, hlen => by
    have hblock : (f (buf.take 16)).length = 16 := hf _ (by rw [List.length_take]; omega)
    rw [mapBlocks, mapBlocks, List.take_append, hblock, List.take_of_length_le (by omega),
      show 16 * (k + 1) - 16 = 16 * k by omega, take_mapBlocks hf k (Nat.le_of_succ_le_succ hk)
      (by rw [List.length_drop]; omega), List.take_take, min_eq_left (by omega), List.drop_take,
      show 16 * (k + 1) - 16 = 16 * k by omega]

/-- Whatever the padding, `unpad` takes off at least one byte and leaves the front. -/
theorem unpad_prefix {buf out : Bytes} (h : unpad buf = .ok out) : out <+: buf ∧ out.length < buf.length := by
  unfold unpad at h
  split at h
  · rename_i paddingLen hlast
    dsimp only at h
    split_ifs at h with hpadding
    cases h
    have hpos : 0 < paddingLen.toNat := UInt8.lt_iff_toNat_lt.1 hpadding.1
    refine ⟨List.take_prefix _ _, ?_⟩
    rw [List.length_take]
    have := hpadding.2.2.1
    omega
  · cases h

/-- What a cut ciphertext decrypts to is a front part of the plain text, and lacks at least a byte. -/
theorem decrypt_cut {b : Backend} (h : b.Lawful) (buf : Bytes) {m : Nat}
    (hm : m < (mapBlocks b.encryptBlock ((pad buf).length / 16) (pad buf)).length) {out : Bytes}
    (hout : decrypt b ((mapBlocks b.encryptBlock ((pad buf).length / 16) (pad buf)).take m) = .ok out) :
    out <+: buf ∧ out ≠ buf := by
  obtain ⟨hmod, -⟩ := length_pad buf
  have hblocks : 16 * ((pad buf).length / 16) ≤ (pad buf).length := by omega
  have hlen := length_mapBlocks h.length_encryptBlock hblocks
  have hpad : (pad buf).length ≤ buf.length + 16 := by
    unfold pad
    rw [List.length_append, List.length_replicate]
    omega
  rw [hlen] at hm
  unfold decrypt at hout
  split_ifs at hout with hlength
  rw [List.length_take, hlen, min_eq_left (by omega), not_or, not_not] at hlength
  -- the cut leaves whole blocks
  obtain ⟨k, rfl⟩ : ∃ k, m = 16 * k := ⟨m / 16, by omega⟩
  have hblocks' : 16 * k ≤ (List.take (16 * k) (pad buf)).length := by
    rw [List.length_take]
    omega
  rw [take_mapBlocks h.length_encryptBlock k (by omega) hblocks, length_mapBlocks h.length_encryptBlock hblocks',
    List.length_take, min_eq_left (by omega), show 16 * k / 16 = k by omega,
    mapBlocks_mapBlocks h.length_encryptBlock h.decryptBlock_encryptBlock hblocks'] at hout
  obtain ⟨hfront, hshort⟩ := unpad_prefix hout
  rw [List.length_take] at hshort
  -- the cut took off a block at least, which is as much as the padding
  have hlt : out.length < buf.length := by omega
  have hpadded : out <+: pad buf := hfront.trans (List.take_prefix _ _)
  refine ⟨List.prefix_of_prefix_length_le hpadded (List.prefix_append _ _) hlt.le, ?_⟩
  rintro rfl
  exact Nat.lt_irrefl _ hlt

/-- What a marshalled packet consists of. -/
theorem marshal_ok {b : Backend} (h : b.Lawful) {packet : Packet} {senderId : UInt64} {bytes : Bytes}
    (hbytes : marshal b packet senderId = .ok bytes) : ∃ body, body.length = packet.bodyLen ∧
      Reads (Packet.read b packet.id) body packet ∧ bytes = b.mac (payload packet senderId body) ++
        mapBlocks b.encryptBlock ((pad (payload packet senderId body)).length / 16)
        (pad (payload packet senderId body)) := by
  have hshort : ¬ 65535 < 2 + 18 + packet.bodyLen := by
    rw [← marshal_error_iff h packet senderId, hbytes]
    rintro ⟨e, ⟨⟩⟩
  obtain ⟨body, hbody, hlen, hread⟩ := Packet.read_write h packet (by unfold maxBytes; omega)
  rw [marshal_eq hbody] at hbytes
  split_ifs at hbytes
  cases hbytes
  exact ⟨body, hlen, hread, rfl⟩

/-- The tag, and the payload in whole blocks with at least a byte of padding. -/
theorem length_marshal {b : Backend} (h : b.Lawful) {packet : Packet} {senderId : UInt64} {bytes : Bytes}
    (hbytes : marshal b packet senderId = .ok bytes) :
    bytes.length = 32 + 16 * ((2 + 18 + packet.bodyLen) / 16 + 1) := by
  obtain ⟨body, hlen, -, rfl⟩ := marshal_ok h hbytes
  have hpayload : (payload packet senderId body).length = 2 + 18 + packet.bodyLen := by
    rw [payload, List.length_append, List.length_append, length_header, U16LE.write, length_toLeBytes, hlen]
  have hpad : (pad (payload packet senderId body)).length = 16 * ((2 + 18 + packet.bodyLen) / 16 + 1) := by
    unfold pad
    rw [List.length_append, List.length_replicate, hpayload]
    omega
  rw [List.length_append, h.length_mac, length_mapBlocks h.length_encryptBlock (by omega), hpad]

theorem unmarshal_whole {b : Backend} (h : b.Lawful) {packet : Packet} {senderId : UInt64} {bytes : Bytes}
    (hbytes : marshal b packet senderId = .ok bytes) : unmarshal b bytes = .ok (packet, senderId) := by
  obtain ⟨body, -, hread, rfl⟩ := marshal_ok h hbytes
  exact unmarshal_eq h hread

/-- No front part of a marshalled packet is accepted. -/
theorem unmarshal_cut {b : Backend} (h : b.Lawful) {packet : Packet} {senderId : UInt64} {bytes : Bytes}
    (hbytes : marshal b packet senderId = .ok bytes) {n : Nat} (hn : n < bytes.length) :
    ∃ e, unmarshal b (bytes.take n) = .error e := by
  obtain ⟨body, -, hread, rfl⟩ := marshal_ok h hbytes
  have hmac := h.length_mac (payload packet senderId body)
  rw [List.length_append, hmac] at hn
  unfold unmarshal
  split_ifs with hlen
  · exact ⟨_, rfl⟩
  rw [List.length_take, List.length_append, hmac, min_eq_left (by omega)] at hlen
  rw [List.drop_take, List.drop_left' hmac]
  cases hdecrypt : decrypt b ((mapBlocks b.encryptBlock ((pad (payload packet senderId body)).length / 16)
      (pad (payload packet senderId body))).take (n - 32)) with
  | error e => exact ⟨e, rfl⟩
  | ok out =>
    obtain ⟨hfront, hne⟩ := decrypt_cut h _ (by omega) hdecrypt
    obtain ⟨e, he⟩ := (reads_payload hread).cut (extends_readPayload b) hfront hne
    simp only [bind, Except.bind, he]
    split_ifs
    · exact ⟨_, rfl⟩
    · exact ⟨_, rfl⟩

/-- What a buffer holds of a marshalled packet is that packet or none. -/
theorem unmarshal_take {b : Backend} (h : b.Lawful) {packet packet' : Packet} {senderId senderId' : UInt64}
    {bytes : Bytes} (hbytes : marshal b packet senderId = .ok bytes) {n : Nat}
    (hok : unmarshal b (bytes.take n) = .ok (packet', senderId')) :
    bytes.length ≤ n ∧ packet' = packet ∧ senderId' = senderId := by
  rcases Nat.lt_or_ge n bytes.length with hcut | hwhole
  · obtain ⟨e, he⟩ := unmarshal_cut h hbytes hcut
    rw [hok] at he
    cases he
  · rw [List.take_of_length_le hwhole, unmarshal_whole h hbytes] at hok
    cases hok
    exact ⟨hwhole, rfl, rfl⟩

/-- A receiver with a buffer of any size reads a marshalled packet back when all of it fits, and nothing else ever. -/
theorem unmarshal_truncated_iff {b : Backend} (h : b.Lawful) {packet : Packet} {senderId : UInt64} {bytes : Bytes}
    (hbytes : marshal b packet senderId = .ok bytes) (n : Nat) (out : Packet × UInt64) :
    unmarshal b (bytes.take n) = .ok out ↔ bytes.length ≤ n ∧ out = (packet, senderId) := by
  constructor
  · intro hok
    obtain ⟨hwhole, hpacket, hsender⟩ := unmarshal_take h hbytes hok
    exact ⟨hwhole, Prod.ext hpacket hsender⟩
  · rintro ⟨hwhole, rfl⟩
    rw [List.take_of_length_le hwhole]
    exact unmarshal_whole h hbytes

theorem unmarshal_truncated_iff_request : ∃ bytes, marshal recordedBackend .request 1 = .ok bytes ∧
    ∀ n out, unmarshal recordedBackend (bytes.take n) = .ok out ↔ bytes.length ≤ n ∧ out = (.request, 1) := by
  have hrequest : (marshal recordedBackend .request 1).toOption.isSome = true := by
    decide +kernel
  obtain ⟨bytes, hbytes⟩ := Option.isSome_iff_exists.1 hrequest
  have hok : marshal recordedBackend .request 1 = .ok bytes := by
    cases hm : marshal recordedBackend .request 1 with
    | error e =>
      rw [hm] at hbytes
      cases hbytes
    | ok bytes' =>
      rw [hm] at hbytes
      cases hbytes
      rfl
  exact ⟨bytes, hok, unmarshal_truncated_iff recordedBackend_lawful hok⟩

end BedrockRs.Nethernet

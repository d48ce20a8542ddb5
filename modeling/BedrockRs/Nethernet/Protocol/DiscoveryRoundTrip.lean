/-
The round trip of LAN discovery packets (`unmarshal_marshal`). Decryption undoes encryption block by block
and takes off just the padding that was put on, the reader of each packet takes exactly what its writer
appends, and the hex digits of the chunks are those of the whole data.
-/
import BedrockRs.Nethernet.Protocol.Discovery

namespace BedrockRs.Nethernet

open Lib BedrockRs.Lib.Codec

/-- Block decryption inverts block encryption, verification accepts the computed tag and no other, and hex
encoding writes two digits a byte that decoding reads back. -/
structure Backend.Lawful (b : Backend) : Prop where
  length_encryptBlock : ∀ block, block.length = 16 → (b.encryptBlock block).length = 16
  decryptBlock_encryptBlock : ∀ block, block.length = 16 → b.decryptBlock (b.encryptBlock block) = block
  length_mac : ∀ data, (b.mac data).length = 32
  verify_iff : ∀ data tag, b.verify data tag = true ↔ tag = b.mac data
  hex : ∃ digits : UInt8 → Bytes, (∀ byte, (digits byte).length = 2) ∧
    (∀ data, b.encodeToSlice data (data.length * 2) = .ok (data.flatMap digits)) ∧
    ∀ data, b.hexDecode (data.flatMap digits) = .ok data

/-! ## Encryption -/

theorem length_mapBlocks {f : Bytes → Bytes} (hf : ∀ block, block.length = 16 → (f block).length = 16) :
    ∀ {n : Nat} {buf : Bytes}, 16 * n ≤ buf.length → (mapBlocks f n buf).length = buf.length
  | 0, _, _ => rfl
  | n + 1, buf, h => by
    rw [mapBlocks, List.length_append, hf _ (by rw [List.length_take]; omega),
      length_mapBlocks hf (by rw [List.length_drop]; omega), List.length_drop]
    omega

/-- Blocks that `g` turns back one by one are turned back in place. -/
theorem mapBlocks_mapBlocks {f g : Bytes → Bytes} (hf : ∀ block, block.length = 16 → (f block).length = 16)
    (hg : ∀ block, block.length = 16 → g (f block) = block) :
    ∀ {n : Nat} {buf : Bytes}, 16 * n ≤ buf.length → mapBlocks g n (mapBlocks f n buf) = buf
  | 0, _, _ => rfl
  | n + 1, buf, h => by
    have hlen : (buf.take 16).length = 16 := by
      rw [List.length_take]
      omega
    rw [mapBlocks, mapBlocks, List.take_left' (hf _ hlen), List.drop_left' (hf _ hlen), hg _ hlen,
      mapBlocks_mapBlocks hf hg (by rw [List.length_drop]; omega), List.take_append_drop]

theorem length_pad (buf : Bytes) : (pad buf).length % 16 = 0 ∧ 0 < (pad buf).length := by
  unfold pad
  rw [List.length_append, List.length_replicate]
  omega

theorem foldl_mismatched (p : UInt8) : ∀ n : Nat,
    (List.replicate n p).foldl (fun mismatched byte => mismatched ||| (byte ^^^ p)) 0 = 0
  | 0 => rfl
  | n + 1 => by
    rw [List.replicate_succ, List.foldl_cons, UInt8.xor_self, UInt8.or_self]
    exact foldl_mismatched p n

theorem unpad_pad (buf : Bytes) : unpad (pad buf) = .ok buf := by
  obtain ⟨n, hn⟩ : ∃ n, 16 - buf.length % 16 = n + 1 := ⟨15 - buf.length % 16, by omega⟩
  have hpad : pad buf = buf ++ List.replicate (n + 1) (UInt8.ofNat (n + 1)) := by
    rw [← hn]
    rfl
  have htoNat : (UInt8.ofNat (n + 1)).toNat = n + 1 := toNat_ofNat_small (by omega)
  have hlast : (pad buf).getLast? = some (UInt8.ofNat (n + 1)) := by
    rw [hpad, List.getLast?_append, List.getLast?_replicate, if_neg (Nat.succ_ne_zero n)]
    rfl
  have hlen : (pad buf).length = buf.length + (n + 1) := by rw [hpad, List.length_append, List.length_replicate]
  have hstart : (pad buf).length - (UInt8.ofNat (n + 1)).toNat = buf.length := by
    rw [hlen, htoNat]
    omega
  have hpos : 0 < UInt8.ofNat (n + 1) := by
    rw [UInt8.lt_iff_toNat_lt, htoNat]
    exact Nat.succ_pos n
  have hle : UInt8.ofNat (n + 1) ≤ 16 := by
    rw [UInt8.le_iff_toNat_le, htoNat]
    change n + 1 ≤ 16
    omega
  -- all padding bytes are the last one
  have hmatch : ((pad buf).drop buf.length).foldl
      (fun mismatched byte => mismatched ||| (byte ^^^ UInt8.ofNat (n + 1))) 0 = 0 := by
    rw [hpad, List.drop_left]
    exact foldl_mismatched _ _
  unfold unpad
  rw [hlast]
  dsimp only
  rw [hstart, if_pos ⟨hpos, hle, by rw [hlen, htoNat]; omega, hmatch⟩, hpad, List.take_left]

theorem decrypt_encrypt {b : Backend} (h : b.Lawful) (buf : Bytes) : (encrypt b buf).bind (decrypt b) = .ok buf := by
  obtain ⟨hmod, hpos⟩ := length_pad buf
  have hblocks : 16 * ((pad buf).length / 16) ≤ (pad buf).length := by omega
  have hlen := length_mapBlocks h.length_encryptBlock hblocks
  have hne : mapBlocks b.encryptBlock ((pad buf).length / 16) (pad buf) ≠ [] :=
    List.ne_nil_of_length_pos (by rw [hlen]; exact hpos)
  show decrypt b (mapBlocks b.encryptBlock ((pad buf).length / 16) (pad buf)) = _
  rw [decrypt, if_neg (not_or.2 ⟨hne, by rw [hlen]; omega⟩), hlen,
    mapBlocks_mapBlocks h.length_encryptBlock h.decryptBlock_encryptBlock hblocks, unpad_pad]

/-! ## Bodies -/

theorem flatten_chunks {n : Nat} (hn : 0 < n) (data : Bytes) : (chunks n data).flatten = data := by
  induction data using chunks.induct n with
  | case1 data h =>
    rw [chunks, if_pos h, h.resolve_right hn.ne']
    rfl
  | case2 data h ih => rw [chunks, if_neg h, List.flatten_cons, ih, List.take_append_drop]

theorem encodeChunks_eq {b : Backend} {digits : UInt8 → Bytes}
    (h : ∀ data, b.encodeToSlice data (data.length * 2) = .ok (data.flatMap digits)) :
    ∀ parts : List Bytes, encodeChunks b parts = .ok (parts.flatten.flatMap digits)
  | [] => rfl
  | chunk :: rest => by
    rw [encodeChunks, h chunk]
    dsimp only
    rw [encodeChunks_eq h rest, List.flatten_cons, List.flatMap_append]
    rfl

theorem fromUtf8_asBytes (s : String) : Packet.fromUtf8 (Packet.asBytes s) = some s :=
  dif_pos s.isValidUTF8

theorem length_flatMap_digits {digits : UInt8 → Bytes} (h : ∀ byte, (digits byte).length = 2) (data : Bytes) :
    (data.flatMap digits).length = data.length * 2 := by
  rw [List.length_flatMap, List.map_congr_left fun byte _ => h byte, List.map_const', List.sum_replicate_nat]

/-- The length of what a packet writes. -/
def Packet.bodyLen : Packet → Nat
  | request => 0
  | response applicationData => 4 + 2 * applicationData.length
  | message _ data => 8 + 4 + (asBytes data).length

theorem reads_response {b : Backend} {data hexData : Bytes} (hdecode : b.hexDecode hexData = .ok data)
    (hlen : hexData.length ≤ maxBytes) :
    Reads (Packet.readResponse b) (U32LE.write (UInt32.ofNat hexData.length) ++ hexData) (.response data) := by
  rw [← List.append_nil (_ ++ hexData)]
  refine (reads_readBytesU32 hlen).bind fun rest => ?_
  rw [hdecode]
  rfl

theorem reads_message {b : Backend} (recipientId : UInt64) {data : String}
    (hlen : (Packet.asBytes data).length ≤ maxBytes) : Reads (Packet.readMessage b)
      (U64LE.write recipientId ++ (U32LE.write (UInt32.ofNat (Packet.asBytes data).length) ++ Packet.asBytes data))
      (.message recipientId data) := by
  refine (reads_u64le recipientId).bind ?_
  rw [← List.append_nil (_ ++ Packet.asBytes data)]
  refine (reads_readBytesU32 hlen).bind fun rest => ?_
  rw [fromUtf8_asBytes]
  rfl

/-- A packet of moderate length is written, and read back from what it wrote. -/
theorem Packet.read_write {b : Backend} (h : b.Lawful) (packet : Packet) (hlen : packet.bodyLen ≤ maxBytes) :
    ∃ body, packet.write b = .ok body ∧ body.length = packet.bodyLen ∧ Reads (read b packet.id) body packet := by
  cases packet with
  | request => exact ⟨[], rfl, rfl, fun rest => rfl⟩
  | response applicationData =>
    obtain ⟨digits, hdigits, hencode, hdecode⟩ := h.hex
    have hhex := length_flatMap_digits hdigits applicationData
    have hbody : (response applicationData).bodyLen = 4 + 2 * applicationData.length := rfl
    refine ⟨U32LE.write (UInt32.ofNat (applicationData.length * 2)) ++ applicationData.flatMap digits, ?_, ?_, ?_⟩
    · rw [write, encodeChunks_eq hencode, flatten_chunks (by omega)]
      rfl
    · rw [List.length_append, hhex, U32LE.write, length_toLeBytes, hbody, Nat.mul_comm]
    · rw [← hhex]
      exact reads_response (hdecode applicationData) (by omega)
  | message recipientId data =>
    have hbody : (message recipientId data).bodyLen = 8 + 4 + (asBytes data).length := rfl
    have hmax : (asBytes data).length ≤ maxBytes := by omega
    have hwrite : writeBytesU32 (asBytes data) =
        .ok (U32LE.write (UInt32.ofNat (asBytes data).length) ++ asBytes data) := by
      rw [writeBytesU32, writeBytes, if_neg (by omega), if_neg (by unfold maxBytes at hmax; omega)]
    refine ⟨U64LE.write recipientId ++ (U32LE.write (UInt32.ofNat (asBytes data).length) ++ asBytes data), ?_, ?_, ?_⟩
    · rw [write, hwrite]
      rfl
    · rw [List.length_append, List.length_append, U64LE.write, U32LE.write, length_toLeBytes, length_toLeBytes, hbody,
        Nat.add_assoc]
    · exact reads_message recipientId hmax

theorem reads_header (header : Header) : Reads Header.read header.write header := by
  unfold Header.write
  rw [List.append_assoc]
  refine (reads_u16le header.packetId).bind ((reads_u64le header.senderId).bind ?_)
  rw [← List.append_nil (List.replicate 8 0)]
  exact (reads_readExact (List.replicate 8 0)).bind (Reads.pure _)

/-! ## Packets -/

/-- The payload of a packet, as it is before encryption. -/
def payload (packet : Packet) (senderId : UInt64) (body : Bytes) : Bytes :=
  U16LE.write (UInt16.ofNat (18 + body.length)) ++ Header.write ⟨packet.id, senderId⟩ ++ body

theorem reads_payload {b : Backend} {packet : Packet} {senderId : UInt64} {body : Bytes}
    (h : Reads (Packet.read b packet.id) body packet) :
    Reads (readPayload b) (payload packet senderId body) (packet, senderId) := by
  unfold payload
  rw [List.append_assoc]
  refine (reads_u16le _).bind ((reads_header _).bind ?_)
  rw [← List.append_nil body]
  exact h.bind (Reads.pure _)

theorem readPayload_payload {b : Backend} {packet : Packet} {senderId : UInt64} {body : Bytes}
    (h : Reads (Packet.read b packet.id) body packet) :
    readPayload b (payload packet senderId body) = .ok ((packet, senderId), []) := (reads_payload h).all

theorem length_header (header : Header) : header.write.length = 18 := by
  simp [Header.write, U16LE.write, U64LE.write]

/-- What `marshal` makes of a packet whose body could be written. -/
theorem marshal_eq {b : Backend} {packet : Packet} {senderId : UInt64} {body : Bytes}
    (hbody : packet.write b = .ok body) :
    marshal b packet senderId = if 65535 < 2 + 18 + body.length then .error (.messageTooLarge (2 + 18 + body.length))
      else .ok (b.mac (payload packet senderId body) ++
        mapBlocks b.encryptBlock ((pad (payload packet senderId body)).length / 16)
        (pad (payload packet senderId body))) := by
  have htotal : 32 + 2 + (Header.write ⟨packet.id, senderId⟩).length + body.length - 32 = 2 + 18 + body.length := by
    rw [length_header]
    omega
  have hdata : 2 + 18 + body.length - 2 = 18 + body.length := by omega
  unfold marshal
  rw [hbody]
  simp only [bind, Except.bind, htotal, hdata]
  rfl

/-- What a packet writes has the length of its body, also where it is too long to be sent. -/
theorem Packet.length_write {b : Backend} (h : b.Lawful) {packet : Packet} {body : Bytes}
    (hbody : packet.write b = .ok body) : body.length = packet.bodyLen := by
  cases packet with
  | request =>
    cases hbody
    rfl
  | response applicationData =>
    obtain ⟨digits, hdigits, hencode, -⟩ := h.hex
    rw [write, encodeChunks_eq hencode, flatten_chunks (by omega)] at hbody
    cases hbody
    rw [List.length_append, length_flatMap_digits hdigits, U32LE.write, length_toLeBytes, bodyLen, Nat.mul_comm]
  | message recipientId data =>
    rw [write, writeBytesU32, writeBytes] at hbody
    split_ifs at hbody
    · cases hbody
    · cases hbody
    · cases hbody
      rw [List.length_append, List.length_append, U64LE.write, U32LE.write, length_toLeBytes, length_toLeBytes, bodyLen,
        Nat.add_assoc]

theorem marshal_error_iff {b : Backend} (h : b.Lawful) (packet : Packet) (senderId : UInt64) :
    (∃ e, marshal b packet senderId = .error e) ↔ 65535 < 2 + 18 + packet.bodyLen := by
  cases hbody : packet.write b with
  | error e =>
    refine iff_of_true ⟨e, ?_⟩ ?_
    · rw [marshal, hbody]
      rfl
    · by_contra hshort
      obtain ⟨body, hok, -⟩ := Packet.read_write h packet (by unfold maxBytes; omega)
      rw [hbody] at hok
      cases hok
  | ok body =>
    rw [marshal_eq hbody, Packet.length_write h hbody]
    split_ifs with hlong
    · exact iff_of_true ⟨_, rfl⟩ hlong
    · refine iff_of_false ?_ hlong
      rintro ⟨e, he⟩
      cases he

theorem unmarshal_eq {b : Backend} (h : b.Lawful) {packet : Packet} {senderId : UInt64} {body : Bytes}
    (hread : Reads (Packet.read b packet.id) body packet) :
    unmarshal b (b.mac (payload packet senderId body) ++
      mapBlocks b.encryptBlock ((pad (payload packet senderId body)).length / 16)
      (pad (payload packet senderId body))) = .ok (packet, senderId) := by
  have hmac := h.length_mac (payload packet senderId body)
  have hdecrypt : decrypt b (mapBlocks b.encryptBlock ((pad (payload packet senderId body)).length / 16)
      (pad (payload packet senderId body))) = .ok (payload packet senderId body) := decrypt_encrypt h _
  have hverify := (h.verify_iff (payload packet senderId body) (b.mac (payload packet senderId body))).2 rfl
  rw [unmarshal, if_neg (by rw [List.length_append]; omega), List.take_left' hmac, List.drop_left' hmac, hdecrypt]
  simp only [bind, Except.bind, hverify, readPayload_payload hread]
  rfl

/-- LAN discovery packets round trip: what `marshal` makes of a packet and a sender id, `unmarshal` reads
back as both; and `marshal` fails exactly when length, header and body exceed 65535 bytes. -/
theorem unmarshal_marshal (b : Backend) (h : b.Lawful) (packet : Packet) (senderId : UInt64) :
    (∀ bytes, marshal b packet senderId = .ok bytes → unmarshal b bytes = .ok (packet, senderId)) ∧
    ((∃ e, marshal b packet senderId = .error e) ↔ 65535 < 2 + 18 + packet.bodyLen) := by
  refine ⟨fun bytes hbytes => ?_, marshal_error_iff h packet senderId⟩
  have hshort : packet.bodyLen ≤ maxBytes := by
    by_contra hlong
    obtain ⟨e, he⟩ := (marshal_error_iff h packet senderId).2 (by unfold maxBytes at hlong; omega)
    rw [hbytes] at he
    cases he
  obtain ⟨body, hbody, -, hread⟩ := Packet.read_write h packet hshort
  rw [marshal_eq hbody] at hbytes
  split_ifs at hbytes
  cases hbytes
  exact unmarshal_eq h hread

/-! ## Packets on the wire -/

/-- The number of some bytes, the first one the most significant. -/
def bigEndian (len n : Nat) : Bytes := (toLeBytes len n).reverse

/-- A packet as it goes out: the tag of its payload, and the blocks of the padded payload with their ciphertexts. -/
structure Recorded where
  tag : Nat
  blocks : List (Nat × Nat)

namespace Recorded

def padded (r : Recorded) : Bytes := r.blocks.flatMap fun block => bigEndian 16 block.1

def bytes (r : Recorded) : Bytes := bigEndian 32 r.tag ++ r.blocks.flatMap fun block => bigEndian 16 block.2

/-- The request of node 1. -/
def request : Recorded where
  tag := 0xacb5442ee5082a84a7d8a98e8033328671a178be0140f09dd1b620e43a4d154c
  blocks :=
    [(0x12000000010000000000000000000000, 0x029de6efe70735c4bbe7043306708f17),
      (0x000000000c0c0c0c0c0c0c0c0c0c0c0c, 0xff0f8709e13bf6858e2051c321db615e)]

/-- A response of node 2, which advertises a world. -/
def response : Recorded where
  tag := 0x3edf98e1a5a18b50c6b59575c6ce21fa4c635d6a44e6e2a26a85962c3ee5ac9a
  blocks :=
    [(0x3a000100020000000000000000000000, 0x11a316690bf91870861074283af3faeb),
      (0x00000000240000003034303135333031, 0x6dbfdf355dfbbc7e8eb305e634e8a2f1),
      (0x34633030303130303030303030383030, 0x8747f540585b53f7a148d9166d2d8f53),
      (0x30303030303030303034303804040404, 0xa2210df901255800cb5251cecb6eac9b)]

/-- Messages between the nodes: an offer of node 2, and an answer and a candidate of node 1. -/
def offer : Recorded where
  tag := 0x5906ece7247e322f68b065aaa18087d543b36909a93ec27f12c89b6b7aa1800d
  blocks :=
    [(0x32000200020000000000000000000000, 0x85ffada7b0c578cfef9087ff2fd799ba),
      (0x00000000010000000000000014000000, 0x81eaa75818ccecd59b45bee08d17cf94),
      (0x434f4e4e454354524551554553542037, 0x32ff7a6c8a46b5f78f6e0e61d825edec),
      (0x20763d300c0c0c0c0c0c0c0c0c0c0c0c, 0xc121c89fbbf244c5d93d9a6fbac4c1b3)]

def answer : Recorded where
  tag := 0xe07242537349ee963e564c6e319c9d21dc4ba4860a3fc2da3bd819d41f86062f
  blocks :=
    [(0x33000200010000000000000000000000, 0x631fb9fc3e2f76100665cbf349e67c45),
      (0x00000000020000000000000015000000, 0xec825a1d53662702aba00af7a0f338d8),
      (0x434f4e4e454354524553504f4e534520, 0x41c1c04d82587f9ba6f4a45a0582711b),
      (0x3720763d310b0b0b0b0b0b0b0b0b0b0b, 0x038cca46625f83f9df37c693e7d6b36d)]

def candidate : Recorded where
  tag := 0x0d694eaa87e2f76f5da85b36f6221a0e242f05cba0d554432ba6fde9614b4f75
  blocks :=
    [(0x30000200010000000000000000000000, 0xed5708c2f38a913ed435675234e4f907),
      (0x00000000020000000000000012000000, 0xef5bc683dfad3c6933fe2965ceccb4d0),
      (0x43414e44494441544541444420372075, 0x7319c5f223bbd073946a6185807d62b1),
      (0x64700e0e0e0e0e0e0e0e0e0e0e0e0e0e, 0xc8265ab1b94554fc6910d3484605cd8f)]

def all : List Recorded := [request, response, offer, answer, candidate]

end Recorded

/-- The block cipher on the recorded blocks: each is exchanged with its ciphertext. -/
def recordedCipher : List (Nat × Nat) → Equiv.Perm Bytes
  | [] => Equiv.refl _
  | block :: rest => (Equiv.swap (bigEndian 16 block.1) (bigEndian 16 block.2)).trans (recordedCipher rest)

/-- The tags of the recorded payloads. -/
def recordedMac (data : Bytes) : Bytes :=
  bigEndian 32 (((Recorded.all.find? fun r => r.padded = pad data).map Recorded.tag).getD 0)

/-- The two lower-case hex digits of a byte, and the value of a digit. -/
def hexDigit (n : UInt8) : UInt8 := if n < 10 then 48 + n else 87 + n

def hexValue (c : UInt8) : UInt8 := if c < 58 then c - 48 else c - 87

def hexDigits (byte : UInt8) : Bytes := [hexDigit (byte >>> 4), hexDigit (byte &&& 15)]

def hexBytes : Bytes → Except String Bytes
  | [] => .ok []
  | hi :: lo :: rest => (hexBytes rest).map fun after => (hexValue hi <<< 4 ||| hexValue lo) :: after
  | [_] => .error "Odd number of digits"

/-- The crates as they behave on the recorded packets. -/
def recordedBackend : Backend where
  encryptBlock := recordedCipher (Recorded.all.flatMap Recorded.blocks)
  decryptBlock := (recordedCipher (Recorded.all.flatMap Recorded.blocks)).symm
  mac := recordedMac
  verify data tag := tag = recordedMac data
  encodeToSlice data len :=
    if len = data.length * 2 then .ok (data.flatMap hexDigits) else .error "Invalid string length"
  hexDecode := hexBytes
  utf8Error _ := ""

theorem hexValue_digits (byte : UInt8) :
    hexValue (hexDigit (byte >>> 4)) <<< 4 ||| hexValue (hexDigit (byte &&& 15)) = byte := by
  have hall : (List.range 256).all (fun n =>
      hexValue (hexDigit (UInt8.ofNat n >>> 4)) <<< 4 ||| hexValue (hexDigit (UInt8.ofNat n &&& 15)) == UInt8.ofNat n) =
      true := by
    decide +kernel
  have := List.all_eq_true.1 hall byte.toNat (List.mem_range.2 byte.toNat_lt)
  rw [UInt8.ofNat_toNat] at this
  exact eq_of_beq this

theorem hexBytes_digits : ∀ data : Bytes, hexBytes (data.flatMap hexDigits) = .ok data
  | [] => rfl
  | byte :: rest => by
    show (hexBytes (rest.flatMap hexDigits)).map _ = _
    rw [hexBytes_digits rest, hexValue_digits]
    rfl

theorem length_bigEndian (len n : Nat) : (bigEndian len n).length = len := by
  rw [bigEndian, List.length_reverse, length_toLeBytes]

theorem length_recordedCipher : ∀ (blocks : List (Nat × Nat)) {block : Bytes}, block.length = 16 →
    (recordedCipher blocks block).length = 16
  | [], _, hlen => hlen
  | (plain, cipher) :: rest, block, hlen => by
    refine length_recordedCipher rest ?_
    rw [Equiv.swap_apply_def]
    split_ifs
    · exact length_bigEndian 16 cipher
    · exact length_bigEndian 16 plain
    · exact hlen

theorem recordedBackend_lawful : recordedBackend.Lawful where
  length_encryptBlock _ hlen := length_recordedCipher _ hlen
  decryptBlock_encryptBlock block _ := Equiv.symm_apply_apply _ block
  length_mac _ := length_bigEndian 32 _
  verify_iff _ _ := decide_eq_true_iff
  hex := ⟨hexDigits, fun _ => rfl, fun _ => if_pos rfl, hexBytes_digits⟩

/-- What the recorded packets say. -/
def recordedPackets : List (Recorded × Packet × UInt64) :=
  [(.request, .request, 1), (.response, .response [4, 1, 83, 1, 76, 0, 1, 0, 0, 0, 8, 0, 0, 0, 0, 0, 4, 8], 2),
    (.offer, .message 1 "CONNECTREQUEST 7 v=0", 2), (.answer, .message 2 "CONNECTRESPONSE 7 v=1", 1),
    (.candidate, .message 2 "CANDIDATEADD 7 udp", 1)]

theorem unmarshal_marshal_recorded :
    (∀ x ∈ recordedPackets, marshal recordedBackend x.2.1 x.2.2 = .ok x.1.bytes) ∧
    ∀ x ∈ recordedPackets, unmarshal recordedBackend x.1.bytes = .ok x.2 := by
  have hmarshal : ∀ x ∈ recordedPackets, marshal recordedBackend x.2.1 x.2.2 = .ok x.1.bytes := by decide +kernel
  exact ⟨hmarshal, fun x hx =>
    (unmarshal_marshal recordedBackend recordedBackend_lawful x.2.1 x.2.2).1 _ (hmarshal x hx)⟩

end BedrockRs.Nethernet

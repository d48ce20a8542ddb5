/-
LAN discovery packets (`protocol/packet/discovery`): the three packets, the header, and `marshal` and
`unmarshal`, which authenticate a packet, pad it and encrypt it block by block. The block cipher, the
message authentication and the hex digits come from other crates and are parameters (`Backend`), as is the
text of a UTF-8 error.
-/
import BedrockRs.Nethernet.Protocol.Primitives

namespace BedrockRs.Nethernet

/-- What the crates `aes`, `hmac` and `hex` provide, with the keys already set up. -/
structure Backend where
  /-- `CIPHER` on one block of 16 bytes. -/
  encryptBlock : Bytes → Bytes
  decryptBlock : Bytes → Bytes
  /-- The tag that `HMAC_STATE` computes, and its check. -/
  mac : Bytes → Bytes
  verify : Bytes → Bytes → Bool
  /-- `hex::encode_to_slice` into a slice of some length, and `hex::decode`; an error is its text. -/
  encodeToSlice : Bytes → Nat → Except String Bytes
  hexDecode : Bytes → Except String Bytes
  /-- The text of a `FromUtf8Error`. -/
  utf8Error : Bytes → String

/-! ## Encryption -/

/-- `f` on the first `n` blocks of a buffer, in place. -/
def mapBlocks (f : Bytes → Bytes) : (n : Nat) → Bytes → Bytes
  | 0, buf => buf
  | n + 1, buf => f (buf.take 16) ++ mapBlocks f n (buf.drop 16)

/-- PKCS#7 padding: as many bytes as fill the last block, each of them that number. -/
def pad (buf : Bytes) : Bytes :=
  let paddingLen := 16 - buf.length % 16
  buf ++ List.replicate paddingLen (UInt8.ofNat paddingLen)

def encrypt (b : Backend) (buf : Bytes) : Except NethernetError Bytes :=
  let buf := pad buf
  .ok (mapBlocks b.encryptBlock (buf.length / 16) buf)

/-- The end of `decrypt`: the padding is checked and taken off. -/
def unpad (buf : Bytes) : Except NethernetError Bytes :=
  match buf.getLast? with
  | some paddingLen =>
    let paddingStart := buf.length - paddingLen.toNat
    if 0 < paddingLen ∧ paddingLen ≤ 16 ∧ paddingLen.toNat ≤ buf.length ∧
        (buf.drop paddingStart).foldl (fun mismatched byte => mismatched ||| (byte ^^^ paddingLen)) 0 = 0 then
      .ok (buf.take paddingStart)
    else .error (.other "Invalid padding")
  | none => .error (.other "Invalid padding")

def decrypt (b : Backend) (buf : Bytes) : Except NethernetError Bytes :=
  if buf = [] ∨ buf.length % 16 ≠ 0 then .error (.other "Invalid encrypted data length")
  else unpad (mapBlocks b.decryptBlock (buf.length / 16) buf)

/-! ## Packets -/

def idRequestPacket : UInt16 := 0
def idResponsePacket : UInt16 := 1
def idMessagePacket : UInt16 := 2

/-- `RequestPacket`, `ResponsePacket` and `MessagePacket`. -/
inductive Packet where
  | request
  | response (applicationData : Bytes)
  | message (recipientId : UInt64) (data : String)
deriving DecidableEq

structure Header where
  packetId : UInt16
  senderId : UInt64
deriving DecidableEq

/-- The header ends with eight bytes of padding. -/
def Header.read : Get Header := do
  let packetId ← U16LE.read
  let senderId ← U64LE.read
  let _padding ← readExact 8
  return ⟨packetId, senderId⟩

def Header.write (header : Header) : Bytes :=
  U16LE.write header.packetId ++ U64LE.write header.senderId ++ List.replicate 8 0

/-- `data.chunks(n)`. -/
def chunks (n : Nat) (data : Bytes) : List Bytes :=
  if data = [] ∨ n = 0 then [] else data.take n :: chunks n (data.drop n)
termination_by data.length
decreasing_by
  rename_i h
  obtain ⟨hdata, hn⟩ := not_or.1 h
  have := List.length_pos_of_ne_nil hdata
  rw [List.length_drop]
  omega

/-- The hex digits of some chunks, one after the other. -/
def encodeChunks (b : Backend) : List Bytes → Except NethernetError Bytes
  | [] => .ok []
  | chunk :: rest =>
    match b.encodeToSlice chunk (chunk.length * 2) with
    | .error e => .error (.other s!"hex encode error: {e}")
    | .ok encoded => (encodeChunks b rest).map fun after => encoded ++ after

namespace Packet

def id : Packet → UInt16
  | request => idRequestPacket
  | response _ => idResponsePacket
  | message .. => idMessagePacket

/-- `as_bytes` and `String::from_utf8`. -/
def asBytes (s : String) : Bytes := s.toByteArray.data.toList

def fromUtf8 (bytes : Bytes) : Option String := String.fromUTF8? ⟨bytes.toArray⟩

def write (b : Backend) : Packet → Except NethernetError Bytes
  | request => .ok []
  | response applicationData => do
    let hexLen := applicationData.length * 2
    -- `as u32` truncates
    let hex ← encodeChunks b (chunks 512 applicationData)
    return U32LE.write (UInt32.ofNat hexLen) ++ hex
  | message recipientId data => do
    let bytes ← writeBytesU32 (asBytes data)
    return U64LE.write recipientId ++ bytes

/-- `read` of a response and of a message. -/
def readResponse (b : Backend) : Get Packet := do
  let hexData ← readBytesU32
  match b.hexDecode hexData with
  | .ok applicationData => return response applicationData
  | .error e => throw (.other s!"hex decode error: {e}")

def readMessage (b : Backend) : Get Packet := do
  let recipientId ← U64LE.read
  let dataBytes ← readBytesU32
  match fromUtf8 dataBytes with
  | some data => return message recipientId data
  | none => throw (.other s!"invalid UTF-8: {b.utf8Error dataBytes}")

/-- The packet that an id stands for, and its `read`; a request has nothing to read. -/
def read (b : Backend) (packetId : UInt16) : Get Packet :=
  if packetId = idRequestPacket then return request
  else if packetId = idResponsePacket then readResponse b
  else if packetId = idMessagePacket then readMessage b
  else throw (.other s!"unknown packet ID: {packetId}")

end Packet

/-! ## Marshalling -/

def marshal (b : Backend) (packet : Packet) (senderId : UInt64) : Except NethernetError Bytes := do
  let header := Header.write ⟨packet.id, senderId⟩
  let body ← packet.write b
  let totalLen := 32 + 2 + header.length + body.length
  if 65535 < totalLen - 32 then .error (.messageTooLarge (totalLen - 32))
  else
    let dataLen := UInt16.ofNat (totalLen - 32 - 2)
    let payload := U16LE.write dataLen ++ header ++ body
    let checksum := b.mac payload
    let payload ← encrypt b payload
    return checksum ++ payload

/-- What `unmarshal` reads of a payload. -/
def readPayload (b : Backend) : Get (Packet × UInt64) := do
  let _length ← U16LE.read
  let header ← Header.read
  let packet ← Packet.read b header.packetId
  return (packet, header.senderId)

def unmarshal (b : Backend) (data : Bytes) : Except NethernetError (Packet × UInt64) :=
  if data.length < 32 then .error (.other "packet too short")
  else do
    let checksum := data.take 32
    let payload ← decrypt b (data.drop 32)
    if b.verify payload checksum = false then .error (.other "checksum mismatch")
    else
      let (result, rest) ← readPayload b payload
      if rest ≠ [] then
        .error (.other
          s!"trailing data in packet: {rest.length} remaining bytes out of {payload.length} total payload bytes")
      else .ok result

end BedrockRs.Nethernet

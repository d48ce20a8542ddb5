/-
The wire primitives of `protocol/types` and the error types of `protocol/packet/error.rs`.

A buffer is a list of bytes. Writing appends, so an encoder is the list it appends; the encoders of
this module cannot fail. Reading is the state monad `Get` over the remaining bytes: a reader either
consumes a prefix or stops with a `DecodeError`.
-/
import BedrockRs.Raknet.Protocol.Sequence
import Mathlib.Data.Vector.Basic

namespace BedrockRs.Raknet

abbrev Bytes := List UInt8

/-! ## Errors -/

/-- Errors that may occur while encoding RakNet protocol values or packets. -/
inductive EncodeError
  | missingSplitInfo
  | missingReliableIndex
  | missingSequenceIndex
  | missingOrderingIndex
  | missingOrderingChannel
deriving DecidableEq, Repr

/-- Errors that may occur while decoding RakNet protocol values or packets. -/
inductive DecodeError
  | unexpectedEof
  | unknownId (id : UInt8)
  | varIntExceedsLimit
  | unimplementedPacket (id : UInt8) (payload : Bytes)
  | invalidAddrVersion (version : UInt8)
  | unknownDisconnectReason (reason : UInt8)
  | unknownReliability (value : UInt8)
  | invalidAckPacket
  | splitCountMismatch
  | splitIndexOutOfRange
  | duplicateSplitPart
  | splitTooLarge
  | splitBufferFull
  | missingSplitInfo
  | invalidMagic
deriving DecidableEq, Repr

/-! ## Readers -/

/-- A reader of a value from the front of the buffer. -/
abbrev Get := StateT Bytes (Except DecodeError)

namespace Get

def remaining : Get Nat := do return (← get).length

def u8 : Get UInt8 := fun
  | [] => .error .unexpectedEof
  | b :: rest => .ok (b, rest)

/-- The rest of the buffer, `src.copy_to_bytes(src.remaining())`. -/
def rest : Get Bytes := fun src => .ok (src, [])

/-- The next `n` bytes, or `UnexpectedEof`. -/
def bytes (n : Nat) : Get Bytes := fun src =>
  if src.length < n then .error .unexpectedEof else .ok (src.take n, src.drop n)

/-- `n` values in a row. -/
def vector {α : Type} (item : Get α) : (n : Nat) → Get (List.Vector α n)
  | 0 => return List.Vector.nil
  | n + 1 => do
    let a ← item
    let rest ← vector item n
    return a ::ᵥ rest

/-- `n` values in a row, as a list. -/
def list {α : Type} (item : Get α) : Nat → Get (List α)
  | 0 => return []
  | n + 1 => do
    let a ← item
    let rest ← list item n
    return a :: rest

/-- Big-endian integers; the length is checked before the first byte is read. -/
def u16 : Get UInt16 := fun
  | a :: b :: rest => .ok ((a.toUInt16 <<< 8) ||| b.toUInt16, rest)
  | _ => .error .unexpectedEof

def u32 : Get UInt32 := fun
  | a :: b :: c :: d :: rest =>
    .ok ((a.toUInt32 <<< 24) ||| (b.toUInt32 <<< 16) ||| (c.toUInt32 <<< 8) ||| d.toUInt32, rest)
  | _ => .error .unexpectedEof

def u64 : Get UInt64 := fun
  | a :: b :: c :: d :: e :: f :: g :: h :: rest =>
    .ok ((a.toUInt64 <<< 56) ||| (b.toUInt64 <<< 48) ||| (c.toUInt64 <<< 40) ||| (d.toUInt64 <<< 32) |||
      (e.toUInt64 <<< 24) ||| (f.toUInt64 <<< 16) ||| (g.toUInt64 <<< 8) ||| h.toUInt64, rest)
  | _ => .error .unexpectedEof

/-- Little-endian 16-bit integers, used for the address family only. -/
def u16le : Get UInt16 := fun
  | a :: b :: rest => .ok (a.toUInt16 ||| (b.toUInt16 <<< 8), rest)
  | _ => .error .unexpectedEof

/-- `U24LE`, read as a sequence number. -/
def sequence24 : Get Sequence24 := fun
  | b0 :: b1 :: b2 :: rest => .ok (Sequence24.new (b0.toNat + b1.toNat * 2 ^ 8 + b2.toNat * 2 ^ 16), rest)
  | _ => .error .unexpectedEof

def bool : Get Bool := do return (← u8) == 1

end Get

/-! ## Writers -/

namespace Put

def u16 (v : UInt16) : Bytes := [(v >>> 8).toUInt8, v.toUInt8]

def u32 (v : UInt32) : Bytes := [(v >>> 24).toUInt8, (v >>> 16).toUInt8, (v >>> 8).toUInt8, v.toUInt8]

def u64 (v : UInt64) : Bytes :=
  [(v >>> 56).toUInt8, (v >>> 48).toUInt8, (v >>> 40).toUInt8, (v >>> 32).toUInt8,
    (v >>> 24).toUInt8, (v >>> 16).toUInt8, (v >>> 8).toUInt8, v.toUInt8]

def u16le (v : UInt16) : Bytes := [v.toUInt8, (v >>> 8).toUInt8]

def sequence24 (v : Sequence24) : Bytes :=
  [UInt8.ofNat (v.val % 2 ^ 8), UInt8.ofNat (v.val / 2 ^ 8 % 2 ^ 8), UInt8.ofNat (v.val / 2 ^ 16 % 2 ^ 8)]

def bool (v : Bool) : Bytes := [if v then 1 else 0]

end Put

/-! ## Magic, time, padding, advertisement -/

/-- Magic used to identify RakNet packets. -/
abbrev Magic := List.Vector UInt8 16

/-- `DEFAULT_UNCONNECTED_MAGIC`. -/
def defaultUnconnectedMagic : Magic :=
  ⟨[0x00, 0xFF, 0xFF, 0x00, 0xFE, 0xFE, 0xFE, 0xFE, 0xFD, 0xFD, 0xFD, 0xFD, 0x12, 0x34, 0x56, 0x78], rfl⟩

def Get.magic : Get Magic := do
  if (← remaining) < 16 then throw .unexpectedEof
  vector u8 16

/-- A magic that must be the default one, as every packet body checks it. -/
def Get.defaultMagic : Get Magic := do
  let magic ← Get.magic
  if magic ≠ defaultUnconnectedMagic then throw .invalidMagic
  return magic

/-- Milliseconds since the start of the process, as sent on the wire. -/
abbrev RaknetTime := UInt64

/-- End-of-buffer padding: the number of zero bytes up to the end. -/
abbrev EoBPadding := Nat

def Get.eobPadding : Get EoBPadding := do return (← rest).length

def Put.eobPadding (len : EoBPadding) : Bytes := List.replicate len 0

/-- Optional server advertisement payload used by some discovery packets. -/
abbrev Advertisement := Option Bytes

def Put.advertisement : Advertisement → Bytes
  | none => []
  | some ad =>
    if ad.isEmpty then []
    else
      let len := min ad.length (2 ^ 16 - 1)
      Put.u16 (UInt16.ofNat len) ++ ad.take len

def Get.advertisement : Get Advertisement := do
  if (← remaining) = 0 then return none
  let len ← u16
  return some (← bytes len.toNat)

/-! ## Socket addresses -/

inductive SocketAddr
  | v4 (ip : List.Vector UInt8 4) (port : UInt16)
  | v6 (ip : List.Vector UInt8 16) (port : UInt16) (flowinfo scopeId : UInt32)
deriving DecidableEq

namespace SocketAddr

def isIpv4 : SocketAddr → Bool
  | v4 .. => true
  | v6 .. => false

/-- IPv4 octets are complemented on the wire; IPv6 is the C `sockaddr_in6` with family 23. -/
def encode : SocketAddr → Bytes
  | v4 ip port => 4 :: ip.toList.map (~~~ ·) ++ Put.u16 port
  | v6 ip port flowinfo scopeId =>
    6 :: Put.u16le 23 ++ Put.u16 port ++ Put.u32 flowinfo ++ ip.toList ++ Put.u32 scopeId

def decode : Get SocketAddr := do
  let version ← Get.u8
  if version = 4 then
    if (← Get.remaining) < 4 + 2 then throw .unexpectedEof
    let ip ← Get.vector Get.u8 4
    return .v4 (ip.map (~~~ ·)) (← Get.u16)
  else if version = 6 then
    if (← Get.remaining) < 2 + 2 + 4 + 16 + 4 then throw .unexpectedEof
    let _family ← Get.u16le
    let port ← Get.u16
    let flowinfo ← Get.u32
    let ip ← Get.vector Get.u8 16
    return .v6 ip port flowinfo (← Get.u32)
  else throw (.invalidAddrVersion version)

/-- `LOOPBACK_V4`, `ANY_V4`, `LOOPBACK_V6` and `ANY_V6`. -/
def loopbackV4 : SocketAddr := .v4 ⟨[127, 0, 0, 1], rfl⟩ 0
def anyV4 : SocketAddr := .v4 ⟨[0, 0, 0, 0], rfl⟩ 0
def loopbackV6 : SocketAddr := .v6 ⟨List.replicate 15 0 ++ [1], rfl⟩ 0 0 0
def anyV6 : SocketAddr := .v6 ⟨List.replicate 16 0, rfl⟩ 0 0 0

end SocketAddr

end BedrockRs.Raknet

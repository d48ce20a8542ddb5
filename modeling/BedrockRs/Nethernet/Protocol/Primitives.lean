/-
The wire primitives of NetherNet (`protocol/types`). A writer appends to a vector, so an encoder is the
bytes it appends; a reader takes bytes off the rest of a cursor's buffer or stops with an `io::Error`.
-/
import BedrockRs.Lib.Codec
import BedrockRs.Nethernet.Protocol.Message

namespace BedrockRs.Nethernet

open Lib.Codec

def maxBytes : Nat := 16 * 1024 * 1024

/-- A reader over the rest of a cursor. -/
abbrev Get := StateT Bytes (Except NethernetError)

/-- `read_exact` into a buffer of `n` bytes. -/
def readExact (n : Nat) : Get Bytes := fun src =>
  if src.length < n then .error (.io .unexpectedEof "failed to fill whole buffer") else .ok (src.take n, src.drop n)

/-- `to_le_bytes` of an integer of `width` bytes. -/
def toLeBytes : (width : Nat) → Nat → Bytes
  | 0, _ => []
  | width + 1, n => UInt8.ofNat n :: toLeBytes width (n / 256)

/-- The value of `from_le_bytes`. -/
def fromLeBytes : Bytes → Nat
  | [] => 0
  | b :: rest => b.toNat + 256 * fromLeBytes rest

/-- `U16LE`, `U32LE` and `U64LE`. -/
def U16LE.read : Get UInt16 := (fun buf => UInt16.ofNat (fromLeBytes buf)) <$> readExact 2

def U16LE.write (v : UInt16) : Bytes := toLeBytes 2 v.toNat

def U32LE.read : Get UInt32 := (fun buf => UInt32.ofNat (fromLeBytes buf)) <$> readExact 4

def U32LE.write (v : UInt32) : Bytes := toLeBytes 4 v.toNat

def U64LE.read : Get UInt64 := (fun buf => UInt64.ofNat (fromLeBytes buf)) <$> readExact 8

def U64LE.write (v : UInt64) : Bytes := toLeBytes 8 v.toNat

/-- `read_bytes`, with the length that `read_length` returns. -/
def readBytes (readLength : Get Nat) : Get Bytes := do
  let length ← readLength
  if maxBytes < length then
    throw (.io .invalidData s!"byte array length {length} exceeds maximum allowed {maxBytes}")
  readExact length

/-- The length is read first; the closure returns it. -/
def readBytesU32 : Get Bytes := do
  let length ← U32LE.read
  readBytes (pure length.toNat)

/-- `write_bytes`, for a length type of `bits` bits. -/
def writeBytes (bits : Nat) (writeLength : Nat → Bytes) (data : Bytes) : Except NethernetError Bytes :=
  if maxBytes < data.length then
    .error (.io .invalidInput s!"data length {data.length} exceeds maximum allowed {maxBytes}")
  else if 2 ^ bits ≤ data.length then .error (.io .invalidInput "length conversion failed: TryFromIntError(())")
  else .ok (writeLength data.length ++ data)

def writeBytesU32 (data : Bytes) : Except NethernetError Bytes :=
  writeBytes 32 (fun len => U32LE.write (UInt32.ofNat len)) data

/-! ## Reading back -/

theorem reads_readExact (bs : Bytes) : Reads (readExact bs.length) bs bs := by
  intro rest
  unfold readExact
  rw [if_neg (by rw [List.length_append]; omega), List.take_left, List.drop_left]

@[simp] theorem length_toLeBytes (width n : Nat) : (toLeBytes width n).length = width := by
  induction width generalizing n with
  | zero => rfl
  | succ width ih => rw [toLeBytes, List.length_cons, ih]

theorem fromLeBytes_toLeBytes {width n : Nat} (h : n < 256 ^ width) : fromLeBytes (toLeBytes width n) = n := by
  induction width generalizing n with
  | zero =>
    rw [pow_zero] at h
    rw [toLeBytes, fromLeBytes]
    omega
  | succ width ih =>
    rw [toLeBytes, fromLeBytes, ih (Nat.div_lt_of_lt_mul (by rwa [← pow_succ'])), UInt8.toNat_ofNat']
    omega

theorem reads_le {α : Type} (width : Nat) {n : Nat} (ofNat : Nat → α) (h : n < 256 ^ width) :
    Reads ((fun buf => ofNat (fromLeBytes buf)) <$> readExact width) (toLeBytes width n) (ofNat n) := by
  have hread := (reads_readExact (toLeBytes width n)).map fun buf => ofNat (fromLeBytes buf)
  rwa [length_toLeBytes, fromLeBytes_toLeBytes h] at hread

theorem reads_u16le (v : UInt16) : Reads U16LE.read (U16LE.write v) v := by
  have := reads_le 2 UInt16.ofNat v.toNat_lt
  rwa [UInt16.ofNat_toNat] at this

theorem reads_u32le (v : UInt32) : Reads U32LE.read (U32LE.write v) v := by
  have := reads_le 4 UInt32.ofNat v.toNat_lt
  rwa [UInt32.ofNat_toNat] at this

theorem reads_u64le (v : UInt64) : Reads U64LE.read (U64LE.write v) v := by
  have := reads_le 8 UInt64.ofNat v.toNat_lt
  rwa [UInt64.ofNat_toNat] at this

/-- Bytes behind their own length as a `u32` are read back, up to the maximum. -/
theorem reads_readBytesU32 {data : Bytes} (h : data.length ≤ maxBytes) :
    Reads readBytesU32 (U32LE.write (UInt32.ofNat data.length) ++ data) data := by
  have hlen : (UInt32.ofNat data.length).toNat = data.length := by
    rw [UInt32.toNat_ofNat']
    unfold maxBytes at h
    omega
  refine (reads_u32le _).bind fun rest => ?_
  rw [hlen]
  show (if maxBytes < data.length then _ else readExact data.length : Get Bytes) (data ++ rest) = _
  rw [if_neg (by omega)]
  exact reads_readExact data rest

end BedrockRs.Nethernet

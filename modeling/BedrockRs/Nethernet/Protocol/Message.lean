/-
NetherNet messages (`protocol/message.rs`). A message goes over the data channel in segments of at
most 10000 bytes, each behind a byte that counts the segments still to come; the receiver has one
accumulator, which checks the countdown and gives the message out with the segment that counts zero.
`none` is a panic of the build profile.
-/
import BedrockRs.Lib.Std
import Mathlib.Algebra.Order.Floor.Div

namespace BedrockRs.Nethernet

open Lib

abbrev Bytes := List UInt8

/-- The kinds of `io::Error` that the modelled functions return. -/
inductive IoErrorKind where
  | unexpectedEof
  | invalidInput
  | invalidData
deriving DecidableEq, Repr

/-- The errors of the modelled functions (`error/mod.rs`). -/
inductive NethernetError where
  | io (kind : IoErrorKind) (text : String)
  | other (text : String)
  | connectionClosed
  | dataChannel (text : String)
  | messageParse (text : String)
  | messageTooLarge (len : Nat)
deriving DecidableEq, Repr

def maxMessageSize : Nat := 10000

structure MessageSegment where
  remainingSegments : UInt8
  data : Bytes
deriving DecidableEq, Repr

namespace MessageSegment

def encode (s : MessageSegment) : Bytes := s.remainingSegments :: s.data

def decode (data : Bytes) : Except NethernetError MessageSegment :=
  match data with
  | remainingSegments :: first :: rest => .ok ⟨remainingSegments, first :: rest⟩
  | _ => .error (.messageParse s!"Message too short, expected at least 2 bytes, got {data.length}")

theorem decode_encode {s : MessageSegment} (h : s.data ≠ []) : decode s.encode = .ok s := by
  obtain ⟨remaining, data⟩ := s
  cases data with
  | nil => exact absurd rfl h
  | cons first rest => rfl

theorem data_ne_nil_of_decode {data : Bytes} {s : MessageSegment} (h : decode data = .ok s) : s.data ≠ [] := by
  rcases data with _ | ⟨remaining, _ | ⟨first, rest⟩⟩
  · cases h
  · cases h
  · cases h
    simp

end MessageSegment

/-- The accumulator. -/
structure Message where
  expectedSegments : UInt8
  data : Bytes
deriving DecidableEq, Repr

namespace Message

def new : Message := ⟨0, []⟩

/-- The end of `add_segment`: the segment's bytes are appended, and the last one gives the message out. -/
def append (m : Message) (segment : MessageSegment) : Message × Except NethernetError (Option Bytes) :=
  if segment.remainingSegments = 0 then (new, .ok (some (m.data ++ segment.data)))
  else ({ m with data := m.data ++ segment.data }, .ok none)

/-- The accumulator set up for a first segment. -/
def expect (p : Profile) (m : Message) (segment : MessageSegment) : Option Message :=
  if m.expectedSegments = 0 ∧ 0 < segment.remainingSegments then do
    let expected ← p.addU8 segment.remainingSegments 1
    return { m with expectedSegments := expected }
  else some m

def addSegment (p : Profile) (m : Message) (segment : MessageSegment) :
    Option (Message × Except NethernetError (Option Bytes)) := do
  let m ← m.expect p segment
  if 0 < m.expectedSegments then
    let expectedRemaining ← p.subU8 m.expectedSegments 1
    if expectedRemaining ≠ segment.remainingSegments then
      return (new, .error (.messageParse
        s!"Invalid segment sequence: expected {expectedRemaining}, got {segment.remainingSegments}"))
    else
      let left ← p.subU8 m.expectedSegments 1
      return append { m with expectedSegments := left } segment
  else return append m segment

/-- The loop of `split_into_segments`, with the counter and the bytes it leaves. -/
def splitLoop (p : Profile) (left : UInt8) (remaining : Bytes) : Option (List MessageSegment × UInt8 × Bytes) :=
  if maxMessageSize < remaining.length then do
    let left ← p.subU8 left 1
    let (segments, rest) ← splitLoop p left (remaining.drop maxMessageSize)
    return (⟨left, remaining.take maxMessageSize⟩ :: segments, rest)
  else some ([], left, remaining)
termination_by remaining.length
decreasing_by
  rw [List.length_drop]
  have : 0 < maxMessageSize := by decide
  omega

def splitIntoSegments (p : Profile) (data : Bytes) : Option (Except NethernetError (List MessageSegment)) :=
  let len := data.length
  if len ≤ maxMessageSize then some (.ok [⟨0, data⟩])
  else
    let segmentCount := len ⌈/⌉ maxMessageSize
    if 255 < segmentCount then some (.error (.messageTooLarge len))
    else do
      let (segments, left, remaining) ← splitLoop p (UInt8.ofNat segmentCount) data
      if remaining.isEmpty then
        p.debugAssert (left == 0)
        return .ok segments
      else
        let left ← p.subU8 left 1
        p.debugAssert (left == 0)
        return .ok (segments ++ [⟨left, remaining⟩])

end Message

end BedrockRs.Nethernet

/-
Signals (`protocol/signal.rs`). A signal travels as one text of three fields between spaces, its type,
the connection id in decimal and the data, which may hold further spaces; the network id is not part of
the text.
-/
import BedrockRs.Lib.Text
import BedrockRs.Nethernet.Protocol.Message

namespace BedrockRs.Nethernet

open Lib.Text

/-- Signal types. -/
inductive SignalType where
  | offer
  | answer
  | candidate
  | error
deriving DecidableEq, Repr

namespace SignalType

def asStr : SignalType → String
  | offer => "CONNECTREQUEST"
  | answer => "CONNECTRESPONSE"
  | candidate => "CANDIDATEADD"
  | error => "CONNECTERROR"

def fromStr (s : String) : Except NethernetError SignalType :=
  match s with
  | "CONNECTREQUEST" => .ok offer
  | "CONNECTRESPONSE" => .ok answer
  | "CANDIDATEADD" => .ok candidate
  | "CONNECTERROR" => .ok error
  | _ => .error (.other s!"Unknown signal type: {s}")

instance : ToString SignalType := ⟨asStr⟩

theorem fromStr_asStr (t : SignalType) : fromStr t.asStr = .ok t := by cases t <;> rfl

theorem space_notMem_asStr (t : SignalType) : ' ' ∉ t.asStr.toList := by cases t <;> decide

end SignalType

/-- Signal error codes (`error/mod.rs`), numbered from zero on without a gap. -/
inductive SignalErrorCode where
  | none
  | destinationNotLoggedIn
  | negotiationTimeout
  | wrongTransportVersion
  | failedToCreatePeerConnection
  | ice
  | connectRequest
  | connectResponse
  | candidateAdd
  | inactivityTimeout
  | failedToCreateOffer
  | failedToCreateAnswer
  | failedToSetLocalDescription
  | failedToSetRemoteDescription
  | negotiationTimeoutWaitingForResponse
  | negotiationTimeoutWaitingForAccept
  | incomingConnectionIgnored
  | signalingParsingFailure
  | signalingUnknownError
  | signalingUnicastMessageDeliveryFailed
  | signalingBroadcastDeliveryFailed
  | signalingMessageDeliveryFailed
  | signalingTurnAuthFailed
  | signalingFallbackToBestEffortDelivery
  | noSignalingChannel
  | notLoggedIn
  | signalingFailedToSend
deriving DecidableEq, Repr

namespace SignalErrorCode

/-- The discriminant, `as u32`. -/
def toU32 : SignalErrorCode → UInt32
  | none => 0
  | destinationNotLoggedIn => 1
  | negotiationTimeout => 2
  | wrongTransportVersion => 3
  | failedToCreatePeerConnection => 4
  | ice => 5
  | connectRequest => 6
  | connectResponse => 7
  | candidateAdd => 8
  | inactivityTimeout => 9
  | failedToCreateOffer => 10
  | failedToCreateAnswer => 11
  | failedToSetLocalDescription => 12
  | failedToSetRemoteDescription => 13
  | negotiationTimeoutWaitingForResponse => 14
  | negotiationTimeoutWaitingForAccept => 15
  | incomingConnectionIgnored => 16
  | signalingParsingFailure => 17
  | signalingUnknownError => 18
  | signalingUnicastMessageDeliveryFailed => 19
  | signalingBroadcastDeliveryFailed => 20
  | signalingMessageDeliveryFailed => 21
  | signalingTurnAuthFailed => 22
  | signalingFallbackToBestEffortDelivery => 23
  | noSignalingChannel => 24
  | notLoggedIn => 25
  | signalingFailedToSend => 26

/-- `From<u32>`. -/
def ofU32 (code : UInt32) : SignalErrorCode :=
  match code with
  | 0 => none
  | 1 => destinationNotLoggedIn
  | 2 => negotiationTimeout
  | 3 => wrongTransportVersion
  | 4 => failedToCreatePeerConnection
  | 5 => ice
  | 6 => connectRequest
  | 7 => connectResponse
  | 8 => candidateAdd
  | 9 => inactivityTimeout
  | 10 => failedToCreateOffer
  | 11 => failedToCreateAnswer
  | 12 => failedToSetLocalDescription
  | 13 => failedToSetRemoteDescription
  | 14 => negotiationTimeoutWaitingForResponse
  | 15 => negotiationTimeoutWaitingForAccept
  | 16 => incomingConnectionIgnored
  | 17 => signalingParsingFailure
  | 18 => signalingUnknownError
  | 19 => signalingUnicastMessageDeliveryFailed
  | 20 => signalingBroadcastDeliveryFailed
  | 21 => signalingMessageDeliveryFailed
  | 22 => signalingTurnAuthFailed
  | 23 => signalingFallbackToBestEffortDelivery
  | 24 => noSignalingChannel
  | 25 => notLoggedIn
  | 26 => signalingFailedToSend
  | _ => signalingUnknownError

theorem ofU32_toU32 (e : SignalErrorCode) : ofU32 e.toU32 = e := by cases e <;> rfl

end SignalErrorCode

/-- NetherNet signal message. -/
structure Signal where
  signalType : SignalType
  connectionId : UInt64
  /-- Signal data (SDP, ICE candidate, etc.). -/
  data : String
  /-- Network ID (receiver/sender). -/
  networkId : String
deriving DecidableEq, Repr

/-- `parse::<u64>`. -/
def parseU64 (s : String) : Except IntErrorKind UInt64 := (parseUnsigned (2 ^ 64) s).map UInt64.ofNat

namespace Signal

def offer (connectionId : UInt64) (sdp networkId : String) : Signal := ⟨.offer, connectionId, sdp, networkId⟩

def answer (connectionId : UInt64) (sdp networkId : String) : Signal := ⟨.answer, connectionId, sdp, networkId⟩

def candidate (connectionId : UInt64) (candidate networkId : String) : Signal :=
  ⟨.candidate, connectionId, candidate, networkId⟩

def error (connectionId : UInt64) (errorCode : SignalErrorCode) (networkId : String) : Signal :=
  ⟨.error, connectionId, toString errorCode.toU32, networkId⟩

/-- Parses a signal from its text and assigns the network ID. -/
def fromString (s networkId : String) : Except NethernetError Signal :=
  match splitn 3 ' ' s with
  | [type, id, data] => do
    let signalType ← SignalType.fromStr type
    let connectionId ← (parseU64 id).mapError fun e => .other s!"Failed to parse connection ID: {e}"
    return ⟨signalType, connectionId, data, networkId⟩
  | parts => .error (.other s!"Invalid signal format: expected 3 parts, got {parts.length}")

instance : ToString Signal := ⟨fun s => s!"{s.signalType.asStr} {s.connectionId} {s.data}"⟩

end Signal

/-! ## Reading back -/

theorem parseU64_toString (v : UInt64) : parseU64 (toString v) = .ok v := by
  have hparse := parseUnsigned_repr v.toNat_lt
  rw [parseU64, show toString v = v.toNat.repr from rfl, hparse, Except.map, UInt64.ofNat_toNat]

theorem space_notMem_toString (v : UInt64) : ' ' ∉ (toString v).toList := fun h =>
  absurd (isDigit_of_mem_repr h) (by decide)

/-- The fields of a text, of which the first two hold no space. -/
structure Fields (s type id data : String) : Prop where
  typeWhole : ' ' ∉ type.toList
  idWhole : ' ' ∉ id.toList
  text : s = s!"{type} {id} {data}"

theorem splitn_eq_iff {s type id data : String} : splitn 3 ' ' s = [type, id, data] ↔ Fields s type id data := by
  rw [splitn_three_iff]
  constructor
  · rintro ⟨htype, hid, htext⟩
    exact ⟨htype, hid, htext⟩
  · rintro ⟨htype, hid, htext⟩
    exact ⟨htype, hid, htext⟩

theorem fields_toString {type : String} (htype : ' ' ∉ type.toList) (id : UInt64) (data : String) :
    Fields s!"{type} {id} {data}" type (toString id) data := ⟨htype, space_notMem_toString id, rfl⟩

theorem SignalType.fromStr_eq_ok_iff {s : String} {t : SignalType} : fromStr s = .ok t ↔ s = t.asStr := by
  constructor
  · unfold fromStr
    split <;> rintro ⟨⟩ <;> rfl
  · rintro rfl
    exact t.fromStr_asStr

namespace Signal

/-- What the parser accepts: a text of three fields, the name of a type, a number and the data. -/
theorem fromString_eq_ok_iff {text networkId : String} {s : Signal} : fromString text networkId = .ok s ↔
    s.networkId = networkId ∧ ∃ id, Fields text s.signalType.asStr id s.data ∧ parseU64 id = .ok s.connectionId := by
  constructor
  · intro h
    unfold fromString at h
    split at h
    · rename_i type id data hfields
      cases htype : SignalType.fromStr type with
      | error e =>
        rw [htype] at h
        cases h
      | ok signalType =>
        cases hid : parseU64 id with
        | error e =>
          rw [htype, hid] at h
          cases h
        | ok connectionId =>
          rw [htype, hid] at h
          cases h
          rw [SignalType.fromStr_eq_ok_iff.1 htype] at hfields
          exact ⟨rfl, id, splitn_eq_iff.1 hfields, hid⟩
    · cases h
  · rintro ⟨rfl, id, hfields, hid⟩
    rw [fromString, splitn_eq_iff.2 hfields]
    dsimp only
    rw [SignalType.fromStr_asStr, hid]
    rfl

theorem fromString_toString (s : Signal) : fromString (toString s) s.networkId = .ok s :=
  fromString_eq_ok_iff.2
    ⟨rfl, _, fields_toString s.signalType.space_notMem_asStr s.connectionId s.data, parseU64_toString _⟩

end Signal

end BedrockRs.Nethernet

/-
WebRTC negotiation messages (`protocol/webrtc/negotiation.rs`) and their error codes
(`protocol/webrtc/error.rs`). They share the text format of the signals, but their parser is written a
second time, refuses blank payloads and reads error codes from an enumeration of its own, which has a gap
at 0x14.
-/
import BedrockRs.Nethernet.Protocol.Signal

namespace BedrockRs.Nethernet

open Lib.Text

/-- WebRTC connection error codes. -/
inductive ConnectError where
  | none
  | destinationNotLoggedIn
  | negotiationTimeout
  | wrongTransportVersion
  | failedToCreatePeerConnection
  | ice
  | connectRequest
  | connectResponse
  | candidateAdd
  | inactivityTimeout
  | failedToCreateOffer
  | failedToCreateAnswer
  | failedToSetLocalDescription
  | failedToSetRemoteDescription
  | negotiationTimeoutWaitingForResponse
  | negotiationTimeoutWaitingForAccept
  | incomingConnectionIgnored
  | signalingParsingFailure
  | signalingUnknownError
  | signalingUnicastMessageDeliveryFailed
  | signalingBroadcastDeliveryFailed
  | signalingMessageDeliveryFailed
  | signalingTurnAuthFailed
  | signalingFallbackToBestEffortDelivery
  | noSignalingChannel
  | notLoggedIn
  | signalingFailedToSend
deriving DecidableEq, Repr

namespace ConnectError

/-- The wire code associated with the variant. -/
def code : ConnectError → UInt8
  | none => 0x00
  | destinationNotLoggedIn => 0x01
  | negotiationTimeout => 0x02
  | wrongTransportVersion => 0x03
  | failedToCreatePeerConnection => 0x04
  | ice => 0x05
  | connectRequest => 0x06
  | connectResponse => 0x07
  | candidateAdd => 0x08
  | inactivityTimeout => 0x09
  | failedToCreateOffer => 0x0a
  | failedToCreateAnswer => 0x0b
  | failedToSetLocalDescription => 0x0c
  | failedToSetRemoteDescription => 0x0d
  | negotiationTimeoutWaitingForResponse => 0x0e
  | negotiationTimeoutWaitingForAccept => 0x0f
  | incomingConnectionIgnored => 0x10
  | signalingParsingFailure => 0x11
  | signalingUnknownError => 0x12
  | signalingUnicastMessageDeliveryFailed => 0x13
  | signalingBroadcastDeliveryFailed => 0x15
  | signalingMessageDeliveryFailed => 0x16
  | signalingTurnAuthFailed => 0x17
  | signalingFallbackToBestEffortDelivery => 0x18
  | noSignalingChannel => 0x19
  | notLoggedIn => 0x1a
  | signalingFailedToSend => 0x1b

/-- The variant of a wire code. -/
def fromCode (code : UInt8) : Option ConnectError :=
  match code with
  | 0x00 => some none
  | 0x01 => some destinationNotLoggedIn
  | 0x02 => some negotiationTimeout
  | 0x03 => some wrongTransportVersion
  | 0x04 => some failedToCreatePeerConnection
  | 0x05 => some ice
  | 0x06 => some connectRequest
  | 0x07 => some connectResponse
  | 0x08 => some candidateAdd
  | 0x09 => some inactivityTimeout
  | 0x0a => some failedToCreateOffer
  | 0x0b => some failedToCreateAnswer
  | 0x0c => some failedToSetLocalDescription
  | 0x0d => some failedToSetRemoteDescription
  | 0x0e => some negotiationTimeoutWaitingForResponse
  | 0x0f => some negotiationTimeoutWaitingForAccept
  | 0x10 => some incomingConnectionIgnored
  | 0x11 => some signalingParsingFailure
  | 0x12 => some signalingUnknownError
  | 0x13 => some signalingUnicastMessageDeliveryFailed
  | 0x15 => some signalingBroadcastDeliveryFailed
  | 0x16 => some signalingMessageDeliveryFailed
  | 0x17 => some signalingTurnAuthFailed
  | 0x18 => some signalingFallbackToBestEffortDelivery
  | 0x19 => some noSignalingChannel
  | 0x1a => some notLoggedIn
  | 0x1b => some signalingFailedToSend
  | _ => Option.none

/-- `From<SignalErrorCode>`. -/
def ofSignalErrorCode : SignalErrorCode → ConnectError
  | .none => none
  | .destinationNotLoggedIn => destinationNotLoggedIn
  | .negotiationTimeout => negotiationTimeout
  | .wrongTransportVersion => wrongTransportVersion
  | .failedToCreatePeerConnection => failedToCreatePeerConnection
  | .ice => ice
  | .connectRequest => connectRequest
  | .connectResponse => connectResponse
  | .candidateAdd => candidateAdd
  | .inactivityTimeout => inactivityTimeout
  | .failedToCreateOffer => failedToCreateOffer
  | .failedToCreateAnswer => failedToCreateAnswer
  | .failedToSetLocalDescription => failedToSetLocalDescription
  | .failedToSetRemoteDescription => failedToSetRemoteDescription
  | .negotiationTimeoutWaitingForResponse => negotiationTimeoutWaitingForResponse
  | .negotiationTimeoutWaitingForAccept => negotiationTimeoutWaitingForAccept
  | .incomingConnectionIgnored => incomingConnectionIgnored
  | .signalingParsingFailure => signalingParsingFailure
  | .signalingUnknownError => signalingUnknownError
  | .signalingUnicastMessageDeliveryFailed => signalingUnicastMessageDeliveryFailed
  | .signalingBroadcastDeliveryFailed => signalingBroadcastDeliveryFailed
  | .signalingMessageDeliveryFailed => signalingMessageDeliveryFailed
  | .signalingTurnAuthFailed => signalingTurnAuthFailed
  | .signalingFallbackToBestEffortDelivery => signalingFallbackToBestEffortDelivery
  | .noSignalingChannel => noSignalingChannel
  | .notLoggedIn => notLoggedIn
  | .signalingFailedToSend => signalingFailedToSend

theorem fromCode_code (e : ConnectError) : fromCode e.code = some e := by cases e <;> rfl

theorem fromCode_eq_some_iff {code : UInt8} {e : ConnectError} : fromCode code = some e ↔ e.code = code := by
  constructor
  · unfold fromCode
    split <;> rintro ⟨⟩ <;> rfl
  · rintro rfl
    exact fromCode_code e

/-- The enumerations number their variants alike up to the gap, and with a difference of one above it. -/
theorem code_ofSignalErrorCode (e : SignalErrorCode) :
    (ofSignalErrorCode e).code.toNat = if e.toU32 < 20 then e.toU32.toNat else e.toU32.toNat + 1 := by cases e <;> rfl

end ConnectError

/-- `From<ConnectError>`. -/
def SignalErrorCode.ofConnectError : ConnectError → SignalErrorCode
  | .none => .none
  | .destinationNotLoggedIn => .destinationNotLoggedIn
  | .negotiationTimeout => .negotiationTimeout
  | .wrongTransportVersion => .wrongTransportVersion
  | .failedToCreatePeerConnection => .failedToCreatePeerConnection
  | .ice => .ice
  | .connectRequest => .connectRequest
  | .connectResponse => .connectResponse
  | .candidateAdd => .candidateAdd
  | .inactivityTimeout => .inactivityTimeout
  | .failedToCreateOffer => .failedToCreateOffer
  | .failedToCreateAnswer => .failedToCreateAnswer
  | .failedToSetLocalDescription => .failedToSetLocalDescription
  | .failedToSetRemoteDescription => .failedToSetRemoteDescription
  | .negotiationTimeoutWaitingForResponse => .negotiationTimeoutWaitingForResponse
  | .negotiationTimeoutWaitingForAccept => .negotiationTimeoutWaitingForAccept
  | .incomingConnectionIgnored => .incomingConnectionIgnored
  | .signalingParsingFailure => .signalingParsingFailure
  | .signalingUnknownError => .signalingUnknownError
  | .signalingUnicastMessageDeliveryFailed => .signalingUnicastMessageDeliveryFailed
  | .signalingBroadcastDeliveryFailed => .signalingBroadcastDeliveryFailed
  | .signalingMessageDeliveryFailed => .signalingMessageDeliveryFailed
  | .signalingTurnAuthFailed => .signalingTurnAuthFailed
  | .signalingFallbackToBestEffortDelivery => .signalingFallbackToBestEffortDelivery
  | .noSignalingChannel => .noSignalingChannel
  | .notLoggedIn => .notLoggedIn
  | .signalingFailedToSend => .signalingFailedToSend

theorem SignalErrorCode.ofConnectError_ofSignalErrorCode (e : SignalErrorCode) :
    ofConnectError (.ofSignalErrorCode e) = e := by cases e <;> rfl

theorem ConnectError.ofSignalErrorCode_ofConnectError (e : ConnectError) :
    ofSignalErrorCode (.ofConnectError e) = e := by cases e <;> rfl

/-- Message types used for WebRTC negotiation. -/
inductive NegotiationMessage where
  | connectRequest (connectionId : UInt64) (sdpOffer : String)
  | connectResponse (connectionId : UInt64) (sdpAnswer : String)
  | candidateAdd (connectionId : UInt64) (candidate : String)
  | connectError (connectionId : UInt64) (error : ConnectError)
deriving DecidableEq, Repr

/-- `parse::<u8>`. -/
def parseU8 (s : String) : Except IntErrorKind UInt8 := (parseUnsigned (2 ^ 8) s).map UInt8.ofNat

namespace NegotiationMessage

def connectionId : NegotiationMessage → UInt64
  | connectRequest id _ | connectResponse id _ | candidateAdd id _ | connectError id _ => id

def messageType : NegotiationMessage → String
  | connectRequest .. => "CONNECTREQUEST"
  | connectResponse .. => "CONNECTRESPONSE"
  | candidateAdd .. => "CANDIDATEADD"
  | connectError .. => "CONNECTERROR"

/-- The field behind the connection id. -/
def payload : NegotiationMessage → String
  | connectRequest _ sdpOffer => sdpOffer
  | connectResponse _ sdpAnswer => sdpAnswer
  | candidateAdd _ candidate => candidate
  | connectError _ error => toString error.code

instance : ToString NegotiationMessage where
  toString
    | connectRequest id sdpOffer => s!"CONNECTREQUEST {id} {sdpOffer}"
    | connectResponse id sdpAnswer => s!"CONNECTRESPONSE {id} {sdpAnswer}"
    | candidateAdd id candidate => s!"CANDIDATEADD {id} {candidate}"
    | connectError id error => s!"CONNECTERROR {id} {error.code}"

/-- The closure `validate_payload`, on what follows the connection id. -/
def validatePayload (payload : Option String) (errorMsg : String) : Except NethernetError String :=
  match payload with
  | none => .error (.other errorMsg)
  | some payload => if (trim payload).isEmpty then .error (.other errorMsg) else .ok payload

/-- The payload of a `CONNECTERROR`. -/
def parseErrorCode (connectionId : UInt64) (payload : Option String) : Except NethernetError NegotiationMessage :=
  match payload with
  | none => .error (.other "missing error code")
  | some payload => do
    let errorCode ← (parseU8 payload).mapError fun e => .other s!"invalid error code: {e}"
    match ConnectError.fromCode errorCode with
    | some error => return connectError connectionId error
    | none => .error (.other s!"unknown error code: {errorCode}")

/-- The message types of `parse`. -/
def parsePayload (messageType : String) (connectionId : UInt64) (payload : Option String) :
    Except NethernetError NegotiationMessage :=
  match messageType with
  | "CONNECTREQUEST" => do return connectRequest connectionId (← validatePayload payload "missing SDP offer")
  | "CONNECTRESPONSE" => do return connectResponse connectionId (← validatePayload payload "missing SDP answer")
  | "CANDIDATEADD" => do return candidateAdd connectionId (← validatePayload payload "missing ICE candidate")
  | "CONNECTERROR" => parseErrorCode connectionId payload
  | _ => .error (.other s!"unknown message type: {messageType}")

/-- Parse a negotiation message from its wire-format string. -/
def parse (s : String) : Except NethernetError NegotiationMessage :=
  match splitn 3 ' ' s with
  | messageType :: id :: payload => do
    let connectionId ← (parseU64 id).mapError fun e => .other s!"invalid connection ID: {e}"
    parsePayload messageType connectionId payload.head?
  | _ => .error (.other "invalid message format")

/-! ## Reading back -/

/-- A text that `trim` leaves nothing of. -/
def Blank (s : String) : Prop := ∀ c ∈ s.toList, isWhitespace c = true

instance (s : String) : Decidable (Blank s) := List.decidableBAll _ s.toList

/-- The last field of a text reads as the payload of the message. -/
def Carries (m : NegotiationMessage) (field : String) : Prop :=
  match m with
  | connectRequest _ text | connectResponse _ text | candidateAdd _ text => field = text ∧ ¬ Blank text
  | connectError _ error => parseU8 field = .ok error.code

theorem validatePayload_eq_ok_iff {payload : Option String} {errorMsg text : String} :
    validatePayload payload errorMsg = .ok text ↔ payload = some text ∧ ¬ Blank text := by
  cases payload with
  | none => exact iff_of_false (fun h => by cases h) (fun h => by cases h.1)
  | some field =>
    rw [validatePayload, Option.some.injEq]
    by_cases hblank : Blank field
    · rw [if_pos ((isEmpty_trim_iff field).2 hblank)]
      refine iff_of_false (fun h => by cases h) ?_
      rintro ⟨rfl, h⟩
      exact h hblank
    · rw [if_neg ((isEmpty_trim_iff field).not.2 hblank), Except.ok.injEq]
      constructor
      · rintro rfl
        exact ⟨rfl, hblank⟩
      · exact And.left

theorem parseErrorCode_eq_ok_iff {id : UInt64} {payload : Option String} {m : NegotiationMessage} :
    parseErrorCode id payload = .ok m ↔
      ∃ field error, payload = some field ∧ m = connectError id error ∧ parseU8 field = .ok error.code := by
  constructor
  · intro h
    cases payload with
    | none => cases h
    | some field =>
      rw [parseErrorCode] at h
      cases hcode : parseU8 field with
      | error e =>
        rw [hcode] at h
        cases h
      | ok code =>
        rw [hcode] at h
        cases herror : ConnectError.fromCode code with
        | none =>
          simp only [Except.mapError, bind, Except.bind, herror] at h
          cases h
        | some error =>
          simp only [Except.mapError, bind, Except.bind, herror] at h
          cases h
          exact ⟨field, error, rfl, rfl, by rw [hcode, ConnectError.fromCode_eq_some_iff.1 herror]⟩
  · rintro ⟨field, error, rfl, rfl, hcode⟩
    rw [parseErrorCode, hcode]
    simp only [Except.mapError, bind, Except.bind, ConnectError.fromCode_code]
    rfl

theorem parsePayload_eq_ok_iff {type : String} {id : UInt64} {payload : Option String} {m : NegotiationMessage} :
    parsePayload type id payload = .ok m ↔
      type = m.messageType ∧ m.connectionId = id ∧ ∃ field, payload = some field ∧ m.Carries field := by
  -- the three types of a text payload differ in the text of the error only
  have htext : ∀ (make : String → NegotiationMessage) (errorMsg : String),
      (do return make (← validatePayload payload errorMsg)) = .ok m ↔
        ∃ text, payload = some text ∧ ¬ Blank text ∧ make text = m := by
    intro make errorMsg
    cases hvalid : validatePayload payload errorMsg with
    | error e =>
      refine iff_of_false (fun h => by cases h) ?_
      rintro ⟨text, htext, hblank, -⟩
      rw [validatePayload_eq_ok_iff.2 ⟨htext, hblank⟩] at hvalid
      cases hvalid
    | ok text =>
      obtain ⟨rfl, hblank⟩ := validatePayload_eq_ok_iff.1 hvalid
      constructor
      · rintro ⟨⟩
        exact ⟨text, rfl, hblank, rfl⟩
      · rintro ⟨_, ⟨⟩, -, rfl⟩
        rfl
  constructor
  · unfold parsePayload
    split
    · rw [htext]
      rintro ⟨text, rfl, hblank, rfl⟩
      exact ⟨rfl, rfl, text, rfl, rfl, hblank⟩
    · rw [htext]
      rintro ⟨text, rfl, hblank, rfl⟩
      exact ⟨rfl, rfl, text, rfl, rfl, hblank⟩
    · rw [htext]
      rintro ⟨text, rfl, hblank, rfl⟩
      exact ⟨rfl, rfl, text, rfl, rfl, hblank⟩
    · rw [parseErrorCode_eq_ok_iff]
      rintro ⟨field, error, rfl, rfl, hcode⟩
      exact ⟨rfl, rfl, field, rfl, hcode⟩
    · rintro ⟨⟩
  · rintro ⟨rfl, rfl, field, rfl, hcarries⟩
    cases m with
    | connectRequest id sdpOffer =>
      exact (htext (connectRequest id) _).2 ⟨sdpOffer, by rw [hcarries.1], hcarries.2, rfl⟩
    | connectResponse id sdpAnswer =>
      exact (htext (connectResponse id) _).2 ⟨sdpAnswer, by rw [hcarries.1], hcarries.2, rfl⟩
    | candidateAdd id candidate => exact (htext (candidateAdd id) _).2 ⟨candidate, by rw [hcarries.1], hcarries.2, rfl⟩
    | connectError id error => exact parseErrorCode_eq_ok_iff.2 ⟨field, error, rfl, rfl, hcarries⟩

/-- What the parser accepts: a text of three fields, the name of a message type, a number and its payload. -/
theorem parse_eq_ok_iff {s : String} {m : NegotiationMessage} : parse s = .ok m ↔
    ∃ id field, Fields s m.messageType id field ∧ parseU64 id = .ok m.connectionId ∧ m.Carries field := by
  constructor
  · intro h
    unfold parse at h
    split at h
    · rename_i type id payload hpieces
      cases hid : parseU64 id with
      | error e =>
        rw [hid] at h
        cases h
      | ok connectionId =>
        rw [hid] at h
        obtain ⟨rfl, rfl, field, hfield, hcarries⟩ := parsePayload_eq_ok_iff.1 h
        obtain ⟨rest, rfl⟩ := List.head?_eq_some_iff.1 hfield
        have hlength := length_splitn_le 3 ' ' s
        rw [hpieces, List.length_cons, List.length_cons, List.length_cons] at hlength
        have hrest : rest = [] := List.eq_nil_of_length_eq_zero (by omega)
        rw [hrest] at hpieces
        exact ⟨id, field, splitn_eq_iff.1 hpieces, hid, hcarries⟩
    · cases h
  · rintro ⟨id, field, hfields, hid, hcarries⟩
    rw [parse, splitn_eq_iff.2 hfields]
    dsimp only
    rw [hid]
    exact parsePayload_eq_ok_iff.2 ⟨rfl, rfl, field, rfl, hcarries⟩

theorem toString_eq (m : NegotiationMessage) : toString m = s!"{m.messageType} {m.connectionId} {m.payload}" := by
  cases m <;> rfl

theorem space_notMem_messageType (m : NegotiationMessage) : ' ' ∉ m.messageType.toList := by
  cases m <;> rw [messageType] <;> decide

theorem parseU8_repr {n : Nat} (h : n < 2 ^ 8) : parseU8 n.repr = .ok (UInt8.ofNat n) := by
  rw [parseU8, parseUnsigned_repr h]
  rfl

theorem carries_payload {m : NegotiationMessage} (h : ¬ Blank m.payload) : m.Carries m.payload := by
  cases m with
  | connectRequest id sdpOffer => exact ⟨rfl, h⟩
  | connectResponse id sdpAnswer => exact ⟨rfl, h⟩
  | candidateAdd id candidate => exact ⟨rfl, h⟩
  | connectError id error => exact (parseU8_repr error.code.toNat_lt).trans (by rw [UInt8.ofNat_toNat])

theorem parse_toString {m : NegotiationMessage} (h : ¬ Blank m.payload) : parse (toString m) = .ok m := by
  rw [toString_eq]
  exact parse_eq_ok_iff.2 ⟨_, _, fields_toString m.space_notMem_messageType _ _, parseU64_toString _, carries_payload h⟩

/-- Every signal is read back from its text, spaces in the data included, and so is every negotiation message
whose payload is not blank. -/
theorem text_roundTrip :
    (∀ s : Signal, Signal.fromString (toString s) s.networkId = .ok s) ∧
    ∀ m : NegotiationMessage, ¬ Blank m.payload → parse (toString m) = .ok m :=
  ⟨Signal.fromString_toString, fun _ => parse_toString⟩

theorem text_roundTrip_candidate :
    Signal.fromString (toString (Signal.candidate 7 "candidate:1 1 udp" "")) "" =
      .ok (Signal.candidate 7 "candidate:1 1 udp" "") ∧
      parse (toString (candidateAdd 7 "candidate:1 1 udp")) = .ok (candidateAdd 7 "candidate:1 1 udp") :=
  ⟨text_roundTrip.1 (Signal.candidate 7 "candidate:1 1 udp" ""),
    text_roundTrip.2 (candidateAdd 7 "candidate:1 1 udp") (by decide)⟩

/-! ## Signals read as negotiation messages -/

theorem parseErrorCode_repr (id : UInt64) {n : Nat} (h : n < 2 ^ 8) :
    parseErrorCode id (some n.repr) = match ConnectError.fromCode (UInt8.ofNat n) with
      | some error => .ok (connectError id error)
      | none => .error (.other s!"unknown error code: {UInt8.ofNat n}") := by
  rw [parseErrorCode, parseU8_repr h]
  rfl

theorem parse_fields {type : String} (htype : ' ' ∉ type.toList) (id : UInt64) (payload : String) :
    parse s!"{type} {id} {payload}" = parsePayload type id (some payload) := by
  rw [parse, splitn_eq_iff.2 (fields_toString htype id payload)]
  dsimp only
  rw [parseU64_toString]
  rfl

/-- The parser takes the number of a `SignalErrorCode` for a wire code of its own. -/
theorem parse_error (connectionId : UInt64) (e : SignalErrorCode) (networkId : String) :
    parse (toString (Signal.error connectionId e networkId)) =
      match ConnectError.fromCode (UInt8.ofNat e.toU32.toNat) with
      | some error => .ok (connectError connectionId error)
      | none => .error (.other s!"unknown error code: {UInt8.ofNat e.toU32.toNat}") :=
  (parse_fields SignalType.error.space_notMem_asStr connectionId _).trans
    (parseErrorCode_repr connectionId (by cases e <;> decide))

/-- Below the gap the two enumerations agree, above it the parser is one behind. -/
theorem fromCode_toU32 (e : SignalErrorCode) :
    (e.toU32 < 20 → ConnectError.fromCode (UInt8.ofNat e.toU32.toNat) = some (.ofSignalErrorCode e)) ∧
    (e.toU32 = 20 → ConnectError.fromCode (UInt8.ofNat e.toU32.toNat) = none) ∧
    (20 < e.toU32 →
      ConnectError.fromCode (UInt8.ofNat e.toU32.toNat) = some (.ofSignalErrorCode (.ofU32 (e.toU32 - 1))) ∧
      ConnectError.ofSignalErrorCode (.ofU32 (e.toU32 - 1)) ≠ .ofSignalErrorCode e) := by cases e <;> decide

/-- Offers, answers and candidates are read as the messages of their type. Errors are read as the same error up
to number 19; number 20 falls into the gap, and the numbers above it are read as the error before. -/
theorem parse_signal (connectionId : UInt64) (networkId : String) :
    (∀ data, ¬ Blank data →
      parse (toString (Signal.offer connectionId data networkId)) = .ok (connectRequest connectionId data) ∧
      parse (toString (Signal.answer connectionId data networkId)) = .ok (connectResponse connectionId data) ∧
      parse (toString (Signal.candidate connectionId data networkId)) = .ok (candidateAdd connectionId data)) ∧
    ∀ e : SignalErrorCode,
      (parse (toString (Signal.error connectionId e networkId)) =
      .ok (connectError connectionId (.ofSignalErrorCode e)) ↔
        e.toU32 < 20) ∧
      (e.toU32 = 20 →
      parse (toString (Signal.error connectionId e networkId)) = .error (.other "unknown error code: 20")) ∧
      (20 < e.toU32 → parse (toString (Signal.error connectionId e networkId)) =
        .ok (connectError connectionId (.ofSignalErrorCode (.ofU32 (e.toU32 - 1))))) := by
  constructor
  · intro data hdata
    exact ⟨parse_toString (m := connectRequest connectionId data) hdata,
      parse_toString (m := connectResponse connectionId data) hdata,
      parse_toString (m := candidateAdd connectionId data) hdata⟩
  · intro e
    obtain ⟨hbelow, hgap, habove⟩ := fromCode_toU32 e
    rw [parse_error]
    refine ⟨⟨fun h => ?_, fun hlt => by rw [hbelow hlt]⟩, fun heq => ?_, fun hgt => by rw [(habove hgt).1]⟩
    · by_contra hnot
      rcases Nat.eq_or_lt_of_le (Nat.not_lt.1 (UInt32.lt_iff_toNat_lt.not.1 hnot)) with heq | hgt
      · rw [hgap (UInt32.toNat_inj.1 heq.symm)] at h
        cases h
      · obtain ⟨hbefore, hne⟩ := habove (UInt32.lt_iff_toNat_lt.2 hgt)
        simp only [hbefore, Except.ok.injEq, connectError.injEq, true_and] at h
        exact hne h
    · rw [hgap heq, heq]
      rfl

/-- An offer, and an error on each side of the gap. -/
theorem parse_signal_offer :
    parse (toString (Signal.offer 7 "v=0" "1")) = .ok (connectRequest 7 "v=0") ∧
      parse (toString (Signal.error 7 .signalingUnicastMessageDeliveryFailed "1")) =
        .ok (connectError 7 .signalingUnicastMessageDeliveryFailed) ∧
      parse (toString (Signal.error 7 .signalingMessageDeliveryFailed "1")) =
        .ok (connectError 7 .signalingBroadcastDeliveryFailed) :=
  ⟨((parse_signal 7 "1").1 "v=0" (by decide)).1,
    ((parse_signal 7 "1").2 .signalingUnicastMessageDeliveryFailed).1.2 (by decide),
    ((parse_signal 7 "1").2 .signalingMessageDeliveryFailed).2.2 (by decide)⟩

/-- Number 20 is an error of the signals, and not of the negotiation messages. -/
theorem not_parse_signal : ¬ ∀ (connectionId : UInt64) (networkId : String) (e : SignalErrorCode),
    parse (toString (Signal.error connectionId e networkId)) =
      .ok (connectError connectionId (.ofSignalErrorCode e)) := by
  intro h
  have herror := h 1 "" .signalingBroadcastDeliveryFailed
  rw [parse_error, (fromCode_toU32 _).2.1 rfl] at herror
  cases herror

/-- Whatever the negotiation parser accepts is a signal of the same type and connection. -/
theorem fromString_of_parse {s : String} {m : NegotiationMessage} (h : parse s = .ok m) (networkId : String) :
    ∃ signal, Signal.fromString s networkId = .ok signal ∧ signal.signalType.asStr = m.messageType ∧
      signal.connectionId = m.connectionId ∧ m.Carries signal.data := by
  obtain ⟨id, field, hfields, hid, hcarries⟩ := parse_eq_ok_iff.1 h
  have htype : ∃ t : SignalType, t.asStr = m.messageType := by
    cases m with
    | connectRequest => exact ⟨.offer, rfl⟩
    | connectResponse => exact ⟨.answer, rfl⟩
    | candidateAdd => exact ⟨.candidate, rfl⟩
    | connectError => exact ⟨.error, rfl⟩
  obtain ⟨t, ht⟩ := htype
  rw [← ht] at hfields
  exact ⟨⟨t, m.connectionId, field, networkId⟩, Signal.fromString_eq_ok_iff.2 ⟨rfl, id, hfields, hid⟩, ht, rfl,
    hcarries⟩

end NegotiationMessage

end BedrockRs.Nethernet

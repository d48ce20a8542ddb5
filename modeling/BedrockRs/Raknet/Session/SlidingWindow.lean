/-
The congestion window (`session/sliding_window.rs`), over an arbitrary interpretation `F` of `f64`.
`unacked_bytes` is an unbounded integer here: an `i64` holds every count a session can reach.
-/
import BedrockRs.Lib.Std
import BedrockRs.Raknet.Protocol.Datagram

namespace BedrockRs.Raknet

open Lib

structure SlidingWindow (F : Type) where
  mtu : Nat
  cwnd : F
  ssThresh : F
  estimatedRtt : F
  lastRtt : F
  deviationRtt : F
  nextCongestionBlock : Sequence24
  backoffThisBlock : Bool
  unackedBytes : Int
deriving DecidableEq

namespace SlidingWindow

open Float64

variable {F : Type} [Float64 F]

/-- `CC_MAXIMUM_THRESHOLD` and `CC_ADDITIONAL_VARIANCE`, in milliseconds. -/
def ccMaximumThreshold : Nat := 2000
def ccAdditionalVariance : Nat := 30

def new (mtu : Nat) : SlidingWindow F where
  mtu := mtu
  cwnd := ofRat mtu
  ssThresh := ofRat 0
  estimatedRtt := ofRat (-1)
  lastRtt := ofRat (-1)
  deviationRtt := ofRat (-1)
  nextCongestionBlock := Sequence24.new 0
  backoffThisBlock := false
  unackedBytes := 0

def onReliableSend (w : SlidingWindow F) (dgram : Datagram) : SlidingWindow F :=
  { w with unackedBytes := w.unackedBytes + dgram.size }

def isInSlowStart (w : SlidingWindow F) : Bool := eq w.ssThresh (ofRat 0) || le w.cwnd w.ssThresh

/-- The round-trip estimate of `on_ack`. -/
def updateRtt (w : SlidingWindow F) (rttMs : F) : SlidingWindow F :=
  if lt w.estimatedRtt (ofRat 0) then
    { w with estimatedRtt := rttMs, deviationRtt := div rttMs (ofRat 2) }
  else
    let alpha : F := ofRat (1 / 8)
    let beta : F := ofRat (1 / 4)
    let diff := sub rttMs w.estimatedRtt
    { w with
      estimatedRtt := add w.estimatedRtt (mul alpha diff)
      deviationRtt := add (mul (sub (ofRat 1) beta) w.deviationRtt) (mul beta (abs diff)) }

/-- An acknowledgement past the current congestion block opens a new one. -/
def enterBlock (w : SlidingWindow F) (ackedSeq : Sequence24) : SlidingWindow F :=
  if ackedSeq.gt w.nextCongestionBlock then
    { w with backoffThisBlock := false, nextCongestionBlock := ackedSeq }
  else w

/-- The window growth of `on_ack`. -/
def growCwnd (w : SlidingWindow F) (isNewBlock : Bool) : SlidingWindow F :=
  let mtu : F := ofRat w.mtu
  if w.isInSlowStart then
    let cwnd := add w.cwnd mtu
    if !eq w.ssThresh (ofRat 0) && lt w.ssThresh cwnd then
      { w with cwnd := add w.ssThresh (div (mul mtu mtu) cwnd) }
    else { w with cwnd := cwnd }
  else if isNewBlock then { w with cwnd := add w.cwnd (div (mul mtu mtu) w.cwnd) }
  else w

def onAck (w : SlidingWindow F) (now : Instant) (dgram : Datagram) (ackedSeq : Sequence24) (sendTime : Instant) :
    SlidingWindow F :=
  let rttMs : F := ofRat (Duration.asMillis (Instant.durationSince now sendTime))
  let unacked := w.unackedBytes - dgram.size
  let w := { w with lastRtt := rttMs, unackedBytes := if unacked < 0 then 0 else unacked }
  let w := w.updateRtt rttMs
  (w.enterBlock ackedSeq).growCwnd (ackedSeq.gt w.nextCongestionBlock)

def onNak (w : SlidingWindow F) : SlidingWindow F :=
  if !w.backoffThisBlock then { w with ssThresh := mul w.cwnd (ofRat (3 / 4)) } else w

def onResend (w : SlidingWindow F) (curSeq : Sequence24) : SlidingWindow F :=
  let mtu : F := ofRat w.mtu
  if !w.backoffThisBlock && lt (mul mtu (ofRat 2)) w.cwnd then
    { w with
      ssThresh := max (mul w.cwnd (ofRat (1 / 2))) mtu
      cwnd := mtu
      nextCongestionBlock := curSeq
      backoffThisBlock := true }
  else w

def getRetransmissionBandwidth (w : SlidingWindow F) : Nat := w.unackedBytes.toNat

def getTransmissionBandwidth (w : SlidingWindow F) : Nat :=
  let unacked : F := ofRat w.unackedBytes
  if le unacked w.cwnd then toNat (sub w.cwnd unacked) else 0

def getRtoForRetransmission (w : SlidingWindow F) : Duration :=
  if lt w.estimatedRtt (ofRat 0) then Duration.fromMillis ccMaximumThreshold
  else
    let threshold : F := add (add (mul (ofRat 2) w.estimatedRtt) (mul (ofRat 4) w.deviationRtt))
      (ofRat ccAdditionalVariance)
    let threshold := if lt (ofRat ccMaximumThreshold) threshold then ofRat ccMaximumThreshold else threshold
    Duration.fromMillis (toNat threshold)

/-! ## The byte counter -/

@[simp] theorem unackedBytes_new (mtu : Nat) : (new mtu : SlidingWindow F).unackedBytes = 0 := rfl

omit [Float64 F] in
@[simp] theorem unackedBytes_onReliableSend (w : SlidingWindow F) (d : Datagram) :
    (w.onReliableSend d).unackedBytes = w.unackedBytes + d.size := rfl

@[simp] theorem unackedBytes_updateRtt (w : SlidingWindow F) (rttMs : F) :
    (w.updateRtt rttMs).unackedBytes = w.unackedBytes := by
  unfold updateRtt; split <;> rfl

omit [Float64 F] in
@[simp] theorem unackedBytes_enterBlock (w : SlidingWindow F) (seq : Sequence24) :
    (w.enterBlock seq).unackedBytes = w.unackedBytes := by
  unfold enterBlock; split <;> rfl

@[simp] theorem unackedBytes_growCwnd (w : SlidingWindow F) (b : Bool) :
    (w.growCwnd b).unackedBytes = w.unackedBytes := by
  unfold growCwnd
  split
  · simp only; split <;> rfl
  · split <;> rfl

@[simp] theorem unackedBytes_onAck (w : SlidingWindow F) (now : Instant) (d : Datagram) (seq : Sequence24)
    (sendTime : Instant) :
    (w.onAck now d seq sendTime).unackedBytes = if w.unackedBytes - d.size < 0 then 0 else w.unackedBytes - d.size := by
  unfold onAck
  simp only [unackedBytes_growCwnd, unackedBytes_enterBlock, unackedBytes_updateRtt]

@[simp] theorem unackedBytes_onNak (w : SlidingWindow F) : w.onNak.unackedBytes = w.unackedBytes := by
  unfold onNak; split <;> rfl

@[simp] theorem unackedBytes_onResend (w : SlidingWindow F) (seq : Sequence24) :
    (w.onResend seq).unackedBytes = w.unackedBytes := by
  unfold onResend; simp only; split <;> rfl

end SlidingWindow

end BedrockRs.Raknet

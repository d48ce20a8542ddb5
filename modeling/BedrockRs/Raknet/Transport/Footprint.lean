/-
What the sessions of a listener hold. Every packet of a decoded datagram carries 8192 bytes of payload at
most, since its length is a 16-bit number of bits; so, whatever the peers send, each session stays within
the configuration of the listener (`held_bounded`).
-/
import BedrockRs.Raknet.Session.Footprint
import BedrockRs.Raknet.Transport.Demux

namespace BedrockRs.Raknet.Transport.Listener

open Lib

theorem payloadLen_le (p : EncapsulatedPacket) : p.payloadLen ≤ 8192 := by
  have := p.bitLength.toNat_lt
  rw [EncapsulatedPacket.payloadLen, Nat.shiftRight_eq_div_pow]
  omega

/-- A datagram that decodes carries short packets only. -/
theorem Decoded.short {op : ManagedSession.Op} (h : Decoded op) : op.Short 8192 := by
  cases op with
  | handleDatagram dgram now =>
    obtain ⟨bytes, rest, hdec⟩ := h
    intro p hp
    cases hdata : dgram.isData with
    | false =>
      rw [Datagram.packets_of_not_isData hdata] at hp
      cases hp
    | true =>
      rw [((Datagram.decode_wellFormed hdec hdata).packets p hp).payload]
      exact payloadLen_le p
  | _ => trivial

/-- In every run of the listener, whatever its peers send and in whatever order, each session keeps at most the
configured number of ordering channels with 2048 packets each, of messages under reassembly with their parts, of
bits of the duplicate filter and of ranges in the ACKs and NAKs to be sent, and the payloads it holds have a bound
in bytes. -/
theorem held_bounded {F : Type} [Float64 F] (host : Host) (events : List (Event F)) (l : Listener F)
    (hl : after host events = some l) (p : SocketAddr) (state : SessionState F)
    (hp : l.sessions.lookup p = some state) : state.managed.inner.Footprint host.serverSessionConfig.session 8192 ∧
    state.managed.inner.heldBytes ≤
      host.config.maxOrderingChannels * (2048 * (max 1 host.config.maxSplitParts * 8192)) +
        host.config.maxConcurrentSplits * (host.config.maxSplitParts * 8192) := by
  have hfootprint : state.managed.inner.Footprint host.serverSessionConfig.session 8192 :=
    sessions_inv (P := fun _ m => m.inner.Footprint host.serverSessionConfig.session 8192) (fun p mtu opened ops hops =>
      ManagedSession.footprint_run host.start p mtu opened _ fun op hop => (hops op hop).short) hl hp
  exact ⟨hfootprint, hfootprint.heldBytes_le⟩

/-- An ordered packet that comes too early, behind the datagram that connects the session. -/
def earlyPacket : Bytes :=
  (Datagram.encode ⟨⟨.valid, Sequence24.new 1⟩, .encapsulatedPackets
    [⟨⟨.reliableOrdered, false, false⟩, 24, some (Sequence24.new 5), none, some (Sequence24.new 5), some 0, none,
      [0xfe, 1, 2]⟩]⟩).toOption.getD []

theorem held_bounded_early :
    ∃ l state, after (Host.plain {}) (oneConnection ++ [.datagram (Env.at 3) earlyPacket .loopbackV4]) = some l ∧
      l.sessions.lookup .loopbackV4 = some state ∧ state.managed.inner.heldBytes = 3 ∧
    state.managed.inner.Footprint (Host.plain {}).serverSessionConfig.session 8192 ∧
    state.managed.inner.heldBytes ≤ 16 * (2048 * (8192 * 8192)) + 4096 * (8192 * 8192) := by
  have hrun : ((after (Host.plain {}) (oneConnection ++ [.datagram (Env.at 3) earlyPacket .loopbackV4])).map fun l =>
      (l.sessions.lookup .loopbackV4).map fun state => state.managed.inner.heldBytes) =
      some (some 3) := by decide +kernel
  obtain ⟨l, hl, hrun⟩ := Option.map_eq_some_iff.1 hrun
  obtain ⟨state, hlookup, hheld⟩ := Option.map_eq_some_iff.1 hrun
  obtain ⟨hfootprint, hbound⟩ := held_bounded (Host.plain {}) _ l hl .loopbackV4 state hlookup
  exact ⟨l, state, hl, hlookup, hheld, hfootprint, hbound⟩

end BedrockRs.Raknet.Transport.Listener

/-
The cookies of a listener and the layout of the second request. Nothing in that request says whether
it carries a cookie: its reader looks if the byte after the magic is the version of an address. The
generator keeps its cookies clear of those versions, whatever hash they are made from, and so every
control packet the two sides exchange is read as it was written.
-/
import BedrockRs.Raknet.Protocol.ControlRoundTrip
import BedrockRs.Raknet.Transport.Listener

namespace BedrockRs.Raknet.Transport

/-- A cookie is never taken for the start of an address. -/
theorem Host.generateCookie_unambiguous (host : Host) (env : Env) (peer : SocketAddr) :
    IsUnambiguous (host.generateCookie env peer) := by
  have hflip : ∀ cookie : UInt32, ((cookie ^^^ 0x01000000) >>> 24).toUInt8 = (cookie >>> 24).toUInt8 ^^^ 1 := by
    intro cookie
    rw [UInt32.shiftRight_xor, UInt32.toUInt8_xor]
    rfl
  unfold generateCookie
  dsimp only
  split
  · rename_i hfirst
    unfold IsUnambiguous
    rw [hflip]
    rcases hfirst with hfirst | hfirst
    · rw [hfirst]
      decide
    · rw [hfirst]
      decide
  · rename_i hfirst
    exact not_or.1 hfirst

/-- A cookie that some listener draws for some peer at some time: the hash is arbitrary. -/
def Issued (cookie : UInt32) : Prop :=
  ∃ (host : Host) (env : Env) (peer : SocketAddr), host.generateCookie env peer = cookie

/-- Every control packet that the wire carries is read as it was written, but for the proof flag. -/
theorem control_roundTrip (p : RaknetPacket) (h : p.Carried Issued) :
    ∃ bytes, p.encode = .ok bytes ∧ RaknetPacket.decodeFrom bytes = .ok p.withoutProof := by
  refine ⟨p.id :: p.encodeBody, rfl, h.decodeFrom_encodeBody ?_⟩
  rintro cookie ⟨host, env, peer, rfl⟩
  exact host.generateCookie_unambiguous env peer

/-- A host whose hash would make every cookie start like an IPv4 address. -/
def ambiguousHost : Host := { Host.plain {} with hash := fun _ _ => 0x04000001 }

/-- The second request with a cookie of that host, and the address of a peer in it. -/
theorem control_roundTrip_request2 : ∃ bytes, RaknetPacket.encode (.openConnectionRequest2 ⟨defaultUnconnectedMagic,
    some (ambiguousHost.generateCookie (Env.at 0) .anyV6), true, .loopbackV6, 1400, 7⟩) = .ok bytes ∧
      RaknetPacket.decodeFrom bytes = .ok (.openConnectionRequest2 ⟨defaultUnconnectedMagic,
        some (ambiguousHost.generateCookie (Env.at 0) .anyV6), false, .loopbackV6, 1400, 7⟩) := by
  refine control_roundTrip _ ⟨rfl, ?_⟩
  rintro _ ⟨⟩
  exact ⟨ambiguousHost, Env.at 0, .anyV6, rfl⟩

end BedrockRs.Raknet.Transport

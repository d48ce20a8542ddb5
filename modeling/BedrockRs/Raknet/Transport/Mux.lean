/-
Flushing a managed session (`flush_managed` of `transport/mux.rs`): the datagrams of a tick, if one is
due, and then every datagram that the session can build, each encoded and sent. A datagram that
cannot be encoded makes the muxer panic; the model returns `none` there. What a flush does to the
session is a run of its own calls, so everything proved of those runs holds behind a muxer.
-/
import BedrockRs.Raknet.Session.Encodable
import BedrockRs.Raknet.Transport.Message

namespace BedrockRs.Raknet.Transport

open Lib

/-- The errors that a muxer reports to the application when a session ends (`error/mod.rs`). -/
inductive RaknetError
  | connectionClosed
  | disconnected (reason : DisconnectReason)
deriving DecidableEq

/-- What a handler of the muxer hands out: a UDP packet, an item on the channel of a peer's stream, or a
new connection for the acceptor. -/
inductive Output
  | sendTo (bytes : Bytes) (peer : SocketAddr)
  | toApp (peer : SocketAddr) (item : Except RaknetError ReceivedMessage)
  | newConnection (peer : SocketAddr)

variable {F : Type} [Float64 F]

/-- Encodes a datagram and sends it; `none` is the panic of `expect("Bad datagram in queue.")`. -/
def sendDatagram (peer : SocketAddr) (d : OutgoingDatagram) : Option Output :=
  match d.encode with
  | .ok out => some (.sendTo out peer)
  | .error _ => none

/-- The loop `while let Some(d) = managed.build_datagram(now)`. Each round takes a packet off the heap, so
the length of the heap and one more round for the end are enough fuel. -/
def buildLoop (peer : SocketAddr) (now : Instant) : Nat → ManagedSession F → Option (List Output × ManagedSession F)
  | 0, m => some ([], m)
  | fuel + 1, m =>
    match m.buildDatagram now with
    | (none, m) => some ([], m)
    | (some d, m) => do
      let sent ← sendDatagram peer d
      let (out, m) ← buildLoop peer now fuel m
      return (sent :: out, m)

/-- The datagrams of the tick when `run_tick` is set; `tick` is then the order in which the session walks
its split entries. -/
def tickDatagrams (start : Instant) (m : ManagedSession F) (now : Instant) :
    Option (IterOrder SplitEntries.Item) → List OutgoingDatagram × ManagedSession F
  | some iter => m.onTick start now iter
  | none => ([], m)

/-- Flushes any pending maintenance and outbound datagrams for a managed session. -/
def flushManaged (start : Instant) (m : ManagedSession F) (peer : SocketAddr) (now : Instant)
    (tick : Option (IterOrder SplitEntries.Item)) : Option (List Output × ManagedSession F) := do
  let (ticked, m) := tickDatagrams start m now tick
  let sent ← ticked.mapM (sendDatagram peer)
  let (out, m) ← buildLoop peer now (m.inner.outgoingHeap.len + 1) m
  return (sent ++ out, m)

/-! ## The loop -/

theorem buildDatagram_inner_eq (m : ManagedSession F) (now : Instant) :
    (m.buildDatagram now).1 = (m.inner.buildDataDatagram now).1 ∧
      (m.buildDatagram now).2.inner = (m.inner.buildDataDatagram now).2 := by
  unfold ManagedSession.buildDatagram
  split
  · rename_i inner h
    rw [h]; exact ⟨rfl, rfl⟩
  · rename_i dgram inner h
    rw [h]
    refine ⟨rfl, ?_⟩
    dsimp only
    split <;> rfl

/-- Every datagram that is built takes a packet off the heap. -/
theorem buildDatagram_heap {m m' : ManagedSession F} {now : Instant} {d : OutgoingDatagram}
    (h : m.buildDatagram now = (some d, m')) : m'.inner.outgoingHeap.len < m.inner.outgoingHeap.len := by
  obtain ⟨hfst, hsnd⟩ := buildDatagram_inner_eq m now
  rw [h] at hfst hsnd
  obtain ⟨frames, hheap, hout, -⟩ := m.inner.buildDataDatagram_spec now
  have hframes : frames ≠ [] := by
    obtain ⟨hnone, -⟩ | ⟨o, ho, hpayload⟩ := hout
    · rw [hnone] at hfst; cases hfst
    · have hne := (Session.buildDataDatagram_some ho).1
      rwa [Datagram.packets, hpayload] at hne
  have hlen := hheap.length_eq
  rw [List.length_append, List.length_map, List.length_map, ← hsnd] at hlen
  have hpos := List.length_pos_of_ne_nil hframes
  show m'.inner.outgoingHeap.data.length < m.inner.outgoingHeap.data.length
  dsimp only at hlen
  omega

/-- More fuel than the flush gives the loop changes nothing. -/
theorem buildLoop_fuel (peer : SocketAddr) (now : Instant) : ∀ (fuel : Nat) (m : ManagedSession F),
    m.inner.outgoingHeap.len < fuel → buildLoop peer now (fuel + 1) m = buildLoop peer now fuel m
  | 0, m, h => absurd h (Nat.not_lt_zero _)
  | fuel + 1, m, h => by
    rw [buildLoop, buildLoop]
    split
    · rfl
    · rename_i d m' hb
      rw [buildLoop_fuel peer now fuel m' (by have := buildDatagram_heap hb; omega)]

/-- A call that builds a datagram. -/
def IsBuild : ManagedSession.Op → Prop
  | .buildDatagram _ => True
  | _ => False

/-- The loop only builds datagrams, and sends each of them. -/
theorem buildLoop_spec (start : Instant) {peer : SocketAddr} {now : Instant} : ∀ {fuel : Nat} {m m' : ManagedSession F}
    {out : List Output}, buildLoop peer now fuel m = some (out, m') →
    Machine.Reach (ManagedSession.step start) IsBuild m m' ∧
      ∀ o ∈ out, ∃ (d : Datagram) (bytes : Bytes), o = .sendTo bytes peer ∧ d.encode = .ok bytes ∧ d.isData = true ∧
      d.header.flags.contains .valid = true
  | 0, m, m', out, h => by
    cases h
    exact ⟨.refl m, by simp⟩
  | fuel + 1, m, m', out, h => by
    have hbuild : Machine.Reach (ManagedSession.step start) IsBuild m (m.buildDatagram now).2 :=
      .single (show IsBuild (.buildDatagram now) from trivial) m
    rw [buildLoop] at h
    split at h
    · rename_i m₁ hb
      cases h
      rw [hb] at hbuild
      exact ⟨hbuild, by simp⟩
    · rename_i d m₁ hb
      rw [hb] at hbuild
      obtain ⟨sent, hsent, h⟩ := Option.bind_eq_some_iff.1 h
      obtain ⟨⟨rest, m₂⟩, hrest, h⟩ := Option.bind_eq_some_iff.1 h
      cases h
      obtain ⟨hreach, hout⟩ := buildLoop_spec start hrest
      refine ⟨hbuild.trans hreach, fun o ho => ?_⟩
      rcases List.mem_cons.1 ho with rfl | ho
      · -- a datagram that is built holds packets, which makes it a data datagram
        have hsome : (m.inner.buildDataDatagram now).1 = some d := by
          rw [← (buildDatagram_inner_eq m now).1, hb]
        obtain ⟨hne, hvalid⟩ := Session.buildDataDatagram_some hsome
        unfold sendDatagram at hsent
        split at hsent
        · rename_i bytes hbytes
          cases hsent
          refine ⟨d.asRef, bytes, rfl, hbytes, ?_, hvalid⟩
          by_contra hdata
          exact hne (Datagram.packets_of_not_isData (Bool.eq_false_iff.2 hdata))
        · cases hsent
      · exact hout o ho

/-- A flush is the tick, if one is due, followed by calls that build datagrams. -/
theorem flushManaged_reach {start : Instant} {m m' : ManagedSession F} {peer : SocketAddr} {now : Instant}
    {tick : Option (IterOrder SplitEntries.Item)} {out : List Output}
    (h : flushManaged start m peer now tick = some (out, m')) :
    Machine.Reach (ManagedSession.step start) IsBuild (tickDatagrams start m now tick).2 m' := by
  obtain ⟨sent, -, h⟩ := Option.bind_eq_some_iff.1 h
  obtain ⟨⟨rest, m₁⟩, hloop, h⟩ := Option.bind_eq_some_iff.1 h
  cases h
  exact (buildLoop_spec start hloop).1

/-- Without a tick, all that a flush sends are valid DATA datagrams. -/
theorem flushManaged_sent {start : Instant} {m m' : ManagedSession F} {peer : SocketAddr} {now : Instant}
    {out : List Output} (h : flushManaged start m peer now none = some (out, m')) :
    ∀ o ∈ out, ∃ (d : Datagram) (bytes : Bytes), o = .sendTo bytes peer ∧ d.encode = .ok bytes ∧ d.isData = true ∧
      d.header.flags.contains .valid = true := by
  have heq : flushManaged start m peer now none = buildLoop peer now (m.inner.outgoingHeap.len + 1) m := by
    show (buildLoop peer now (m.inner.outgoingHeap.len + 1) m).bind (fun r => some ([] ++ r.1, r.2)) = _
    cases buildLoop peer now (m.inner.outgoingHeap.len + 1) m <;> rfl
  rw [heq] at h
  exact (buildLoop_spec start h).2

/-- The datagrams of a tick are sent as they are. -/
theorem mapM_sendDatagram {peer : SocketAddr} : ∀ {ds : List OutgoingDatagram} {sent : List Output},
    ds.mapM (sendDatagram peer) = some sent →
      ∀ o ∈ sent, ∃ d ∈ ds, ∃ bytes, d.encode = .ok bytes ∧ o = .sendTo bytes peer
  | [], sent, h => by
    cases h
    simp
  | d :: ds, sent, h => by
    rw [List.mapM_cons] at h
    obtain ⟨first, hfirst, h⟩ := Option.bind_eq_some_iff.1 h
    obtain ⟨rest, hrest, h⟩ := Option.bind_eq_some_iff.1 h
    cases h
    unfold sendDatagram at hfirst
    split at hfirst
    · rename_i bytes hbytes
      cases hfirst
      intro o ho
      rcases List.mem_cons.1 ho with rfl | ho
      · exact ⟨d, List.mem_cons_self .., bytes, hbytes, rfl⟩
      · obtain ⟨d', hd', hsent⟩ := mapM_sendDatagram hrest o ho
        exact ⟨d', List.mem_cons_of_mem _ hd', hsent⟩
    · cases hfirst

/-- All that a flush hands out are datagrams for the peer: those of the tick, or valid ones. -/
theorem flushManaged_mem {start : Instant} {m m' : ManagedSession F} {peer : SocketAddr} {now : Instant}
    {tick : Option (IterOrder SplitEntries.Item)} {out : List Output}
    (h : flushManaged start m peer now tick = some (out, m')) :
    ∀ o ∈ out, ∃ (d : Datagram) (bytes : Bytes), o = .sendTo bytes peer ∧ d.encode = .ok bytes ∧
      ((∃ d' ∈ (tickDatagrams start m now tick).1, d'.asRef = d) ∨ d.header.flags.contains .valid = true) := by
  obtain ⟨sent, hsent, h⟩ := Option.bind_eq_some_iff.1 h
  obtain ⟨⟨rest, m₁⟩, hloop, h⟩ := Option.bind_eq_some_iff.1 h
  cases h
  intro o ho
  rcases List.mem_append.1 ho with ho | ho
  · obtain ⟨d, hd, bytes, hbytes, rfl⟩ := mapM_sendDatagram hsent o ho
    exact ⟨d.asRef, bytes, rfl, hbytes, .inl ⟨d, hd, rfl⟩⟩
  · obtain ⟨d, bytes, rfl, hbytes, -, hvalid⟩ := (buildLoop_spec start hloop).2 o ho
    exact ⟨d, bytes, rfl, hbytes, .inr hvalid⟩

theorem flushManaged_sendTo {start : Instant} {m m' : ManagedSession F} {peer : SocketAddr} {now : Instant}
    {tick : Option (IterOrder SplitEntries.Item)} {out : List Output}
    (h : flushManaged start m peer now tick = some (out, m')) : ∀ o ∈ out, ∃ bytes, o = .sendTo bytes peer := by
  intro o ho
  obtain ⟨d, bytes, hout, -⟩ := flushManaged_mem h o ho
  exact ⟨bytes, hout⟩

/-- Building datagrams leaves state, configuration and activity of the session alone. -/
theorem reach_build_same {start : Instant} {m m' : ManagedSession F}
    (h : Machine.Reach (ManagedSession.step start) IsBuild m m') :
    m'.state = m.state ∧ m'.config = m.config ∧ m'.lastActivity = m.lastActivity ∧
      m'.lastDisconnectReason = m.lastDisconnectReason := by
  refine h.inv (I := fun m' => m'.state = m.state ∧ m'.config = m.config ∧ m'.lastActivity = m.lastActivity ∧
    m'.lastDisconnectReason = m.lastDisconnectReason) (fun s op hop hs => ?_) ⟨rfl, rfl, rfl, rfl⟩
  cases op with
  | buildDatagram now =>
    have hsame : (s.buildDatagram now).2.state = s.state ∧ (s.buildDatagram now).2.config = s.config ∧
        (s.buildDatagram now).2.lastActivity = s.lastActivity ∧
        (s.buildDatagram now).2.lastDisconnectReason = s.lastDisconnectReason := by
      unfold ManagedSession.buildDatagram
      split
      · exact ⟨rfl, rfl, rfl, rfl⟩
      · simp only
        split <;> exact ⟨rfl, rfl, rfl, rfl⟩
    obtain ⟨h1, h2, h3, h4⟩ := hsame
    exact ⟨h1.trans hs.1, h2.trans hs.2.1, h3.trans hs.2.2.1, h4.trans hs.2.2.2⟩
  | _ => exact hop.elim

end BedrockRs.Raknet.Transport

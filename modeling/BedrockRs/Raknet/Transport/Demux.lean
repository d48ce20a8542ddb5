/-
The listener as a demultiplexer. Each session behind it is a managed session of its own: from the event
that opened it on, it has taken exactly the datagrams of its peer that decode, the messages of the
application for its peer, and the ticks, in the order of the run, with nothing in between but the
building of datagrams (`session_is_run`). So no event of another peer ever reaches a session, and none of
its own is lost or taken twice, whatever the number of peers and the interleaving of their events; and
what holds of every run of a managed session holds of every session of a listener.
-/
import BedrockRs.Raknet.Transport.Reclaim

namespace BedrockRs.Raknet.Transport.Listener

open Lib

variable {F : Type}

/-! ## The calls of an event -/

/-- A call other than the building of a datagram, which every flush does. -/
def isCall : ManagedSession.Op → Bool
  | .buildDatagram _ => false
  | _ => true

/-- The call that an event makes on the session of a peer. -/
def Event.call (p : SocketAddr) : Event F → Option ManagedSession.Op
  | .datagram env bytes peer =>
    if peer = p then
      match Datagram.decode bytes with
      | .ok (dgram, _) => some (.handleDatagram dgram env.now)
      | .error _ => none
    else none
  | .outbound env msg =>
    if msg.peer = p then some (.queueAppPacket msg.packet msg.reliability msg.channel msg.priority env.clock) else none
  | .tick env _ splits => some (.onTick env.now (splits p))

variable [Float64 F]

/-- The event opens a session for a peer, with this MTU, at this time and with these first calls: a request that
completes the handshake, or a message of the application for a peer without a session. -/
inductive Opens (host : Host) (p : SocketAddr) (l : Listener F) :
    Event F → Nat → Instant → List ManagedSession.Op → Prop
  | handshake {env : Env} {bytes : Bytes} {mtu : UInt16} (hcompletes : l.Completes env bytes p mtu) :
      Opens host p l (.datagram env bytes p) mtu.toNat env.now []
  | message {env : Env} {msg : OutboundMsg} (hnone : l.sessions.lookup p = none) (hpeer : msg.peer = p) :
      Opens host p l (.outbound env msg) host.config.maxMtu.toNat env.now
        [.queueAppPacket msg.packet msg.reliability msg.channel msg.priority env.clock]

/-- A managed session that was opened so and has taken these calls since. -/
def Runs (host : Host) (p : SocketAddr) (mtu : Nat) (opened : Instant) (calls : List ManagedSession.Op)
    (m : ManagedSession F) : Prop :=
  ∃ ops : List ManagedSession.Op, ops.filter isCall = calls ∧
    m = Machine.run (ManagedSession.step host.start) (.withConfig p mtu opened host.serverSessionConfig) ops

namespace Runs

variable {host : Host} {p : SocketAddr} {mtu : Nat} {opened : Instant} {calls : List ManagedSession.Op}
  {m m' : ManagedSession F}

theorem start (host : Host) (p : SocketAddr) (mtu : Nat) (opened : Instant) :
    Runs host p mtu opened [] (.withConfig p mtu opened host.serverSessionConfig : ManagedSession F) :=
  ⟨[], rfl, rfl⟩

theorem call (h : Runs host p mtu opened calls m) {op : ManagedSession.Op} (hop : isCall op = true) :
    Runs host p mtu opened (calls ++ [op]) (m.step host.start op) := by
  obtain ⟨ops, rfl, rfl⟩ := h
  refine ⟨ops ++ [op], ?_, ?_⟩
  · rw [List.filter_append, List.filter_cons, if_pos hop, List.filter_nil]
  · rw [Machine.run_append]
    rfl

theorem build (h : Runs host p mtu opened calls m)
    (hreach : Machine.Reach (ManagedSession.step host.start) IsBuild m m') : Runs host p mtu opened calls m' := by
  obtain ⟨ops, rfl, rfl⟩ := h
  obtain ⟨builds, hbuilds, rfl⟩ := hreach
  refine ⟨ops ++ builds, ?_, (Machine.run_append ..).symm⟩
  have hnone : builds.filter isCall = [] := by
    refine List.filter_eq_nil_iff.2 fun op hop => ?_
    have hbuild := hbuilds op hop
    cases op with
    | buildDatagram now => exact Bool.false_ne_true
    | _ => exact hbuild.elim
  rw [List.filter_append, hnone, List.append_nil]

end Runs

/-! ## One event -/

/-- A session of `p` after the events: one of them opened it, and it has taken the calls of the others since. -/
def Owned (host : Host) (events : List (Event F)) (p : SocketAddr) (m : ManagedSession F) : Prop :=
  ∃ before opener since l mtu opened first, events = before ++ opener :: since ∧ after host before = some l ∧
    Opens host p l opener mtu opened first ∧ Runs host p mtu opened (first ++ since.filterMap (Event.call p)) m

namespace Owned

variable {host : Host} {events : List (Event F)} {e : Event F} {p : SocketAddr} {m m' : ManagedSession F}
  {l : Listener F}

theorem opens (hl : after host events = some l) {mtu : Nat} {opened : Instant} {first : List ManagedSession.Op}
    (hopens : Opens host p l e mtu opened first) (hruns : Runs host p mtu opened first m) :
    Owned host (events ++ [e]) p m :=
  ⟨events, e, [], l, mtu, opened, first, rfl, hl, hopens, by simpa using hruns⟩

theorem quiet (h : Owned host events p m) (hcall : e.call p = none) : Owned host (events ++ [e]) p m := by
  obtain ⟨before, opener, since, l, mtu, opened, first, rfl, hbefore, hopens, hruns⟩ := h
  refine ⟨before, opener, since ++ [e], l, mtu, opened, first, by simp, hbefore, hopens, ?_⟩
  rw [List.filterMap_append, List.filterMap_cons, hcall, List.filterMap_nil, List.append_nil]
  exact hruns

theorem call (h : Owned host events p m) {op : ManagedSession.Op} (hcall : e.call p = some op) (hop : isCall op = true)
    (hreach : Machine.Reach (ManagedSession.step host.start) IsBuild (m.step host.start op) m') :
    Owned host (events ++ [e]) p m' := by
  obtain ⟨before, opener, since, l, mtu, opened, first, rfl, hbefore, hopens, hruns⟩ := h
  refine ⟨before, opener, since ++ [e], l, mtu, opened, first, by simp, hbefore, hopens, ?_⟩
  rw [List.filterMap_append, List.filterMap_cons, hcall, List.filterMap_nil, ← List.append_assoc]
  exact (hruns.call hop).build hreach

end Owned

section Step

variable {host : Host} {events : List (Event F)} {l l' : Listener F} {out : List Output} {p : SocketAddr}

/-- A packet of one peer leaves the sessions of the others alone. -/
theorem dispatchDatagram_other {env : Env} {bytes : Bytes} {peer : SocketAddr}
    (hstep : l.dispatchDatagram host env bytes peer = some (out, l')) (hne : p ≠ peer) :
    l'.sessions.lookup p = l.sessions.lookup p := by
  cases dispatchDatagram_cases hstep with
  | online st st' removed hlookup hhandled hpending hsessions =>
    rw [hsessions]
    split
    · rw [AList.lookup_erase_ne hne, HashMap.lookup_replace_ne hne]
    · rw [HashMap.lookup_replace_ne hne]
  | offline hundecoded hoffline =>
    cases handleOffline_cases hoffline with
    | quiet hsessions hpending hnot => rw [hsessions]
    | issues req mtu hdec hsessions hpending hout => rw [hsessions]
    | accepts mtu hcompletes hsessions hpending => rw [hsessions, AList.lookup_insert_ne hne]
  | garbage st hlookup hundecoded hsessions hpending => rw [hsessions, AList.lookup_erase_ne hne]
  | ignored hlookup hnot hsame => rw [hsame]

theorem dispatch_owned {env : Env} {bytes : Bytes} {peer : SocketAddr} (hl : after host events = some l)
    (hstep : l.dispatchDatagram host env bytes peer = some (out, l'))
    (h : ∀ p state, l.sessions.lookup p = some state → Owned host events p state.managed) :
    ∀ p state, l'.sessions.lookup p = some state →
      Owned host (events ++ [.datagram env bytes peer]) p state.managed := by
  intro p state hp
  by_cases hpeer : p = peer
  · subst hpeer
    cases dispatchDatagram_cases hstep with
    | online st st' removed hlookup hhandled hpending hsessions =>
      obtain ⟨dgram, rest, hdec, hreach⟩ := hhandled.reach
      rw [hsessions] at hp
      split at hp
      · rw [AList.lookup_erase] at hp
        cases hp
      · rw [HashMap.lookup_replace_self (HashMap.mem_of_lookup hlookup)] at hp
        cases hp
        have hcall : (Event.datagram (F := F) env bytes p).call p = some (.handleDatagram dgram env.now) := by
          rw [Event.call, if_pos rfl, hdec]
        exact (h p st hlookup).call hcall rfl hreach
    | offline hundecoded hoffline =>
      -- as long as there is a session, what the offline handler gets is no datagram
      have hcall : ∀ st, l.sessions.lookup p = some st → (Event.datagram (F := F) env bytes p).call p = none := by
        intro st hst
        obtain ⟨e, he⟩ := hundecoded st hst
        rw [Event.call, if_pos rfl, he]
      cases handleOffline_cases hoffline with
      | quiet hsessions hpending hnot =>
        rw [hsessions] at hp
        exact (h p state hp).quiet (hcall state hp)
      | issues req mtu hdec hsessions hpending hout =>
        rw [hsessions] at hp
        exact (h p state hp).quiet (hcall state hp)
      | accepts mtu hcompletes hsessions hpending =>
        rw [hsessions, AList.lookup_insert] at hp
        cases hp
        exact .opens hl (.handshake hcompletes) (.start host p mtu.toNat env.now)
    | garbage st hlookup hundecoded hsessions hpending =>
      rw [hsessions, AList.lookup_erase] at hp
      cases hp
    | ignored hlookup hnot hsame =>
      rw [hsame, hlookup] at hp
      cases hp
  · rw [dispatchDatagram_other hstep hpeer] at hp
    refine (h p state hp).quiet ?_
    rw [Event.call, if_neg (Ne.symm hpeer)]

theorem outgoing_owned {env : Env} {msg : OutboundMsg} (hl : after host events = some l)
    (hstep : l.handleOutgoingMsg host env msg = some (out, l'))
    (h : ∀ p state, l.sessions.lookup p = some state → Owned host events p state.managed) :
    ∀ p state, l'.sessions.lookup p = some state → Owned host (events ++ [.outbound env msg]) p state.managed := by
  intro p state hp
  obtain ⟨st, l₁, managed, hst, hreach, rfl⟩ := handleOutgoingMsg_cases hstep
  obtain ⟨-, hmem, hother, -⟩ := sessionOrInsert_cases hst
  by_cases hpeer : p = msg.peer
  · subst hpeer
    rw [HashMap.lookup_replace_self hmem] at hp
    cases hp
    have hcall : (Event.outbound (F := F) env msg).call msg.peer =
        some (.queueAppPacket msg.packet msg.reliability msg.channel msg.priority env.clock) := by
      rw [Event.call, if_pos rfl]
    unfold sessionOrInsert at hst
    cases hlookup : l.sessions.lookup msg.peer with
    | some old =>
      rw [hlookup] at hst
      cases hst
      exact (h msg.peer st hlookup).call hcall rfl hreach
    | none =>
      -- the message finds no session and opens one
      rw [hlookup] at hst
      cases hst
      exact .opens hl (.message hlookup rfl)
        (((Runs.start host msg.peer host.config.maxMtu.toNat env.now).call rfl).build hreach)
  · rw [HashMap.lookup_replace_ne hpeer, hother p hpeer] at hp
    refine (h p state hp).quiet ?_
    rw [Event.call, if_neg (Ne.symm hpeer)]

theorem tick_owned {env : Env} {iter : IterOrder (HashMap.Item SocketAddr (SessionState F))}
    {splits : SocketAddr → IterOrder SplitEntries.Item} (hstep : l.tickSessions host env iter splits = some (out, l'))
    (h : ∀ p state, l.sessions.lookup p = some state → Owned host events p state.managed) :
    ∀ p state, l'.sessions.lookup p = some state → Owned host (events ++ [.tick env iter splits]) p state.managed := by
  intro p state hp
  obtain ⟨-, -, hnone, hticked⟩ := tickSessions_cases hstep
  cases hlookup : l.sessions.lookup p with
  | none =>
    rw [hnone p hlookup] at hp
    cases hp
  | some st =>
    obtain ⟨managed, hreach, hafter⟩ := hticked p st hlookup
    rw [hp] at hafter
    split at hafter
    · cases hafter
    · cases hafter
      have hcall : (Event.tick env iter splits).call p = some (.onTick env.now (splits p)) := rfl
      exact (h p st hlookup).call hcall rfl hreach

end Step

/-! ## Runs -/

theorem sessions_owned {host : Host} {events : List (Event F)} : ∀ {l : Listener F}, after host events = some l →
    ∀ p state, l.sessions.lookup p = some state → Owned host events p state.managed := by
  induction events using List.reverseRecOn with
  | nil =>
    intro l hl p state hp
    cases hl
    cases hp
  | append_singleton events e ih =>
    intro l' hl'
    obtain ⟨l, out, hbefore, hstep⟩ := after_concat.1 hl'
    cases e with
    | datagram env bytes peer => exact dispatch_owned hbefore hstep (ih hbefore)
    | outbound env msg => exact outgoing_owned hbefore hstep (ih hbefore)
    | tick env iter splits => exact tick_owned hstep (ih hbefore)

/-- A call that a listener can make: a datagram is one that was decoded. -/
def Decoded : ManagedSession.Op → Prop
  | .handleDatagram dgram _ => ∃ bytes rest, Datagram.decode bytes = .ok (dgram, rest)
  | _ => True

omit [Float64 F] in
theorem decoded_of_call {p : SocketAddr} {e : Event F} {op : ManagedSession.Op} (h : e.call p = some op) :
    Decoded op := by
  cases e with
  | datagram env bytes peer =>
    rw [Event.call] at h
    split at h
    · split at h
      · rename_i dgram rest hdec
        cases h
        exact ⟨bytes, rest, hdec⟩
      · cases h
    · cases h
  | outbound env msg =>
    rw [Event.call] at h
    split at h
    · cases h
      trivial
    · cases h
  | tick env iter splits =>
    cases h
    trivial

/-- What every run of a managed session over decoded datagrams has, every session of a listener has. -/
theorem sessions_inv {host : Host} {P : SocketAddr → ManagedSession F → Prop}
    (h : ∀ p mtu opened (ops : List ManagedSession.Op), (∀ op ∈ ops, Decoded op) →
      P p (Machine.run (ManagedSession.step host.start) (.withConfig p mtu opened host.serverSessionConfig) ops))
    {events : List (Event F)} {l : Listener F} (hl : after host events = some l) {p : SocketAddr}
    {state : SessionState F} (hp : l.sessions.lookup p = some state) : P p state.managed := by
  obtain ⟨_, _, since, _, mtu, opened, first, _, _, hopens, ops, hcalls, hrun⟩ := sessions_owned hl p state hp
  have hfirst : ∀ op ∈ first, Decoded op := by
    cases hopens with
    | handshake _ => exact fun op hop => absurd hop List.not_mem_nil
    | message _ _ =>
      intro op hop
      cases List.mem_singleton.1 hop
      trivial
  rw [hrun]
  refine h p mtu opened ops fun op hop => ?_
  by_cases hcall : isCall op = true
  · have hmem : op ∈ first ++ since.filterMap (Event.call p) := hcalls ▸ List.mem_filter.2 ⟨hop, hcall⟩
    rcases List.mem_append.1 hmem with hmem | hmem
    · exact hfirst op hmem
    · obtain ⟨e, -, he⟩ := List.mem_filterMap.1 hmem
      exact decoded_of_call he
  · cases op with
    | buildDatagram now => trivial
    | _ => exact absurd rfl hcall

/-- The session of a peer is a managed session that an event of this peer opened, by completing its handshake or
as a message of the application for it, and that has taken since, besides building datagrams, exactly the calls
of the peer's own events and of the ticks, each once and in order. -/
theorem session_is_run (host : Host) (events : List (Event F)) (l : Listener F) (hl : after host events = some l)
    (p : SocketAddr) (state : SessionState F) (hp : l.sessions.lookup p = some state) :
    ∃ before opener since l₀ mtu opened first ops, events = before ++ opener :: since ∧ after host before = some l₀ ∧
      Opens host p l₀ opener mtu opened first ∧ ops.filter isCall = first ++ since.filterMap (Event.call p) ∧
      state.managed =
      Machine.run (ManagedSession.step host.start) (.withConfig p mtu opened host.serverSessionConfig) ops := by
  obtain ⟨before, opener, since, l₀, mtu, opened, first, hevents, hbefore, hopens, ops, hops, hrun⟩ :=
    sessions_owned hl p state hp
  exact ⟨before, opener, since, l₀, mtu, opened, first, ops, hevents, hbefore, hopens, hops, hrun⟩

/-- A peer connects while the application writes to another one. -/
def crossedConnection : List (Event ℚ) :=
  [.outbound (Env.at 0) ⟨.anyV4, .userData 0xfe [], .reliable, 0, .normal⟩] ++ oneConnection ++
    [.outbound (Env.at 3) ⟨.anyV4, .userData 0xfe [], .reliable, 0, .normal⟩, plainTick 4]

theorem session_is_run_crossed : ∃ l state, after (Host.plain {}) crossedConnection = some l ∧
    l.sessions.lookup .loopbackV4 = some state ∧ SocketAddr.anyV4 ∈ l.sessions ∧
    ∃ before opener since l₀ mtu opened first ops, crossedConnection = before ++ opener :: since ∧
      after (Host.plain {}) before = some l₀ ∧ Opens (Host.plain {}) .loopbackV4 l₀ opener mtu opened first ∧
      ops.filter isCall = first ++ since.filterMap (Event.call .loopbackV4) ∧
      state.managed = Machine.run (ManagedSession.step (Host.plain {}).start)
        (.withConfig .loopbackV4 mtu opened (Host.plain {}).serverSessionConfig) ops := by
  have hrun : ((after (Host.plain {}) crossedConnection).map fun l =>
      ((l.sessions.lookup .loopbackV4).map fun state => state.managed.state, decide (SocketAddr.anyV4 ∈ l.sessions))) =
      some (some .connected, true) := by decide +kernel
  obtain ⟨l, hl, hrun⟩ := Option.map_eq_some_iff.1 hrun
  obtain ⟨hstate, hother⟩ := Prod.mk.inj hrun
  obtain ⟨state, hlookup, -⟩ := Option.map_eq_some_iff.1 hstate
  exact ⟨l, state, hl, hlookup, of_decide_eq_true hother,
    session_is_run (Host.plain {}) crossedConnection l hl .loopbackV4 state hlookup⟩

end BedrockRs.Raknet.Transport.Listener

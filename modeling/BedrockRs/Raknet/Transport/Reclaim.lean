/-
When the listener lets go of a peer that has gone quiet. The activity clock of a session is always a
reading of an event of its own peer, so a peer that was quiet for the session timeout has an idle
session; the tick closes and removes an idle session if it is connected or stale, but one that is still
in its handshake stays, at this tick and at every later one.
-/
import BedrockRs.Raknet.Session.Activity
import BedrockRs.Raknet.Transport.Admission

namespace BedrockRs.Raknet.Transport.Listener

open Lib

variable {F : Type} [Float64 F]

/-- A session has the configuration of the host, and was last active at an event of its peer. -/
structure Kept (host : Host) (events : List (Event F)) (p : SocketAddr) (m : ManagedSession F) : Prop where
  config : m.config = host.serverSessionConfig
  activity : ∃ e ∈ events, e.concerns p ∧ m.lastActivity ∈ e.readings

namespace Kept

variable {host : Host} {events : List (Event F)} {p : SocketAddr} {m m' : ManagedSession F}

omit [Float64 F] in
theorem concat (h : Kept host events p m) (e : Event F) : Kept host (events ++ [e]) p m := by
  obtain ⟨e', he', hconcerns, hreading⟩ := h.activity
  exact ⟨h.config, e', List.mem_append_left _ he', hconcerns, hreading⟩

omit [Float64 F] in
/-- A session that `e` was the last activity of. -/
theorem last {e : Event F} (hconfig : m.config = host.serverSessionConfig) (hconcerns : e.concerns p)
    (hreading : m.lastActivity ∈ e.readings) : Kept host (events ++ [e]) p m :=
  ⟨hconfig, e, List.mem_append_right _ (List.mem_singleton_self e), hconcerns, hreading⟩

theorem build (h : Kept host events p m) (hreach : Machine.Reach (ManagedSession.step host.start) IsBuild m m') :
    Kept host events p m' := by
  obtain ⟨-, hconfig, hactivity, -⟩ := reach_build_same hreach
  exact ⟨hconfig.trans h.config, by rw [hactivity]; exact h.activity⟩

omit [Float64 F] in
/-- A call of the event `e` on a session leaves its activity clock alone or sets it to a reading of `e`. -/
theorem call (h : Kept host events p m) {e : Event F} (hconcerns : e.concerns p) (hconfig : m'.config = m.config)
    (hactivity : m'.lastActivity = m.lastActivity ∨ m'.lastActivity ∈ e.readings) : Kept host (events ++ [e]) p m' := by
  rcases hactivity with hactivity | hactivity
  · obtain ⟨e', he', hconcerns', hreading⟩ := h.activity
    exact ⟨hconfig.trans h.config, e', List.mem_append_left _ he', hconcerns', by rwa [hactivity]⟩
  · exact .last (hconfig.trans h.config) hconcerns hactivity

end Kept

section Step

variable {host : Host} {events : List (Event F)} {l l' : Listener F} {out : List Output}

theorem dispatch_kept {env : Env} {bytes : Bytes} {peer : SocketAddr}
    (hstep : l.dispatchDatagram host env bytes peer = some (out, l'))
    (h : ∀ p state, l.sessions.lookup p = some state → Kept host events p state.managed) :
    ∀ p state, l'.sessions.lookup p = some state →
      Kept host (events ++ [.datagram env bytes peer]) p state.managed := by
  intro p state hp
  cases dispatchDatagram_cases hstep with
  | online st st' removed hlookup hhandled hpending hsessions =>
    -- the activity of a session is the datagram's own time, or what it was
    have hnew : Kept host (events ++ [.datagram env bytes peer]) peer st'.managed := by
      obtain ⟨dgram, rest, -, hreach⟩ := hhandled.reach
      refine Kept.build ((h peer st hlookup).call rfl (st.managed.handleDatagram_state host.start dgram env.now).2 ?_)
        hreach
      exact (st.managed.handleDatagram_activity host.start dgram env.now).imp_right List.mem_singleton.2
    rw [hsessions] at hp
    by_cases hpeer : p = peer
    · subst hpeer
      split at hp
      · rw [AList.lookup_erase] at hp; cases hp
      · rw [HashMap.lookup_replace_self (HashMap.mem_of_lookup hlookup)] at hp
        cases hp
        exact hnew
    · have hsame : l.sessions.lookup p = some state := by
        split at hp
        · rwa [AList.lookup_erase_ne hpeer, HashMap.lookup_replace_ne hpeer] at hp
        · rwa [HashMap.lookup_replace_ne hpeer] at hp
      exact (h p state hsame).concat _
  | offline hundecoded hoffline =>
    cases handleOffline_cases hoffline with
    | quiet hsessions hpending hnot =>
      rw [hsessions] at hp
      exact (h p state hp).concat _
    | issues req mtu hdec hsessions hpending hout =>
      rw [hsessions] at hp
      exact (h p state hp).concat _
    | accepts mtu hcompletes hsessions hpending =>
      rw [hsessions] at hp
      by_cases hpeer : p = peer
      · subst hpeer
        rw [AList.lookup_insert] at hp
        cases hp
        -- a fresh session was active last with the request that completed its handshake
        exact .last rfl rfl (List.mem_singleton_self _)
      · rw [AList.lookup_insert_ne hpeer] at hp
        exact (h p state hp).concat _
  | garbage st hlookup hundecoded hsessions hpending =>
    rw [hsessions] at hp
    by_cases hpeer : p = peer
    · subst hpeer
      rw [AList.lookup_erase] at hp; cases hp
    · rw [AList.lookup_erase_ne hpeer] at hp
      exact (h p state hp).concat _
  | ignored hlookup hnot hsame =>
    rw [hsame] at hp
    exact (h p state hp).concat _

theorem outgoing_kept {env : Env} {msg : OutboundMsg} (hstep : l.handleOutgoingMsg host env msg = some (out, l'))
    (h : ∀ p state, l.sessions.lookup p = some state → Kept host events p state.managed) :
    ∀ p state, l'.sessions.lookup p = some state → Kept host (events ++ [.outbound env msg]) p state.managed := by
  intro p state hp
  obtain ⟨st, l₁, managed, hst, hreach, rfl⟩ := handleOutgoingMsg_cases hstep
  obtain ⟨-, hmem, hother, hold⟩ := sessionOrInsert_cases hst
  by_cases hpeer : p = msg.peer
  · subst hpeer
    rw [HashMap.lookup_replace_self hmem] at hp
    cases hp
    refine Kept.build ?_ hreach
    have hconfig := (st.managed.queueAppPacket_state msg.packet msg.reliability msg.channel msg.priority env.clock).2
    have hactivity := st.managed.queueAppPacket_activity msg.packet msg.reliability msg.channel msg.priority env.clock
    rcases hold with hlookup | rfl
    · refine (h msg.peer st hlookup).call rfl hconfig (hactivity.imp_right fun ha => ?_)
      rw [ha]
      exact List.mem_cons_of_mem _ (List.mem_singleton_self _)
    · refine .last hconfig rfl ?_
      rcases hactivity with ha | ha
      · rw [ha]
        exact List.mem_cons_self ..
      · rw [ha]
        exact List.mem_cons_of_mem _ (List.mem_singleton_self _)
  · rw [HashMap.lookup_replace_ne hpeer, hother p hpeer] at hp
    exact (h p state hp).concat _

theorem tick_kept {env : Env} {iter : IterOrder (HashMap.Item SocketAddr (SessionState F))}
    {splits : SocketAddr → IterOrder SplitEntries.Item} (hstep : l.tickSessions host env iter splits = some (out, l'))
    (h : ∀ p state, l.sessions.lookup p = some state → Kept host events p state.managed) :
    ∀ p state, l'.sessions.lookup p = some state → Kept host (events ++ [.tick env iter splits]) p state.managed := by
  intro p state hp
  obtain ⟨-, -, hnone, hticked⟩ := tickSessions_cases hstep
  cases hlookup : l.sessions.lookup p with
  | none => rw [hnone p hlookup] at hp; cases hp
  | some st =>
    obtain ⟨managed, hreach, hafter⟩ := hticked p st hlookup
    rw [hp] at hafter
    split at hafter
    · cases hafter
    · cases hafter
      have hold := h p st hlookup
      refine Kept.build (Kept.concat ⟨?_, ?_⟩ _) hreach
      · rw [(st.managed.onTick_state host.start env.now (splits p)).2,
          (st.managed.beforeTick_state host.start env.now).1]
        exact hold.config
      · rw [st.managed.onTick_activity]
        exact hold.activity

end Step

/-- In every run, every session is kept in this sense. -/
theorem sessions_kept {host : Host} : ∀ {events : List (Event F)} {l : Listener F}, after host events = some l →
    ∀ p state, l.sessions.lookup p = some state → Kept host events p state.managed := by
  intro events
  induction events using List.reverseRecOn with
  | nil =>
    intro l hl p state hp
    cases hl
    cases hp
  | append_singleton events e ih =>
    intro l' hl'
    obtain ⟨l, out, hbefore, hstep⟩ := after_concat.1 hl'
    cases e with
    | datagram env bytes peer => exact dispatch_kept hstep (ih hbefore)
    | outbound env msg => exact outgoing_kept hstep (ih hbefore)
    | tick env iter splits => exact tick_kept hstep (ih hbefore)

/-! ## Quiet peers -/

/-- All that was handled for `p` was handled at least the session timeout before `now`. -/
def QuietFor (host : Host) (events : List (Event F)) (p : SocketAddr) (now : Instant) : Prop :=
  ∀ e ∈ events, e.concerns p → ∀ t ∈ e.readings, t + host.config.sessionTimeout ≤ now

/-- A tick that closes an idle session in this state: it is connected or stale, closed already, or over its
queue limit. -/
def Reclaimable (host : Host) (m : ManagedSession F) : Prop :=
  m.state = .connected ∨ m.state = .stale ∨ m.state = .closed ∨
    host.config.maxQueuedReliableBytes < m.queuedReliableBytes

/-- A tick after a quiet session timeout removes the peer exactly when its session, if it has one, is
reclaimable. -/
theorem reclaimed_iff (host : Host) (events : List (Event F)) (env : Env)
    (iter : IterOrder (HashMap.Item SocketAddr (SessionState F))) (splits : SocketAddr → IterOrder SplitEntries.Item)
    (l : Listener F) (hl : after host events = some l) (out : List Output) (l' : Listener F)
    (hstep : l.step host (.tick env iter splits) = some (out, l')) (p : SocketAddr)
    (hquiet : QuietFor host events p env.now) :
    p ∉ l'.sessions ↔ ∀ state, l.sessions.lookup p = some state → Reclaimable host state.managed := by
  obtain ⟨-, -, hnone, hticked⟩ := tickSessions_cases hstep
  rw [← AList.lookup_eq_none]
  cases hlookup : l.sessions.lookup p with
  | none =>
    rw [hnone p hlookup]
    exact iff_of_true rfl fun state hs => by cases hs
  | some state =>
    obtain ⟨hconfig, e, he, hconcerns, hreading⟩ := sessions_kept hl p state hlookup
    -- the session was active last at an event of this peer, and the peer has been quiet since
    have hidle : state.managed.lastActivity + state.managed.config.sessionTimeout ≤ env.now := by
      rw [hconfig]
      exact hquiet e he hconcerns _ hreading
    have hclosed := ManagedSession.beforeTick_closed_iff host.start hidle
    obtain ⟨managed, hreach, hafter⟩ := hticked p state hlookup
    have hstate : managed.state = (state.managed.beforeTick host.start env.now).state :=
      (reach_build_same hreach).1.trans (state.managed.onTick_state host.start env.now (splits p)).1
    have hremoved : l'.sessions.lookup p = none ↔ managed.state = .closed := by
      rw [hafter]
      split
      · rename_i hc
        exact iff_of_true rfl hc
      · rename_i hc
        exact iff_of_false (Option.some_ne_none _) hc
    rw [hremoved, hstate, hclosed]
    have hlimit : (∃ limit, state.managed.config.maxQueuedReliableBytes = some limit ∧
        limit < state.managed.queuedReliableBytes) ↔
        host.config.maxQueuedReliableBytes < state.managed.queuedReliableBytes := by
      rw [hconfig]
      exact ⟨fun ⟨_, hsome, hlt⟩ => by cases hsome; exact hlt, fun hlt => ⟨_, rfl, hlt⟩⟩
    rw [hlimit]
    exact ⟨fun h state' hs => by cases hs; exact h, fun h => h state rfl⟩

/-- A handshake, and nothing after it. -/
def oneHandshake : List (Event ℚ) :=
  [.datagram (Env.at 0) request1Bytes .loopbackV4, .datagram (Env.at 1) request2Bytes .loopbackV4]

/-- A handshake, and the datagram that connects the session. -/
def oneConnection : List (Event ℚ) :=
  oneHandshake ++ [.datagram (Env.at 2) (ManagedSession.connecting.encode.toOption.getD []) .loopbackV4]

/-- A tick in the order of the maps. -/
def plainTick (now : Instant) : Event ℚ := .tick (Env.at now) (IterOrder.stored _) fun _ => IterOrder.stored _

theorem reclaimed_iff_connected : ∃ l out l', after (Host.plain {}) oneConnection = some l ∧
    l.step (Host.plain {}) (plainTick (Duration.fromSecs 20)) = some (out, l') ∧ SocketAddr.loopbackV4 ∈ l.sessions ∧
    SocketAddr.loopbackV4 ∉ l'.sessions := by
  have hrun : ((after (Host.plain {}) oneConnection).bind fun l =>
      (l.step (Host.plain {}) (plainTick (Duration.fromSecs 20))).map fun _ =>
        ((l.sessions.lookup .loopbackV4).map fun state => state.managed.state)) =
        some (some .connected) := by decide +kernel
  obtain ⟨l, hl, hrun⟩ := Option.bind_eq_some_iff.1 hrun
  obtain ⟨⟨out, l'⟩, hstep, hstate⟩ := Option.map_eq_some_iff.1 hrun
  obtain ⟨state, hlookup, hconnected⟩ := Option.map_eq_some_iff.1 hstate
  refine ⟨l, out, l', hl, hstep, HashMap.mem_of_lookup hlookup, ?_⟩
  refine (reclaimed_iff (Host.plain {}) oneConnection (Env.at (Duration.fromSecs 20)) (IterOrder.stored _)
    (fun _ => IterOrder.stored _) l hl out l' hstep .loopbackV4 ?_).2 fun state' hs => ?_
  · intro e he _ t ht
    fin_cases he <;> cases List.mem_singleton.1 ht <;> decide
  · rw [hlookup] at hs
    cases hs
    exact .inl hconnected

/-- A peer that completes the offline handshake and then says nothing keeps its session. -/
theorem not_reclaimed_unconnected : ¬ ∀ (host : Host) (events : List (Event ℚ)) (env : Env)
    (iter : IterOrder (HashMap.Item SocketAddr (SessionState ℚ))) (splits : SocketAddr → IterOrder SplitEntries.Item)
    (l : Listener ℚ) (out : List Output) (l' : Listener ℚ) (p : SocketAddr), after host events = some l →
    l.step host (.tick env iter splits) = some (out, l') → QuietFor host events p env.now → p ∉ l'.sessions := by
  intro h
  have hrun : ((after (Host.plain {}) oneHandshake).bind fun l =>
      (l.step (Host.plain {}) (plainTick (Duration.fromSecs 20))).map fun r =>
        decide (SocketAddr.loopbackV4 ∈ r.2.sessions)) = some true := by decide +kernel
  obtain ⟨l, hl, hrun⟩ := Option.bind_eq_some_iff.1 hrun
  obtain ⟨⟨out, l'⟩, hstep, hmem⟩ := Option.map_eq_some_iff.1 hrun
  refine h (Host.plain {}) oneHandshake _ _ _ l out l' .loopbackV4 hl hstep ?_ (of_decide_eq_true hmem)
  intro e he _ t ht
  fin_cases he <;> cases List.mem_singleton.1 ht <;> decide

end BedrockRs.Raknet.Transport.Listener

/-
How peers get into the session map. A step inserts at most one session, and there are two ways: a
second request that completes a pending handshake, and an outbound message for a peer without a
session. The connection limit is checked by neither, only by the first request, which takes no slot; so
the limit holds in the runs where no session is inserted between the two requests of a handshake
that completes, and no outbound message inserts one. A pending handshake was left by a first request
less than ten seconds ago and holds the cookie of its reply, so a session that is not inserted by an
outbound message follows a cookie exchange.
-/
import BedrockRs.Raknet.Transport.ListenerSpec

namespace BedrockRs.Raknet.Transport.Listener

open Lib

variable {F : Type} [Float64 F]

/-! ## Steps of a run -/

theorem after_concat {host : Host} {events : List (Event F)} {e : Event F} {l' : Listener F} :
    after host (events ++ [e]) = some l' ↔ ∃ l out, after host events = some l ∧ l.step host e = some (out, l') := by
  unfold after
  rw [Machine.run_append, Machine.run_cons, Machine.run_nil, Machine.advance, Option.bind_eq_some_iff]
  simp only [Option.map_eq_some_iff, Prod.exists, exists_eq_right, exists_and_left]

/-- In the run of these events, `e` is handled after `past` and takes the listener from `l` to `l'`. -/
structure TakesStep (host : Host) (events past : List (Event F)) (e : Event F) (l : Listener F) (out : List Output)
    (l' : Listener F) : Prop where
  starts : past ++ [e] <+: events
  before : after host past = some l
  step : l.step host e = some (out, l')

/-! ## What a step inserts, and what it leaves pending -/

/-- The event inserts a session for its peer. -/
def Inserts (l : Listener F) : Event F → Prop
  | .datagram env bytes peer => peer ∉ l.sessions ∧ ∃ mtu, l.Completes env bytes peer mtu
  | .outbound _ msg => msg.peer ∉ l.sessions
  | .tick .. => False

/-- A step inserts the peer it concerns, or only takes peers away. -/
theorem step_sessions {host : Host} {l l' : Listener F} {e : Event F} {out : List Output}
    (h : l.step host e = some (out, l')) :
    l.Inserts e ∧ l'.sessions.len = l.sessions.len + 1 ∧ (∀ p, p ∈ l'.sessions → p ∈ l.sessions ∨ e.concerns p) ∨
      ¬ l.Inserts e ∧ l'.sessions.len ≤ l.sessions.len ∧ ∀ p, p ∈ l'.sessions → p ∈ l.sessions := by
  cases e with
  | datagram env bytes peer =>
    cases dispatchDatagram_cases h with
    | online state state' removed hlookup hhandled hpending hsessions =>
      have hmem := HashMap.mem_of_lookup hlookup
      refine .inr ⟨fun hins => hins.1 hmem, ?_, fun p hp => ?_⟩
      · rw [hsessions]
        split
        · exact (HashMap.len_erase_le _ _).trans (HashMap.len_replace _ _ _).le
        · exact (HashMap.len_replace _ _ _).le
      · rw [hsessions] at hp
        split at hp
        · exact AList.mem_replace.1 (AList.mem_erase.1 hp).2
        · exact AList.mem_replace.1 hp
    | offline hundecoded hstep =>
      cases handleOffline_cases hstep with
      | quiet hsessions hpending hnot =>
        refine .inr ⟨fun ⟨_, mtu, hc⟩ => hnot mtu hc, by rw [hsessions], fun p hp => by rwa [hsessions] at hp⟩
      | issues req mtu hdec hsessions hpending hout =>
        refine .inr ⟨?_, by rw [hsessions], fun p hp => by rwa [hsessions] at hp⟩
        rintro ⟨-, mtu', req', pc, hdec', -⟩
        rw [hdec] at hdec'; cases hdec'
      | accepts mtu hcompletes hsessions hpending =>
        -- a completed handshake puts a fresh session in the place of one that is there
        by_cases hmem : peer ∈ l.sessions
        · refine .inr ⟨fun hins => hins.1 hmem, ?_, fun p hp => ?_⟩
          · rw [hsessions, HashMap.len_insert_of_mem hmem]
          · rw [hsessions, AList.mem_insert] at hp
            exact hp.elim (fun he => he ▸ hmem) id
        · refine .inl ⟨⟨hmem, mtu, hcompletes⟩, ?_, fun p hp => ?_⟩
          · rw [hsessions, HashMap.len_insert_of_notMem hmem]
          · rw [hsessions, AList.mem_insert] at hp
            exact hp.elim (fun he => .inr he.symm) .inl
    | garbage state hlookup hundecoded hsessions hpending =>
      refine .inr ⟨fun hins => hins.1 (HashMap.mem_of_lookup hlookup), ?_, fun p hp => ?_⟩
      · rw [hsessions]
        exact HashMap.len_erase_le _ _
      · rw [hsessions] at hp
        exact (AList.mem_erase.1 hp).2
    | ignored hlookup hnot hsame =>
      subst hsame
      exact .inr ⟨fun ⟨_, mtu, hc⟩ => hnot mtu hc, Nat.le_refl _, fun _ => id⟩
  | outbound env msg =>
    -- a message to a peer without a session opens one
    obtain ⟨state, l₁, managed, hstate, -, rfl⟩ := handleOutgoingMsg_cases h
    unfold sessionOrInsert at hstate
    cases hlookup : l.sessions.lookup msg.peer with
    | some st =>
      rw [hlookup] at hstate
      cases hstate
      refine .inr ⟨fun hins => hins (HashMap.mem_of_lookup hlookup), ?_, fun p hp => AList.mem_replace.1 hp⟩
      exact (HashMap.len_replace _ _ _).le
    | none =>
      rw [hlookup] at hstate
      cases hstate
      have hmem := AList.lookup_eq_none.1 hlookup
      refine .inl ⟨hmem, ?_, fun p hp => ?_⟩
      · exact (HashMap.len_replace _ _ _).trans (HashMap.len_insert_of_notMem hmem _)
      · exact (AList.mem_insert _).1 (AList.mem_replace.1 hp) |>.elim (fun he => .inr he.symm) .inl
  | tick env iter splits =>
    obtain ⟨-, hlen, hnone, -⟩ := tickSessions_cases h
    refine .inr ⟨id, hlen, fun p hp => ?_⟩
    by_contra hmem
    exact AList.lookup_eq_none.1 (hnone p (AList.lookup_eq_none.2 hmem)) hp

/-- A handshake that is pending after a step was pending before it, or the step was a first request of its
peer, which found the limit not reached. -/
theorem step_pending {host : Host} {l l' : Listener F} {e : Event F} {out : List Output}
    (h : l.step host e = some (out, l')) {p : SocketAddr} {pc : PendingConnection}
    (hpc : l'.pending.lookup p = some pc) :
    l.pending.lookup p = some pc ∨ ∃ env bytes req mtu, e = .datagram env bytes p ∧
      RaknetPacket.decodeFrom bytes = .ok (.openConnectionRequest1 req) ∧ pc = issued host env p mtu ∧
      out = reply1 host p pc.cookie mtu ∧ l.sessions.len < host.config.maxConnections := by
  cases e with
  | datagram env bytes peer =>
    cases dispatchDatagram_cases h with
    | online state state' removed hlookup hhandled hpending hsessions => exact .inl (by rwa [hpending] at hpc)
    | offline hundecoded hstep =>
      cases handleOffline_cases hstep with
      | quiet hsessions hpending hnot => exact .inl (hpending p pc hpc)
      | issues req mtu hdec hsessions hpending hout hroom =>
        rw [hpending] at hpc
        -- the request's own entry is replaced; the others may have expired, but none is new
        by_cases hp : p = peer
        · subst hp
          rw [AList.lookup_insert] at hpc
          cases hpc
          exact .inr ⟨env, bytes, req, mtu, rfl, hdec, rfl, hout, hroom⟩
        · rw [AList.lookup_insert_ne hp] at hpc
          exact .inl (lookup_expirePending.1 hpc).1
      | accepts mtu hcompletes hsessions hpending =>
        rw [hpending] at hpc
        by_cases hp : p = peer
        · subst hp
          rw [AList.lookup_erase] at hpc; cases hpc
        · rw [AList.lookup_erase_ne hp] at hpc
          exact .inl (lookup_expirePending.1 hpc).1
    | garbage state hlookup hundecoded hsessions hpending => exact .inl (hpending p pc hpc)
    | ignored hlookup hnot hsame => exact .inl (by rwa [hsame] at hpc)
  | outbound env msg =>
    obtain ⟨state, l₁, managed, hstate, -, rfl⟩ := handleOutgoingMsg_cases h
    obtain ⟨hpending, -⟩ := sessionOrInsert_cases hstate
    dsimp only at hpc
    exact .inl (by rwa [hpending] at hpc)
  | tick env iter splits =>
    obtain ⟨hpending, -⟩ := tickSessions_cases h
    exact .inl (by rwa [hpending] at hpc)

/-! ## The connection limit -/

/-- In the run of `past`, the handshake of `p` was left pending by one step, and neither that step nor a later one
inserted a session. -/
def Undisturbed (host : Host) (past : List (Event F)) (p : SocketAddr) : Prop :=
  ∃ before e l out l' pc, TakesStep host past before e l out l' ∧ l.pending.lookup p ≠ some pc ∧
    l'.pending.lookup p = some pc ∧ ∀ since e' m out' m', TakesStep host past since e' m out' m' →
      before.length ≤ since.length → ¬ m.Inserts e'

/-- The event comes when the limit has seen to it: a second request that inserts a session completes a handshake
with no insertion since its first request, and an outbound message is for a peer with a session. -/
def InTurn (host : Host) (past : List (Event F)) (l : Listener F) : Event F → Prop
  | .datagram env bytes peer => l.Inserts (.datagram env bytes peer) → Undisturbed host past peer
  | .outbound _ msg => msg.peer ∈ l.sessions
  | .tick .. => True

/-- Without an insertion the number of sessions does not grow. -/
theorem len_le_of_not_inserts {host : Host} {before : List (Event F)} {l : Listener F} (hl : after host before = some l)
    {since : List (Event F)} : ∀ {l' : Listener F}, after host (before ++ since) = some l' →
    (∀ past e m out m', TakesStep host (before ++ since) past e m out m' → before.length ≤ past.length →
      ¬ m.Inserts e) →
    l'.sessions.len ≤ l.sessions.len := by
  induction since using List.reverseRecOn with
  | nil =>
    intro l' hl' _
    rw [List.append_nil, hl] at hl'
    cases hl'
    exact Nat.le_refl _
  | append_singleton since e ih =>
    intro l' hl' hnone
    rw [← List.append_assoc] at hl' hnone
    obtain ⟨m, out, hm, hstep⟩ := after_concat.1 hl'
    have hle := ih hm fun past e' m' out' m'' ht hlen =>
      hnone past e' m' out' m'' ⟨ht.starts.trans (List.prefix_append _ _), ht.before, ht.step⟩ hlen
    obtain ⟨hins, -⟩ | ⟨-, hlen, -⟩ := step_sessions hstep
    · exact absurd hins (hnone _ e m out l' ⟨List.prefix_refl _, hm, hstep⟩ (by simp))
    · exact hlen.trans hle

/-- The room that the first request of an undisturbed handshake found is still there. -/
theorem Undisturbed.len_lt {host : Host} {past : List (Event F)} {l : Listener F} (hl : after host past = some l)
    {p : SocketAddr} (h : Undisturbed host past p) : l.sessions.len < host.config.maxConnections := by
  obtain ⟨before, e, l₁, out, l₂, pc, ⟨hpre, hbefore, hstep⟩, hne, hpc, hnone⟩ := h
  obtain hold | ⟨env, bytes, req, mtu, -, -, -, -, hroom⟩ := step_pending hstep hpc
  · exact absurd hold hne
  · obtain ⟨since, rfl⟩ := hpre
    rw [List.append_assoc] at hl hnone
    exact (len_le_of_not_inserts hbefore hl hnone).trans_lt hroom

/-- The limit holds throughout a run in which every event comes in turn. -/
theorem sessions_le_maxConnections (host : Host) (events : List (Event F))
    (h : ∀ past e l out l', TakesStep host events past e l out l' → InTurn host past l e) :
    ∀ past l, past <+: events → after host past = some l → l.sessions.len ≤ host.config.maxConnections := by
  intro past
  induction past using List.reverseRecOn with
  | nil =>
    intro l _ hl
    cases hl
    exact Nat.zero_le _
  | append_singleton past e ih =>
    intro l' hpre hl'
    obtain ⟨l, out, hbefore, hstep⟩ := after_concat.1 hl'
    have hturn := h past e l out l' ⟨hpre, hbefore, hstep⟩
    obtain ⟨hins, hlen, -⟩ | ⟨-, hlen, -⟩ := step_sessions hstep
    · cases e with
      | datagram env bytes peer => exact hlen.trans_le (Undisturbed.len_lt hbefore (hturn hins))
      | outbound env msg => exact absurd hturn hins
      | tick env iter splits => exact hins.elim
    · exact hlen.trans (ih l ((List.prefix_append past [e]).trans hpre) hbefore)

/-- The first request of a handshake, and the second one with the cookie that `Host.plain` issues. -/
def request1Bytes : Bytes := 0x05 :: OpenConnectionRequest1.encode ⟨defaultUnconnectedMagic, 11, 1000⟩
def request2Bytes : Bytes :=
  0x07 :: OpenConnectionRequest2.encode ⟨defaultUnconnectedMagic, some 7, false, .anyV4, 1000, 0⟩

/-- One peer completes its handshake and takes the only session; the first request of the other is refused. -/
def secondRefused : List (Event ℚ) :=
  [.datagram (Env.at 0) request1Bytes .loopbackV4, .datagram (Env.at 1) request2Bytes .loopbackV4,
    .datagram (Env.at 2) request1Bytes .loopbackV6, .datagram (Env.at 3) request2Bytes .loopbackV6]

theorem sessions_le_maxConnections_secondRefused :
    (after (Host.plain { maxConnections := 1 }) secondRefused).map (fun l => l.sessions.len) = some 1 ∧
      ∀ past l, past <+: secondRefused → after (Host.plain { maxConnections := 1 }) past = some l →
      l.sessions.len ≤ 1 := by
  have hlens :
    ∀ k < 5, (after (Host.plain { maxConnections := 1 }) (secondRefused.take k)).map (fun l => l.sessions.len) =
      some (if k < 2 then 0 else 1) := by decide +kernel
  have hlen : ∀ past l, past <+: secondRefused → after (Host.plain { maxConnections := 1 }) past = some l →
      l.sessions.len = if past.length < 2 then 0 else 1 := by
    intro past l hpre hl
    have hk := hlens past.length (Nat.lt_succ_of_le hpre.length_le)
    rw [← List.prefix_iff_eq_take.1 hpre, hl] at hk
    exact Option.some.inj hk
  -- only the second step inserts
  have hsecond : ∀ past e l out l', TakesStep (Host.plain { maxConnections := 1 }) secondRefused past e l out l' →
    l.Inserts e →
      past = [.datagram (Env.at 0) request1Bytes .loopbackV4] ∧ e = .datagram (Env.at 1) request2Bytes .loopbackV4 := by
    intro past e l out l' ⟨hpre, hbefore, hstep⟩ hins
    have hl := hlen past l ((List.prefix_append past [e]).trans hpre) hbefore
    have hl' := hlen _ l' hpre (after_concat.2 ⟨l, out, hbefore, hstep⟩)
    obtain ⟨-, hgrew, -⟩ | ⟨hnot, -⟩ := step_sessions hstep
    · have hone : past.length = 1 := by
        rw [hl, hl', List.length_append, List.length_singleton] at hgrew
        split at hgrew <;> split at hgrew <;> omega
      obtain ⟨first, rfl⟩ := List.length_eq_one_iff.1 hone
      obtain ⟨rest, hrest⟩ := hpre
      simp only [secondRefused, List.cons_append, List.nil_append, List.cons.injEq] at hrest
      exact ⟨congrArg ([·]) hrest.1, hrest.2.1⟩
    · exact absurd hins hnot
  refine ⟨hlens 4 (by decide), sessions_le_maxConnections (Host.plain { maxConnections := 1 }) secondRefused ?_⟩
  intro past e l out l' ht
  cases e with
  | datagram env bytes peer =>
    intro hins
    obtain ⟨rfl, he⟩ := hsecond past _ l out l' ht hins
    cases he
    have hpending : ((new : Listener ℚ).step (Host.plain { maxConnections := 1 })
        (.datagram (Env.at 0) request1Bytes .loopbackV4)).map (fun r => (r.2.pending.lookup .loopbackV4).isSome) =
        some true := by
      decide +kernel
    obtain ⟨⟨out₁, l₁⟩, hstep, hsome⟩ := Option.map_eq_some_iff.1 hpending
    obtain ⟨pc, hpc⟩ := Option.isSome_iff_exists.1 hsome
    refine ⟨[], _, new, out₁, l₁, pc, ⟨List.prefix_refl _, rfl, hstep⟩, fun h => (nomatch h), hpc, ?_⟩
    intro since e' m out' m' ht' _ hins'
    obtain ⟨rfl, -⟩ := hsecond since e' m out' m'
      ⟨ht'.starts.trans (List.prefix_append _ _), ht'.before, ht'.step⟩ hins'
    exact absurd ht'.starts.length_le (Nat.not_succ_le_self 1)
  | outbound env msg =>
    exact absurd (ht.starts.subset (List.mem_append_right _ (List.mem_singleton_self _))) (by simp [secondRefused])
  | tick env iter splits => trivial

/-- Two peers start a handshake while there is room for one session, and then both complete it. -/
def twoHandshakes : List (Event ℚ) :=
  [.datagram (Env.at 0) request1Bytes .loopbackV4, .datagram (Env.at 1) request1Bytes .loopbackV6,
    .datagram (Env.at 2) request2Bytes .loopbackV4, .datagram (Env.at 3) request2Bytes .loopbackV6]

theorem sessions_exceed_maxConnections :
    ¬ ∀ (host : Host) (events : List (Event ℚ)) (past : List (Event ℚ)) (l : Listener ℚ), past <+: events →
      after host past = some l → l.sessions.len ≤ host.config.maxConnections := by
  intro h
  have hlen : (after (Host.plain { maxConnections := 1 }) twoHandshakes).map (fun l => l.sessions.len) = some 2 := by
    decide +kernel
  obtain ⟨l, hl, htwo⟩ := Option.map_eq_some_iff.1 hlen
  have hle := h _ twoHandshakes twoHandshakes l (List.prefix_refl _) hl
  rw [htwo] at hle
  revert hle
  decide

/-! ## The cookie exchange -/

/-- Among these events a first request of `p` was handled at time `t`, and answered with this cookie. -/
def IssuedAt (host : Host) (events : List (Event F)) (p : SocketAddr) (cookie : UInt32) (t : Instant) : Prop :=
  ∃ past env bytes req l out l' mtu, TakesStep host events past (.datagram env bytes p) l out l' ∧
    RaknetPacket.decodeFrom bytes = .ok (.openConnectionRequest1 req) ∧ out = reply1 host p cookie mtu ∧ env.now = t

theorem IssuedAt.concat {host : Host} {events : List (Event F)} {p : SocketAddr} {cookie : UInt32} {t : Instant}
    (h : IssuedAt host events p cookie t) (e : Event F) : IssuedAt host (events ++ [e]) p cookie t := by
  obtain ⟨past, env, bytes, req, l, out, l', mtu, ⟨hpre, hbefore, hstep⟩, hrest⟩ := h
  exact ⟨past, env, bytes, req, l, out, l', mtu, ⟨hpre.trans (List.prefix_append _ _), hbefore, hstep⟩, hrest⟩

/-- Every pending handshake was left by a first request of its peer, ten seconds before it expires. -/
theorem pending_issuedAt {host : Host} : ∀ {events : List (Event F)} {l : Listener F}, after host events = some l →
    ∀ {p : SocketAddr} {pc : PendingConnection}, l.pending.lookup p = some pc →
    ∃ t, pc.expiresAt = t + Duration.fromSecs 10 ∧ IssuedAt host events p pc.cookie t := by
  intro events
  induction events using List.reverseRecOn with
  | nil =>
    intro l hl p pc hpc
    cases hl
    cases hpc
  | append_singleton events e ih =>
    intro l' hl' p pc hpc
    obtain ⟨l, out, hbefore, hstep⟩ := after_concat.1 hl'
    obtain hold | ⟨env, bytes, req, mtu, rfl, hdec, rfl, hout, -⟩ := step_pending hstep hpc
    · obtain ⟨t, ht, hissued⟩ := ih hbefore hold
      exact ⟨t, ht, hissued.concat e⟩
    · exact ⟨env.now, rfl, events, env, bytes, req, l, out, l', mtu, ⟨List.prefix_refl _, hbefore, hstep⟩, hdec,
        hout, rfl⟩

/-- The event is a second request of `p` that brings back a cookie issued to `p` at most ten seconds before. -/
def ByCookie (host : Host) (past : List (Event F)) (e : Event F) (p : SocketAddr) : Prop :=
  ∃ env bytes req cookie t, e = .datagram env bytes p ∧
    RaknetPacket.decodeFrom bytes = .ok (.openConnectionRequest2 req) ∧ req.cookie = some cookie ∧
    IssuedAt host past p cookie t ∧ Instant.durationSince env.now t ≤ Duration.fromSecs 10

theorem byCookie_of_completes {host : Host} {past : List (Event F)} {l : Listener F} (hl : after host past = some l)
    {env : Env} {bytes : Bytes} {p : SocketAddr} {mtu : UInt16} (h : l.Completes env bytes p mtu) :
    ByCookie host past (.datagram env bytes p) p := by
  obtain ⟨req, pc, hdec, hpc, hlive, hcookie, -⟩ := h
  obtain ⟨t, ht, hissued⟩ := pending_issuedAt hl hpc
  refine ⟨env, bytes, req, pc.cookie, t, rfl, hdec, hcookie, hissued, ?_⟩
  rw [ht, Nat.add_comm] at hlive
  exact Nat.sub_le_of_le_add hlive.le

/-- In a run every new session follows a cookie exchange exactly when no outbound message is handled for
a peer without a session. -/
theorem gained_byCookie_iff (host : Host) (events : List (Event F)) :
    (∀ past e l out l' p, TakesStep host events past e l out l' → p ∉ l.sessions → p ∈ l'.sessions →
      ByCookie host past e p) ↔ ∀ past env msg l out l', TakesStep host events past (.outbound env msg) l out l' →
      msg.peer ∈ l.sessions := by
  constructor
  · intro h past env msg l out l' ht
    by_contra hmem
    have hgained : msg.peer ∈ l'.sessions := by
      obtain ⟨state, l₁, managed, hstate, -, rfl⟩ := handleOutgoingMsg_cases ht.step
      exact AList.mem_replace.2 (sessionOrInsert_cases hstate).2.1
    obtain ⟨env', bytes, req, cookie, t, he, -⟩ := h past _ l out l' msg.peer ht hmem hgained
    cases he
  · intro h past e l out l' p ht hp hp'
    obtain ⟨hins, -, hmem⟩ | ⟨-, -, hmem⟩ := step_sessions ht.step
    · have hconcerns := (hmem p hp').resolve_left hp
      cases e with
      | datagram env bytes peer =>
        cases hconcerns
        obtain ⟨-, mtu, hcompletes⟩ := hins
        exact byCookie_of_completes ht.before hcompletes
      | outbound env msg => exact absurd (h past env msg l out l' ht) hins
      | tick env iter splits => exact hins.elim
    · exact absurd (hmem p hp') hp

/-- The application sends on a stream to a peer that the listener does not know. -/
theorem gained_without_cookie :
    ¬ ∀ (host : Host) (events : List (Event ℚ)) (past : List (Event ℚ)) (e : Event ℚ) (l : Listener ℚ)
    (out : List Output) (l' : Listener ℚ) (p : SocketAddr), TakesStep host events past e l out l' → p ∉ l.sessions →
      p ∈ l'.sessions → ByCookie host past e p := by
  intro h
  have hgained : ((new : Listener ℚ).step (Host.plain {})
      (.outbound (Env.at 0) ⟨.loopbackV4, .userData 0xfe [], .reliable, 0, .normal⟩)).map
        (fun r => decide (SocketAddr.loopbackV4 ∈ r.2.sessions)) = some true := by decide +kernel
  obtain ⟨⟨out, l'⟩, hstep, hmem⟩ := Option.map_eq_some_iff.1 hgained
  obtain ⟨env, bytes, req, cookie, t, he, -⟩ := h (Host.plain {}) _ [] _ new out l' .loopbackV4
    ⟨List.prefix_refl _, rfl, hstep⟩ (AList.notMem_empty _) (of_decide_eq_true hmem)
  cases he

end BedrockRs.Raknet.Transport.Listener

/-
Connecting over LAN signaling. On the nodes of one network, any number of calls of `connect` and of
listeners send each other signals, which the network may lose, repeat, delay and misdirect. Nothing but
the connection id tells one call from another; as long as no two calls draw the same one, the ends of a
connection have each other's descriptions (`descriptions_agree`), and the candidates a call tries were
all found by a peer connection that answers its offer. A call takes every candidate that comes out of its
subscription, tries none of them before it has the remote description, and holds none back behind the
loop that adds those it has buffered (`candidates_tried`).
-/
import BedrockRs.Nethernet.Transport.Connect

namespace BedrockRs.Nethernet

open Lib
open Raknet (SocketAddr)

/-- The network with what runs on its nodes. -/
structure Meeting where
  net : LanNetwork
  /-- The signals that came out, with the node they came out at. -/
  surfaced : List (Nat × Signal)
  connectors : List Connector
  handlers : List SignalHandler
  peers : List Peer

namespace Meeting

variable (b : Backend) (fromJson : String → Option CandidateInit)

inductive Event where
  /-- Anything the network and its nodes do but sending signals. -/
  | net (action : LanNetwork.Action)
  /-- `connect` has made its offer, which it sets as the local description. -/
  | connect (node : Nat) (connectionId : UInt64) (remoteNetworkId offer : String)
  /-- The offer is set, if WebRTC lets it; with that the call subscribes to the signals of its node. -/
  | subscribe (k : Nat) (ok : Bool)
  /-- It signals the offer; `io` is what the socket returns. -/
  | offer (k : Nat) (io : Except NethernetError Unit)
  | connector (k : Nat) (e : Connector.Event)
  /-- A peer connection finds a candidate of its own, which it may from the moment its local description is
  being set. -/
  | connectorCandidate (k : Nat) (json : String) (io : Except NethernetError Unit)
  | peerCandidate (a : Nat) (json : String) (io : Except NethernetError Unit)
  /-- The signal handler of a listener subscribes, and goes on. -/
  | listen (node : Nat)
  | handler (h : Nat) (e : SignalHandler.Event)

/-- The node that an action is about. -/
def nodeOf : LanNetwork.Action → Nat
  | .act i _ | .deliver i .. | .stray i .. => i

/-- Signals that come out at a node go to all that have subscribed there. -/
def broadcast (m : Meeting) (node : Nat) (signals : List Signal) : Meeting where
  net := m.net
  surfaced := m.surfaced ++ signals.map fun s => (node, s)
  connectors := m.connectors.map (Connector.overhear node signals)
  handlers := m.handlers.map (SignalHandler.overhear node signals)
  peers := m.peers

/-- A call of `signal` at a node. -/
def signal (m : Meeting) (node : Nat) (s : Signal) (io : Except NethernetError Unit) : Option Meeting := do
  let net ← m.net.step b (.act node (.signal s io))
  return { m with net }

/-- Whether that call returns `Ok`. -/
def accepts (m : Meeting) (node : Nat) (s : Signal) (io : Except NethernetError Unit) : Bool :=
  match m.net.nodes[node]? with
  | some lan => (lan.signal b s io).isOk
  | none => false

/-- The signal handler takes up an offer, with a new peer connection. -/
def takeUp (m : Meeting) (h : SignalHandler) (inbox : List Signal) (i : Nat) (s : Signal) : Meeting :=
  { m with
    handlers := m.handlers.set i { h with inbox := inbox, handling := some m.peers.length }
    peers := m.peers ++ [⟨h.node, s.connectionId, s.networkId, s.data, none, none, []⟩] }

def setHandler (m : Meeting) (i : Nat) (h : SignalHandler) : Meeting := { m with handlers := m.handlers.set i h }

def setPeer (m : Meeting) (i : Nat) (a : Peer) : Meeting := { m with peers := m.peers.set i a }

/-- A step of `handle_offer` for the peer connection it is at. -/
def handleOffer (m : Meeting) (i : Nat) (h : SignalHandler) (j : Nat) (a : Peer) : SignalHandler.Event → Option Meeting
  | .describe ok =>
    if a.remoteDescription.isNone then
      some (if ok then m.setPeer j { a with remoteDescription := some a.offer }
        else m.setHandler i { h with handling := none })
    else none
  | .answer sdp =>
    if a.remoteDescription.isSome && a.localDescription.isNone then
      some (if sdp.isSome then m.setPeer j { a with localDescription := sdp }
        else m.setHandler i { h with handling := none })
    else none
  | .reply io =>
    match a.localDescription with
    | some sdp =>
      (m.setHandler i { h with handling := none }).signal b a.node (.answer a.connectionId sdp a.networkId) io
    | none => none
  | _ => none

/-- A step of the signal handler. A signal other than an offer is dispatched to the task of its connection. -/
def handle (m : Meeting) (i : Nat) (h : SignalHandler) : SignalHandler.Event → Option Meeting
  | .take created =>
    match h.handling, h.inbox with
    | none, s :: inbox =>
      some (if s.signalType = .offer ∧ created then m.takeUp h inbox i s else m.setHandler i { h with inbox := inbox })
    | _, _ => none
  | .lag n => some (m.setHandler i { h with inbox := h.inbox.drop n })
  | e => do
    let j ← h.handling
    let a ← m.peers[j]?
    m.handleOffer b i h j a e

def step (m : Meeting) : Event → Option Meeting
  | .net action =>
    match action with
    | .act _ (.signal ..) => none
    | _ => do
      let net ← m.net.step b action
      return { m with net }.broadcast (nodeOf action) ((net.surfaced.drop m.net.surfaced.length).map Prod.snd)
  | .connect node connectionId remoteNetworkId offer =>
    if node < m.net.nodes.length then
      some { m with connectors := m.connectors ++ [.new node connectionId remoteNetworkId offer] }
    else none
  | .subscribe k ok => do
    let c ← m.connectors[k]?
    match c.phase with
    | .preparing => some { m with connectors := m.connectors.set k (c.prepared m.surfaced.length ok) }
    | _ => none
  | .offer k io => do
    let c ← m.connectors[k]?
    match c.phase with
    | .offering =>
      let s := Signal.offer c.connectionId c.offer c.remoteNetworkId
      { m with connectors := m.connectors.set k (c.offered (m.accepts b c.node s io)) }.signal b c.node s io
    | _ => none
  | .connector k e => do
    let c ← m.connectors[k]?
    let c' ← c.step fromJson e
    return { m with connectors := m.connectors.set k c' }
  | .connectorCandidate k json io => do
    let c ← m.connectors[k]?
    m.signal b c.node (.candidate c.connectionId json c.remoteNetworkId) io
  | .peerCandidate j json io => do
    let a ← m.peers[j]?
    (m.setPeer j { a with candidates := a.candidates ++ [json] }).signal b a.node
      (.candidate a.connectionId json a.networkId) io
  | .listen node => if node < m.net.nodes.length then some { m with handlers := m.handlers ++ [⟨node, [], none⟩] }
    else none
  | .handler i e => do
    let h ← m.handlers[i]?
    m.handle b i h e

def new (nodes : List (UInt64 × Option SocketAddr)) : Meeting := ⟨LanNetwork.new nodes, [], [], [], []⟩

def after (nodes : List (UInt64 × Option SocketAddr)) (events : List Event) : Option Meeting :=
  Machine.run (Machine.advance (step b fromJson)) (some (new nodes)) events

/-! ## The network -/

section Net

variable {b : Backend} {net net' : LanNetwork}

/-- What any action does: its node takes a step. -/
theorem net_step {action : LanNetwork.Action} (h : net.step b action = some net') :
    ∃ lan op out lan', net.nodes[nodeOf action]? = some lan ∧ lan.step b op = some (out, lan') ∧
      net' = net.record b (nodeOf action) lan op out lan' ∧
      ∀ s io, op = .signal s io → action = .act (nodeOf action) (.signal s io) := by
  have hnode : ∀ {i op}, net.stepNode b i op = some net' → ∃ lan out lan', net.nodes[i]? = some lan ∧
      lan.step b op = some (out, lan') ∧ net' = net.record b i lan op out lan' := by
    intro i op hstep
    obtain ⟨lan, hlan, hstep⟩ := Option.bind_eq_some_iff.1 hstep
    obtain ⟨⟨out, lan'⟩, hout, hstep⟩ := Option.bind_eq_some_iff.1 hstep
    cases hstep
    exact ⟨lan, out, lan', hlan, hout, rfl⟩
  cases action with
  | act i op =>
    have hop : net.stepNode b i op = some net' := by
      cases op with
      | receive => cases h
      | _ => exact h
    obtain ⟨lan, out, lan', hlan, hout, hnet⟩ := hnode hop
    exact ⟨lan, op, out, lan', hlan, hout, hnet, fun s io hs => by rw [hs]; rfl⟩
  | deliver i j addr now =>
    obtain ⟨data, hdata, hstep⟩ := Option.bind_eq_some_iff.1 h
    obtain ⟨lan, out, lan', hlan, hout, hnet⟩ := hnode hstep
    exact ⟨lan, _, out, lan', hlan, hout, hnet, nofun⟩
  | stray i data addr now =>
    unfold LanNetwork.step at h
    dsimp only at h
    split at h
    · cases h
    · obtain ⟨lan, out, lan', hlan, hout, hnet⟩ := hnode h
      exact ⟨lan, _, out, lan', hlan, hout, hnet, nofun⟩

theorem record_id {i : Nat} {lan lan' : LanSignaling} {op : LanOp} {out : List LanOutput}
    (hlan : net.nodes[i]? = some lan) (hid : lan'.networkId = lan.networkId) (j : Nat) :
    ((net.record b i lan op out lan').nodes[j]?).map LanSignaling.networkId =
      (net.nodes[j]?).map LanSignaling.networkId := by
  show ((net.nodes.set i lan')[j]?).map _ = _
  by_cases hij : i = j
  · subst hij
    rw [List.getElem?_set_self (List.getElem?_eq_some_iff.1 hlan).1, hlan, Option.map_some, Option.map_some, hid]
  · rw [List.getElem?_set_ne hij]

theorem mem_signalledBy {lan : LanSignaling} {s : Signal} {io : Except NethernetError Unit} {x : Signalled}
    (h : x ∈ LanNetwork.signalledBy b lan (.signal s io)) :
    x.senderId = lan.networkId ∧ x.signal = s ∧ parseU64 s.networkId = .ok x.recipientId := by
  unfold LanNetwork.signalledBy at h
  dsimp only at h
  split at h
  · rename_i id _ hid
    cases List.mem_singleton.1 h
    exact ⟨rfl, rfl, hid⟩
  · cases h

end Net

/-! ## Where signals come from -/

/-- The network id of a node. -/
def idOf (m : Meeting) (node : Nat) : Option UInt64 := (m.net.nodes[node]?).map LanSignaling.networkId

/-- The call or the peer connection that a signal was sent for. -/
inductive Origin (m : Meeting) (x : Signalled) : Prop
  | offer {c : Connector} (hc : c ∈ m.connectors) (hid : m.idOf c.node = some x.senderId)
    (hsignal : x.signal = .offer c.connectionId c.offer c.remoteNetworkId)
  | answer {a : Peer} {sdp : String} (ha : a ∈ m.peers) (hid : m.idOf a.node = some x.senderId)
    (hremote : a.remoteDescription = some a.offer) (hlocal : a.localDescription = some sdp)
    (hsignal : x.signal = .answer a.connectionId sdp a.networkId)
  | connectorCandidate {c : Connector} {json : String} (hc : c ∈ m.connectors) (hid : m.idOf c.node = some x.senderId)
    (hsignal : x.signal = .candidate c.connectionId json c.remoteNetworkId)
  | peerCandidate {a : Peer} {json : String} (ha : a ∈ m.peers) (hid : m.idOf a.node = some x.senderId)
    (hjson : json ∈ a.candidates) (hsignal : x.signal = .candidate a.connectionId json a.networkId)

/-- The nodes keep their ids, the calls go on and the peer connections grow. -/
structure Extends (m m' : Meeting) : Prop where
  ids : ∀ node, m'.idOf node = m.idOf node
  connectors : ∀ c ∈ m.connectors, ∃ c' ∈ m'.connectors, c.SameCall c'
  peers : ∀ a ∈ m.peers, ∃ a' ∈ m'.peers, a.Grows a'

theorem Origin.mono {m m' : Meeting} (h : Extends m m') {x : Signalled} (ho : Origin m x) : Origin m' x := by
  cases ho with
  | offer hc hid hsignal =>
    obtain ⟨c', hc', hsame⟩ := h.connectors _ hc
    refine .offer hc' ?_ ?_
    · rw [h.ids, hsame.node, hid]
    · rw [hsignal, hsame.connectionId, hsame.offer, hsame.remoteNetworkId]
  | answer ha hid hremote hlocal hsignal =>
    obtain ⟨a', ha', hgrows⟩ := h.peers _ ha
    refine .answer ha' ?_ ?_ (hgrows.answer _ hlocal) ?_
    · rw [h.ids, hgrows.node, hid]
    · rw [hgrows.offer]
      exact hgrows.remote _ hremote
    · rw [hsignal, hgrows.connectionId, hgrows.networkId]
  | @connectorCandidate c json hc hid hsignal =>
    obtain ⟨c', hc', hsame⟩ := h.connectors c hc
    have hid' : m'.idOf c'.node = some x.senderId := by rw [h.ids, hsame.node, hid]
    have hsignal' : x.signal = .candidate c'.connectionId json c'.remoteNetworkId := by
      rw [hsignal, hsame.connectionId, hsame.remoteNetworkId]
    exact .connectorCandidate hc' hid' hsignal'
  | peerCandidate ha hid hjson hsignal =>
    obtain ⟨a', ha', hgrows⟩ := h.peers _ ha
    refine .peerCandidate ha' ?_ (hgrows.candidates hjson) ?_
    · rw [h.ids, hgrows.node, hid]
    · rw [hsignal, hgrows.connectionId, hgrows.networkId]

/-- Everything in a meeting is accounted for. -/
structure Inv (b : Backend) (fromJson : String → Option CandidateInit) (m : Meeting) : Prop where
  net : LanNetwork.Inv b m.net
  surfaced : ∀ node s, (node, s) ∈ m.surfaced → ∃ own, m.idOf node = some own ∧ (own, s) ∈ m.net.surfaced
  signalled : ∀ x ∈ m.net.signalled, Origin m x ∧ parseU64 x.signal.networkId = .ok x.recipientId
  connectors : ∀ c ∈ m.connectors, c.Sound fromJson m.surfaced ∧ c.Orderly fromJson m.surfaced
  handlers : ∀ h ∈ m.handlers, h.Sound m.surfaced
  peers : ∀ a ∈ m.peers, a.Sound m.surfaced

section Steps

variable {b : Backend} {fromJson : String → Option CandidateInit} {m m' : Meeting}

theorem Extends.refl (m : Meeting) : Extends m m :=
  ⟨fun _ => rfl, fun c hc => ⟨c, hc, .refl c⟩, fun a ha => ⟨a, ha, .refl a⟩⟩

/-- A change of the calls, the handlers and the peer connections. -/
theorem Inv.change (h : Inv b fromJson m) (hnet : m'.net = m.net) (hsurfaced : m'.surfaced = m.surfaced)
    (hconnectors : ∀ c ∈ m.connectors, ∃ c' ∈ m'.connectors, c.SameCall c')
    (hpeers : ∀ a ∈ m.peers, ∃ a' ∈ m'.peers, a.Grows a')
    (hc : ∀ c ∈ m'.connectors, c ∈ m.connectors ∨ c.Sound fromJson m.surfaced ∧ c.Orderly fromJson m.surfaced)
    (hh : ∀ h ∈ m'.handlers, h ∈ m.handlers ∨ h.Sound m.surfaced)
    (ha : ∀ a ∈ m'.peers, a ∈ m.peers ∨ a.Sound m.surfaced) : Inv b fromJson m' := by
  have hids : ∀ node, m'.idOf node = m.idOf node := by
    intro node
    rw [idOf, idOf, hnet]
  have hextends : Extends m m' := ⟨hids, hconnectors, hpeers⟩
  constructor
  · rw [hnet]
    exact h.net
  · intro node s hs
    rw [hsurfaced] at hs
    rw [hids, hnet]
    exact h.surfaced node s hs
  · intro x hx
    rw [hnet] at hx
    exact ⟨(h.signalled x hx).1.mono hextends, (h.signalled x hx).2⟩
  · intro c hmem
    rw [hsurfaced]
    exact (hc c hmem).elim (h.connectors c) id
  · intro handler hmem
    rw [hsurfaced]
    exact (hh handler hmem).elim (h.handlers handler) id
  · intro a hmem
    rw [hsurfaced]
    exact (ha a hmem).elim (h.peers a) id

theorem Inv.setConnector (h : Inv b fromJson m) {k : Nat} {c c' : Connector} (hk : m.connectors[k]? = some c)
    (hsame : c.SameCall c') (hc' : c'.Sound fromJson m.surfaced ∧ c'.Orderly fromJson m.surfaced) :
    Inv b fromJson { m with connectors := m.connectors.set k c' } := by
  refine h.change rfl rfl (exists_mem_set .refl hk hsame) (fun a ha => ⟨a, ha, .refl a⟩) ?_ (fun _ => .inl)
    (fun _ => .inl)
  intro c₀ hmem
  rcases List.mem_or_eq_of_mem_set hmem with hold | rfl
  · exact .inl hold
  · exact .inr hc'

theorem Inv.setPeer (h : Inv b fromJson m) {j : Nat} {a a' : Peer} (hj : m.peers[j]? = some a) (hgrows : a.Grows a')
    (ha' : a'.Sound m.surfaced) : Inv b fromJson (m.setPeer j a') := by
  refine h.change rfl rfl (fun c hc => ⟨c, hc, .refl c⟩) (exists_mem_set .refl hj hgrows) (fun _ => .inl)
    (fun _ => .inl) ?_
  intro a₀ hmem
  rcases List.mem_or_eq_of_mem_set hmem with hold | rfl
  · exact .inl hold
  · exact .inr ha'

theorem Inv.setHandler (h : Inv b fromJson m) (i : Nat) {handler : SignalHandler}
    (hhandler : handler.Sound m.surfaced) : Inv b fromJson (m.setHandler i handler) := by
  refine h.change rfl rfl (fun c hc => ⟨c, hc, .refl c⟩) (fun a ha => ⟨a, ha, .refl a⟩) (fun _ => .inl) ?_
    (fun _ => .inl)
  intro h₀ hmem
  rcases List.mem_or_eq_of_mem_set hmem with hold | rfl
  · exact .inl hold
  · exact .inr hhandler

/-- A signal that has an origin is sent. -/
theorem Inv.signal (hb : b.Lawful) (h : Inv b fromJson m) {node : Nat} {s : Signal} {io : Except NethernetError Unit}
    (hsignal : m.signal b node s io = some m')
    (horigin : ∀ x : Signalled, m.idOf node = some x.senderId → x.signal = s → Origin m x) : Inv b fromJson m' := by
  obtain ⟨net, hstep, hm'⟩ := Option.bind_eq_some_iff.1 hsignal
  cases hm'
  have hinv := h.net.step hb hstep
  obtain ⟨lan, hlan, hnode⟩ := Option.bind_eq_some_iff.1 hstep
  obtain ⟨⟨out, lan'⟩, hout, hnode⟩ := Option.bind_eq_some_iff.1 hnode
  cases hnode
  obtain ⟨-, rfl⟩ : LanSignaling.sent (lan.signal b s io) = out ∧ lan = lan' := Prod.mk.inj (Option.some.inj hout)
  have hids : ∀ j, idOf { m with net := m.net.record b node lan (.signal s io) out lan } j = m.idOf j :=
    record_id hlan rfl
  have hextends : Extends m { m with net := m.net.record b node lan (.signal s io) out lan } :=
    ⟨hids, fun c hc => ⟨c, hc, .refl c⟩, fun a ha => ⟨a, ha, .refl a⟩⟩
  refine ⟨hinv, fun j s' hs' => ?_, fun x hx => ?_, h.connectors, h.handlers, h.peers⟩
  · obtain ⟨own, hown, hcame⟩ := h.surfaced j s' hs'
    exact ⟨own, (hids j).trans hown, List.mem_append_left _ hcame⟩
  · rcases List.mem_append.1 hx with hold | hnew
    · exact ⟨(h.signalled x hold).1.mono hextends, (h.signalled x hold).2⟩
    · obtain ⟨hsender, hs, hrecipient⟩ := mem_signalledBy hnew
      have hid : m.idOf node = some x.senderId := by
        rw [idOf, hlan, hsender]
        rfl
      refine ⟨(horigin x hid hs).mono hextends, ?_⟩
      rw [hs]
      exact hrecipient

/-- An action of the network, and the signals that come out with it. -/
theorem Inv.netStep (hb : b.Lawful) (h : Inv b fromJson m) {action : LanNetwork.Action}
    (hother : ∀ i s io, action ≠ .act i (.signal s io)) {net : LanNetwork} (hstep : m.net.step b action = some net) :
    Inv b fromJson
      ({ m with net }.broadcast (nodeOf action) ((net.surfaced.drop m.net.surfaced.length).map Prod.snd)) := by
  have hinv := h.net.step hb hstep
  obtain ⟨lan, op, out, lan', hlan, hout, rfl, hsignal⟩ := net_step hstep
  have hnew : (((m.net.record b (nodeOf action) lan op out lan').surfaced.drop m.net.surfaced.length).map Prod.snd) =
      LanNetwork.signalsOf out := by
    show ((m.net.surfaced ++ _).drop _).map _ = _
    rw [List.drop_left, List.map_map]
    exact List.map_id _
  rw [hnew]
  generalize hm' : broadcast _ (nodeOf action) (LanNetwork.signalsOf out) = m'
  have hids : ∀ j, m'.idOf j = m.idOf j := by
    subst hm'
    exact record_id hlan (LanSignaling.step_networkId hout)
  have hextends : Extends m m' := by
    refine ⟨hids, fun c hc => ?_, fun a ha => ?_⟩
    · subst hm'
      exact ⟨_, List.mem_map_of_mem hc, c.overhear_same _ _⟩
    · subst hm'
      exact ⟨a, ha, .refl a⟩
  -- nothing is sent, as the action is no call of `signal`
  have hsame : LanNetwork.signalledBy b lan op = [] := by
    cases op with
    | signal s io => exact absurd (hsignal s io rfl) (hother _ s io)
    | _ => rfl
  refine ⟨?_, fun j s hs => ?_, fun x hx => ?_, fun c hc => ?_, fun handler hh => ?_, fun a ha => ?_⟩
  · subst hm'
    exact hinv
  · rw [hids]
    subst hm'
    rcases List.mem_append.1 hs with hold | hcame
    · obtain ⟨own, hown, hcame⟩ := h.surfaced j s hold
      exact ⟨own, hown, List.mem_append_left _ hcame⟩
    · obtain ⟨s', hs', hpair⟩ := List.mem_map.1 hcame
      cases hpair
      refine ⟨lan.networkId, ?_, List.mem_append_right _ (List.mem_map.2 ⟨s, hs', rfl⟩)⟩
      rw [idOf, hlan]
      rfl
  · have hold : x ∈ m.net.signalled := by
      subst hm'
      rcases List.mem_append.1 hx with hold | hnew
      · exact hold
      · rw [hsame] at hnew
        cases hnew
    exact ⟨(h.signalled x hold).1.mono hextends, (h.signalled x hold).2⟩
  · subst hm'
    obtain ⟨c₀, hc₀, rfl⟩ := List.mem_map.1 hc
    exact ⟨(h.connectors c₀ hc₀).1.overhear _ _, (h.connectors c₀ hc₀).2.overhear _ _⟩
  · subst hm'
    obtain ⟨h₀, hh₀, rfl⟩ := List.mem_map.1 hh
    exact (h.handlers h₀ hh₀).overhear _ _
  · subst hm'
    exact (h.peers a ha).mono (List.subset_append_left _ _)

theorem Inv.takeUp (h : Inv b fromJson m) {handler : SignalHandler} (hmem : handler ∈ m.handlers) {s : Signal}
    {inbox : List Signal} (hinbox : handler.inbox = s :: inbox) (hoffer : s.signalType = .offer) (i : Nat) :
    Inv b fromJson (m.takeUp handler inbox i s) := by
  have hsound := h.handlers handler hmem
  refine h.change rfl rfl (fun c hc => ⟨c, hc, .refl c⟩) (fun a ha => ⟨a, List.mem_append_left _ ha, .refl a⟩)
    (fun _ => .inl) ?_ ?_
  · intro h₀ hmem
    rcases List.mem_or_eq_of_mem_set hmem with hold | rfl
    · exact .inl hold
    · exact .inr fun s' hs' => hsound s' (hinbox ▸ List.mem_cons_of_mem s hs')
  · intro a ha
    rcases List.mem_append.1 ha with hold | hnew
    · exact .inl hold
    · rw [List.mem_singleton.1 hnew]
      have hcame : (handler.node, s) ∈ m.surfaced := hsound s (hinbox ▸ List.mem_cons_self ..)
      have hs : s = .offer s.connectionId s.data s.networkId := by
        rw [Signal.offer, ← hoffer]
      exact .inr ⟨hs ▸ hcame, nofun, nofun⟩

theorem Inv.handleOffer (hb : b.Lawful) (h : Inv b fromJson m) {i j : Nat} {handler : SignalHandler}
    (hmem : handler ∈ m.handlers) {a : Peer} (hj : m.peers[j]? = some a) {e : SignalHandler.Event}
    (hstep : m.handleOffer b i handler j a e = some m') : Inv b fromJson m' := by
  have ha := h.peers a (List.mem_of_getElem? hj)
  have hdone : Inv b fromJson (m.setHandler i { handler with handling := none }) :=
    h.setHandler i (h.handlers handler hmem)
  cases e with
  | take _ => cases hstep
  | lag _ => cases hstep
  | describe ok =>
    rw [Meeting.handleOffer] at hstep
    split at hstep
    · rename_i hnone
      cases hstep
      split
      · refine h.setPeer hj ⟨rfl, rfl, rfl, rfl, fun sdp hsdp => ?_, fun _ h => h, List.Subset.refl _⟩
          ⟨ha.offer, fun sdp hsdp => (Option.some.inj hsdp).symm, fun _ => rfl⟩
        rw [hsdp] at hnone
        cases hnone
      · exact hdone
    · cases hstep
  | answer sdp =>
    rw [Meeting.handleOffer] at hstep
    split at hstep
    · rename_i hguard
      obtain ⟨hremote, hlocal⟩ := Bool.and_eq_true_iff.1 hguard
      cases hstep
      split
      · refine h.setPeer hj ⟨rfl, rfl, rfl, rfl, fun _ h => h, fun sdp hsdp => ?_, List.Subset.refl _⟩
          ⟨ha.offer, ha.remote, fun _ => hremote⟩
        rw [hsdp] at hlocal
        cases hlocal
      · exact hdone
    · cases hstep
  | reply io =>
    rw [Meeting.handleOffer] at hstep
    split at hstep
    · rename_i sdp hlocal
      refine hdone.signal hb hstep fun x hid hs => ?_
      obtain ⟨remote, hremote⟩ := Option.isSome_iff_exists.1 (ha.answered (by rw [hlocal]; rfl))
      have hoffer : a.remoteDescription = some a.offer := by rw [hremote, ha.remote remote hremote]
      exact .answer (List.mem_of_getElem? hj) hid hoffer hlocal hs
    · cases hstep

theorem Inv.handle (hb : b.Lawful) (h : Inv b fromJson m) {i : Nat} {handler : SignalHandler}
    (hmem : handler ∈ m.handlers) {e : SignalHandler.Event} (hstep : m.handle b i handler e = some m') :
    Inv b fromJson m' := by
  have hsound := h.handlers handler hmem
  have hoffer : ∀ {e}, (do let j ← handler.handling; let a ← m.peers[j]?; m.handleOffer b i handler j a e) = some m' →
      Inv b fromJson m' := by
    intro e hstep
    obtain ⟨j, -, hstep⟩ := Option.bind_eq_some_iff.1 hstep
    obtain ⟨a, hj, hstep⟩ := Option.bind_eq_some_iff.1 hstep
    exact h.handleOffer hb hmem hj hstep
  cases e with
  | take created =>
    rw [Meeting.handle] at hstep
    split at hstep
    · rename_i s inbox _ hinbox
      cases hstep
      split
      · rename_i htaken
        exact h.takeUp hmem hinbox htaken.1 i
      · exact h.setHandler i fun s' hs' => hsound s' (hinbox ▸ List.mem_cons_of_mem s hs')
    · cases hstep
  | lag n =>
    cases hstep
    exact h.setHandler i fun s hs => hsound s (List.mem_of_mem_drop hs)
  | describe ok => exact hoffer hstep
  | answer sdp => exact hoffer hstep
  | reply io => exact hoffer hstep

theorem Inv.step (hb : b.Lawful) (h : Inv b fromJson m) {e : Event} (hstep : m.step b fromJson e = some m') :
    Inv b fromJson m' := by
  cases e with
  | net action =>
    unfold Meeting.step at hstep
    dsimp only at hstep
    split at hstep
    · cases hstep
    · rename_i hother
      obtain ⟨net, hnet, hstep⟩ := Option.bind_eq_some_iff.1 hstep
      cases hstep
      exact h.netStep hb hother hnet
  | connect node connectionId remoteNetworkId offer =>
    rw [Meeting.step] at hstep
    split at hstep
    · cases hstep
      refine h.change rfl rfl (fun c hc => ⟨c, List.mem_append_left _ hc, .refl c⟩) (fun a ha => ⟨a, ha, .refl a⟩) ?_
        (fun _ => .inl) (fun _ => .inl)
      intro c hc
      rcases List.mem_append.1 hc with hold | hnew
      · exact .inl hold
      · rw [List.mem_singleton.1 hnew]
        exact .inr ⟨Connector.new_sound .., Connector.new_orderly ..⟩
    · cases hstep
  | subscribe k ok =>
    obtain ⟨c, hk, hstep⟩ := Option.bind_eq_some_iff.1 hstep
    split at hstep
    · rename_i hphase
      cases hstep
      obtain ⟨hsound, horderly⟩ := h.connectors c (List.mem_of_getElem? hk)
      exact h.setConnector hk (c.prepared_same _ ok) ⟨hsound.prepared ok, horderly.prepared hphase ok⟩
    · cases hstep
  | offer k io =>
    obtain ⟨c, hk, hstep⟩ := Option.bind_eq_some_iff.1 hstep
    dsimp only at hstep
    split at hstep
    · rename_i hphase
      obtain ⟨hsound, horderly⟩ := h.connectors c (List.mem_of_getElem? hk)
      generalize m.accepts b c.node (.offer c.connectionId c.offer c.remoteNetworkId) io = out at hstep
      have hsame : c.SameCall (c.offered out) := ⟨rfl, rfl, rfl, rfl⟩
      refine (h.setConnector hk hsame ⟨hsound.offered out, horderly.offered hphase out⟩).signal hb hstep
        fun x hid hs => ?_
      have hmem : c.offered out ∈ m.connectors.set k (c.offered out) :=
        List.mem_set (List.getElem?_eq_some_iff.1 hk).1 _
      exact .offer hmem hid hs
    · cases hstep
  | connector k e =>
    obtain ⟨c, hk, hstep⟩ := Option.bind_eq_some_iff.1 hstep
    obtain ⟨c', hc', hstep⟩ := Option.bind_eq_some_iff.1 hstep
    cases hstep
    obtain ⟨hsound, horderly⟩ := h.connectors c (List.mem_of_getElem? hk)
    exact h.setConnector hk (Connector.step_same hc') ⟨hsound.step hc', horderly.step hc'⟩
  | connectorCandidate k json io =>
    obtain ⟨c, hk, hstep⟩ := Option.bind_eq_some_iff.1 hstep
    exact h.signal hb hstep fun x hid hs => .connectorCandidate (List.mem_of_getElem? hk) hid hs
  | peerCandidate j json io =>
    obtain ⟨a, hj, hstep⟩ := Option.bind_eq_some_iff.1 hstep
    have ha := h.peers a (List.mem_of_getElem? hj)
    have hgrows : a.Grows { a with candidates := a.candidates ++ [json] } :=
      ⟨rfl, rfl, rfl, rfl, fun _ h => h, fun _ h => h, List.subset_append_left _ _⟩
    refine (h.setPeer hj hgrows ⟨ha.offer, ha.remote, ha.answered⟩).signal hb hstep fun x hid hs => ?_
    have hmem : { a with candidates := a.candidates ++ [json] } ∈
        m.peers.set j { a with candidates := a.candidates ++ [json] } :=
      List.mem_set (List.getElem?_eq_some_iff.1 hj).1 _
    exact .peerCandidate hmem hid (List.mem_append_right _ (List.mem_singleton_self json)) hs
  | listen node =>
    rw [Meeting.step] at hstep
    split at hstep
    · cases hstep
      refine h.change rfl rfl (fun c hc => ⟨c, hc, .refl c⟩) (fun a ha => ⟨a, ha, .refl a⟩) (fun _ => .inl) ?_
        (fun _ => .inl)
      intro handler hh
      rcases List.mem_append.1 hh with hold | hnew
      · exact .inl hold
      · rw [List.mem_singleton.1 hnew]
        exact .inr nofun
    · cases hstep
  | handler i e =>
    obtain ⟨handler, hi, hstep⟩ := Option.bind_eq_some_iff.1 hstep
    exact h.handle hb (List.mem_of_getElem? hi) hstep

end Steps

/-! ## Runs -/

section Runs

variable {b : Backend} {fromJson : String → Option CandidateInit} {nodes : List (UInt64 × Option SocketAddr)}
  {events : List Event} {m : Meeting}

theorem Inv.new (b : Backend) (fromJson : String → Option CandidateInit) (nodes : List (UInt64 × Option SocketAddr)) :
    Inv b fromJson (new nodes) :=
  ⟨LanNetwork.Inv.new b nodes, nofun, nofun, nofun, nofun, nofun⟩

theorem inv_after (hb : b.Lawful) (h : after b fromJson nodes events = some m) : Inv b fromJson m :=
  Machine.run_advance_inv_history (P := fun _ m => Inv b fromJson m) (fun _ _ _ _ hinv hstep => hinv.step hb hstep)
    events [] (Inv.new b fromJson nodes) h

/-- A peer connection that was made for the offer of a call, on the node the call is for. -/
structure Answers (m : Meeting) (c : Connector) (a : Peer) : Prop where
  connectionId : a.connectionId = c.connectionId
  offer : a.offer = c.offer
  caller : ∃ own, m.idOf c.node = some own ∧ a.networkId = toString own
  called : ∃ id, m.idOf a.node = some id ∧ parseU64 c.remoteNetworkId = .ok id

/-- Connection ids that are drawn once tell the calls apart. -/
theorem eq_of_connectionId (hfresh : (m.connectors.map Connector.connectionId).Nodup) {c c' : Connector}
    (hc : c ∈ m.connectors) (hc' : c' ∈ m.connectors) (hid : c'.connectionId = c.connectionId) : c' = c :=
  List.inj_on_of_nodup_map hfresh hc' hc hid

theorem Inv.answers (h : Inv b fromJson m) (hfresh : (m.connectors.map Connector.connectionId).Nodup) {c : Connector}
    (hc : c ∈ m.connectors) {a : Peer} (ha : a ∈ m.peers) (hid : a.connectionId = c.connectionId) : m.Answers c a := by
  obtain ⟨own, hown, hcame⟩ := h.surfaced _ _ (h.peers a ha).offer
  obtain ⟨x, hx, hrecipient, -, heq⟩ := h.net.surfaced own _ hcame
  obtain ⟨horigin, hparse⟩ := h.signalled x hx
  -- an offer under this id was made by the call
  cases horigin with
  | @offer c' hc' hsender hsignal =>
    rw [hsignal] at heq hparse
    simp only [Signal.offer, Signal.mk.injEq, true_and] at heq
    obtain ⟨hsame, hoffer, hfrom⟩ := heq
    obtain rfl := eq_of_connectionId hfresh hc hc' (hsame.symm.trans hid)
    exact ⟨hid, hoffer, ⟨x.senderId, hsender, hfrom⟩, own, hown, hrecipient ▸ hparse⟩
  | answer _ _ _ _ hsignal | connectorCandidate _ _ hsignal | peerCandidate _ _ _ hsignal =>
    rw [hsignal] at heq
    cases congrArg Signal.signalType heq

/-- Whatever the network does, as long as no two calls of `connect` draw the same connection id: when a call has
a remote description, as it has when it returns a stream, that is the local description of a peer connection
that was made for its offer on the node it calls and has the offer as its remote description; and every
candidate it tries was found by such a peer connection. -/
theorem descriptions_agree (hb : b.Lawful) (h : after b fromJson nodes events = some m)
    (hfresh : (m.connectors.map Connector.connectionId).Nodup) {c : Connector} (hc : c ∈ m.connectors) :
    (c.phase = .returned (.ok ()) → c.remoteDescription ≠ none) ∧
    (∀ answer, c.remoteDescription = some answer →
      ∃ a ∈ m.peers, m.Answers c a ∧ a.remoteDescription = some c.offer ∧ a.localDescription = some answer) ∧
    ∀ init ∈ c.tried, ∃ a ∈ m.peers, m.Answers c a ∧ ∃ json ∈ a.candidates, init = candidateInit fromJson json := by
  have hinv := inv_after hb h
  obtain ⟨hsound, horderly⟩ := hinv.connectors c hc
  refine ⟨fun hphase => horderly.described (by rw [hphase]; trivial), fun answer hanswer => ?_, fun init hinit => ?_⟩
  · obtain ⟨s, hcame, htype, hid, hdata⟩ := hsound.answer answer (.inr hanswer)
    obtain ⟨own, hown, hcame⟩ := hinv.surfaced _ _ hcame
    obtain ⟨x, hx, hrecipient, -, rfl⟩ := hinv.net.surfaced own _ hcame
    dsimp only at htype hid hdata
    cases (hinv.signalled x hx).1 with
    | @answer a sdp ha hsender hremote hlocal hsignal =>
      rw [hsignal] at hid hdata
      have hanswers := hinv.answers hfresh hc ha hid
      refine ⟨a, ha, hanswers, ?_, ?_⟩
      · rw [hremote, hanswers.offer]
      · rw [hlocal, ← hdata]
        rfl
    | offer _ _ hsignal | connectorCandidate _ _ hsignal | peerCandidate _ _ _ hsignal =>
      rw [hsignal] at htype
      cases htype
  · obtain ⟨s, hcame, hcandidate⟩ := hsound.candidates init (List.mem_append_right _ hinit)
    obtain ⟨own, hown, hcame⟩ := hinv.surfaced _ _ hcame
    obtain ⟨x, hx, hrecipient, hother, rfl⟩ := hinv.net.surfaced own _ hcame
    unfold Connector.candidateOf at hcandidate
    split at hcandidate
    · rename_i hguard
      cases hcandidate
      obtain ⟨hid, htype⟩ := hguard
      dsimp only at hid htype
      cases (hinv.signalled x hx).1 with
      | @peerCandidate a json ha hsender hjson hsignal =>
        rw [hsignal] at hid
        exact ⟨a, ha, hinv.answers hfresh hc ha hid, json, hjson, by rw [hsignal]; rfl⟩
      | @connectorCandidate c' json hc' hsender hsignal =>
        -- the call itself has sent it, and a node surfaces nothing of its own
        rw [hsignal] at hid
        obtain rfl := eq_of_connectionId hfresh hc hc' hid
        rw [hown] at hsender
        exact absurd (Option.some.inj hsender).symm hother
      | offer _ _ hsignal | answer _ _ _ _ hsignal =>
        rw [hsignal] at htype
        cases htype
    · cases hcandidate

/-- As long as its subscription has not lagged, the candidates a call has tried, those that are pending and
those it has yet to take are all that came out for it at its node since it subscribed, each once and in order.
None is tried before the remote description is set, and then none is pending behind the loop that tries them. -/
theorem candidates_tried (hb : b.Lawful) (h : after b fromJson nodes events = some m) {c : Connector}
    (hc : c ∈ m.connectors) :
    (c.lagged = false → c.tried ++ c.pending ++ c.inbox.filterMap (Connector.candidateOf fromJson c.connectionId) =
      (c.audible m.surfaced).filterMap (Connector.candidateOf fromJson c.connectionId)) ∧
    (c.remoteDescription = none → c.tried = []) ∧ (c.remoteDescription ≠ none → c.phase = .applying ∨ c.pending = []) :=
  have horderly := ((inv_after hb h).connectors c hc).2
  ⟨horderly.complete, horderly.early, horderly.late⟩

/-- Node 2 connects to a listener on node 1, whose first candidate overtakes the answer. -/
def connectRun : List Event :=
  [.listen 0, .net (.act 1 (.setPongData ((ServerData.new "S" "L").marshal.toOption.getD []))), .net (.act 0 (.tick 0)),
    .net (.deliver 1 0 .loopbackV4 1), .net (.act 1 .proceed), .net (.deliver 0 1 .loopbackV6 2),
    .net (.act 0 .proceed), .connect 1 7 "1" "v=0", .subscribe 0 true, .offer 0 (.ok ()),
    .net (.deliver 0 2 .loopbackV6 3), .net (.act 0 .proceed), .handler 0 (.take true), .handler 0 (.describe true),
    .handler 0 (.answer (some "v=1")), .peerCandidate 0 "udp" (.ok ()), .handler 0 (.reply (.ok ())),
    .net (.deliver 1 3 .loopbackV4 4), .net (.act 1 .proceed), .net (.deliver 1 4 .loopbackV4 5),
    .net (.act 1 .proceed), .connector 0 .take, .connector 0 .take, .connector 0 (.describe true), .connector 0 .apply,
    .connector 0 .apply]

/-- The call of a run with one, as far as it has come. -/
theorem connectRun_connector :
    ∃ m c, after recordedBackend (fun _ => none) [(1, some .loopbackV6), (2, none)] connectRun = some m ∧
      m.connectors = [c] ∧ c.remoteDescription = some "v=1" ∧ c.tried = [⟨"udp", none, none, none⟩] ∧
      c.lagged = false := by
  have hrun : ((after recordedBackend (fun _ => none) [(1, some .loopbackV6), (2, none)] connectRun).map fun m =>
      m.connectors.map fun c => (c.remoteDescription, c.tried, c.lagged)) =
      some [(some "v=1", [⟨"udp", none, none, none⟩], false)] := by
    decide +kernel
  obtain ⟨m, h, hconnectors⟩ := Option.map_eq_some_iff.1 hrun
  obtain ⟨c, hc, hstate⟩ := List.map_eq_singleton_iff.1 hconnectors
  simp only [Prod.mk.injEq] at hstate
  exact ⟨m, c, h, hc, hstate⟩

theorem descriptions_agree_connect :
    ∃ m c, after recordedBackend (fun _ => none) [(1, some .loopbackV6), (2, none)] connectRun = some m ∧
      c ∈ m.connectors ∧
      (∃ a ∈ m.peers, m.Answers c a ∧ a.remoteDescription = some c.offer ∧ a.localDescription = some "v=1") ∧
      ∃ a ∈ m.peers, m.Answers c a ∧
      ∃ json ∈ a.candidates, ⟨"udp", none, none, none⟩ = candidateInit (fun _ => none) json := by
  obtain ⟨m, c, h, hc, hremote, htried, -⟩ := connectRun_connector
  have hmem : c ∈ m.connectors := hc ▸ List.mem_singleton_self c
  have hfresh : (m.connectors.map Connector.connectionId).Nodup := by
    rw [hc]
    exact List.nodup_singleton _
  obtain ⟨-, hanswer, hcandidates⟩ := descriptions_agree recordedBackend_lawful h hfresh hmem
  exact ⟨m, c, h, hmem, hanswer _ hremote, hcandidates _ (htried ▸ List.mem_singleton_self _)⟩

theorem candidates_tried_connect :
    ∃ m c, after recordedBackend (fun _ => none) [(1, some .loopbackV6), (2, none)] connectRun = some m ∧
      c ∈ m.connectors ∧ c.tried = [⟨"udp", none, none, none⟩] ∧
      c.tried ++ c.pending ++ c.inbox.filterMap (Connector.candidateOf (fun _ => none) c.connectionId) =
        (c.audible m.surfaced).filterMap (Connector.candidateOf (fun _ => none) c.connectionId) := by
  obtain ⟨m, c, h, hc, hremote, htried, hlag⟩ := connectRun_connector
  have hmem : c ∈ m.connectors := hc ▸ List.mem_singleton_self c
  exact ⟨m, c, h, hmem, htried, (candidates_tried recordedBackend_lawful h hmem).1 hlag⟩

end Runs

end Meeting

end BedrockRs.Nethernet

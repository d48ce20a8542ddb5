/-
Several nodes of LAN signaling on one network. The network may lose, repeat, delay and misdirect
datagrams and cut them to the receive buffer, under any source address, and it may carry what other
services send; it cannot make a packet up. Whatever the interleaving, a signal that a node surfaces was
sent to it by the node it names (`surfaced_signalled`), and a server that it has discovered advertised
just that.
-/
import BedrockRs.Nethernet.Signaling.Lan

namespace BedrockRs.Nethernet

open Lib
open Raknet (SocketAddr)

/-- A signal that `signal` has sent, with the node that sent it and the node it is for. -/
structure Signalled where
  senderId : UInt64
  recipientId : UInt64
  signal : Signal
deriving DecidableEq

/-- The nodes, the datagrams sent so far, and what has happened at the ends. -/
structure LanNetwork where
  nodes : List LanSignaling
  datagrams : List Bytes
  signalled : List Signalled
  /-- The signals that came out, with the network id of the node they came out at. -/
  surfaced : List (UInt64 × Signal)
  advertised : List (UInt64 × ServerData)

namespace LanNetwork

inductive Action where
  /-- Node `i` does anything but take a datagram. -/
  | act (i : Nat) (op : LanOp)
  /-- Node `i` takes the `j`-th datagram that was sent. -/
  | deliver (i j : Nat) (addr : SocketAddr) (now : Instant)
  /-- Node `i` takes something that is no packet. -/
  | stray (i : Nat) (data : Bytes) (addr : SocketAddr) (now : Instant)

/-- The datagrams in the output of a node. -/
def datagramsOf : List LanOutput → List Bytes := List.filterMap fun
  | .sendTo bytes _ => some bytes
  | .signal _ => none

/-- The signals in the output of a node. -/
def signalsOf : List LanOutput → List Signal := List.filterMap fun
  | .sendTo .. => none
  | .signal s => some s

/-- What a call of `signal` has sent. -/
def signalledBy (b : Backend) (lan : LanSignaling) : LanOp → List Signalled
  | .signal s io =>
    match lan.signal b s io, parseU64 s.networkId with
    | .ok _, .ok id => [⟨lan.networkId, id, s⟩]
    | _, _ => []
  | _ => []

/-- What a call of `set_pong_data` has made the node advertise. -/
def advertisedBy (b : Backend) (lan : LanSignaling) : LanOp → List (UInt64 × ServerData)
  | .setPongData data => (setPongData b data).toList.map fun d => (lan.networkId, d)
  | _ => []

/-- The network after a step of node `i` from `lan` to `lan'`. -/
def record (b : Backend) (net : LanNetwork) (i : Nat) (lan : LanSignaling) (op : LanOp) (out : List LanOutput)
    (lan' : LanSignaling) : LanNetwork where
  nodes := net.nodes.set i lan'
  datagrams := net.datagrams ++ datagramsOf out
  signalled := net.signalled ++ signalledBy b lan op
  surfaced := net.surfaced ++ (signalsOf out).map fun s => (lan.networkId, s)
  advertised := net.advertised ++ advertisedBy b lan op

def stepNode (b : Backend) (net : LanNetwork) (i : Nat) (op : LanOp) : Option LanNetwork := do
  let lan ← net.nodes[i]?
  let (out, lan') ← lan.step b op
  return net.record b i lan op out lan'

def step (b : Backend) (net : LanNetwork) : Action → Option LanNetwork
  | .act i op =>
    match op with
    | .receive .. => none
    | _ => net.stepNode b i op
  | .deliver i j addr now => net.datagrams[j]?.bind fun data => net.stepNode b i (.receive data addr now)
  | .stray i data addr now =>
    match unmarshal b (data.take receiveBuffer) with
    | .ok _ => none
    | .error _ => net.stepNode b i (.receive data addr now)

/-- New nodes, each with its network id and its broadcast address. -/
def new (nodes : List (UInt64 × Option SocketAddr)) : LanNetwork :=
  ⟨nodes.map fun node => LanSignaling.new node.1 node.2, [], [], [], []⟩

def after (b : Backend) (nodes : List (UInt64 × Option SocketAddr)) (actions : List Action) : Option LanNetwork :=
  Machine.run (Machine.advance (step b)) (some (new nodes)) actions

/-! ## Where packets come from -/

/-- A packet that a node had reason to send. -/
inductive Genuine (net : LanNetwork) : Packet → UInt64 → Prop
  | request {senderId} : Genuine net .request senderId
  | response {senderId applicationData d} (hd : (senderId, d) ∈ net.advertised)
    (hdata : d.marshal = .ok applicationData) : Genuine net (.response applicationData) senderId
  | message {x : Signalled} (hx : x ∈ net.signalled) :
    Genuine net (.message x.recipientId (toString x.signal)) x.senderId

/-- What a node remembers. -/
structure Remembers (net : LanNetwork) (lan : LanSignaling) : Prop where
  serverData : ∀ d, lan.serverData = some d → (lan.networkId, d) ∈ net.advertised
  discovered : ∀ id d, lan.discoveredServers.lookup id = some d → (id, d) ∈ net.advertised
  handling : ∀ r, lan.handling = some r → Genuine net r.packet r.senderId ∧ r.senderId ≠ lan.networkId

/-- A signal that came out at node `own` was sent to it. -/
def Sent (net : LanNetwork) (own : UInt64) (s : Signal) : Prop :=
  ∃ x ∈ net.signalled, x.recipientId = own ∧ x.senderId ≠ own ∧ s = { x.signal with networkId := toString x.senderId }

structure Inv (b : Backend) (net : LanNetwork) : Prop where
  datagrams : ∀ data ∈ net.datagrams, ∃ packet senderId, marshal b packet senderId = .ok data ∧
    Genuine net packet senderId
  nodes : ∀ lan ∈ net.nodes, Remembers net lan
  surfaced : ∀ own s, (own, s) ∈ net.surfaced → Sent net own s

/-! ## One step of a node -/

section Step

variable {b : Backend} {net net' : LanNetwork} {lan lan' : LanSignaling} {op : LanOp} {out : List LanOutput}

/-- The ends have seen at least as much. -/
structure Grows (net net' : LanNetwork) : Prop where
  signalled : net.signalled ⊆ net'.signalled
  advertised : net.advertised ⊆ net'.advertised

theorem Genuine.mono (hgrows : Grows net net') {packet : Packet} {senderId : UInt64} (h : Genuine net packet senderId) :
    Genuine net' packet senderId := by
  cases h with
  | request => exact .request
  | response hd hdata => exact .response (hgrows.advertised hd) hdata
  | message hx => exact .message (hgrows.signalled hx)

theorem Remembers.mono (hgrows : Grows net net') (h : Remembers net lan) : Remembers net' lan where
  serverData d hd := hgrows.advertised (h.serverData d hd)
  discovered id d hd := hgrows.advertised (h.discovered id d hd)
  handling r hr := ⟨(h.handling r hr).1.mono hgrows, (h.handling r hr).2⟩

theorem Sent.mono (hgrows : Grows net net') {own : UInt64} {s : Signal} (h : Sent net own s) : Sent net' own s := by
  obtain ⟨x, hx, hrest⟩ := h
  exact ⟨x, hgrows.signalled hx, hrest⟩

/-- What a step puts out and leaves behind is accounted for by `net'`. -/
structure Sound (b : Backend) (net' : LanNetwork) (own : UInt64) (out : List LanOutput) (lan' : LanSignaling) :
    Prop where
  datagrams : ∀ data ∈ datagramsOf out, ∃ packet senderId, marshal b packet senderId = .ok data ∧
    Genuine net' packet senderId
  signals : ∀ s ∈ signalsOf out, Sent net' own s
  remembers : Remembers net' lan'

theorem answerRequest_ok {serverData : Option ServerData} {own : UInt64} {response : Bytes}
    (h : answerRequest b serverData own = .ok (some response)) :
    ∃ d appData, serverData = some d ∧ d.marshal = .ok appData ∧ marshal b (.response appData) own = .ok response := by
  unfold answerRequest at h
  cases serverData with
  | none => cases h
  | some d =>
    dsimp only at h
    cases happ : d.marshal with
    | error e =>
      rw [happ] at h
      cases h
    | ok appData =>
      rw [happ] at h
      cases hresponse : marshal b (.response appData) own with
      | error e =>
        simp only [bind, Except.bind, hresponse] at h
        cases h
      | ok bytes =>
        simp only [bind, Except.bind, hresponse] at h
        cases h
        exact ⟨d, appData, rfl, happ, hresponse⟩

/-- The second half of `handle_packet`, on a packet that was sent. -/
theorem finishPacket_sound (h : Remembers net lan) {r : Received} (hr : lan.handling = some r) :
    Sound b net lan.networkId (LanSignaling.finishPacket b { lan with handling := none } r).1
      (LanSignaling.finishPacket b { lan with handling := none } r).2 := by
  obtain ⟨hgenuine, hother⟩ := h.handling r hr
  have hidle : Remembers net { lan with handling := none } := ⟨h.serverData, h.discovered, nofun⟩
  have hnothing : Sound b net lan.networkId [] { lan with handling := none } := ⟨nofun, nofun, hidle⟩
  obtain ⟨packet, senderId, addr⟩ := r
  unfold LanSignaling.finishPacket
  cases hgenuine with
  | request =>
    dsimp only
    split
    · rename_i response hanswer
      obtain ⟨d, appData, hd, happ, hresponse⟩ := answerRequest_ok hanswer
      refine ⟨?_, nofun, hidle⟩
      rintro data hdata
      obtain rfl := List.mem_singleton.1 hdata
      exact ⟨_, _, hresponse, .response (h.serverData d hd) happ⟩
    · exact hnothing
  | @response _ applicationData d hd hdata =>
    dsimp only
    rw [ServerData.unmarshal_of_marshal b hdata]
    exact ⟨nofun, nofun, h.serverData, HashMap.every_insert h.discovered hd, nofun⟩
  | @message x hx =>
    dsimp only
    split_ifs with hping hown
    · exact hnothing
    · rw [LanSignaling.fromString_sent]
      refine ⟨nofun, ?_, hidle⟩
      rintro s hs
      obtain rfl := List.mem_singleton.1 hs
      exact ⟨x, hx, hown, hother, rfl⟩
    · exact hnothing

/-- What a node takes from the network is a datagram that was sent, or no packet. -/
def Fair (b : Backend) (net : LanNetwork) (op : LanOp) : Prop :=
  ∀ data addr now, op = .receive data addr now →
    data ∈ net.datagrams ∨ ∃ e, unmarshal b (data.take receiveBuffer) = .error e

theorem step_sound (hb : b.Lawful) (hsent : ∀ data ∈ net.datagrams, ∃ packet senderId,
      marshal b packet senderId = .ok data ∧ Genuine net packet senderId)
    (h : Remembers net lan) (hfair : Fair b net op) (hgrows : Grows net net')
    (hsignalled : signalledBy b lan op ⊆ net'.signalled) (hadvertised : advertisedBy b lan op ⊆ net'.advertised)
    (hstep : lan.step b op = some (out, lan')) : Sound b net' lan.networkId out lan' := by
  have h' := h.mono hgrows
  cases LanSignaling.step_cases hstep with
  | ignored => exact ⟨nofun, nofun, h'⟩
  | @taken data addr now packet senderId hidle hdata hother =>
    refine ⟨nofun, nofun, h'.serverData, h'.discovered, ?_⟩
    rintro _ ⟨⟩
    refine ⟨?_, hother⟩
    rcases hfair data addr now rfl with hmem | ⟨e, he⟩
    · obtain ⟨packet', senderId', hmarshal, hgenuine⟩ := hsent data hmem
      obtain ⟨-, rfl, rfl⟩ := unmarshal_take hb hmarshal hdata
      exact hgenuine.mono hgrows
    · rw [hdata] at he
      cases he
  | proceeded hbusy => exact finishPacket_sound h' hbusy
  | @ticked now hidle =>
    refine ⟨fun data hdata => ?_, fun s hs => ?_, h'.serverData, h'.discovered, h'.handling⟩
    · obtain ⟨o, ho, hdata⟩ := List.mem_filterMap.1 hdata
      obtain ⟨bytes, addr, rfl, hrequest⟩ := LanSignaling.mem_requests ho
      cases hdata
      exact ⟨_, _, hrequest, .request⟩
    · obtain ⟨o, ho, hs⟩ := List.mem_filterMap.1 hs
      obtain ⟨bytes, addr, rfl, -⟩ := LanSignaling.mem_requests ho
      cases hs
  | @signalled s io =>
    cases hsignal : lan.signal b s io with
    | error e => exact ⟨nofun, nofun, h'⟩
    | ok o =>
      obtain ⟨id, entry, data, hid, hentry, hdata, hio, rfl⟩ := LanSignaling.signal_eq_ok_iff.1 hsignal
      refine ⟨?_, nofun, h'⟩
      intro bytes hbytes
      obtain rfl := List.mem_singleton.1 hbytes
      have hx : (⟨lan.networkId, id, s⟩ : Signalled) ∈ net'.signalled :=
        hsignalled (by simp [signalledBy, hsignal, hid])
      exact ⟨_, _, hdata, .message hx⟩
  | @advertised data =>
    refine ⟨nofun, nofun, fun d hd => hadvertised ?_, h'.discovered, h'.handling⟩
    rw [advertisedBy, show setPongData b data = some d from hd]
    exact List.mem_singleton_self _

theorem Inv.stepNode (hb : b.Lawful) (h : Inv b net) {i : Nat} (hfair : Fair b net op)
    (hstep : net.stepNode b i op = some net') : Inv b net' := by
  obtain ⟨lan, hlan, hstep⟩ := Option.bind_eq_some_iff.1 hstep
  obtain ⟨⟨out, lan'⟩, hnode, hstep⟩ := Option.bind_eq_some_iff.1 hstep
  cases hstep
  have hmem := List.mem_of_getElem? hlan
  have hgrows : Grows net (net.record b i lan op out lan') := ⟨List.subset_append_left _ _, List.subset_append_left _ _⟩
  have hsound := step_sound hb h.datagrams (h.nodes lan hmem) hfair hgrows (List.subset_append_right _ _)
    (List.subset_append_right _ _) hnode
  constructor
  · intro data hdata
    rcases List.mem_append.1 hdata with hdata | hdata
    · obtain ⟨packet, senderId, hmarshal, hgenuine⟩ := h.datagrams data hdata
      exact ⟨packet, senderId, hmarshal, hgenuine.mono hgrows⟩
    · exact hsound.datagrams data hdata
  · intro lan₀ hlan₀
    rcases List.mem_or_eq_of_mem_set hlan₀ with hlan₀ | rfl
    · exact (h.nodes lan₀ hlan₀).mono hgrows
    · exact hsound.remembers
  · intro own s hs
    rcases List.mem_append.1 hs with hs | hs
    · exact (h.surfaced own s hs).mono hgrows
    · obtain ⟨s', hs', hpair⟩ := List.mem_map.1 hs
      cases hpair
      exact hsound.signals _ hs'

end Step

/-! ## Runs -/

theorem Inv.step {b : Backend} (hb : b.Lawful) {net net' : LanNetwork} (h : Inv b net) {action : Action}
    (hstep : net.step b action = some net') : Inv b net' := by
  cases action with
  | act i op =>
    have hnode : net.stepNode b i op = some net' := by
      cases op with
      | receive => cases hstep
      | _ => exact hstep
    refine h.stepNode hb ?_ hnode
    rintro data addr now rfl
    cases hstep
  | deliver i j addr now =>
    obtain ⟨data, hdata, hstep⟩ := Option.bind_eq_some_iff.1 hstep
    refine h.stepNode hb ?_ hstep
    rintro _ _ _ ⟨⟩
    exact .inl (List.mem_of_getElem? hdata)
  | stray i data addr now =>
    unfold LanNetwork.step at hstep
    dsimp only at hstep
    split at hstep
    · cases hstep
    · rename_i e he
      refine h.stepNode hb ?_ hstep
      rintro _ _ _ ⟨⟩
      exact .inr ⟨e, he⟩

theorem Inv.new (b : Backend) (nodes : List (UInt64 × Option SocketAddr)) : Inv b (new nodes) where
  datagrams := nofun
  nodes lan hlan := by
    obtain ⟨node, -, rfl⟩ := List.mem_map.1 hlan
    exact ⟨nofun, nofun, nofun⟩
  surfaced := nofun

theorem inv_after {b : Backend} (hb : b.Lawful) {nodes : List (UInt64 × Option SocketAddr)} {actions : List Action}
    {net : LanNetwork} (h : after b nodes actions = some net) : Inv b net :=
  Machine.run_advance_inv_history (P := fun _ net => Inv b net) (fun _ _ _ _ hinv hstep => hinv.step hb hstep)
    actions []
    (Inv.new b nodes) h

/-- Node 1 asks for servers and discovers node 2, which then sends it an offer. -/
def meetingRun : List Action :=
  [.act 1 (.setPongData ((ServerData.new "S" "L").marshal.toOption.getD [])), .act 0 (.tick 0),
    .deliver 1 0 .loopbackV4 1, .act 1 .proceed, .deliver 0 1 .loopbackV6 2, .act 0 .proceed,
    .act 1 (.signal (Signal.offer 7 "v=0" "1") (.ok ())), .deliver 0 2 .loopbackV6 3, .act 0 .proceed]

/-- Whatever the network does, a signal that comes out at a node was sent to that node's network id, by the node
whose network id it carries, with the same type, connection and data. -/
theorem surfaced_signalled {b : Backend} (hb : b.Lawful) {nodes : List (UInt64 × Option SocketAddr)}
    {actions : List Action} {net : LanNetwork} (h : after b nodes actions = some net) {own : UInt64} {s : Signal}
    (hs : (own, s) ∈ net.surfaced) :
    ∃ x ∈ net.signalled, x.recipientId = own ∧ x.senderId ≠ own ∧
      s = { x.signal with networkId := toString x.senderId } :=
  (inv_after hb h).surfaced own s hs

theorem surfaced_signalled_meeting :
    ∃ net, after recordedBackend [(1, some .loopbackV6), (2, none)] meetingRun = some net ∧
      ∃ x ∈ net.signalled, x.recipientId = 1 ∧ x.senderId ≠ 1 ∧
      Signal.offer 7 "v=0" "2" = { x.signal with networkId := toString x.senderId } := by
  have hrun : ((after recordedBackend [(1, some .loopbackV6), (2, none)] meetingRun).map fun net => net.surfaced) =
      some [(1, Signal.offer 7 "v=0" "2")] := by
    decide +kernel
  obtain ⟨net, h, hsurfaced⟩ := Option.map_eq_some_iff.1 hrun
  exact ⟨net, h, surfaced_signalled recordedBackend_lawful h (by rw [hsurfaced]; exact List.mem_singleton_self _)⟩

/-- Whatever the network does, a server that a node has discovered advertised that data at some time. -/
theorem discovered_advertised {b : Backend} (hb : b.Lawful) {nodes : List (UInt64 × Option SocketAddr)}
    {actions : List Action} {net : LanNetwork} (h : after b nodes actions = some net) {lan : LanSignaling}
    (hlan : lan ∈ net.nodes) {id : UInt64} {d : ServerData} (hd : lan.discover.lookup id = some d) :
    (id, d) ∈ net.advertised :=
  ((inv_after hb h).nodes lan hlan).discovered id d hd

theorem discovered_advertised_meeting :
    ∃ net, after recordedBackend [(1, some .loopbackV6), (2, none)] meetingRun = some net ∧
      (2, ServerData.new "S" "L") ∈ net.advertised := by
  have hrun : ((after recordedBackend [(1, some .loopbackV6), (2, none)] meetingRun).bind fun net =>
      net.nodes[0]?.bind fun lan => lan.discover.lookup 2) = some (ServerData.new "S" "L") := by
    decide +kernel
  obtain ⟨net, h, hnode⟩ := Option.bind_eq_some_iff.1 hrun
  obtain ⟨lan, hlan, hd⟩ := Option.bind_eq_some_iff.1 hnode
  exact ⟨net, h, discovered_advertised recordedBackend_lawful h (List.mem_of_getElem? hlan) hd⟩

end LanNetwork

end BedrockRs.Nethernet

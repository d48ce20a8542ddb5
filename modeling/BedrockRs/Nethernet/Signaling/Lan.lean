/-
LAN signaling (`signaling/lan.rs`): one node on the network. Its background task takes packets from the
socket, notes where their senders are and acts on them; every two seconds it forgets the senders it has
not heard of for fifteen seconds and asks for servers. The application sends signals and sets what the
node advertises while the task is under way, also between the two halves of `handle_packet`, which waits
for a lock after it has noted the sender.

A call of `signal` fails where the socket does not take its datagram, as one that is too long for UDP;
requests and responses are handed to the socket whatever becomes of them.

What the address table holds is said in terms of the node's history (`addresses_iff`): the last packet of
each sender, as long as no clean-up found it too old.
-/
import BedrockRs.Lib.HashMap
import BedrockRs.Lib.Machine
import BedrockRs.Lib.Std
import BedrockRs.Nethernet.Protocol.ServerData
import BedrockRs.Nethernet.Protocol.Signal
import BedrockRs.Nethernet.Protocol.Truncation
import BedrockRs.Raknet.Protocol.Wire

namespace BedrockRs.Nethernet

open Lib
open Raknet (SocketAddr)

/-- `ADDRESS_TIMEOUT`. -/
def addressTimeout : Duration := Duration.fromSecs 15

/-- `PING_TOKEN`. -/
def pingToken : String := "Ping"

/-- The length of the buffer that `recv_from` fills; the rest of a datagram is lost. -/
def receiveBuffer : Nat := 4096

structure AddressEntry where
  addr : SocketAddr
  lastSeen : Instant
deriving DecidableEq

/-- A packet that `handle_packet` has taken up: its sender is noted, what it says is not yet looked at. -/
structure Received where
  packet : Packet
  senderId : UInt64
  addr : SocketAddr
deriving DecidableEq

structure LanSignaling where
  networkId : UInt64
  /-- Where discovery requests go; a node bound to the discovery port sends none. -/
  broadcastAddr : Option SocketAddr
  addresses : HashMap UInt64 AddressEntry
  serverData : Option ServerData
  discoveredServers : HashMap UInt64 ServerData
  /-- The packet in the hands of the background task. -/
  handling : Option Received

/-- What a node hands out: a datagram for the socket, or a signal for all subscribers. -/
inductive LanOutput where
  | sendTo (bytes : Bytes) (addr : SocketAddr)
  | signal (s : Signal)
deriving DecidableEq

/-- What happens at a node. -/
inductive LanOp where
  /-- The task takes a datagram from the socket. -/
  | receive (data : Bytes) (addr : SocketAddr) (now : Instant)
  /-- The task goes on with the packet it has taken up. -/
  | proceed
  | tick (now : Instant)
  /-- The application sends a signal; `io` is what `socket.send_to` returns, if it is called. -/
  | signal (s : Signal) (io : Except NethernetError Unit)
  | setPongData (data : Bytes)

namespace LanSignaling

def new (networkId : UInt64) (broadcastAddr : Option SocketAddr) : LanSignaling :=
  ⟨networkId, broadcastAddr, ∅, none, ∅, none⟩

def discover (lan : LanSignaling) : HashMap UInt64 ServerData := lan.discoveredServers

def getAddress (lan : LanSignaling) (networkId : UInt64) : Option SocketAddr :=
  (lan.addresses.lookup networkId).map AddressEntry.addr

/-- The datagrams of a call that failed or has one to send. -/
def sent : Except NethernetError LanOutput → List LanOutput
  | .ok out => [out]
  | .error _ => []

def sendRequest (b : Backend) (networkId : UInt64) (addr : SocketAddr) : Except NethernetError LanOutput := do
  let data ← marshal b .request networkId
  return .sendTo data addr

/-- `handle_packet` up to the address table. -/
def receivePacket (b : Backend) (lan : LanSignaling) (data : Bytes) (addr : SocketAddr) (now : Instant) :
    LanSignaling :=
  match unmarshal b data with
  | .ok (packet, senderId) =>
    if senderId = lan.networkId then lan
    else { lan with addresses := lan.addresses.insert senderId ⟨addr, now⟩, handling := some ⟨packet, senderId, addr⟩ }
  | .error _ => lan

/-- The rest of `handle_packet`. -/
def finishPacket (b : Backend) (lan : LanSignaling) (r : Received) : List LanOutput × LanSignaling :=
  match r.packet with
  | .request =>
    match answerRequest b lan.serverData lan.networkId with
    | .ok (some responseData) => ([.sendTo responseData r.addr], lan)
    | _ => ([], lan)
  | .response applicationData =>
    match ServerData.unmarshal b applicationData with
    | .ok serverInfo => ([], { lan with discoveredServers := lan.discoveredServers.insert r.senderId serverInfo })
    | .error _ => ([], lan)
  | .message recipientId data =>
    if data = pingToken then ([], lan)
    else if recipientId = lan.networkId then
      match Signal.fromString data (toString r.senderId) with
      | .ok signal => ([.signal signal], lan)
      | .error _ => ([], lan)
    else ([], lan)

/-- `handle_packet` of a packet, with nothing in between its halves. -/
def handlePacket (b : Backend) (lan : LanSignaling) (data : Bytes) (addr : SocketAddr) (now : Instant) :
    List LanOutput × LanSignaling :=
  let lan' := lan.receivePacket b data addr now
  match lan'.handling with
  | some r => finishPacket b { lan' with handling := none } r
  | none => ([], lan')

def cleanupAddresses (lan : LanSignaling) (now : Instant) : LanSignaling :=
  { lan with addresses := lan.addresses.retain fun entry => now.durationSince entry.lastSeen < addressTimeout }

/-- Sends a signaling message to the peer identified by the signal's network id. -/
def signal (b : Backend) (lan : LanSignaling) (signal : Signal) (io : Except NethernetError Unit) :
    Except NethernetError LanOutput := do
  let networkId ← (parseU64 signal.networkId).mapError fun e => .other s!"Invalid network ID: {e}"
  match lan.addresses.lookup networkId with
  | none => throw (.other s!"Address not found for network {networkId}")
  | some entry =>
    let data ← marshal b (.message networkId (toString signal)) lan.networkId
    io
    return .sendTo data entry.addr

/-- The background task takes up one thing at a time; the application does not wait for it. -/
def step (b : Backend) (lan : LanSignaling) : LanOp → Option (List LanOutput × LanSignaling)
  | .receive data addr now =>
    match lan.handling with
    | none => some ([], lan.receivePacket b (data.take receiveBuffer) addr now)
    | some _ => none
  | .proceed => lan.handling.map fun r => finishPacket b { lan with handling := none } r
  | .tick now =>
    match lan.handling with
    | none =>
      some (lan.broadcastAddr.toList.flatMap fun addr => sent (sendRequest b lan.networkId addr),
        lan.cleanupAddresses now)
    | some _ => none
  | .signal s io => some (sent (lan.signal b s io), lan)
  | .setPongData data => some ([], { lan with serverData := Nethernet.setPongData b data })

/-- The node after some events. -/
def after (b : Backend) (lan : LanSignaling) (ops : List LanOp) : Option LanSignaling :=
  Machine.run (Machine.advance fun lan op => (lan.step b op).map Prod.snd) (some lan) ops

/-! ## The address table -/

section Addresses

variable {b : Backend} {lan lan' : LanSignaling} {op : LanOp} {out : List LanOutput}

/-- The sender of a datagram that is a packet of another node, with where and when it came from. -/
def heard (b : Backend) (own : UInt64) : LanOp → Option (UInt64 × AddressEntry)
  | .receive data addr now =>
    match unmarshal b (data.take receiveBuffer) with
    | .ok (_, senderId) => if senderId = own then none else some (senderId, ⟨addr, now⟩)
    | .error _ => none
  | _ => none

/-- Nothing newer from the sender, and no clean-up that finds the entry too old. -/
def Keeps (b : Backend) (own id : UInt64) (e : AddressEntry) (op : LanOp) : Prop :=
  (∀ e', heard b own op ≠ some (id, e')) ∧ ∀ now, op = .tick now → Instant.durationSince now e.lastSeen < addressTimeout

/-- The last packet of `id` came from the address and at the time of `e`, and every clean-up since was in time. -/
def LastHeard (b : Backend) (own id : UInt64) (e : AddressEntry) (ops : List LanOp) : Prop :=
  Machine.Since (fun op => heard b own op = some (id, e)) (Keeps b own id e) ops

theorem finishPacket_same (b : Backend) (lan : LanSignaling) (r : Received) :
    (finishPacket b lan r).2.networkId = lan.networkId ∧ (finishPacket b lan r).2.addresses = lan.addresses ∧
      (finishPacket b lan r).2.broadcastAddr = lan.broadcastAddr ∧
      (finishPacket b lan r).2.serverData = lan.serverData := by
  unfold finishPacket
  split
  · split <;> exact ⟨rfl, rfl, rfl, rfl⟩
  · split <;> exact ⟨rfl, rfl, rfl, rfl⟩
  · split_ifs
    · exact ⟨rfl, rfl, rfl, rfl⟩
    · split <;> exact ⟨rfl, rfl, rfl, rfl⟩
    · exact ⟨rfl, rfl, rfl, rfl⟩

/-- Everything that a step can do. -/
inductive Stepped (b : Backend) (lan : LanSignaling) : LanOp → List LanOutput → LanSignaling → Prop
  /-- The datagram is no packet, or one of the node's own. -/
  | ignored {data addr now} (hidle : lan.handling = none)
    (hdeaf : heard b lan.networkId (.receive data addr now) = none) : Stepped b lan (.receive data addr now) [] lan
  | taken {data addr now packet senderId} (hidle : lan.handling = none)
    (hdata : unmarshal b (data.take receiveBuffer) = .ok (packet, senderId)) (hother : senderId ≠ lan.networkId) :
    Stepped b lan (.receive data addr now) []
      { lan with addresses := lan.addresses.insert senderId ⟨addr, now⟩, handling := some ⟨packet, senderId, addr⟩ }
  | proceeded {r} (hbusy : lan.handling = some r) :
    Stepped b lan .proceed (finishPacket b { lan with handling := none } r).1
    (finishPacket b { lan with handling := none } r).2
  | ticked {now} (hidle : lan.handling = none) :
    Stepped b lan (.tick now) (lan.broadcastAddr.toList.flatMap fun addr => sent (sendRequest b lan.networkId addr))
      (lan.cleanupAddresses now)
  | signalled {s io} : Stepped b lan (.signal s io) (sent (lan.signal b s io)) lan
  | advertised {data} : Stepped b lan (.setPongData data) [] { lan with serverData := Nethernet.setPongData b data }

theorem step_cases (h : lan.step b op = some (out, lan')) : Stepped b lan op out lan' := by
  cases op with
  | receive data addr now =>
    rw [step] at h
    split at h
    · rename_i hidle
      cases h
      unfold receivePacket
      split
      · rename_i packet senderId hdata
        split_ifs with hown
        · exact .ignored hidle (by rw [heard, hdata]; exact if_pos hown)
        · exact .taken hidle hdata hown
      · rename_i e hdata
        exact .ignored hidle (by rw [heard, hdata])
    · cases h
  | proceed =>
    obtain ⟨r, hbusy, h⟩ := Option.map_eq_some_iff.1 h
    obtain ⟨rfl, rfl⟩ := Prod.mk.injEq .. ▸ h
    exact .proceeded hbusy
  | tick now =>
    rw [step] at h
    split at h
    · cases h
      exact .ticked ‹_›
    · cases h
  | signal s io =>
    cases h
    exact .signalled
  | setPongData data =>
    cases h
    exact .advertised

theorem step_networkId (h : lan.step b op = some (out, lan')) : lan'.networkId = lan.networkId := by
  cases step_cases h with
  | proceeded hbusy => exact (finishPacket_same b _ _).1
  | _ => rfl

/-- All that a tick sends are discovery requests. -/
theorem mem_requests {o : LanOutput}
    (h : o ∈ lan.broadcastAddr.toList.flatMap fun addr => sent (sendRequest b lan.networkId addr)) :
    ∃ data addr, o = .sendTo data addr ∧ marshal b .request lan.networkId = .ok data := by
  obtain ⟨addr, -, ho⟩ := List.mem_flatMap.1 h
  unfold sendRequest at ho
  cases hrequest : marshal b .request lan.networkId with
  | error e =>
    rw [hrequest] at ho
    cases ho
  | ok data =>
    rw [hrequest] at ho
    exact ⟨data, addr, List.mem_singleton.1 ho, rfl⟩

/-- What one step does to an entry of the table. -/
theorem addresses_step (h : lan.step b op = some (out, lan')) (id : UInt64) (e : AddressEntry) :
    lan'.addresses.lookup id = some e ↔
      heard b lan.networkId op = some (id, e) ∨ lan.addresses.lookup id = some e ∧ Keeps b lan.networkId id e op := by
  -- a step that hears nobody and does not tick keeps every entry
  have hquiet : (∀ e', heard b lan.networkId op ≠ some (id, e')) → (∀ now, op ≠ .tick now) →
      (lan.addresses.lookup id = some e ↔ heard b lan.networkId op = some (id, e) ∨
        lan.addresses.lookup id = some e ∧ Keeps b lan.networkId id e op) := by
    intro hdeaf htick
    rw [or_iff_right (hdeaf e), and_iff_left ⟨hdeaf, fun now hop => absurd hop (htick now)⟩]
  cases step_cases h with
  | ignored hidle hdeaf => exact hquiet (by rw [hdeaf]; nofun) nofun
  | @taken data addr now packet senderId hidle hdata hother =>
    have hheard : heard b lan.networkId (.receive data addr now) = some (senderId, ⟨addr, now⟩) := by
      rw [heard, hdata]
      exact if_neg hother
    by_cases hid : id = senderId
    · subst hid
      dsimp only
      rw [AList.lookup_insert, hheard, Option.some.injEq, Option.some.injEq, Prod.mk.injEq, or_iff_left]
      · simp
      · rintro ⟨-, hkeeps, -⟩
        exact hkeeps _ hheard
    · dsimp only
      rw [AList.lookup_insert_ne hid]
      refine hquiet ?_ nofun
      rw [hheard]
      rintro e' ⟨⟩
      exact hid rfl
  | proceeded hbusy =>
    rw [(finishPacket_same b _ _).2.1]
    exact hquiet nofun nofun
  | @ticked now hidle =>
    show (lan.addresses.retain _).lookup id = some e ↔ _
    rw [HashMap.lookup_retain, Option.filter_eq_some_iff, decide_eq_true_iff, or_iff_right (by nofun)]
    refine and_congr_right fun _ => ⟨fun htime => ⟨nofun, ?_⟩, fun hkeeps => hkeeps.2 now rfl⟩
    rintro _ ⟨⟩
    exact htime
  | signalled => exact hquiet nofun nofun
  | advertised => exact hquiet nofun nofun

/-- In every run, the table holds the last packet of each sender that no clean-up found too old, and nothing else. -/
theorem addresses_iff {own : UInt64} {broadcastAddr : Option SocketAddr} {ops : List LanOp}
    (h : after b (new own broadcastAddr) ops = some lan) (id : UInt64) (e : AddressEntry) :
    lan.addresses.lookup id = some e ↔ LastHeard b own id e ops := by
  have hinv := Machine.run_advance_inv_history
    (P := fun done (s : LanSignaling) => s.networkId = own ∧ ∀ id e, s.addresses.lookup id = some e ↔
      LastHeard b own id e done)
    (fun done s op s' hs hop => ?_) ops [] (s := new own broadcastAddr) ⟨rfl, fun id e => ?_⟩ h
  · rw [List.nil_append] at hinv
    exact hinv.2 id e
  · obtain ⟨⟨out, s''⟩, hstep, rfl⟩ := Option.map_eq_some_iff.1 hop
    refine ⟨(step_networkId hstep).trans hs.1, fun id e => ?_⟩
    rw [addresses_step hstep, hs.1, hs.2]
    exact (Machine.since_concat (P := fun op => heard b own op = some (id, e))).symm
  · exact iff_of_false nofun Machine.not_since_nil

theorem signal_eq_ok_iff {s : Signal} {io : Except NethernetError Unit} {o : LanOutput} : lan.signal b s io = .ok o ↔
    ∃ id entry data, parseU64 s.networkId = .ok id ∧ lan.addresses.lookup id = some entry ∧
      marshal b (.message id (toString s)) lan.networkId = .ok data ∧ io = .ok () ∧ o = .sendTo data entry.addr := by
  unfold signal
  constructor
  · intro h
    cases hid : parseU64 s.networkId with
    | error e =>
      rw [hid] at h
      cases h
    | ok id =>
      rw [hid] at h
      cases hentry : lan.addresses.lookup id with
      | none =>
        simp only [Except.mapError, bind, Except.bind, hentry] at h
        cases h
      | some entry =>
        simp only [Except.mapError, bind, Except.bind, hentry] at h
        cases hdata : marshal b (.message id (toString s)) lan.networkId with
        | error e =>
          rw [hdata] at h
          cases h
        | ok data =>
          rw [hdata] at h
          cases io with
          | error e => cases h
          | ok _ =>
            cases h
            exact ⟨id, entry, data, rfl, hentry, hdata, rfl, rfl⟩
  · rintro ⟨id, entry, data, hid, hentry, hdata, rfl, rfl⟩
    simp only [hid, Except.mapError, bind, Except.bind, hentry, hdata]
    rfl

/-- The texts that fit into a packet. -/
theorem message_fits_iff (hb : b.Lawful) (id senderId : UInt64) (text : String) :
    (∃ data, marshal b (.message id text) senderId = .ok data) ↔ (Packet.asBytes text).length ≤ 65503 := by
  have herror := marshal_error_iff hb (.message id text) senderId
  have hlen : (Packet.message id text).bodyLen = 8 + 4 + (Packet.asBytes text).length := rfl
  rw [hlen] at herror
  cases hdata : marshal b (.message id text) senderId with
  | error e =>
    have := herror.1 ⟨e, hdata⟩
    exact iff_of_false (by rintro ⟨data, ⟨⟩⟩) (by omega)
  | ok data =>
    refine iff_of_true ⟨data, rfl⟩ ?_
    by_contra hlong
    obtain ⟨e, he⟩ := herror.2 (by omega)
    rw [hdata] at he
    cases he

/-- In every run, the address of a network id is the one its last packet came from, unless a clean-up found that
too old; and a signal goes out exactly when its network id has an address, its text fits into a packet and the
socket takes the datagram, to that address. -/
theorem addresses_follow_history (hb : b.Lawful) {own : UInt64} {broadcastAddr : Option SocketAddr} {ops : List LanOp}
    (h : after b (new own broadcastAddr) ops = some lan) :
    (∀ id addr, lan.getAddress id = some addr ↔ ∃ lastSeen, LastHeard b own id ⟨addr, lastSeen⟩ ops) ∧
    ∀ (s : Signal) io addr, (∃ bytes, lan.signal b s io = .ok (.sendTo bytes addr)) ↔
      io = .ok () ∧ (Packet.asBytes (toString s)).length ≤ 65503 ∧
        ∃ id, parseU64 s.networkId = .ok id ∧ ∃ lastSeen, LastHeard b own id ⟨addr, lastSeen⟩ ops := by
  constructor
  · intro id addr
    unfold getAddress
    rw [Option.map_eq_some_iff]
    constructor
    · rintro ⟨⟨_, lastSeen⟩, hentry, rfl⟩
      exact ⟨lastSeen, (addresses_iff h id _).1 hentry⟩
    · rintro ⟨lastSeen, hlast⟩
      exact ⟨_, (addresses_iff h id _).2 hlast, rfl⟩
  · intro s io addr
    constructor
    · rintro ⟨bytes, hsignal⟩
      obtain ⟨id, ⟨_, lastSeen⟩, data, hid, hentry, hdata, hio, hout⟩ := signal_eq_ok_iff.1 hsignal
      cases hout
      exact ⟨hio, (message_fits_iff hb id _ _).1 ⟨_, hdata⟩, id, hid, lastSeen, (addresses_iff h id _).1 hentry⟩
    · rintro ⟨hio, hfits, id, hid, lastSeen, hlast⟩
      obtain ⟨data, hdata⟩ := (message_fits_iff hb id lan.networkId _).2 hfits
      exact ⟨data, signal_eq_ok_iff.2 ⟨id, _, data, hid, (addresses_iff h id _).2 hlast, hdata, hio, rfl⟩⟩

end Addresses

/-- Node 2 hears node 1, which moves to another address, and cleans up in time. -/
def movedRun : List LanOp :=
  [.receive Recorded.request.bytes .loopbackV4 0, .proceed, .receive Recorded.request.bytes .loopbackV6 7, .proceed,
    .tick (Duration.fromSecs 15)]

/-- An answer to node 1 goes to the new address, if the socket takes it. -/
theorem addresses_follow_history_moved : ∃ lan, after recordedBackend (new 2 none) movedRun = some lan ∧
    (∃ lastSeen, LastHeard recordedBackend 2 1 ⟨.loopbackV6, lastSeen⟩ movedRun) ∧
    (∃ bytes, lan.signal recordedBackend (Signal.offer 7 "v=0" "1") (.ok ()) = .ok (.sendTo bytes .loopbackV6)) ∧
    ∀ e addr, ¬ ∃ bytes, lan.signal recordedBackend (Signal.offer 7 "v=0" "1") (.error e) =
      .ok (.sendTo bytes addr) := by
  have hrun : ((after recordedBackend (new 2 none) movedRun).bind fun lan => lan.getAddress 1) = some .loopbackV6 := by
    decide +kernel
  obtain ⟨lan, h, haddr⟩ := Option.bind_eq_some_iff.1 hrun
  obtain ⟨haddress, hsignal⟩ := addresses_follow_history recordedBackend_lawful h
  have hlast := (haddress 1 _).1 haddr
  refine ⟨lan, h, hlast, (hsignal _ _ _).2 ⟨rfl, by decide +kernel, 1, by decide +kernel, hlast⟩,
    fun e addr hsent => ?_⟩
  cases ((hsignal _ _ _).1 hsent).1

/-! ## One hop -/

/-- A text that `signal` sent is parsed back, under the name of its sender. -/
theorem fromString_sent (s : Signal) (networkId : String) :
    Signal.fromString (toString s) networkId = .ok { s with networkId } :=
  Signal.fromString_toString { s with networkId }

/-- No signal is taken for a keep-alive. -/
theorem toString_ne_pingToken (s : Signal) : toString s ≠ pingToken := by
  intro h
  have hping := fromString_sent s ""
  rw [h] at hping
  cases hping

/-- A signal that goes out gets through in one piece exactly when its text has at most 4031 bytes. Then the node
it is for, and no other, hands it out under the name of its sender, and every node that hears it can answer. -/
theorem signal_handled {b : Backend} (hb : b.Lawful) {lan lan' : LanSignaling} {s : Signal} {bytes : Bytes}
    {addr : SocketAddr} {io : Except NethernetError Unit} (hsignal : lan.signal b s io = .ok (.sendTo bytes addr))
    (hidle : lan'.handling = none) (src : SocketAddr) (now : Instant) :
    (handlePacket b lan' (bytes.take receiveBuffer) src now).1 =
      (if (Packet.asBytes (toString s)).length ≤ 4031 ∧ lan'.networkId ≠ lan.networkId ∧
      parseU64 s.networkId = .ok lan'.networkId
        then [.signal { s with networkId := toString lan.networkId }] else []) ∧
    ((Packet.asBytes (toString s)).length ≤ 4031 → lan'.networkId ≠ lan.networkId →
      (handlePacket b lan' (bytes.take receiveBuffer) src now).2.getAddress lan.networkId = some src) := by
  obtain ⟨id, entry, data, hid, -, hdata, -, hout⟩ := signal_eq_ok_iff.1 hsignal
  cases hout
  have hlen := length_marshal hb hdata
  have hbody : (Packet.message id (toString s)).bodyLen = 8 + 4 + (Packet.asBytes (toString s)).length := rfl
  have hfits : bytes.length ≤ receiveBuffer ↔ (Packet.asBytes (toString s)).length ≤ 4031 := by
    unfold receiveBuffer
    omega
  by_cases hshort : (Packet.asBytes (toString s)).length ≤ 4031
  · rw [List.take_of_length_le (hfits.2 hshort), handlePacket, receivePacket, unmarshal_whole hb hdata]
    dsimp only
    by_cases hown : lan.networkId = lan'.networkId
    · rw [if_pos hown, if_neg (fun h => h.2.1 hown.symm), hidle]
      exact ⟨rfl, fun _ hne => absurd hown.symm hne⟩
    · rw [if_neg hown]
      refine ⟨?_, fun _ _ => ?_⟩
      · unfold finishPacket
        dsimp only
        rw [if_neg (toString_ne_pingToken s)]
        by_cases hrecipient : id = lan'.networkId
        · rw [if_pos hrecipient, fromString_sent, if_pos ⟨hshort, Ne.symm hown, hrecipient ▸ hid⟩]
        · rw [if_neg hrecipient, if_neg]
          rintro ⟨-, -, hparse⟩
          rw [hid] at hparse
          cases hparse
          exact hrecipient rfl
      · dsimp only
        rw [getAddress, (finishPacket_same b _ _).2.1]
        dsimp only
        rw [AList.lookup_insert]
        rfl
  · obtain ⟨e, he⟩ := unmarshal_cut hb hdata (n := receiveBuffer) (by omega)
    rw [handlePacket, receivePacket, he]
    dsimp only
    rw [hidle, if_neg (fun h => hshort h.1)]
    exact ⟨rfl, fun h => absurd h hshort⟩

theorem signal_handled_offer :
    (handlePacket recordedBackend (new 2 none) Recorded.request.bytes .loopbackV4 0).2.signal recordedBackend
      (Signal.offer 7 "v=0" "1") (.ok ()) = .ok (.sendTo Recorded.offer.bytes .loopbackV4) ∧
    (handlePacket recordedBackend (new 1 none) (Recorded.offer.bytes.take receiveBuffer) .loopbackV6 1).1 =
      [.signal (Signal.offer 7 "v=0" "2")] := by
  have hsignal :
    (handlePacket recordedBackend (new 2 none) Recorded.request.bytes .loopbackV4 0).2.signal recordedBackend
      (Signal.offer 7 "v=0" "1") (.ok ()) = .ok (.sendTo Recorded.offer.bytes .loopbackV4) :=
    signal_eq_ok_iff.2
      ⟨1, ⟨.loopbackV4, 0⟩, Recorded.offer.bytes, by decide +kernel, by decide +kernel, by decide +kernel, rfl, rfl⟩
  have hidle : (new 1 none).handling = none := rfl
  refine ⟨hsignal, ?_⟩
  rw [(signal_handled recordedBackend_lawful hsignal hidle .loopbackV6 1).1]
  decide +kernel

end LanSignaling

end BedrockRs.Nethernet

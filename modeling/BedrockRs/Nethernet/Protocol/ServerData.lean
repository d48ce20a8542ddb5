/-
The world that a LAN server advertises (`protocol/packet/discovery/server_data.rs`) and the two places of
`signaling/lan.rs` it passes through: `set_pong_data` keeps what it can unmarshal, and a discovery request
is answered with that, marshalled again. Three fields are shifted by one bit on the wire, two names carry
their length in one byte; everything that marshals is read back, and everything that was read marshals.
-/
import BedrockRs.Nethernet.Protocol.DiscoveryRoundTrip

namespace BedrockRs.Nethernet

open Lib BedrockRs.Lib.Codec

/-! ## Primitives -/

def readU8 : Get UInt8 := (fun buf => buf.headD 0) <$> readExact 1

def writeU8 (value : UInt8) : Bytes := [value]

def readI32Le : Get Int32 := (fun buf => (UInt32.ofNat (fromLeBytes buf)).toInt32) <$> readExact 4

def writeI32Le (value : Int32) : Bytes := toLeBytes 4 value.toUInt32.toNat

def readBytesU8 : Get Bytes := readBytes (UInt8.toNat <$> readU8)

def writeBytesU8 (data : Bytes) : Except NethernetError Bytes :=
  writeBytes 8 (fun len => writeU8 (UInt8.ofNat len)) data

/-! ## The structure -/

/-- `VERSION`, the version of the layout. -/
def serverDataVersion : UInt8 := 4

structure ServerData where
  serverName : String
  levelName : String
  gameType : UInt8
  playerCount : Int32
  maxPlayerCount : Int32
  editorWorld : Bool
  hardcore : Bool
  transportLayer : UInt8
  connectionType : UInt8
deriving DecidableEq

namespace ServerData

/-- A world of one player of eight, over NetherNet in a LAN. -/
def new (serverName levelName : String) : ServerData where
  serverName := serverName
  levelName := levelName
  gameType := 0
  playerCount := 1
  maxPlayerCount := 8
  editorWorld := false
  hardcore := false
  transportLayer := 2
  connectionType := 4

/-- The fields that are shifted must leave their top bit unused. -/
def validate (d : ServerData) : Except NethernetError Unit :=
  if 128 ≤ d.gameType then .error (.other s!"game_type must be less than 128 to avoid overflow, got {d.gameType}")
  else if 128 ≤ d.transportLayer then
    .error (.other s!"transport_layer must be less than 128 to avoid overflow, got {d.transportLayer}")
  else if 128 ≤ d.connectionType then
    .error (.other s!"connection_type must be less than 128 to avoid overflow, got {d.connectionType}")
  else .ok ()

def marshal (d : ServerData) : Except NethernetError Bytes := do
  d.validate
  let serverName ← writeBytesU8 (Packet.asBytes d.serverName)
  let levelName ← writeBytesU8 (Packet.asBytes d.levelName)
  return writeU8 serverDataVersion ++ serverName ++ levelName ++ writeU8 (d.gameType <<< 1) ++
    writeI32Le d.playerCount ++ writeI32Le d.maxPlayerCount ++ writeU8 (if d.editorWorld then 1 else 0) ++
    writeU8 (if d.hardcore then 1 else 0) ++ writeU8 (d.transportLayer <<< 1) ++ writeU8 (d.connectionType <<< 1)

/-- A name, read as bytes and checked to be UTF-8. -/
def readName (b : Backend) (what : String) : Get String := do
  let bytes ← readBytesU8
  match Packet.fromUtf8 bytes with
  | some name => return name
  | none => throw (.other s!"invalid {what} UTF-8: {b.utf8Error bytes}")

/-- What `unmarshal` reads before it looks for a rest. -/
def read (b : Backend) : Get ServerData := do
  let version ← readU8
  if version ≠ serverDataVersion then
    throw (.other s!"version mismatch: got {version}, want {serverDataVersion}")
  let serverName ← readName b "server name"
  let levelName ← readName b "level name"
  let gameType ← readU8
  let playerCount ← readI32Le
  let maxPlayerCount ← readI32Le
  let editorWorld ← readU8
  let hardcore ← readU8
  let transportLayer ← readU8
  let connectionType ← readU8
  return ⟨serverName, levelName, gameType >>> 1, playerCount, maxPlayerCount, editorWorld ≠ 0, hardcore ≠ 0,
    transportLayer >>> 1, connectionType >>> 1⟩

def unmarshal (b : Backend) (data : Bytes) : Except NethernetError ServerData := do
  let (d, rest) ← read b data
  if rest ≠ [] then .error (.other s!"unread {rest.length} bytes") else .ok d

end ServerData

/-! ## Advertising -/

/-- `set_pong_data`: the data that is advertised from now on. -/
def setPongData (b : Backend) (data : Bytes) : Option ServerData := (ServerData.unmarshal b data).toOption

/-- The answer of `handle_packet` to a request: a response, if there is something to advertise. -/
def answerRequest (b : Backend) (serverData : Option ServerData) (ownNetworkId : UInt64) :
    Except NethernetError (Option Bytes) :=
  match serverData with
  | some data => do
    let appData ← data.marshal
    let responseData ← marshal b (.response appData) ownNetworkId
    return some responseData
  | none => .ok none

/-- What `handle_packet` enters into the discovered servers: under its sender, the data of a response. -/
def discoveredServer (b : Backend) (ownNetworkId : UInt64) (data : Bytes) : Option (UInt64 × ServerData) :=
  match unmarshal b data with
  | .ok (.response applicationData, senderId) =>
    if senderId = ownNetworkId then none
    else (ServerData.unmarshal b applicationData).toOption.map fun serverInfo => (senderId, serverInfo)
  | _ => none

/-! ## Reading back -/

theorem reads_u8 (v : UInt8) : Reads readU8 (writeU8 v) v := fun _ => rfl

theorem reads_i32le (v : Int32) : Reads readI32Le (writeI32Le v) v := by
  have := reads_le 4 (fun n => (UInt32.ofNat n).toInt32) v.toUInt32.toNat_lt
  rwa [UInt32.ofNat_toNat] at this

/-- Bytes behind their own length in one byte are read back. -/
theorem reads_readBytesU8 {data : Bytes} (h : data.length ≤ 255) :
    Reads readBytesU8 (writeU8 (UInt8.ofNat data.length) ++ data) data := by
  have hlen : (UInt8.ofNat data.length).toNat = data.length := by
    rw [UInt8.toNat_ofNat']
    omega
  refine ((reads_u8 _).map UInt8.toNat).bind fun rest => ?_
  rw [hlen]
  show (if maxBytes < data.length then _ else readExact data.length : Get Bytes) (data ++ rest) = _
  rw [if_neg (by unfold maxBytes; omega)]
  exact reads_readExact data rest

theorem writeBytesU8_eq {data : Bytes} (h : data.length ≤ 255) :
    writeBytesU8 data = .ok (writeU8 (UInt8.ofNat data.length) ++ data) := by
  rw [writeBytesU8, writeBytes, if_neg (by unfold maxBytes; omega), if_neg (by omega)]

theorem writeBytesU8_ok_iff {data : Bytes} : (∃ bytes, writeBytesU8 data = .ok bytes) ↔ data.length ≤ 255 := by
  constructor
  · rintro ⟨bytes, h⟩
    rw [writeBytesU8, writeBytes] at h
    split_ifs at h with hmax hlen
    omega
  · intro h
    exact ⟨_, writeBytesU8_eq h⟩

/-- A length of one byte bounds what is read behind it. -/
theorem length_readBytesU8 {src rest data : Bytes} (h : readBytesU8 src = .ok (data, rest)) : data.length ≤ 255 := by
  obtain ⟨length, mid, hlength, h⟩ := bind_ok.1 h
  obtain ⟨v, -, rfl⟩ := map_ok.1 hlength
  have hv := v.toNat_lt
  rw [if_neg (by unfold maxBytes; omega)] at h
  have hread : readExact v.toNat mid = .ok (data, rest) := h
  unfold readExact at hread
  split_ifs at hread
  cases hread
  rw [List.length_take]
  omega

/-- Bytes that are UTF-8 are the bytes of the string they spell. -/
theorem asBytes_of_fromUtf8 {bytes : Bytes} {s : String} (h : Packet.fromUtf8 bytes = some s) :
    Packet.asBytes s = bytes := by
  unfold Packet.fromUtf8 String.fromUTF8? at h
  split_ifs at h
  cases h
  rfl

namespace ServerData

/-- What can be marshalled: no top bit in the shifted fields, names whose length fits in a byte. -/
structure Encodable (d : ServerData) : Prop where
  gameType : d.gameType < 128
  transportLayer : d.transportLayer < 128
  connectionType : d.connectionType < 128
  serverName : (Packet.asBytes d.serverName).length ≤ 255
  levelName : (Packet.asBytes d.levelName).length ≤ 255

/-- The defaults of `new` fit under any two names that do. -/
theorem encodable_new {serverName levelName : String} (hserver : (Packet.asBytes serverName).length ≤ 255)
    (hlevel : (Packet.asBytes levelName).length ≤ 255) : (new serverName levelName).Encodable where
  gameType := show (0 : UInt8) < 128 by decide
  transportLayer := show (2 : UInt8) < 128 by decide
  connectionType := show (4 : UInt8) < 128 by decide
  serverName := hserver
  levelName := hlevel

theorem validate_ok_iff {d : ServerData} :
    d.validate = .ok () ↔ d.gameType < 128 ∧ d.transportLayer < 128 ∧ d.connectionType < 128 := by
  unfold validate
  simp only [UInt8.le_iff_toNat_le, UInt8.lt_iff_toNat_lt, UInt8.reduceToNat]
  split_ifs
  · simp; omega
  · simp; omega
  · simp; omega
  · simp; omega

theorem bind_eq_ok {α β : Type} {x : Except NethernetError α} {f : α → Except NethernetError β} {b : β}
    (h : x >>= f = .ok b) : ∃ a, x = .ok a ∧ f a = .ok b := by
  cases x with
  | error e => cases h
  | ok a => exact ⟨a, rfl, h⟩

/-- The bytes of a server's data, when its names fit. -/
def bytes (d : ServerData) : Bytes :=
  writeU8 serverDataVersion ++
    (writeU8 (UInt8.ofNat (Packet.asBytes d.serverName).length) ++ Packet.asBytes d.serverName) ++
    (writeU8 (UInt8.ofNat (Packet.asBytes d.levelName).length) ++ Packet.asBytes d.levelName) ++
    writeU8 (d.gameType <<< 1) ++ writeI32Le d.playerCount ++ writeI32Le d.maxPlayerCount ++
    writeU8 (if d.editorWorld then 1 else 0) ++ writeU8 (if d.hardcore then 1 else 0) ++
    writeU8 (d.transportLayer <<< 1) ++ writeU8 (d.connectionType <<< 1)

theorem Encodable.marshal_eq {d : ServerData} (h : d.Encodable) : d.marshal = .ok d.bytes := by
  have hvalid := validate_ok_iff.2 ⟨h.gameType, h.transportLayer, h.connectionType⟩
  unfold marshal
  rw [hvalid, writeBytesU8_eq h.serverName, writeBytesU8_eq h.levelName]
  rfl

theorem encodable_of_marshal {d : ServerData} {bytes : Bytes} (h : d.marshal = .ok bytes) : d.Encodable := by
  obtain ⟨_, hvalid, h⟩ := bind_eq_ok h
  obtain ⟨server, hserver, h⟩ := bind_eq_ok h
  obtain ⟨level, hlevel, -⟩ := bind_eq_ok h
  obtain ⟨hgame, htransport, hconnection⟩ := validate_ok_iff.1 hvalid
  exact ⟨hgame, htransport, hconnection, writeBytesU8_ok_iff.1 ⟨server, hserver⟩, writeBytesU8_ok_iff.1 ⟨level, hlevel⟩⟩

theorem marshal_ok_iff {d : ServerData} : (∃ bytes, d.marshal = .ok bytes) ↔ d.Encodable := by
  constructor
  · rintro ⟨bytes, h⟩
    exact encodable_of_marshal h
  · intro h
    exact ⟨_, h.marshal_eq⟩

theorem reads_name (b : Backend) (what : String) {name : String} (h : (Packet.asBytes name).length ≤ 255) :
    Reads (readName b what) (writeU8 (UInt8.ofNat (Packet.asBytes name).length) ++ Packet.asBytes name) name := by
  rw [← List.append_nil (_ ++ Packet.asBytes name)]
  apply (reads_readBytesU8 h).bind
  rw [fromUtf8_asBytes]
  exact .pure _

/-- A field whose top bit is unused is the shifted byte, shifted back. -/
theorem shift_back {v : UInt8} (h : v < 128) : v <<< 1 >>> 1 = v := by
  have hv := UInt8.lt_iff_toNat_lt.1 h
  simp only [UInt8.reduceToNat] at hv
  apply UInt8.toNat_inj.1
  simp only [UInt8.toNat_shiftRight, UInt8.toNat_shiftLeft, UInt8.reduceToNat, Nat.reduceMod, Nat.shiftLeft_eq,
    Nat.shiftRight_eq_div_pow]
  omega

theorem flag_back (flag : Bool) : decide ((if flag then 1 else 0 : UInt8) ≠ 0) = flag := by
  cases flag <;> rfl

theorem Encodable.reads {d : ServerData} (h : d.Encodable) (b : Backend) : Reads (read b) d.bytes d := by
  have hfields : Reads (read b) (writeU8 serverDataVersion ++
      ((writeU8 (UInt8.ofNat (Packet.asBytes d.serverName).length) ++ Packet.asBytes d.serverName) ++
      ((writeU8 (UInt8.ofNat (Packet.asBytes d.levelName).length) ++ Packet.asBytes d.levelName) ++
      (writeU8 (d.gameType <<< 1) ++ (writeI32Le d.playerCount ++ (writeI32Le d.maxPlayerCount ++
      (writeU8 (if d.editorWorld then 1 else 0) ++ (writeU8 (if d.hardcore then 1 else 0) ++
      (writeU8 (d.transportLayer <<< 1) ++ (writeU8 (d.connectionType <<< 1) ++ [])))))))))) d := by
    apply (reads_u8 _).bind
    rw [if_neg (not_not_intro rfl)]
    refine (reads_name b _ h.serverName).bind <| (reads_name b _ h.levelName).bind <| (reads_u8 _).bind <|
      (reads_i32le _).bind <| (reads_i32le _).bind <| (reads_u8 _).bind <| (reads_u8 _).bind <| (reads_u8 _).bind <|
      (reads_u8 _).bind ?_
    rw [shift_back h.gameType, shift_back h.transportLayer, shift_back h.connectionType, flag_back, flag_back]
    exact .pure d
  simpa only [bytes, List.append_assoc, List.append_nil] using hfields

/-- What marshals is read back. -/
theorem unmarshal_of_marshal (b : Backend) {d : ServerData} {bytes : Bytes} (h : d.marshal = .ok bytes) :
    unmarshal b bytes = .ok d := by
  have hd := encodable_of_marshal h
  rw [hd.marshal_eq] at h
  cases h
  unfold unmarshal
  rw [(hd.reads b).all]
  rfl

theorem shift_lt (v : UInt8) : v >>> 1 < 128 := by
  have hv := v.toNat_lt
  rw [UInt8.lt_iff_toNat_lt]
  simp only [UInt8.toNat_shiftRight, UInt8.reduceToNat, Nat.reduceMod, Nat.shiftRight_eq_div_pow]
  omega

theorem length_name {b : Backend} {what : String} {src rest : Bytes} {name : String}
    (h : readName b what src = .ok (name, rest)) : (Packet.asBytes name).length ≤ 255 := by
  obtain ⟨bytes, mid, hbytes, h⟩ := bind_ok.1 h
  cases hname : Packet.fromUtf8 bytes with
  | none =>
    rw [hname] at h
    cases h
  | some name' =>
    rw [hname] at h
    obtain ⟨rfl, -⟩ := pure_ok.1 h
    rw [asBytes_of_fromUtf8 hname]
    exact length_readBytesU8 hbytes

/-- What is accepted from the wire can be marshalled again. -/
theorem encodable_of_unmarshal {b : Backend} {data : Bytes} {d : ServerData} (h : unmarshal b data = .ok d) :
    d.Encodable := by
  obtain ⟨⟨d', rest⟩, hread, h⟩ := bind_eq_ok h
  obtain rfl : d' = d := by
    dsimp only at h
    split_ifs at h
    cases h
    rfl
  obtain ⟨version, _, -, h⟩ := bind_ok.1 hread
  by_cases hversion : version ≠ serverDataVersion
  · rw [if_pos hversion] at h
    cases h
  rw [if_neg hversion] at h
  obtain ⟨server, _, hserver, h⟩ := bind_ok.1 h
  obtain ⟨level, _, hlevel, h⟩ := bind_ok.1 h
  obtain ⟨gameType, _, -, h⟩ := bind_ok.1 h
  obtain ⟨_, _, -, h⟩ := bind_ok.1 h
  obtain ⟨_, _, -, h⟩ := bind_ok.1 h
  obtain ⟨_, _, -, h⟩ := bind_ok.1 h
  obtain ⟨_, _, -, h⟩ := bind_ok.1 h
  obtain ⟨transportLayer, _, -, h⟩ := bind_ok.1 h
  obtain ⟨connectionType, _, -, h⟩ := bind_ok.1 h
  obtain ⟨rfl, -⟩ := pure_ok.1 h
  exact ⟨shift_lt gameType, shift_lt transportLayer, shift_lt connectionType, length_name hserver, length_name hlevel⟩

theorem length_bytes {d : ServerData} (h : d.Encodable) : d.bytes.length ≤ 526 := by
  have hserver := h.serverName
  have hlevel := h.levelName
  simp only [bytes, List.length_append, writeU8, List.length_cons, List.length_nil, writeI32Le, length_toLeBytes]
  omega

end ServerData

/-- A response to a request carries the advertised data to everyone but its sender. -/
theorem discoveredServer_answer {b : Backend} (h : b.Lawful) {d : ServerData} (hd : d.Encodable) {own peer : UInt64}
    (hne : own ≠ peer) :
    ∃ response, answerRequest b (some d) own = .ok (some response) ∧
      discoveredServer b peer response = some (own, d) := by
  obtain ⟨hback, hfails⟩ := unmarshal_marshal b h (.response d.bytes) own
  have hlen := d.length_bytes hd
  cases hresponse : marshal b (.response d.bytes) own with
  | error e =>
    have hlong : 65535 < 2 + 18 + (4 + 2 * d.bytes.length) := hfails.1 ⟨e, hresponse⟩
    omega
  | ok response =>
    refine ⟨response, ?_, ?_⟩
    · show (d.marshal >>= fun appData => marshal b (.response appData) own >>= fun responseData =>
        pure (some responseData)) = _
      rw [hd.marshal_eq]
      show (marshal b (.response d.bytes) own >>= fun responseData => pure (some responseData)) = _
      rw [hresponse]
      rfl
    · unfold discoveredServer
      rw [hback response hresponse]
      dsimp only
      rw [if_neg hne, ServerData.unmarshal_of_marshal b hd.marshal_eq]
      rfl

/-- `marshal` succeeds exactly on what fits the layout, and `unmarshal` inverts it; what `unmarshal` accepts
can be marshalled to the same data again. So the data that `set_pong_data` keeps is what the answer to
every request carries. -/
theorem serverData_roundTrip (b : Backend) :
    (∀ d : ServerData, (∃ bytes, d.marshal = .ok bytes) ↔
      d.gameType < 128 ∧ d.transportLayer < 128 ∧ d.connectionType < 128 ∧
        (Packet.asBytes d.serverName).length ≤ 255 ∧ (Packet.asBytes d.levelName).length ≤ 255) ∧
    (∀ (d : ServerData) bytes, d.marshal = .ok bytes → ServerData.unmarshal b bytes = .ok d) ∧
    (∀ data d, ServerData.unmarshal b data = .ok d →
      ∃ bytes, d.marshal = .ok bytes ∧ ServerData.unmarshal b bytes = .ok d) ∧
    (b.Lawful → ∀ data d own peer, setPongData b data = some d → own ≠ peer →
      ∃ response, answerRequest b (setPongData b data) own = .ok (some response) ∧
        discoveredServer b peer response = some (own, d)) := by
  refine ⟨fun d => ?_, fun d bytes => ServerData.unmarshal_of_marshal b, ?_, ?_⟩
  · rw [ServerData.marshal_ok_iff]
    constructor
    · rintro ⟨hgame, htransport, hconnection, hserver, hlevel⟩
      exact ⟨hgame, htransport, hconnection, hserver, hlevel⟩
    · rintro ⟨hgame, htransport, hconnection, hserver, hlevel⟩
      exact ⟨hgame, htransport, hconnection, hserver, hlevel⟩
  · intro data d h
    have hd := ServerData.encodable_of_unmarshal h
    exact ⟨d.bytes, hd.marshal_eq, ServerData.unmarshal_of_marshal b hd.marshal_eq⟩
  · intro h data d own peer hset hne
    have hdata : ServerData.unmarshal b data = .ok d := by
      unfold setPongData at hset
      cases hdata : ServerData.unmarshal b data with
      | error e =>
        rw [hdata] at hset
        cases hset
      | ok d' =>
        rw [hdata] at hset
        cases hset
        rfl
    rw [hset]
    exact discoveredServer_answer h (ServerData.encodable_of_unmarshal hdata) hne

/-- Node 2 advertises a world, and node 1 discovers it. -/
theorem serverData_roundTrip_recorded : ∃ data response, setPongData recordedBackend data = some (.new "S" "L") ∧
    answerRequest recordedBackend (setPongData recordedBackend data) 2 = .ok (some response) ∧
    discoveredServer recordedBackend 1 response = some (2, .new "S" "L") := by
  have hset : setPongData recordedBackend [4, 1, 83, 1, 76, 0, 1, 0, 0, 0, 8, 0, 0, 0, 0, 0, 4, 8] =
      some (.new "S" "L") := by
    decide +kernel
  obtain ⟨response, hanswer, hdiscovered⟩ :=
    (serverData_roundTrip recordedBackend).2.2.2 recordedBackend_lawful _ _ 2 1 hset (by decide)
  exact ⟨_, response, hset, hanswer, hdiscovered⟩

end BedrockRs.Nethernet

/-
From the packets that one session queues to those that another hands out. For a set `K` of packets, a
frame is genuine when what it decodes to is in `K`, alone or at the head of a split message. A session
that queues packets of `K` sends genuine frames only (`Sends`), and a session that gets genuine frames
hands out packets of `K` only (`Holds`), whichever of them are lost, repeated or reordered, and whichever
parts are put together.
-/
import BedrockRs.Raknet.Delivery.Ordered
import BedrockRs.Raknet.Protocol.Registry
import BedrockRs.Raknet.Session.Outgoing

namespace BedrockRs.Raknet

open Lib

/-! ## Payloads and frames -/

/-- What the payload decodes to, if it decodes, is in `K`. -/
def Decodes (K : RaknetPacket → Prop) (payload : Bytes) : Prop := ∀ pkt, Session.decodePayload payload = .ok pkt → K pkt

/-- The identifier in front says that the payload decodes to a packet in `K`, whatever follows. -/
def Opens (K : RaknetPacket → Prop) (payload : Bytes) : Prop :=
  ∃ id rest, payload = id :: rest ∧ ∀ pkt : RaknetPacket, pkt.id = id → K pkt

/-- A frame that is no source of a packet outside `K`. -/
structure EncapsulatedPacket.Genuine (K : RaknetPacket → Prop) (p : EncapsulatedPacket) : Prop where
  whole : p.header.isSplit = false → Decodes K p.payload
  first : ∀ split, p.split = some split → split.index = 0 → Opens K p.payload

section Mono

variable {K K' : RaknetPacket → Prop} (hK : ∀ pkt, K pkt → K' pkt)
include hK

theorem Decodes.mono {payload : Bytes} (h : Decodes K payload) : Decodes K' payload :=
  fun pkt hpkt => hK pkt (h pkt hpkt)

theorem Opens.mono {payload : Bytes} (h : Opens K payload) : Opens K' payload := by
  obtain ⟨id, rest, heq, hid⟩ := h
  exact ⟨id, rest, heq, fun pkt hpkt => hK pkt (hid pkt hpkt)⟩

theorem EncapsulatedPacket.Genuine.mono {p : EncapsulatedPacket} (h : p.Genuine K) : p.Genuine K' :=
  ⟨fun hwhole => (h.whole hwhole).mono hK, fun split hsplit hindex => (h.first split hsplit hindex).mono hK⟩

end Mono

theorem Opens.append {K : RaknetPacket → Prop} {payload : Bytes} (h : Opens K payload) (more : Bytes) :
    Opens K (payload ++ more) := by
  obtain ⟨id, rest, rfl, hid⟩ := h
  exact ⟨id, rest ++ more, rfl, hid⟩

/-- A payload decodes to a packet of the identifier in front. -/
theorem Session.decodePayload_id {id : UInt8} {rest : Bytes} {pkt : RaknetPacket}
    (h : Session.decodePayload (id :: rest) = .ok pkt) : pkt.id = id := by
  unfold Session.decodePayload at h
  cases hfrom : RaknetPacket.decodeFrom (id :: rest) with
  | ok pkt' =>
    rw [hfrom] at h
    cases h
    obtain ⟨tail, heq, -⟩ := RaknetPacket.decodeFrom_ok hfrom
    exact (List.cons.inj heq).1.symm
  | error e =>
    cases hbody : RaknetPacket.decodeBody id with
    | none =>
      rw [RaknetPacket.decodeFrom_userData hbody] at hfrom
      cases hfrom
    | some body =>
      -- a registered body does not fail with an unknown identifier
      rw [hfrom] at h
      rw [RaknetPacket.decodeFrom_registered hbody] at hfrom
      cases hb : body rest with
      | ok p =>
        rw [hb] at hfrom
        cases hfrom
      | error e' =>
        rw [hb] at hfrom
        cases hfrom
        have hknown := (RaknetPacket.decodeBody_isControl hbody).known rest e hb
        cases e <;> first | exact absurd rfl (hknown _) | cases h

theorem Opens.decodes {K : RaknetPacket → Prop} {payload : Bytes} (h : Opens K payload) : Decodes K payload := by
  rintro pkt hpkt
  obtain ⟨id, rest, rfl, hid⟩ := h
  exact hid pkt (Session.decodePayload_id hpkt)

/-! ## The sender -/

/-- The bytes of a packet. -/
def RaknetPacket.bytes (pkt : RaknetPacket) : Bytes := pkt.id :: pkt.encodeBody

/-- A packet that is sent whole at any MTU from 576 on. -/
def RaknetPacket.Small (pkt : RaknetPacket) : Prop := pkt.bytes.length ≤ 500

/-- A packet whose parts can be counted. -/
def RaknetPacket.Countable (pkt : RaknetPacket) : Prop := pkt.bytes.length < 2 ^ 32

/-- A packet that may be queued where only packets of `K` are to come out: it is sent whole and decodes to one,
or any packet of its identifier is one. -/
def RaknetPacket.Queueable (K : RaknetPacket → Prop) (pkt : RaknetPacket) : Prop :=
  pkt.Small ∧ Decodes K pkt.bytes ∨ pkt.Countable ∧ ∀ pkt' : RaknetPacket, pkt'.id = pkt.id → K pkt'

theorem RaknetPacket.Queueable.decodes {K : RaknetPacket → Prop} {pkt : RaknetPacket} (h : pkt.Queueable K) :
    Decodes K pkt.bytes := by
  rcases h with ⟨-, hdecodes⟩ | ⟨-, hid⟩
  · exact hdecodes
  · exact Opens.decodes ⟨pkt.id, pkt.encodeBody, rfl, hid⟩

namespace Session

variable {F : Type} [Float64 F]

omit [Float64 F] in
theorem small_le_maxLen {s : Session F} (hmtu : 576 ≤ s.mtu) {pkt : RaknetPacket} (hsmall : pkt.Small)
    (reliability : Reliability) : pkt.bytes.length ≤ max (s.maxEncapsulatedPayloadLen reliability false) 1 := by
  have hoverhead : encapsulatedHeaderOverhead reliability false + Datagram.ipv4HeaderSize + Datagram.udpHeaderSize +
      Datagram.raknetDatagramHeaderSize ≤ 76 := by
    cases reliability <;> decide
  unfold RaknetPacket.Small at hsmall
  unfold maxEncapsulatedPayloadLen
  omega

omit [Float64 F] in
/-- The frames of a queued message are genuine. -/
theorem message_genuine {K : RaknetPacket → Prop} {s : Session F} (hmtu : 576 ≤ s.mtu) {pkt : RaknetPacket}
    (hpkt : pkt.Queueable K) {reliability : Reliability} {channel : UInt8} {m : Message}
    (h : s.message pkt reliability channel = some m) : ∀ p ∈ m.frames, p.Genuine K := by
  unfold message at h
  split at h
  · cases h
  · dsimp only [RaknetPacket.encode] at h
    split at h
    · cases h
      rintro p hp
      obtain rfl := List.mem_singleton.1 hp
      refine ⟨fun _ => hpkt.decodes, ?_⟩
      rintro split ⟨⟩
    · rename_i hlong
      cases h
      obtain ⟨hsmall, -⟩ | ⟨hcount, hid⟩ := hpkt
      · exact absurd (small_le_maxLen hmtu hsmall reliability) hlong
      · rintro p hp
        obtain ⟨i, hi, rfl⟩ := List.mem_mapIdx.1 hp
        refine ⟨by rintro ⟨⟩, fun split hsplit hindex => ?_⟩
        cases hsplit
        -- the number of a part is not cut off, so the first part is the one at the front
        have hmax : 1 ≤ max (s.maxEncapsulatedPayloadLen (normalizeReliabilityForSplit reliability) true) 1 :=
          le_max_right _ _
        rw [length_chunks] at hi
        have hlt : i < 2 ^ 32 := by
          have hdiv := Nat.div_le_self ((pkt.id :: pkt.encodeBody).length - 1)
            (max (s.maxEncapsulatedPayloadLen (normalizeReliabilityForSplit reliability) true) 1)
          have hpos : 1 ≤ (pkt.id :: pkt.encodeBody).length := by simp
          have hcount : (pkt.id :: pkt.encodeBody).length < 2 ^ 32 := hcount
          omega
        have hzero : i = 0 := by
          have := congrArg UInt32.toNat hindex
          rwa [UInt32.toNat_ofNat_of_lt' hlt] at this
        subst hzero
        obtain ⟨n, hn⟩ := Nat.exists_eq_add_of_le' hmax
        refine ⟨pkt.id, pkt.encodeBody.take n, ?_, hid⟩
        simp only [Message.fragment, fragmentEncap, hn, chunks, List.getElem_cons_zero, List.take_succ_cons]

/-- Everything on its way out is genuine. -/
structure Sends (K : RaknetPacket → Prop) (s : Session F) : Prop where
  mtu : 576 ≤ s.mtu
  outgoing : Outgoing (EncapsulatedPacket.Genuine K) (fun d => ∀ p ∈ d.packets, p.Genuine K) s

/-- An operation that queues only what may come out. -/
def Says (K : RaknetPacket → Prop) : Op → Prop
  | .queuePacket pkt _ _ _ => pkt.Queueable K
  | _ => True

namespace Sends

variable {K K' : RaknetPacket → Prop} {s : Session F}

theorem new {mtu : Nat} (hmtu : 576 ≤ mtu) (tunables : SessionTunables) :
    Sends K (withTunables mtu tunables : Session F) :=
  ⟨hmtu, .new mtu tunables⟩

omit [Float64 F] in
theorem mono (hK : ∀ pkt, K pkt → K' pkt) (h : Sends K s) : Sends K' s :=
  ⟨h.mtu, fun p hp => (h.outgoing.queued p hp).mono hK, fun d hd p hp => (h.outgoing.tracked d hd p hp).mono hK⟩

theorem step (h : Sends K s) {op : Op} (hop : Says K op) : Sends K (s.step op) := by
  refine ⟨(s.step_cases op).fixed.1 ▸ h.mtu, h.outgoing.step op ?_ fun now o ho => h.outgoing.built ho⟩
  rintro pkt reliability channel priority rfl m hm
  exact message_genuine h.mtu hop hm

/-- What an operation puts out is genuine. -/
theorem emitted (h : Sends K s) {op : Op} {d : Datagram} (hd : d ∈ s.emitted op) : ∀ p ∈ d.packets, p.Genuine K := by
  cases op with
  | buildDataDatagram now =>
    obtain ⟨o, ho, rfl⟩ := List.mem_map.1 hd
    exact h.outgoing.built (Option.mem_toList.1 ho)
  | onTick now iter =>
    obtain ⟨o, ho, rfl⟩ := List.mem_map.1 hd
    rcases onTick_data ho with hcontrol | htracked
    · rw [Datagram.packets_of_not_isData hcontrol]
      simp
    · exact h.outgoing.tracked _ htracked
  | _ => cases hd

end Sends

end Session

/-! ## The receiver -/

namespace SplitAssembler

/-- A part at the front of a message says what the message decodes to. -/
def HoldsParts (K : RaknetPacket → Prop) (a : SplitAssembler) : Prop :=
  ∀ id entry, a.entries.lookup id = some entry → ∀ part, entry.parts[0]? = some (some part) → Opens K part

variable {K : RaknetPacket → Prop} {a : SplitAssembler}

theorem HoldsParts.new (ttl : Duration) (maxParts maxConcurrent : Nat) :
    HoldsParts K (SplitAssembler.new ttl maxParts maxConcurrent) := by
  rintro id entry h
  simp [SplitAssembler.new] at h

theorem HoldsParts.insert (h : a.HoldsParts K) {id : UInt16} {entry : SplitEntry}
    (hentry : ∀ part, entry.parts[0]? = some (some part) → Opens K part) :
    HoldsParts K { a with entries := a.entries.insert id entry } :=
  HashMap.every_insert h hentry

theorem HoldsParts.erase (h : a.HoldsParts K) (id : UInt16) : HoldsParts K { a with entries := a.entries.erase id } :=
  HashMap.every_erase h id

theorem HoldsParts.prune (h : a.HoldsParts K) (now : Instant) (iter : IterOrder SplitEntries.Item) :
    (a.prune now iter).2.HoldsParts K :=
  HashMap.every_retain h fun entry => !a.expired now entry

theorem openEntry_part (pkt : EncapsulatedPacket) (split : SplitInfo) (now : Instant) {part : Bytes} :
    (openEntry pkt split now).parts[0]? ≠ some (some part) := by
  rintro h
  simp only [openEntry, List.getElem?_replicate] at h
  split at h <;> cases h

theorem HoldsParts.entryFor (h : a.HoldsParts K) (pkt : EncapsulatedPacket) (split : SplitInfo) (now : Instant)
    {part : Bytes} (hpart : (a.entryFor pkt split now).parts[0]? = some (some part)) : Opens K part := by
  unfold SplitAssembler.entryFor at hpart
  cases hlookup : a.entries.lookup split.id with
  | none =>
    rw [hlookup] at hpart
    exact absurd hpart (openEntry_part pkt split now)
  | some entry =>
    rw [hlookup] at hpart
    exact h split.id entry hlookup part hpart

theorem HoldsParts.filled (h : a.HoldsParts K) {pkt : EncapsulatedPacket} (hpkt : pkt.Genuine K) {split : SplitInfo}
    {now : Instant} (hsplit : pkt.split = some split) {part : Bytes}
    (hpart : (a.filled pkt split now).parts[0]? = some (some part)) : Opens K part := by
  simp only [SplitAssembler.filled, fillPart] at hpart
  by_cases hindex : split.index.toNat = 0
  · rw [hindex, List.getElem?_set_self'] at hpart
    cases hold : (a.entryFor pkt split now).parts[0]? with
    | none =>
      rw [hold] at hpart
      cases hpart
    | some _ =>
      rw [hold] at hpart
      cases hpart
      exact hpkt.first split hsplit (UInt32.toNat_inj.1 hindex)
  · rw [List.getElem?_set_ne hindex] at hpart
    exact h.entryFor pkt split now hpart

/-- Joined parts start with the first one. -/
theorem joinParts_opens {parts : List (Option Bytes)} {payload : Bytes} (hne : parts ≠ [])
    (hfirst : ∀ part, parts[0]? = some (some part) → Opens K part) (h : joinParts parts = .ok payload) :
    Opens K payload := by
  match parts with
  | none :: _ => cases h
  | some part :: parts =>
    simp only [joinParts, bind, Except.bind] at h
    split at h
    · cases h
    · cases h
      exact (hfirst part rfl).append _

theorem HoldsParts.add (h : a.HoldsParts K) {pkt : EncapsulatedPacket} (hpkt : pkt.Genuine K) (now : Instant) :
    (a.add pkt now).2.HoldsParts K ∧ ∀ enc, (a.add pkt now).1 = .ok (some enc) → Decodes K enc.payload := by
  have hcases := a.add_cases pkt now
  generalize a.add pkt now = res at hcases
  cases hcases with
  | whole hwhole =>
    refine ⟨h, ?_⟩
    rintro enc ⟨⟩
    exact hpkt.whole hwhole
  | refused | duplicate => exact ⟨h, fun _ henc => nomatch henc⟩
  | @opened split =>
    exact ⟨h.insert fun part hpart => absurd hpart (openEntry_part pkt split now), fun _ henc => nomatch henc⟩
  | stored hfits | broken hfits =>
    exact ⟨h.insert fun part hpart => h.filled hpkt hfits.admits.info hpart, fun _ henc => nomatch henc⟩
  | @completed split payload hfits hall hjoin =>
    refine ⟨h.erase _, ?_⟩
    rintro enc ⟨⟩
    refine Opens.decodes (joinParts_opens ?_ (fun part hpart => h.filled hpkt hfits.admits.info hpart) hjoin)
    -- the part went into a slot, so there is one
    rintro hnil
    have hlen := congrArg List.length hnil
    obtain ⟨hlt, -⟩ := List.getElem?_eq_some_iff.1 hfits.part
    simp only [SplitAssembler.filled, fillPart, List.length_set, List.length_nil] at hlen
    omega

end SplitAssembler

namespace OrderingChannels

/-- What is buffered, on any channel, satisfies `P`. -/
def Buffers (P : EncapsulatedPacket → Prop) (o : OrderingChannels) : Prop :=
  ∀ ch ∈ o.channels, ∀ e ∈ ch.heap.data, P e.pkt

namespace Buffers

variable {P : EncapsulatedPacket → Prop} {o : OrderingChannels}

theorem new (maxChannels : Nat) : Buffers P (.new maxChannels) := by
  rintro ch hch e he
  rw [(List.mem_replicate.1 hch).2] at he
  cases he

theorem set (h : o.Buffers P) (i : Nat) {ch' : OrderingChannel} (hch' : ∀ e ∈ ch'.heap.data, P e.pkt) :
    Buffers P ⟨o.channels.set i ch'⟩ := by
  rintro ch hch
  rcases List.mem_or_eq_of_mem_set hch with hch | rfl
  · exact h ch hch
  · exact hch'

theorem handleOrdered (h : o.Buffers P) {enc : EncapsulatedPacket} (henc : P enc) : (o.handleOrdered enc).2.Buffers P ∧
    ∀ ready, (o.handleOrdered enc).1 = some ready → ∀ p ∈ ready, P p := by
  constructor
  · unfold OrderingChannels.handleOrdered
    split
    · exact h
    · split
      · exact h
      · rename_i ch hch
        split
        · exact h
        · rename_i idx _
          have hold := h ch (List.mem_of_getElem? hch)
          refine h.set _ fun e he => ?_
          rcases ch.handleOrdered_cases idx enc with ⟨-, -, heq⟩ | ⟨-, -, heq⟩ | ⟨-, -, heq⟩ | ⟨-, heq⟩
          · rw [heq, (BinaryHeap.push_perm OrderedEncap.reverseLe ch.heap ⟨idx, enc⟩).mem_iff, List.mem_cons] at he
            rcases he with rfl | he
            · exact henc
            · exact hold e he
          · rw [heq] at he
            exact hold e he
          · rw [heq] at he
            exact hold e he
          · rw [heq] at he
            exact hold e ((release_mem { ch with orderRead := ch.orderRead.next }).2 e he)
  · rintro ready hready p hp
    rcases handleOrdered_mem hready p hp with rfl | ⟨c, ch, -, hch, e, he, rfl⟩
    · exact henc
    · exact h ch (List.mem_of_getElem? hch) e he

theorem skipIndex (h : o.Buffers P) (channel : UInt8) (index : Sequence24) :
    (o.skipIndex channel index).2.Buffers P := by
  unfold OrderingChannels.skipIndex
  split
  · exact h
  · rename_i ch hch
    refine h.set _ fun e he => h ch (List.mem_of_getElem? hch) e ?_
    unfold OrderingChannel.skipIndex at he
    split at he
    · exact he
    · exact (release_mem { ch with orderRead := ch.orderRead.next }).2 e he

theorem nextOrderIndex (h : o.Buffers P) (channel : UInt8) : (o.nextOrderIndex channel).2.Buffers P := by
  unfold OrderingChannels.nextOrderIndex
  split
  · exact h
  · rename_i ch hch
    exact h.set _ (h ch (List.mem_of_getElem? hch))

theorem skipDropped : ∀ (dropped : List (Option UInt8 × Option Sequence24)) {o : OrderingChannels}, o.Buffers P →
    (Session.skipDropped o dropped).Buffers P
  | [], _, h => h
  | (some channel, some index) :: rest, _, h => skipDropped rest (h.skipIndex channel index)
  | (some _, none) :: rest, _, h => skipDropped rest h
  | (none, _) :: rest, _, h => skipDropped rest h

end Buffers

end OrderingChannels

namespace Session

variable {F : Type}

theorem decodeAll_decoded : ∀ {pkts : List EncapsulatedPacket} {s : Session F} {out : List IncomingPacket},
    (s.decodeAll pkts).1 = .ok out → ∀ p ∈ out, ∃ enc ∈ pkts, decodePayload enc.payload = .ok p.packet
  | [], s, out, hout, p, hp => by
    cases hout
    cases hp
  | pkt :: pkts, s, out, hout, p, hp => by
    unfold decodeAll at hout
    split at hout
    · cases hout
    · rename_i out₁ s₁ h₁
      split at hout
      · cases hout
      · rename_i out₂ s₂ h₂
        cases hout
        rcases List.mem_append.1 hp with hp | hp
        · refine ⟨pkt, List.mem_cons_self .., ?_⟩
          unfold decodeAndPush at h₁
          split at h₁
          · cases h₁
          · cases h₁
            cases hp
          · cases h₁
            cases hp
          · rename_i hdecode
            cases h₁
            rw [List.mem_singleton.1 hp, hdecode]
        · obtain ⟨enc, henc, hdecode⟩ := decodeAll_decoded (by rw [h₂]) p hp
          exact ⟨enc, List.mem_cons_of_mem _ henc, hdecode⟩

/-- Everything under way in a receiver decodes to packets of `K`. -/
structure Holds (K : RaknetPacket → Prop) (r : Session F) : Prop where
  parts : r.splitAssembler.HoldsParts K
  buffered : r.ordering.Buffers fun p => Decodes K p.payload

namespace Holds

variable {K K' : RaknetPacket → Prop} {r : Session F}

theorem new (mtu : Nat) [Float64 F] (tunables : SessionTunables) : Holds K (withTunables mtu tunables : Session F) :=
  ⟨.new _ _ _, .new _⟩

theorem mono (hK : ∀ pkt, K pkt → K' pkt) (h : Holds K r) : Holds K' r :=
  ⟨fun id entry hentry part hpart => (h.parts id entry hentry part hpart).mono hK,
    fun ch hch e he => (h.buffered ch hch e he).mono hK⟩

theorem of_same (h : Holds K r) {r' : Session F} (ha : r'.splitAssembler = r.splitAssembler)
    (ho : r'.ordering = r.ordering) : Holds K r' :=
  ⟨ha ▸ h.parts, ho ▸ h.buffered⟩

theorem deliver (h : Holds K r) {enc : EncapsulatedPacket} (henc : Decodes K enc.payload) :
    Holds K (r.deliver enc).2 ∧ ∀ p ∈ returned (r.deliver enc).1, K p.packet := by
  obtain ⟨hbuffers, hready⟩ := h.buffered.handleOrdered henc
  obtain ⟨_, _, hframe⟩ := r.deliver_frame enc
  constructor
  · rw [hframe]
    refine ⟨h.parts, ?_⟩
    dsimp only
    split_ifs
    · exact hbuffers
    · exact h.buffered
  · rintro p hp
    obtain ⟨out, hout, hp⟩ := mem_returned hp
    unfold Session.deliver Session.handleOrdered at hout
    split at hout
    · dsimp only at hout
      split at hout
      · rename_i ready hr
        obtain ⟨enc', henc', hdecode⟩ := decodeAll_decoded hout p hp
        exact hready ready hr enc' henc' _ hdecode
      · cases hout
        cases hp
    · -- one packet is the list of it
      have hall : (r.decodeAll [enc]).1 = .ok out := by
        unfold decodeAll
        cases hpush : r.decodeAndPush enc with
        | mk res s =>
          rw [hpush] at hout
          cases hout
          simp [decodeAll]
      obtain ⟨enc', henc', hdecode⟩ := decodeAll_decoded hall p hp
      rw [List.mem_singleton.1 henc'] at hdecode
      exact henc _ hdecode

theorem handleEncapsulated (h : Holds K r) {p : EncapsulatedPacket} (hp : p.Genuine K) (now : Instant) :
    Holds K (r.handleEncapsulated p now).2 ∧ ∀ q ∈ returned (r.handleEncapsulated p now).1, K q.packet := by
  obtain ⟨hparts, hassembled⟩ := h.parts.add hp now
  have hcases := r.handleEncapsulated_cases p now
  generalize r.handleEncapsulated p now = res at hcases
  cases hcases with
  | seen => exact ⟨h, fun _ hq => nomatch hq⟩
  | refused hadd =>
    rw [hadd] at hparts
    exact ⟨⟨hparts, h.buffered⟩, fun _ hq => nomatch hq⟩
  | pending _ hadd =>
    rw [hadd] at hparts
    exact ⟨⟨hparts, h.buffered⟩, fun _ hq => nomatch hq⟩
  | @delivered enc a _ hadd =>
    rw [hadd] at hparts hassembled
    have hadded : Holds K { r with splitAssembler := a } := ⟨hparts, h.buffered⟩
    have hcommitted : Holds K (commitIndex { r with splitAssembler := a } (filterIndex p)) := by
      cases filterIndex p with
      | none => exact hadded
      | some idx => exact hadded.of_same rfl rfl
    exact hcommitted.deliver (hassembled enc rfl)

/-- Genuine frames: what comes out is in `K`. -/
theorem handleDataPayload (now : Instant) : ∀ {packets : List EncapsulatedPacket} {r : Session F}, Holds K r →
    (∀ p ∈ packets, p.Genuine K) → Holds K (r.handleDataPayload packets now).2 ∧
      ∀ p ∈ returned (r.handleDataPayload packets now).1, K p.packet
  | [], _, h, _ => ⟨h, fun _ hq => nomatch hq⟩
  | p :: rest, r, h, hpackets => by
    obtain ⟨hfirst, hout⟩ := h.handleEncapsulated (hpackets p (List.mem_cons_self ..)) now
    rcases hres : r.handleEncapsulated p now with ⟨e | out, r'⟩
    · rw [hres] at hfirst
      rw [handleDataPayload_cons_error rest hres]
      exact ⟨hfirst, fun _ hq => nomatch hq⟩
    · rw [hres] at hfirst hout
      rw [handleDataPayload_cons_ok rest hres]
      obtain ⟨hrest, hout'⟩ := handleDataPayload now hfirst fun q hq => hpackets q (List.mem_cons_of_mem _ hq)
      refine ⟨hrest, fun q hq => ?_⟩
      rcases List.mem_append.1 ((returned_map_append_sublist _ _).mem hq) with hq | hq
      · exact hout q hq
      · exact hout' q hq

/-- An operation other than handling a payload. -/
theorem step [Float64 F] (h : Holds K r) (op : Op) (hop : ∀ packets now, op ≠ .handleDataPayload packets now) :
    Holds K (r.step op) := by
  have hcases := r.step_cases op
  generalize r.step op = r' at hcases
  cases hcases with
  | @queuePacket pkt reliability channel priority _ =>
    cases hm : r.message pkt reliability channel with
    | none => rwa [queuePacket_of_none hm]
    | some m =>
      obtain ⟨_, _, _, _, _, _, hsame⟩ := r.queuePacket_same pkt reliability channel priority
      refine ⟨by rw [hsame]; exact h.parts, ?_⟩
      rw [(queuePacket_spec hm priority).ordering]
      unfold Session.allocOrderingIndex
      split_ifs
      · exact h.buffered.nextOrderIndex _
      · exact h.buffered
  | handleDataPayload _ => exact absurd rfl (hop _ _)
  | @onTick now iter => exact ⟨h.parts.prune now iter, .skipDropped _ h.buffered⟩
  | _ => exact h.of_same rfl rfl

end Holds

end Session

end BedrockRs.Raknet

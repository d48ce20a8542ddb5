/-
At-least-once delivery of reliable packets that go through no ordering channel. A datagram that is
accepted is acknowledged and not sent again, so each of its packets must be kept then: returned, held
in an entry of the assembler, or dropped as a repetition of one that was returned. Three things can go
wrong (`KeepsPacket`): the tracker's base meets a gap and the bits behind it stand for the wrong indexes, a
fragment is taken for a part of another message under its split id, and an error drops what the packets
before it delivered. In every run without them, in which no entry expires, every such message whose
datagrams were all accepted is returned (`queued_subperm_returned`).
-/
import BedrockRs.Raknet.Delivery.AtMostOnce
import BedrockRs.Raknet.Session.SplitErrors
import BedrockRs.Raknet.Session.TrackerRefines

namespace BedrockRs.Raknet

open Lib
open scoped List

/-! ## The condition -/

/-- A frame of the message opened the entry. -/
def Message.Opened (m : Message) (entry : SplitEntry) : Prop := ∃ p ∈ m.frames, p.reliableIndex = entry.reliableIndex

instance (m : Message) (entry : SplitEntry) : Decidable (m.Opened entry) :=
  inferInstanceAs (Decidable (∃ p ∈ m.frames, _))

/-- The entry under the split id of a fragment, if there is one of its part count, was opened by the same message. -/
def SplitAssembler.MeetsOwn (a : SplitAssembler) (log : List Message) (p : EncapsulatedPacket) : Prop :=
  ∀ split ∈ p.split, ∀ entry ∈ a.entries.lookup split.id, entry.parts.length = split.count.toNat →
    ∃ m ∈ log, p ∈ m.frames ∧ m.Opened entry

instance (a : SplitAssembler) (log : List Message) (p : EncapsulatedPacket) : Decidable (a.MeetsOwn log p) :=
  inferInstanceAs (Decidable (∀ split ∈ p.split, ∀ entry ∈ a.entries.lookup split.id, _ → ∃ m ∈ log, _))

namespace Session

variable {F : Type}

/-- A packet that the receiver keeps: an index at the base finds the bitmap without a gap, since `advance_base` shifts
the bits behind one, and a fragment is not taken for a part of another message. -/
def KeepsPacket (s : Session F) (log : List Message) (p : EncapsulatedPacket) : Prop :=
  (filterIndex p = some s.reliableTracker.base → s.reliableTracker.GapFree) ∧ s.splitAssembler.MeetsOwn log p

instance (s : Session F) (log : List Message) (p : EncapsulatedPacket) : Decidable (s.KeepsPacket log p) :=
  inferInstanceAs (Decidable (_ ∧ _))

/-- Every packet of a datagram that is looked at is kept, and an unordered reliable packet that comes out of one is not
dropped by an error at a later one. -/
def KeepsAll (log : List Message) (now : Instant) : Session F → List EncapsulatedPacket → Prop
  | _, [] => True
  | s, p :: rest =>
    s.KeepsPacket log p ∧
      match s.handleEncapsulated p now with
      | (.ok out, s') =>
        ((∀ q ∈ out, q.reliability.isUnordered = false) ∨ (s'.handleDataPayload rest now).1.isOk = true) ∧
          KeepsAll log now s' rest
      | (.error _, _) => True

instance decidableKeepsAll (log : List Message) (now : Instant) : ∀ (s : Session F) (packets : List EncapsulatedPacket),
    Decidable (s.KeepsAll log now packets)
  | _, [] => inferInstanceAs (Decidable True)
  | s, p :: rest =>
    have : Decidable (match s.handleEncapsulated p now with
        | (.ok out, s') =>
          ((∀ q ∈ out, q.reliability.isUnordered = false) ∨ (s'.handleDataPayload rest now).1.isOk = true) ∧
            KeepsAll log now s' rest
        | (.error _, _) => True) :=
      match s.handleEncapsulated p now with
      | (.ok _, s') =>
        have := decidableKeepsAll log now s' rest
        inferInstanceAs (Decidable (_ ∧ _))
      | (.error _, _) => inferInstanceAs (Decidable True)
    inferInstanceAs (Decidable (_ ∧ _))

end Session

namespace ManagedLink

variable {F : Type}

/-- A step in which a receiver keeps every packet it handles, and is given a datagram after it closed only if it
accepted it before. -/
def Keeps (x : ManagedLink F) : Op → Prop
  | .deliver i now => ∀ d ∈ x.sender.sent[i]?,
    (x.receiver.state = .closed → d ∈ x.accepted) ∧
      (x.receiver.state ≠ .closed → x.receiver.inner.KeepsAll x.sender.log now d.packets)
  | .send _ | .receive .. => True

instance (x : ManagedLink F) : ∀ op, Decidable (x.Keeps op)
  | .deliver i _ => inferInstanceAs (Decidable (∀ d ∈ x.sender.sent[i]?, _ ∧ _))
  | .send _ | .receive .. => inferInstanceAs (Decidable True)

/-- A step in which no entry of the receiver's assembler expires. -/
def NoneExpires (x : ManagedLink F) : Op → Prop
  | .receive (.onTick now _) _ => ∀ item ∈ x.receiver.inner.splitAssembler.entries.entries,
    x.receiver.inner.splitAssembler.expired now item.2 = false
  | _ => True

instance (x : ManagedLink F) : ∀ op, Decidable (x.NoneExpires op)
  | .receive (.onTick now _) _ => inferInstanceAs (Decidable (∀ item ∈ x.receiver.inner.splitAssembler.entries.entries,
      x.receiver.inner.splitAssembler.expired now item.2 = false))
  | .receive (.queueAppPacket ..) _ | .receive (.handleDatagram ..) _ | .receive (.buildDatagram _) _
  | .receive (.startClientHandshake ..) _ | .receive (.sendDisconnect _) _ | .send _ | .deliver .. =>
    inferInstanceAs (Decidable True)

end ManagedLink

/-! ## Frames by their reliable indexes -/

/-- What is fixed about the messages queued: they are numbered, with fewer than `2 ^ 23` reliable indexes in use. -/
structure Indexed {F : Type} (s : Session F) (log : List Message) : Prop where
  numbered : Numbered s log
  wellFormed : ∀ m ∈ log, m.WellFormed
  reliable : reliableCount log < 2 ^ 23

theorem Message.reliableIndex_of_mem_frames {m : Message} {p : EncapsulatedPacket} (hp : p ∈ m.frames) :
    ∃ j < m.frames.length, p.reliableIndex = m.reliableIndex j := by
  rcases m.frames_cases hp with ⟨payload, hb, rfl⟩ | ⟨id, pieces, j, piece, hb, hj, rfl⟩
  · exact ⟨0, List.length_pos_of_mem hp, rfl⟩
  · refine ⟨j, ?_, rfl⟩
    rw [m.length_frames hb]
    exact (List.getElem?_eq_some_iff.1 hj).1

/-- The indexes of a message come before those of the messages after it. -/
theorem reliableCount_take_add_le_take {log : List Message} {i i' : Nat} {m : Message} (hi : log[i]? = some m)
    (hrel : m.reliability.isReliable = true) (hlt : i < i') :
    reliableCount (log.take i) + m.frames.length ≤ reliableCount (log.take i') := by
  have htaken : (log.take i')[i]? = some m := by rw [List.getElem?_take_of_lt hlt, hi]
  have htake := reliableCount_take_add_le htaken hrel
  rwa [List.take_take, min_eq_left hlt.le] at htake

namespace Indexed

variable {F : Type} {s : Session F} {log : List Message} {i i' : Nat} {m m' : Message}

theorem countFits (h : Indexed s log) (hm : m ∈ log) (hrel : m.reliability.isReliable = true) : m.CountFits := by
  obtain ⟨i, hi⟩ := List.mem_iff_getElem?.1 hm
  have hle := reliableCount_take_add_le hi hrel
  have hlt := h.reliable
  unfold Message.CountFits
  omega

/-- A fragment is reliable, whatever the packet was queued with. -/
theorem reliable_of_fragments (h : Indexed s log) (hm : m ∈ log) {id : UInt16} {pieces : List Bytes}
    (hb : m.body = .fragments id pieces) : m.reliability.isReliable = true :=
  ((h.wellFormed m hm).fragments id pieces hb).2

/-- The first reliable index tells the reliable messages apart. -/
theorem first_inj (h : Indexed s log) (hi : log[i]? = some m) (hi' : log[i']? = some m')
    (hrel : m.reliability.isReliable = true) (hrel' : m'.reliability.isReliable = true)
    (hfirst : reliableCount (log.take i) = reliableCount (log.take i')) : i = i' := by
  have hpos := (h.wellFormed m (List.mem_of_getElem? hi)).frames_pos
  have hpos' := (h.wellFormed m' (List.mem_of_getElem? hi')).frames_pos
  rcases Nat.lt_trichotomy i i' with hlt | heq | hgt
  · have := reliableCount_take_add_le_take hi hrel hlt
    omega
  · exact heq
  · have := reliableCount_take_add_le_take hi' hrel' hgt
    omega

/-- A reliable index names a frame of one message. -/
theorem frame_inj (h : Indexed s log) (hi : log[i]? = some m) (hi' : log[i']? = some m')
    (hrel : m.reliability.isReliable = true) {p p' : EncapsulatedPacket} (hp : p ∈ m.frames) (hp' : p' ∈ m'.frames)
    (heq : p.reliableIndex = p'.reliableIndex) : i = i' := by
  obtain ⟨j, hj, hidx⟩ := Message.reliableIndex_of_mem_frames hp
  obtain ⟨j', hj', hidx'⟩ := Message.reliableIndex_of_mem_frames hp'
  rw [hidx, hidx', h.numbered.reliableIndex hi hrel] at heq
  have hrel' : m'.reliability.isReliable = true := by
    by_contra hnot
    rw [Message.reliableIndex, Session.reliableIndexFrom, if_neg hnot] at heq
    cases heq
  rw [h.numbered.reliableIndex hi' hrel', Option.some.injEq, Sequence24.ext_iff', Sequence24.val_new,
    Sequence24.val_new] at heq
  have hend := reliableCount_take_add_le hi hrel
  have hend' := reliableCount_take_add_le hi' hrel'
  have hlt := h.reliable
  rw [Nat.mod_eq_of_lt (by omega), Nat.mod_eq_of_lt (by omega)] at heq
  rcases Nat.lt_trichotomy i i' with hlt | heq | hgt
  · have := reliableCount_take_add_le_take hi hrel hlt
    omega
  · exact heq
  · have := reliableCount_take_add_le_take hi' hrel' hgt
    omega

theorem frame_unique (h : Indexed s log) (hm : m ∈ log) (hm' : m' ∈ log) (hrel : m.reliability.isReliable = true)
    {p p' : EncapsulatedPacket} (hp : p ∈ m.frames) (hp' : p' ∈ m'.frames) (heq : p.reliableIndex = p'.reliableIndex) :
    m = m' := by
  obtain ⟨i, hi⟩ := List.mem_iff_getElem?.1 hm
  obtain ⟨i', hi'⟩ := List.mem_iff_getElem?.1 hm'
  obtain rfl := h.frame_inj hi hi' hrel hp hp' heq
  rw [hi] at hi'
  exact Option.some.inj hi'

/-- An entry has one message that opened it. -/
theorem opened_inj (h : Indexed s log) (hm : m ∈ log) (hm' : m' ∈ log) (hrel : m.reliability.isReliable = true)
    {entry : SplitEntry} (hopened : m.Opened entry) (hopened' : m'.Opened entry) : m = m' := by
  obtain ⟨p, hp, hidx⟩ := hopened
  obtain ⟨p', hp', hidx'⟩ := hopened'
  exact h.frame_unique hm hm' hrel hp hp' (hidx.trans hidx'.symm)

end Indexed

/-! ## Entries in progress -/

/-- An entry that a message opened and that collects its parts. -/
structure Message.OpenEntry (m : Message) (id : UInt16) (pieces : List Bytes) (entry : SplitEntry) : Prop
    extends m.EntryOf id pieces entry where
  opened : m.Opened entry
  counted : entry.Counted

namespace SplitAssembler

/-- Every entry collects the parts of a queued message, and still misses one. -/
def InProgress (log : List Message) (a : SplitAssembler) : Prop :=
  ∀ id entry, a.entries.lookup id = some entry →
    ∃ m ∈ log, ∃ pieces, m.OpenEntry id pieces entry ∧ entry.received < entry.parts.length

/-- The part that a fragment carries is in the entry of its message. -/
def Holds (a : SplitAssembler) (m : Message) (p : EncapsulatedPacket) : Prop :=
  ∃ split ∈ p.split, ∃ entry ∈ a.entries.lookup split.id, m.Opened entry ∧
    ∃ part, entry.parts[split.index.toNat]? = some (some part)

/-- What adding a frame of a message comes to. -/
structure Takes (a : SplitAssembler) (log : List Message) (m : Message) (p : EncapsulatedPacket)
    (res : Except DecodeError (Option EncapsulatedPacket) × SplitAssembler) : Prop where
  inProgress : InProgress log res.2
  carried : ∀ enc, res.1 = .ok (some enc) → m.CarriedBy enc
  held : res.1 = .ok none → res.2.Holds m p
  kept : ∀ m' ∈ log, ∀ p', a.Holds m' p' → res.2.Holds m' p' ∨ m' = m ∧ ∃ enc, res.1 = .ok (some enc)

namespace InProgress

variable {F : Type} {s : Session F} {log : List Message} {a : SplitAssembler}

theorem new (ttl : Duration) (maxParts maxConcurrent : Nat) :
    InProgress [] (SplitAssembler.new ttl maxParts maxConcurrent) := by
  intro id entry h
  simp [SplitAssembler.new] at h

theorem append (h : InProgress log a) (more : List Message) : InProgress (log ++ more) a := by
  intro id entry hentry
  obtain ⟨m, hm, hopen⟩ := h id entry hentry
  exact ⟨m, List.mem_append_left _ hm, hopen⟩

theorem counted (h : InProgress log a) : a.Counted := by
  intro id entry hentry
  obtain ⟨m, -, pieces, hopen, -⟩ := h id entry hentry
  exact hopen.counted

section Fragment

variable {m : Message} {id : UInt16} {pieces : List Bytes} {j : Nat} {piece : Bytes}

/-- The entry that a fragment is added to is its own. -/
theorem entryFor (hx : Indexed s log) (h : InProgress log a) (hm : m ∈ log) (hb : m.body = .fragments id pieces)
    (hj : pieces[j]? = some piece) (hown : a.MeetsOwn log (m.fragment id pieces.length j piece)) {now : Instant}
    (hlen :
      (a.entryFor (m.fragment id pieces.length j piece) ⟨UInt32.ofNat pieces.length, id, UInt32.ofNat j⟩
        now).parts.length = (UInt32.ofNat pieces.length).toNat) : m.OpenEntry id pieces
      (a.entryFor (m.fragment id pieces.length j piece) ⟨UInt32.ofNat pieces.length, id, UInt32.ofNat j⟩ now) := by
  have hframe : m.fragment id pieces.length j piece ∈ m.frames := by
    rw [Message.frames, hb]
    exact List.mem_mapIdx.2 ⟨j, (List.getElem?_eq_some_iff.1 hj).1, by rw [(List.getElem?_eq_some_iff.1 hj).2]⟩
  unfold SplitAssembler.entryFor at hlen ⊢
  cases hlookup : a.entries.lookup id with
  | none =>
    exact ⟨entryOf_openEntry hb j piece now, ⟨_, hframe, rfl⟩, counted_openEntry _ _ now⟩
  | some entry =>
    obtain ⟨m₁, hm₁, pieces₁, hopen, -⟩ := h id entry hlookup
    -- the entry has one message, and the fragment is its own
    dsimp only at hlen
    rw [hlookup, Option.getD_some] at hlen
    obtain ⟨m₂, hm₂, hframe₂, hopened⟩ := hown _ rfl entry hlookup hlen
    have hrel := hx.reliable_of_fragments hm hb
    obtain rfl := hx.frame_unique hm hm₂ hrel hframe hframe₂ rfl
    obtain rfl := hx.opened_inj hm hm₁ hrel hopened hopen.opened
    have hbody := hopen.body
    rw [hb] at hbody
    cases hbody
    exact hopen

theorem insert_filled (h : InProgress log a) (hm : m ∈ log) {entry : SplitEntry} (hopen : m.OpenEntry id pieces entry)
    (hj : pieces[j]? = some piece) (hpart : entry.parts[(UInt32.ofNat j).toNat]? = some none) {now : Instant}
    (hmore : (fillPart entry (UInt32.ofNat j).toNat piece now).received ≠
      (fillPart entry (UInt32.ofNat j).toNat piece now).parts.length) :
    InProgress log { a with entries := a.entries.insert id (fillPart entry (UInt32.ofNat j).toNat piece now) } := by
  have hcounted := counted_fillPart hopen.counted hpart piece now
  refine HashMap.every_insert h ⟨m, hm, pieces, ⟨entryOf_fillPart hopen.toEntryOf hj now, hopen.opened, hcounted⟩, ?_⟩
  have hle : (fillPart entry (UInt32.ofNat j).toNat piece now).received ≤ _ := hcounted ▸ List.countP_le_length
  omega

end Fragment

end InProgress

section Add

variable {F : Type} {s : Session F} {log : List Message} {a : SplitAssembler} {m : Message} {p : EncapsulatedPacket}

/-- Nothing is stored and no message is complete. -/
theorem takes_same (h : InProgress log a) {res : Except DecodeError (Option EncapsulatedPacket)}
    (hcarried : ∀ enc, res = .ok (some enc) → m.CarriedBy enc) (hheld : res = .ok none → a.Holds m p) :
    a.Takes log m p (res, a) :=
  ⟨h, hcarried, hheld, fun _ _ _ hp' => .inl hp'⟩

/-- Storing a part of an entry keeps the parts of all entries. -/
theorem holds_insert (split : SplitInfo) (now : Instant) {m' : Message} {p' : EncapsulatedPacket}
    (hp' : a.Holds m' p') : Holds { a with entries := a.entries.insert split.id (a.filled p split now) } m' p' := by
  obtain ⟨split', hsplit', entry', hentry', hopened, part, hpart⟩ := hp'
  refine ⟨split', hsplit', ?_⟩
  by_cases hid : split'.id = split.id
  · have hfor : a.entryFor p split now = entry' := by
      rw [entryFor, ← hid, hentry', Option.getD_some]
    refine ⟨a.filled p split now, by rw [hid]; exact AList.lookup_insert _, ?_⟩
    rw [filled, hfor]
    refine ⟨hopened, ?_⟩
    rw [fillPart, List.getElem?_set]
    split
    · rw [if_pos (by rw [‹split.index.toNat = _›]; exact (List.getElem?_eq_some_iff.1 hpart).1)]
      exact ⟨_, rfl⟩
    · exact ⟨part, hpart⟩
  · exact ⟨entry', by rw [AList.lookup_insert_ne hid]; exact hentry', hopened, part, hpart⟩

/-- Removing an entry keeps the parts of the others. -/
theorem holds_erase (id : UInt16) {m' : Message} {p' : EncapsulatedPacket} (hp' : a.Holds m' p') :
    Holds { a with entries := a.entries.erase id } m' p' ∨
      ∃ entry, a.entries.lookup id = some entry ∧ m'.Opened entry := by
  obtain ⟨split, hsplit, entry, hentry, hopened, hpart⟩ := hp'
  by_cases hid : split.id = id
  · exact .inr ⟨entry, hid ▸ hentry, hopened⟩
  · exact .inl ⟨split, hsplit, entry, by rw [AList.lookup_erase_ne hid]; exact hentry, hopened, hpart⟩

/-- Adding a frame of a queued message whose entry is its own. -/
theorem takes_add (hx : Indexed s log) (h : InProgress log a) (hm : m ∈ log) (hp : p ∈ m.frames)
    (hown : a.MeetsOwn log p) (now : Instant) : a.Takes log m p (a.add p now) := by
  rcases m.frames_cases hp with ⟨payload, hb, rfl⟩ | ⟨id, pieces, j, piece, hb, hj, rfl⟩
  · rw [add_of_whole rfl]
    refine takes_same h (fun enc henc => ?_) (fun hnone => ?_)
    · cases henc
      exact m.carriedBy_whole hb
    · cases hnone
  · have hrel := hx.reliable_of_fragments hm hb
    have hfits := hx.countFits hm hrel
    have hcases := a.add_cases (m.fragment id pieces.length j piece) now
    generalize a.add (m.fragment id pieces.length j piece) now = res at hcases
    cases hcases with
    | whole hwhole => cases hwhole
    | refused _ => exact takes_same h (fun enc henc => by cases henc) (fun hnone => by cases hnone)
    | opened hadmits hnone hindex =>
      -- the index of a piece is below the number of pieces
      cases hadmits.info
      have hcount : (UInt32.ofNat pieces.length).toNat = pieces.length :=
        UInt32.toNat_ofNat_of_lt' (m.length_frames hb ▸ hfits)
      have hlt := (List.getElem?_eq_some_iff.1 hj).1
      dsimp only at hindex
      rw [toNat_index hb hfits hj, hcount] at hindex
      omega
    | @duplicate split entry hdup =>
      refine takes_same h (fun enc henc => by cases henc) fun _ => ?_
      cases hdup.admits.info
      have hfor :
          a.entryFor (m.fragment id pieces.length j piece) ⟨UInt32.ofNat pieces.length, id, UInt32.ofNat j⟩ now =
          entry := by
        rw [entryFor, hdup.stored, Option.getD_some]
      have hlen := hfor ▸ hdup.length
      have hopen := h.entryFor hx hm hb hj hown hlen
      rw [hfor] at hopen
      exact ⟨_, rfl, entry, hdup.stored, hopen.opened, hdup.part⟩
    | stored hfit hmore =>
      cases hfit.admits.info
      have hopen := h.entryFor hx hm hb hj hown hfit.length
      refine ⟨h.insert_filled hm hopen hj hfit.part hmore, fun enc henc => (by cases henc), fun _ => ?_,
        fun m' _ p' hp' => .inl (holds_insert _ now hp')⟩
      refine ⟨_, rfl, _, AList.lookup_insert _, hopen.opened, piece, ?_⟩
      rw [filled, fillPart, List.getElem?_set_self (List.getElem?_eq_some_iff.1 hfit.part).1]
      rfl
    | broken hfit hall hjoin =>
      obtain ⟨payload, hok⟩ := h.counted.joins hfit hall
      rw [hok] at hjoin
      cases hjoin
    | completed hfit hall hjoin =>
      cases hfit.admits.info
      have hopen := h.entryFor hx hm hb hj hown hfit.length
      refine ⟨HashMap.every_erase h id, fun enc henc => ?_, fun hnone => (by cases hnone), fun m' hm' p' hp' => ?_⟩
      · cases henc
        have hentry := entryOf_fillPart hopen.toEntryOf hj now
        refine ⟨hentry.reliability, hentry.channel, hentry.index, fun _ => ?_⟩
        rw [Message.payload, hb]
        exact joinParts_pieces (hentry.length hfits) (hentry.parts hfits) hjoin
      · refine (holds_erase id hp').imp_right ?_
        rintro ⟨entry', hentry', hopened⟩
        rw [entryFor, hentry', Option.getD_some] at hopen
        exact ⟨(hx.opened_inj hm hm' hrel hopen.opened hopened).symm, _, rfl⟩

end Add

end SplitAssembler

/-! ## What is kept of the messages -/

/-- What user data that is queued reliably, but for no ordering channel, comes out as at the receiver's caller. -/
def Message.plain (m : Message) : Option IncomingPacket :=
  match m.packet with
  | .userData id _ =>
    if m.reliability.isUnordered = true ∧ RaknetPacket.IsUserId id then some ⟨m.packet, m.reliability, none⟩ else none
  | _ => none

namespace Message

variable {m : Message} {x : IncomingPacket}

theorem plain_eq (h : m.plain = some x) : m.reliability.isUnordered = true ∧ x = ⟨m.packet, m.reliability, none⟩ ∧
    ∃ id data, m.packet = .userData id data ∧ RaknetPacket.IsUserId id := by
  unfold plain at h
  split at h
  · rename_i id data hpkt
    split at h
    · rename_i hplain
      cases h
      exact ⟨hplain.1, rfl, id, data, hpkt, hplain.2⟩
    · cases h
  · cases h

theorem isReliable_of_plain (h : m.plain.isSome = true) : m.reliability.isReliable = true := by
  obtain ⟨x, hx⟩ := Option.isSome_iff_exists.1 h
  have hunordered := (plain_eq hx).1
  rw [Reliability.isUnordered, Bool.and_eq_true] at hunordered
  exact hunordered.1

end Message

/-- A packet that carries such a message comes out at once. -/
theorem Session.deliver_plain {F : Type} {m : Message} {x : IncomingPacket} (hwf : m.WellFormed) (hfits : m.CountFits)
    {enc : EncapsulatedPacket} (hcarried : m.CarriedBy enc) (h : m.plain = some x) (s : Session F) :
    (s.deliver enc).1 = .ok [x] := by
  obtain ⟨hunordered, rfl, id, data, hpkt, hid⟩ := Message.plain_eq h
  rw [Reliability.isUnordered, Bool.and_eq_true, Bool.not_eq_true'] at hunordered
  have hpayload : m.payload = id :: data := by
    have hencode := hwf.payload
    rw [hpkt] at hencode
    exact (Except.ok.inj hencode).symm
  have hdecode : decodePayload enc.payload = .ok (.userData id data) := by
    rw [hcarried.payload hfits, hpayload, decodePayload, RaknetPacket.decodeFrom_userData hid]
  have hchannel : enc.orderingChannel = none := by
    rw [hcarried.channel, hwf.unordered hunordered.2]
    rfl
  unfold deliver
  rw [hcarried.reliability, hunordered.2, if_neg Bool.false_ne_true]
  unfold decodeAndPush
  rw [hdecode, hcarried.reliability, hchannel, hpkt]

/-- What the message at a position of the log comes out as, if it is such a message. -/
def plainAt (log : List Message) (i : Nat) : Option IncomingPacket := log[i]?.bind Message.plain

/-- What tracker and assembler keep of the frames `got`: each belongs to a message that was returned, at one of the
positions `ds` of the log, or is held in an entry of the assembler. What the tracker counts as seen was returned. -/
structure KeepsPlain (log : List Message) (t : ReliableTracker) (a : SplitAssembler) (got : List EncapsulatedPacket)
    (out : List IncomingPacket) (ds seen : List Nat) (base : Nat) : Prop where
  vouches : t.Vouches seen base
  small : ∀ n ∈ seen, n < reliableCount log
  inProgress : a.InProgress log
  frames : ∀ p ∈ got, ∃ m ∈ log, p ∈ m.frames
  known : ∀ i ∈ ds, i < log.length
  nodup : ds.Nodup
  recorded : ∀ i m, log[i]? = some m → m.plain.isSome = true → m.isFragmented = false →
    reliableCount (log.take i) ∈ seen → i ∈ ds
  kept : ∀ i m p, log[i]? = some m → m.plain.isSome = true → p ∈ m.frames → p ∈ got → i ∈ ds ∨ a.Holds m p
  out : ds.filterMap (plainAt log) <+ out

namespace KeepsPlain

variable {F : Type} {s : Session F} {log : List Message} {t : ReliableTracker} {a : SplitAssembler}
  {got : List EncapsulatedPacket} {out : List IncomingPacket} {ds seen : List Nat} {base : Nat}

theorem new (maxWindow : Nat) (ttl : Duration) (maxParts maxConcurrent : Nat) :
    KeepsPlain [] (ReliableTracker.new maxWindow) (SplitAssembler.new ttl maxParts maxConcurrent) [] [] [] [] 0 where
  vouches := .new maxWindow
  small := by simp
  inProgress := .new ttl maxParts maxConcurrent
  frames := by simp
  known := by simp
  nodup := List.nodup_nil
  recorded := by simp
  kept := by simp
  out := List.nil_sublist _

theorem small_lt (hx : Indexed s log) (h : KeepsPlain log t a got out ds seen base) : ∀ n ∈ seen, n < 2 ^ 23 :=
  fun n hn => (h.small n hn).trans hx.reliable

theorem mono (h : KeepsPlain log t a got out ds seen base) {got' : List EncapsulatedPacket} {out' : List IncomingPacket}
    (hgot : got' ⊆ got) (hout : out <+ out') : KeepsPlain log t a got' out' ds seen base :=
  { h with
    frames := fun p hp => h.frames p (hgot hp)
    kept := fun i m p hi hplain hframe hp => h.kept i m p hi hplain hframe (hgot hp)
    out := h.out.trans hout }

/-- More messages are queued. -/
theorem append (h : KeepsPlain log t a got out ds seen base) (more : List Message) (hx : Indexed s (log ++ more)) :
    KeepsPlain (log ++ more) t a got out ds seen base := by
  have hcount : reliableCount log ≤ reliableCount (log ++ more) := by
    rw [reliableCount_append]
    exact Nat.le_add_right _ _
  have hold : ∀ {i : Nat}, i < log.length → (log ++ more)[i]? = log[i]? := List.getElem?_append_left
  refine ⟨h.vouches, fun n hn => (h.small n hn).trans_le hcount, h.inProgress.append more, fun p hp => ?_,
    fun i hi => ?_, h.nodup, fun i m hi hplain hwhole hseen => ?_, fun i m p hi hplain hframe hp => ?_, ?_⟩
  · obtain ⟨m, hm, hframe⟩ := h.frames p hp
    exact ⟨m, List.mem_append_left _ hm, hframe⟩
  · rw [List.length_append]
    exact (h.known i hi).trans_le (Nat.le_add_right _ _)
  · rcases Nat.lt_or_ge i log.length with hlt | hge
    · rw [hold hlt] at hi
      rw [List.take_append_of_le_length hlt.le] at hseen
      exact h.recorded i m hi hplain hwhole hseen
    · -- the indexes of a new message are past those shown
      have hlt := h.small _ hseen
      rw [List.take_append, List.take_of_length_le hge, reliableCount_append] at hlt
      omega
  · rcases Nat.lt_or_ge i log.length with hlt | hge
    · rw [hold hlt] at hi
      exact h.kept i m p hi hplain hframe hp
    · obtain ⟨m', hm', hframe'⟩ := h.frames p hp
      obtain ⟨i', hi'⟩ := List.mem_iff_getElem?.1 hm'
      have hlt := (List.getElem?_eq_some_iff.1 hi').1
      rw [← hold hlt] at hi'
      have := hx.frame_inj hi hi' (Message.isReliable_of_plain hplain) hframe hframe' rfl
      omega
  · rw [List.filterMap_congr fun i hi =>
      show plainAt (log ++ more) i = plainAt log i by rw [plainAt, plainAt, hold (h.known i hi)]]
    exact h.out

/-! ### One packet -/

section Packet

variable {i : Nat} {m : Message} {p : EncapsulatedPacket}

/-- A frame whose message was returned, or that is held, may count as handled. -/
theorem got_frame (hx : Indexed s log) (h : KeepsPlain log t a got out ds seen base) (hi : log[i]? = some m)
    (hp : p ∈ m.frames) (hkept : m.plain.isSome = true → i ∈ ds ∨ a.Holds m p) :
    KeepsPlain log t a (got ++ [p]) out ds seen base := by
  refine { h with frames := fun q hq => ?_, kept := fun i' m' q hi' hplain hframe hq => ?_ }
  · rcases List.mem_append.1 hq with hq | hq
    · exact h.frames q hq
    · rw [List.mem_singleton.1 hq]
      exact ⟨m, List.mem_of_getElem? hi, hp⟩
  · rcases List.mem_append.1 hq with hq | hq
    · exact h.kept i' m' q hi' hplain hframe hq
    · rw [List.mem_singleton.1 hq] at hframe ⊢
      obtain rfl := hx.frame_inj hi' hi (Message.isReliable_of_plain hplain) hframe hp rfl
      rw [hi] at hi'
      cases hi'
      exact hkept hplain

/-- The assembler takes a frame: a message it completes is one that was returned. -/
theorem take (hx : Indexed s log) (h : KeepsPlain log t a got out ds seen base) (hi : log[i]? = some m)
    {res : Except DecodeError (Option EncapsulatedPacket) × SplitAssembler} (htakes : a.Takes log m p res)
    (hdone : (∃ enc, res.1 = .ok (some enc)) → m.plain.isSome = true → i ∈ ds) :
    KeepsPlain log t res.2 got out ds seen base := by
  refine { h with inProgress := htakes.inProgress, kept := fun i' m' q hi' hplain hframe hq => ?_ }
  rcases h.kept i' m' q hi' hplain hframe hq with hds | hholds
  · exact .inl hds
  · rcases htakes.kept m' (List.mem_of_getElem? hi') q hholds with hholds | ⟨rfl, hcomplete⟩
    · exact .inr hholds
    · obtain rfl := hx.frame_inj hi' hi (Message.isReliable_of_plain hplain) hframe hframe rfl
      exact .inl (hdone hcomplete hplain)

/-- The tracker is shown the index of a whole message that was returned. -/
theorem commit (hx : Indexed s log) {r : Session F} (h : KeepsPlain log r.reliableTracker a got out ds seen base)
    (hi : log[i]? = some m) (hp : p ∈ m.frames)
    (hgap : Session.filterIndex p = some r.reliableTracker.base → r.reliableTracker.GapFree)
    (hds : m.plain.isSome = true → i ∈ ds) :
    ∃ seen' base', KeepsPlain log (r.commitIndex (Session.filterIndex p)).reliableTracker a got out ds seen' base' := by
  have hm := List.mem_of_getElem? hi
  rcases (ReceivesOnce.frame_facts hp).2 with ⟨-, hidx⟩ | ⟨id, pieces, split, hb, hidx, -, -⟩
  · rw [hidx] at hgap ⊢
    by_cases hrel : m.reliability.isReliable = true
    · rw [hx.numbered.reliableIndex hi hrel 0, Nat.add_zero] at hgap ⊢
      have hlt : reliableCount (log.take i) < reliableCount log := by
        have := reliableCount_take_add_le hi hrel
        have := (hx.wellFormed m hm).frames_pos
        omega
      -- the index counts as seen from now on, and the message it belongs to was returned
      obtain ⟨base', hvouches⟩ := h.vouches.see (h.small_lt hx) (hlt.trans hx.reliable) fun heq =>
        hgap (congrArg some heq)
      refine ⟨_, base', { h with vouches := hvouches, small := fun n hn => ?_, recorded := ?_ }⟩
      · rcases List.mem_cons.1 hn with rfl | hn
        · exact hlt
        · exact h.small n hn
      · intro i' m' hi' hplain hwhole hseen
        rcases List.mem_cons.1 hseen with heq | hseen
        · obtain rfl := hx.first_inj hi' hi (Message.isReliable_of_plain hplain) hrel heq
          rw [hi] at hi'
          cases hi'
          exact hds hplain
        · exact h.recorded i' m' hi' hplain hwhole hseen
    · rw [Message.reliableIndex, Session.reliableIndexFrom, if_neg hrel]
      exact ⟨seen, base, h⟩
  · rw [hidx]
    exact ⟨seen, base, h⟩

/-- The message at a position is returned, for the first time or again. -/
theorem add (h : KeepsPlain log t a got out ds seen base) (hi : log[i]? = some m) {x : IncomingPacket}
    (hx : m.plain = some x) : ∃ ds', i ∈ ds' ∧ KeepsPlain log t a got (out ++ [x]) ds' seen base := by
  by_cases hmem : i ∈ ds
  · exact ⟨ds, hmem, h.mono (List.Subset.refl _) (List.sublist_append_left _ _)⟩
  · refine ⟨ds ++ [i], List.mem_append_right _ (List.mem_singleton_self i),
      { h with known := fun j hj => ?_, nodup := ?_, recorded := ?_, kept := ?_, out := ?_ }⟩
    · rcases List.mem_append.1 hj with hj | hj
      · exact h.known j hj
      · rw [List.mem_singleton.1 hj]
        exact (List.getElem?_eq_some_iff.1 hi).1
    · exact h.nodup.append (List.nodup_singleton i) (List.disjoint_singleton.2 hmem)
    · exact fun j m' hj hplain hwhole hseen => List.mem_append_left _ (h.recorded j m' hj hplain hwhole hseen)
    · exact fun j m' q hj hplain hframe hq => (h.kept j m' q hj hplain hframe hq).imp_left (List.mem_append_left _)
    · rw [List.filterMap_append, List.filterMap_cons, plainAt, hi, Option.bind_some, hx]
      exact h.out.append (List.Sublist.refl _)

end Packet

/-- What holds of a receiver that keeps what it handled without error. -/
def Of (log : List Message) (r : Session F) (got : List EncapsulatedPacket) (out : List IncomingPacket)
    (ds : List Nat) : Prop :=
  ∃ seen base, KeepsPlain log r.reliableTracker r.splitAssembler got out ds seen base

end KeepsPlain

namespace KeepsPlain.Of

variable {F : Type} {s r : Session F} {log : List Message} {got : List EncapsulatedPacket} {out : List IncomingPacket}
  {ds : List Nat}

theorem of_same (h : Of log r got out ds) {r' : Session F} (ht : r'.reliableTracker = r.reliableTracker)
    (ha : r'.splitAssembler = r.splitAssembler) : Of log r' got out ds := by
  unfold Of
  rw [ht, ha]
  exact h

theorem append (h : Of log r got out ds) (more : List Message) (hx : Indexed s (log ++ more)) :
    Of (log ++ more) r got out ds := by
  obtain ⟨seen, base, h⟩ := h
  exact ⟨seen, base, h.append more hx⟩

theorem mono (h : Of log r got out ds) {got' : List EncapsulatedPacket} {out' : List IncomingPacket} (hgot : got' ⊆ got)
    (hout : out <+ out') : Of log r got' out' ds := by
  obtain ⟨seen, base, h⟩ := h
  exact ⟨seen, base, h.mono hgot hout⟩

section Packet

variable {i : Nat} {m : Message} {p : EncapsulatedPacket}

/-- A whole packet that counts as seen was returned. -/
theorem mem_of_seen (hx : Indexed s log) (h : Of log r got out ds) (hi : log[i]? = some m) (hp : p ∈ m.frames)
    {idx : Sequence24} (hidx : Session.filterIndex p = some idx) (hseen : r.reliableTracker.hasSeen idx = true)
    (hplain : m.plain.isSome = true) : i ∈ ds := by
  obtain ⟨seen, base, h⟩ := h
  rcases (ReceivesOnce.frame_facts hp).2 with ⟨hwhole, hfilter⟩ | ⟨id, pieces, split, -, hnone, -, -⟩
  · have hrel := Message.isReliable_of_plain hplain
    have hcount := (reliableCount_take_le log i).trans_lt hx.reliable
    rw [hidx, hx.numbered.reliableIndex hi hrel 0, Nat.add_zero] at hfilter
    cases hfilter
    exact h.recorded i m hi hplain hwhole (h.vouches.mem_of_hasSeen (h.small_lt hx) hcount hseen)
  · rw [hidx] at hnone
    cases hnone

/-- The assembler lets a packet through, and what it carries is delivered. -/
theorem delivered (hx : Indexed s log) (h : Of log r got out ds) (hi : log[i]? = some m) (hp : p ∈ m.frames)
    (hkeeps : r.KeepsPacket log p) {now : Instant} {enc : EncapsulatedPacket} {a : SplitAssembler}
    (hadd : r.splitAssembler.add p now = (.ok (some enc), a))
    {res : Except DecodeError (List IncomingPacket) × Session F}
    (hres : res = (Session.commitIndex { r with splitAssembler := a } (Session.filterIndex p)).deliver enc) :
    ∃ ds', Of log res.2 (got ++ [p]) (out ++ returned res.1) ds' ∧
      ((∀ q ∈ returned res.1, q.reliability.isUnordered = false) → ds' = ds) := by
  obtain ⟨seen, base, h⟩ := h
  have hm := List.mem_of_getElem? hi
  have htakes := SplitAssembler.takes_add hx h.inProgress hm hp hkeeps.2 now
  rw [hadd] at htakes
  -- what is returned now, or was before, is recorded as such
  have hnow : ∃ ds', KeepsPlain log r.reliableTracker r.splitAssembler got (out ++ returned res.1) ds' seen base ∧
      (m.plain.isSome = true → i ∈ ds') ∧ ((∀ q ∈ returned res.1, q.reliability.isUnordered = false) → ds' = ds) := by
    cases hplain : m.plain with
    | none =>
      exact ⟨ds, h.mono (List.Subset.refl _) (List.sublist_append_left _ _), fun hsome => (by cases hsome),
        fun _ => rfl⟩
    | some x =>
      have hrel := Message.isReliable_of_plain (by rw [hplain]; rfl)
      have hout : returned res.1 = [x] := by
        rw [hres, Session.deliver_plain (hx.wellFormed m hm) (hx.countFits hm hrel) (htakes.carried enc rfl) hplain]
        rfl
      obtain ⟨ds', hmem, hds'⟩ := h.add hi hplain
      rw [hout]
      refine ⟨ds', hds', fun _ => hmem, fun hnot => ?_⟩
      obtain ⟨hunordered, rfl, -⟩ := Message.plain_eq hplain
      rw [hnot _ (List.mem_singleton_self _)] at hunordered
      cases hunordered
  obtain ⟨ds', h', hds', hsame⟩ := hnow
  have htaken := h'.take hx hi htakes fun _ => hds'
  have hgot := htaken.got_frame hx hi hp fun hplain => .inl (hds' hplain)
  obtain ⟨seen', base', hcommit⟩ := hgot.commit hx (r := { r with splitAssembler := a }) hi hp hkeeps.1 hds'
  obtain ⟨_, _, hframe⟩ :=
    (Session.commitIndex { r with splitAssembler := a } (Session.filterIndex p)).deliver_frame enc
  refine ⟨ds', ?_, hsame⟩
  have hassembler : (Session.commitIndex { r with splitAssembler := a } (Session.filterIndex p)).splitAssembler =
      a := by
    cases Session.filterIndex p <;> rfl
  unfold Of
  rw [hres, hframe]
  dsimp only
  rw [hassembler]
  rw [hres] at hcommit
  exact ⟨seen', base', hcommit⟩

/-- Handling a frame of a queued message. -/
theorem handleEncapsulated (hx : Indexed s log) (h : Of log r got out ds) (hm : m ∈ log) (hp : p ∈ m.frames)
    (now : Instant) (hkeeps : r.KeepsPacket log p) :
    ∃ ds', Of log (r.handleEncapsulated p now).2 (got ++ if (r.handleEncapsulated p now).1.isOk then [p] else [])
        (out ++ returned (r.handleEncapsulated p now).1) ds' ∧
      ((∀ q ∈ returned (r.handleEncapsulated p now).1, q.reliability.isUnordered = false) → ds' = ds) := by
  obtain ⟨i, hi⟩ := List.mem_iff_getElem?.1 hm
  have hcases := r.handleEncapsulated_cases p now
  generalize r.handleEncapsulated p now = res at hcases
  obtain ⟨seen, base, hk⟩ := id h
  have htakes := SplitAssembler.takes_add hx hk.inProgress hm hp hkeeps.2 now
  -- a frame is either returned by now or one that the receiver holds a part of
  cases hcases with
  | seen hidx hseen =>
    refine ⟨ds, ⟨seen, base, ?_⟩, fun _ => rfl⟩
    rw [returned, List.append_nil]
    exact hk.got_frame hx hi hp fun hplain => .inl (h.mem_of_seen hx hi hp hidx hseen hplain)
  | refused hadd =>
    rw [hadd] at htakes
    refine ⟨ds, ⟨seen, base, ?_⟩, fun _ => rfl⟩
    rw [returned, List.append_nil]
    refine (hk.take hx hi htakes ?_).mono (by simp [Except.isOk, Except.toBool]) (List.Sublist.refl _)
    rintro ⟨enc, henc⟩
    cases henc
  | pending hsplit hadd =>
    rw [hadd] at htakes
    refine ⟨ds, ⟨seen, base, ?_⟩, fun _ => rfl⟩
    rw [returned, List.append_nil]
    have htaken := hk.take hx hi htakes (by
      rintro ⟨enc, henc⟩
      cases henc)
    exact htaken.got_frame hx hi hp fun _ => .inr (htakes.held rfl)
  | delivered hnew hadd =>
    obtain ⟨ds', hds', hsame⟩ := h.delivered hx hi hp hkeeps hadd rfl
    refine ⟨ds', hds'.mono ?_ (List.Sublist.refl _), hsame⟩
    split
    · exact List.Subset.refl _
    · simp

end Packet

/-- What came out may be dropped again if none of it was such a message. -/
theorem drop (h : Of log r got out ds) {r' : Session F} {got' : List EncapsulatedPacket} {out' : List IncomingPacket}
    (h' : Of log r' got' out' ds) : Of log r' got' out ds := by
  obtain ⟨_, _, hold⟩ := h
  obtain ⟨seen, base, hnew⟩ := h'
  exact ⟨seen, base, { hnew with out := hold.out }⟩

/-- Handling the packets of a datagram: without an error all of them are kept. -/
theorem handleDataPayload (hx : Indexed s log) (now : Instant) (packets : List EncapsulatedPacket)
    (h : Of log r got out ds) (hframes : ∀ p ∈ packets, ∃ m ∈ log, p ∈ m.frames) (hkeeps : r.KeepsAll log now packets) :
    ∃ ds', Of log (r.handleDataPayload packets now).2
        (got ++ if (r.handleDataPayload packets now).1.isOk then packets else [])
        (out ++ returned (r.handleDataPayload packets now).1) ds' := by
  induction packets generalizing r got out ds with
  | nil =>
    refine ⟨ds, h.mono (by simp) ?_⟩
    exact List.sublist_append_left _ _
  | cons p rest ih =>
    obtain ⟨m, hm, hp⟩ := hframes p (List.mem_cons_self ..)
    obtain ⟨hfirst, hrest⟩ := hkeeps
    obtain ⟨ds₁, h₁, hsame⟩ := h.handleEncapsulated hx hm hp now hfirst
    have hframes' : ∀ q ∈ rest, ∃ m ∈ log, q ∈ m.frames := fun q hq => hframes q (List.mem_cons_of_mem _ hq)
    rcases hres₁ : r.handleEncapsulated p now with ⟨e | out₁, r₁⟩
    · rw [hres₁] at h₁
      rw [Session.handleDataPayload_cons_error rest hres₁]
      exact ⟨ds₁, h₁⟩
    · rw [hres₁] at h₁ hsame hrest
      obtain ⟨hdropped, hall⟩ := hrest
      rw [Session.handleDataPayload_cons_ok rest hres₁]
      cases hok : (r₁.handleDataPayload rest now).1 with
      | error e =>
        -- the error drops what came out of the first packet
        rw [hok] at hdropped
        obtain rfl := hsame (hdropped.resolve_right Bool.false_ne_true)
        obtain ⟨ds₂, h₂⟩ := ih (h.drop h₁) hframes' hall
        rw [hok] at h₂
        exact ⟨ds₂, h₂.mono (by simp [Except.map, Except.isOk, Except.toBool]) (List.Sublist.refl _)⟩
      | ok out₂ =>
        obtain ⟨ds₂, h₂⟩ := ih h₁ hframes' hall
        rw [hok] at h₂
        refine ⟨ds₂, h₂.mono (by simp [Except.map, Except.isOk, Except.toBool]) ?_⟩
        simp [returned, Except.map]

end KeepsPlain.Of

/-! ## When everything was handled -/

namespace KeepsPlain

variable {F : Type} {s : Session F} {log : List Message} {t : ReliableTracker} {a : SplitAssembler}
  {got : List EncapsulatedPacket} {out : List IncomingPacket} {ds seen : List Nat} {base : Nat}

/-- No message has all of its parts in the assembler. -/
theorem exists_not_holds (hx : Indexed s log) (h : a.InProgress log) {m : Message} (hm : m ∈ log) :
    ∃ p ∈ m.frames, ¬ a.Holds m p := by
  by_contra hall
  push Not at hall
  obtain ⟨p, hp⟩ := List.exists_mem_of_length_pos (hx.wellFormed m hm).frames_pos
  obtain ⟨split, hsplit, entry, hentry, hopened, -⟩ := hall p hp
  rcases m.frames_cases hp with ⟨payload, -, rfl⟩ | ⟨id, pieces, j, piece, hb, -, rfl⟩
  · cases hsplit
  · cases hsplit
    have hrel := hx.reliable_of_fragments hm hb
    have hfits := hx.countFits hm hrel
    obtain ⟨m', hm', pieces', hopen, hmissing⟩ := h id entry hentry
    obtain rfl := hx.opened_inj hm hm' hrel hopened hopen.opened
    have hbody := hopen.body
    rw [hb] at hbody
    cases hbody
    -- then the entry would have every part
    have hfull : ∀ part ∈ entry.parts, part.isSome = true := by
      intro part hpart
      obtain ⟨k, hk, rfl⟩ := List.getElem_of_mem hpart
      have hk' : k < pieces.length := hopen.length hfits ▸ hk
      have hframe : m.fragment id pieces.length k pieces[k] ∈ m.frames := by
        rw [Message.frames, hb]
        exact List.mem_mapIdx.2 ⟨k, hk', rfl⟩
      obtain ⟨split', hsplit', entry', hentry', -, b, hb'⟩ := hall _ hframe
      cases hsplit'
      rw [Option.mem_def] at hentry hentry'
      rw [hentry] at hentry'
      cases hentry'
      rw [SplitAssembler.toNat_index hb hfits (List.getElem?_eq_getElem hk'), List.getElem?_eq_getElem hk,
        Option.some.injEq] at hb'
      rw [hb']
      rfl
    rw [hopen.counted, List.countP_eq_length.2 hfull] at hmissing
    exact absurd hmissing (Nat.lt_irrefl _)

/-- When all frames were handled, every such message was returned. -/
theorem returned_all (hx : Indexed s log) (h : KeepsPlain log t a got out ds seen base)
    (hgot : ∀ m ∈ log, ∀ p ∈ m.frames, p ∈ got) : log.filterMap Message.plain <+~ out := by
  have hmem : ∀ i m, log[i]? = some m → m.plain.isSome = true → i ∈ ds := by
    intro i m hi hplain
    have hm := List.mem_of_getElem? hi
    obtain ⟨p, hp, hnot⟩ := exists_not_holds hx h.inProgress hm
    exact (h.kept i m p hi hplain hp (hgot m hm p hp)).resolve_right hnot
  have hpositions : (List.range log.length).filter (fun i => (plainAt log i).isSome) <+~ ds := by
    refine (List.nodup_range.filter _).subperm fun i hi => ?_
    obtain ⟨hlt, hplain⟩ := List.mem_filter.1 hi
    have hget := List.getElem?_eq_getElem (List.mem_range.1 hlt)
    rw [plainAt, hget, Option.bind_some] at hplain
    exact hmem i _ hget hplain
  have hsame : ((List.range log.length).filter fun i => (plainAt log i).isSome).filterMap (plainAt log) =
      log.filterMap Message.plain := by
    rw [List.filterMap_filter, ← filterMap_positions Message.plain log]
    refine List.filterMap_congr fun i _ => ?_
    unfold plainAt
    cases log[i]?.bind Message.plain <;> rfl
  rw [← hsame]
  exact (subperm_filterMap hpositions _).trans h.out.subperm

end KeepsPlain

/-! ## What is left alone -/

namespace Session

variable {F : Type} [Float64 F]

/-- An operation that neither handles a payload nor ticks. -/
def Still (op : Op) : Prop := Local op ∧ ∀ now iter, op ≠ .onTick now iter

theorem step_still (s : Session F) {op : Op} (h : Still op) :
    (s.step op).reliableTracker = s.reliableTracker ∧ (s.step op).splitAssembler = s.splitAssembler := by
  have hcases := s.step_cases op
  generalize s.step op = s' at hcases
  cases hcases with
  | queuePacket hsame =>
    obtain ⟨_, _, _, _, _, _, hstep⟩ := hsame
    rw [hstep]
    exact ⟨rfl, rfl⟩
  | handleDataPayload _ => exact absurd rfl (h.1 _ _)
  | onTick => exact absurd rfl (h.2 _ _)
  | _ => exact ⟨rfl, rfl⟩

omit [Float64 F] in
theorem prune_of_noneExpired {a : SplitAssembler} {now : Instant}
    (h : ∀ item ∈ a.entries.entries, a.expired now item.2 = false) (iter : IterOrder SplitEntries.Item) :
    (a.prune now iter).2 = a := by
  have hkept : a.entries.entries.filter (fun item => !a.expired now item.2) = a.entries.entries :=
    List.filter_eq_self.2 fun item hitem => by rw [h item hitem, Bool.not_false]
  unfold SplitAssembler.prune
  simp only [hkept]

/-- A tick in which no entry expires. -/
theorem onTick_still {s : Session F} {now : Instant}
    (h : ∀ item ∈ s.splitAssembler.entries.entries, s.splitAssembler.expired now item.2 = false)
    (iter : IterOrder SplitEntries.Item) : (s.onTick now iter).2.reliableTracker = s.reliableTracker ∧
      (s.onTick now iter).2.splitAssembler = s.splitAssembler := by
  have hcases := s.step_cases (.onTick now iter)
  rw [step] at hcases
  generalize (s.onTick now iter).2 = s' at hcases
  cases hcases with
  | onTick => exact ⟨rfl, prune_of_noneExpired h iter⟩

end Session

theorem KeepsPlain.Of.reach {F : Type} [Float64 F] {r r' : Session F} {log : List Message}
    {got : List EncapsulatedPacket} {out : List IncomingPacket} {ds : List Nat} (h : Of log r got out ds)
    (hreach : ManagedSession.InnerReach Session.Still r r') : Of log r' got out ds :=
  hreach.inv (I := fun r => Of log r got out ds)
    (fun r _ hop h => h.of_same (r.step_still hop).1 (r.step_still hop).2) h

/-! ## Runs -/

namespace ManagedLink

variable {F : Type} [Float64 F] {start : Instant}

theorem handlerOp_still (op : Session.Op) (h : ManagedSession.HandlerOp op) : Session.Still op := by
  refine ⟨handlerOp_local op h, ?_⟩
  rintro now iter rfl
  exact h

/-- The invariant of a link. -/
structure AtLeastOnce (x : ManagedLink F) : Prop where
  sender : x.sender.Inv
  keeps : ∃ ds, KeepsPlain.Of x.sender.log x.receiver.inner (x.accepted.flatMap Datagram.packets) x.returned ds

theorem AtLeastOnce.arrive {x : ManagedLink F} (h : AtLeastOnce x) (hx : Indexed x.sender.session x.sender.log)
    {d : Datagram} (hd : d ∈ x.sender.sent) {now : Instant} (hclosed : x.receiver.state = .closed → d ∈ x.accepted)
    (hopen : x.receiver.state ≠ .closed → x.receiver.inner.KeepsAll x.sender.log now d.packets) :
    AtLeastOnce (x.arrive start d now) := by
  refine ⟨h.sender, ?_⟩
  obtain ⟨ds, hkeeps⟩ := h.keeps
  unfold ManagedLink.arrive
  by_cases hstate : x.receiver.state = .closed
  · simp only [ManagedSession.handleDatagram_closed start hstate]
    refine ⟨ds, hkeeps.mono ?_ (List.sublist_append_left _ _)⟩
    rw [List.flatMap_append]
    refine List.append_subset.2 ⟨List.Subset.refl _, ?_⟩
    -- the datagram was accepted before
    rintro p hp
    obtain ⟨d', hd', hp⟩ := List.mem_flatMap.1 hp
    rw [show d' = d by simpa [Except.isOk, Except.toBool] using hd'] at hp
    exact List.mem_flatMap.2 ⟨d, hclosed hstate, hp⟩
  · obtain ⟨hout, hinner⟩ := ManagedSession.handleDatagram_open handlerOp_still start hstate d now
    obtain ⟨ds', hds'⟩ := hkeeps.handleDataPayload hx now d.packets (h.sender.framed.sent d hd) (hopen hstate)
    refine ⟨ds', KeepsPlain.Of.reach ?_ hinner⟩
    simp only [hout, returned_mapError]
    refine hds'.mono ?_ (List.Sublist.refl _)
    rw [List.flatMap_append]
    cases (x.receiver.inner.handleDataPayload d.packets now).1 with
    | error e => simp [Except.mapError, Except.isOk, Except.toBool]
    | ok out => simp [Except.mapError, Except.isOk, Except.toBool]

theorem AtLeastOnce.receive {x : ManagedLink F} (h : AtLeastOnce x) (op : ManagedSession.Op)
    (hlocal : ∀ dgram now, op ≠ .handleDatagram dgram now) (hexpiry : x.NoneExpires (.receive op hlocal)) :
    AtLeastOnce (x.step start (.receive op hlocal)) := by
  refine ⟨h.sender, ?_⟩
  obtain ⟨ds, hkeeps⟩ := h.keeps
  refine ⟨ds, ?_⟩
  rw [ManagedLink.step]
  cases op with
  | onTick now iter =>
    have hbefore := x.receiver.beforeTick_inner handlerOp_still start now
    -- what comes before the session's own tick leaves the assembler alone, so the entries still do not expire
    have hsame : (x.receiver.beforeTick start now).inner.splitAssembler = x.receiver.inner.splitAssembler :=
      hbefore.inv (I := fun r => r.splitAssembler = x.receiver.inner.splitAssembler)
        (fun r op hop heq => (r.step_still hop).2.trans heq) rfl
    have hexpiry' : ∀ item ∈ (x.receiver.beforeTick start now).inner.splitAssembler.entries.entries,
        (x.receiver.beforeTick start now).inner.splitAssembler.expired now item.2 = false := by
      rw [hsame]
      exact hexpiry
    have htick := Session.onTick_still hexpiry' iter
    dsimp only
    rw [ManagedSession.step, (x.receiver.onTick_eq start now iter).2]
    exact (hkeeps.reach hbefore).of_same htick.1 htick.2
  | handleDatagram dgram now => exact absurd rfl (hlocal dgram now)
  | _ =>
    refine hkeeps.reach (x.receiver.step_inner handlerOp_still start _ ?_ ?_ ?_)
    · rintro now iter hop
      cases hop
    · rintro dgram now hop
      cases hop
    · rintro pkt rel channel priority clock hop -
      exact ⟨fun packets now hdata => (by cases hdata), fun now iter htick => (by cases htick)⟩

theorem AtLeastOnce.step {x : ManagedLink F} (h : AtLeastOnce x) {op : Op}
    (hx : Indexed (x.step start op).sender.session (x.step start op).sender.log) (hkeeps : x.Keeps op)
    (hexpiry : x.NoneExpires op) : AtLeastOnce (x.step start op) := by
  cases op with
  | send op =>
    obtain ⟨ds, hds⟩ := h.keeps
    exact ⟨h.sender.step op, ds, hds.append _ hx⟩
  | deliver i now =>
    rw [ManagedLink.step] at hx ⊢
    cases hd : x.sender.sent[i]? with
    | none => exact h
    | some d =>
      rw [hd] at hx
      obtain ⟨hclosed, hopen⟩ := hkeeps d hd
      exact h.arrive hx (List.mem_of_getElem? hd) hclosed hopen
  | receive op hlocal => exact h.receive op hlocal hexpiry

theorem AtLeastOnce.run (ops : List Op) {x : ManagedLink F} (h : AtLeastOnce x)
    (hkeeps : Machine.Along (ManagedLink.step start) ManagedLink.Keeps x ops)
    (hexpiry : Machine.Along (ManagedLink.step start) NoneExpires x ops)
    (hreliable : reliableCount (Machine.run (ManagedLink.step start) x ops).sender.log < 2 ^ 23) :
    AtLeastOnce (Machine.run (ManagedLink.step start) x ops) := by
  induction ops generalizing x with
  | nil => exact h
  | cons op ops ih =>
    have hsender : (x.step start op).sender.Inv := by
      cases op with
      | send op => exact h.sender.step op
      | deliver i now =>
        rw [ManagedLink.step]
        split <;> exact h.sender
      | receive op hlocal => exact h.sender
    obtain ⟨more, hlog⟩ := log_grows start ops (x.step start op)
    have hx : Indexed (x.step start op).sender.session (x.step start op).sender.log := by
      refine ⟨hsender.numbered, hsender.wellFormed, ?_⟩
      rw [Machine.run_cons, ← hlog, reliableCount_append] at hreliable
      omega
    exact ih (h.step hx hkeeps.1 hexpiry.1) hkeeps.2 hexpiry.2 hreliable

/-- At-least-once delivery. In every run in which an open receiver keeps what it handles and no split entry
expires, with fewer than `2 ^ 23` reliable indexes: once nothing is left to be sent and every DATA datagram was
accepted, all user data queued reliably and for no ordering channel, whole or fragmented, was returned to the
receiver's caller. -/
theorem queued_subperm_returned (mtu : Nat) (tunables : SessionTunables) (peer : SocketAddr) (mtu' : Nat)
    (now : Instant) (config : SessionConfig) (ops : List Op)
    (hkeeps :
      Machine.Along (step start) Keeps (new mtu tunables (.withConfig peer mtu' now config) : ManagedLink F) ops)
    (hexpiry : Machine.Along (step start) NoneExpires
      (new mtu tunables (.withConfig peer mtu' now config) : ManagedLink F) ops)
    (hreliable :
      reliableCount (Machine.run (step start) (new mtu tunables (.withConfig peer mtu' now config) : ManagedLink F)
        ops).sender.log < 2 ^ 23)
    (hsent : (Machine.run (step start) (new mtu tunables (.withConfig peer mtu' now config) : ManagedLink F)
      ops).sender.session.outgoingHeap.isEmpty = true)
    (haccepted : ∀ d ∈ (Machine.run (step start) (new mtu tunables (.withConfig peer mtu' now config) : ManagedLink F)
        ops).sender.sent, d.isData = true →
      d ∈ (Machine.run (step start) (new mtu tunables (.withConfig peer mtu' now config) : ManagedLink F)
        ops).accepted) :
    (Machine.run (step start) (new mtu tunables (.withConfig peer mtu' now config) : ManagedLink F)
        ops).sender.log.filterMap Message.plain <+~
      (Machine.run (step start) (new mtu tunables (.withConfig peer mtu' now config) : ManagedLink F)
        ops).returned := by
  have hnew : AtLeastOnce (new mtu tunables (.withConfig peer mtu' now config) : ManagedLink F) :=
    ⟨.new mtu tunables, [], [], 0, KeepsPlain.new _ _ _ _⟩
  obtain ⟨hsender, ds, seen, base, hds⟩ := hnew.run ops hkeeps hexpiry hreliable
  refine hds.returned_all ⟨hsender.numbered, hsender.wellFormed, hreliable⟩ fun m hm p hp => ?_
  -- every frame of every message is still in the heap, which is empty, or was sent and so accepted
  rcases hsender.framed.complete m hm p hp with hheap | ⟨d, hd, hpd⟩
  · rw [BinaryHeap.isEmpty, List.isEmpty_iff] at hsent
    rw [hsent] at hheap
    cases hheap
  · refine List.mem_flatMap.2 ⟨d, haccepted d hd ?_, hpd⟩
    by_contra hdata
    rw [Datagram.packets_of_not_isData (by simpa using hdata)] at hpd
    cases hpd

/-- The sender gets an ACK of one datagram. -/
def acknowledge (seq : Nat) : List Op :=
  [.send (.handleAckPayload ⟨[⟨Sequence24.new seq, Sequence24.new seq⟩]⟩), .send (.onTick 0 (IterOrder.stored _))]

/-- A whole and a fragmented message are sent in three datagrams. The last one arrives first, and the first one
twice. -/
def fragmentedRun : List Op :=
  [.send (.queuePacket (.userData 0x80 [1]) .reliable 0 .normal),
    .send (.queuePacket (.userData 0x80 (List.replicate 600 2)) .reliable 0 .normal), .send (.buildDataDatagram 0)] ++
  acknowledge 0 ++ [.send (.buildDataDatagram 0)] ++ acknowledge 1 ++ [.send (.buildDataDatagram 0)] ++
  [.deliver 2 0, .deliver 0 0, .deliver 1 0, .deliver 0 0]

theorem queued_subperm_returned_fragmented :
    (Machine.run (step 0) (new 576 {} (.withConfig .loopbackV4 1400 0 {}) : ManagedLink ℚ)
        fragmentedRun).sender.log.filterMap Message.plain <+~
      (Machine.run (step 0) (new 576 {} (.withConfig .loopbackV4 1400 0 {}) : ManagedLink ℚ) fragmentedRun).returned :=
  queued_subperm_returned 576 {} .loopbackV4 1400 0 {} fragmentedRun (by decide +kernel) (by decide +kernel)
    (by decide +kernel)
    (by decide +kernel) (by decide +kernel)

/-! ## A message that is lost -/

/-- The reliable indexes of the packets of some datagrams. -/
def reliableIndexes (ds : List Datagram) : List Nat :=
  ds.flatMap fun d => d.packets.filterMap fun p => p.reliableIndex.map Sequence24.val

/-- A step in which no reliable index arrives more than the window ahead of the smallest one not received yet. -/
def ArrivesInWindow (x : ManagedLink F) : Op → Prop
  | .deliver i _ => ∀ d ∈ x.sender.sent[i]?, ∀ n ∈ reliableIndexes [d],
    n ≤ ReliableTracker.firstUnseen (reliableIndexes x.accepted) + x.receiver.inner.reliableTracker.maxWindow
  | .send _ | .receive .. => True

omit [Float64 F] in
instance (x : ManagedLink F) : ∀ op, Decidable (x.ArrivesInWindow op)
  | .deliver i _ => inferInstanceAs (Decidable (∀ d ∈ x.sender.sent[i]?, ∀ n ∈ reliableIndexes [d], _))
  | .send _ | .receive .. => inferInstanceAs (Decidable True)

/-- Four messages are sent one by one, and arrive in the order 2, 0, 3, 1. -/
def crossedRun : List Op :=
  ([0, 1, 2, 3].flatMap fun n =>
    [.send (.queuePacket (.userData 0x80 [n]) .reliable 0 .normal), .send (.buildDataDatagram 0)]) ++
  [.deliver 2 0, .deliver 0 0, .deliver 3 0, .deliver 1 0]

theorem queued_not_subperm_crossed : ¬ ∀ (start : Instant) (mtu : Nat) (tunables : SessionTunables) (peer : SocketAddr)
    (mtu' : Nat) (now : Instant) (config : SessionConfig) (ops : List Op),
    Machine.Along (step start) ArrivesInWindow
      (new mtu tunables (.withConfig peer mtu' now config) : ManagedLink ℚ) ops →
    Machine.Along (step start) NoneExpires (new mtu tunables (.withConfig peer mtu' now config) : ManagedLink ℚ) ops →
    reliableCount (Machine.run (step start) (new mtu tunables (.withConfig peer mtu' now config) : ManagedLink ℚ)
      ops).sender.log < 2 ^ 23 →
    (Machine.run (step start) (new mtu tunables (.withConfig peer mtu' now config) : ManagedLink ℚ)
      ops).sender.session.outgoingHeap.isEmpty = true →
    (∀ d ∈ (Machine.run (step start) (new mtu tunables (.withConfig peer mtu' now config) : ManagedLink ℚ)
        ops).sender.sent,
      d.isData = true →
      d ∈ (Machine.run (step start) (new mtu tunables (.withConfig peer mtu' now config) : ManagedLink ℚ)
        ops).accepted) →
    (Machine.run (step start) (new mtu tunables (.withConfig peer mtu' now config) : ManagedLink ℚ)
        ops).sender.log.filterMap Message.plain <+~
      (Machine.run (step start) (new mtu tunables (.withConfig peer mtu' now config) : ManagedLink ℚ)
        ops).returned := by
  intro h
  have hdelivered :=
    (h 0 1400 {} .loopbackV4 1400 0 {} crossedRun (by decide +kernel) (by decide +kernel) (by decide +kernel)
      (by decide +kernel) (by decide +kernel)).length_le
  revert hdelivered
  decide +kernel

end ManagedLink

end BedrockRs.Raknet

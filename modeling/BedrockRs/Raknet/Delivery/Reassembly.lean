/-
Reassembly against the messages that were queued: every entry of the assembler collects the parts of
one message (`AssemblerOf`), and what a fragment completes carries that message (`add_frame`). Needs
split ids to be unambiguous, and part counts that their `u32` field holds.
-/
import BedrockRs.Raknet.Delivery.Sender
import BedrockRs.Raknet.Session.InboundSpec

namespace BedrockRs.Raknet

open Lib

/-! ## Packets and entries of a message -/

namespace Message

/-- The number of parts fits the field it is sent in. -/
def CountFits (m : Message) : Prop := m.frames.length < 2 ^ 32

instance (m : Message) : Decidable m.CountFits := inferInstanceAs (Decidable (_ < _))

/-- A whole or reassembled packet with the metadata and, if its parts can be counted, the payload of
a message. -/
structure CarriedBy (m : Message) (enc : EncapsulatedPacket) : Prop where
  reliability : enc.header.reliability = m.reliability
  channel : enc.orderingChannel = m.orderingIndex.map fun _ => m.channel
  index : enc.orderingIndex = m.orderingIndex
  payload : m.CountFits → enc.payload = m.payload

/-- An entry that collects the parts of a message. -/
structure EntryOf (m : Message) (id : UInt16) (pieces : List Bytes) (entry : SplitEntry) : Prop where
  body : m.body = .fragments id pieces
  reliability : entry.reliability = m.reliability
  channel : entry.orderingChannel = m.orderingIndex.map fun _ => m.channel
  index : entry.orderingIndex = m.orderingIndex
  length : m.CountFits → entry.parts.length = pieces.length
  parts : m.CountFits → ∀ (i : Nat) (b : Bytes), entry.parts[i]? = some (some b) → pieces[i]? = some b

/-- A frame is the whole message, or one of its pieces. -/
theorem frames_cases {m : Message} {p : EncapsulatedPacket} (h : p ∈ m.frames) :
    (∃ payload, m.body = .whole payload ∧
      p = Session.singleEncap payload m.reliability m.channel (m.reliableIndex 0) m.orderingIndex) ∨
    ∃ id pieces i piece, m.body = .fragments id pieces ∧ pieces[i]? = some piece ∧
      p = m.fragment id pieces.length i piece := by
  unfold frames at h
  cases hb : m.body with
  | whole payload =>
    rw [hb] at h
    exact .inl ⟨payload, rfl, List.mem_singleton.1 h⟩
  | fragments id pieces =>
    rw [hb] at h
    obtain ⟨i, hi, rfl⟩ := List.mem_mapIdx.1 h
    exact .inr ⟨id, pieces, i, pieces[i], rfl, List.getElem?_eq_getElem hi, rfl⟩

theorem length_frames {m : Message} {id : UInt16} {pieces : List Bytes} (h : m.body = .fragments id pieces) :
    m.frames.length = pieces.length := by
  rw [frames, h, List.length_mapIdx]

theorem carriedBy_whole {m : Message} {payload : Bytes} (h : m.body = .whole payload) :
    m.CarriedBy (Session.singleEncap payload m.reliability m.channel (m.reliableIndex 0) m.orderingIndex) :=
  ⟨rfl, rfl, rfl, fun _ => by rw [Message.payload, h]; rfl⟩

end Message

/-! ## Joining parts -/

namespace SplitAssembler

/-- Parts that agree with the pieces join to the whole. -/
theorem joinParts_pieces : ∀ {parts : List (Option Bytes)} {pieces : List Bytes} {payload : Bytes},
    parts.length = pieces.length → (∀ (i : Nat) (b : Bytes), parts[i]? = some (some b) → pieces[i]? = some b) →
    joinParts parts = .ok payload → payload = pieces.flatten
  | [], [], payload, _, _, h => by
    cases h; rfl
  | none :: parts, piece :: pieces, payload, _, _, h => by
    cases h
  | some part :: parts, piece :: pieces, payload, hlen, hparts, h => by
    simp only [joinParts, bind, Except.bind] at h
    split at h
    · cases h
    · rename_i rest hrest
      cases h
      have hpart : piece = part := by
        have := hparts 0 part rfl
        simpa using this
      have ih :=
        joinParts_pieces (by simpa using hlen) (fun i b hb => by simpa using hparts (i + 1) b (by simpa using hb)) hrest
      rw [hpart, ih, List.flatten_cons]

/-- Every entry collects the parts of a queued message. -/
def AssemblerOf (log : List Message) (a : SplitAssembler) : Prop :=
  ∀ id entry, a.entries.lookup id = some entry → ∃ m ∈ log, ∃ pieces, m.EntryOf id pieces entry

namespace AssemblerOf

variable {log : List Message} {a : SplitAssembler}

theorem new (ttl : Duration) (maxParts maxConcurrent : Nat) :
    AssemblerOf [] (SplitAssembler.new ttl maxParts maxConcurrent) := by
  intro id entry h
  simp [SplitAssembler.new] at h

theorem append (h : AssemblerOf log a) (new : List Message) : AssemblerOf (log ++ new) a := by
  intro id entry he
  obtain ⟨m, hm, pieces, hentry⟩ := h id entry he
  exact ⟨m, List.mem_append_left _ hm, pieces, hentry⟩

theorem insert (h : AssemblerOf log a) {m : Message} (hm : m ∈ log) {id : UInt16} {pieces : List Bytes}
    {entry : SplitEntry} (hentry : m.EntryOf id pieces entry) :
    AssemblerOf log { a with entries := a.entries.insert id entry } :=
  HashMap.every_insert h ⟨m, hm, pieces, hentry⟩

theorem erase (h : AssemblerOf log a) (id : UInt16) : AssemblerOf log { a with entries := a.entries.erase id } :=
  HashMap.every_erase h id

theorem prune (h : AssemblerOf log a) (now : Instant) (iter : IterOrder SplitEntries.Item) :
    AssemblerOf log (a.prune now iter).2 :=
  HashMap.every_retain h fun entry => !a.expired now entry

end AssemblerOf

section Entry

variable {m : Message} {id : UInt16} {pieces : List Bytes} {i : Nat} {piece : Bytes}

/-- An entry that a fragment opens has no part yet. -/
theorem entryOf_openEntry (hb : m.body = .fragments id pieces) (i : Nat) (piece : Bytes) (now : Instant) :
    m.EntryOf id pieces
    (openEntry (m.fragment id pieces.length i piece) ⟨UInt32.ofNat pieces.length, id, UInt32.ofNat i⟩ now) := by
  refine ⟨hb, rfl, rfl, rfl, fun hfits => ?_, fun _ j b hj => ?_⟩
  · have hlen : pieces.length < 2 ^ 32 := m.length_frames hb ▸ hfits
    simp only [openEntry, List.length_replicate]
    exact UInt32.toNat_ofNat_of_lt' hlen
  · simp only [openEntry, List.getElem?_replicate] at hj
    split at hj <;> cases hj

theorem toNat_index (hb : m.body = .fragments id pieces) (hfits : m.CountFits) (hi : pieces[i]? = some piece) :
    (UInt32.ofNat i).toNat = i :=
  UInt32.toNat_ofNat_of_lt' (Nat.lt_trans (List.getElem?_eq_some_iff.1 hi).1 (m.length_frames hb ▸ hfits))

/-- Filling in a piece at its place. -/
theorem entryOf_fillPart {entry : SplitEntry} (h : m.EntryOf id pieces entry) (hi : pieces[i]? = some piece)
    (now : Instant) : m.EntryOf id pieces (fillPart entry (UInt32.ofNat i).toNat piece now) := by
  refine ⟨h.body, h.reliability, h.channel, h.index, fun hfits => ?_, fun hfits j b hj => ?_⟩
  · rw [fillPart, List.length_set]
    exact h.length hfits
  · simp only [fillPart, toNat_index h.body hfits hi, List.getElem?_set] at hj
    split at hj
    · rename_i hij
      subst hij
      split at hj
      · cases hj; exact hi
      · cases hj
    · exact h.parts hfits j b hj

end Entry

section Add

variable {F : Type} {s : Session F} {log : List Message} {a : SplitAssembler}

/-- The entry a fragment of a message is added to collects the parts of that message. -/
theorem entryFor_entryOf (hn : Numbered s log) (hlt : fragmentedCount log < 2 ^ 16) (h : AssemblerOf log a)
    {m : Message} (hm : m ∈ log) {id : UInt16} {pieces : List Bytes} (hb : m.body = .fragments id pieces) (i : Nat)
    (piece : Bytes) (now : Instant) : m.EntryOf id pieces
      (a.entryFor (m.fragment id pieces.length i piece) ⟨UInt32.ofNat pieces.length, id, UInt32.ofNat i⟩ now) := by
  unfold entryFor
  cases hl : a.entries.lookup id with
  | some entry =>
    obtain ⟨m', hm', pieces', hentry⟩ := h id entry hl
    obtain ⟨k, hk⟩ := List.mem_iff_getElem?.1 hm
    obtain ⟨k', hk'⟩ := List.mem_iff_getElem?.1 hm'
    obtain rfl := hn.fragments_inj hlt hk hk' hb hentry.body
    rw [hk] at hk'
    cases hk'
    have hp := hentry.body
    rw [hb] at hp
    cases hp
    exact hentry
  | none => exact entryOf_openEntry hb i piece now

theorem filled_entryOf (hn : Numbered s log) (hlt : fragmentedCount log < 2 ^ 16) (h : AssemblerOf log a) {m : Message}
    (hm : m ∈ log) {id : UInt16} {pieces : List Bytes} (hb : m.body = .fragments id pieces) {i : Nat} {piece : Bytes}
    (hi : pieces[i]? = some piece) (now : Instant) : m.EntryOf id pieces
      (a.filled (m.fragment id pieces.length i piece) ⟨UInt32.ofNat pieces.length, id, UInt32.ofNat i⟩ now) :=
  entryOf_fillPart (entryFor_entryOf hn hlt h hm hb i piece now) hi now

/-- Adding a frame of a queued message: the entries stay collections of parts, and a packet that
comes out carries the message. -/
theorem add_frame (hn : Numbered s log) (hlt : fragmentedCount log < 2 ^ 16) (h : AssemblerOf log a) {m : Message}
    (hm : m ∈ log) {p : EncapsulatedPacket} (hp : p ∈ m.frames) (now : Instant) :
    AssemblerOf log (a.add p now).2 ∧ ∀ enc, (a.add p now).1 = .ok (some enc) → m.CarriedBy enc := by
  rcases m.frames_cases hp with ⟨payload, hb, rfl⟩ | ⟨id, pieces, i, piece, hb, hi, rfl⟩
  · rw [add_of_whole rfl]
    exact ⟨h, fun enc henc => by cases henc; exact m.carriedBy_whole hb⟩
  · have hfilled := filled_entryOf hn hlt h hm hb hi now
    -- in each case the entry is the one of the message with its id, since ids do not come round in the log
    have hcases := a.add_cases (m.fragment id pieces.length i piece) now
    generalize a.add (m.fragment id pieces.length i piece) now = res at hcases
    cases hcases with
    | whole hw => cases hw
    | refused _ => exact ⟨h, fun enc henc => by cases henc⟩
    | opened hadmits hnone _ =>
      cases hadmits.info
      have hentry := entryFor_entryOf hn hlt h hm hb i piece now
      rw [entryFor, hnone] at hentry
      exact ⟨h.insert hm hentry, fun enc henc => by cases henc⟩
    | duplicate _ => exact ⟨h, fun enc henc => by cases henc⟩
    | stored hfits _ =>
      cases hfits.admits.info
      exact ⟨h.insert hm hfilled, fun enc henc => by cases henc⟩
    | broken hfits _ _ =>
      cases hfits.admits.info
      exact ⟨h.insert hm hfilled, fun enc henc => by cases henc⟩
    | completed hfits _ hjoin =>
      cases hfits.admits.info
      refine ⟨h.erase id, fun enc henc => ?_⟩
      cases henc
      refine ⟨hfilled.reliability, hfilled.channel, hfilled.index, fun hcount => ?_⟩
      rw [Message.payload, hb]
      exact joinParts_pieces (hfilled.length hcount) (hfilled.parts hcount) hjoin

end Add

end SplitAssembler

end BedrockRs.Raknet

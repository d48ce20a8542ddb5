/-
What `SplitAssembler::add` can do, said once (`add_cases`): pass a whole packet on, refuse a
fragment and change nothing, refuse it with a new entry left behind, ignore a part it has, store a
part, or complete a message.
-/
import BedrockRs.Lib.HashMap
import BedrockRs.Raknet.Session.SplitAssembler

namespace BedrockRs.Raknet.SplitAssembler

open Lib

/-- The entry a fragment is added to: the one stored under its id, or a new one. -/
def entryFor (a : SplitAssembler) (pkt : EncapsulatedPacket) (split : SplitInfo) (now : Instant) : SplitEntry :=
  (a.entries.lookup split.id).getD (openEntry pkt split now)

/-- The entry with the part of the fragment. -/
def filled (a : SplitAssembler) (pkt : EncapsulatedPacket) (split : SplitInfo) (now : Instant) : SplitEntry :=
  fillPart (a.entryFor pkt split now) split.index.toNat pkt.payload now

/-- A fragment with split info that passes the limits on parts and on entries. -/
structure Admits (a : SplitAssembler) (pkt : EncapsulatedPacket) (split : SplitInfo) : Prop where
  isSplit : pkt.header.isSplit = true
  info : pkt.split = some split
  count : split.count.toNat ≤ a.maxParts
  room : a.entries.entries.length < a.maxConcurrent ∨ (a.entries.lookup split.id).isSome = true

/-- A fragment that is refused before anything is stored. -/
inductive Refuses (a : SplitAssembler) (pkt : EncapsulatedPacket) : DecodeError → Prop
  | noInfo (hsplit : pkt.header.isSplit = true) (h : pkt.split = none) : Refuses a pkt .missingSplitInfo
  | tooLarge {split : SplitInfo} (hsplit : pkt.header.isSplit = true) (h : pkt.split = some split)
      (hcount : split.count.toNat > a.maxParts) : Refuses a pkt .splitTooLarge
  | full {split : SplitInfo} (hsplit : pkt.header.isSplit = true) (h : pkt.split = some split)
      (hcount : split.count.toNat ≤ a.maxParts) (hlen : a.entries.entries.length ≥ a.maxConcurrent)
      (hnone : a.entries.lookup split.id = none) : Refuses a pkt .splitBufferFull
  | mismatch {split : SplitInfo} {entry : SplitEntry} (h : a.Admits pkt split)
      (hentry : a.entries.lookup split.id = some entry) (hlen : entry.parts.length ≠ split.count.toNat) :
      Refuses a pkt .splitCountMismatch
  | outOfRange {split : SplitInfo} {entry : SplitEntry} (h : a.Admits pkt split)
      (hentry : a.entries.lookup split.id = some entry) (hlen : entry.parts.length = split.count.toNat)
      (hindex : entry.parts.length ≤ split.index.toNat) : Refuses a pkt .splitIndexOutOfRange

theorem Refuses.isSplit {a : SplitAssembler} {pkt : EncapsulatedPacket} {e : DecodeError} (h : a.Refuses pkt e) :
    pkt.header.isSplit = true := by
  cases h with
  | noInfo h | tooLarge h | full h => exact h
  | mismatch h | outOfRange h => exact h.isSplit

/-- A fragment whose part is already there. -/
structure Duplicate (a : SplitAssembler) (pkt : EncapsulatedPacket) (split : SplitInfo) (entry : SplitEntry) :
    Prop where
  admits : a.Admits pkt split
  stored : a.entries.lookup split.id = some entry
  length : entry.parts.length = split.count.toNat
  part : ∃ part, entry.parts[split.index.toNat]? = some (some part)

/-- A fragment whose part is missing. -/
structure Fits (a : SplitAssembler) (pkt : EncapsulatedPacket) (split : SplitInfo) (now : Instant) : Prop where
  admits : a.Admits pkt split
  length : (a.entryFor pkt split now).parts.length = split.count.toNat
  part : (a.entryFor pkt split now).parts[split.index.toNat]? = some none

/-- What `add` can do. -/
inductive Added (a : SplitAssembler) (pkt : EncapsulatedPacket) (now : Instant) :
    Except DecodeError (Option EncapsulatedPacket) × SplitAssembler → Prop
  | whole (h : pkt.header.isSplit = false) : Added a pkt now (.ok (some pkt), a)
  | refused {e : DecodeError} (h : a.Refuses pkt e) : Added a pkt now (.error e, a)
  | opened {split : SplitInfo} (h : a.Admits pkt split) (hnone : a.entries.lookup split.id = none)
      (hindex : split.count.toNat ≤ split.index.toNat) : Added a pkt now
      (.error .splitIndexOutOfRange, { a with entries := a.entries.insert split.id (openEntry pkt split now) })
  | duplicate {split : SplitInfo} {entry : SplitEntry} (h : a.Duplicate pkt split entry) : Added a pkt now (.ok none, a)
  | stored {split : SplitInfo} (h : a.Fits pkt split now)
      (hmore : (a.filled pkt split now).received ≠ (a.filled pkt split now).parts.length) : Added a pkt now
      (.ok none, { a with entries := a.entries.insert split.id (a.filled pkt split now) })
  | broken {split : SplitInfo} {e : DecodeError} (h : a.Fits pkt split now)
      (hall : (a.filled pkt split now).received = (a.filled pkt split now).parts.length)
      (hjoin : joinParts (a.filled pkt split now).parts = .error e) : Added a pkt now
      (.error e, { a with entries := a.entries.insert split.id (a.filled pkt split now) })
  | completed {split : SplitInfo} {payload : Bytes} (h : a.Fits pkt split now)
      (hall : (a.filled pkt split now).received = (a.filled pkt split now).parts.length)
      (hjoin : joinParts (a.filled pkt split now).parts = .ok payload) : Added a pkt now
      (.ok (some (assembled (a.filled pkt split now) payload)), { a with entries := a.entries.erase split.id })

theorem erase_insert (entries : SplitEntries) (id : UInt16) (entry : SplitEntry) :
    (entries.insert id entry).erase id = entries.erase id := by
  apply AList.ext
  show (entries.insert id entry).entries.kerase id = entries.entries.kerase id
  simp [AList.entries_insert]

/-- `addPart` after `entryOrInsert`, which may have stored the new entry already: the second store and
the removal both replace it. -/
theorem addPart_cases {a : SplitAssembler} {pkt : EncapsulatedPacket} {split : SplitInfo} {now : Instant}
    (h : a.Fits pkt split now) (a' : SplitAssembler) {entry : SplitEntry} (hentry : entry = a.entryFor pkt split now)
    (ha' : a' = a ∨ a' = { a with entries := a.entries.insert split.id entry }) :
    a.Added pkt now (a'.addPart split.id entry split.index.toNat pkt.payload now) := by
  subst hentry
  -- whether the entry was stored before does not matter to what is stored now
  have hinsert : ∀ e, ({ a' with entries := a'.entries.insert split.id e } : SplitAssembler) =
      { a with entries := a.entries.insert split.id e } := by
    rintro e
    rcases ha' with rfl | rfl
    · rfl
    · simp only [AList.insert_insert]
  have herase : ({ a' with entries := a'.entries.erase split.id } : SplitAssembler) =
      { a with entries := a.entries.erase split.id } := by
    rcases ha' with rfl | rfl
    · rfl
    · simp only [erase_insert]
  unfold addPart
  simp only
  rw [hinsert, herase]
  split
  · rename_i hmore
    exact .stored h hmore
  · rename_i hall
    rw [not_not] at hall
    split
    · rename_i e hjoin
      exact .broken h hall hjoin
    · rename_i payload hjoin
      exact .completed h hall hjoin

theorem add_cases (a : SplitAssembler) (pkt : EncapsulatedPacket) (now : Instant) :
    a.Added pkt now (a.add pkt now) := by
  unfold add
  split
  · rename_i hs
    exact .whole (by simpa using hs)
  · rename_i hs
    have hs : pkt.header.isSplit = true := by simpa using hs
    split
    · rename_i hnone
      exact .refused (.noInfo hs hnone)
    · rename_i split hsplit
      split
      · rename_i hcount
        exact .refused (.tooLarge hs hsplit hcount)
      · rename_i hcount
        split
        · rename_i hfull
          exact .refused (.full hs hsplit (Nat.le_of_not_lt hcount) hfull.1 (Option.isNone_iff_eq_none.1 hfull.2))
        · rename_i hroom
          have hadmits : a.Admits pkt split := by
            refine ⟨hs, hsplit, Nat.le_of_not_lt hcount, ?_⟩
            rw [not_and_or, not_le] at hroom
            exact hroom.imp_right fun h => Option.isSome_iff_ne_none.2 fun hn => h (Option.isNone_iff_eq_none.2 hn)
          unfold entryOrInsert
          cases hlookup : a.entries.lookup split.id with
          | some entry =>
            have hentry : a.entryFor pkt split now = entry := by rw [entryFor, hlookup]; rfl
            simp only
            split
            · rename_i hlen
              exact .refused (.mismatch hadmits hlookup hlen)
            · rename_i hlen
              rw [not_not] at hlen
              split
              · rename_i hindex
                exact .refused (.outOfRange hadmits hlookup hlen (List.getElem?_eq_none_iff.1 hindex))
              · rename_i part hpart
                exact .duplicate ⟨hadmits, hlookup, hlen, part, hpart⟩
              · rename_i hpart
                exact addPart_cases ⟨hadmits, by rw [hentry, hlen], by rw [hentry, hpart]⟩ _ hentry.symm (.inl rfl)
          | none =>
            have hentry : a.entryFor pkt split now = openEntry pkt split now := by rw [entryFor, hlookup]; rfl
            have hlen : (openEntry pkt split now).parts.length = split.count.toNat := List.length_replicate
            simp only
            rw [if_neg (not_not_intro hlen)]
            split
            · rename_i hindex
              exact .opened hadmits hlookup (hlen ▸ List.getElem?_eq_none_iff.1 hindex)
            · rename_i part hpart
              -- a new entry has no part yet
              rw [openEntry, List.getElem?_replicate] at hpart
              split at hpart <;> cases hpart
            · rename_i hpart
              exact addPart_cases ⟨hadmits, by rw [hentry, hlen], by rw [hentry, hpart]⟩
                { a with entries := a.entries.insert split.id (openEntry pkt split now) } hentry.symm (.inr rfl)

/-! ## Single outcomes -/

theorem add_of_whole {a : SplitAssembler} {pkt : EncapsulatedPacket} (h : pkt.header.isSplit = false) (now : Instant) :
    a.add pkt now = (.ok (some pkt), a) := by
  unfold add
  rw [h]; rfl

/-- A fragment within the limits whose id has an entry is looked at against that entry. -/
theorem add_of_lookup {a : SplitAssembler} {pkt : EncapsulatedPacket} {split : SplitInfo} {entry : SplitEntry}
    (h : a.Admits pkt split) (hentry : a.entries.lookup split.id = some entry) (now : Instant) :
    a.add pkt now =
      if entry.parts.length ≠ split.count.toNat then (.error .splitCountMismatch, a)
      else
        match entry.parts[split.index.toNat]? with
        | none => (.error .splitIndexOutOfRange, a)
        | some (some _) => (.ok none, a)
        | some none => a.addPart split.id entry split.index.toNat pkt.payload now := by
  unfold add
  simp only [h.isSplit, h.info, Bool.not_true, Bool.false_eq_true, if_false]
  rw [if_neg (Nat.not_lt.2 h.count), if_neg (by simp [hentry])]
  generalize hopened : a.entryOrInsert split.id (openEntry pkt split now) = opened
  rw [entryOrInsert, hentry] at hopened
  subst hopened
  rfl

theorem add_of_duplicate {a : SplitAssembler} {pkt : EncapsulatedPacket} {split : SplitInfo} {entry : SplitEntry}
    (h : a.Duplicate pkt split entry) (now : Instant) : a.add pkt now = (.ok none, a) := by
  obtain ⟨part, hpart⟩ := h.part
  rw [add_of_lookup h.admits h.stored, if_neg (not_not_intro h.length), hpart]

theorem add_of_refuses {a : SplitAssembler} {pkt : EncapsulatedPacket} {e : DecodeError} (h : a.Refuses pkt e)
    (now : Instant) : a.add pkt now = (.error e, a) := by
  cases h with
  | noInfo hsplit h =>
    unfold add
    simp only [hsplit, h, Bool.not_true, Bool.false_eq_true, if_false]
  | tooLarge hsplit h hcount =>
    unfold add
    simp only [hsplit, h, Bool.not_true, Bool.false_eq_true, if_false]
    rw [if_pos hcount]
  | full hsplit h hcount hlen hnone =>
    unfold add
    simp only [hsplit, h, Bool.not_true, Bool.false_eq_true, if_false]
    rw [if_neg (Nat.not_lt.2 hcount), if_pos ⟨hlen, by rw [hnone]; rfl⟩]
  | mismatch h hentry hlen => rw [add_of_lookup h hentry, if_pos hlen]
  | outOfRange h hentry hlen hindex =>
    rw [add_of_lookup h hentry, if_neg (not_not_intro hlen), List.getElem?_eq_none_iff.2 hindex]

end BedrockRs.Raknet.SplitAssembler

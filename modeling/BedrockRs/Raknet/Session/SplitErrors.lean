/-
What a rejected fragment leaves behind. Four of the five rejections of `SplitAssembler::add` come before
anything is stored; the check of the index comes after the entry has been put into the map, so a fragment
under a new id whose index is out of range leaves an empty entry there. That entry takes one of the
concurrent slots, and a message that uses the id with another count is refused because of it. The sixth
error, of a missing part in a full entry, cannot occur: an entry counts its parts.
-/
import BedrockRs.Raknet.Session.Frame
import BedrockRs.Raknet.Session.InboundSpec

namespace BedrockRs.Raknet

open Lib

/-- The number of parts received is the number of parts that are there. -/
def SplitEntry.Counted (entry : SplitEntry) : Prop := entry.received = entry.parts.countP Option.isSome

namespace SplitAssembler

/-- The assemblers that calls of `add` and `prune` lead to. -/
inductive Reachable : SplitAssembler → Prop
  | new (ttl : Duration) (maxParts maxConcurrent : Nat) : Reachable (new ttl maxParts maxConcurrent)
  | add {a : SplitAssembler} (h : Reachable a) (pkt : EncapsulatedPacket) (now : Instant) : Reachable (a.add pkt now).2
  | prune {a : SplitAssembler} (h : Reachable a) (now : Instant) (iter : IterOrder SplitEntries.Item) :
      Reachable (a.prune now iter).2

/-! ## Entries count their parts -/

def Counted (a : SplitAssembler) : Prop := ∀ id entry, a.entries.lookup id = some entry → entry.Counted

theorem counted_openEntry (pkt : EncapsulatedPacket) (split : SplitInfo) (now : Instant) :
    (openEntry pkt split now).Counted := by
  simp [SplitEntry.Counted, openEntry, List.countP_replicate]

theorem counted_fillPart {entry : SplitEntry} {idx : Nat} (h : entry.Counted) (hpart : entry.parts[idx]? = some none)
    (payload : Bytes) (now : Instant) : (fillPart entry idx payload now).Counted := by
  obtain ⟨hidx, hnone⟩ := List.getElem?_eq_some_iff.1 hpart
  unfold SplitEntry.Counted at h ⊢
  simp only [fillPart, List.countP_set hidx, hnone, h]
  simp

theorem Counted.entryFor {a : SplitAssembler} (h : a.Counted) (pkt : EncapsulatedPacket) (split : SplitInfo)
    (now : Instant) : (a.entryFor pkt split now).Counted := by
  unfold SplitAssembler.entryFor
  cases hentry : a.entries.lookup split.id with
  | none => exact counted_openEntry pkt split now
  | some entry => exact h _ _ hentry

theorem Counted.filled {a : SplitAssembler} (h : a.Counted) {pkt : EncapsulatedPacket} {split : SplitInfo}
    {now : Instant} (hfits : a.Fits pkt split now) : (a.filled pkt split now).Counted :=
  counted_fillPart (h.entryFor pkt split now) hfits.part _ _

theorem Counted.insert {a : SplitAssembler} (h : a.Counted) {entry : SplitEntry} (hentry : entry.Counted)
    (id : UInt16) : Counted { a with entries := a.entries.insert id entry } :=
  HashMap.every_insert h hentry

theorem Counted.add {a : SplitAssembler} (h : a.Counted) (pkt : EncapsulatedPacket) (now : Instant) :
    (a.add pkt now).2.Counted := by
  generalize hadd : a.add pkt now = result
  have hcases := a.add_cases pkt now
  rw [hadd] at hcases
  cases hcases with
  | whole _ => exact h
  | refused _ => exact h
  | duplicate _ => exact h
  | opened _ _ _ => exact h.insert (counted_openEntry _ _ _) _
  | stored hfits _ => exact h.insert (h.filled hfits) _
  | broken hfits _ _ => exact h.insert (h.filled hfits) _
  | completed _ _ _ => exact HashMap.every_erase h _

theorem Counted.prune {a : SplitAssembler} (h : a.Counted) (now : Instant) (iter : IterOrder SplitEntries.Item) :
    (a.prune now iter).2.Counted :=
  HashMap.every_retain h fun entry => !a.expired now entry

theorem Reachable.counted {a : SplitAssembler} (h : Reachable a) : a.Counted := by
  induction h with
  | new ttl maxParts maxConcurrent =>
    intro id entry hlookup
    cases hlookup
  | add _ pkt now ih => exact ih.add pkt now
  | prune _ now iter ih => exact ih.prune now iter

/-! ## Errors -/

theorem joinParts_ok {parts : List (Option Bytes)} (h : ∀ part ∈ parts, part.isSome = true) :
    ∃ payload, joinParts parts = .ok payload := by
  induction parts with
  | nil => exact ⟨[], rfl⟩
  | cons part parts ih =>
    obtain ⟨payload, hpayload⟩ := ih fun p hp => h p (List.mem_cons_of_mem _ hp)
    obtain ⟨bytes, rfl⟩ := Option.isSome_iff_exists.1 (h part (List.mem_cons_self ..))
    refine ⟨bytes ++ payload, ?_⟩
    show (joinParts parts >>= fun rest => pure (bytes ++ rest)) = _
    rw [hpayload]
    rfl

/-- A full entry misses no part. -/
theorem Counted.joins {a : SplitAssembler} (h : a.Counted) {pkt : EncapsulatedPacket} {split : SplitInfo}
    {now : Instant} (hfits : a.Fits pkt split now)
    (hall : (a.filled pkt split now).received = (a.filled pkt split now).parts.length) :
    ∃ payload, joinParts (a.filled pkt split now).parts = .ok payload := by
  have hcount : (a.filled pkt split now).received = _ := h.filled hfits
  rw [hall] at hcount
  exact joinParts_ok (List.countP_eq_length.1 hcount.symm)

/-- A fragment within the limits, under an id that has no entry, whose index is not below its count. -/
def LeavesGhost (a : SplitAssembler) (pkt : EncapsulatedPacket) : Prop :=
  ∃ split, a.Admits pkt split ∧ a.entries.lookup split.id = none ∧ split.count.toNat ≤ split.index.toNat

/-- Such a fragment is rejected, with an empty entry of its count under its id. -/
theorem add_of_ghost {a : SplitAssembler} {pkt : EncapsulatedPacket} {split : SplitInfo} (h : a.Admits pkt split)
    (hnone : a.entries.lookup split.id = none) (hindex : split.count.toNat ≤ split.index.toNat) (now : Instant) :
    a.add pkt now =
      (.error .splitIndexOutOfRange, { a with entries := a.entries.insert split.id (openEntry pkt split now) }) := by
  have hfull : ¬ (a.entries.entries.length ≥ a.maxConcurrent ∧ (a.entries.lookup split.id).isNone = true) := by
    rintro ⟨hlen, -⟩
    rcases h.room with hroom | hsome
    · omega
    · rw [hnone] at hsome
      cases hsome
  have hlen : (openEntry pkt split now).parts.length = split.count.toNat := List.length_replicate
  have hpart : (openEntry pkt split now).parts[split.index.toNat]? = none := by
    rw [List.getElem?_eq_none_iff, hlen]
    exact hindex
  unfold add
  simp only [h.isSplit, h.info, Bool.not_true, Bool.false_eq_true, if_false]
  rw [if_neg (Nat.not_lt.2 h.count), if_neg hfull]
  generalize hopened : a.entryOrInsert split.id (openEntry pkt split now) = opened
  rw [entryOrInsert, hnone] at hopened
  subst hopened
  dsimp only
  rw [if_neg (not_not_intro hlen), hpart]

/-- An error leaves every entry as it was, unless the fragment leaves an empty entry of its own. -/
theorem add_error_unchanged_iff {a : SplitAssembler} (h : Reachable a) (pkt : EncapsulatedPacket) (now : Instant) :
    (∀ e, (a.add pkt now).1 = .error e → (a.add pkt now).2.entries = a.entries) ↔ ¬ a.LeavesGhost pkt := by
  constructor
  · rintro hunchanged ⟨split, hadmits, hnone, hindex⟩
    have hadd := add_of_ghost hadmits hnone hindex now
    have hentries := hunchanged .splitIndexOutOfRange (by rw [hadd])
    rw [hadd] at hentries
    have hlookup : (a.entries.insert split.id (openEntry pkt split now)).lookup split.id = _ := AList.lookup_insert _
    rw [show a.entries.insert split.id (openEntry pkt split now) = a.entries from hentries, hnone] at hlookup
    cases hlookup
  · intro hghost e herror
    generalize hadd : a.add pkt now = result at herror ⊢
    have hcases := a.add_cases pkt now
    rw [hadd] at hcases
    cases hcases with
    | whole _ => cases herror
    | refused _ => rfl
    | opened hadmits hnone hindex => exact absurd ⟨_, hadmits, hnone, hindex⟩ hghost
    | duplicate _ => cases herror
    | stored _ _ => cases herror
    | broken hfits hall hjoin =>
      obtain ⟨payload, hpayload⟩ := h.counted.joins hfits hall
      rw [hpayload] at hjoin
      cases hjoin
    | completed _ _ _ => cases herror

/-! ## What a ghost does -/

/-- The empty entry takes a slot of its own. -/
theorem length_of_ghost {a : SplitAssembler} {pkt : EncapsulatedPacket} (h : a.LeavesGhost pkt) (now : Instant) :
    (a.add pkt now).2.entries.entries.length = a.entries.entries.length + 1 := by
  obtain ⟨split, hadmits, hnone, hindex⟩ := h
  rw [add_of_ghost hadmits hnone hindex]
  show (a.entries.insert split.id (openEntry pkt split now)).entries.length = _
  rw [AList.entries_insert_of_notMem (AList.lookup_eq_none.1 hnone), List.length_cons]

/-- A fragment of another count under the same id is refused from then on. -/
theorem add_after_ghost {a : SplitAssembler} {pkt later : EncapsulatedPacket} {split other : SplitInfo}
    (h : a.Admits pkt split) (hnone : a.entries.lookup split.id = none) (hindex : split.count.toNat ≤ split.index.toNat)
    (hsplit : later.header.isSplit = true) (hinfo : later.split = some other) (hid : other.id = split.id)
    (hcount : other.count.toNat ≤ a.maxParts) (hother : other.count ≠ split.count) (now t : Instant) :
    (a.add pkt now).2.add later t = (.error .splitCountMismatch, (a.add pkt now).2) := by
  rw [add_of_ghost h hnone hindex]
  have hlookup : (a.entries.insert split.id (openEntry pkt split now)).lookup other.id =
      some (openEntry pkt split now) := by
    rw [hid, AList.lookup_insert]
  have hadmits : Admits { a with entries := a.entries.insert split.id (openEntry pkt split now) } later other :=
    ⟨hsplit, hinfo, hcount, .inr (Option.isSome_iff_exists.2 ⟨_, hlookup⟩)⟩
  refine add_of_refuses (.mismatch hadmits hlookup ?_) t
  intro hlen
  rw [openEntry, List.length_replicate] at hlen
  exact hother (UInt32.toNat_inj.1 hlen.symm)

/-- A fragment that says it is the first of no parts, and the first of two parts under the same id. -/
def ghostFragment (count : UInt32) : EncapsulatedPacket :=
  { header := ⟨.reliable, true, false⟩, bitLength := 8, reliableIndex := some (Sequence24.new 0), sequenceIndex := none
    orderingIndex := none, orderingChannel := none, split := some ⟨count, 1, 0⟩, payload := [0x80] }

theorem add_error_unchanged_iff_new :
    (∀ e, ((new 0 128 256).add (ghostFragment 2) 0).1 = .error e →
      ((new 0 128 256).add (ghostFragment 2) 0).2.entries = (new 0 128 256).entries) ↔
    ¬ (new 0 128 256).LeavesGhost (ghostFragment 2) :=
  add_error_unchanged_iff (.new 0 128 256) (ghostFragment 2) 0

/-- The first leaves an entry behind its error, and the second is refused for it. -/
theorem add_error_changes_entries :
    ¬ (∀ (a : SplitAssembler), Reachable a → ∀ (pkt : EncapsulatedPacket) (now : Instant) (e : DecodeError),
      (a.add pkt now).1 = .error e → (a.add pkt now).2.entries = a.entries) ∧
    (((new 0 128 256).add (ghostFragment 0) 0).1 = .error .splitIndexOutOfRange ∧
      ((new 0 128 256).add (ghostFragment 0) 0).2.entries ≠ ∅ ∧
      (((new 0 128 256).add (ghostFragment 0) 0).2.add (ghostFragment 2) 0).1 = .error .splitCountMismatch ∧
      ((new 0 128 256).add (ghostFragment 2) 0).1 = .ok none) := by
  have herror : ((new 0 128 256).add (ghostFragment 0) 0).1 = .error .splitIndexOutOfRange := by decide +kernel
  have hghost : ((new 0 128 256).add (ghostFragment 0) 0).2.entries ≠ ∅ := by
    intro h
    have hlen : ((new 0 128 256).add (ghostFragment 0) 0).2.entries.entries.length = 1 := by decide +kernel
    rw [h] at hlen
    cases hlen
  refine ⟨fun h => hghost ?_, herror, hghost, by decide +kernel, by decide +kernel⟩
  exact h _ (.new 0 128 256) _ 0 _ herror

end SplitAssembler

/-! ## The assembler of a session -/

namespace Session

open SplitAssembler

variable {F : Type}

theorem handleEncapsulated_reachable {s : Session F} (h : Reachable s.splitAssembler) (enc : EncapsulatedPacket)
    (now : Instant) : Reachable (s.handleEncapsulated enc now).2.splitAssembler := by
  have hadd := h.add enc now
  generalize hhandled : s.handleEncapsulated enc now = result
  have hcases := s.handleEncapsulated_cases enc now
  rw [hhandled] at hcases
  cases hcases with
  | seen _ _ => exact h
  | refused heq => rwa [heq] at hadd
  | pending _ heq => rwa [heq] at hadd
  | @delivered enc' splitAssembler _ heq =>
    rw [heq] at hadd
    obtain ⟨_, _, hdeliver⟩ := deliver_frame (commitIndex { s with splitAssembler } (filterIndex enc)) enc'
    rw [hdeliver]
    cases filterIndex enc <;> exact hadd

variable [Float64 F]

theorem step_reachable {s : Session F} (h : Reachable s.splitAssembler) (op : Op) :
    Reachable (s.step op).splitAssembler := by
  have hcases := s.step_cases op
  generalize s.step op = s' at hcases
  cases hcases with
  | queuePacket hsame =>
    obtain ⟨_, _, _, _, _, _, hstep⟩ := hsame
    rw [hstep]
    exact h
  | handleDataPayload _ =>
    exact handleDataPayload_inv (I := fun s => Reachable s.splitAssembler)
      (fun _ enc h => handleEncapsulated_reachable h enc _) _ h
  | @onTick now iter => exact h.prune now iter
  | _ => exact h

/-- The assemblers of the theorems above are those of every run of a session. -/
theorem reachable_after (mtu : Nat) (tunables : SessionTunables) (ops : List Op) :
    Reachable (after mtu tunables ops : Session F).splitAssembler :=
  Machine.run_inv_all (P := fun s : Session F => Reachable s.splitAssembler) (fun _ op h => step_reachable h op) ops
    (.new tunables.splitTimeout tunables.maxSplitParts tunables.maxConcurrentSplits)

end Session

end BedrockRs.Raknet

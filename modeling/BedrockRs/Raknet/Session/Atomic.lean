/-
What a DATA datagram that fails leaves behind. `handle_data_payload` handles packet by packet and
gives up at the first error, so whatever the packets before it and the failing packet itself have
committed stays, while what they delivered is dropped. The datagram leaves the receiving state alone
when the packets before the failing one are quiet (they commit nothing) and the failing one is
refused before anything is committed.
-/
import BedrockRs.Raknet.Session.Frame
import BedrockRs.Raknet.Session.InboundSpec
import BedrockRs.Raknet.Session.Manager
import BedrockRs.Raknet.Session.OrderingSpec

namespace BedrockRs.Raknet

open Lib

/-! ## Commits of the reliable tracker -/

namespace ReliableTracker

/-- An index that is not filtered is recorded, unless it is out of the window. -/
theorem outOfWindow_of_see {t : ReliableTracker} {ridx : Sequence24} (hseen : t.hasSeen ridx = false)
    (h : (t.see ridx).2 = t) : t.OutOfWindow ridx := by
  by_cases hbase : ridx = t.base
  · subst hbase
    obtain ⟨k, hw, hb, -⟩ := t.see_base
    rw [h] at hw hb
    have hk : k = 0 := by
      have hlen := congrArg List.length hw
      rw [List.length_append, List.length_replicate] at hlen
      omega
    rw [hk, Sequence24.ext_iff', Sequence24.val_new] at hb
    have := t.base.isLt
    omega
  · refine ⟨hbase, Nat.not_le.1 fun hdist => ?_⟩
    rw [see_of_inWindow hbase hdist] at h
    have hmark : mark t.window (t.base.distanceTo ridx) = t.window := congrArg ReliableTracker.window h
    have hseen' := hasSeen_iff.not.1 (by rw [hseen]; simp)
    refine hseen' ⟨hbase, hdist, ?_⟩
    have h0 : t.base.distanceTo ridx ≠ 0 := fun h0 => hbase (Sequence24.distanceTo_eq_zero_iff.1 h0).symm
    have hlt : t.base.distanceTo ridx - 1 < (resize t.window (t.base.distanceTo ridx)).length := by
      rw [resize, List.length_append, List.length_replicate]; omega
    rw [← hmark, mark, List.getElem?_set_self hlt]

end ReliableTracker

/-! ## Effects of the ordering channels -/

namespace OrderingChannels

/-- An ordered packet that is neither released nor buffered: it has no place, it is old, or the
buffer is full. -/
def Ignores (o : OrderingChannels) (enc : EncapsulatedPacket) : Prop :=
  ∀ channel c idx, enc.orderingChannel = some channel → o.channels[channel.toNat]? = some c →
    enc.orderingIndex = some idx →
    (c.orderRead.lt idx = true ∧ 2048 ≤ c.heap.len) ∨ (c.orderRead.lt idx = false ∧ c.orderRead.gt idx = true)

theorem handleOrdered_of_ignores {o : OrderingChannels} {enc : EncapsulatedPacket} (h : o.Ignores enc) :
    (o.handleOrdered enc).2 = o ∧ ∀ ready, (o.handleOrdered enc).1 = some ready → ready = [] := by
  unfold handleOrdered
  split
  · exact ⟨rfl, fun _ hr => by cases hr⟩
  · rename_i channel hch
    split
    · exact ⟨rfl, fun _ hr => by cases hr⟩
    · rename_i c hc
      split
      · exact ⟨rfl, fun _ hr => by cases hr⟩
      · rename_i idx hidx
        have hignored : c.handleOrdered idx enc = ([], c) := by
          unfold OrderingChannel.handleOrdered
          rcases h channel c idx hch hc hidx with ⟨hlt, hfull⟩ | ⟨hlt, hgt⟩
          · rw [if_pos hlt, if_pos hfull]
          · rw [if_neg (by simp [hlt]), if_pos hgt]
        simp only [hignored]
        refine ⟨?_, fun _ hr => by cases hr; rfl⟩
        exact congrArg OrderingChannels.mk (set_of_getElem? hc)

/-- A packet that leaves the channels as they are was ignored. -/
theorem ignores_of_handleOrdered {o : OrderingChannels} {enc : EncapsulatedPacket} (h : (o.handleOrdered enc).2 = o) :
    o.Ignores enc := by
  intro channel c idx hch hc hidx
  unfold handleOrdered at h
  rw [hch] at h
  simp only [hc, hidx] at h
  have hsame : (c.handleOrdered idx enc).2 = c := by
    have hset : o.channels.set channel.toNat (c.handleOrdered idx enc).2 = o.channels :=
      congrArg OrderingChannels.channels h
    have hlt := (List.getElem?_eq_some_iff.1 hc).1
    have hget := List.getElem?_set_self (l := o.channels) (a := (c.handleOrdered idx enc).2) hlt
    rw [hset, hc] at hget
    exact (Option.some.inj hget).symm
  rcases c.handleOrdered_cases idx enc with ⟨-, -, he⟩ | ⟨hlt, hfull, -⟩ | ⟨hlt, hgt, -⟩ | ⟨-, he⟩
  · -- buffering lengthens the heap
    rw [he] at hsame
    have hlen := (BinaryHeap.push_perm OrderedEncap.reverseLe c.heap ⟨idx, enc⟩).length_eq
    rw [show c.heap.push OrderedEncap.reverseLe ⟨idx, enc⟩ = c.heap from congrArg OrderingChannel.heap hsame] at hlen
    simp at hlen
  · exact .inl ⟨hlt, hfull⟩
  · exact .inr ⟨hlt, hgt⟩
  · -- releasing shortens the heap or moves the read index
    rw [he] at hsame
    obtain ⟨popped, -, hrel⟩ := OrderingChannel.drain_released c.heap.len { c with orderRead := c.orderRead.next }
    have hrel : OrderingChannel.Released { c with orderRead := c.orderRead.next } c popped := by
      rw [show OrderingChannel.drain c.heap.len { c with orderRead := c.orderRead.next } =
        OrderingChannel.release { c with orderRead := c.orderRead.next } from rfl, hsame] at hrel
      exact hrel
    have hnil : popped = [] := by
      have hlen := hrel.heap.length_eq
      rw [List.length_append] at hlen
      exact List.length_eq_zero_iff.1 (by simp only at hlen; omega)
    have hread := hrel.read
    rw [hnil, List.length_nil, Nat.add_zero, Sequence24.new_val, Sequence24.ext_iff', Sequence24.val_next] at hread
    have := c.orderRead.isLt
    split at hread <;> omega

end OrderingChannels

/-! ## A fragment on its own -/

/-- The only fragment of its message, with no entry under its id: it is reassembled at once. -/
structure SplitAssembler.Lone (a : SplitAssembler) (pkt : EncapsulatedPacket) (split : SplitInfo) : Prop where
  admits : a.Admits pkt split
  fresh : a.entries.lookup split.id = none
  count : split.count.toNat = 1
  index : split.index.toNat = 0

/-- What a lone fragment is reassembled to. -/
def EncapsulatedPacket.unsplit (pkt : EncapsulatedPacket) : EncapsulatedPacket :=
  { pkt with
    header := { pkt.header with isSplit := false }
    bitLength := UInt16.ofNat pkt.payload.length <<< 3
    split := none }

namespace SplitAssembler

theorem erase_of_lookup_none {entries : SplitEntries} {id : UInt16} (h : entries.lookup id = none) :
    entries.erase id = entries := by
  apply AList.ext
  exact List.kerase_of_notMem_keys (AList.lookup_eq_none.1 h)

theorem add_lone {a : SplitAssembler} {pkt : EncapsulatedPacket} {split : SplitInfo} (h : a.Lone pkt split)
    (now : Instant) : a.add pkt now = (.ok (some pkt.unsplit), a) := by
  have hroom : ¬ (a.entries.entries.length ≥ a.maxConcurrent ∧ (a.entries.lookup split.id).isNone = true) := by
    rintro ⟨hfull, -⟩
    have := h.admits.room
    rw [h.fresh] at this
    exact this.elim (fun hlt => absurd hlt (Nat.not_lt.2 hfull)) (by simp)
  unfold add
  simp only [h.admits.isSplit, h.admits.info, Bool.not_true, Bool.false_eq_true, if_false]
  rw [if_neg (Nat.not_lt.2 h.admits.count), if_neg hroom, entryOrInsert, h.fresh]
  simp only [openEntry, h.count, h.index, ne_eq, not_true, if_false, List.replicate_one,
    List.getElem?_cons_zero, addPart, fillPart, List.set_cons_zero, List.length_singleton, joinParts, bind, Except.bind,
    pure, Except.pure, List.append_nil, erase_insert, erase_of_lookup_none h.fresh]
  rfl

/-- A fragment that is passed on or fails without a trace in the entries was refused, a duplicate or
on its own. -/
theorem lone_of_completed {a : SplitAssembler} {pkt : EncapsulatedPacket} {split : SplitInfo} {now : Instant}
    (h : a.Fits pkt split now) (hall : (a.filled pkt split now).received = (a.filled pkt split now).parts.length)
    (hsame : a.entries.erase split.id = a.entries) : a.Lone pkt split := by
  have hfresh : a.entries.lookup split.id = none := by rw [← hsame, AList.lookup_erase]
  have hentry : a.entryFor pkt split now = openEntry pkt split now := by rw [entryFor, hfresh]; rfl
  have hpart := h.part
  simp only [filled, fillPart, hentry, openEntry, List.length_set, List.length_replicate] at hall hpart
  rw [List.getElem?_replicate] at hpart
  split at hpart
  · exact ⟨h.admits, hfresh, by omega, by omega⟩
  · cases hpart

theorem insert_ne_of_lookup {a : SplitAssembler} {id : UInt16} {entry : SplitEntry}
    (h : a.entries.lookup id ≠ some entry) : { a with entries := a.entries.insert id entry } ≠ a := by
  intro he
  have := congrArg (fun a : SplitAssembler => a.entries.lookup id) he
  simp only [AList.lookup_insert] at this
  exact h this.symm

/-- Storing a part changes the entries. -/
theorem insert_filled_ne (a : SplitAssembler) (pkt : EncapsulatedPacket) (split : SplitInfo) (now : Instant) :
    { a with entries := a.entries.insert split.id (a.filled pkt split now) } ≠ a := by
  refine insert_ne_of_lookup fun hlookup => ?_
  have hentry : a.entryFor pkt split now = a.filled pkt split now := by rw [entryFor, hlookup]; rfl
  have hreceived := congrArg SplitEntry.received hentry
  simp [filled, fillPart] at hreceived

end SplitAssembler

namespace Session

variable {F : Type} [Float64 F]

/-! ## Quiet packets and clean rejections -/

/-- The receiving state: tracker, ordering channels and assembler. -/
structure SameReceive (s s' : Session F) : Prop where
  tracker : s'.reliableTracker = s.reliableTracker
  ordering : s'.ordering = s.ordering
  assembler : s'.splitAssembler = s.splitAssembler

/-- A packet whose reliable index is not recorded when it is handled. -/
def Unrecorded (s : Session F) (enc : EncapsulatedPacket) : Prop :=
  ∀ idx, filterIndex enc = some idx → s.reliableTracker.OutOfWindow idx

/-- A whole or reassembled packet that is delivered without changing the ordering channels. -/
def DeliversQuietly (s : Session F) (enc : EncapsulatedPacket) : Prop :=
  if enc.header.reliability.isOrdered then s.ordering.Ignores enc else ∃ pkt, decodePayload enc.payload = .ok pkt

/-- An unordered packet that cannot be decoded. -/
def Undecodable (enc : EncapsulatedPacket) : Prop :=
  enc.header.reliability.isOrdered = false ∧ ∃ e, decodePayload enc.payload = .error e

/-- A packet that is handled without error and commits nothing: a duplicate the filter knows, a whole
packet that is not recorded, a part that is already there, or a lone fragment. -/
inductive Quiet (s : Session F) (enc : EncapsulatedPacket) : Prop
  | seen (h : (filterIndex enc).any s.reliableTracker.hasSeen = true)
  | whole (h : enc.header.isSplit = false) (hrec : s.Unrecorded enc) (hd : s.DeliversQuietly enc)
  | duplicate {split : SplitInfo} {entry : SplitEntry} (h : s.splitAssembler.Duplicate enc split entry)
  | lone {split : SplitInfo} (h : s.splitAssembler.Lone enc split) (hd : s.DeliversQuietly enc.unsplit)

/-- A packet that fails before it commits anything: a fragment the assembler refuses, or an
undecodable packet that leaves no trace. -/
inductive CleanlyRejected (s : Session F) (enc : EncapsulatedPacket) : Prop
  | refused {e : DecodeError} (h : s.splitAssembler.Refuses enc e)
  | whole (h : enc.header.isSplit = false) (hseen : (filterIndex enc).any s.reliableTracker.hasSeen = false)
      (hrec : s.Unrecorded enc) (hd : Undecodable enc)
  | lone {split : SplitInfo} (h : s.splitAssembler.Lone enc split) (hd : Undecodable enc.unsplit)

omit [Float64 F] in
theorem SameReceive.refl (s : Session F) : SameReceive s s := ⟨rfl, rfl, rfl⟩

omit [Float64 F] in
theorem SameReceive.trans {s s' s'' : Session F} (h : SameReceive s s') (h' : SameReceive s' s'') : SameReceive s s'' :=
  ⟨h'.tracker.trans h.tracker, h'.ordering.trans h.ordering, h'.assembler.trans h.assembler⟩

omit [Float64 F] in
theorem Quiet.of_same {s s' : Session F} {enc : EncapsulatedPacket} (h : Quiet s enc) (hs : SameReceive s s') :
    Quiet s' enc := by
  have hdeliver : ∀ e, s.DeliversQuietly e → s'.DeliversQuietly e := by
    intro e he
    unfold DeliversQuietly at he ⊢
    rwa [hs.ordering]
  cases h with
  | seen h => exact .seen (by rwa [hs.tracker])
  | whole h hrec hd => exact .whole h (fun idx hi => hs.tracker ▸ hrec idx hi) (hdeliver _ hd)
  | duplicate h => exact .duplicate (hs.assembler ▸ h)
  | lone h hd => exact .lone (hs.assembler ▸ h) (hdeliver _ hd)

omit [Float64 F] in
theorem CleanlyRejected.of_same {s s' : Session F} {enc : EncapsulatedPacket} (h : CleanlyRejected s enc)
    (hs : SameReceive s s') : CleanlyRejected s' enc := by
  cases h with
  | refused h => exact .refused (hs.assembler ▸ h)
  | whole h hseen hrec hd => exact .whole h (by rwa [hs.tracker]) (fun idx hi => hs.tracker ▸ hrec idx hi) hd
  | lone h hd => exact .lone (hs.assembler ▸ h) hd

/-! ## One packet -/

omit [Float64 F] in
theorem decodeAndPush_same (s : Session F) (enc : EncapsulatedPacket) : SameReceive s (s.decodeAndPush enc).2 := by
  unfold decodeAndPush
  split <;> exact ⟨rfl, rfl, rfl⟩

omit [Float64 F] in
theorem decodeAndPush_ok (s : Session F) (enc : EncapsulatedPacket) :
    (∃ out, (s.decodeAndPush enc).1 = .ok out) ↔ ∃ pkt, decodePayload enc.payload = .ok pkt := by
  unfold decodeAndPush
  split
  · rename_i e he
    simp [he]
  · rename_i payload he
    simp [he]
  · rename_i payload he
    simp [he]
  · rename_i pkt _ _ he
    simp [he]

omit [Float64 F] in
theorem handleOrdered_of_ignores {s : Session F} {enc : EncapsulatedPacket} (h : s.ordering.Ignores enc) :
    s.handleOrdered enc = (.ok [], s) := by
  obtain ⟨hsame, hready⟩ := OrderingChannels.handleOrdered_of_ignores h
  unfold handleOrdered
  simp only [hsame]
  split
  · rename_i ready hr
    rw [hready ready hr]; rfl
  · rfl

omit [Float64 F] in
theorem deliver_quiet {s : Session F} {enc : EncapsulatedPacket} (h : s.DeliversQuietly enc) :
    (∃ out, (s.deliver enc).1 = .ok out) ∧ SameReceive s (s.deliver enc).2 := by
  unfold DeliversQuietly at h
  unfold deliver
  split at h
  · rename_i ho
    rw [if_pos ho, handleOrdered_of_ignores h]
    exact ⟨⟨[], rfl⟩, .refl s⟩
  · rename_i ho
    rw [if_neg ho]
    exact ⟨(s.decodeAndPush_ok enc).2 h, decodeAndPush_same s enc⟩

omit [Float64 F] in
/-- A delivery that fails and leaves the ordering channels alone is of an unordered packet. -/
theorem deliver_error_iff {s : Session F} {enc : EncapsulatedPacket} :
    (∃ e, (s.deliver enc).1 = .error e) ∧ (s.deliver enc).2.ordering = s.ordering ↔ Undecodable enc := by
  unfold Undecodable deliver
  cases ho : enc.header.reliability.isOrdered with
  | true =>
    refine iff_of_false ?_ (by simp)
    rintro ⟨⟨e, he⟩, hsame⟩
    rw [if_pos rfl] at he hsame
    -- an ordered packet that leaves the channels alone is ignored, and nothing is decoded
    obtain ⟨_, _, hframe⟩ := s.deliver_frame enc
    rw [deliver, if_pos ho, if_pos ho] at hframe
    rw [hframe] at hsame
    rw [handleOrdered_of_ignores (OrderingChannels.ignores_of_handleOrdered hsame)] at he
    cases he
  | false =>
    have hsame := (decodeAndPush_same s enc).ordering
    have hok := s.decodeAndPush_ok enc
    simp only [Bool.false_eq_true, if_false, hsame, and_true, true_and]
    cases hd : decodePayload enc.payload with
    | error e =>
      unfold decodeAndPush
      rw [hd]
      simp
    | ok pkt =>
      obtain ⟨out, hout⟩ := hok.2 ⟨pkt, hd⟩
      rw [hout]
      simp

omit [Float64 F] in
theorem commitIndex_unrecorded {s : Session F} {enc : EncapsulatedPacket} (h : s.Unrecorded enc) :
    s.commitIndex (filterIndex enc) = s := by
  unfold commitIndex
  split
  · rename_i idx hidx
    rw [ReliableTracker.see_of_outOfWindow (h idx hidx)]
  · rfl

omit [Float64 F] in
/-- A whole packet that is not recorded is only delivered. -/
theorem handleEncapsulated_whole {s : Session F} {enc : EncapsulatedPacket} (h : enc.header.isSplit = false)
    (hseen : (filterIndex enc).any s.reliableTracker.hasSeen = false) (hrec : s.Unrecorded enc) (now : Instant) :
    s.handleEncapsulated enc now = s.deliver enc := by
  rw [handleEncapsulated_added hseen (SplitAssembler.add_of_whole h now), commitIndex_unrecorded hrec]

omit [Float64 F] in
/-- A lone fragment is only delivered. -/
theorem handleEncapsulated_lone {s : Session F} {enc : EncapsulatedPacket} {split : SplitInfo}
    (h : s.splitAssembler.Lone enc split) (now : Instant) :
    s.handleEncapsulated enc now = s.deliver enc.unsplit := by
  have hnone := filterIndex_of_isSplit h.admits.isSplit
  rw [handleEncapsulated_added (by rw [hnone]; rfl) (SplitAssembler.add_lone h now), hnone]
  rfl

omit [Float64 F] in
theorem handleEncapsulated_quiet {s : Session F} {enc : EncapsulatedPacket} (h : Quiet s enc) (now : Instant) :
    (∃ out, (s.handleEncapsulated enc now).1 = .ok out) ∧ SameReceive s (s.handleEncapsulated enc now).2 := by
  cases h with
  | seen h =>
    unfold handleEncapsulated
    simp only [h, if_true]
    exact ⟨⟨[], rfl⟩, .refl s⟩
  | whole h hrec hd =>
    by_cases hseen : (filterIndex enc).any s.reliableTracker.hasSeen = true
    · unfold handleEncapsulated
      simp only [hseen, if_true]
      exact ⟨⟨[], rfl⟩, .refl s⟩
    · rw [handleEncapsulated_whole h (by simpa using hseen) hrec]
      exact deliver_quiet hd
  | duplicate h =>
    have hnone := filterIndex_of_isSplit h.admits.isSplit
    unfold handleEncapsulated
    simp only [hnone, Option.any_none, Bool.false_eq_true, if_false, SplitAssembler.add_of_duplicate h, commitIndex]
    exact ⟨⟨[], rfl⟩, .refl s⟩
  | lone h hd =>
    rw [handleEncapsulated_lone h]
    exact deliver_quiet hd

omit [Float64 F] in
theorem handleEncapsulated_rejected {s : Session F} {enc : EncapsulatedPacket} (h : CleanlyRejected s enc)
    (now : Instant) :
    (∃ e, (s.handleEncapsulated enc now).1 = .error e) ∧ SameReceive s (s.handleEncapsulated enc now).2 := by
  have hdeliver : ∀ e, Undecodable e →
      (∃ err, (s.deliver e).1 = .error err) ∧ SameReceive s (s.deliver e).2 := by
    intro e he
    refine ⟨(deliver_error_iff.2 he).1, ?_⟩
    unfold deliver
    rw [if_neg (by simp [he.1])]
    exact decodeAndPush_same s e
  cases h with
  | refused h =>
    have hnone := filterIndex_of_isSplit h.isSplit
    unfold handleEncapsulated
    simp only [hnone, Option.any_none, Bool.false_eq_true, if_false, SplitAssembler.add_of_refuses h]
    exact ⟨⟨_, rfl⟩, .refl s⟩
  | whole h hseen hrec hd =>
    rw [handleEncapsulated_whole h hseen hrec]
    exact hdeliver enc hd
  | lone h hd =>
    rw [handleEncapsulated_lone h]
    exact hdeliver enc.unsplit hd

omit [Float64 F] in
/-- The entries of the assembler are not touched after `add`. -/
theorem handleEncapsulated_assembler (s : Session F) (enc : EncapsulatedPacket) (now : Instant)
    (hseen : (filterIndex enc).any s.reliableTracker.hasSeen = false) :
    (s.handleEncapsulated enc now).2.splitAssembler = (s.splitAssembler.add enc now).2 := by
  unfold handleEncapsulated
  simp only [hseen, Bool.false_eq_true, if_false]
  split
  · rename_i e a hadd
    rw [hadd]
  · rename_i assembled a hadd
    have hcommit : (commitIndex { s with splitAssembler := a } (filterIndex enc)).splitAssembler = a := by
      cases filterIndex enc <;> rfl
    rw [hadd]
    cases assembled with
    | none => exact hcommit
    | some enc' =>
      obtain ⟨_, _, hframe⟩ := (commitIndex { s with splitAssembler := a } (filterIndex enc)).deliver_frame enc'
      simp only
      rw [hframe]; exact hcommit

omit [Float64 F] in
theorem unrecorded_of_same {s s' : Session F} {enc enc' : EncapsulatedPacket}
    (hs' : s'.reliableTracker = s.reliableTracker) (hseen : (filterIndex enc).any s.reliableTracker.hasSeen = false)
    (h : ((s'.commitIndex (filterIndex enc)).deliver enc').2.reliableTracker = s.reliableTracker) :
    s.Unrecorded enc := by
  obtain ⟨_, _, hframe⟩ := (s'.commitIndex (filterIndex enc)).deliver_frame enc'
  rw [hframe] at h
  intro idx hidx
  rw [hidx] at hseen h
  refine ReliableTracker.outOfWindow_of_see (by simpa using hseen) ?_
  rw [← hs'] at h ⊢
  exact h

omit [Float64 F] in
/-- A packet that fails and leaves the receiving state alone is rejected cleanly. -/
theorem cleanlyRejected_of_unchanged {s : Session F} {enc : EncapsulatedPacket} {now : Instant} {e : DecodeError}
    (herr : (s.handleEncapsulated enc now).1 = .error e) (hsame : SameReceive s (s.handleEncapsulated enc now).2) :
    CleanlyRejected s enc := by
  by_cases hseen : (filterIndex enc).any s.reliableTracker.hasSeen = true
  · unfold handleEncapsulated at herr
    simp only [hseen, if_true] at herr
    cases herr
  · have hseen : (filterIndex enc).any s.reliableTracker.hasSeen = false := by simpa using hseen
    have hassembler := (s.handleEncapsulated_assembler enc now hseen).symm.trans hsame.assembler
    have hcases := s.splitAssembler.add_cases enc now
    generalize hres : s.splitAssembler.add enc now = res at hcases hassembler
    -- every way of adding that stores something changes the assembler, which leaves the ways that store nothing
    cases hcases with
    | whole h =>
      rw [handleEncapsulated_added hseen hres] at herr hsame
      have hrec := unrecorded_of_same rfl hseen hsame.tracker
      rw [commitIndex_unrecorded hrec] at herr hsame
      exact .whole h hseen hrec (deliver_error_iff.1 ⟨⟨e, herr⟩, hsame.ordering⟩)
    | refused h => exact .refused h
    | opened h hnone hindex => exact absurd hassembler (SplitAssembler.insert_ne_of_lookup (by rw [hnone]; simp))
    | duplicate h =>
      have hnone := filterIndex_of_isSplit h.admits.isSplit
      unfold handleEncapsulated at herr
      simp only [hnone, Option.any_none, Bool.false_eq_true, if_false, hres] at herr
      cases herr
    | stored h hmore => exact absurd hassembler (SplitAssembler.insert_filled_ne _ _ _ _)
    | broken h hall hjoin => exact absurd hassembler (SplitAssembler.insert_filled_ne _ _ _ _)
    | completed h hall hjoin =>
      have hlone := SplitAssembler.lone_of_completed h hall (congrArg SplitAssembler.entries hassembler)
      rw [handleEncapsulated_lone hlone] at herr hsame
      exact .lone hlone (deliver_error_iff.1 ⟨⟨e, herr⟩, hsame.ordering⟩)

/-! ## One datagram -/

/-- Quiet packets, and then one that is rejected cleanly. -/
def RejectsCleanly (s : Session F) (packets : List EncapsulatedPacket) : Prop :=
  ∃ quiet enc rest, packets = quiet ++ enc :: rest ∧ (∀ q ∈ quiet, Quiet s q) ∧ CleanlyRejected s enc

omit [Float64 F] in
/-- Quiet packets leave the rest of the datagram to be handled from the same receiving state. -/
theorem handleDataPayload_quiet (now : Instant) (rest : List EncapsulatedPacket) : ∀ (quiet : List EncapsulatedPacket)
    (s : Session F), (∀ q ∈ quiet, Quiet s q) → ∃ s', SameReceive s s' ∧
      (s.handleDataPayload (quiet ++ rest) now).2 = (s'.handleDataPayload rest now).2
  | [], s, _ => ⟨s, .refl s, rfl⟩
  | q :: quiet, s, h => by
    obtain ⟨⟨out, hout⟩, hsame⟩ := handleEncapsulated_quiet (h q (List.mem_cons_self ..)) now
    rcases hq : s.handleEncapsulated q now with ⟨res, s₁⟩
    rw [hq] at hout hsame
    simp only at hout hsame
    subst hout
    obtain ⟨s', hs', heq⟩ := handleDataPayload_quiet now rest quiet s₁
      fun q' hq' => (h q' (List.mem_cons_of_mem _ hq')).of_same hsame
    refine ⟨s', hsame.trans hs', ?_⟩
    rw [List.cons_append, handleDataPayload_cons_ok _ hq]
    exact heq

omit [Float64 F] in
/-- A datagram whose first packet fails is left at that. -/
theorem handleDataPayload_error {s : Session F} {enc : EncapsulatedPacket} {now : Instant} {e : DecodeError}
    (h : (s.handleEncapsulated enc now).1 = .error e) (rest : List EncapsulatedPacket) :
    (s.handleDataPayload (enc :: rest) now).2 = (s.handleEncapsulated enc now).2 := by
  rw [handleDataPayload_cons_error rest (Prod.ext h rfl)]

omit [Float64 F] in
theorem handleDataPayload_same_of_rejectsCleanly {s : Session F} {packets : List EncapsulatedPacket}
    (h : s.RejectsCleanly packets) (now : Instant) : SameReceive s (s.handleDataPayload packets now).2 := by
  obtain ⟨quiet, enc, rest, rfl, hquiet, hreject⟩ := h
  obtain ⟨s', hs', heq⟩ := handleDataPayload_quiet now (enc :: rest) quiet s hquiet
  obtain ⟨⟨e, he⟩, hsame⟩ := handleEncapsulated_rejected (hreject.of_same hs') now
  rw [heq, handleDataPayload_error he]
  exact hs'.trans hsame

/-! ## The verdict depends on the receiving state only -/

omit [Float64 F] in
theorem decodeAndPush_verdict (s s' : Session F) (enc : EncapsulatedPacket) :
    (s.decodeAndPush enc).1 = (s'.decodeAndPush enc).1 := by
  unfold decodeAndPush
  split <;> rfl

omit [Float64 F] in
theorem decodeAll_verdict : ∀ (pkts : List EncapsulatedPacket) (s s' : Session F),
    (s.decodeAll pkts).1 = (s'.decodeAll pkts).1
  | [], _, _ => rfl
  | pkt :: rest, s, s' => by
    have hpkt := decodeAndPush_verdict s s' pkt
    unfold decodeAll
    rcases hs : s.decodeAndPush pkt with ⟨res, s₁⟩
    rcases hs' : s'.decodeAndPush pkt with ⟨res', s₁'⟩
    rw [hs, hs'] at hpkt
    simp only at hpkt
    subst hpkt
    cases res with
    | error e => rfl
    | ok out =>
      have hrest := decodeAll_verdict rest s₁ s₁'
      rcases hr : s₁.decodeAll rest with ⟨res, s₂⟩
      rcases hr' : s₁'.decodeAll rest with ⟨res', s₂'⟩
      rw [hr, hr'] at hrest
      simp only at hrest
      subst hrest
      simp only [hr, hr']
      cases res <;> rfl

omit [Float64 F] in
theorem deliver_verdict {s s' : Session F} (h : s'.ordering = s.ordering) (enc : EncapsulatedPacket) :
    (s.deliver enc).1 = (s'.deliver enc).1 := by
  unfold deliver
  split
  · unfold handleOrdered
    simp only [h]
    split
    · exact decodeAll_verdict _ _ _
    · rfl
  · exact decodeAndPush_verdict s s' enc

omit [Float64 F] in
theorem commitIndex_ordering (s : Session F) (ridx : Option Sequence24) :
    (s.commitIndex ridx).ordering = s.ordering := by
  cases ridx <;> rfl

omit [Float64 F] in
theorem handleEncapsulated_verdict {s s' : Session F} (h : SameReceive s s') (enc : EncapsulatedPacket)
    (now : Instant) : (s.handleEncapsulated enc now).1 = (s'.handleEncapsulated enc now).1 := by
  unfold handleEncapsulated
  simp only [h.tracker, h.assembler]
  split
  · rfl
  · split
    · rfl
    · rename_i assembled a hadd
      cases assembled with
      | none => rfl
      | some enc' => exact deliver_verdict (by rw [commitIndex_ordering, commitIndex_ordering]; exact h.ordering) enc'

omit [Float64 F] in
theorem SameReceive.symm {s s' : Session F} (h : SameReceive s s') : SameReceive s' s :=
  ⟨h.tracker.symm, h.ordering.symm, h.assembler.symm⟩

end Session

namespace ManagedSession

variable {F : Type} [Float64 F]

omit [Float64 F] in
/-- A DATA datagram that is not accepted changes the inner session as its payload does. -/
theorem handleDatagram_error_inner {start : Instant} {m : ManagedSession F} {header : DatagramHeader}
    {packets : List EncapsulatedPacket} {now : Instant} {e : SessionError}
    (h : (m.handleDatagram start ⟨header, .encapsulatedPackets packets⟩ now).1 = .error e) :
    (m.handleDatagram start ⟨header, .encapsulatedPackets packets⟩ now).2.inner =
      (m.inner.handleDataPayload packets now).2 := by
  unfold handleDatagram at h ⊢
  split
  · rename_i hclosed
    rw [if_pos hclosed] at h
    cases h
  · rename_i hopen
    rw [if_neg hopen] at h
    simp only at h ⊢
    split
    · rename_i e' inner he
      rw [he]
    · rename_i pkts inner he
      rw [he] at h
      cases h

omit [Float64 F] in
/-- Error atomicity. A DATA datagram that fails leaves tracker, ordering channels and assembler as
they were when the packets before the failing one are quiet and the failing one is rejected cleanly;
and when the packets before the failing one are quiet, only then. -/
theorem handleDatagram_atomic (start : Instant) (m : ManagedSession F) (header : DatagramHeader)
    (packets : List EncapsulatedPacket) (now : Instant) (e : SessionError)
    (herr : (m.handleDatagram start ⟨header, .encapsulatedPackets packets⟩ now).1 = .error e) :
    (m.inner.RejectsCleanly packets →
      m.inner.SameReceive (m.handleDatagram start ⟨header, .encapsulatedPackets packets⟩ now).2.inner) ∧
    ∀ quiet enc rest, packets = quiet ++ enc :: rest → (∀ q ∈ quiet, m.inner.Quiet q) →
      ∀ e', (m.inner.handleEncapsulated enc now).1 = .error e' →
      (m.inner.SameReceive (m.handleDatagram start ⟨header, .encapsulatedPackets packets⟩ now).2.inner ↔
        m.inner.CleanlyRejected enc) := by
  rw [handleDatagram_error_inner herr]
  refine ⟨fun h => Session.handleDataPayload_same_of_rejectsCleanly h now, ?_⟩
  rintro quiet enc rest rfl hquiet e' he'
  refine ⟨fun hsame => ?_, fun h => ?_⟩
  · obtain ⟨s', hs', heq⟩ := Session.handleDataPayload_quiet now (enc :: rest) quiet m.inner hquiet
    rw [Session.handleEncapsulated_verdict hs' enc now] at he'
    rw [heq, Session.handleDataPayload_error he'] at hsame
    exact (Session.cleanlyRejected_of_unchanged he' (hs'.symm.trans hsame)).of_same hs'.symm
  · exact Session.handleDataPayload_same_of_rejectsCleanly ⟨quiet, enc, rest, rfl, hquiet, h⟩ now

/-- A fragment that announces more parts than a session takes. -/
def oversized : EncapsulatedPacket :=
  Session.fragmentEncap [1] .reliable 0 (some (Sequence24.new 1)) none ⟨9000, 0, 0⟩

/-- A whole reliable packet with index 0. -/
def firstReliable : EncapsulatedPacket := Session.singleEncap [0x80, 1] .reliable 0 (some (Sequence24.new 0)) none

theorem handleDatagram_atomic_oversized :
    ((withConfig .loopbackV4 1400 0 {} : ManagedSession ℚ).handleDatagram 0
      ⟨⟨.valid, Sequence24.new 0⟩, .encapsulatedPackets [oversized]⟩ 0).1 = .error (.protocol .splitTooLarge) ∧
    (withConfig .loopbackV4 1400 0 {} : ManagedSession ℚ).inner.SameReceive
      ((withConfig .loopbackV4 1400 0 {} : ManagedSession ℚ).handleDatagram 0
        ⟨⟨.valid, Sequence24.new 0⟩, .encapsulatedPackets [oversized]⟩ 0).2.inner :=
  have herr : ((withConfig .loopbackV4 1400 0 {} : ManagedSession ℚ).handleDatagram 0
      ⟨⟨.valid, Sequence24.new 0⟩, .encapsulatedPackets [oversized]⟩ 0).1 = .error (.protocol .splitTooLarge) := by
    decide +kernel
  ⟨herr, (handleDatagram_atomic 0 _ ⟨.valid, Sequence24.new 0⟩ [oversized] 0 _ herr).1
    ⟨[], oversized, [], rfl, by simp, .refused (.tooLarge rfl rfl (by decide))⟩⟩

/-- The packet before the oversized fragment is recorded by the tracker; its output is dropped. -/
theorem handleDatagram_not_atomic : ¬ ∀ (start : Instant) (peer : SocketAddr) (mtu : Nat) (now : Instant)
    (config : SessionConfig) (ops : List Op) (header : DatagramHeader) (packets : List EncapsulatedPacket)
    (now' : Instant) (e : SessionError),
    let m := Machine.run (step start) (withConfig peer mtu now config : ManagedSession ℚ) ops
    (m.handleDatagram start ⟨header, .encapsulatedPackets packets⟩ now').1 = .error e →
    m.inner.SameReceive (m.handleDatagram start ⟨header, .encapsulatedPackets packets⟩ now').2.inner := by
  intro h
  have hsame := h 0 .loopbackV4 1400 0 {} [] ⟨.valid, Sequence24.new 0⟩ [firstReliable, oversized] 0
    (.protocol .splitTooLarge) (by decide +kernel)
  exact absurd hsame.tracker (by decide +kernel)

end ManagedSession

end BedrockRs.Raknet

/-
Split and reassembly: the fragments that `enqueue_fragmented_encaps` makes of many payloads are fed to
one assembler, in any interleaving and order and with repetitions. The invariant `Collecting` ties the
assembler to the arrivals so far: it has an entry for exactly the messages of which some but not all
fragments arrived, the slots of an entry hold the payloads of the fragments that arrived, and the
counter is their number.
-/
import BedrockRs.Lib.Machine
import BedrockRs.Raknet.Session.OutboundSpec
import BedrockRs.Raknet.Session.SplitSpec

namespace BedrockRs.Raknet

open Lib

/-! ## The sender's side -/

/-- A call of `enqueue_fragmented_encaps` with the fragments it adds to the outgoing heap. As
`queue_packet` calls it, the payload is too long to be sent whole. -/
structure FragmentedSend (F : Type) where
  session : Session F
  payload : Bytes
  reliability : Reliability
  channel : UInt8
  priority : RakPriority
  fragments : List EncapsulatedPacket
  mtu : 576 ≤ session.mtu ∧ session.mtu ≤ 1400
  long : max (session.maxEncapsulatedPayloadLen reliability false) 1 < payload.length
  enqueued : ((session.enqueueFragmentedEncaps payload reliability channel priority).2.outgoingHeap.data.map
    QueuedEncap.pkt).Perm (fragments ++ session.outgoingHeap.data.map QueuedEncap.pkt)

namespace FragmentedSend

variable {F : Type}

def splitId (c : FragmentedSend F) : UInt16 := c.session.splitIndex

/-- The reliability the fragments are sent with. -/
def normalized (c : FragmentedSend F) : Reliability := Session.normalizeReliabilityForSplit c.reliability

def maxLen (c : FragmentedSend F) : Nat := max (c.session.maxEncapsulatedPayloadLen c.normalized true) 1

def pieces (c : FragmentedSend F) : List Bytes :=
  Session.chunks c.maxLen ((c.payload.length - 1) / c.maxLen + 1) c.payload

/-- The ordering index the call takes for the message. -/
def orderingIndex (c : FragmentedSend F) : Option Sequence24 := c.session.orderingIndexFor c.normalized c.channel

/-- The `i`-th fragment. -/
def frame (c : FragmentedSend F) (i : Nat) (piece : Bytes) : EncapsulatedPacket :=
  Session.fragmentEncap piece c.normalized c.channel
    (Session.reliableIndexFrom c.normalized c.session.reliabilityWriteIndex i) c.orderingIndex
    ⟨UInt32.ofNat c.pieces.length, c.splitId, UInt32.ofNat i⟩

/-- The fragments in the order of the payload. -/
def frames (c : FragmentedSend F) : List EncapsulatedPacket := c.pieces.mapIdx c.frame

theorem fragments_perm (c : FragmentedSend F) : c.fragments.Perm c.frames := by
  have hqueued :=
    c.session.enqueueFragmentedEncaps_eq .detectLostConnection c.payload c.reliability c.channel c.priority
  have henqueued := c.enqueued
  rw [hqueued] at henqueued
  exact (List.perm_append_right_iff _).1 (henqueued.symm.trans (Session.queued_queueMessage _ _ _).heap)

theorem length_pieces (c : FragmentedSend F) : c.pieces.length = (c.payload.length - 1) / c.maxLen + 1 :=
  Session.length_chunks _ _ _

theorem flatten_pieces (c : FragmentedSend F) : c.pieces.flatten = c.payload :=
  Session.flatten_chunks _ _ _ (Session.le_mul_parts (le_max_right _ _))

/-- A split frame has the larger header, so a payload that is too long for one frame is cut at least
once. -/
theorem two_le_pieces (c : FragmentedSend F) : 2 ≤ c.pieces.length := by
  have hlong := c.long
  have hle : c.maxLen ≤ max (c.session.maxEncapsulatedPayloadLen c.reliability false) 1 := by
    unfold maxLen normalized Session.maxEncapsulatedPayloadLen Session.encapsulatedHeaderOverhead
    cases c.reliability <;>
      simp [Session.normalizeReliabilityForSplit, Reliability.isReliable, Reliability.isSequenced,
      Reliability.isOrdered] <;> omega
  have hpos : 1 ≤ c.maxLen := le_max_right _ _
  rw [length_pieces]
  have : 1 ≤ (c.payload.length - 1) / c.maxLen := (Nat.le_div_iff_mul_le hpos).2 (by omega)
  omega

theorem length_frames (c : FragmentedSend F) : c.frames.length = c.pieces.length := List.length_mapIdx

theorem length_fragments (c : FragmentedSend F) : c.fragments.length = c.pieces.length :=
  c.fragments_perm.length_eq.trans c.length_frames

/-- A fragment by its place in the payload. -/
theorem frames_getElem? (c : FragmentedSend F) {f : EncapsulatedPacket} (hf : f ∈ c.fragments) :
    ∃ i piece, c.pieces[i]? = some piece ∧ f = c.frame i piece ∧ c.frames[i]? = some f := by
  obtain ⟨i, hi, rfl⟩ := List.mem_mapIdx.1 (c.fragments_perm.mem_iff.1 hf)
  refine ⟨i, c.pieces[i], List.getElem?_eq_getElem hi, rfl, ?_⟩
  rw [frames, List.getElem?_mapIdx, List.getElem?_eq_getElem hi]
  rfl

theorem payload_frames (c : FragmentedSend F) : c.frames.map (·.payload) = c.pieces := by
  apply List.ext_getElem?
  intro i
  rw [List.getElem?_map, frames, List.getElem?_mapIdx]
  cases c.pieces[i]? <;> rfl

/-- The index in the split header tells the fragments apart. -/
theorem frames_inj (c : FragmentedSend F) (hlen : c.pieces.length < 2 ^ 32) {i j : Nat} {f : EncapsulatedPacket}
    (hi : c.frames[i]? = some f) (hj : c.frames[j]? = some f) : i = j := by
  rw [frames, List.getElem?_mapIdx, Option.map_eq_some_iff] at hi hj
  obtain ⟨pi, hpi, rfl⟩ := hi
  obtain ⟨pj, hpj, hf⟩ := hj
  have hilt := (List.getElem?_eq_some_iff.1 hpi).1
  have hjlt := (List.getElem?_eq_some_iff.1 hpj).1
  have hsplit : some (SplitInfo.mk _ _ (UInt32.ofNat j)) = some ⟨_, _, UInt32.ofNat i⟩ :=
    congrArg EncapsulatedPacket.split hf
  have hidx : UInt32.ofNat j = UInt32.ofNat i := (SplitInfo.mk.inj (Option.some.inj hsplit)).2.2
  have := congrArg UInt32.toNat hidx
  rwa
    [UInt32.toNat_ofNat_of_lt' (by unfold UInt32.size; omega), UInt32.toNat_ofNat_of_lt' (by unfold UInt32.size; omega),
      eq_comm] at this

/-- The split header of the `i`-th fragment, when the number of fragments fits its field. -/
structure Header (c : FragmentedSend F) (i : Nat) (split : SplitInfo) : Prop where
  count : split.count.toNat = c.pieces.length
  id : split.id = c.splitId
  index : split.index.toNat = i

theorem frame_split (c : FragmentedSend F) (hlen : c.pieces.length < 2 ^ 32) {i : Nat} {piece : Bytes}
    (hi : c.pieces[i]? = some piece) : ∃ split, (c.frame i piece).split = some split ∧ c.Header i split :=
  ⟨_, rfl, UInt32.toNat_ofNat_of_lt' hlen, rfl,
    UInt32.toNat_ofNat_of_lt' (Nat.lt_trans (List.getElem?_eq_some_iff.1 hi).1 hlen)⟩

/-- A reassembled packet with the payload of the call and what the call assigned to its message. -/
structure IsOriginal (c : FragmentedSend F) (enc : EncapsulatedPacket) : Prop where
  payload : enc.payload = c.payload
  index : enc.orderingIndex = (c.session.allocOrderingIndex c.normalized c.channel).1
  channel : enc.orderingChannel = (c.session.allocOrderingIndex c.normalized c.channel).1.map fun _ => c.channel
  reliability : enc.header.reliability = Session.normalizeReliabilityForSplit c.reliability

end FragmentedSend

/-! ## Arrivals -/

/-- A fragment of the message `message` reaches the assembler. -/
structure Arrival (ι : Type) where
  message : ι
  fragment : EncapsulatedPacket
  now : Instant

section

variable {F ι : Type} [DecidableEq ι] (calls : ι → FragmentedSend F)

/-- The fragment `f` of `k` is among the arrivals. -/
def Arrived (done : List (Arrival ι)) (k : ι) (f : EncapsulatedPacket) : Prop :=
  ∃ x ∈ done, x.message = k ∧ x.fragment = f

instance (done : List (Arrival ι)) (k : ι) (f : EncapsulatedPacket) : Decidable (Arrived done k f) :=
  inferInstanceAs (Decidable (∃ x ∈ done, x.message = k ∧ x.fragment = f))

/-- All fragments of `k` are among the arrivals. -/
def Complete (done : List (Arrival ι)) (k : ι) : Prop := ∀ f ∈ (calls k).fragments, Arrived done k f

instance (done : List (Arrival ι)) (k : ι) : Decidable (Complete calls done k) :=
  inferInstanceAs (Decidable (∀ f ∈ (calls k).fragments, Arrived done k f))

/-- The messages of which some but not all fragments arrived. -/
def incomplete (done : List (Arrival ι)) : List ι :=
  (done.map Arrival.message).dedup.filter fun k => ¬ Complete calls done k

/-- The arrivals the assembler is meant for: fragments of the messages, none after its message is
complete, and never more than `maxConcurrent` messages incomplete at once. -/
def Schedule (maxConcurrent : Nat) (arrivals : List (Arrival ι)) : Prop :=
  ∀ (n : Nat) (x : Arrival ι), arrivals[n]? = some x → x.fragment ∈ (calls x.message).fragments ∧
    ¬ Complete calls (arrivals.take n) x.message ∧ (incomplete calls (arrivals.take n ++ [x])).length ≤ maxConcurrent

end

section

variable {F ι : Type} [DecidableEq ι] {calls : ι → FragmentedSend F} {done : List (Arrival ι)} {x : Arrival ι} {k : ι}

omit [DecidableEq ι] in
theorem arrived_append {f : EncapsulatedPacket} :
    Arrived (done ++ [x]) k f ↔ Arrived done k f ∨ x.message = k ∧ x.fragment = f := by
  simp [Arrived, or_and_right, exists_or]

omit [DecidableEq ι] in
theorem arrived_append_of_ne (hk : x.message ≠ k) (f : EncapsulatedPacket) :
    Arrived (done ++ [x]) k f ↔ Arrived done k f := by
  rw [arrived_append]
  exact or_iff_left fun h => hk h.1

theorem mem_incomplete : k ∈ incomplete calls done ↔ (∃ x ∈ done, x.message = k) ∧ ¬ Complete calls done k := by
  simp [incomplete]

theorem mem_incomplete_of_ne (hk : x.message ≠ k) : k ∈ incomplete calls (done ++ [x]) ↔ k ∈ incomplete calls done := by
  simp only [mem_incomplete, Complete, arrived_append_of_ne hk, List.mem_append, List.mem_singleton, or_and_right,
    exists_or, exists_eq_left, hk, or_false]

theorem mem_incomplete_self :
    x.message ∈ incomplete calls (done ++ [x]) ↔ ¬ Complete calls (done ++ [x]) x.message := by
  rw [mem_incomplete]
  exact and_iff_right ⟨x, by simp, rfl⟩

theorem nodup_incomplete : (incomplete calls done).Nodup := (List.nodup_dedup _).filter _

end

namespace SplitAssembler

/-- The assembler after the arrivals. -/
def fed {ι : Type} (a : SplitAssembler) (arrivals : List (Arrival ι)) : SplitAssembler :=
  Machine.run (fun a x => (a.add x.fragment x.now).2) a arrivals

section

variable {F ι : Type} [DecidableEq ι] (calls : ι → FragmentedSend F)

/-- The slots of `k`: the payloads of the fragments that arrived, in place. -/
def slots (done : List (Arrival ι)) (k : ι) : List (Option Bytes) :=
  (calls k).frames.map fun f => if Arrived done k f then some f.payload else none

/-- An entry with what arrived of the message `k`. -/
structure Collects (done : List (Arrival ι)) (k : ι) (entry : SplitEntry) : Prop where
  reliability : entry.reliability = (calls k).normalized
  index : entry.orderingIndex = (calls k).orderingIndex
  channel : entry.orderingChannel = (calls k).orderingIndex.map fun _ => (calls k).channel
  parts : entry.parts = slots calls done k
  received : entry.received = entry.parts.countP Option.isSome

/-- The entries are those of the incomplete messages, each with what arrived of it. -/
structure Collecting (maxParts maxConcurrent : Nat) (done : List (Arrival ι)) (a : SplitAssembler) : Prop where
  maxParts : a.maxParts = maxParts
  maxConcurrent : a.maxConcurrent = maxConcurrent
  entry : ∀ k ∈ incomplete calls done, ∃ entry, a.entries.lookup (calls k).splitId = some entry ∧
    Collects calls done k entry
  known : ∀ id entry, a.entries.lookup id = some entry → ∃ k ∈ incomplete calls done, (calls k).splitId = id

end

section

variable {F ι : Type} [DecidableEq ι] {calls : ι → FragmentedSend F} {done : List (Arrival ι)} {x : Arrival ι} {k : ι}

theorem slots_of_ne (hk : x.message ≠ k) : slots calls (done ++ [x]) k = slots calls done k := by
  simp only [slots, arrived_append_of_ne hk]

theorem slots_of_arrived (hx : Arrived done x.message x.fragment) (k : ι) :
    slots calls (done ++ [x]) k = slots calls done k := by
  have h : ∀ f, Arrived (done ++ [x]) k f ↔ Arrived done k f := by
    intro f
    rw [arrived_append]
    exact or_iff_left_of_imp fun hf => hf.1 ▸ hf.2 ▸ hx
  simp only [slots, h]

theorem length_slots : (slots calls done k).length = (calls k).pieces.length := by
  rw [slots, List.length_map, FragmentedSend.length_frames]

/-- Every slot is filled exactly when the message is complete. -/
theorem all_slots_iff : (∀ slot ∈ slots calls done k, slot.isSome = true) ↔ Complete calls done k := by
  simp only [slots, List.forall_mem_map]
  constructor
  · intro h f hf
    have := h f ((calls k).fragments_perm.mem_iff.1 hf)
    split at this
    · assumption
    · cases this
  · intro h f hf
    rw [if_pos (h f ((calls k).fragments_perm.mem_iff.2 hf))]
    rfl

theorem joinParts_some : ∀ pieces : List Bytes, joinParts (pieces.map some) = .ok pieces.flatten
  | [] => rfl
  | piece :: pieces => by
    rw [List.map_cons, joinParts, joinParts_some pieces]
    rfl

/-- The slots of a complete message join to its payload. -/
theorem joinParts_slots (h : Complete calls done k) : joinParts (slots calls done k) = .ok (calls k).payload := by
  have hslots : slots calls done k = (calls k).pieces.map some := by
    rw [slots, ← (calls k).payload_frames, List.map_map]
    refine List.map_congr_left fun f hf => ?_
    rw [if_pos (h f ((calls k).fragments_perm.mem_iff.2 hf))]
    rfl
  rw [hslots, joinParts_some, FragmentedSend.flatten_pieces]

/-- A fragment that had not arrived fills its slot. -/
theorem slots_set (hlen : (calls x.message).pieces.length < 2 ^ 32) {i : Nat}
    (hi : (calls x.message).frames[i]? = some x.fragment) :
    (slots calls done x.message).set i (some x.fragment.payload) = slots calls (done ++ [x]) x.message := by
  apply List.ext_getElem?
  intro j
  have hilt := (List.getElem?_eq_some_iff.1 hi).1
  rw [List.getElem?_set, slots, slots, List.length_map, List.getElem?_map, List.getElem?_map]
  by_cases hij : i = j
  · subst hij
    rw [if_pos rfl, if_pos hilt, hi, Option.map_some, if_pos (arrived_append.2 (.inr ⟨rfl, rfl⟩))]
  · rw [if_neg hij]
    cases hj : (calls x.message).frames[j]? with
    | none => rfl
    | some f =>
      have hne : x.fragment ≠ f := fun e => hij ((calls x.message).frames_inj hlen hi (e ▸ hj))
      have hiff : Arrived (done ++ [x]) x.message f ↔ Arrived done x.message f := by
        rw [arrived_append]
        exact or_iff_left fun h => hne h.2
      simp only [Option.map_some, hiff]

theorem Collects.of_ne {entry : SplitEntry} (h : Collects calls done k entry) (hk : x.message ≠ k) :
    Collects calls (done ++ [x]) k entry :=
  ⟨h.reliability, h.index, h.channel, h.parts.trans (slots_of_ne hk).symm, h.received⟩

theorem Collects.length {entry : SplitEntry} (h : Collects calls done k entry) :
    entry.parts.length = (calls k).pieces.length := by
  rw [h.parts, length_slots]

/-- The counter reaches the number of parts when the last fragment arrives. -/
theorem Collects.full_iff {entry : SplitEntry} (h : Collects calls done k entry) :
    entry.received = entry.parts.length ↔ Complete calls done k := by
  rw [h.received, List.countP_eq_length, h.parts, all_slots_iff]

/-- An entry that a first fragment opens has collected nothing. -/
theorem collects_openEntry (hnone : ∀ x ∈ done, x.message ≠ k) {i : Nat} {split : SplitInfo}
    (hs : (calls k).Header i split) (piece : Bytes) (now : Instant) :
    Collects calls done k (openEntry ((calls k).frame i piece) split now) := by
  have harrived : ∀ f, ¬ Arrived done k f := by
    rintro f ⟨x, hx, hk, -⟩
    exact hnone x hx hk
  refine ⟨rfl, rfl, rfl, ?_, ?_⟩
  · simp only [openEntry, slots, harrived, if_false, List.map_const', FragmentedSend.length_frames, hs.count]
  · simp only [openEntry]
    rw [List.countP_eq_zero.2 fun slot hs => by rw [List.eq_of_mem_replicate hs]; simp]

theorem Collects.fillPart {entry : SplitEntry} (h : Collects calls done x.message entry)
    (hlen : (calls x.message).pieces.length < 2 ^ 32) {i : Nat} (hi : (calls x.message).frames[i]? = some x.fragment)
    (hpart : entry.parts[i]? = some none) (now : Instant) :
    Collects calls (done ++ [x]) x.message (fillPart entry i x.fragment.payload now) := by
  refine ⟨h.reliability, h.index, h.channel, ?_, ?_⟩
  · rw [SplitAssembler.fillPart, h.parts, slots_set hlen hi]
  · obtain ⟨hilt, hpart⟩ := List.getElem?_eq_some_iff.1 hpart
    simp only [SplitAssembler.fillPart]
    rw [List.countP_set hilt, hpart, h.received]
    simp

/-! ## One arrival -/

section Step

variable {maxParts maxConcurrent : Nat} {a : SplitAssembler}

/-- There are as many entries as incomplete messages. -/
theorem Collecting.length_entries (h : Collecting calls maxParts maxConcurrent done a)
    (hids : Function.Injective fun k => (calls k).splitId) :
    a.entries.entries.length = (incomplete calls done).length := by
  have hperm : a.entries.keys.Perm ((incomplete calls done).map fun k => (calls k).splitId) := by
    refine (List.perm_ext_iff_of_nodup a.entries.keys_nodup (nodup_incomplete.map hids)).2 fun id => ?_
    rw [← AList.mem_keys, ← AList.lookup_isSome, List.mem_map, Option.isSome_iff_exists]
    constructor
    · rintro ⟨entry, he⟩
      exact h.known id entry he
    · rintro ⟨k, hk, rfl⟩
      obtain ⟨entry, he, -⟩ := h.entry k hk
      exact ⟨entry, he⟩
  simpa [AList.keys, List.keys] using hperm.length_eq

/-- The entry under the id of a message collects that message. -/
theorem Collecting.lookup (h : Collecting calls maxParts maxConcurrent done a)
    (hids : Function.Injective fun k => (calls k).splitId) {entry : SplitEntry}
    (he : a.entries.lookup (calls k).splitId = some entry) :
    k ∈ incomplete calls done ∧ Collects calls done k entry := by
  obtain ⟨k', hk', hid⟩ := h.known _ entry he
  obtain rfl : k' = k := hids hid
  obtain ⟨entry', he', hc⟩ := h.entry k' hk'
  rw [he] at he'
  cases he'
  exact ⟨hk', hc⟩

/-- A message without an entry that is not complete has not started. -/
theorem Collecting.not_started (h : Collecting calls maxParts maxConcurrent done a)
    (hnone : a.entries.lookup (calls k).splitId = none) (hk : ¬ Complete calls done k) : ∀ x ∈ done, x.message ≠ k := by
  rintro x hx rfl
  obtain ⟨entry, he, -⟩ := h.entry x.message (mem_incomplete.2 ⟨⟨x, hx, rfl⟩, hk⟩)
  rw [hnone] at he
  cases he

/-- The entry a fragment is added to, new or not, has collected what arrived of the message. -/
theorem Collecting.entryFor (h : Collecting calls maxParts maxConcurrent done a)
    (hids : Function.Injective fun k => (calls k).splitId) (hk : ¬ Complete calls done k) {i : Nat} {split : SplitInfo}
    (hs : (calls k).Header i split) (piece : Bytes) (now : Instant) :
    Collects calls done k (a.entryFor ((calls k).frame i piece) split now) := by
  unfold SplitAssembler.entryFor
  rw [hs.id]
  cases hl : a.entries.lookup (calls k).splitId with
  | some entry => exact (h.lookup hids hl).2
  | none => exact collects_openEntry (h.not_started hl hk) hs piece now

/-- That entry with the fragment's part. -/
theorem Collecting.filled (h : Collecting calls maxParts maxConcurrent done a)
    (hids : Function.Injective fun k => (calls k).splitId) (hlen : (calls k).pieces.length < 2 ^ 32)
    (hk : ¬ Complete calls done k) {i : Nat} {piece : Bytes}
    (hi : (calls k).frames[i]? = some ((calls k).frame i piece)) {split : SplitInfo} (hs : (calls k).Header i split)
    {now : Instant} (hfits : a.Fits ((calls k).frame i piece) split now) :
    Collects calls (done ++ [⟨k, (calls k).frame i piece, now⟩]) k (a.filled ((calls k).frame i piece) split now) := by
  have hpart := hfits.part
  rw [hs.index] at hpart
  rw [SplitAssembler.filled, hs.index]
  exact (h.entryFor hids hk hs piece now).fillPart (x := ⟨k, (calls k).frame i piece, now⟩) hlen hi hpart now

omit [DecidableEq ι] in
/-- A message has at least two fragments, so its first arrival leaves it incomplete. -/
theorem not_complete_first (hlen : (calls x.message).pieces.length < 2 ^ 32)
    (hnew : ∀ y ∈ done, y.message ≠ x.message) : ¬ Complete calls (done ++ [x]) x.message := by
  intro hc
  have htwo := (calls x.message).two_le_pieces
  rw [← FragmentedSend.length_frames] at htwo
  have hfirst : ∀ {i : Nat} {f : EncapsulatedPacket}, (calls x.message).frames[i]? = some f → x.fragment = f := by
    intro i f hf
    rcases arrived_append.1 (hc f ((calls x.message).fragments_perm.mem_iff.2 (List.mem_of_getElem? hf))) with
      ⟨y, hy, hm, -⟩ | ⟨-, he⟩
    · exact absurd hm (hnew y hy)
    · exact he
  have h0 : (calls x.message).frames[0]? = some x.fragment := by
    rw [hfirst (List.getElem?_eq_getElem (by omega : 0 < _))]
    exact List.getElem?_eq_getElem _
  have h1 : (calls x.message).frames[1]? = some x.fragment := by
    rw [hfirst (List.getElem?_eq_getElem (by omega : 1 < _))]
    exact List.getElem?_eq_getElem _
  exact absurd ((calls x.message).frames_inj hlen h0 h1) (by decide)

/-- Room for a new entry: the message it is for is incomplete after its first fragment. -/
theorem Collecting.room (h : Collecting calls maxParts maxConcurrent done a)
    (hids : Function.Injective fun k => (calls k).splitId) (hlen : (calls x.message).pieces.length < 2 ^ 32)
    (hroom : (incomplete calls (done ++ [x])).length ≤ maxConcurrent)
    (hnone : a.entries.lookup (calls x.message).splitId = none) (hk : ¬ Complete calls done x.message) :
    a.entries.entries.length < maxConcurrent := by
  have hnew := h.not_started hnone hk
  have hafter : ¬ Complete calls (done ++ [x]) x.message := not_complete_first hlen hnew
  have hperm : (incomplete calls (done ++ [x])).Perm (x.message :: incomplete calls done) := by
    refine (List.perm_ext_iff_of_nodup nodup_incomplete (List.nodup_cons.2 ⟨?_, nodup_incomplete⟩)).2 fun k => ?_
    · intro hm
      obtain ⟨⟨y, hy, he⟩, -⟩ := mem_incomplete.1 hm
      exact hnew y hy he
    · by_cases hkx : x.message = k
      · subst hkx
        simp [mem_incomplete_self, hafter]
      · rw [mem_incomplete_of_ne hkx, List.mem_cons, or_iff_right (Ne.symm hkx)]
  rw [h.length_entries hids]
  rw [hperm.length_eq, List.length_cons] at hroom
  exact hroom

/-- A fragment that had arrived changes nothing. -/
theorem Collecting.again (h : Collecting calls maxParts maxConcurrent done a) (hx : Arrived done x.message x.fragment) :
    Collecting calls maxParts maxConcurrent (done ++ [x]) a ∧
      (Complete calls (done ++ [x]) x.message ↔ Complete calls done x.message) := by
  have harrived : ∀ k f, Arrived (done ++ [x]) k f ↔ Arrived done k f := by
    intro k f
    rw [arrived_append]
    exact or_iff_left_of_imp fun hf => hf.1 ▸ hf.2 ▸ hx
  have hmem : ∀ k, k ∈ incomplete calls (done ++ [x]) ↔ k ∈ incomplete calls done := by
    intro k
    by_cases hk : x.message = k
    · subst hk
      obtain ⟨y, hy, hm, -⟩ := hx
      rw [mem_incomplete_self, mem_incomplete, and_iff_right ⟨y, hy, hm⟩, Complete, Complete]
      simp only [harrived]
    · exact mem_incomplete_of_ne hk
  refine ⟨⟨h.maxParts, h.maxConcurrent, fun k hk => ?_, fun id entry he => ?_⟩, by simp only [Complete, harrived]⟩
  · obtain ⟨entry, he, hc⟩ := h.entry k ((hmem k).1 hk)
    exact ⟨entry, he, hc.reliability, hc.index, hc.channel, hc.parts.trans (slots_of_arrived hx k).symm, hc.received⟩
  · obtain ⟨k, hk, hid⟩ := h.known id entry he
    exact ⟨k, (hmem k).2 hk, hid⟩

/-- A fragment is stored and its message stays incomplete. -/
theorem Collecting.insert (h : Collecting calls maxParts maxConcurrent done a)
    (hids : Function.Injective fun k => (calls k).splitId) {entry : SplitEntry}
    (hc : Collects calls (done ++ [x]) x.message entry) (hk : ¬ Complete calls (done ++ [x]) x.message) :
    Collecting calls maxParts maxConcurrent (done ++ [x])
      { a with entries := a.entries.insert (calls x.message).splitId entry } := by
  refine ⟨h.maxParts, h.maxConcurrent, fun k hk' => ?_, fun id entry' he => ?_⟩
  · by_cases hkx : x.message = k
    · subst hkx
      exact ⟨entry, AList.lookup_insert _, hc⟩
    · obtain ⟨entry', he, hc'⟩ := h.entry k ((mem_incomplete_of_ne hkx).1 hk')
      exact ⟨entry', by rw [AList.lookup_insert_ne fun e => hkx (hids e).symm]; exact he, hc'.of_ne hkx⟩
  · by_cases hid : id = (calls x.message).splitId
    · exact ⟨x.message, mem_incomplete_self.2 hk, hid.symm⟩
    · rw [AList.lookup_insert_ne hid] at he
      obtain ⟨k, hk', rfl⟩ := h.known id entry' he
      exact ⟨k, (mem_incomplete_of_ne fun e => hid (by rw [e])).2 hk', rfl⟩

/-- The last fragment of a message removes its entry. -/
theorem Collecting.erase (h : Collecting calls maxParts maxConcurrent done a)
    (hids : Function.Injective fun k => (calls k).splitId) (hk : Complete calls (done ++ [x]) x.message) :
    Collecting calls maxParts maxConcurrent (done ++ [x])
    { a with entries := a.entries.erase (calls x.message).splitId } := by
  refine ⟨h.maxParts, h.maxConcurrent, fun k hk' => ?_, fun id entry he => ?_⟩
  · have hkx : x.message ≠ k := by
      rintro rfl
      exact mem_incomplete_self.1 hk' hk
    obtain ⟨entry, he, hc⟩ := h.entry k ((mem_incomplete_of_ne hkx).1 hk')
    exact ⟨entry, by rw [AList.lookup_erase_ne fun e => hkx (hids e).symm]; exact he, hc.of_ne hkx⟩
  · have hid : id ≠ (calls x.message).splitId := by
      rintro rfl
      simp at he
    rw [AList.lookup_erase_ne hid] at he
    obtain ⟨k, hk', rfl⟩ := h.known id entry he
    exact ⟨k, (mem_incomplete_of_ne fun e => hid (by rw [e])).2 hk', rfl⟩

/-- What one arrival returns: no error, and a packet exactly when it completes the message, with what
the sender queued. -/
structure Returns (calls : ι → FragmentedSend F) (done : List (Arrival ι)) (x : Arrival ι)
    (res : Except DecodeError (Option EncapsulatedPacket)) : Prop where
  none : ¬ Complete calls (done ++ [x]) x.message → res = .ok none
  some : Complete calls (done ++ [x]) x.message → ∃ enc, res = .ok (some enc) ∧ (calls x.message).IsOriginal enc

theorem Collecting.add (h : Collecting calls maxParts maxConcurrent done a) (hu32 : maxParts < 2 ^ 32)
    (hids : Function.Injective fun k => (calls k).splitId) (hparts : ∀ k, (calls k).fragments.length ≤ maxParts)
    (hf : x.fragment ∈ (calls x.message).fragments) (hk : ¬ Complete calls done x.message)
    (hroom : (incomplete calls (done ++ [x])).length ≤ maxConcurrent) :
    Collecting calls maxParts maxConcurrent (done ++ [x]) (a.add x.fragment x.now).2 ∧
      Returns calls done x (a.add x.fragment x.now).1 := by
  obtain ⟨k, f, now⟩ := x
  simp only at hf hk ⊢
  obtain ⟨i, piece, hpiece, rfl, hi⟩ := (calls k).frames_getElem? hf
  have hle : (calls k).pieces.length ≤ maxParts := (calls k).length_fragments ▸ hparts k
  have hlen : (calls k).pieces.length < 2 ^ 32 := Nat.lt_of_le_of_lt hle hu32
  have hilt := (List.getElem?_eq_some_iff.1 hpiece).1
  obtain ⟨split, hsplit, hs⟩ := (calls k).frame_split hlen hpiece
  have hinfo : ∀ {split' : SplitInfo}, ((calls k).frame i piece).split = some split' → split' = split :=
    fun h' => Option.some.inj (h'.symm.trans hsplit)
  have hcases := a.add_cases ((calls k).frame i piece) now
  generalize a.add ((calls k).frame i piece) now = res at hcases
  cases hcases with
  | whole hw => cases hw
  | refused hr =>
    -- none of the five refusals applies
    exfalso
    cases hr with
    | noInfo _ hno => rw [hsplit] at hno; cases hno
    | tooLarge _ h' hmany =>
      obtain rfl := hinfo h'
      rw [hs.count, h.maxParts] at hmany
      exact Nat.not_lt.2 hle hmany
    | full _ h' _ hfull hnone =>
      obtain rfl := hinfo h'
      rw [hs.id] at hnone
      rw [h.maxConcurrent] at hfull
      exact Nat.not_lt.2 hfull (h.room (x := ⟨k, _, now⟩) hids hlen hroom hnone hk)
    | mismatch hadmits hentry hne =>
      obtain rfl := hinfo hadmits.info
      rw [hs.id] at hentry
      exact hne ((h.lookup hids hentry).2.length.trans hs.count.symm)
    | outOfRange hadmits hentry _ hout =>
      obtain rfl := hinfo hadmits.info
      rw [hs.id] at hentry
      rw [(h.lookup hids hentry).2.length, hs.index] at hout
      exact Nat.not_lt.2 hout hilt
  | opened hadmits _ hout =>
    obtain rfl := hinfo hadmits.info
    rw [hs.count, hs.index] at hout
    exact absurd hilt (Nat.not_lt.2 hout)
  | duplicate hdup =>
    obtain rfl := hinfo hdup.admits.info
    obtain ⟨part, hpart⟩ := hdup.part
    have hentry := hdup.stored
    rw [hs.id] at hentry
    have harrived : Arrived done k ((calls k).frame i piece) := by
      rw [(h.lookup hids hentry).2.parts, hs.index, slots, List.getElem?_map, hi] at hpart
      by_contra hno
      rw [Option.map_some, if_neg hno] at hpart
      cases hpart
    obtain ⟨hnext, hiff⟩ := h.again (x := ⟨k, (calls k).frame i piece, now⟩) harrived
    exact ⟨hnext, fun _ => rfl, fun hc => absurd (hiff.1 hc) hk⟩
  | stored hfits hmore =>
    obtain rfl := hinfo hfits.admits.info
    have hc := h.filled hids hlen hk hi hs hfits
    have hno := fun hcomp => hmore (hc.full_iff.2 hcomp)
    rw [hs.id]
    exact ⟨h.insert (x := ⟨k, (calls k).frame i piece, now⟩) hids hc hno, fun _ => rfl, fun hcomp => absurd hcomp hno⟩
  | broken hfits hall hjoin =>
    obtain rfl := hinfo hfits.admits.info
    have hc := h.filled hids hlen hk hi hs hfits
    have hjoin' := joinParts_slots (hc.full_iff.1 hall)
    rw [← hc.parts, hjoin] at hjoin'
    cases hjoin'
  | completed hfits hall hjoin =>
    obtain rfl := hinfo hfits.admits.info
    have hc := h.filled hids hlen hk hi hs hfits
    have hcomp := hc.full_iff.1 hall
    have hjoin' := joinParts_slots hcomp
    rw [← hc.parts, hjoin] at hjoin'
    cases hjoin'
    rw [hs.id]
    exact ⟨h.erase (x := ⟨k, (calls k).frame i piece, now⟩) hids hcomp, fun hno => absurd hcomp hno,
      fun _ => ⟨_, rfl, rfl, hc.index, hc.channel, hc.reliability⟩⟩

end Step

/-! ## Runs -/

omit [DecidableEq ι] in
theorem take_succ_arrivals {arrivals : List (Arrival ι)} {n : Nat} (hx : arrivals[n]? = some x) :
    arrivals.take (n + 1) = arrivals.take n ++ [x] := by
  rw [List.take_add_one, hx]
  rfl

theorem collecting_fed {maxParts maxConcurrent : Nat} (ttl : Duration) (hu32 : maxParts < 2 ^ 32)
    (hids : Function.Injective fun k => (calls k).splitId) (hparts : ∀ k, (calls k).fragments.length ≤ maxParts)
    {arrivals : List (Arrival ι)} (hs : Schedule calls maxConcurrent arrivals) : ∀ n ≤ arrivals.length,
    Collecting calls maxParts maxConcurrent (arrivals.take n) ((new ttl maxParts maxConcurrent).fed (arrivals.take n))
  | 0, _ => by
    refine ⟨rfl, rfl, fun k hk => ?_, fun id entry he => ?_⟩
    · simp [incomplete] at hk
    · simp [fed, new] at he
  | n + 1, hn => by
    have ih := collecting_fed ttl hu32 hids hparts hs n (by omega)
    have hx : arrivals[n]? = some arrivals[n] := List.getElem?_eq_getElem _
    obtain ⟨hf, hk, hroom⟩ := hs n _ hx
    rw [take_succ_arrivals hx, fed, Machine.run_append]
    exact (ih.add hu32 hids hparts hf hk hroom).1

omit [DecidableEq ι] in
theorem complete_mono {later : List (Arrival ι)} (h : Complete calls done k) (hsub : done ⊆ later) :
    Complete calls later k := by
  intro f hf
  obtain ⟨x, hx, hm, he⟩ := h f hf
  exact ⟨x, hsub hx, hm, he⟩

omit [DecidableEq ι] in
theorem complete_append_of_ne (hk : x.message ≠ k) : Complete calls (done ++ [x]) k ↔ Complete calls done k := by
  simp only [Complete, arrived_append_of_ne hk]

/-- A message that is complete at the end was completed by the arrival of one of its fragments. -/
theorem exists_completing {arrivals : List (Arrival ι)} (hk : Complete calls arrivals k) :
    ∃ n x, arrivals[n]? = some x ∧ x.message = k ∧ ¬ Complete calls (arrivals.take n) k ∧
      Complete calls (arrivals.take n ++ [x]) k := by
  have hex : ∃ m, Complete calls (arrivals.take m) k := ⟨arrivals.length, by rwa [List.take_length]⟩
  cases hm : Nat.find hex with
  | zero =>
    -- a message has fragments, so it is not complete from the start
    have hspec := Nat.find_spec hex
    rw [hm] at hspec
    have htwo := (calls k).two_le_pieces
    rw [← FragmentedSend.length_fragments] at htwo
    obtain ⟨f, hf⟩ := List.exists_mem_of_length_pos (by omega : 0 < (calls k).fragments.length)
    obtain ⟨x, hx, -⟩ := hspec f hf
    simp at hx
  | succ n =>
    have hnot : ¬ Complete calls (arrivals.take n) k := Nat.find_min hex (by omega)
    have hspec := Nat.find_spec hex
    rw [hm] at hspec
    cases hx : arrivals[n]? with
    | none =>
      rw [List.take_of_length_le (Nat.le_succ_of_le (List.getElem?_eq_none_iff.1 hx))] at hspec
      rw [List.take_of_length_le (List.getElem?_eq_none_iff.1 hx)] at hnot
      exact absurd hspec hnot
    | some x =>
      rw [take_succ_arrivals hx] at hspec
      refine ⟨n, x, hx, ?_, hnot, hspec⟩
      by_contra hne
      exact hnot ((complete_append_of_ne hne).1 hspec)

/-- Fragments of any number of messages, fed in any order and interleaving with repetitions: `add`
never fails, and returns a packet exactly at the arrival of the last missing fragment of a message,
with the payload and metadata the sender gave it; so once for each message that is complete. -/
theorem fed_reassembles (calls : ι → FragmentedSend F) (ttl : Duration) (maxParts maxConcurrent : Nat)
    (hu32 : maxParts < 2 ^ 32) (hids : Function.Injective fun k => (calls k).splitId)
    (hparts : ∀ k, (calls k).fragments.length ≤ maxParts) (arrivals : List (Arrival ι))
    (hs : Schedule calls maxConcurrent arrivals) : (∀ n x, arrivals[n]? = some x → Returns calls (arrivals.take n) x
      (((new ttl maxParts maxConcurrent).fed (arrivals.take n)).add x.fragment x.now).1) ∧
    ∀ k, Complete calls arrivals k → ∃! n, ∃ x enc, arrivals[n]? = some x ∧ x.message = k ∧
      (((new ttl maxParts maxConcurrent).fed (arrivals.take n)).add x.fragment x.now).1 = .ok (some enc) := by
  have hret : ∀ n x, arrivals[n]? = some x → Returns calls (arrivals.take n) x
      (((new ttl maxParts maxConcurrent).fed (arrivals.take n)).add x.fragment x.now).1 := by
    intro n x hx
    obtain ⟨hf, hk, hroom⟩ := hs n x hx
    have hn := (List.getElem?_eq_some_iff.1 hx).1
    exact ((collecting_fed ttl hu32 hids hparts hs n (Nat.le_of_lt hn)).add hu32 hids hparts hf hk hroom).2
  refine ⟨hret, fun k hk => ?_⟩
  obtain ⟨n, x, hx, rfl, hnot, hcomp⟩ := exists_completing hk
  obtain ⟨enc, henc, -⟩ := (hret n x hx).some hcomp
  refine ⟨n, ⟨x, enc, hx, rfl, henc⟩, ?_⟩
  rintro n' ⟨x', enc', hx', hm, henc'⟩
  -- the message is incomplete before both arrivals and complete after both
  have hnot' : ¬ Complete calls (arrivals.take n') x.message := hm ▸ (hs n' x' hx').2.1
  have hcomp' : Complete calls (arrivals.take n' ++ [x']) x.message := by
    by_contra hno
    rw [(hret n' x' hx').none (hm ▸ hno)] at henc'
    cases henc'
  rw [← take_succ_arrivals hx] at hcomp
  rw [← take_succ_arrivals hx'] at hcomp'
  have hgrows : ∀ {i j : Nat}, i ≤ j → arrivals.take i ⊆ arrivals.take j :=
    fun hij => (List.take_prefix_take_left hij).subset
  rcases Nat.lt_trichotomy n' n with hlt | heq | hlt
  · exact absurd (complete_mono hcomp' (hgrows hlt)) hnot
  · exact heq
  · exact absurd (complete_mono hcomp (hgrows hlt)) hnot'

end

/-! ## Two messages -/

/-- Two fragments of 524 and 77 bytes each. -/
def longPayload (first : UInt8) : Bytes := first :: List.replicate 600 0

/-- The two fragments of `longPayload first`, queued as `ReliableOrdered` on channel 0 with the given
split id and indexes. -/
def firstPart (first : UInt8) (id : UInt16) (reliable ordering : Nat) : EncapsulatedPacket :=
  Session.fragmentEncap (first :: List.replicate 523 0) .reliableOrdered 0 (some (Sequence24.new reliable))
    (some (Sequence24.new ordering)) ⟨2, id, 0⟩

def secondPart (id : UInt16) (reliable ordering : Nat) : EncapsulatedPacket :=
  Session.fragmentEncap (List.replicate 77 0) .reliableOrdered 0 (some (Sequence24.new reliable))
    (some (Sequence24.new ordering)) ⟨2, id, 1⟩

/-- A session queues one long payload after another. -/
def longSend (second : Bool) : FragmentedSend ℚ where
  session := if second then
      ((Session.withTunables 576 {}).enqueueFragmentedEncaps (longPayload 0x80) .reliableOrdered 0 .immediate).2
    else Session.withTunables 576 {}
  payload := if second then longPayload 0x81 else longPayload 0x80
  reliability := .reliableOrdered
  channel := 0
  priority := .immediate
  fragments := if second then [firstPart 0x81 1 2 1, secondPart 1 3 1] else [firstPart 0x80 0 0 0, secondPart 0 1 0]
  mtu := by cases second <;> decide +kernel
  long := by cases second <;> decide +kernel
  enqueued := by cases second <;> decide +kernel

/-- The second message starts first, the fragments are interleaved and one is repeated. -/
def interleaved : List (Arrival Bool) :=
  [⟨true, secondPart 1 3 1, 0⟩, ⟨false, firstPart 0x80 0 0 0, 0⟩, ⟨true, secondPart 1 3 1, 1⟩,
    ⟨true, firstPart 0x81 1 2 1, 2⟩, ⟨false, secondPart 0 1 0, 3⟩]

theorem fed_reassembles_interleaved : Complete longSend interleaved true ∧ ∃! n, ∃ x enc, interleaved[n]? = some x ∧
    x.message = true ∧ (((new 0 2 2).fed (interleaved.take n)).add x.fragment x.now).1 = .ok (some enc) := by
  have hs : ∀ n : Fin 5, ∀ x ∈ interleaved[n]?, x.fragment ∈ (longSend x.message).fragments ∧
      ¬ Complete longSend (interleaved.take n) x.message ∧
      (incomplete longSend (interleaved.take n ++ [x])).length ≤ 2 := by decide +kernel
  have hsched : Schedule longSend 2 interleaved := by
    intro n x hx
    have hn : n < 5 := (List.getElem?_eq_some_iff.1 hx).1
    exact hs ⟨n, hn⟩ x hx
  have hcomplete : Complete longSend interleaved true := by decide +kernel
  refine ⟨hcomplete, (fed_reassembles longSend 0 2 2 (by decide) ?_ ?_ interleaved hsched).2 true hcomplete⟩
  · intro k k' hk
    revert k k'
    decide +kernel
  · decide +kernel

end SplitAssembler

end BedrockRs.Raknet

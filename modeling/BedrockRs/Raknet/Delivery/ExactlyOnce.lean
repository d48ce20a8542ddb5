/-
An ordering channel delivers all that was queued on it, each message once and in order. On top of what
at-least-once delivery asks for (a packet that is accepted is kept, and no entry expires), a packet that
has to wait on the channel must find room in its heap and must not wait there already: a full heap drops
it, and a second copy stops the release loop when the first one is gone. Then every message whose packets
were accepted has been passed by the read index, waits in the heap, or misses a part. Once everything was
accepted nothing waits any more, so that all messages were passed, and what was passed has come out
(`returned_eq_queued`).
-/
import BedrockRs.Raknet.Delivery.Prefix
import BedrockRs.Raknet.Session.OrderingRuns

namespace BedrockRs.Raknet

open Lib
open scoped List

/-! ## One channel -/

namespace OrderingChannel

/-- The channel has got the packet with ordering index `i`: it was passed, or it waits. -/
def Has (ch : OrderingChannel) (i : Nat) : Prop := i < ch.orderRead.val ∨ i ∈ ch.buffered

/-- A channel on which every index waits at most once, and none that the read index has come to. -/
structure Waits (n : Nat) (ch : OrderingChannel) : Prop extends Bounded n ch where
  ahead : ∀ i ∈ ch.buffered, ch.orderRead.val < i
  distinct : ch.buffered.Nodup

/-- A packet with this index that has to wait finds room, and no other copy of it. -/
def TakesUp (ch : OrderingChannel) (idx : Sequence24) : Prop :=
  ch.orderRead.lt idx = true → ch.heap.len < 2048 ∧ idx.val ∉ ch.buffered

instance (ch : OrderingChannel) (idx : Sequence24) : Decidable (ch.TakesUp idx) :=
  inferInstanceAs (Decidable (_ → _ < _ ∧ _ ∉ _))

variable {n : Nat} {ch : OrderingChannel}

theorem Waits.new (n : Nat) : Waits n new where
  read := Nat.zero_le _
  entries := fun e he => by simp [OrderingChannel.new, BinaryHeap.empty] at he
  order := BinaryHeap.empty_isHeap
  ahead := fun i hi => by simp [buffered, OrderingChannel.new, BinaryHeap.empty] at hi
  distinct := List.nodup_nil

theorem Waits.mono (h : Waits n ch) {n' : Nat} (hle : n ≤ n') : Waits n' ch :=
  { h with
    read := h.read.trans (Nat.add_le_add_right hle 1)
    entries := fun e he => ⟨(h.entries e he).1.trans hle, (h.entries e he).2⟩ }

/-- Only the read index and the heap matter. -/
theorem Waits.of_same (h : Waits n ch) {ch' : OrderingChannel} (hread : ch'.orderRead = ch.orderRead)
    (hheap : ch'.heap = ch.heap) : Waits n ch' := by
  obtain ⟨read, write, heap⟩ := ch
  obtain ⟨read', write', heap'⟩ := ch'
  cases hread
  cases hheap
  exact ⟨⟨h.read, h.entries, h.order⟩, h.ahead, h.distinct⟩

/-- The release loop takes what it passes from the heap, and stops in front of the next index that waits. -/
theorem release_waits (hn : n < 2 ^ 23) (h : Waits n ch) (hread : ch.orderRead.next.val = ch.orderRead.val + 1)
    (hle : ch.orderRead.val ≤ n) : Waits n (release { ch with orderRead := ch.orderRead.next }).2 ∧
      ∀ i, i = ch.orderRead.val ∨ ch.Has i → (release { ch with orderRead := ch.orderRead.next }).2.Has i := by
  generalize hstart : ({ ch with orderRead := ch.orderRead.next } : OrderingChannel) = start
  have hbuffered : start.buffered = ch.buffered := by
    rw [← hstart]
    rfl
  have hval : start.orderRead.val = ch.orderRead.val + 1 := by
    rw [← hstart]
    exact hread
  have hbounded : Bounded n start := by
    rw [← hstart]
    exact ⟨show ch.orderRead.next.val ≤ n + 1 by omega, h.entries, h.order⟩
  have hlow : ∀ i ∈ start.buffered, start.orderRead.val ≤ i := by
    intro i hi
    rw [hbuffered] at hi
    have := h.ahead i hi
    omega
  have hret := drain_returned hn start.heap.len start hbounded
  have hperm := drain_buffered hn start.heap.len hbounded
  have hmono := hret.mono
  have hdistinct : start.buffered.Nodup := hbuffered ▸ h.distinct
  refine ⟨⟨hret.bounded, ?_, (List.nodup_append.1 (hperm.nodup_iff.1 hdistinct)).2.1⟩, fun i hi => ?_⟩
  · rcases drain_clear_or_stale hn start.heap.len start hbounded le_rfl hlow with hclear | ⟨top, -, -, htwice⟩
    · exact hclear
    · -- a stale top is a second copy
      have := List.nodup_iff_count_le_one.1 hdistinct top.index.val
      omega
  · unfold release
    rcases hi with rfl | hi | hi
    · exact .inl (by omega)
    · exact .inl (by omega)
    · rw [← hbuffered, hperm.mem_iff, List.mem_append, List.mem_range'_1] at hi
      exact hi.imp_left fun hi => by omega

theorem handleOrdered_waits (hn : n + 1 < 2 ^ 23) (h : Waits n ch) {idx : Sequence24} {enc : EncapsulatedPacket}
    (hidx : idx.val ≤ n) (htag : enc.orderingIndex = some idx) (htakes : ch.TakesUp idx) :
    Waits n (ch.handleOrdered idx enc).2 ∧ ∀ i, i = idx.val ∨ ch.Has i → (ch.handleOrdered idx enc).2.Has i := by
  have hbounded := (handleOrdered_returned (by omega) h.toBounded hidx htag).bounded
  have hread : ch.orderRead.val < 2 ^ 23 := h.read.trans_lt hn
  have hsmall : idx.val < 2 ^ 23 := hidx.trans_lt (Nat.lt_of_succ_lt hn)
  rcases ch.handleOrdered_cases idx enc with ⟨hlt, -, he⟩ | ⟨hlt, hfull, -⟩ | ⟨-, hgt, he⟩ | ⟨rfl, he⟩
  · rw [he] at hbounded ⊢
    have hpush : ∀ i, i ∈ buffered { ch with heap := ch.heap.push OrderedEncap.reverseLe ⟨idx, enc⟩ } ↔
        i = idx.val ∨ i ∈ ch.buffered := by
      intro i
      rw [mem_buffered, mem_buffered]
      constructor
      · rintro ⟨e, he, rfl⟩
        rcases BinaryHeap.mem_push.1 he with rfl | he
        · exact .inl rfl
        · exact .inr ⟨e, he, rfl⟩
      · rintro (rfl | ⟨e, he, rfl⟩)
        · exact ⟨_, BinaryHeap.mem_push.2 (.inl rfl), rfl⟩
        · exact ⟨e, BinaryHeap.mem_push.2 (.inr he), rfl⟩
    refine ⟨⟨hbounded, fun i hi => ?_, ?_⟩, fun i hi => ?_⟩
    · rcases (hpush i).1 hi with rfl | hi
      · exact (Sequence24.lt_iff_of_small hread hsmall).1 hlt
      · exact h.ahead i hi
    · have hperm := (BinaryHeap.push_perm OrderedEncap.reverseLe ch.heap ⟨idx, enc⟩).map fun e => e.index.val
      exact hperm.nodup_iff.2 (List.nodup_cons.2 ⟨(htakes hlt).2, h.distinct⟩)
    · rcases hi with rfl | hi | hi
      · exact .inr ((hpush _).2 (.inl rfl))
      · exact .inl hi
      · exact .inr ((hpush i).2 (.inr hi))
  · exact absurd (htakes hlt).1 (Nat.not_lt.2 hfull)
  · rw [he]
    refine ⟨h, fun i hi => hi.elim (fun hi => ?_) id⟩
    rw [hi]
    exact .inl ((Sequence24.gt_iff_of_small hread hsmall).1 hgt)
  · rw [he]
    exact release_waits (by omega) h (Sequence24.val_next_of_lt (by omega)) hidx

end OrderingChannel

/-! ## What is kept of the messages of a channel -/

/-- The message is queued on the channel. -/
def Message.isOn (c : UInt8) (m : Message) : Bool := m.reliability.isOrdered && m.channel == c

theorem Message.isReliable_of_isOn {c : UInt8} {m : Message} (h : m.isOn c = true) : m.reliability.isReliable = true :=
  Reliability.isReliable_of_isOrdered (Bool.and_eq_true _ _ ▸ h).1

/-- The channel has got the message, under its own ordering index. -/
def OrderingChannel.Got (ch : OrderingChannel) (m : Message) : Prop := ∃ idx ∈ m.orderingIndex, ch.Has idx.val

/-- What tracker and assembler keep of the frames `got` for a channel: each belongs to a message that the
channel has got, or is held in an entry of the assembler. What the tracker counts as seen the channel has got.
-/
structure KeepsOrdered (c : UInt8) (log : List Message) (t : ReliableTracker) (a : SplitAssembler)
    (ch : OrderingChannel) (got : List EncapsulatedPacket) (seen : List Nat) (base : Nat) : Prop where
  vouches : t.Vouches seen base
  small : ∀ n ∈ seen, n < reliableCount log
  inProgress : a.InProgress log
  frames : ∀ p ∈ got, ∃ m ∈ log, p ∈ m.frames
  recorded : ∀ i m, log[i]? = some m → m.isOn c = true → m.isFragmented = false → reliableCount (log.take i) ∈ seen →
    ch.Got m
  kept : ∀ m ∈ log, m.isOn c = true → ∀ p ∈ m.frames, p ∈ got → ch.Got m ∨ a.Holds m p

namespace KeepsOrdered

variable {F : Type} {c : UInt8} {s : Session F} {log : List Message} {t : ReliableTracker} {a : SplitAssembler}
  {ch : OrderingChannel} {got : List EncapsulatedPacket} {seen : List Nat} {base : Nat}

theorem new (c : UInt8) (maxWindow : Nat) (ttl : Duration) (maxParts maxConcurrent : Nat) :
    KeepsOrdered c [] (ReliableTracker.new maxWindow) (SplitAssembler.new ttl maxParts maxConcurrent) .new [] [] 0 where
  vouches := .new maxWindow
  small := by simp
  inProgress := .new ttl maxParts maxConcurrent
  frames := by simp
  recorded := by simp
  kept := by simp

theorem small_lt (hx : Indexed s log) (h : KeepsOrdered c log t a ch got seen base) : ∀ n ∈ seen, n < 2 ^ 23 :=
  fun n hn => (h.small n hn).trans hx.reliable

theorem mono (h : KeepsOrdered c log t a ch got seen base) {got' : List EncapsulatedPacket} (hgot : got' ⊆ got) :
    KeepsOrdered c log t a ch got' seen base :=
  { h with
    frames := fun p hp => h.frames p (hgot hp)
    kept := fun m hm hon p hframe hp => h.kept m hm hon p hframe (hgot hp) }

/-- The channel moves on. -/
theorem moves (h : KeepsOrdered c log t a ch got seen base) {ch' : OrderingChannel}
    (hmoves : ∀ i, ch.Has i → ch'.Has i) : KeepsOrdered c log t a ch' got seen base := by
  have hgot : ∀ {m : Message}, ch.Got m → ch'.Got m := fun ⟨idx, hidx, hhas⟩ => ⟨idx, hidx, hmoves _ hhas⟩
  exact { h with
    recorded := fun i m hi hon hwhole hseen => hgot (h.recorded i m hi hon hwhole hseen)
    kept := fun m hm hon p hframe hp => (h.kept m hm hon p hframe hp).imp_left hgot }

/-- More messages are queued. -/
theorem append (h : KeepsOrdered c log t a ch got seen base) (more : List Message) (hx : Indexed s (log ++ more)) :
    KeepsOrdered c (log ++ more) t a ch got seen base := by
  have hcount : reliableCount log ≤ reliableCount (log ++ more) := by
    rw [reliableCount_append]
    exact Nat.le_add_right _ _
  refine ⟨h.vouches, fun n hn => (h.small n hn).trans_le hcount, h.inProgress.append more, fun p hp => ?_,
    fun i m hi hon hwhole hseen => ?_, fun m hm hon p hframe hp => ?_⟩
  · obtain ⟨m, hm, hframe⟩ := h.frames p hp
    exact ⟨m, List.mem_append_left _ hm, hframe⟩
  · rcases Nat.lt_or_ge i log.length with hlt | hge
    · rw [List.getElem?_append_left hlt] at hi
      rw [List.take_append_of_le_length hlt.le] at hseen
      exact h.recorded i m hi hon hwhole hseen
    · -- the indexes of a new message are past those shown
      have hlt := h.small _ hseen
      rw [List.take_append, List.take_of_length_le hge, reliableCount_append] at hlt
      omega
  · obtain ⟨m', hm', hframe'⟩ := h.frames p hp
    obtain rfl := hx.frame_unique hm (List.mem_append_left _ hm') (Message.isReliable_of_isOn hon) hframe hframe' rfl
    exact h.kept m hm' hon p hframe hp

/-! ### One packet -/

section Packet

variable {m : Message} {p : EncapsulatedPacket}

/-- A frame whose message the channel has got, or that is held, may count as handled. -/
theorem got_frame (hx : Indexed s log) (h : KeepsOrdered c log t a ch got seen base) (hm : m ∈ log) (hp : p ∈ m.frames)
    (hkept : m.isOn c = true → ch.Got m ∨ a.Holds m p) : KeepsOrdered c log t a ch (got ++ [p]) seen base := by
  refine { h with frames := fun q hq => ?_, kept := fun m' hm' hon q hframe hq => ?_ }
  · rcases List.mem_append.1 hq with hq | hq
    · exact h.frames q hq
    · rw [List.mem_singleton.1 hq]
      exact ⟨m, hm, hp⟩
  · rcases List.mem_append.1 hq with hq | hq
    · exact h.kept m' hm' hon q hframe hq
    · rw [List.mem_singleton.1 hq] at hframe ⊢
      obtain rfl := hx.frame_unique hm' hm (Message.isReliable_of_isOn hon) hframe hp rfl
      exact hkept hon

/-- The assembler takes a frame: the channel has got the message it completes. -/
theorem take (h : KeepsOrdered c log t a ch got seen base)
    {res : Except DecodeError (Option EncapsulatedPacket) × SplitAssembler} (htakes : a.Takes log m p res)
    (hdone : (∃ enc, res.1 = .ok (some enc)) → m.isOn c = true → ch.Got m) :
    KeepsOrdered c log t res.2 ch got seen base := by
  refine { h with inProgress := htakes.inProgress, kept := fun m' hm' hon q hframe hq => ?_ }
  rcases h.kept m' hm' hon q hframe hq with hgot | hholds
  · exact .inl hgot
  · rcases htakes.kept m' hm' q hholds with hholds | ⟨rfl, hcomplete⟩
    · exact .inr hholds
    · exact .inl (hdone hcomplete hon)

/-- The tracker is shown the index of a whole message that the channel has got. -/
theorem commit (hx : Indexed s log) {r : Session F} (h : KeepsOrdered c log r.reliableTracker a ch got seen base)
    (hm : m ∈ log) (hp : p ∈ m.frames)
    (hgap : Session.filterIndex p = some r.reliableTracker.base → r.reliableTracker.GapFree)
    (hdone : m.isOn c = true → ch.Got m) :
    ∃ seen' base', KeepsOrdered c log (r.commitIndex (Session.filterIndex p)).reliableTracker a ch got seen' base' := by
  obtain ⟨i, hi⟩ := List.mem_iff_getElem?.1 hm
  rcases (ReceivesOnce.frame_facts hp).2 with ⟨-, hidx⟩ | ⟨id, pieces, split, -, hidx, -, -⟩
  · rw [hidx] at hgap ⊢
    by_cases hrel : m.reliability.isReliable = true
    · rw [hx.numbered.reliableIndex hi hrel 0, Nat.add_zero] at hgap ⊢
      have hlt : reliableCount (log.take i) < reliableCount log := by
        have := reliableCount_take_add_le hi hrel
        have := (hx.wellFormed m hm).frames_pos
        omega
      -- the index counts as seen from now on, and the channel has got its message
      obtain ⟨base', hvouches⟩ := h.vouches.see (h.small_lt hx) (hlt.trans hx.reliable) fun heq =>
        hgap (congrArg some heq)
      refine ⟨_, base', { h with vouches := hvouches, small := fun n hn => ?_, recorded := ?_ }⟩
      · rcases List.mem_cons.1 hn with rfl | hn
        · exact hlt
        · exact h.small n hn
      · intro i' m' hi' hon hwhole hseen
        rcases List.mem_cons.1 hseen with heq | hseen
        · obtain rfl := hx.first_inj hi' hi (Message.isReliable_of_isOn hon) hrel heq
          rw [hi] at hi'
          cases hi'
          exact hdone hon
        · exact h.recorded i' m' hi' hon hwhole hseen
    · rw [Message.reliableIndex, Session.reliableIndexFrom, if_neg hrel]
      exact ⟨seen, base, h⟩
  · rw [hidx]
    exact ⟨seen, base, h⟩

/-- The channel has got the message of a whole packet that counts as seen. -/
theorem got_of_seen (hx : Indexed s log) (h : KeepsOrdered c log t a ch got seen base) (hm : m ∈ log)
    (hp : p ∈ m.frames) {idx : Sequence24} (hidx : Session.filterIndex p = some idx) (hseen : t.hasSeen idx = true)
    (hon : m.isOn c = true) : ch.Got m := by
  obtain ⟨i, hi⟩ := List.mem_iff_getElem?.1 hm
  rcases (ReceivesOnce.frame_facts hp).2 with ⟨hwhole, hfilter⟩ | ⟨id, pieces, split, -, hnone, -, -⟩
  · have hcount := (reliableCount_take_le log i).trans_lt hx.reliable
    rw [hidx, hx.numbered.reliableIndex hi (Message.isReliable_of_isOn hon) 0, Nat.add_zero] at hfilter
    cases hfilter
    exact h.recorded i m hi hon hwhole (h.vouches.mem_of_hasSeen (h.small_lt hx) hcount hseen)
  · rw [hidx] at hnone
    cases hnone

end Packet

end KeepsOrdered

/-! ## The receiver -/

namespace Session

variable {F : Type}

/-- What a packet brings through the duplicate filter and the assembler: itself, or the message it completes. -/
def completes (s : Session F) (p : EncapsulatedPacket) (now : Instant) : Option EncapsulatedPacket :=
  if (filterIndex p).any s.reliableTracker.hasSeen then none else (s.splitAssembler.add p now).1.toOption.join

theorem completes_of_add {s : Session F} {p enc : EncapsulatedPacket} {now : Instant} {a : SplitAssembler}
    (hnew : ∀ idx, filterIndex p = some idx → s.reliableTracker.hasSeen idx = false)
    (hadd : s.splitAssembler.add p now = (.ok (some enc), a)) : s.completes p now = some enc := by
  have hany : (filterIndex p).any s.reliableTracker.hasSeen = false := by
    cases hidx : filterIndex p with
    | none => rfl
    | some idx => exact hnew idx hidx
  unfold completes
  rw [hany, if_neg Bool.false_ne_true, hadd]
  rfl

/-- A packet that has to wait on channel `c` finds room, and no other copy of it. -/
def WaitsOnce (c : UInt8) (now : Instant) (s : Session F) (p : EncapsulatedPacket) : Prop :=
  ∀ enc ∈ s.completes p now, enc.orderingChannel = some c →
    ∀ ch ∈ s.ordering.channels[c.toNat]?, ∀ idx ∈ enc.orderingIndex, ch.TakesUp idx

instance (c : UInt8) (now : Instant) (s : Session F) (p : EncapsulatedPacket) : Decidable (s.WaitsOnce c now p) :=
  inferInstanceAs (Decidable
    (∀ enc ∈ s.completes p now, _ → ∀ ch ∈ s.ordering.channels[c.toNat]?, ∀ idx ∈ enc.orderingIndex, ch.TakesUp idx))

/-- Every packet of a datagram that is looked at is kept, and waits at most once. -/
def ConveysAll (c : UInt8) (log : List Message) (now : Instant) : Session F → List EncapsulatedPacket → Prop
  | _, [] => True
  | s, p :: rest =>
    (s.KeepsPacket log p ∧ s.WaitsOnce c now p) ∧
      match s.handleEncapsulated p now with
      | (.ok _, s') => ConveysAll c log now s' rest
      | (.error _, _) => True

instance decidableConveysAll (c : UInt8) (log : List Message) (now : Instant) :
    ∀ (s : Session F) (packets : List EncapsulatedPacket), Decidable (s.ConveysAll c log now packets)
  | _, [] => inferInstanceAs (Decidable True)
  | s, p :: rest =>
    have : Decidable (match s.handleEncapsulated p now with
        | (.ok _, s') => ConveysAll c log now s' rest
        | (.error _, _) => True) :=
      match s.handleEncapsulated p now with
      | (.ok _, s') => decidableConveysAll c log now s' rest
      | (.error _, _) => inferInstanceAs (Decidable True)
    inferInstanceAs (Decidable ((_ ∧ _) ∧ _))

end Session

/-- A receiver that keeps, for channel `c`, the frames `got`. -/
def ReceivesOrdered {F : Type} (c : UInt8) (log : List Message) (r : Session F) (got : List EncapsulatedPacket) :
    Prop :=
  ∃ ch, r.ordering.channels[c.toNat]? = some ch ∧ ch.Waits ((orderedOn c log).length - 1) ∧
    ∃ seen base, KeepsOrdered c log r.reliableTracker r.splitAssembler ch got seen base

namespace ReceivesOrdered

variable {F : Type} {c : UInt8} {s r : Session F} {log : List Message} {got : List EncapsulatedPacket}

theorem mono (h : ReceivesOrdered c log r got) {got' : List EncapsulatedPacket} (hgot : got' ⊆ got) :
    ReceivesOrdered c log r got' := by
  obtain ⟨ch, hch, hwaits, seen, base, h⟩ := h
  exact ⟨ch, hch, hwaits, seen, base, h.mono hgot⟩

theorem append (h : ReceivesOrdered c log r got) (more : List Message) (hx : Indexed s (log ++ more)) :
    ReceivesOrdered c (log ++ more) r got := by
  obtain ⟨ch, hch, hwaits, seen, base, h⟩ := h
  refine ⟨ch, hch, hwaits.mono ?_, seen, base, h.append more hx⟩
  rw [orderedOn_append, List.length_append]
  omega

section Packet

variable {m : Message} {p : EncapsulatedPacket}

/-- What a packet that carries a message does to the channel. -/
theorem deliver_channel (hd : Distinguished c s log) (hm : m ∈ log) {enc : EncapsulatedPacket}
    (hcarried : m.CarriedBy enc) {ch : OrderingChannel} (hch : r.ordering.channels[c.toNat]? = some ch)
    (hwaits : ch.Waits ((orderedOn c log).length - 1))
    (htakes : enc.orderingChannel = some c → ∀ idx ∈ enc.orderingIndex, ch.TakesUp idx) :
    ∃ ch', (r.deliver enc).2.ordering.channels[c.toNat]? = some ch' ∧ ch'.Waits ((orderedOn c log).length - 1) ∧
      (∀ i, ch.Has i → ch'.Has i) ∧ (m.isOn c = true → ch'.Got m) := by
  obtain ⟨_, _, hframe⟩ := r.deliver_frame enc
  rw [hframe]
  dsimp only
  by_cases ho : m.reliability.isOrdered = true
  · rw [hcarried.reliability, if_pos ho]
    obtain ⟨k, hk, hidx⟩ := hd.numbered.ordered hm ho
    have hchannel : enc.orderingChannel = some m.channel := by
      rw [hcarried.channel, hidx]
      rfl
    by_cases hc : m.channel = c
    · subst hc
      have hlt := (List.getElem?_eq_some_iff.1 hk).1
      have hordered := hd.ordered
      have hval : (Sequence24.new k).val = k := by
        rw [Sequence24.val_new]
        exact Nat.mod_eq_of_lt (by omega)
      have hindex := hcarried.index.trans hidx
      have hle : (Sequence24.new k).val ≤ (orderedOn m.channel log).length - 1 := by omega
      obtain ⟨hwaits', hhas⟩ :=
        OrderingChannel.handleOrdered_waits (by omega) hwaits hle hindex (htakes hchannel _ hindex)
      refine ⟨(ch.handleOrdered (Sequence24.new k) enc).2, ?_, hwaits', fun i hi => hhas i (.inr hi), fun _ => ?_⟩
      · unfold OrderingChannels.handleOrdered
        simp only [hchannel, hch, hindex]
        exact List.getElem?_set_self (List.getElem?_eq_some_iff.1 hch).1
      · exact ⟨_, hidx, hhas _ (.inl rfl)⟩
    · refine ⟨ch, ?_, hwaits, fun _ hi => hi, fun hon => ?_⟩
      · rw [OrderingChannels.handleOrdered_other (by rwa [hchannel, ne_eq, Option.some.injEq]), hch]
      · rw [Message.isOn, Bool.and_eq_true, beq_iff_eq] at hon
        exact absurd hon.2 hc
  · rw [hcarried.reliability, if_neg ho]
    refine ⟨ch, hch, hwaits, fun _ hi => hi, fun hon => ?_⟩
    rw [Message.isOn, Bool.and_eq_true] at hon
    exact absurd hon.1 ho

/-- Handling a frame of a queued message. -/
theorem handleEncapsulated (hx : Indexed s log) (hd : Distinguished c s log) (h : ReceivesOrdered c log r got)
    (hm : m ∈ log) (hp : p ∈ m.frames) (now : Instant) (hkeeps : r.KeepsPacket log p) (hwaits : r.WaitsOnce c now p) :
    ReceivesOrdered c log (r.handleEncapsulated p now).2
      (got ++ if (r.handleEncapsulated p now).1.isOk then [p] else []) := by
  obtain ⟨ch, hch, hready, seen, base, hk⟩ := h
  have htakes := SplitAssembler.takes_add hx hk.inProgress hm hp hkeeps.2 now
  have hcases := r.handleEncapsulated_cases p now
  generalize r.handleEncapsulated p now = res at hcases
  cases hcases with
  | seen hidx hseen =>
    exact ⟨ch, hch, hready, seen, base, hk.got_frame hx hm hp fun hon => .inl (hk.got_of_seen hx hm hp hidx hseen hon)⟩
  | refused hadd =>
    rw [hadd] at htakes
    have htaken := hk.take htakes (by
      rintro ⟨enc, henc⟩
      cases henc)
    exact ⟨ch, hch, hready, seen, base, htaken.mono (by simp [Except.isOk, Except.toBool])⟩
  | pending _ hadd =>
    rw [hadd] at htakes
    have htaken := hk.take htakes (by
      rintro ⟨enc, henc⟩
      cases henc)
    exact ⟨ch, hch, hready, seen, base, htaken.got_frame hx hm hp fun _ => .inr (htakes.held rfl)⟩
  | @delivered enc a hnew hadd =>
    rw [hadd] at htakes
    have hbrought := hwaits enc (Session.completes_of_add hnew hadd)
    have hordering : (Session.commitIndex { r with splitAssembler := a } (Session.filterIndex p)).ordering =
      r.ordering ∧
        (Session.commitIndex { r with splitAssembler := a } (Session.filterIndex p)).splitAssembler = a := by
      cases Session.filterIndex p <;> exact ⟨rfl, rfl⟩
    -- the channel moves first: what the packet completes it has got from then on
    obtain ⟨ch', hch', hready', hmoves, hgot⟩ :=
      deliver_channel (r := Session.commitIndex { r with splitAssembler := a } (Session.filterIndex p)) hd hm
        (htakes.carried enc rfl) (by rw [hordering.1]; exact hch) hready
      fun hchannel => hbrought hchannel ch hch
    have htaken := (hk.moves hmoves).take htakes fun _ => hgot
    have hframe := htaken.got_frame hx hm hp fun hon => .inl (hgot hon)
    obtain ⟨seen', base', hcommit⟩ := hframe.commit hx (r := { r with splitAssembler := a }) hm hp hkeeps.1 hgot
    have hreceived : ReceivesOrdered c log
        ((Session.commitIndex { r with splitAssembler := a } (Session.filterIndex p)).deliver enc).2 (got ++ [p]) := by
      refine ⟨ch', hch', hready', seen', base', ?_⟩
      obtain ⟨_, _, hdeliver⟩ :=
        (Session.commitIndex { r with splitAssembler := a } (Session.filterIndex p)).deliver_frame enc
      rw [hdeliver]
      dsimp only
      rw [hordering.2]
      exact hcommit
    refine hreceived.mono ?_
    split
    · exact List.Subset.refl _
    · simp

end Packet

/-- Handling the frames of a datagram: without an error all of them are kept. -/
theorem handleDataPayload (hx : Indexed s log) (hd : Distinguished c s log) (now : Instant)
    (packets : List EncapsulatedPacket) (h : ReceivesOrdered c log r got)
    (hframes : ∀ p ∈ packets, ∃ m ∈ log, p ∈ m.frames) (hall : r.ConveysAll c log now packets) :
    ReceivesOrdered c log (r.handleDataPayload packets now).2
      (got ++ if (r.handleDataPayload packets now).1.isOk then packets else []) := by
  induction packets generalizing r got with
  | nil => exact h.mono (by simp)
  | cons p rest ih =>
    obtain ⟨m, hm, hp⟩ := hframes p (List.mem_cons_self ..)
    obtain ⟨⟨hkeeps, hwaits⟩, hrest⟩ := hall
    have hfirst := h.handleEncapsulated hx hd hm hp now hkeeps hwaits
    rcases hres : r.handleEncapsulated p now with ⟨e | out, r'⟩
    · rw [hres] at hfirst
      rw [Session.handleDataPayload_cons_error rest hres]
      exact hfirst
    · rw [hres] at hfirst hrest
      rw [Session.handleDataPayload_cons_ok rest hres]
      have hothers := ih hfirst (fun q hq => hframes q (List.mem_cons_of_mem _ hq)) hrest
      refine hothers.mono ?_
      cases (r'.handleDataPayload rest now).1 with
      | error e => simp [Except.map, Except.isOk, Except.toBool]
      | ok out' => simp [Except.map, Except.isOk, Except.toBool]

/-- The channel as it is read, the tracker and the assembler are all that matters. -/
theorem of_viewAt (h : ReceivesOrdered c log r got) {r' : Session F} (ht : r'.reliableTracker = r.reliableTracker)
    (ha : r'.splitAssembler = r.splitAssembler) (ho : r'.ordering.viewAt c = r.ordering.viewAt c) :
    ReceivesOrdered c log r' got := by
  obtain ⟨ch, hch, hwaits, seen, base, hk⟩ := h
  unfold OrderingChannels.viewAt at ho
  rw [hch, Option.map_some] at ho
  obtain ⟨ch', hch', hsame⟩ := Option.map_eq_some_iff.1 ho
  obtain ⟨hread, hheap⟩ := Prod.mk.inj hsame
  refine ⟨ch', hch', hwaits.of_same hread hheap, seen, base, ?_⟩
  rw [ht, ha]
  refine hk.moves fun i hi => ?_
  unfold OrderingChannel.Has OrderingChannel.buffered at hi ⊢
  rwa [hread, hheap]

theorem reach [Float64 F] (h : ReceivesOrdered c log r got) {r' : Session F}
    (hreach : ManagedSession.InnerReach Session.Still r r') : ReceivesOrdered c log r' got :=
  hreach.inv (I := fun r => ReceivesOrdered c log r got)
    (fun r _ hop h => h.of_viewAt (r.step_still hop).1 (r.step_still hop).2 (r.step_viewAt hop c)) h

/-- When all frames were handled, the read index has passed every message. -/
theorem passed_all (hx : Indexed s log) (hd : Distinguished c s log) (h : ReceivesOrdered c log r got)
    (hgot : ∀ m ∈ log, ∀ p ∈ m.frames, p ∈ got) : ∃ ch, r.ordering.channels[c.toNat]? = some ch ∧
      (orderedOn c log).length ≤ ch.orderRead.val := by
  obtain ⟨ch, hch, hwaits, seen, base, hk⟩ := h
  refine ⟨ch, hch, ?_⟩
  by_contra hlt
  rw [not_le] at hlt
  have hordered := hd.ordered
  -- the message that is read next: the channel has got it, since the assembler cannot hold all of it
  have hnext := List.getElem?_eq_getElem hlt
  generalize (orderedOn c log)[ch.orderRead.val] = m at hnext
  obtain ⟨hm, hon⟩ := List.mem_filter.1 (List.mem_of_getElem? hnext)
  obtain ⟨i, hi, hcount⟩ := exists_take_of_filter_getElem? _ hnext
  obtain ⟨p, hp, hnot⟩ := KeepsPlain.exists_not_holds hx hk.inProgress hm
  obtain ⟨idx, hidx, hhas⟩ := (hk.kept m hm hon p hp (hgot m hm p hp)).resolve_right hnot
  rw [Bool.and_eq_true, beq_iff_eq] at hon
  have hnumber := (hd.numbered.messages i m hi).ordering hon.1
  rw [hon.2, show (orderedOn c (log.take i)).length = ch.orderRead.val from hcount] at hnumber
  rw [Option.mem_def, hnumber, Option.some.injEq] at hidx
  have hval : idx.val = ch.orderRead.val := by
    rw [← hidx, Sequence24.val_new]
    exact Nat.mod_eq_of_lt (by omega)
  rw [hval] at hhas
  rcases hhas with hpassed | hwaiting
  · exact absurd hpassed (Nat.lt_irrefl _)
  · exact absurd (hwaits.ahead _ hwaiting) (Nat.lt_irrefl _)

end ReceivesOrdered

/-- A tick in which no entry expires skips no index. -/
theorem Session.onTick_ordering {F : Type} [Float64 F] {s : Session F} {now : Instant}
    (h : ∀ item ∈ s.splitAssembler.entries.entries, s.splitAssembler.expired now item.2 = false)
    (iter : IterOrder SplitEntries.Item) : (s.onTick now iter).2.ordering = s.ordering := by
  have hdropped : (s.splitAssembler.prune now iter).1 = [] := by
    have hnone :
        (iter.order s.splitAssembler.entries.entries).filter (fun item => s.splitAssembler.expired now item.2) = [] :=
      List.filter_eq_nil_iff.2 fun item hitem => by simp [h item ((iter.perm _).mem_iff.1 hitem)]
    unfold SplitAssembler.prune
    simp only [hnone, List.map_nil]
  have hcases := s.step_cases (.onTick now iter)
  rw [step] at hcases
  generalize (s.onTick now iter).2 = s' at hcases
  cases hcases with
  | onTick =>
    show Session.skipDropped s.ordering (s.splitAssembler.prune now iter).1 = s.ordering
    rw [hdropped]
    rfl

/-! ## Runs -/

namespace ManagedLink

variable {F : Type} [Float64 F] {start : Instant} {c : UInt8}

/-- A step in which a receiver keeps every packet it handles and lets it wait at most once, and is given a
datagram after it closed only if it accepted it before. -/
def Conveys (c : UInt8) (x : ManagedLink F) : Op → Prop
  | .deliver i now => ∀ d ∈ x.sender.sent[i]?,
    (x.receiver.state = .closed → d ∈ x.accepted) ∧
      (x.receiver.state ≠ .closed → x.receiver.inner.ConveysAll c x.sender.log now d.packets)
  | .send _ | .receive .. => True

omit [Float64 F] in
instance (c : UInt8) (x : ManagedLink F) : ∀ op, Decidable (x.Conveys c op)
  | .deliver i _ => inferInstanceAs (Decidable (∀ d ∈ x.sender.sent[i]?, _ ∧ _))
  | .send _ | .receive .. => inferInstanceAs (Decidable True)

/-- The invariant of a link, for one channel that its receiver has. -/
structure Complete (c : UInt8) (x : ManagedLink F) : Prop where
  sender : x.sender.Inv
  receives : ReceivesOrdered c x.sender.log x.receiver.inner (x.accepted.flatMap Datagram.packets)

theorem Complete.arrive {x : ManagedLink F} (h : Complete c x) (hb : Bounded x.sender.session x.sender.log)
    {d : Datagram} (hsent : d ∈ x.sender.sent) {now : Instant} (hclosed : x.receiver.state = .closed → d ∈ x.accepted)
    (hopen : x.receiver.state ≠ .closed → x.receiver.inner.ConveysAll c x.sender.log now d.packets) :
    Complete c (x.arrive start d now) := by
  refine ⟨h.sender, ?_⟩
  unfold ManagedLink.arrive
  by_cases hstate : x.receiver.state = .closed
  · simp only [ManagedSession.handleDatagram_closed start hstate]
    refine h.receives.mono ?_
    rw [List.flatMap_append]
    refine List.append_subset.2 ⟨List.Subset.refl _, fun p hp => ?_⟩
    -- the datagram was accepted before
    obtain ⟨d', hd', hp⟩ := List.mem_flatMap.1 hp
    rw [show d' = d by simpa [Except.isOk, Except.toBool] using hd'] at hp
    exact List.mem_flatMap.2 ⟨d, hclosed hstate, hp⟩
  · obtain ⟨hout, hinner⟩ := ManagedSession.handleDatagram_open handlerOp_still start hstate d now
    have hhandled :=
      h.receives.handleDataPayload ⟨hb.numbered, hb.wellFormed, hb.reliable⟩ (hb.distinguished c) now d.packets
      (h.sender.framed.sent d hsent) (hopen hstate)
    refine (hhandled.reach hinner).mono ?_
    dsimp only
    rw [hout, List.flatMap_append]
    cases (x.receiver.inner.handleDataPayload d.packets now).1 with
    | error e => simp [Except.mapError, Except.isOk, Except.toBool]
    | ok out => simp [Except.mapError, Except.isOk, Except.toBool]

theorem Complete.receive {x : ManagedLink F} (h : Complete c x) (op : ManagedSession.Op)
    (hlocal : ∀ dgram now, op ≠ .handleDatagram dgram now) (hexpiry : x.NoneExpires (.receive op hlocal)) :
    Complete c (x.step start (.receive op hlocal)) := by
  refine ⟨h.sender, ?_⟩
  rw [ManagedLink.step]
  cases op with
  | onTick now iter =>
    have hbefore := x.receiver.beforeTick_inner handlerOp_still start now
    -- what comes before the session's own tick leaves the assembler alone, so the entries still do not expire
    have hsame : (x.receiver.beforeTick start now).inner.splitAssembler = x.receiver.inner.splitAssembler :=
      hbefore.inv (I := fun r => r.splitAssembler = x.receiver.inner.splitAssembler)
        (fun r op hop heq => (r.step_still hop).2.trans heq) rfl
    have hexpiry' : ∀ item ∈ (x.receiver.beforeTick start now).inner.splitAssembler.entries.entries,
        (x.receiver.beforeTick start now).inner.splitAssembler.expired now item.2 = false := by
      rw [hsame]
      exact hexpiry
    have htick := Session.onTick_still hexpiry' iter
    dsimp only
    rw [ManagedSession.step, (x.receiver.onTick_eq start now iter).2]
    refine (h.receives.reach hbefore).of_viewAt htick.1 htick.2 ?_
    rw [Session.onTick_ordering hexpiry' iter]
  | handleDatagram dgram now => exact absurd rfl (hlocal dgram now)
  | _ =>
    refine h.receives.reach (x.receiver.step_inner handlerOp_still start _ ?_ ?_ ?_)
    · rintro now iter hop
      cases hop
    · rintro dgram now hop
      cases hop
    · rintro pkt rel channel priority clock hop -
      exact ⟨fun packets now hdata => (by cases hdata), fun now iter htick => (by cases htick)⟩

theorem Complete.step {x : ManagedLink F} (h : Complete c x) {op : Op}
    (hb : Bounded (x.step start op).sender.session (x.step start op).sender.log) (hconveys : x.Conveys c op)
    (hexpiry : x.NoneExpires op) : Complete c (x.step start op) := by
  cases op with
  | send op => exact ⟨h.sender.step op, h.receives.append _ ⟨hb.numbered, hb.wellFormed, hb.reliable⟩⟩
  | deliver i now =>
    rw [ManagedLink.step] at hb ⊢
    cases hsent : x.sender.sent[i]? with
    | none => exact h
    | some d =>
      rw [hsent] at hb
      obtain ⟨hclosed, hopen⟩ := hconveys d hsent
      exact h.arrive hb (List.mem_of_getElem? hsent) hclosed hopen
  | receive op hlocal => exact h.receive op hlocal hexpiry

theorem Complete.run (ops : List Op) {x : ManagedLink F} (h : Complete c x)
    (hconveys : Machine.Along (ManagedLink.step start) (Conveys c) x ops)
    (hexpiry : Machine.Along (ManagedLink.step start) NoneExpires x ops)
    (hreliable : reliableCount (Machine.run (ManagedLink.step start) x ops).sender.log < 2 ^ 23)
    (hfragmented : fragmentedCount (Machine.run (ManagedLink.step start) x ops).sender.log < 2 ^ 16) :
    Complete c (Machine.run (ManagedLink.step start) x ops) := by
  induction ops generalizing x with
  | nil => exact h
  | cons op ops ih =>
    have hsender : (x.step start op).sender.Inv := by
      cases op with
      | send op => exact h.sender.step op
      | deliver i now =>
        rw [ManagedLink.step]
        split <;> exact h.sender
      | receive op hlocal => exact h.sender
    obtain ⟨more, hlog⟩ := log_grows start ops (x.step start op)
    have hb : Bounded (x.step start op).sender.session (x.step start op).sender.log := by
      refine ⟨hsender.numbered, hsender.wellFormed, ?_, ?_⟩
      · rw [Machine.run_cons, ← hlog, reliableCount_append] at hreliable
        omega
      · rw [Machine.run_cons, ← hlog, fragmentedCount_append] at hfragmented
        omega
    exact ih (h.step hb hconveys.1 hexpiry.1) hconveys.2 hexpiry.2 hreliable hfragmented

theorem new_complete (mtu : Nat) (tunables : SessionTunables) (peer : SocketAddr) (mtu' : Nat) (now : Instant)
    (config : SessionConfig) (hchannel : c.toNat < config.session.maxOrderingChannels) :
    Complete c (new mtu tunables (.withConfig peer mtu' now config) : ManagedLink F) := by
  refine ⟨.new mtu tunables, .new, ?_, .new _, [], 0, .new c _ _ _ _⟩
  show (OrderingChannels.new config.session.maxOrderingChannels).channels[c.toNat]? = _
  rw [OrderingChannels.new, List.getElem?_replicate, if_pos hchannel]

/-- Delivery exactly once and in order. In every run in which the receiver has channel `c`, keeps what it
handles and lets it wait at most once, no split entry expires, and the read index of the channel moves with
accepted datagrams only, with fewer than `2 ^ 23` reliable indexes and fewer than `2 ^ 16` fragmented messages:
once nothing is left to be sent and every DATA datagram was accepted, in whatever order and how often, what came
out of the channel is all that was queued on it, in order. -/
theorem returned_eq_queued (c : UInt8) (mtu : Nat) (tunables : SessionTunables) (peer : SocketAddr) (mtu' : Nat)
    (now : Instant) (config : SessionConfig) (ops : List Op) (hchannel : c.toNat < config.session.maxOrderingChannels)
    (hconveys :
      Machine.Along (step start) (Conveys c) (new mtu tunables (.withConfig peer mtu' now config) : ManagedLink F) ops)
    (hexpiry :
      Machine.Along (step start) NoneExpires (new mtu tunables (.withConfig peer mtu' now config) : ManagedLink F) ops)
    (hhands : Machine.Along (step start) (HandsOut start c)
      (new mtu tunables (.withConfig peer mtu' now config) : ManagedLink F) ops)
    (hreliable :
      reliableCount (Machine.run (step start) (new mtu tunables (.withConfig peer mtu' now config) : ManagedLink F)
        ops).sender.log < 2 ^ 23)
    (hfragmented :
      fragmentedCount (Machine.run (step start) (new mtu tunables (.withConfig peer mtu' now config) : ManagedLink F)
        ops).sender.log < 2 ^ 16)
    (hsent : (Machine.run (step start) (new mtu tunables (.withConfig peer mtu' now config) : ManagedLink F)
      ops).sender.session.outgoingHeap.isEmpty = true)
    (haccepted : ∀ d ∈ (Machine.run (step start) (new mtu tunables (.withConfig peer mtu' now config) : ManagedLink F)
        ops).sender.sent, d.isData = true →
      d ∈ (Machine.run (step start) (new mtu tunables (.withConfig peer mtu' now config) : ManagedLink F)
        ops).accepted) :
    (Machine.run (step start) (new mtu tunables (.withConfig peer mtu' now config) : ManagedLink F) ops).returned.filter
        (onChannel c) =
      (orderedOn c (Machine.run (step start) (new mtu tunables (.withConfig peer mtu' now config) : ManagedLink F)
        ops).sender.log).filterMap Message.surfaced := by
  obtain ⟨hsender, hreceives⟩ := (new_complete mtu tunables peer mtu' now config hchannel).run ops hconveys hexpiry
    hreliable hfragmented
  have hgapless := (new_gapless c mtu tunables peer mtu' now config).run ops hhands hreliable hfragmented
  have hb : Bounded _ _ := ⟨hsender.numbered, hsender.wellFormed, hreliable, hfragmented⟩
  obtain ⟨ch, hch, hpassed⟩ :=
    hreceives.passed_all ⟨hb.numbered, hb.wellFormed, hreliable⟩ (hb.distinguished c) fun m hm p hp => by
    -- every frame of every message is still in the heap, which is empty, or was sent and so accepted
    rcases hsender.framed.complete m hm p hp with hheap | ⟨d, hd, hpd⟩
    · rw [BinaryHeap.isEmpty, List.isEmpty_iff] at hsent
      rw [hsent] at hheap
      cases hheap
    · refine List.mem_flatMap.2 ⟨d, haccepted d hd ?_, hpd⟩
      by_contra hdata
      rw [Datagram.packets_of_not_isData (by simpa using hdata)] at hpd
      cases hpd
  rw [hgapless.receives.all ch hch, List.take_of_length_le hpassed]

/-- A fragmented and a whole message are sent on a channel in two datagrams. The second one arrives first, and
both arrive twice. -/
def scrambledRun : List Op :=
  [.send (.queuePacket (.userData 0x80 (List.replicate 600 2)) .reliableOrdered 0 .normal),
    .send (.queuePacket (.userData 0x80 [1]) .reliableOrdered 0 .normal), .send (.buildDataDatagram 0)] ++
  acknowledge 0 ++ [.send (.buildDataDatagram 0)] ++ [.deliver 1 0, .deliver 0 0, .deliver 0 0, .deliver 1 0]

theorem returned_eq_queued_scrambled :
    (Machine.run (step 0) (new 576 {} (.withConfig .loopbackV4 1400 0 {}) : ManagedLink ℚ) scrambledRun).returned.filter
    (onChannel 0) =
        (orderedOn 0 (Machine.run (step 0) (new 576 {} (.withConfig .loopbackV4 1400 0 {}) : ManagedLink ℚ)
          scrambledRun).sender.log).filterMap Message.surfaced ∧
      (orderedOn 0 (Machine.run (step 0) (new 576 {} (.withConfig .loopbackV4 1400 0 {}) : ManagedLink ℚ)
        scrambledRun).sender.log).filterMap Message.surfaced =
        [⟨.userData 0x80 (List.replicate 600 2), .reliableOrdered, some 0⟩,
        ⟨.userData 0x80 [1], .reliableOrdered, some 0⟩] :=
  ⟨returned_eq_queued 0 576 {} .loopbackV4 1400 0 {} scrambledRun (by decide) (by decide +kernel) (by decide +kernel)
    (by decide +kernel) (by decide +kernel) (by decide +kernel) (by decide +kernel)
    (by decide +kernel), by decide +kernel⟩

end ManagedLink

end BedrockRs.Raknet

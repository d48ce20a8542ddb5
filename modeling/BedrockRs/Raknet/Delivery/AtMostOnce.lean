/-
At-most-once delivery of reliable packets. A repeated packet has to be caught by the reliable
tracker (whole unordered packets), by the assembler (fragments) or by the ordering channels (ordered
packets). The channels catch every repetition; the tracker catches one only while it has the index
on record, and the assembler forgets a message when it completes it (`Recognizes`). In every run in
which packets arrive only where they are recognized, the reliable packets returned are, as a
multiset, some of the reliable messages queued (`returned_subperm_queued`).
-/
import BedrockRs.Raknet.Delivery.ManagedLink

namespace BedrockRs.Raknet

open Lib
open scoped List

/-! ## The condition -/

namespace Session

variable {F : Type}

/-- A packet whose repetition is noticed. A whole unordered packet has to be neither behind the base
nor ahead of the window, where the tracker has no record of it. An index at the base has to find the
bitmap without a gap, since `advance_base` shifts the bits behind a gap. A fragment of an unordered
message has to arrive before the message is complete. -/
def Recognizes (s : Session F) (reassembled : List UInt16) (p : EncapsulatedPacket) : Prop :=
  (∀ idx ∈ filterIndex p, p.header.reliability.isOrdered = false → s.reliableTracker.InWindow idx) ∧
  (filterIndex p = some s.reliableTracker.base → s.reliableTracker.GapFree) ∧
  ∀ split ∈ p.split, p.header.reliability.isOrdered = false → split.id ∉ reassembled

instance (s : Session F) (reassembled : List UInt16) (p : EncapsulatedPacket) :
    Decidable (s.Recognizes reassembled p) :=
  inferInstanceAs (Decidable (_ ∧ _))

/-- Every packet of a datagram that is looked at is recognized. -/
def RecognizesAll (now : Instant) : Session F → List UInt16 → List EncapsulatedPacket → Prop
  | _, _, [] => True
  | s, reassembled, p :: rest =>
    s.Recognizes reassembled p ∧
      match s.handleEncapsulated p now with
      | (.ok _, s') => RecognizesAll now s' (reassembled ++ s.reassembledBy p now) rest
      | (.error _, _) => True

instance decidableRecognizesAll (now : Instant) : ∀ (s : Session F) (reassembled : List UInt16)
    (packets : List EncapsulatedPacket), Decidable (s.RecognizesAll now reassembled packets)
  | _, _, [] => inferInstanceAs (Decidable True)
  | s, reassembled, p :: rest =>
    have : Decidable (match s.handleEncapsulated p now with
        | (.ok _, s') => RecognizesAll now s' (reassembled ++ s.reassembledBy p now) rest
        | (.error _, _) => True) :=
      match s.handleEncapsulated p now with
      | (.ok _, s') => decidableRecognizesAll now s' (reassembled ++ s.reassembledBy p now) rest
      | (.error _, _) => inferInstanceAs (Decidable True)
    inferInstanceAs (Decidable (_ ∧ _))

end Session

namespace ManagedLink

variable {F : Type}

/-- A step in which every packet that an open receiver handles is recognized. -/
def Recognizes (x : ManagedLink F) : Op → Prop
  | .deliver i now =>
    match x.sender.sent[i]? with
    | none => True
    | some d => x.receiver.state = .closed ∨ x.receiver.inner.RecognizesAll now x.reassembled d.packets
  | .send _ | .receive .. => True

instance (x : ManagedLink F) : ∀ op, Decidable (x.Recognizes op)
  | .deliver i now =>
    match h : x.sender.sent[i]? with
    | none => .isTrue (by simp only [Recognizes, h])
    | some d =>
      decidable_of_iff (x.receiver.state = .closed ∨ x.receiver.inner.RecognizesAll now x.reassembled d.packets)
        (by simp only [Recognizes, h])
  | .send _ | .receive .. => inferInstanceAs (Decidable True)

end ManagedLink

/-! ## Deliveries of unordered messages -/

/-- Reliable, and delivered without an ordering channel. -/
def Reliability.isUnordered (r : Reliability) : Bool := r.isReliable && !r.isOrdered

/-- What the message at a position of the log comes out as. -/
def surfacedAt (log : List Message) (i : Nat) : Option IncomingPacket := log[i]?.bind Message.surfaced

/-- The unordered messages delivered so far, by their positions `ds` in the log: each at most once,
each on record, and the unordered packets returned are among them. -/
structure Delivered (log : List Message) (t : ReliableTracker) (reassembled : List UInt16) (out : List IncomingPacket)
    (ds : List Nat) (base : Nat) : Prop where
  tracks : t.Tracks (reliableCount log) base
  nodup : ds.Nodup
  unordered : ∀ i ∈ ds, ∃ m, log[i]? = some m ∧ m.reliability.isUnordered = true
  whole : ∀ i ∈ ds, ∀ m, log[i]? = some m → m.isFragmented = false → t.Recorded base (reliableCount (log.take i))
  fragments : ∀ i ∈ ds, ∀ m id pieces, log[i]? = some m → m.body = .fragments id pieces → id ∈ reassembled
  out : out.filter (fun p => p.reliability.isUnordered) <+ ds.filterMap (surfacedAt log)

theorem reliableCount_take_le (log : List Message) (i : Nat) : reliableCount (log.take i) ≤ reliableCount log := by
  conv_rhs => rw [← List.take_append_drop i log]
  rw [reliableCount_append]
  exact Nat.le_add_right _ _

/-- The reliable indexes of a message come after those before it. -/
theorem reliableCount_take_add_le {log : List Message} {i : Nat} {m : Message} (hi : log[i]? = some m)
    (hrel : m.reliability.isReliable = true) : reliableCount (log.take i) + m.frames.length ≤ reliableCount log := by
  have hle := reliableCount_take_le log (i + 1)
  obtain ⟨hlt, rfl⟩ := List.getElem?_eq_some_iff.1 hi
  rw [← List.take_append_getElem hlt, reliableCount_append] at hle
  have hone : reliableCount [log[i]] = log[i].frames.length := by
    simp [reliableCount, Message.reliableFrames, hrel]
  omega

namespace Delivered

variable {log : List Message} {t : ReliableTracker} {reassembled : List UInt16} {out : List IncomingPacket}
  {ds : List Nat}
  {base : Nat}

theorem new (maxWindow : Nat) : Delivered [] (ReliableTracker.new maxWindow) [] [] [] 0 :=
  ⟨.new maxWindow, List.nodup_nil, by simp, by simp, by simp, by simp⟩

theorem sublist (h : Delivered log t reassembled out ds base) {out' : List IncomingPacket} (hout : out' <+ out) :
    Delivered log t reassembled out' ds base :=
  ⟨h.tracks, h.nodup, h.unordered, h.whole, h.fragments, (hout.filter _).trans h.out⟩

/-- Packets of other reliabilities do not matter. -/
theorem append_other (h : Delivered log t reassembled out ds base) {more : List IncomingPacket}
    (hmore : ∀ p ∈ more, p.reliability.isUnordered = false) : Delivered log t reassembled (out ++ more) ds base := by
  have hnil : more.filter (fun p => p.reliability.isUnordered) = [] :=
    List.filter_eq_nil_iff.2 fun p hp => by simp [hmore p hp]
  refine ⟨h.tracks, h.nodup, h.unordered, h.whole, h.fragments, ?_⟩
  rw [List.filter_append, hnil, List.append_nil]
  exact h.out

theorem reassemble (h : Delivered log t reassembled out ds base) (more : List UInt16) :
    Delivered log t (reassembled ++ more) out ds base :=
  ⟨h.tracks, h.nodup, h.unordered, h.whole,
    fun i hi m id pieces hm hb => List.mem_append_left _ (h.fragments i hi m id pieces hm hb), h.out⟩

theorem append (h : Delivered log t reassembled out ds base) (more : List Message) :
    Delivered (log ++ more) t reassembled out ds base := by
  have hlt : ∀ i ∈ ds, i < log.length := fun i hi => by
    obtain ⟨m, hm, -⟩ := h.unordered i hi
    exact (List.getElem?_eq_some_iff.1 hm).1
  have hget : ∀ i ∈ ds, (log ++ more)[i]? = log[i]? := fun i hi => List.getElem?_append_left (hlt i hi)
  refine ⟨h.tracks.mono ?_, h.nodup, fun i hi => ?_, fun i hi m hm => ?_, fun i hi m id pieces hm => ?_, ?_⟩
  · rw [reliableCount_append]; exact Nat.le_add_right _ _
  · rw [hget i hi]; exact h.unordered i hi
  · rw [hget i hi] at hm
    rw [List.take_append_of_le_length (hlt i hi).le]
    exact h.whole i hi m hm
  · rw [hget i hi] at hm
    exact h.fragments i hi m id pieces hm
  · have hsame : ds.filterMap (surfacedAt (log ++ more)) = ds.filterMap (surfacedAt log) :=
      List.filterMap_congr fun i hi => by rw [surfacedAt, surfacedAt, hget i hi]
    rw [hsame]
    exact h.out

/-- A message that was not delivered before and is on record now is delivered. -/
theorem add (h : Delivered log t reassembled out ds base) {i : Nat} {m : Message} (hi : log[i]? = some m)
    (hun : m.reliability.isUnordered = true) (hnew : i ∉ ds)
    (hwhole : m.isFragmented = false → t.Recorded base (reliableCount (log.take i)))
    (hfrag : ∀ id pieces, m.body = .fragments id pieces → id ∈ reassembled) {more : List IncomingPacket}
    (hmore : more <+ m.surfaced.toList) : Delivered log t reassembled (out ++ more) (ds ++ [i]) base := by
  refine ⟨h.tracks, ?_, fun j hj => ?_, fun j hj m' hm' => ?_, fun j hj m' id pieces hm' => ?_, ?_⟩
  · exact h.nodup.append (List.nodup_singleton i) (List.disjoint_singleton.2 hnew)
  · rcases List.mem_append.1 hj with hj | hj
    · exact h.unordered j hj
    · rw [List.mem_singleton.1 hj]; exact ⟨m, hi, hun⟩
  · rcases List.mem_append.1 hj with hj | hj
    · exact h.whole j hj m' hm'
    · rw [List.mem_singleton.1 hj] at hm' ⊢
      rw [hi] at hm'
      cases hm'
      exact hwhole
  · rcases List.mem_append.1 hj with hj | hj
    · exact h.fragments j hj m' id pieces hm'
    · rw [List.mem_singleton.1 hj, hi] at hm'
      cases hm'
      exact hfrag id pieces
  · rw [List.filter_append, List.filterMap_append]
    refine h.out.append (List.filter_sublist.trans (hmore.trans ?_))
    rw [List.filterMap_cons, surfacedAt, hi, Option.bind_some]
    cases m.surfaced <;> exact List.Sublist.refl _

end Delivered

/-! ## Bounds -/

/-- What is fixed about the messages queued: they are numbered, with fewer than `2 ^ 23` reliable
indexes and fewer than `2 ^ 16` split ids in use. -/
structure Bounded {F : Type} (s : Session F) (log : List Message) : Prop where
  numbered : Numbered s log
  wellFormed : ∀ m ∈ log, m.WellFormed
  reliable : reliableCount log < 2 ^ 23
  fragmented : fragmentedCount log < 2 ^ 16

theorem Message.WellFormed.frames_pos {m : Message} (h : m.WellFormed) : 0 < m.frames.length := by
  cases hb : m.body with
  | whole payload => rw [Message.frames, hb]; exact Nat.one_pos
  | fragments id pieces =>
    rw [m.length_frames hb]
    exact List.length_pos_iff.2 (h.fragments id pieces hb).1

theorem length_orderedOn_le (c : UInt8) : ∀ {log : List Message}, (∀ m ∈ log, m.WellFormed) →
    (orderedOn c log).length ≤ reliableCount log
  | [], _ => Nat.le_refl 0
  | m :: log, h => by
    have ih := length_orderedOn_le c fun m' hm' => h m' (List.mem_cons_of_mem _ hm')
    have hpos := (h m (List.mem_cons_self ..)).frames_pos
    have hcount : reliableCount (m :: log) = m.reliableFrames + reliableCount log := rfl
    rw [hcount, orderedOn, List.filter_cons]
    split
    · rename_i hon
      rw [Bool.and_eq_true] at hon
      rw [Message.reliableFrames, if_pos (Reliability.isReliable_of_isOrdered hon.1), List.length_cons]
      unfold orderedOn at ih
      omega
    · exact ih.trans (Nat.le_add_left _ _)

namespace Bounded

variable {F : Type} {s : Session F} {log : List Message}

theorem countFits (h : Bounded s log) {m : Message} (hm : m ∈ log) (hrel : m.reliability.isReliable = true) :
    m.CountFits := by
  obtain ⟨i, hi⟩ := List.mem_iff_getElem?.1 hm
  have hle := reliableCount_take_add_le hi hrel
  have hlt := h.reliable
  unfold Message.CountFits
  omega

theorem distinguished (h : Bounded s log) (c : UInt8) : Distinguished c s log := by
  refine ⟨h.numbered, h.wellFormed, h.fragmented, (length_orderedOn_le c h.wellFormed).trans_lt h.reliable,
    fun m hm => ?_⟩
  obtain ⟨hm, hon⟩ := List.mem_filter.1 hm
  rw [Bool.and_eq_true] at hon
  exact h.countFits hm (Reliability.isReliable_of_isOrdered hon.1)

end Bounded

/-- The reliable indexes of the message at a position count on from those before it. -/
theorem Numbered.reliableIndex {F : Type} {s : Session F} {log : List Message} (h : Numbered s log) {i : Nat}
    {m : Message} (hi : log[i]? = some m) (hrel : m.reliability.isReliable = true) (j : Nat) :
    m.reliableIndex j = some (Sequence24.new (reliableCount (log.take i) + j)) := by
  rw [Message.reliableIndex, Session.reliableIndexFrom, if_pos hrel, (h.messages i m hi).reliable]
  refine congrArg some (Sequence24.ext ?_)
  simp only [Sequence24.val_new]
  omega

/-! ## Handling a packet -/

/-- What holds of the receiver: ordered messages come out in order, unordered ones at most once. -/
structure ReceivesOnce {F : Type} (log : List Message) (r : Session F) (reassembled : List UInt16)
    (out : List IncomingPacket) : Prop where
  ordered : ∀ c, ReceivesInOrder c log r out
  channel : ∀ p ∈ out, p.reliability.isOrdered = true → p.orderingChannel.isSome = true
  unordered : ∃ ds base, Delivered log r.reliableTracker reassembled out ds base

namespace ReceivesOnce

variable {F : Type} {s r : Session F} {log : List Message} {reassembled : List UInt16} {out : List IncomingPacket}

theorem sublist (h : ReceivesOnce log r reassembled out) {out' : List IncomingPacket} (hout : out' <+ out) :
    ReceivesOnce log r reassembled out' :=
  ⟨fun c => (h.ordered c).sublist hout, fun p hp => h.channel p (hout.mem hp),
    h.unordered.imp fun _ h => h.imp fun _ h => h.sublist hout⟩

/-- An ordered packet that comes out has a channel. -/
theorem deliver_channel (h : r.ordering.Sorted) (enc : EncapsulatedPacket) : ∀ p ∈ returned (r.deliver enc).1,
    p.reliability.isOrdered = true → p.orderingChannel.isSome = true := by
  intro p hp hord
  obtain ⟨o, ho, hp⟩ := mem_returned hp
  unfold Session.deliver at ho
  split at ho
  · unfold Session.handleOrdered at ho
    simp only at ho
    split at ho
    · rename_i ready hr
      obtain ⟨enc', henc', -, hch⟩ := Session.decodeAll_out ho p hp
      rw [hch, h.handleOrdered_channel hr enc' henc']
      unfold OrderingChannels.handleOrdered at hr
      split at hr
      · cases hr
      · rename_i c hc
        rw [hc]; rfl
    · cases ho; cases hp
  · rename_i hnot
    rw [(Session.decodeAndPush_out ho p hp).1] at hord
    exact absurd hord hnot

theorem handleEncapsulated_channel (h : r.ordering.Sorted) (enc : EncapsulatedPacket) (now : Instant) :
    ∀ p ∈ returned (r.handleEncapsulated enc now).1, p.reliability.isOrdered = true →
      p.orderingChannel.isSome = true := by
  have hcases := r.handleEncapsulated_cases enc now
  generalize r.handleEncapsulated enc now = res at hcases
  cases hcases with
  | seen | refused | pending => exact fun p hp => by cases hp
  | delivered _ _ =>
    refine deliver_channel ?_ _
    cases Session.filterIndex enc <;> exact h

/-- Delivering a packet that carries a message: an unordered reliable one must be new and on record. -/
theorem deliver (hb : Bounded s log) (hord : ∀ c, ReceivesInOrder c log r out) {ds : List Nat} {base : Nat}
    (h : Delivered log r.reliableTracker reassembled out ds base) {i : Nat} {m : Message} (hi : log[i]? = some m)
    {enc : EncapsulatedPacket} (hcarried : m.CarriedBy enc)
    (hnew : m.reliability.isUnordered = true → i ∉ ds ∧
      (m.isFragmented = false → r.reliableTracker.Recorded base (reliableCount (log.take i))) ∧
      ∀ id pieces, m.body = .fragments id pieces → id ∈ reassembled) :
    ∃ ds', Delivered log (r.deliver enc).2.reliableTracker reassembled (out ++ returned (r.deliver enc).1) ds'
    base := by
  obtain ⟨_, _, hframe⟩ := r.deliver_frame enc
  rw [hframe]
  unfold Session.deliver
  split
  · rename_i ho
    refine ⟨ds, h.append_other fun p hp => ?_⟩
    rw [Reliability.isUnordered, ReceivesInOrder.handleOrdered_isOrdered hord ho p hp, Bool.not_true, Bool.and_false]
  · -- an unordered reliable message is returned now for the first time; others do not count
    cases hun : m.reliability.isUnordered with
    | true =>
      obtain ⟨hnot, hwhole, hfrag⟩ := hnew hun
      refine ⟨ds ++ [i], h.add hi hun hnot hwhole hfrag ?_⟩
      rw [Reliability.isUnordered, Bool.and_eq_true] at hun
      cases hout : (r.decodeAndPush enc).1 with
      | error e => exact List.nil_sublist _
      | ok o =>
        rw [Session.decodeAndPush_carried hcarried (hb.countFits (List.mem_of_getElem? hi) hun.1) hout]
        exact List.Sublist.refl _
    | false =>
      refine ⟨ds, h.append_other fun p hp => ?_⟩
      obtain ⟨o, ho, hp⟩ := mem_returned hp
      rw [(Session.decodeAndPush_out ho p hp).1, hcarried.reliability, hun]

/-- Committing the index of a whole reliable packet. -/
theorem commit (hb : Bounded s log) {t : ReliableTracker} {ds : List Nat} {base : Nat}
    (h : Delivered log t reassembled out ds base) {i : Nat} {m : Message} (hi : log[i]? = some m)
    (hrel : m.reliability.isReliable = true)
    (hgap : Sequence24.new (reliableCount (log.take i)) = t.base → t.GapFree) : ∃ base',
    Delivered log (t.see (Sequence24.new (reliableCount (log.take i)))).2 reassembled out ds base' ∧
    (t.InWindow (Sequence24.new (reliableCount (log.take i))) →
      (t.see (Sequence24.new (reliableCount (log.take i)))).2.Recorded base' (reliableCount (log.take i))) := by
  have hwf := hb.wellFormed m (List.mem_of_getElem? hi)
  have hlt : reliableCount (log.take i) < reliableCount log := by
    have := reliableCount_take_add_le hi hrel
    have := hwf.frames_pos
    omega
  obtain ⟨base', htracks, hkeeps, hrec⟩ := h.tracks.see hb.reliable hlt hgap
  exact ⟨base', ⟨htracks, h.nodup, h.unordered, fun j hj m' hm' hw => hkeeps _ (h.whole j hj m' hm' hw), h.fragments,
    h.out⟩, hrec⟩

/-- What the duplicate filter and the assembler look at in a frame of a message. -/
theorem frame_facts {m : Message} {p : EncapsulatedPacket} (hp : p ∈ m.frames) : p.header.reliability = m.reliability ∧
    ((m.isFragmented = false ∧ Session.filterIndex p = m.reliableIndex 0) ∨
      ∃ id pieces split, m.body = .fragments id pieces ∧ Session.filterIndex p = none ∧ p.split = some split ∧
        split.id = id) := by
  rcases m.frames_cases hp with ⟨payload, hbody, rfl⟩ | ⟨id, pieces, j, piece, hbody, -, rfl⟩
  · refine ⟨rfl, .inl ⟨by rw [Message.isFragmented, hbody], ?_⟩⟩
    unfold Session.filterIndex
    simp only [Session.singleEncap, Bool.not_false, Bool.and_true]
    split
    · rfl
    · rename_i hrel
      rw [Message.reliableIndex, Session.reliableIndexFrom, if_neg hrel]
  · exact ⟨rfl, .inr ⟨id, pieces, _, hbody, Session.filterIndex_of_isSplit rfl, rfl, rfl⟩⟩

/-- Handling a frame of a queued message that is recognized. -/
theorem handleEncapsulated (hb : Bounded s log) (h : ReceivesOnce log r reassembled out) {m : Message} (hm : m ∈ log)
    {p : EncapsulatedPacket} (hp : p ∈ m.frames) (now : Instant) (hrec : r.Recognizes reassembled p) :
    ReceivesOnce log (r.handleEncapsulated p now).2 (reassembled ++ r.reassembledBy p now)
      (out ++ returned (r.handleEncapsulated p now).1) := by
  refine ⟨fun c => (h.ordered c).handleEncapsulated (hb.distinguished c) hm hp now, fun q hq => ?_, ?_⟩
  · rcases List.mem_append.1 hq with hq | hq
    · exact h.channel q hq
    · exact handleEncapsulated_channel (h.ordered 0).sorted p now q hq
  obtain ⟨ds, base, hdel⟩ := h.unordered
  obtain ⟨i, hi⟩ := List.mem_iff_getElem?.1 hm
  obtain ⟨hassembler, hcarried⟩ := SplitAssembler.add_frame hb.numbered hb.fragmented (h.ordered 0).assembler hm hp now
  obtain ⟨hwindow, hgap, hfresh⟩ := hrec
  obtain ⟨hreliability, hframe⟩ := frame_facts hp
  have hcases := r.handleEncapsulated_cases p now
  generalize r.handleEncapsulated p now = res at hcases
  have hquiet :
      ∃ ds base, Delivered log r.reliableTracker (reassembled ++ r.reassembledBy p now) (out ++ []) ds base := by
    rw [List.append_nil]
    exact ⟨ds, base, hdel.reassemble _⟩
  cases hcases with
  | seen => exact hquiet
  | refused => exact hquiet
  | pending => exact hquiet
  | @delivered enc a hnew hadd =>
    rw [hadd] at hassembler hcarried
    have hcarried := hcarried enc rfl
    have hord := fun c => (h.ordered c).committed hassembler (Session.filterIndex p)
    have hdel' := hdel.reassemble (r.reassembledBy p now)
    rcases hframe with ⟨hwhole, hidx⟩ | ⟨id, pieces, split, hbody, hidx, hsplit, hid⟩
    · have hnofrag : ∀ id pieces, m.body = .fragments id pieces → id ∈ reassembled ++ r.reassembledBy p now := by
        intro id pieces hb'
        rw [Message.isFragmented, hb'] at hwhole; cases hwhole
      rw [hidx] at hnew hgap hwindow hord ⊢
      by_cases hrel : m.reliability.isReliable = true
      · rw [hb.numbered.reliableIndex hi hrel 0, Nat.add_zero] at hnew hgap hwindow hord ⊢
        obtain ⟨base', hcommit, hrecorded⟩ := commit hb hdel' hi hrel fun heq => hgap (congrArg some heq)
        have hlt : reliableCount (log.take i) < reliableCount log := by
          have := reliableCount_take_add_le hi hrel
          have := (hb.wellFormed m hm).frames_pos
          omega
        obtain ⟨ds', hds'⟩ := deliver hb hord hcommit hi hcarried fun hun => by
          rw [Reliability.isUnordered, Bool.and_eq_true, Bool.not_eq_true'] at hun
          have hin := hwindow _ rfl (hreliability ▸ hun.2)
          refine ⟨fun hmem => ?_, fun _ => hrecorded hin, hnofrag⟩
          -- a message delivered before is on record and would have been filtered
          have hseen := (hdel.whole i hmem m hi hwhole).hasSeen hb.reliable hdel.tracks hlt hin
          rw [hnew _ rfl] at hseen
          cases hseen
        exact ⟨ds', base', hds'⟩
      · have hnone : m.reliableIndex 0 = none := by rw [Message.reliableIndex, Session.reliableIndexFrom, if_neg hrel]
        rw [hnone] at hord ⊢
        obtain ⟨ds', hds'⟩ := deliver hb hord hdel' hi hcarried fun hun => by
          rw [Reliability.isUnordered, Bool.and_eq_true] at hun
          exact absurd hun.1 hrel
        exact ⟨ds', base, hds'⟩
    · rw [hidx] at hord ⊢
      obtain ⟨ds', hds'⟩ := deliver hb hord hdel' hi hcarried fun hun => by
        rw [Reliability.isUnordered, Bool.and_eq_true, Bool.not_eq_true'] at hun
        refine ⟨fun hmem => ?_, fun hwhole => ?_, fun id' pieces' hb' => ?_⟩
        · -- a message delivered before was reassembled before
          refine hfresh split hsplit (hreliability ▸ hun.2) ?_
          rw [hid]
          exact hdel.fragments i hmem m id pieces hi hbody
        · rw [Message.isFragmented, hbody] at hwhole; cases hwhole
        · rw [hbody] at hb'
          cases hb'
          refine List.mem_append_right _ ?_
          simp only [Session.reassembledBy, hsplit, hadd, hid, List.mem_singleton]
      exact ⟨ds', base, hds'⟩

/-- Handling the frames of a datagram. An error drops what came out before it. -/
theorem handleDataPayload (hb : Bounded s log) (now : Instant) : ∀ (packets : List EncapsulatedPacket) {r : Session F}
    {reassembled : List UInt16} {out : List IncomingPacket}, ReceivesOnce log r reassembled out →
    (∀ p ∈ packets, ∃ m ∈ log, p ∈ m.frames) → r.RecognizesAll now reassembled packets →
    ReceivesOnce log (r.handleDataPayload packets now).2 (reassembled ++ r.reassembledIn now packets)
      (out ++ returned (r.handleDataPayload packets now).1)
  | [], r, reassembled, out, h, _, _ => by
    simpa [Session.handleDataPayload, Session.reassembledIn, returned] using h
  | p :: rest, r, reassembled, out, h, hframes, hrec => by
    obtain ⟨m, hm, hp⟩ := hframes p (List.mem_cons_self ..)
    have hfirst := h.handleEncapsulated hb hm hp now hrec.1
    have hall := hrec.2
    unfold Session.reassembledIn
    rcases hres : r.handleEncapsulated p now with ⟨e | o₁, r₁⟩
    · rw [hres] at hfirst
      rw [Session.handleDataPayload_cons_error rest hres]
      simpa using hfirst
    · rw [hres] at hfirst hall
      rw [Session.handleDataPayload_cons_ok rest hres]
      have hrest := handleDataPayload hb now rest hfirst (fun q hq => hframes q (List.mem_cons_of_mem _ hq)) hall
      rw [List.append_assoc, List.append_assoc] at hrest
      exact hrest.sublist ((returned_map_append_sublist _ _).append_left out)

/-- Every operation other than handling a payload. -/
theorem step [Float64 F] (hb : Bounded s log) (h : ReceivesOnce log r reassembled out) {op : Session.Op}
    (hop : Session.Local op) : ReceivesOnce log (r.step op) reassembled out := by
  refine ⟨fun c => (h.ordered c).step (hb.distinguished c) op hop, h.channel, ?_⟩
  rw [Session.step_reliableTracker r hop]
  exact h.unordered

theorem reach [Float64 F] (hb : Bounded s log) (h : ReceivesOnce log r reassembled out) {r' : Session F}
    (hreach : ManagedSession.InnerReach Session.Local r r') : ReceivesOnce log r' reassembled out :=
  hreach.inv (I := fun r => ReceivesOnce log r reassembled out) (fun _ _ hop h => h.step hb hop) h

theorem append (h : ReceivesOnce log r reassembled out) (more : List Message) :
    ReceivesOnce (log ++ more) r reassembled out :=
  ⟨fun c => (h.ordered c).append more, h.channel, h.unordered.imp fun _ h => h.imp fun _ h => h.append more⟩

/-- The packets of an ordering channel are messages of the channel. -/
theorem count_ordered (h : ReceivesOnce log r reassembled out) {x : IncomingPacket} {c : UInt8}
    (hx : onChannel c x = true) :
    out.count x ≤ ((log.filter fun m => m.reliability.isReliable).filterMap Message.surfaced).count x := by
  have hchannel : orderedOn c log <+ log.filter fun m => m.reliability.isReliable :=
    List.monotone_filter_right log fun m hm => by
      rw [Bool.and_eq_true] at hm
      exact Reliability.isReliable_of_isOrdered hm.1
  have hsub : out.filter (onChannel c) <+ (orderedOn c log).filterMap Message.surfaced := by
    cases hch : r.ordering.channels[c.toNat]? with
    | none => rw [(h.ordered c).absent hch]; exact List.nil_sublist _
    | some ch =>
      obtain ⟨read, hreads⟩ := (h.ordered c).channel ch hch
      exact hreads.out.trans ((List.take_sublist read _).filterMap _)
  rw [← List.count_filter hx]
  exact (hsub.trans (hchannel.filterMap _)).count_le x

/-- The unordered packets are messages at different positions. -/
theorem count_unordered (h : ReceivesOnce log r reassembled out) {x : IncomingPacket}
    (hx : x.reliability.isUnordered = true) :
    out.count x ≤ ((log.filter fun m => m.reliability.isReliable).filterMap Message.surfaced).count x := by
  obtain ⟨ds, base, hdel⟩ := h.unordered
  have hlt : ds ⊆ List.range log.length := fun i hi => by
    obtain ⟨m, hm, -⟩ := hdel.unordered i hi
    exact List.mem_range.2 (List.getElem?_eq_some_iff.1 hm).1
  -- the messages delivered are reliable
  have hsame : ds.filterMap (surfacedAt log) = ds.filterMap fun i =>
      log[i]?.bind fun m => if m.reliability.isReliable = true then m.surfaced else none :=
    List.filterMap_congr fun i hi => by
      obtain ⟨m, hm, hun⟩ := hdel.unordered i hi
      rw [Reliability.isUnordered, Bool.and_eq_true] at hun
      rw [surfacedAt, hm, Option.bind_some, Option.bind_some, if_pos hun.1]
  have hsubperm := subperm_filterMap (hdel.nodup.subperm hlt) fun i =>
    log[i]?.bind fun m => if m.reliability.isReliable = true then m.surfaced else none
  rw [filterMap_positions, ← hsame] at hsubperm
  rw [List.filterMap_filter, ← List.count_filter (p := fun p => p.reliability.isUnordered) hx]
  exact (hdel.out.count_le x).trans (hsubperm.count_le x)

/-- The reliable packets returned are, as a multiset, some of the reliable messages. -/
theorem subperm (h : ReceivesOnce log r reassembled out) : out.filter (fun p => p.reliability.isReliable) <+~
    (log.filter fun m => m.reliability.isReliable).filterMap Message.surfaced := by
  refine List.subperm_ext_iff.2 fun x hx => ?_
  obtain ⟨hx, hrel⟩ := List.mem_filter.1 hx
  rw [List.count_filter (p := fun p : IncomingPacket => p.reliability.isReliable) hrel]
  cases hord : x.reliability.isOrdered with
  | true =>
    obtain ⟨c, hc⟩ := Option.isSome_iff_exists.1 (h.channel x hx hord)
    exact h.count_ordered (c := c) (by rw [onChannel, hord, hc]; simp)
  | false => exact h.count_unordered (by rw [Reliability.isUnordered, hrel, hord]; rfl)

theorem new [Float64 F] (mtu : Nat) (tunables : SessionTunables) :
    ReceivesOnce [] (Session.withTunables mtu tunables : Session F) [] [] :=
  ⟨fun c => .new c mtu tunables, by simp, [], 0, .new tunables.reliableWindow⟩

end ReceivesOnce

/-! ## Runs -/

namespace ManagedLink

variable {F : Type} [Float64 F] {start : Instant}

/-- The invariant of a link. -/
structure AtMostOnce (x : ManagedLink F) : Prop where
  sender : x.sender.Inv
  receives : ReceivesOnce x.sender.log x.receiver.inner x.reassembled x.returned

theorem AtMostOnce.arrive {x : ManagedLink F} (h : AtMostOnce x) (hb : Bounded x.sender.session x.sender.log)
    {d : Datagram} (hd : d ∈ x.sender.sent) {now : Instant}
    (hrec : x.receiver.state = .closed ∨ x.receiver.inner.RecognizesAll now x.reassembled d.packets) :
    AtMostOnce (x.arrive start d now) := by
  refine ⟨h.sender, ?_⟩
  unfold ManagedLink.arrive
  by_cases hclosed : x.receiver.state = .closed
  · simp only [ManagedSession.handleDatagram_closed start hclosed, hclosed, if_true, List.append_nil]
    rw [show Raknet.returned (.ok [] : Except SessionError _) = [] from rfl, List.append_nil]
    exact h.receives
  · obtain ⟨hout, hinner⟩ := ManagedSession.handleDatagram_open handlerOp_local start hclosed d now
    simp only [hout, returned_mapError, if_neg hclosed]
    refine ReceivesOnce.reach hb ?_ hinner
    exact h.receives.handleDataPayload hb now d.packets (h.sender.framed.sent d hd) (hrec.resolve_left hclosed)

theorem AtMostOnce.step {x : ManagedLink F} (h : AtMostOnce x) (hb : Bounded x.sender.session x.sender.log) {op : Op}
    (hop : x.Recognizes op) : AtMostOnce (x.step start op) := by
  cases op with
  | send op => exact ⟨h.sender.step op, h.receives.append _⟩
  | deliver i now =>
    rw [ManagedLink.step]
    split
    · exact h
    · rename_i d hd
      simp only [Recognizes, hd] at hop
      exact h.arrive hb (List.mem_of_getElem? hd) hop
  | receive op hlocal =>
    exact ⟨h.sender, h.receives.reach hb (receive_inner start x.receiver hlocal)⟩

theorem AtMostOnce.run : ∀ (ops : List Op) {x : ManagedLink F}, AtMostOnce x →
    Machine.Along (ManagedLink.step start) ManagedLink.Recognizes x ops →
    reliableCount (Machine.run (ManagedLink.step start) x ops).sender.log < 2 ^ 23 →
    fragmentedCount (Machine.run (ManagedLink.step start) x ops).sender.log < 2 ^ 16 →
    AtMostOnce (Machine.run (ManagedLink.step start) x ops)
  | [], _, h, _, _, _ => h
  | op :: ops, x, h, hrec, hr, hf => by
    obtain ⟨more, hlog⟩ := log_grows start (op :: ops) x
    have hb : Bounded x.sender.session x.sender.log := by
      refine ⟨h.sender.numbered, h.sender.wellFormed, ?_, ?_⟩
      · rw [← hlog, reliableCount_append] at hr; omega
      · rw [← hlog, fragmentedCount_append] at hf; omega
    exact AtMostOnce.run ops (h.step hb hrec.1) hrec.2 hr hf

/-- At-most-once delivery. In every run in which the packets that arrive are recognized, with fewer
than `2 ^ 23` reliable indexes and fewer than `2 ^ 16` fragmented messages, every reliable packet
returned to the receiver's caller stands for a reliable message of its own. -/
theorem returned_subperm_queued (mtu : Nat) (tunables : SessionTunables) (peer : SocketAddr) (mtu' : Nat)
    (now : Instant) (config : SessionConfig) (ops : List Op)
    (hrec : Machine.Along (step start) Recognizes
      (new mtu tunables (.withConfig peer mtu' now config) : ManagedLink F) ops)
    (hreliable :
      reliableCount (Machine.run (step start) (new mtu tunables (.withConfig peer mtu' now config) : ManagedLink F)
        ops).sender.log < 2 ^ 23)
    (hfragmented :
      fragmentedCount (Machine.run (step start) (new mtu tunables (.withConfig peer mtu' now config) : ManagedLink F)
        ops).sender.log < 2 ^ 16) :
    (Machine.run (step start) (new mtu tunables (.withConfig peer mtu' now config) : ManagedLink F) ops).returned.filter
        (fun p => p.reliability.isReliable) <+~
      ((Machine.run (step start) (new mtu tunables (.withConfig peer mtu' now config) : ManagedLink F)
        ops).sender.log.filter fun m => m.reliability.isReliable).filterMap Message.surfaced := by
  have hnew : AtMostOnce (new mtu tunables (.withConfig peer mtu' now config) : ManagedLink F) :=
    ⟨.new mtu tunables, .new mtu' config.session⟩
  exact (hnew.run ops hrec hreliable hfragmented).receives.subperm

/-- Two messages are sent one by one; the second arrives twice, then the first. -/
def lateFirstRun : List Op :=
  [.send (.queuePacket (.userData 0x80 [1]) .reliable 0 .normal), .send (.buildDataDatagram 0),
    .send (.queuePacket (.userData 0x80 [2]) .reliable 0 .normal), .send (.buildDataDatagram 0),
    .deliver 1 0, .deliver 1 0, .deliver 0 0]

theorem returned_subperm_queued_lateFirst :
    (Machine.run (step 0) (new 1400 {} (.withConfig .loopbackV4 1400 0 {}) : ManagedLink ℚ) lateFirstRun).returned.map
      IncomingPacket.packet = [.userData 0x80 [2], .userData 0x80 [1]] ∧
    (Machine.run (step 0) (new 1400 {} (.withConfig .loopbackV4 1400 0 {}) : ManagedLink ℚ)
      lateFirstRun).returned.filter
        (fun p => p.reliability.isReliable) <+~
      ((Machine.run (step 0) (new 1400 {} (.withConfig .loopbackV4 1400 0 {}) : ManagedLink ℚ)
        lateFirstRun).sender.log.filter fun m => m.reliability.isReliable).filterMap Message.surfaced :=
  ⟨by decide +kernel, returned_subperm_queued 1400 {} .loopbackV4 1400 0 {} lateFirstRun (by decide +kernel)
    (by decide +kernel) (by decide +kernel)⟩

/-- One message is sent, and its datagram arrives twice. -/
def repeatedRun : List Op :=
  [.send (.queuePacket (.userData 0x80 [1]) .reliable 0 .normal), .send (.buildDataDatagram 0), .deliver 0 0,
    .deliver 0 0]

theorem returned_not_subperm_repeated :
    ¬ ∀ (start : Instant) (mtu : Nat) (tunables : SessionTunables) (peer : SocketAddr) (mtu' : Nat) (now : Instant)
    (config : SessionConfig) (ops : List Op),
    reliableCount (Machine.run (step start) (new mtu tunables (.withConfig peer mtu' now config) : ManagedLink ℚ)
      ops).sender.log < 2 ^ 23 →
    fragmentedCount (Machine.run (step start) (new mtu tunables (.withConfig peer mtu' now config) : ManagedLink ℚ)
      ops).sender.log < 2 ^ 16 →
    (Machine.run (step start) (new mtu tunables (.withConfig peer mtu' now config) : ManagedLink ℚ) ops).returned.filter
        (fun p => p.reliability.isReliable) <+~
      ((Machine.run (step start) (new mtu tunables (.withConfig peer mtu' now config) : ManagedLink ℚ)
        ops).sender.log.filter fun m => m.reliability.isReliable).filterMap Message.surfaced := by
  intro h
  have honce := (h 0 1400 {} .loopbackV4 1400 0 {} repeatedRun (by decide +kernel) (by decide +kernel)).length_le
  revert honce
  decide +kernel

end ManagedLink

end BedrockRs.Raknet

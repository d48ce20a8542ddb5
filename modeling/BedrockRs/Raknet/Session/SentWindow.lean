/-
The window of sent datagrams. Its limit is compared with the number of slots, not of datagrams: slots of
acknowledged datagrams count, and so do those of datagrams that were never tracked. So the cleanup of a tick
gives up live datagrams though fewer than the limit are unacknowledged, exactly when the slots it keeps have
more holes than the datagrams it drops for good make up for; and the window grows past the limit as soon as
the write index has run ahead of the base.
-/
import BedrockRs.Raknet.Session.Accounting

namespace BedrockRs.Raknet.Session

open Lib

/-! ## Slots -/

/-- The number of datagrams in the slots. -/
def occupied (slots : List (Option TrackedDatagram)) : Nat := slots.countP Option.isSome

/-- The number of slots without a datagram. -/
def holes (slots : List (Option TrackedDatagram)) : Nat := slots.countP Option.isNone

theorem occupied_append (as bs : List (Option TrackedDatagram)) : occupied (as ++ bs) = occupied as + occupied bs :=
  List.countP_append

theorem occupied_some_cons (t : TrackedDatagram) (slots : List (Option TrackedDatagram)) :
    occupied (some t :: slots) = occupied slots + 1 := by
  unfold occupied
  rw [List.countP_cons_of_pos rfl]

theorem occupied_add_holes (slots : List (Option TrackedDatagram)) : occupied slots + holes slots = slots.length := by
  unfold occupied holes
  induction slots with
  | nil => rfl
  | cons slot slots ih =>
    cases slot with
    | none =>
      rw [List.countP_cons_of_neg (by decide), List.countP_cons_of_pos rfl, List.length_cons]
      omega
    | some t =>
      rw [List.countP_cons_of_pos rfl, List.countP_cons_of_neg (by simp), List.length_cons]
      omega

/-- The slot is empty, or its datagram has timed out. -/
def spent (timeout : Duration) (now : Instant) : Option TrackedDatagram → Bool
  | none => true
  | some t => timeout < Instant.durationSince now t.sendTime

/-! ## The cleanup -/

theorem dropLeading_slots (timeout : Duration) (now : Instant) :
    ∀ (slots : List (Option TrackedDatagram)) (base : Sequence24), (dropLeading timeout now base slots).2 =
      slots.dropWhile (spent timeout now)
  | [], _ => rfl
  | none :: slots, base => by
    rw [dropLeading, List.dropWhile_cons_of_pos rfl, dropLeading_slots timeout now slots base.next]
  | some t :: slots, base => by
    unfold dropLeading
    split
    · rename_i hout
      have hspent : spent timeout now (some t) = true := decide_eq_true hout
      rw [List.dropWhile_cons_of_pos hspent, dropLeading_slots timeout now slots base.next]
    · rename_i hin
      rw [List.dropWhile_cons_of_neg]
      simpa [spent] using hin

theorem evictExcess_slots (max : Nat) : ∀ (slots : List (Option TrackedDatagram)) (base : Sequence24),
    (evictExcess max base slots).2 = slots.drop (slots.length - max)
  | [], _ => List.drop_nil.symm
  | slot :: slots, base => by
    unfold evictExcess
    split
    · rename_i hlong
      rw [evictExcess_slots max slots base.next, List.length_cons,
        show slots.length + 1 - max = (slots.length - max) + 1 by omega, List.drop_succ_cons]
    · rename_i hshort
      rw [List.length_cons, show slots.length + 1 - max = 0 by omega, List.drop_zero]

theorem some_mem_trimTrailing {slots : List (Option TrackedDatagram)} {t : TrackedDatagram} :
    some t ∈ trimTrailing slots ↔ some t ∈ slots := by
  obtain ⟨n, h⟩ := trimTrailing_eq slots
  constructor
  · intro hmem
    rw [h]
    exact List.mem_append_left _ hmem
  · intro hmem
    rw [h] at hmem
    rcases List.mem_append.1 hmem with hmem | hmem
    · exact hmem
    · cases List.eq_of_mem_replicate hmem

variable {F : Type}

/-- The slots behind the leading spent ones. -/
def unspent (s : Session F) (now : Instant) : List (Option TrackedDatagram) :=
  s.sentDatagrams.dropWhile (spent s.sentDatagramTimeout now)

theorem some_mem_cleaned {s : Session F} {now : Instant} {t : TrackedDatagram} :
    some t ∈ (s.cleanSentDatagrams now).sentDatagrams ↔
      some t ∈ (s.unspent now).drop ((s.unspent now).length - s.maxSentDatagrams) := by
  show some t ∈ trimTrailing (evictExcess _ _ _).2 ↔ _
  rw [some_mem_trimTrailing, evictExcess_slots, dropLeading_slots]
  rfl

/-- A tracked datagram is in one slot only. -/
theorem QueueInv.once {s : Session F} (h : QueueInv s) {before behind : List (Option TrackedDatagram)}
    {t : TrackedDatagram} (heq : s.sentDatagrams = before ++ some t :: behind) : some t ∉ behind := by
  intro hmem
  obtain ⟨i, hi⟩ := List.mem_iff_getElem?.1 hmem
  have hlen := h.length
  rw [tracked, List.length_map] at hlen
  have hfirst : s.sentDatagrams[before.length]? = some (some t) := by
    rw [heq, List.getElem?_append_right (le_refl _), Nat.sub_self, List.getElem?_cons_zero]
  have hagain : s.sentDatagrams[before.length + (i + 1)]? = some (some t) := by
    rw [heq, List.getElem?_append_right (by omega), Nat.add_sub_cancel_left, List.getElem?_cons_succ, hi]
  have hbound := (List.getElem?_eq_some_iff.1 hagain).1
  have hsame := Sequence24.ext_iff'.1 ((h.sequence hfirst).symm.trans (h.sequence hagain))
  simp only [Sequence24.val_new] at hsame
  omega

/-- A live datagram that the cleanup drops stands in front of at least as many slots as the limit. -/
theorem dropped_live {s : Session F} {now : Instant} {before behind : List (Option TrackedDatagram)}
    {t : TrackedDatagram} (heq : s.sentDatagrams = before ++ some t :: behind)
    (hlive : spent s.sentDatagramTimeout now (some t) = false)
    (hdropped : some t ∉ (s.cleanSentDatagrams now).sentDatagrams) :
    (∃ front, s.unspent now = front ++ some t :: behind) ∧ s.maxSentDatagrams ≤ behind.length := by
  have hstop : (some t :: behind).dropWhile (spent s.sentDatagramTimeout now) = some t :: behind :=
    List.dropWhile_cons_of_neg (by rw [hlive]; exact Bool.false_ne_true)
  obtain ⟨front, hfront⟩ : ∃ front, s.unspent now = front ++ some t :: behind := by
    unfold unspent
    rw [heq, List.dropWhile_append]
    split
    · exact ⟨[], hstop⟩
    · exact ⟨_, rfl⟩
  refine ⟨⟨front, hfront⟩, ?_⟩
  by_contra hfew
  apply hdropped
  rw [some_mem_cleaned, hfront, List.length_append, List.length_cons, List.drop_append_of_le_length (by omega)]
  exact List.mem_append_right _ (List.mem_cons_self ..)

/-- A datagram among the slots that are in excess is dropped. -/
theorem dropped_excess {s : Session F} (h : QueueInv s) {now : Instant}
    {front between kept : List (Option TrackedDatagram)} {t : TrackedDatagram}
    (heq : s.unspent now = front ++ some t :: between ++ kept) (hkept : kept.length = s.maxSentDatagrams) :
    (∃ before, s.sentDatagrams = before ++ some t :: (between ++ kept)) ∧
      some t ∉ (s.cleanSentDatagrams now).sentDatagrams := by
  have hslots : s.sentDatagrams =
      (s.sentDatagrams.takeWhile (spent s.sentDatagramTimeout now) ++ front) ++ some t :: (between ++ kept) := by
    conv_lhs => rw [← List.takeWhile_append_dropWhile (p := spent s.sentDatagramTimeout now) (l := s.sentDatagrams)]
    show _ ++ s.unspent now = _
    rw [heq]
    simp only [List.append_assoc, List.cons_append]
  refine ⟨⟨_, hslots⟩, ?_⟩
  rw [some_mem_cleaned, heq, List.length_append, hkept, Nat.add_sub_cancel, List.drop_left]
  exact fun hmem => h.once hslots (List.mem_append_right _ hmem)

/-- A list with an element that has not `p` has a last one. -/
theorem exists_last {α : Type} {p : α → Bool} : ∀ {l : List α} {x : α}, x ∈ l → p x = false →
    ∃ front y rest, l = front ++ y :: rest ∧ p y = false ∧ ∀ z ∈ rest, p z = true
  | a :: l, x, hmem, hx => by
    by_cases hrest : ∀ z ∈ l, p z = true
    · rcases List.mem_cons.1 hmem with rfl | hmem
      · exact ⟨[], x, l, rfl, hx, hrest⟩
      · rw [hrest x hmem] at hx
        cases hx
    · push Not at hrest
      obtain ⟨z, hz, hpz⟩ := hrest
      obtain ⟨front, y, rest, rfl, hy, hall⟩ := exists_last hz (Bool.eq_false_of_not_eq_true hpz)
      exact ⟨a :: front, y, rest, rfl, hy, hall⟩

/-! ## Giving up -/

/-- Let `kept` be the last `max` slots, and `t` the last live datagram in front of them that is not among the
leading spent slots: between `t` and `kept` there are as many datagrams as there are holes in `kept`. -/
def HolesMadeUp (timeout : Duration) (max : Nat) (now : Instant) (slots : List (Option TrackedDatagram)) : Prop :=
  ∀ front t between kept, slots.dropWhile (spent timeout now) = front ++ some t :: between ++ kept → kept.length = max →
    spent timeout now (some t) = false → (∀ slot ∈ between, spent timeout now slot = true) →
    holes kept ≤ occupied between

/-- The cleanup drops a datagram only if it has timed out, or if from it on there are more datagrams than the limit. -/
def GivesUpInTime (s : Session F) (now : Instant) : Prop :=
  ∀ before t behind, s.sentDatagrams = before ++ some t :: behind → some t ∉ (s.cleanSentDatagrams now).sentDatagrams →
    s.sentDatagramTimeout < Instant.durationSince now t.sendTime ∨ s.maxSentDatagrams < occupied (some t :: behind)

theorem givesUpInTime_iff {s : Session F} (h : QueueInv s) (now : Instant) :
    s.GivesUpInTime now ↔ HolesMadeUp s.sentDatagramTimeout s.maxSentDatagrams now s.sentDatagrams := by
  constructor
  · intro hgives front t between kept heq hkept hlive hbetween
    obtain ⟨⟨before, hslots⟩, hdropped⟩ := dropped_excess h heq hkept
    rcases hgives before t _ hslots hdropped with hout | hfull
    · rw [spent, decide_eq_false_iff_not] at hlive
      exact absurd hout hlive
    · have hcount := occupied_add_holes kept
      rw [occupied_some_cons, occupied_append] at hfull
      omega
  · intro hmade before t behind hslots hdropped
    by_cases hout : s.sentDatagramTimeout < Instant.durationSince now t.sendTime
    · exact .inl hout
    · right
      obtain ⟨⟨front, hfront⟩, hlong⟩ := dropped_live hslots (decide_eq_false hout) hdropped
      -- what is kept, and the last live datagram in front of it
      obtain ⟨excess, kept, rfl, hkept⟩ : ∃ excess kept, behind = excess ++ kept ∧ kept.length = s.maxSentDatagrams :=
        ⟨behind.take (behind.length - s.maxSentDatagrams), behind.drop (behind.length - s.maxSentDatagrams),
          (List.take_append_drop _ _).symm, by rw [List.length_drop]; omega⟩
      obtain ⟨front', slot, between, hsplit, hlive, hbetween⟩ :=
        exists_last (p := spent s.sentDatagramTimeout now) (List.mem_cons_self (a := some t) (l := excess))
          (decide_eq_false hout)
      cases slot with
      | none => cases hlive
      | some last =>
        have hholes := hmade (front ++ front') last between kept (by
          show s.unspent now = _
          rw [hfront, ← List.cons_append, hsplit]
          simp only [List.append_assoc, List.cons_append]) hkept hlive hbetween
        have hcount := occupied_add_holes kept
        rw [← List.cons_append, hsplit, occupied_append, occupied_append, occupied_some_cons]
        omega

section GivingUp

variable [Float64 F]

/-- In every reachable state the cleanup of the queue gives up only what it should if and only if the holes in the slots
it keeps are made up for. -/
theorem cleanSentDatagrams_givesUp_iff (mtu : Nat) (tunables : SessionTunables) (ops : List Op) (t now : Instant) :
    GivesUpInTime ((after mtu tunables ops : Session F).applyAcks t) now ↔
      HolesMadeUp ((after mtu tunables ops : Session F).applyAcks t).sentDatagramTimeout
        ((after mtu tunables ops : Session F).applyAcks t).maxSentDatagrams now
        ((after mtu tunables ops : Session F).applyAcks t).sentDatagrams :=
  givesUpInTime_iff ((queueInv_after mtu tunables ops).applyAcks t) now

end GivingUp

/-- One packet, queued and sent at once. -/
def sendOne (reliability : Reliability) : List Op :=
  [.queuePacket (.userData 0x80 [1]) reliability 0 .normal, .buildDataDatagram 0]

/-- Four reliable datagrams, of which the second and the third are acknowledged. -/
def acknowledgedMiddle : List Op :=
  sendOne .reliable ++ sendOne .reliable ++ sendOne .reliable ++ sendOne .reliable ++
    [.handleAckPayload ⟨[⟨Sequence24.new 1, Sequence24.new 2⟩]⟩]

/-- One of them, as it is tracked. -/
def trackedOne (n : Nat) : TrackedDatagram :=
  ⟨⟨⟨DatagramFlags.valid.or .hasBAndAs, Sequence24.new n⟩, .encapsulatedPackets
    [singleEncap [0x80, 1] .reliable 0 (some (Sequence24.new n)) none]⟩, 0, Duration.fromMillis 2000⟩

/-- With room for three datagrams the first of two is given up at once. -/
theorem cleanSentDatagrams_givesUp_early :
    ¬ ∀ (mtu : Nat) (tunables : SessionTunables) (ops : List Op) (t now : Instant),
      GivesUpInTime ((after mtu tunables ops : Session ℚ).applyAcks t) now := by
  intro h
  have hslots : ((after 1400 { maxSentDatagrams := 3 } acknowledgedMiddle : Session ℚ).applyAcks 0).sentDatagrams =
      [some (trackedOne 0), none, none, some (trackedOne 3)] := by decide +kernel
  have hdropped : some (trackedOne 0) ∉
      (((after 1400 { maxSentDatagrams := 3 } acknowledgedMiddle : Session ℚ).applyAcks 0).cleanSentDatagrams
        0).sentDatagrams := by
    decide +kernel
  have hgives :=
    h 1400 { maxSentDatagrams := 3 } acknowledgedMiddle 0 0 [] (trackedOne 0) [none, none, some (trackedOne 3)]
    hslots hdropped
  revert hgives
  decide +kernel

/-! ## The length of the window -/

section Length

variable [Float64 F]

omit [Float64 F] in
/-- The cleanup leaves no more slots than the limit. -/
theorem length_cleaned (s : Session F) (now : Instant) :
    (s.cleanSentDatagrams now).sentDatagrams.length ≤ s.maxSentDatagrams := by
  show (trimTrailing (evictExcess _ _ _).2).length ≤ s.maxSentDatagrams
  rw [evictExcess_slots]
  generalize (dropLeading _ _ _ _).2 = slots
  obtain ⟨n, htrim⟩ := trimTrailing_eq (slots.drop (slots.length - s.maxSentDatagrams))
  have hlen := congrArg List.length htrim
  rw [List.length_append, List.length_drop] at hlen
  omega

theorem applyAcks_limit (s : Session F) (now : Instant) : (s.applyAcks now).maxSentDatagrams = s.maxSentDatagrams := by
  obtain ⟨_, _, _, h⟩ := forEachRange_same (ackOne_same now) s.incomingAcks s
  unfold applyAcks
  rw [h]

theorem length_onTick (s : Session F) (now : Instant) (iter : IterOrder SplitEntries.Item) :
    (s.onTick now iter).2.sentDatagrams.length ≤ s.maxSentDatagrams := by
  have hsame := congrArg List.length (s.onTick_sameQueue now iter).1
  rw [tracked, tracked, List.length_map, List.length_map] at hsame
  rw [hsame, ← s.applyAcks_limit now]
  exact length_cleaned _ now

theorem length_setTracked (slots : List (Option TrackedDatagram)) (dist : Nat) (t : TrackedDatagram) :
    (setTracked slots dist t).length = max slots.length (dist + 1) := by
  unfold setTracked
  rw [List.length_set, List.length_append, List.length_replicate]
  omega

/-- The packets that the next datagram takes, as far as window and MTU allow. -/
def framesToSend (s : Session F) : List EncapsulatedPacket :=
  if s.sliding.getTransmissionBandwidth = 0 then []
  else
    (fillDatagram s.mtu s.outgoingHeap.len s.outgoingHeap
      (Datagram.ipv4HeaderSize + Datagram.udpHeaderSize + Datagram.raknetDatagramHeaderSize)
      s.sliding.getTransmissionBandwidth).1

/-- One of them is reliable. -/
def TakesReliable (s : Session F) : Prop := s.framesToSend.any (fun p => p.header.reliability.isReliable) = true

instance (s : Session F) : Decidable s.TakesReliable := inferInstanceAs (Decidable (_ = true))

/-- A datagram with a reliable packet goes to the slot at the distance of the write index; another leaves the
slots alone. -/
theorem length_buildDataDatagram (s : Session F) (now : Instant) :
    ¬ s.TakesReliable ∧ (s.buildDataDatagram now).2.sentDatagrams.length = s.sentDatagrams.length ∨
      s.TakesReliable ∧ (s.buildDataDatagram now).1.isSome = true ∧ (s.buildDataDatagram now).2.sentDatagrams.length =
        max s.sentDatagrams.length (s.sentDatagramsBase.distanceTo s.datagramWriteIndex + 1) := by
  unfold TakesReliable framesToSend buildDataDatagram
  by_cases hempty : s.outgoingHeap.isEmpty = true
  · have hlen : s.outgoingHeap.len = 0 := List.length_eq_zero_iff.2 (List.isEmpty_iff.1 hempty)
    rw [if_pos hempty, hlen]
    refine .inl ⟨?_, rfl⟩
    split <;> exact Bool.false_ne_true
  · rw [if_neg hempty]
    dsimp only
    by_cases hbw : s.sliding.getTransmissionBandwidth = 0
    · rw [if_pos hbw, if_pos hbw]
      exact .inl ⟨Bool.false_ne_true, rfl⟩
    · rw [if_neg hbw, if_neg hbw]
      split
      · rename_i hnone
        rw [List.isEmpty_iff] at hnone
        rw [hnone]
        exact .inl ⟨Bool.false_ne_true, rfl⟩
      · split
        · rename_i hreliable
          exact .inr ⟨hreliable, rfl, length_setTracked _ _ _⟩
        · rename_i hunreliable
          exact .inl ⟨hunreliable, rfl⟩

theorem step_limit (s : Session F) (op : Op) : (s.step op).maxSentDatagrams = s.maxSentDatagrams :=
  (s.step_cases op).fixed.2

/-! ## Runs with a count -/

/-- A session together with the number of datagrams built since its last tick. -/
structure Counted (F : Type) where
  session : Session F
  built : Nat

def Counted.step (c : Counted F) (op : Op) : Counted F :=
  ⟨c.session.step op, match op with
    | .onTick .. => 0
    | _ => c.built + ((c.session.built op).toList).length⟩

theorem Counted.run_session (ops : List Op) (c : Counted F) :
    (Machine.run Counted.step c ops).session = Machine.run Session.step c.session ops := by
  induction ops generalizing c with
  | nil => rfl
  | cons op ops ih => exact ih (c.step op)

/-- There are no more slots than the limit and the datagrams built since the last tick. -/
def Counted.Bounded (c : Counted F) : Prop := c.session.sentDatagrams.length ≤ c.session.maxSentDatagrams + c.built

/-- If the step takes a reliable packet into a datagram, the write index is no further from the base than the
limit and the datagrams built since the last tick. -/
def Counted.TracksNear (c : Counted F) : Op → Prop
  | .buildDataDatagram _ => c.session.TakesReliable →
      c.session.sentDatagramsBase.distanceTo c.session.datagramWriteIndex ≤ c.session.maxSentDatagrams + c.built
  | _ => True

theorem Counted.bounded_step_iff {c : Counted F} (h : c.Bounded) (op : Op) : (c.step op).Bounded ↔ c.TracksNear op := by
  have hlimit := c.session.step_limit op
  -- only a build can make the queue longer, and only a tick cuts it
  rcases c.session.step_queue op with ⟨now, rfl⟩ | ⟨now, iter, rfl⟩ | ⟨hbuild, htick, hsame, -⟩
  · unfold Bounded TracksNear Counted.step at *
    dsimp only
    rw [hlimit]
    show (c.session.buildDataDatagram now).2.sentDatagrams.length ≤
      c.session.maxSentDatagrams + (c.built + (c.session.buildDataDatagram now).1.toList.length) ↔ _
    rcases c.session.length_buildDataDatagram now with ⟨hnot, hlen⟩ | ⟨htakes, hsome, hlen⟩
    · exact iff_of_true (by omega) fun htakes => absurd htakes hnot
    · obtain ⟨d, hd⟩ := Option.isSome_iff_exists.1 hsome
      rw [hlen, hd, Option.toList_some, List.length_singleton]
      constructor
      · intro hle _
        omega
      · intro hnear
        have hdist := hnear htakes
        omega
  · refine iff_of_true ?_ trivial
    unfold Bounded Counted.step
    rw [hlimit, Session.step]
    exact Nat.le_trans (c.session.length_onTick now iter) (Nat.le_add_right _ _)
  · have hlen := congrArg List.length hsame.1
    rw [tracked, tracked, List.length_map, List.length_map] at hlen
    have hle : (c.session.step op).sentDatagrams.length ≤ (c.session.step op).maxSentDatagrams + c.built := by
      rw [hlen, hlimit]
      exact h
    cases op with
    | buildDataDatagram now => exact absurd rfl (hbuild now)
    | onTick now iter => exact absurd rfl (htick now iter)
    | _ => exact iff_of_true hle trivial

/-- The number of datagrams that a run builds after its last tick. -/
def builtSinceTick (mtu : Nat) (tunables : SessionTunables) (ops : List Op) : Nat :=
  (Machine.run Counted.step (⟨withTunables mtu tunables, 0⟩ : Counted F) ops).built

theorem Counted.bounded_run_iff (mtu : Nat) (tunables : SessionTunables) (ops : List Op) :
    (Machine.run Counted.step (⟨withTunables mtu tunables, 0⟩ : Counted F) ops).Bounded ↔
      (after mtu tunables ops : Session F).sentDatagrams.length ≤
        (after mtu tunables ops : Session F).maxSentDatagrams + builtSinceTick (F := F) mtu tunables ops := by
  unfold Counted.Bounded builtSinceTick
  rw [Counted.run_session]
  rfl

/-- The window of sent datagrams is bounded by the limit and the datagrams built since the last tick, in every
state of a run, if and only if the run sends no reliable packet in a datagram whose slot is further from the
base than that. -/
theorem sentDatagrams_bounded_iff (mtu : Nat) (tunables : SessionTunables) (ops : List Op) :
    (∀ done, done <+: ops → (after mtu tunables done : Session F).sentDatagrams.length ≤
      (after mtu tunables done : Session F).maxSentDatagrams + builtSinceTick (F := F) mtu tunables done) ↔
      Machine.Along Counted.step Counted.TracksNear (⟨withTunables mtu tunables, 0⟩ : Counted F) ops := by
  simp only [← Counted.bounded_run_iff]
  exact Machine.inv_iff_along (I := Counted.Bounded) (fun _ op h => Counted.bounded_step_iff h op) (Nat.zero_le _)

/-- Two untracked datagrams go out before a tick, and a tracked one behind it. -/
def unreliableAhead : List Op :=
  sendOne .unreliable ++ sendOne .unreliable ++ Op.onTick 0 (IterOrder.stored _) :: sendOne .reliable

/-- With room for one datagram, one that is tracked takes three slots. -/
theorem sentDatagrams_unbounded : ¬ ∀ (mtu : Nat) (tunables : SessionTunables) (ops : List Op),
    (after mtu tunables ops : Session ℚ).sentDatagrams.length ≤
      (after mtu tunables ops : Session ℚ).maxSentDatagrams + builtSinceTick (F := ℚ) mtu tunables ops := by
  intro h
  have hbounded := h 1400 { maxSentDatagrams := 1 } unreliableAhead
  revert hbounded
  decide +kernel

end Length

end BedrockRs.Raknet.Session

/-
The weights of the outgoing heap (`get_next_weight` of `session/outbound.rs`). A packet is weighed in one of three ways
(`Weighed`): by the counter of its priority when the heap is empty, and the counters are reset; by the counter when that
is behind `last_min_weight`; else from `last_min_weight`, and the counter moves on. The subtraction of the source never
underflows. Packets of one priority can overtake each other: a counter that is read before the reset is left over from
before the drain, and `last_min_weight` falls when a packet of another priority is weighed by its counter. In every run
without the two (`Backlog.InStep`) the packets of a priority keep their order.
-/
import BedrockRs.Raknet.Session.OutboundSpec

namespace BedrockRs.Raknet.Session

open Lib
open scoped List

variable {F : Type}

/-! ## One packet -/

/-- The value of `last_min_weight` that weighing a packet leaves. -/
def minWeight (priority : RakPriority) (weight : Nat) : Nat :=
  weight - (1 <<< priority.asIndex) * priority.asIndex + priority.asIndex

/-- The three ways to weigh a packet, with the weight and the counters afterwards. -/
inductive Weighed (s : Session F) (priority : RakPriority) : Nat → (RakPriority → Nat) → Prop
  | drained (h : s.outgoingHeap.isEmpty = true) :
    Weighed s priority (s.outgoingPacketNextWeights priority) initialWeight
  | behind (h : s.outgoingHeap.isEmpty = false) (hlt : s.outgoingPacketNextWeights priority < s.lastMinWeight) :
      Weighed s priority (s.outgoingPacketNextWeights priority) s.outgoingPacketNextWeights
  | based (h : s.outgoingHeap.isEmpty = false) (hle : s.lastMinWeight ≤ s.outgoingPacketNextWeights priority) :
      Weighed s priority (s.lastMinWeight + initialWeight priority)
      (Function.update s.outgoingPacketNextWeights priority
        (s.lastMinWeight + initialWeight priority + (1 <<< priority.asIndex) * (priority.asIndex + 1) +
        priority.asIndex))

theorem getNextWeight_cases (s : Session F) (priority : RakPriority) :
    ∃ weight weights, Weighed s priority weight weights ∧ s.getNextWeight priority =
      (weight, { s with outgoingPacketNextWeights := weights, lastMinWeight := minWeight priority weight }) := by
  unfold getNextWeight
  cases hempty : s.outgoingHeap.isEmpty with
  | true => exact ⟨_, _, .drained hempty, rfl⟩
  | false =>
    by_cases hle : s.lastMinWeight ≤ s.outgoingPacketNextWeights priority
    · refine ⟨_, _, .based hempty hle, ?_⟩
      simp [hle, initialWeight, minWeight, Nat.add_assoc]
    · refine ⟨_, _, .behind hempty (Nat.lt_of_not_le hle), ?_⟩
      simp [hle, minWeight]

/-- A counter that was used since the last reset is above twice the offset of its level. -/
def Apart (weights : RakPriority → Nat) : Prop :=
  ∀ p : RakPriority, weights p = initialWeight p ∨ 2 * ((1 <<< p.asIndex) * p.asIndex) < weights p

theorem Weighed.apart {s : Session F} {priority : RakPriority} {weight : Nat} {weights : RakPriority → Nat}
    (h : Weighed s priority weight weights) (hs : Apart s.outgoingPacketNextWeights) : Apart weights := by
  cases h with
  | drained _ => exact fun p => .inl rfl
  | behind _ _ => exact hs
  | based _ _ =>
    intro p
    by_cases hp : p = priority
    · subst hp
      rw [Function.update_self, Nat.mul_add]
      right
      unfold initialWeight
      have hpos : 0 < 1 <<< p.asIndex := by cases p <;> decide
      omega
    · rw [Function.update_of_ne hp]
      exact hs p

theorem pushOutgoingEncap_apart {s : Session F} (hs : Apart s.outgoingPacketNextWeights) (pkt : EncapsulatedPacket)
    (priority : RakPriority) : Apart (s.pushOutgoingEncap pkt priority).outgoingPacketNextWeights := by
  obtain ⟨weight, weights, hweighed, heq⟩ := s.getNextWeight_cases priority
  unfold pushOutgoingEncap
  rw [heq]
  exact hweighed.apart hs

theorem pushAll_apart (priority : RakPriority) : ∀ (frames : List EncapsulatedPacket) {s : Session F},
    Apart s.outgoingPacketNextWeights → Apart (pushAll priority frames s).outgoingPacketNextWeights
  | [], _, hs => hs
  | frame :: frames, _, hs => pushAll_apart priority frames (pushOutgoingEncap_apart hs frame priority)

/-! ## No underflow -/

/-- Weighing a packet, and anything at all that happens to the heap in between. -/
inductive WeightOp where
  | weigh (priority : RakPriority)
  | setHeap (heap : BinaryHeap QueuedEncap)

def weightStep (s : Session F) : WeightOp → Session F
  | .weigh priority => (s.getNextWeight priority).2
  | .setHeap heap => { s with outgoingHeap := heap }

/-- No counter is below the weight its priority starts from. -/
def FromInitial (s : Session F) : Prop := ∀ priority, initialWeight priority ≤ s.outgoingPacketNextWeights priority

theorem Weighed.fromInitial {s : Session F} {priority : RakPriority} {weight : Nat} {weights : RakPriority → Nat}
    (h : Weighed s priority weight weights) (hs : s.FromInitial) :
    initialWeight priority ≤ weight ∧ ∀ p, initialWeight p ≤ weights p := by
  cases h with
  | drained _ => exact ⟨hs priority, fun p => le_refl _⟩
  | behind _ _ => exact ⟨hs priority, hs⟩
  | based _ _ =>
    refine ⟨Nat.le_add_left _ _, fun p => ?_⟩
    by_cases hp : p = priority
    · subst hp
      rw [Function.update_self]
      omega
    · rw [Function.update_of_ne hp]
      exact hs p

theorem weightStep_fromInitial {s : Session F} (h : s.FromInitial) (op : WeightOp) : (s.weightStep op).FromInitial := by
  cases op with
  | weigh priority =>
    obtain ⟨weight, weights, hweighed, heq⟩ := s.getNextWeight_cases priority
    rw [weightStep, heq]
    exact (hweighed.fromInitial h).2
  | setHeap heap => exact h

/-- The subtraction in `get_next_weight` never underflows, whatever is queued and drained in between: a weight
is at least the offset of its level, `(1 << level) * level + level`. -/
theorem offset_le_getNextWeight [Float64 F] (mtu : Nat) (tunables : SessionTunables) (ops : List WeightOp)
    (priority : RakPriority) : (1 <<< priority.asIndex) * priority.asIndex + priority.asIndex ≤
      ((Machine.run weightStep (withTunables mtu tunables : Session F) ops).getNextWeight priority).1 := by
  have hnew : FromInitial (withTunables mtu tunables : Session F) := fun p => le_refl _
  have hrun := Machine.run_inv_all (P := FromInitial) (fun s op hs => weightStep_fromInitial hs op) ops hnew
  obtain ⟨weight, weights, hweighed, heq⟩ :=
    getNextWeight_cases (Machine.run weightStep (withTunables mtu tunables : Session F) ops) priority
  rw [heq]
  exact (hweighed.fromInitial hrun).1

/-! ## Packets in the order they were queued -/

/-- A packet in the outgoing heap, with the priority it was queued with. -/
structure Waiting where
  priority : RakPriority
  queued : QueuedEncap
deriving DecidableEq

/-- The frames of one priority as they are weighed and pushed, one after the other. -/
def weighed (priority : RakPriority) : List EncapsulatedPacket → Session F → List Waiting
  | [], _ => []
  | frame :: frames, s =>
    ⟨priority, (s.getNextWeight priority).1, frame⟩ :: weighed priority frames (s.pushOutgoingEncap frame priority)

/-- `waiting` is what the heap holds, in the order of queueing: no packet weighs more than a later one of its
priority, and none more than the counter of its priority. -/
structure Ordered (s : Session F) (waiting : List Waiting) : Prop where
  heap : (waiting.map Waiting.queued).Perm s.outgoingHeap.data
  counters : ∀ e ∈ waiting, e.queued.weight ≤ s.outgoingPacketNextWeights e.priority
  order : waiting.Pairwise fun e e' => e.priority = e'.priority → e.queued.weight ≤ e'.queued.weight

/-- `last_min_weight` is not lower by more than `2 * level` than the value that weighing any packet of
`priority` that waits has left. -/
def Near (s : Session F) (waiting : List Waiting) (priority : RakPriority) : Prop :=
  ∀ e ∈ waiting, e.priority = priority → minWeight priority e.queued.weight ≤ s.lastMinWeight + 2 * priority.asIndex

/-- A packet of `priority` can be weighed in order. On an empty heap its counter is not left over from before the drain;
otherwise, when it is weighed from `last_min_weight`, that is near. -/
def InStep (s : Session F) (waiting : List Waiting) (priority : RakPriority) : Prop :=
  if s.outgoingHeap.isEmpty then s.outgoingPacketNextWeights priority = initialWeight priority
  else s.lastMinWeight ≤ s.outgoingPacketNextWeights priority → s.Near waiting priority

/-- The counter of `priority` is behind `last_min_weight`, which weighing a packet by it lowers. -/
def Behind (s : Session F) (priority : RakPriority) : Prop :=
  s.outgoingHeap.isEmpty = false ∧ s.outgoingPacketNextWeights priority < s.lastMinWeight

instance (s : Session F) (priority : RakPriority) : Decidable (s.Behind priority) := inferInstanceAs (Decidable (_ ∧ _))

namespace Ordered

variable {s : Session F} {waiting : List Waiting} {priority : RakPriority}

theorem nil_of_isEmpty (h : s.Ordered waiting) (hempty : s.outgoingHeap.isEmpty = true) : waiting = [] := by
  have hperm := h.heap
  rw [BinaryHeap.isEmpty, List.isEmpty_iff] at hempty
  rw [hempty] at hperm
  simpa using hperm.eq_nil

/-- Nothing of the priority that waits weighs more than a packet that is weighed in order. -/
theorem le_weight (h : s.Ordered waiting) (hstep : s.InStep waiting priority) {weight : Nat}
    {weights : RakPriority → Nat} (hweighed : Weighed s priority weight weights) :
    ∀ e ∈ waiting, e.priority = priority → e.queued.weight ≤ weight := by
  intro e he hp
  cases hweighed with
  | drained hempty =>
    rw [h.nil_of_isEmpty hempty] at he
    cases he
  | behind _ _ =>
    have hcounter := h.counters e he
    rwa [hp] at hcounter
  | based hempty hle =>
    rw [InStep, hempty] at hstep
    have hmin := hstep hle e he hp
    unfold minWeight at hmin
    unfold initialWeight
    omega

/-- The counters still bound what waits, and the packet that was weighed. -/
theorem le_counters (h : s.Ordered waiting) (hstep : s.InStep waiting priority) {weight : Nat}
    {weights : RakPriority → Nat} (hweighed : Weighed s priority weight weights) :
    weight ≤ weights priority ∧ ∀ e ∈ waiting, e.queued.weight ≤ weights e.priority := by
  have hle := h.le_weight hstep hweighed
  cases hweighed with
  | drained hempty =>
    rw [InStep, hempty, if_pos rfl] at hstep
    refine ⟨hstep.le, fun e he => ?_⟩
    rw [h.nil_of_isEmpty hempty] at he
    cases he
  | behind _ _ => exact ⟨le_refl _, h.counters⟩
  | based _ _ =>
    rw [Function.update_self]
    refine ⟨by omega, fun e he => ?_⟩
    by_cases hp : e.priority = priority
    · have hold := hle e he hp
      rw [hp, Function.update_self]
      omega
    · rw [Function.update_of_ne hp]
      exact h.counters e he

/-- Nothing waits on an empty heap. -/
theorem near_of_isEmpty (h : s.Ordered waiting) (hempty : s.outgoingHeap.isEmpty = true) (p : RakPriority) :
    s.Near waiting p := by
  rw [h.nil_of_isEmpty hempty]
  exact fun e he => by cases he

/-- One packet: its priority stays in order, and `last_min_weight` is near for the next packet of the priority. -/
theorem push (h : s.Ordered waiting) (hstep : s.InStep waiting priority) (frame : EncapsulatedPacket) :
    (s.pushOutgoingEncap frame priority).Ordered (waiting ++ [⟨priority, (s.getNextWeight priority).1, frame⟩]) ∧
      (s.pushOutgoingEncap frame priority).Near (waiting ++ [⟨priority, (s.getNextWeight priority).1, frame⟩])
      priority := by
  obtain ⟨weight, weights, hweighed, heq⟩ := s.getNextWeight_cases priority
  obtain ⟨hself, hcounters⟩ := h.le_counters hstep hweighed
  have hle := h.le_weight hstep hweighed
  have hpush :
      (s.outgoingHeap.push QueuedEncap.le ⟨weight, frame⟩).data.Perm (⟨weight, frame⟩ :: s.outgoingHeap.data) :=
    BinaryHeap.push_perm QueuedEncap.le s.outgoingHeap ⟨weight, frame⟩
  unfold pushOutgoingEncap
  rw [heq]
  constructor
  · constructor
    · rw [List.map_append]
      exact List.perm_append_comm.trans ((h.heap.cons _).trans hpush.symm)
    · intro e he
      rcases List.mem_append.1 he with he | he
      · exact hcounters e he
      · rw [List.mem_singleton.1 he]
        exact hself
    · rw [List.pairwise_append]
      refine ⟨h.order, List.pairwise_singleton _ _, fun e he e' he' hp => ?_⟩
      rw [List.mem_singleton.1 he'] at hp ⊢
      exact hle e he hp
  · -- the smallest weight for the next packet is the one just given, or one behind it by a whole step
    intro e he hp
    have hold : e.queued.weight ≤ weight := by
      rcases List.mem_append.1 he with he | he
      · exact hle e he hp
      · rw [List.mem_singleton.1 he]
    dsimp only
    unfold minWeight
    omega

theorem isEmpty_pushOutgoingEncap (s : Session F) (frame : EncapsulatedPacket) (priority : RakPriority) :
    (s.pushOutgoingEncap frame priority).outgoingHeap.isEmpty = false := by
  obtain ⟨weight, weights, -, heq⟩ := s.getNextWeight_cases priority
  unfold pushOutgoingEncap
  rw [heq]
  exact BinaryHeap.isEmpty_push ..

theorem push_inStep (h : s.Ordered waiting) (hstep : s.InStep waiting priority) (frame : EncapsulatedPacket) :
    (s.pushOutgoingEncap frame priority).InStep (waiting ++ [⟨priority, (s.getNextWeight priority).1, frame⟩])
    priority := by
  rw [InStep, isEmpty_pushOutgoingEncap, if_neg Bool.false_ne_true]
  exact fun _ => (h.push hstep frame).2

/-- All frames of a packet: only the first one needs the condition. -/
theorem pushAll : ∀ (frames : List EncapsulatedPacket) {s : Session F} {waiting : List Waiting}, s.Ordered waiting →
    s.InStep waiting priority → (Session.pushAll priority frames s).Ordered (waiting ++ weighed priority frames s)
  | [], s, waiting, h, _ => by
    rw [weighed, List.append_nil]
    exact h
  | frame :: frames, s, waiting, h, hstep => by
    have hrest := pushAll frames (h.push hstep frame).1 (h.push_inStep hstep frame)
    rwa [List.append_assoc] at hrest

/-- After the frames of a packet `last_min_weight` is near for the next packet of their priority. -/
theorem pushAll_near : ∀ {frames : List EncapsulatedPacket} {s : Session F} {waiting : List Waiting}, frames ≠ [] →
    s.Ordered waiting → s.InStep waiting priority →
    (Session.pushAll priority frames s).Near (waiting ++ weighed priority frames s) priority
  | [], _, _, hne, _, _ => absurd rfl hne
  | [frame], _, _, _, h, hstep => (h.push hstep frame).2
  | frame :: next :: frames, s, waiting, _, h, hstep => by
    have hrest := pushAll_near (List.cons_ne_nil next frames) (h.push hstep frame).1 (h.push_inStep hstep frame)
    rwa [List.append_assoc] at hrest

/-- A packet that is weighed in order leaves its counter no more behind `last_min_weight`. -/
theorem push_not_behind (hapart : Apart s.outgoingPacketNextWeights) (hstep : s.InStep waiting priority)
    (frame : EncapsulatedPacket) : ¬ (s.pushOutgoingEncap frame priority).Behind priority := by
  rintro ⟨-, hlt⟩
  obtain ⟨weight, weights, hweighed, heq⟩ := s.getNextWeight_cases priority
  have hlevel : priority.asIndex ≤ (1 <<< priority.asIndex) * priority.asIndex := by cases priority <;> decide
  have hcounter := hapart priority
  unfold pushOutgoingEncap at hlt
  rw [heq] at hlt
  unfold initialWeight at hcounter
  unfold minWeight at hlt
  cases hweighed with
  | drained hempty =>
    rw [InStep, hempty, if_pos rfl] at hstep
    rw [hstep] at hlt
    dsimp only at hlt
    omega
  | behind _ _ =>
    dsimp only at hlt
    omega
  | based _ _ =>
    dsimp only at hlt
    rw [Function.update_self] at hlt
    omega

/-- Weighing a packet whose counter is not behind does not lower `last_min_weight`, so it stays near for the
other priorities. -/
theorem push_near_other {p : RakPriority} (hp : p ≠ priority) (h : s.Ordered waiting) (hahead : ¬ s.Behind priority)
    (hnear : s.Near waiting p) (frame : EncapsulatedPacket) :
    (s.pushOutgoingEncap frame priority).Near (waiting ++ [⟨priority, (s.getNextWeight priority).1, frame⟩]) p := by
  obtain ⟨weight, weights, hweighed, heq⟩ := s.getNextWeight_cases priority
  intro e he hep
  rcases List.mem_append.1 he with he | he
  · have hold := hnear e he hep
    unfold pushOutgoingEncap
    rw [heq]
    cases hweighed with
    | drained hempty =>
      rw [h.nil_of_isEmpty hempty] at he
      cases he
    | behind hempty hlt => exact absurd ⟨hempty, hlt⟩ hahead
    | based _ _ =>
      unfold minWeight initialWeight at *
      dsimp only
      omega
  · rw [List.mem_singleton.1 he] at hep
    exact absurd hep.symm hp

theorem pushAll_near_other {p : RakPriority} (hp : p ≠ priority) : ∀ (frames : List EncapsulatedPacket) {s : Session F}
    {waiting : List Waiting}, s.Ordered waiting → Apart s.outgoingPacketNextWeights → s.InStep waiting priority →
    ¬ s.Behind priority → s.Near waiting p →
      (Session.pushAll priority frames s).Near (waiting ++ weighed priority frames s) p
  | [], s, waiting, _, _, _, _, hnear => by
    rw [weighed, List.append_nil]
    exact hnear
  | frame :: frames, s, waiting, h, hapart, hstep, hahead, hnear => by
    have hrest := pushAll_near_other hp frames (h.push hstep frame).1 (pushOutgoingEncap_apart hapart frame priority)
      (h.push_inStep hstep frame) (push_not_behind hapart hstep frame) (h.push_near_other hp hahead hnear frame)
    rwa [List.append_assoc] at hrest

/-- The condition is exact: when it fails, the order is broken by the packet, or by the next one of its priority. -/
theorem not_ordered_of_not_inStep (hapart : Apart s.outgoingPacketNextWeights) (hnot : ¬ s.InStep waiting priority)
    (frame next : EncapsulatedPacket) : ¬ (waiting ++ weighed priority [frame, next] s).Pairwise fun e e' =>
      e.priority = e'.priority → e.queued.weight ≤ e'.queued.weight := by
  intro horder
  rw [List.pairwise_append] at horder
  obtain ⟨-, hnew, hcross⟩ := horder
  obtain ⟨weight, weights, hweighed, heq⟩ := s.getNextWeight_cases priority
  cases hweighed with
  | drained hempty =>
    rw [InStep, hempty, if_pos rfl] at hnot
    have hstale := (hapart priority).resolve_left hnot
    -- the next packet finds the counters reset and the weight of the first one in `last_min_weight`
    have hpush : s.pushOutgoingEncap frame priority = { s with
        outgoingPacketNextWeights := initialWeight
        lastMinWeight := minWeight priority (s.outgoingPacketNextWeights priority)
        outgoingHeap := s.outgoingHeap.push QueuedEncap.le ⟨s.outgoingPacketNextWeights priority, frame⟩ } := by
      unfold pushOutgoingEncap
      rw [heq]
    obtain ⟨weight', weights', hweighed', heq'⟩ := (s.pushOutgoingEncap frame priority).getNextWeight_cases priority
    have hle : s.outgoingPacketNextWeights priority ≤ weight' := by
      have hpair := List.rel_of_pairwise_cons hnew (List.mem_singleton_self _) rfl
      rwa [heq, heq'] at hpair
    rw [hpush] at hweighed'
    have hlevel : priority.asIndex ≤ (1 <<< priority.asIndex) * priority.asIndex := by cases priority <;> decide
    cases hweighed' with
    | drained hempty' =>
      rw [BinaryHeap.isEmpty_push] at hempty'
      cases hempty'
    | behind _ _ =>
      unfold initialWeight at hle
      dsimp only at hle
      omega
    | based _ hbase =>
      unfold minWeight initialWeight at hbase
      dsimp only at hbase
      omega
  | behind hempty hlt =>
    rw [InStep, hempty, if_neg Bool.false_ne_true] at hnot
    exact hnot fun hle => absurd hle (Nat.not_le_of_lt hlt)
  | based hempty hle =>
    rw [InStep, hempty, if_neg Bool.false_ne_true] at hnot
    refine hnot fun _ e he hp => ?_
    have hweight := hcross e he _ (List.mem_cons_self ..) hp
    rw [heq] at hweight
    unfold initialWeight at hweight
    unfold minWeight
    dsimp only at hweight
    omega

end Ordered

/-! ## Runs -/

/-- A session together with what waits in its heap. A priority is `lowered` when, since a packet of it was last
queued, a packet of another was queued whose counter was behind `last_min_weight`. -/
structure Backlog (F : Type) where
  session : Session F
  waiting : List Waiting
  lowered : RakPriority → Bool

namespace Backlog

/-- Queueing and building. `left` is what still waits after a datagram was built. -/
inductive Op where
  | queuePacket (pkt : RaknetPacket) (reliability : Reliability) (channel : UInt8) (priority : RakPriority)
  | buildDataDatagram (now : Instant) (left : List Waiting)

variable [Float64 F]

def new (mtu : Nat) (tunables : SessionTunables) : Backlog F := ⟨withTunables mtu tunables, [], fun _ => false⟩

/-- The priorities that are lowered when a packet of `priority` has been queued; on an empty heap no other
packet waits. -/
def lower (x : Backlog F) (priority p : RakPriority) : Bool :=
  p ≠ priority && !x.session.outgoingHeap.isEmpty && (x.lowered p || x.session.Behind priority)

def step (x : Backlog F) : Op → Backlog F
  | .queuePacket pkt reliability channel priority =>
    match x.session.message pkt reliability channel with
    | some m =>
      ⟨(x.session.queuePacket pkt reliability channel priority).2, x.waiting ++ weighed priority m.frames x.session,
        x.lower priority⟩
    | none => x
  | .buildDataDatagram now left => { x with session := (x.session.buildDataDatagram now).2, waiting := left }

/-- `left` is what waited before, in the same order, less the packets of the datagram. -/
def Tracks (x : Backlog F) : Op → Prop
  | .queuePacket .. => True
  | .buildDataDatagram now left =>
    left <+ x.waiting ∧ (left.map Waiting.queued).Perm (x.session.buildDataDatagram now).2.outgoingHeap.data

instance (x : Backlog F) : ∀ op, Decidable (x.Tracks op)
  | .queuePacket .. => inferInstanceAs (Decidable True)
  | .buildDataDatagram .. => inferInstanceAs (Decidable (_ ∧ _))

/-- A packet that is queued on an empty heap finds the counter of its priority at its base weight. A packet that
is weighed from `last_min_weight` while one of its priority waits finds that no packet of another priority has
been weighed by a counter behind it since. -/
def InStep (x : Backlog F) : Op → Prop
  | .queuePacket pkt reliability channel priority =>
    (x.session.message pkt reliability channel).isSome →
      if x.session.outgoingHeap.isEmpty then x.session.outgoingPacketNextWeights priority = initialWeight priority
      else
        x.session.lastMinWeight ≤ x.session.outgoingPacketNextWeights priority →
          (∃ e ∈ x.waiting, e.priority = priority) → x.lowered priority = false
  | .buildDataDatagram .. => True

instance (x : Backlog F) : ∀ op, Decidable (x.InStep op)
  | .queuePacket .. => by
    unfold InStep
    infer_instance
  | .buildDataDatagram .. => inferInstanceAs (Decidable True)

theorem buildDataDatagram_weights (s : Session F) (now : Instant) :
    (s.buildDataDatagram now).2.outgoingPacketNextWeights = s.outgoingPacketNextWeights ∧
      (s.buildDataDatagram now).2.lastMinWeight = s.lastMinWeight := by
  obtain ⟨_, _, _, _, hframe⟩ := s.buildDataDatagram_frame now
  rw [hframe]
  exact ⟨rfl, rfl⟩

theorem step_apart {x : Backlog F} (h : Apart x.session.outgoingPacketNextWeights) (op : Op) :
    Apart (x.step op).session.outgoingPacketNextWeights := by
  cases op with
  | queuePacket pkt reliability channel priority =>
    rw [step]
    cases hm : x.session.message pkt reliability channel with
    | none => exact h
    | some m =>
      dsimp only
      rw [queuePacket_eq hm]
      exact pushAll_apart priority m.frames h
  | buildDataDatagram now left =>
    rw [step, (buildDataDatagram_weights x.session now).1]
    exact h

/-- What waits is in order, and `last_min_weight` is near for every priority that is not lowered. -/
structure Steady (x : Backlog F) : Prop where
  ordered : x.session.Ordered x.waiting
  apart : Apart x.session.outgoingPacketNextWeights
  near : ∀ p, x.lowered p = false → x.session.Near x.waiting p

namespace Steady

variable {x : Backlog F}

omit [Float64 F] in
theorem inStep (h : x.Steady) {pkt : RaknetPacket} {reliability : Reliability} {channel : UInt8}
    {priority : RakPriority} {m : Message} (hm : x.session.message pkt reliability channel = some m)
    (hstep : x.InStep (.queuePacket pkt reliability channel priority)) : x.session.InStep x.waiting priority := by
  have hguard := hstep (by rw [hm]; rfl)
  unfold Session.InStep
  split
  · rename_i hempty
    rwa [if_pos hempty] at hguard
  · rename_i hfull
    rw [if_neg hfull] at hguard
    intro hle e he hp
    exact h.near priority (hguard hle ⟨e, he, hp⟩) e he hp

omit [Float64 F] in
theorem queue (h : x.Steady) {pkt : RaknetPacket} {reliability : Reliability} {channel : UInt8} {priority : RakPriority}
    {m : Message} (hm : x.session.message pkt reliability channel = some m)
    (hstep : x.session.InStep x.waiting priority) :
    Steady
    ⟨(x.session.queuePacket pkt reliability channel priority).2, x.waiting ++ weighed priority m.frames x.session,
      x.lower priority⟩ := by
  rw [queuePacket_eq hm]
  have hpushed := h.ordered.pushAll m.frames hstep
  refine ⟨⟨hpushed.heap, hpushed.counters, hpushed.order⟩, pushAll_apart priority m.frames h.apart, fun p hp => ?_⟩
  by_cases hsame : p = priority
  · subst hsame
    exact Ordered.pushAll_near (message_frames_ne_nil hm) h.ordered hstep
  · -- the counter was not behind, or the heap was empty
    have hahead : ¬ x.session.Behind priority ∧ x.session.Near x.waiting p := by
      cases hempty : x.session.outgoingHeap.isEmpty with
      | true =>
        exact ⟨fun hbehind => absurd (hempty.symm.trans hbehind.1) (by decide), h.ordered.near_of_isEmpty hempty p⟩
      | false =>
        simp only [lower, ne_eq, hsame, not_false_eq_true, decide_true, hempty, Bool.not_false, Bool.and_self,
          Bool.true_and, Bool.or_eq_false_iff, decide_eq_false_iff_not] at hp
        exact ⟨hp.2, h.near p hp.1⟩
    exact Ordered.pushAll_near_other hsame m.frames h.ordered h.apart hstep hahead.1 hahead.2

theorem build (h : x.Steady) {now : Instant} {left : List Waiting} (htracks : x.Tracks (.buildDataDatagram now left)) :
    (x.step (.buildDataDatagram now left)).Steady := by
  obtain ⟨hsub, hperm⟩ := htracks
  obtain ⟨hweights, hmin⟩ := buildDataDatagram_weights x.session now
  refine ⟨⟨hperm, fun e he => ?_, h.ordered.order.sublist hsub⟩, step_apart h.apart _, fun p hp e he hep => ?_⟩
  · rw [step, hweights]
    exact h.ordered.counters e (hsub.subset he)
  · rw [step, hmin]
    exact h.near p hp e (hsub.subset he) hep

theorem step (h : x.Steady) {op : Op} (htracks : x.Tracks op) (hstep : x.InStep op) : (x.step op).Steady := by
  cases op with
  | queuePacket pkt reliability channel priority =>
    rw [Backlog.step]
    cases hm : x.session.message pkt reliability channel with
    | none => exact h
    | some m => exact h.queue hm (h.inStep hm hstep)
  | buildDataDatagram now left => exact h.build htracks

end Steady

/-- What still waits can be told after every build. -/
theorem exists_tracks {x : Backlog F} (h : (x.waiting.map Waiting.queued).Perm x.session.outgoingHeap.data)
    (now : Instant) : ∃ left, x.Tracks (.buildDataDatagram now left) := by
  obtain ⟨kept, hkept, hsub⟩ := (x.session.buildDataDatagram_subperm now).trans h.symm.subperm
  obtain ⟨left, hleft, rfl⟩ := List.sublist_map_iff.1 hsub
  exact ⟨left, hleft, hkept⟩

/-- Packets of one priority are not overtaken in a run in which every packet that is queued meets the condition:
of two that wait in the heap, the one queued earlier weighs no more. -/
theorem waiting_ordered (mtu : Nat) (tunables : SessionTunables) (ops : List Op)
    (htracks : Machine.Along step Tracks (new mtu tunables : Backlog F) ops)
    (hstep : Machine.Along step InStep (new mtu tunables : Backlog F) ops) :
    ((Machine.run step (new mtu tunables : Backlog F) ops).waiting.map Waiting.queued).Perm
        (Machine.run step (new mtu tunables : Backlog F) ops).session.outgoingHeap.data ∧
      (Machine.run step (new mtu tunables : Backlog F) ops).waiting.Pairwise fun e e' =>
        e.priority = e'.priority → e.queued.weight ≤ e'.queued.weight := by
  have hnew : (new mtu tunables : Backlog F).Steady :=
    ⟨⟨List.Perm.refl _, fun e he => (by cases he), List.Pairwise.nil⟩, fun _ => .inl rfl, fun _ _ e he => (by cases he)⟩
  have hrun := (Machine.run_inv (P := Steady) (fun x op h hc => h.step hc.1 hc.2) ops hnew (htracks.and hstep)).ordered
  exact ⟨hrun.heap, hrun.order⟩

/-- Two normal packets and two high ones behind them: they weigh 10 and 14, and 3 and 5. -/
theorem waiting_ordered_normal :
    (Machine.run step (new 1400 {} : Backlog ℚ) ([.normal, .normal, .high, .high].map fun priority =>
      .queuePacket .detectLostConnection .reliable 0 priority)).waiting.Pairwise fun e e' =>
        e.priority = e'.priority → e.queued.weight ≤ e'.queued.weight :=
  (waiting_ordered 1400 {} _ (by decide +kernel) (by decide +kernel)).2

/-- In every run, where a packet cannot be weighed in order, the order is broken by it or by the next packet of its
priority. -/
theorem not_ordered_next (mtu : Nat) (tunables : SessionTunables) (ops : List Op) (priority : RakPriority)
    (hnot : ¬ (Machine.run step (new mtu tunables : Backlog F) ops).session.InStep
      (Machine.run step (new mtu tunables : Backlog F) ops).waiting priority) (frame next : EncapsulatedPacket) :
    ¬ ((Machine.run step (new mtu tunables : Backlog F) ops).waiting ++
        weighed priority [frame, next] (Machine.run step (new mtu tunables : Backlog F) ops).session).Pairwise
      fun e e' => e.priority = e'.priority → e.queued.weight ≤ e'.queued.weight :=
  Ordered.not_ordered_of_not_inStep
    (Machine.run_inv_all (P := fun x : Backlog F => Apart x.session.outgoingPacketNextWeights)
      (fun _ op h => step_apart h op) ops fun _ => .inl rfl) hnot frame next

/-- A low, two high, an immediate and a high packet: the third high packet weighs 3, the second 5. The first high packet
and the immediate one are weighed by their counters, which moves `last_min_weight` from 6 to 2 and from 4 to 0. -/
theorem not_ordered_lowered : ¬ ∀ ops, Machine.Along step Tracks (new 1400 {} : Backlog ℚ) ops →
    (Machine.run step (new 1400 {} : Backlog ℚ) ops).waiting.Pairwise fun e e' =>
      e.priority = e'.priority → e.queued.weight ≤ e'.queued.weight := by
  intro h
  have hops := h ([.low, .high, .high, .immediate, .high].map fun priority =>
    .queuePacket .detectLostConnection .reliable 0 priority)
  revert hops
  decide +kernel

end Backlog

end BedrockRs.Raknet.Session

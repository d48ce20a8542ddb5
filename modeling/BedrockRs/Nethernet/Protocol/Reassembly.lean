/-
What the accumulator of `protocol/message.rs` makes of a sequence of segments. Splitting and feeding
the segments back gives the message; on the segments of an arbitrary peer, the accumulator keeps the
bytes of one countdown, unless a countdown starts at 255.
-/
import BedrockRs.Nethernet.Protocol.Message

namespace BedrockRs.Nethernet

open Lib

theorem ofNat_succ_ne_zero {k : Nat} (h : k ≤ 254) : UInt8.ofNat (k + 1) ≠ 0 := by
  intro hzero
  have := congrArg UInt8.toNat hzero
  rw [toNat_ofNat_small (by omega)] at this
  cases this

namespace Message

variable {p : Profile}

/-! ## One segment -/

/-- The segment continues the countdown, or starts one that can be counted. -/
def Awaits (m : Message) (s : MessageSegment) : Prop :=
  if m.expectedSegments = 0 then s.remainingSegments ≠ 255 else m.expectedSegments = s.remainingSegments + 1

instance (m : Message) (s : MessageSegment) : Decidable (m.Awaits s) := by
  unfold Awaits
  infer_instance

/-- A segment that starts a countdown at 255. -/
def Overflows (m : Message) (s : MessageSegment) : Prop := m.expectedSegments = 0 ∧ s.remainingSegments = 255

instance (m : Message) (s : MessageSegment) : Decidable (m.Overflows s) := inferInstanceAs (Decidable (_ ∧ _))

theorem pos_of_ne_zero {a : UInt8} (h : a ≠ 0) : 0 < a := by
  have : a.toNat ≠ 0 := fun hzero => h (UInt8.toNat_inj.1 hzero)
  exact UInt8.lt_iff_toNat_lt.2 (Nat.pos_of_ne_zero this)

theorem add_one_ne_zero {a : UInt8} (h : a ≠ 255) : a + 1 ≠ 0 := by
  intro hzero
  exact h (by rw [← UInt8.add_sub_cancel a 1, hzero]; rfl)

/-- The check of the countdown, once it is set up. -/
theorem addSegment_of_expect {m m' : Message} {s : MessageSegment} (h : m.expect p s = some m')
    (hpos : m'.expectedSegments = s.remainingSegments + 1) (hne : s.remainingSegments ≠ 255) :
    m.addSegment p s = some (append ⟨s.remainingSegments, m'.data⟩ s) := by
  have hne0 : m'.expectedSegments ≠ 0 := by
    rw [hpos]
    exact add_one_ne_zero hne
  have hsub : m'.expectedSegments - 1 = s.remainingSegments := by rw [hpos, UInt8.add_sub_cancel]
  simp [addSegment, h, pos_of_ne_zero hne0, Profile.subU8_one p hne0, hsub]

theorem addSegment_awaits {m : Message} {s : MessageSegment} (h : m.Awaits s) :
    m.addSegment p s = some (append ⟨s.remainingSegments, m.data⟩ s) := by
  unfold Awaits at h
  by_cases hfresh : m.expectedSegments = 0
  · rw [if_pos hfresh] at h
    by_cases hlast : s.remainingSegments = 0
    · simp [addSegment, expect, hfresh, hlast, append]
    · have hexpect : m.expect p s = some ⟨s.remainingSegments + 1, m.data⟩ := by
        simp [expect, hfresh, pos_of_ne_zero hlast, Profile.addU8_one p h]
      rw [addSegment_of_expect hexpect rfl h]
  · rw [if_neg hfresh] at h
    have hexpect : m.expect p s = some m := by simp [expect, hfresh]
    refine addSegment_of_expect hexpect h fun h255 => hfresh ?_
    rw [h, h255]
    rfl

/-- A segment out of order empties the accumulator. -/
theorem addSegment_out_of_order {m : Message} {s : MessageSegment} (hbusy : m.expectedSegments ≠ 0)
    (h : m.expectedSegments ≠ s.remainingSegments + 1) :
    m.addSegment p s = some (new, .error (.messageParse
      s!"Invalid segment sequence: expected {m.expectedSegments - 1}, got {s.remainingSegments}")) := by
  have hsub : m.expectedSegments - 1 ≠ s.remainingSegments := by
    rintro heq
    exact h (by rw [← heq, UInt8.sub_add_cancel])
  simp [addSegment, expect, hbusy, pos_of_ne_zero hbusy, Profile.subU8_one p hbusy, hsub]

theorem addSegment_overflows_dev {m : Message} {s : MessageSegment} (h : m.Overflows s) :
    m.addSegment .dev s = none := by
  have hpos : (0 : UInt8) < 255 := by decide
  have hnone : Profile.addU8 .dev 255 1 = none := rfl
  simp [addSegment, expect, h.1, h.2, hpos, hnone]

/-- In a release build the counter wraps to zero and the bytes stay behind. -/
theorem addSegment_overflows_release {m : Message} {s : MessageSegment} (h : m.Overflows s) :
    m.addSegment .release s = some (⟨0, m.data ++ s.data⟩, .ok none) := by
  have hpos : (0 : UInt8) < 255 := by decide
  have hwrap : Profile.addU8 .release 255 1 = some 0 := rfl
  simp [addSegment, expect, h.1, h.2, hpos, hwrap, append]

/-! ## A sequence of segments -/

/-- The accumulator after the segments, and what each call returned. -/
def feed (p : Profile) : Message → List MessageSegment → Option (Message × List (Except NethernetError (Option Bytes)))
  | m, [] => some (m, [])
  | m, s :: segments => do
    let (m, r) ← m.addSegment p s
    let (m, results) ← feed p m segments
    return (m, r :: results)

theorem feed_cons {m m' : Message} {s : MessageSegment} {r : Except NethernetError (Option Bytes)}
    (h : m.addSegment p s = some (m', r)) (segments : List MessageSegment) :
    feed p m (s :: segments) = (feed p m' segments).map fun out => (out.1, r :: out.2) := by
  simp [feed, h, Option.map_eq_bind]

theorem feed_append {m m' : Message} {results : List (Except NethernetError (Option Bytes))} :
    ∀ {as : List MessageSegment}, feed p m as = some (m', results) → ∀ bs,
      feed p m (as ++ bs) = (feed p m' bs).map fun out => (out.1, results ++ out.2) := by
  intro as
  induction as generalizing m results with
  | nil =>
    intro h bs
    cases h
    simp
  | cons s as ih =>
    intro h bs
    cases hadd : m.addSegment p s with
    | none => simp [feed, hadd] at h
    | some out =>
      obtain ⟨next, r⟩ := out
      rw [feed_cons hadd] at h
      obtain ⟨⟨last, rest⟩, hrest, hout⟩ := Option.map_eq_some_iff.1 h
      cases hout
      rw [List.cons_append, feed_cons hadd, ih hrest bs, Option.map_map]
      rfl

theorem feed_concat {m m' : Message} {results : List (Except NethernetError (Option Bytes))} {as : List MessageSegment}
    (h : feed p m as = some (m', results)) (s : MessageSegment) :
    feed p m (as ++ [s]) = (m'.addSegment p s).map fun out => (out.1, results ++ [out.2]) := by
  rw [feed_append h]
  cases hadd : m'.addSegment p s with
  | none => simp [feed, hadd]
  | some out =>
    rw [feed_cons hadd]
    rfl

theorem length_feed {m m' : Message} {results : List (Except NethernetError (Option Bytes))} :
    ∀ {segments : List MessageSegment}, feed p m segments = some (m', results) → results.length = segments.length := by
  intro segments
  induction segments generalizing m results with
  | nil =>
    intro h
    cases h
    rfl
  | cons s segments ih =>
    intro h
    cases hadd : m.addSegment p s with
    | none => simp [feed, hadd] at h
    | some out =>
      rw [feed_cons hadd] at h
      obtain ⟨⟨last, rest⟩, hrest, hout⟩ := Option.map_eq_some_iff.1 h
      cases hout
      simp [ih hrest]

/-! ## Splitting -/

/-- The segments of `data` as a countdown from `k`: full ones, then the rest. -/
def countdown : Nat → Bytes → List MessageSegment
  | 0, data => [⟨0, data⟩]
  | k + 1, data => ⟨UInt8.ofNat (k + 1), data.take maxMessageSize⟩ :: countdown k (data.drop maxMessageSize)

theorem length_countdown (k : Nat) (data : Bytes) : (countdown k data).length = k + 1 := by
  induction k generalizing data with
  | zero => rfl
  | succ k ih => simp [countdown, ih]

theorem countdown_remaining (k : Nat) (data : Bytes) :
    (countdown k data).map (·.remainingSegments) = (List.range (k + 1)).reverse.map UInt8.ofNat := by
  induction k generalizing data with
  | zero => rfl
  | succ k ih =>
    rw [List.range_succ, List.reverse_append]
    simp [countdown, ih]

theorem length_data_of_mem_countdown {k : Nat} {data : Bytes} (hlo : maxMessageSize * k < data.length)
    (hhi : data.length ≤ maxMessageSize * (k + 1)) :
    ∀ s ∈ countdown k data, 1 ≤ s.data.length ∧ s.data.length ≤ maxMessageSize := by
  induction k generalizing data with
  | zero =>
    intro s hs
    obtain rfl := List.mem_singleton.1 hs
    exact ⟨Nat.succ_le_of_lt (by simpa using hlo), by simpa using hhi⟩
  | succ k ih =>
    intro s hs
    rw [Nat.mul_succ] at hlo hhi
    rcases List.mem_cons.1 hs with rfl | hs
    · have hsize : 1 ≤ maxMessageSize := by decide
      simp only [List.length_take]
      omega
    · refine ih ?_ ?_ s hs <;> (rw [List.length_drop]; omega)

/-- The splitting loop takes the full segments off and leaves the last one. -/
theorem splitLoop_eq {k : Nat} {data : Bytes} (hk : k ≤ 254) (hlo : maxMessageSize * k < data.length)
    (hhi : data.length ≤ maxMessageSize * (k + 1)) :
    ∃ last, last ≠ [] ∧ ∃ segments, splitLoop p (UInt8.ofNat (k + 1)) data = some (segments, 1, last) ∧
      segments ++ [⟨0, last⟩] = countdown k data := by
  induction k generalizing data with
  | zero =>
    have hlast : data ≠ [] := List.ne_nil_of_length_pos (by omega)
    refine ⟨data, hlast, [], ?_, rfl⟩
    rw [splitLoop, if_neg (by omega)]
    rfl
  -- one full segment is taken off, and the counter goes down by one without wrapping
  | succ k ih =>
    rw [Nat.mul_succ] at hlo hhi
    have hlo' : maxMessageSize * k < (data.drop maxMessageSize).length := by
      rw [List.length_drop]
      omega
    have hhi' : (data.drop maxMessageSize).length ≤ maxMessageSize * (k + 1) := by
      rw [List.length_drop]
      omega
    obtain ⟨last, hlast, segments, hloop, hcount⟩ := ih (by omega) hlo' hhi'
    refine ⟨last, hlast, ⟨UInt8.ofNat (k + 1), data.take maxMessageSize⟩ :: segments, ?_, ?_⟩
    · have hne : UInt8.ofNat (k + 1 + 1) ≠ 0 := ofNat_succ_ne_zero (by omega)
      have hsub : UInt8.ofNat (k + 1 + 1) - 1 = UInt8.ofNat (k + 1) := by
        rw [UInt8.ofNat_add (k + 1) 1]
        exact UInt8.add_sub_cancel _ 1
      rw [splitLoop, if_pos (by omega), Profile.subU8_one p hne, hsub]
      simp only [Option.bind_eq_bind, Option.bind_some, hloop]
      rfl
    · rw [List.cons_append, hcount]
      rfl

/-- How many segments a message of `len` bytes takes after the first. -/
theorem exists_segments {len : Nat} (hpos : 1 ≤ len) (hlen : len ≤ 2550000) :
    ∃ k ≤ 254, maxMessageSize * k < len ∧ len ≤ maxMessageSize * (k + 1) := by
  refine ⟨(len - 1) / maxMessageSize, ?_, ?_, ?_⟩ <;> (unfold maxMessageSize; omega)

theorem ceilDiv_segments {k len : Nat} (hlo : maxMessageSize * k < len) (hhi : len ≤ maxMessageSize * (k + 1)) :
    len ⌈/⌉ maxMessageSize = k + 1 := by
  unfold maxMessageSize at *
  rw [Nat.ceilDiv_eq_add_pred_div]
  omega

theorem splitIntoSegments_eq {k : Nat} {data : Bytes} (hk : k ≤ 254) (hlo : maxMessageSize * k < data.length)
    (hhi : data.length ≤ maxMessageSize * (k + 1)) :
    splitIntoSegments p data = some (.ok (countdown k data)) := by
  cases k with
  | zero =>
    rw [splitIntoSegments, if_pos (by simpa using hhi)]
    rfl
  | succ k =>
    have hlong : ¬ data.length ≤ maxMessageSize := by
      rw [Nat.mul_succ] at hlo
      omega
    obtain ⟨last, hlast, segments, hloop, hcount⟩ := splitLoop_eq (p := p) hk hlo hhi
    have hone : p.subU8 1 1 = some 0 := Profile.subU8_one p (by decide)
    rw [splitIntoSegments, if_neg hlong, ceilDiv_segments hlo hhi, if_neg (by omega), hloop, ← hcount]
    simp [hlast, hone, Profile.debugAssert]

theorem splitIntoSegments_too_large {data : Bytes} (h : 2550000 < data.length) :
    splitIntoSegments p data = some (.error (.messageTooLarge data.length)) := by
  have hcount : 255 < data.length ⌈/⌉ maxMessageSize := by
    rw [Nat.ceilDiv_eq_add_pred_div, maxMessageSize]
    omega
  rw [splitIntoSegments, if_neg (by unfold maxMessageSize; omega), if_pos hcount]

theorem awaits_ofNat {m : Message} {n : Nat} (bytes : Bytes) (hn : n ≤ 254)
    (hm : m.expectedSegments = 0 ∨ m.expectedSegments = UInt8.ofNat (n + 1)) : m.Awaits ⟨UInt8.ofNat n, bytes⟩ := by
  unfold Awaits
  split_ifs with hfresh
  · intro h255
    have := congrArg UInt8.toNat h255
    rw [toNat_ofNat_small (by omega)] at this
    change n = 255 at this
    omega
  · rw [hm.resolve_left hfresh, UInt8.ofNat_add]
    rfl

/-- The segments of a message, fed to an accumulator that is fresh or waits for the first of them. -/
theorem feed_countdown {k : Nat} (hk : k ≤ 254) : ∀ {m : Message} (data : Bytes),
    m.expectedSegments = 0 ∨ m.expectedSegments = UInt8.ofNat (k + 1) →
      feed p m (countdown k data) =
        some (new, List.replicate k (.ok none) ++ [.ok (some (m.data ++ data))]) := by
  induction k with
  | zero =>
    intro m data hm
    have hlast : m.addSegment p ⟨0, data⟩ = some (new, .ok (some (m.data ++ data))) :=
      addSegment_awaits (awaits_ofNat data hk hm)
    rw [countdown, feed_cons hlast]
    rfl
  | succ k ih =>
    intro m data hm
    have hfirst := addSegment_awaits (p := p) (awaits_ofNat (data.take maxMessageSize) hk hm)
    simp only [append, if_neg (ofNat_succ_ne_zero (by omega : k ≤ 254))] at hfirst
    rw [countdown, feed_cons hfirst, ih (by omega) _ (.inr rfl)]
    simp [List.replicate_succ]

/-- Segmentation round trip: a message of up to 255 full segments is split into a countdown of segments
that are neither empty nor too long, that survive the wire, and that give the message back with the last
of them, leaving the accumulator fresh; a longer one is refused. -/
theorem splitIntoSegments_roundTrip (p : Profile) (data : Bytes) :
    (1 ≤ data.length ∧ data.length ≤ 2550000 → ∃ segments, splitIntoSegments p data = some (.ok segments) ∧
      segments.length = max 1 (data.length ⌈/⌉ 10000) ∧
      segments.map (·.remainingSegments) = (List.range segments.length).reverse.map UInt8.ofNat ∧
      (∀ s ∈ segments, 1 ≤ s.data.length ∧ s.data.length ≤ 10000) ∧
      segments.map (fun s => MessageSegment.decode s.encode) = segments.map .ok ∧
      feed p new segments = some (new, List.replicate (segments.length - 1) (.ok none) ++ [.ok (some data)])) ∧
    (2550000 < data.length → splitIntoSegments p data = some (.error (.messageTooLarge data.length))) := by
  constructor
  · rintro ⟨hpos, hlen⟩
    obtain ⟨k, hk, hlo, hhi⟩ := exists_segments hpos hlen
    have hsizes := length_data_of_mem_countdown hlo hhi
    have hcount : (countdown k data).length = k + 1 := length_countdown k data
    refine ⟨countdown k data, splitIntoSegments_eq hk hlo hhi, ?_, ?_, hsizes, ?_, ?_⟩
    · rw [hcount, show (10000 : Nat) = maxMessageSize from rfl, ceilDiv_segments hlo hhi]
      omega
    · rw [hcount]
      exact countdown_remaining k data
    · refine List.map_congr_left fun s hs => MessageSegment.decode_encode ?_
      exact List.ne_nil_of_length_pos (hsizes s hs).1
    · rw [hcount, feed_countdown hk data (.inl rfl)]
      rfl
  · exact splitIntoSegments_too_large

/-! ## The segments of any peer -/

/-- Consecutive segments that count down to `left`. -/
def CountsTo (left : UInt8) (run : List MessageSegment) : Prop :=
  run.map (·.remainingSegments.toNat) = (List.range' left.toNat run.length).reverse

/-- `data` is what the last of the segments completes: the bytes of a countdown to zero, the first segment
of which met a fresh accumulator. -/
def Completes (p : Profile) (segments : List MessageSegment) (data : Bytes) : Prop :=
  ∃ earlier run results, segments = earlier ++ run ∧ feed p new earlier = some (new, results) ∧
    CountsTo 0 run ∧ data = run.flatMap (·.data)

/-- The calls return, after every one of them no segments are expected exactly when the buffer is empty,
and a message holds the bytes of its own countdown only. -/
def Safe (p : Profile) (segments : List MessageSegment) : Prop :=
  ∀ before s, before ++ [s] <+: segments → ∃ m results r, feed p new (before ++ [s]) = some (m, results ++ [r]) ∧
    (m.expectedSegments = 0 ↔ m.data = []) ∧ ∀ data, r = .ok (some data) → Completes p (before ++ [s]) data

/-- No segment starts a countdown at 255. -/
def Countable (segments : List MessageSegment) : Prop :=
  ∀ before s, before ++ [s] <+: segments → ∀ m results, feed .release new before = some (m, results) → ¬ m.Overflows s

/-- The accumulator holds the bytes of `run`, the countdown that is under way after `earlier`. -/
structure Holds (earlier run : List MessageSegment) (m : Message) : Prop where
  feed_earlier : ∀ p, ∃ results, feed p new earlier = some (new, results)
  counts : CountsTo m.expectedSegments run
  data : m.data = run.flatMap (·.data)
  fresh : m.expectedSegments = 0 ↔ run = []
  nonempty : ∀ s ∈ run, s.data ≠ []

theorem Holds.empty_iff {earlier run : List MessageSegment} {m : Message} (h : Holds earlier run m) :
    m.expectedSegments = 0 ↔ m.data = [] := by
  rw [h.fresh, h.data, List.flatMap_eq_nil_iff]
  constructor
  · rintro rfl s hs
    cases hs
  · intro hnil
    refine List.eq_nil_iff_forall_not_mem.2 fun s hs => ?_
    exact h.nonempty s hs (hnil s hs)

theorem holds_new {earlier : List MessageSegment} (h : ∀ p, ∃ results, feed p new earlier = some (new, results)) :
    Holds earlier [] new := by
  refine ⟨h, rfl, rfl, ?_, ?_⟩
  · simp [new]
  · simp

theorem CountsTo.concat {left : UInt8} {run : List MessageSegment} {s : MessageSegment} (h : CountsTo left run)
    (hs : run = [] ∨ left.toNat = s.remainingSegments.toNat + 1) : CountsTo s.remainingSegments (run ++ [s]) := by
  unfold CountsTo at *
  rcases hs with rfl | hs
  · rfl
  · rw [List.map_append, h, hs, List.length_append, List.length_singleton, List.range'_succ, List.reverse_cons]
    rfl

/-- A segment that is awaited continues the countdown, or there is none. -/
theorem CountsTo.concat_of_awaits {run : List MessageSegment} {m : Message} {s : MessageSegment}
    (h : CountsTo m.expectedSegments run) (hfresh : m.expectedSegments = 0 → run = []) (hs : m.Awaits s) :
    CountsTo s.remainingSegments (run ++ [s]) := by
  refine h.concat ?_
  unfold Awaits at hs
  split_ifs at hs with hzero
  · exact .inl (hfresh hzero)
  · right
    have hne : s.remainingSegments ≠ 255 := by
      intro h255
      rw [hs, h255] at hzero
      exact hzero rfl
    have hlt : s.remainingSegments.toNat ≠ 255 := fun heq => hne (UInt8.toNat_inj.1 heq)
    have := s.remainingSegments.toNat_lt
    rw [hs, UInt8.toNat_add, show (1 : UInt8).toNat = 1 from rfl]
    omega

/-- A segment that is neither awaited nor the overflowing one meets a countdown it does not continue. -/
theorem out_of_order_of_not_awaits {m : Message} {s : MessageSegment} (h : ¬ m.Awaits s) (hs : ¬ m.Overflows s) :
    m.expectedSegments ≠ 0 ∧ m.expectedSegments ≠ s.remainingSegments + 1 := by
  have hbusy : m.expectedSegments ≠ 0 := by
    intro hzero
    refine h ?_
    rw [Awaits, if_pos hzero]
    exact fun h255 => hs ⟨hzero, h255⟩
  refine ⟨hbusy, fun heq => h ?_⟩
  rwa [Awaits, if_neg hbusy]

theorem feed_concat_new {segments : List MessageSegment} {m : Message} {s : MessageSegment}
    {r : Except NethernetError (Option Bytes)} (hfeed : ∀ p, ∃ results, feed p new segments = some (m, results))
    (hadd : ∀ p, m.addSegment p s = some (new, r)) :
    ∀ p, ∃ results, feed p new (segments ++ [s]) = some (new, results) := by
  intro p
  obtain ⟨results, hp⟩ := hfeed p
  exact ⟨results ++ [r], by rw [feed_concat hp, hadd p]; rfl⟩

/-- One call on a segment that is not the overflowing one: both builds do the same, and the accumulator
again holds the countdown under way. -/
theorem Holds.step {earlier run : List MessageSegment} {m : Message} {s : MessageSegment} (h : Holds earlier run m)
    (hfeed : ∀ p, ∃ results, feed p new (earlier ++ run) = some (m, results)) (hdata : s.data ≠ [])
    (hs : ¬ m.Overflows s) :
    ∃ m' r, (∀ p, m.addSegment p s = some (m', r)) ∧
      (∃ earlier' run', earlier ++ run ++ [s] = earlier' ++ run' ∧ Holds earlier' run' m') ∧
      ∀ data, r = .ok (some data) → ∀ p, Completes p (earlier ++ run ++ [s]) data := by
  -- the segment continues the countdown, and ends it or not; or it is out of order, and the accumulator starts anew
  by_cases hawaits : m.Awaits s
  · by_cases hlast : s.remainingSegments = 0
    · have hadd : ∀ p, m.addSegment p s = some (new, .ok (some (m.data ++ s.data))) := by
        intro p
        rw [addSegment_awaits hawaits, append, if_pos hlast]
      refine ⟨new, _, hadd, ⟨_, [], (List.append_nil _).symm, holds_new (feed_concat_new hfeed hadd)⟩, ?_⟩
      rintro data hr p
      cases hr
      obtain ⟨results, hp⟩ := h.feed_earlier p
      refine ⟨earlier, run ++ [s], results, List.append_assoc _ _ _, hp, ?_, by simp [h.data]⟩
      rw [← hlast]
      exact h.counts.concat_of_awaits h.fresh.1 hawaits
    · have hadd : ∀ p, m.addSegment p s = some (⟨s.remainingSegments, m.data ++ s.data⟩, .ok none) := by
        intro p
        rw [addSegment_awaits hawaits, append, if_neg hlast]
      refine ⟨_, _, hadd, ⟨earlier, run ++ [s], List.append_assoc _ _ _, ?_⟩, fun data hr => by cases hr⟩
      refine ⟨h.feed_earlier, h.counts.concat_of_awaits h.fresh.1 hawaits, by simp [h.data], by simp [hlast], ?_⟩
      intro s' hs'
      rcases List.mem_append.1 hs' with hs' | hs'
      · exact h.nonempty s' hs'
      · rwa [List.mem_singleton.1 hs']
  · obtain ⟨hbusy, horder⟩ := out_of_order_of_not_awaits hawaits hs
    have hadd := fun p => addSegment_out_of_order (p := p) hbusy horder
    exact ⟨new, _, hadd, ⟨_, [], (List.append_nil _).symm, holds_new (feed_concat_new hfeed hadd)⟩,
      fun data hr => by cases hr⟩

/-- On segments without the overflowing one both builds end in the same accumulator, and it holds the
countdown under way. -/
theorem Countable.holds : ∀ {segments : List MessageSegment}, (∀ s ∈ segments, s.data ≠ []) → Countable segments →
    ∃ m, (∀ p, ∃ results, feed p new segments = some (m, results)) ∧
      ∃ earlier run, segments = earlier ++ run ∧ Holds earlier run m := by
  intro segments
  induction segments using List.reverseRecOn with
  | nil =>
    intro _ _
    exact ⟨new, fun p => ⟨[], rfl⟩, [], [], rfl, holds_new fun p => ⟨[], rfl⟩⟩
  | append_singleton segments s ih =>
    intro hdata hcountable
    obtain ⟨hinit, hlast⟩ := forall_steps_concat.1 hcountable
    obtain ⟨m, hfeed, earlier, run, rfl, hholds⟩ := ih (fun s' hs' => hdata s' (by simp [hs'])) hinit
    obtain ⟨results, hrelease⟩ := hfeed .release
    obtain ⟨m', r, hadd, hnext, -⟩ := hholds.step hfeed (hdata s (by simp)) (hlast m results hrelease)
    refine ⟨m', fun p => ?_, hnext⟩
    obtain ⟨results', hp⟩ := hfeed p
    exact ⟨results' ++ [r], by rw [feed_concat hp, hadd p]; rfl⟩

/-- The call that overflows: a `dev` build stops, a `release` build leaves bytes behind. -/
theorem not_safe_of_overflows {segments : List MessageSegment} {m : Message} {s : MessageSegment}
    {results : List (Except NethernetError (Option Bytes))} (hfeed : feed p new segments = some (m, results))
    (hdata : s.data ≠ []) (hs : m.Overflows s) : ¬ Safe p (segments ++ [s]) := by
  intro hsafe
  obtain ⟨m', results', r, hlast, hempty, -⟩ := hsafe segments s (List.prefix_refl _)
  rw [feed_concat hfeed] at hlast
  cases p with
  | dev =>
    rw [addSegment_overflows_dev hs] at hlast
    cases hlast
  | release =>
    rw [addSegment_overflows_release hs, Option.map_some, Option.some.injEq, Prod.mk.injEq] at hlast
    obtain ⟨rfl, -⟩ := hlast
    exact hdata (List.append_eq_nil_iff.1 (hempty.1 rfl)).2

/-- Accumulator safety: on the segments of any peer, the accumulator is safe exactly when none of them
starts a countdown at 255. -/
theorem addSegment_safe_iff (p : Profile) (packets : List Bytes) (segments : List MessageSegment)
    (h : packets.map MessageSegment.decode = segments.map .ok) : Safe p segments ↔ Countable segments := by
  have hdata : ∀ s ∈ segments, s.data ≠ [] := by
    intro s hs
    obtain ⟨bytes, -, hdec⟩ := List.mem_map.1 (h ▸ List.mem_map_of_mem hs)
    exact MessageSegment.data_ne_nil_of_decode hdec
  clear h
  -- on the segments received so far; the last one decides
  induction segments using List.reverseRecOn with
  | nil => simp [Safe, Countable]
  | append_singleton segments s ih =>
    have hinit := ih fun s' hs' => hdata s' (by simp [hs'])
    constructor
    · intro hsafe
      have hcountable := hinit.1 (forall_steps_concat.1 hsafe).1
      refine forall_steps_concat.2 ⟨hcountable, fun m results hrelease hs => ?_⟩
      obtain ⟨m', hfeed, -⟩ := hcountable.holds fun s' hs' => hdata s' (by simp [hs'])
      obtain ⟨results', hrelease'⟩ := hfeed .release
      rw [hrelease] at hrelease'
      cases hrelease'
      obtain ⟨results', hp⟩ := hfeed p
      exact not_safe_of_overflows hp (hdata s (by simp)) hs hsafe
    · intro hcountable
      have hbefore : Countable segments := (forall_steps_concat.1 hcountable).1
      have hlast := (forall_steps_concat.1 hcountable).2
      refine forall_steps_concat.2 ⟨hinit.2 hbefore, ?_⟩
      obtain ⟨m, hfeed, earlier, run, rfl, hholds⟩ := hbefore.holds fun s' hs' => hdata s' (by simp [hs'])
      obtain ⟨results, hrelease⟩ := hfeed .release
      obtain ⟨m', r, hadd, ⟨earlier', run', heq, hholds'⟩, hcompletes⟩ :=
        hholds.step hfeed (hdata s (by simp)) (hlast m results hrelease)
      obtain ⟨results', hp⟩ := hfeed p
      refine ⟨m', results', r, by rw [feed_concat hp, hadd p]; rfl, hholds'.empty_iff, ?_⟩
      intro data hr
      exact hcompletes data hr p

/-- A message of two segments: safe, since its countdown starts at 1. -/
theorem addSegment_safe_iff_pair : [[1, 5], [0, 6]].map MessageSegment.decode = [⟨1, [5]⟩, ⟨0, [6]⟩].map .ok ∧
    (Safe .dev [⟨1, [5]⟩, ⟨0, [6]⟩] ↔ Countable [⟨1, [5]⟩, ⟨0, [6]⟩]) :=
  ⟨rfl, addSegment_safe_iff .dev [[1, 5], [0, 6]] _ rfl⟩

/-- A peer that counts from 255: a `dev` build stops, and in a `release` build the bytes it sent open the
next message. -/
theorem addSegment_unsafe_255 :
    [[255, 1], [0, 2]].map MessageSegment.decode = [⟨255, [1]⟩, ⟨0, [2]⟩].map .ok ∧
    feed .dev new [⟨255, [1]⟩] = none ∧ feed .release new [⟨255, [1]⟩] = some (⟨0, [1]⟩, [.ok none]) ∧
    feed .release new [⟨255, [1]⟩, ⟨0, [2]⟩] = some (new, [.ok none, .ok (some [1, 2])]) ∧
    ∀ p, ¬ Safe p [⟨255, [1]⟩, ⟨0, [2]⟩] := by
  refine ⟨rfl, rfl, rfl, rfl, fun p hsafe => ?_⟩
  have hfeed : feed p new [] = some (new, []) := rfl
  have hfirst : ¬ Safe p ([] ++ [⟨255, [1]⟩]) := not_safe_of_overflows hfeed (by simp) ⟨rfl, rfl⟩
  exact hfirst fun before s hs => hsafe before s (hs.trans ⟨[⟨0, [2]⟩], rfl⟩)

end Message

end BedrockRs.Nethernet

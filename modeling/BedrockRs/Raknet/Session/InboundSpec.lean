/-
What `handle_encapsulated` can do with a packet, said once (`handleEncapsulated_cases`): drop it as
seen, refuse it with the assembler's error, keep its part, or deliver what it carries or completes.
-/
import BedrockRs.Raknet.Session.Inbound
import BedrockRs.Raknet.Session.SplitSpec
import BedrockRs.Raknet.Session.TrackerSpec

namespace BedrockRs.Raknet.Session

open Lib

variable {F : Type}

theorem filterIndex_of_isSplit {enc : EncapsulatedPacket} (h : enc.header.isSplit = true) : filterIndex enc = none := by
  unfold filterIndex
  rw [h, Bool.not_true, Bool.and_false, if_neg (by decide)]

/-- The outcomes of handling a packet. -/
inductive Handled (s : Session F) (enc : EncapsulatedPacket) (now : Instant) :
    Except DecodeError (List IncomingPacket) × Session F → Prop
  | seen {idx : Sequence24} (hidx : filterIndex enc = some idx) (hseen : s.reliableTracker.hasSeen idx = true) :
      Handled s enc now (.ok [], s)
  | refused {e : DecodeError} {splitAssembler : SplitAssembler}
      (hadd : s.splitAssembler.add enc now = (.error e, splitAssembler)) :
        Handled s enc now (.error e, { s with splitAssembler })
  | pending {splitAssembler : SplitAssembler} (hsplit : enc.header.isSplit = true)
      (hadd : s.splitAssembler.add enc now = (.ok none, splitAssembler)) :
        Handled s enc now (.ok [], { s with splitAssembler })
  | delivered {enc' : EncapsulatedPacket} {splitAssembler : SplitAssembler}
      (hnew : ∀ idx, filterIndex enc = some idx → s.reliableTracker.hasSeen idx = false)
      (hadd : s.splitAssembler.add enc now = (.ok (some enc'), splitAssembler)) :
      Handled s enc now ((commitIndex { s with splitAssembler } (filterIndex enc)).deliver enc')

theorem handleEncapsulated_cases (s : Session F) (enc : EncapsulatedPacket) (now : Instant) :
    s.Handled enc now (s.handleEncapsulated enc now) := by
  unfold handleEncapsulated
  simp only
  split
  · rename_i hseen
    obtain ⟨idx, hidx, hseen⟩ := Option.any_eq_true _ _ |>.1 hseen
    exact .seen hidx hseen
  · rename_i hseen
    have hnew : ∀ idx, filterIndex enc = some idx → s.reliableTracker.hasSeen idx = false := by
      intro idx hidx
      rw [hidx] at hseen
      simpa using hseen
    cases hadd : s.splitAssembler.add enc now with
    | mk res splitAssembler =>
      cases res with
      | error e => exact .refused hadd
      | ok assembled =>
        cases assembled with
        | some enc' => exact .delivered hnew hadd
        | none =>
          -- only a fragment is kept back
          have hsplit : enc.header.isSplit = true := by
            by_contra hwhole
            rw [SplitAssembler.add_of_whole (by simpa using hwhole)] at hadd
            cases hadd
          rw [filterIndex_of_isSplit hsplit]
          exact .pending hsplit hadd

/-- A packet that passes the duplicate filter and the assembler is committed and delivered. -/
theorem handleEncapsulated_added {s : Session F} {enc enc' : EncapsulatedPacket} {now : Instant}
    (hseen : (filterIndex enc).any s.reliableTracker.hasSeen = false) {splitAssembler : SplitAssembler}
    (hadd : s.splitAssembler.add enc now = (.ok (some enc'), splitAssembler)) :
    s.handleEncapsulated enc now = (commitIndex { s with splitAssembler } (filterIndex enc)).deliver enc' := by
  unfold handleEncapsulated
  simp only [hseen, Bool.false_eq_true, if_false, hadd]

end BedrockRs.Raknet.Session

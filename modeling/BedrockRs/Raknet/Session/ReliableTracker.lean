/-
The receiver's record of reliable indexes (`session/reliable_tracker.rs`): a base index and a bitmap
of the indexes after it.
-/
import BedrockRs.Raknet.Protocol.Sequence

namespace BedrockRs.Raknet

structure ReliableTracker where
  base : Sequence24
  window : List Bool
  maxWindow : Nat
deriving DecidableEq, Repr

namespace ReliableTracker

def new (maxWindow : Nat) : ReliableTracker := ⟨Sequence24.new 0, [], maxWindow⟩

/-- The loop of `advance_base`: pops leading `true` bits, moving the base along. -/
def advance : Sequence24 → List Bool → Sequence24 × List Bool
  | base, true :: window => advance base.next window
  | base, window => (base, window)

def advanceBase (t : ReliableTracker) : ReliableTracker :=
  let (base, window) := advance t.base t.window
  { t with base, window }

/-- `Vec::resize` of the bitmap to at least `n` bits. -/
def resize (window : List Bool) (n : Nat) : List Bool :=
  window ++ List.replicate (n - window.length) false

/-- True if this reliable index is new and was recorded; false for duplicates and for indexes too
far ahead. -/
def see (t : ReliableTracker) (ridx : Sequence24) : Bool × ReliableTracker :=
  if ridx = t.base then (true, advanceBase { t with base := t.base.next })
  else
    let dist := t.base.distanceTo ridx
    if dist = 0 ∨ dist > t.maxWindow then (false, t)
    else
      let offset := dist - 1
      let window := if t.window.length ≤ offset then resize t.window (offset + 1) else t.window
      if window[offset]? = some true then (false, { t with window })
      else (true, { t with window := window.set offset true })

/-- Whether a reliable index counts as already processed, without updating the state. -/
def hasSeen (t : ReliableTracker) (ridx : Sequence24) : Bool :=
  if ridx = t.base then false
  else
    let dist := t.base.distanceTo ridx
    if dist = 0 then true
    else if dist > t.maxWindow then false
    else
      let offset := dist - 1
      if offset < t.window.length then t.window[offset]? = some true else false

end ReliableTracker

end BedrockRs.Raknet

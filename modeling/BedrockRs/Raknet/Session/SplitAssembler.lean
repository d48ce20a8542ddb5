/-
Reassembly of split packets (`session/split_assembler.rs`). Entries are kept per split id; a
fragment that completes its entry returns the reassembled packet and removes the entry. `add`
returns the assembler together with its verdict, since an error leaves behind whatever the call
changed before it.
-/
import BedrockRs.Lib.Std
import BedrockRs.Raknet.Protocol.Datagram
import Mathlib.Data.List.AList

namespace BedrockRs.Raknet

open Lib

structure SplitEntry where
  reliability : Reliability
  reliableIndex : Option Sequence24
  sequenceIndex : Option Sequence24
  orderingIndex : Option Sequence24
  orderingChannel : Option UInt8
  needsBas : Bool
  parts : List (Option Bytes)
  received : Nat
  lastUpdate : Instant
deriving DecidableEq, Repr

/-- The entries by split id. -/
abbrev SplitEntries := AList fun _ : UInt16 => SplitEntry

/-- A stored entry with its split id, as a walk over the map meets it. -/
abbrev SplitEntries.Item := (_ : UInt16) × SplitEntry

structure SplitAssembler where
  entries : SplitEntries
  ttl : Duration
  maxParts : Nat
  maxConcurrent : Nat

namespace SplitAssembler

def new (ttl : Duration) (maxParts maxConcurrent : Nat) : SplitAssembler :=
  ⟨∅, if ttl = 0 then Duration.fromSecs 30 else ttl, maxParts, maxConcurrent⟩

/-- The entry a first fragment opens. -/
def openEntry (pkt : EncapsulatedPacket) (split : SplitInfo) (now : Instant) : SplitEntry where
  reliability := pkt.header.reliability
  reliableIndex := pkt.reliableIndex
  sequenceIndex := pkt.sequenceIndex
  orderingIndex := pkt.orderingIndex
  orderingChannel := pkt.orderingChannel
  needsBas := pkt.header.needsBas
  parts := List.replicate split.count.toNat none
  received := 0
  lastUpdate := now

/-- `entries.entry(id).or_insert_with(..)`. -/
def entryOrInsert (a : SplitAssembler) (id : UInt16) (fresh : SplitEntry) : SplitEntry × SplitAssembler :=
  match a.entries.lookup id with
  | some entry => (entry, a)
  | none => (fresh, { a with entries := a.entries.insert id fresh })

/-- The payload of a full entry; a missing part is the error the source rules out. -/
def joinParts : List (Option Bytes) → Except DecodeError Bytes
  | [] => .ok []
  | none :: _ => .error .splitCountMismatch
  | some part :: parts => do return part ++ (← joinParts parts)

/-- The packet a complete entry reassembles to. -/
def assembled (entry : SplitEntry) (payload : Bytes) : EncapsulatedPacket where
  header := ⟨entry.reliability, false, entry.needsBas⟩
  bitLength := UInt16.ofNat payload.length <<< 3
  reliableIndex := entry.reliableIndex
  sequenceIndex := entry.sequenceIndex
  orderingIndex := entry.orderingIndex
  orderingChannel := entry.orderingChannel
  split := none
  payload := payload

/-- The entry with a part filled in. -/
def fillPart (entry : SplitEntry) (idx : Nat) (payload : Bytes) (now : Instant) : SplitEntry :=
  { entry with parts := entry.parts.set idx (some payload), received := entry.received + 1, lastUpdate := now }

/-- Stores a part that the entry still misses, and reassembles when it was the last one. -/
def addPart (a : SplitAssembler) (id : UInt16) (entry : SplitEntry) (idx : Nat) (payload : Bytes) (now : Instant) :
    Except DecodeError (Option EncapsulatedPacket) × SplitAssembler :=
  let entry := fillPart entry idx payload now
  let stored := { a with entries := a.entries.insert id entry }
  if entry.received ≠ entry.parts.length then (.ok none, stored)
  else
    match joinParts entry.parts with
    | .error e => (.error e, stored)
    | .ok payload => (.ok (some (assembled entry payload)), { a with entries := a.entries.erase id })

def add (a : SplitAssembler) (pkt : EncapsulatedPacket) (now : Instant) :
    Except DecodeError (Option EncapsulatedPacket) × SplitAssembler :=
  if !pkt.header.isSplit then (.ok (some pkt), a)
  else
    match pkt.split with
    | none => (.error .missingSplitInfo, a)
    | some split =>
      if split.count.toNat > a.maxParts then (.error .splitTooLarge, a)
      else if a.entries.entries.length ≥ a.maxConcurrent ∧ (a.entries.lookup split.id).isNone then
        (.error .splitBufferFull, a)
      else
        let (entry, a) := a.entryOrInsert split.id (openEntry pkt split now)
        if entry.parts.length ≠ split.count.toNat then (.error .splitCountMismatch, a)
        else
          match entry.parts[split.index.toNat]? with
          | none => (.error .splitIndexOutOfRange, a)
          -- duplicate part
          | some (some _) => (.ok none, a)
          | some none => a.addPart split.id entry split.index.toNat pkt.payload now

/-- Whether `prune` at `now` drops an entry. -/
def expired (a : SplitAssembler) (now : Instant) (entry : SplitEntry) : Bool :=
  Instant.durationSince now entry.lastUpdate ≥ a.ttl

/-- Drops the expired entries and returns their ordering channels and indexes, in the order in which
the walk over the map met them. -/
def prune (a : SplitAssembler) (now : Instant) (iter : IterOrder SplitEntries.Item) :
    List (Option UInt8 × Option Sequence24) × SplitAssembler :=
  let dropped := (iter.order a.entries.entries).filter fun item => a.expired now item.2
  let kept : SplitEntries :=
    ⟨a.entries.entries.filter fun item => !a.expired now item.2,
      a.entries.nodupKeys.sublist List.filter_sublist⟩
  (dropped.map fun item => (item.2.orderingChannel, item.2.orderingIndex), { a with entries := kept })

end SplitAssembler

end BedrockRs.Raknet

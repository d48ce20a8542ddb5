/-
Per-channel ordered delivery (`session/ordering_channels.rs`). The three parallel vectors of the
source (`order_read`, `order_write`, `heaps`, all of length `max_channels`) are one list of
channels here, so their lengths cannot differ.
-/
import BedrockRs.Lib.BinaryHeap
import BedrockRs.Raknet.Protocol.Datagram

namespace BedrockRs.Raknet

open Lib

structure OrderedEncap where
  index : Sequence24
  pkt : EncapsulatedPacket
deriving DecidableEq, Repr

/-- `<=` of `Reverse<OrderedEncap>`: the heap's greatest element has the smallest index. -/
def OrderedEncap.reverseLe (a b : OrderedEncap) : Bool := b.index.le a.index

structure OrderingChannel where
  orderRead : Sequence24
  orderWrite : Sequence24
  heap : BinaryHeap OrderedEncap
deriving DecidableEq, Repr

namespace OrderingChannel

def new : OrderingChannel := ⟨Sequence24.new 0, Sequence24.new 0, BinaryHeap.empty⟩

/-- The release loop shared by `skip_index` and `handle_ordered`: while the heap's top is the index
read next, pop it and move on. Every round pops, so the heap's length is enough fuel. -/
def drain : Nat → OrderingChannel → List EncapsulatedPacket × OrderingChannel
  | 0, c => ([], c)
  | fuel + 1, c =>
    match c.heap.peek with
    | none => ([], c)
    | some top =>
      if top.index = c.orderRead then
        match c.heap.pop OrderedEncap.reverseLe with
        | none => ([], c)
        | some (entry, heap) =>
          let (ready, c) := drain fuel { c with heap, orderRead := c.orderRead.next }
          (entry.pkt :: ready, c)
      else ([], c)

def release (c : OrderingChannel) : List EncapsulatedPacket × OrderingChannel :=
  drain c.heap.len c

/-- `skip_index` on the channel itself. -/
def skipIndex (c : OrderingChannel) (index : Sequence24) : Option (List EncapsulatedPacket) × OrderingChannel :=
  if c.orderRead ≠ index then (none, c)
  else
    let (ready, c) := release { c with orderRead := c.orderRead.next }
    (some ready, c)

/-- `handle_ordered` on the channel itself, for a packet with ordering index `idx`. -/
def handleOrdered (c : OrderingChannel) (idx : Sequence24) (enc : EncapsulatedPacket) :
    List EncapsulatedPacket × OrderingChannel :=
  if c.orderRead.lt idx then
    -- a full buffer drops the packet
    if c.heap.len ≥ 2048 then ([], c)
    else ([], { c with heap := c.heap.push OrderedEncap.reverseLe ⟨idx, enc⟩ })
  else if c.orderRead.gt idx then ([], c)
  else
    let (ready, c) := release { c with orderRead := c.orderRead.next }
    (enc :: ready, c)

end OrderingChannel

/-- Manages per-channel ordered delivery heaps. -/
structure OrderingChannels where
  channels : List OrderingChannel
deriving DecidableEq, Repr

namespace OrderingChannels

def new (maxChannels : Nat) : OrderingChannels := ⟨List.replicate maxChannels OrderingChannel.new⟩

def maxChannels (o : OrderingChannels) : Nat := o.channels.length

def nextOrderIndex (o : OrderingChannels) (channel : UInt8) : Option Sequence24 × OrderingChannels :=
  match o.channels[channel.toNat]? with
  | none => (none, o)
  | some c =>
    (some c.orderWrite, ⟨o.channels.set channel.toNat { c with orderWrite := c.orderWrite.next }⟩)

/-- Advances the read index past `index` if it waits there, and returns the packets that become
ready. -/
def skipIndex (o : OrderingChannels) (channel : UInt8) (index : Sequence24) :
    Option (List EncapsulatedPacket) × OrderingChannels :=
  match o.channels[channel.toNat]? with
  | none => (none, o)
  | some c =>
    let (ready, c) := c.skipIndex index
    (ready, ⟨o.channels.set channel.toNat c⟩)

/-- Takes an ordered packet and returns the packets ready for decoding, in order. -/
def handleOrdered (o : OrderingChannels) (enc : EncapsulatedPacket) :
    Option (List EncapsulatedPacket) × OrderingChannels :=
  match enc.orderingChannel with
  | none => (none, o)
  | some channel =>
    match o.channels[channel.toNat]? with
    | none => (none, o)
    | some c =>
      match enc.orderingIndex with
      | none => (none, o)
      | some idx =>
        let (ready, c) := c.handleOrdered idx enc
        (some ready, ⟨o.channels.set channel.toNat c⟩)

end OrderingChannels

end BedrockRs.Raknet

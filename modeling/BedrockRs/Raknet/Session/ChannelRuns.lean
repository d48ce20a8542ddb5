/-
Invariants of the ordering channels. A session touches them in three ways only: it takes the next write
index of a channel, it hands a channel an arrived packet, and it skips the index of a dropped message.
What these three keep, every operation of a session keeps, and every run.
-/
import BedrockRs.Raknet.Session.Frame
import BedrockRs.Raknet.Session.InboundSpec
import BedrockRs.Raknet.Session.OrderingSpec
import BedrockRs.Raknet.Session.OutboundSpec

namespace BedrockRs.Raknet

open Lib

namespace OrderingChannels

/-- `P` is kept by everything that is done to the ordering channels. -/
structure Kept (P : OrderingChannels → Prop) : Prop where
  next : ∀ o channel, P o → P (o.nextOrderIndex channel).2
  arrive : ∀ o enc, P o → P (o.handleOrdered enc).2
  skip : ∀ o channel index, P o → P (o.skipIndex channel index).2

theorem set_kept {P : OrderingChannel → Prop} {o : OrderingChannels} (h : ∀ c ∈ o.channels, P c) {c' : OrderingChannel}
    (hc' : P c') (i : Nat) : ∀ c ∈ o.channels.set i c', P c := by
  intro c hc
  rcases List.mem_or_eq_of_mem_set hc with hc | rfl
  · exact h c hc
  · exact hc'

/-- An invariant of every channel. -/
theorem Kept.channels {P : OrderingChannel → Prop}
    (hwrite : ∀ c : OrderingChannel, P c → P { c with orderWrite := c.orderWrite.next })
    (harrive : ∀ (c : OrderingChannel) idx enc, P c → P (c.handleOrdered idx enc).2)
    (hskip : ∀ (c : OrderingChannel) index, P c → P (c.skipIndex index).2) : Kept fun o => ∀ c ∈ o.channels, P c where
  next := by
    intro o channel h
    unfold nextOrderIndex
    split
    · exact h
    · rename_i c hc
      exact set_kept h (hwrite c (h c (List.mem_of_getElem? hc))) _
  arrive := by
    intro o enc h
    unfold OrderingChannels.handleOrdered
    split
    · exact h
    · split
      · exact h
      · rename_i c hc
        split
        · exact h
        · exact set_kept h (harrive c _ enc (h c (List.mem_of_getElem? hc))) _
  skip := by
    intro o channel index h
    unfold OrderingChannels.skipIndex
    split
    · exact h
    · rename_i c hc
      exact set_kept h (hskip c index (h c (List.mem_of_getElem? hc))) _

/-- The number of channels is fixed. -/
theorem kept_maxChannels (n : Nat) : Kept fun o => o.maxChannels = n where
  next := by
    intro o channel h
    unfold nextOrderIndex
    split
    · exact h
    · exact (List.length_set ..).trans h
  arrive := by
    intro o enc h
    unfold OrderingChannels.handleOrdered
    split
    · exact h
    · split
      · exact h
      · split
        · exact h
        · exact (List.length_set ..).trans h
  skip := by
    intro o channel index h
    unfold OrderingChannels.skipIndex
    split
    · exact h
    · exact (List.length_set ..).trans h

end OrderingChannels

/-! ## Buffers stay within their limit -/

namespace OrderingChannel

theorem release_len_le (c : OrderingChannel) : (release c).2.heap.len ≤ c.heap.len := by
  obtain ⟨popped, -, hrel⟩ := drain_released c.heap.len c
  have hlen := hrel.heap.length_eq
  rw [List.length_append] at hlen
  unfold release BinaryHeap.len at *
  omega

theorem handleOrdered_len (c : OrderingChannel) (idx : Sequence24) (enc : EncapsulatedPacket) (h : c.heap.len ≤ 2048) :
    (c.handleOrdered idx enc).2.heap.len ≤ 2048 := by
  rcases c.handleOrdered_cases idx enc with ⟨-, hroom, he⟩ | ⟨-, -, he⟩ | ⟨-, -, he⟩ | ⟨-, he⟩
  · rw [he]
    have hpush := (BinaryHeap.push_perm OrderedEncap.reverseLe c.heap ⟨idx, enc⟩).length_eq
    rw [List.length_cons] at hpush
    unfold BinaryHeap.len at *
    dsimp only
    omega
  · rwa [he]
  · rwa [he]
  · rw [he]
    exact le_trans (release_len_le { c with orderRead := c.orderRead.next }) h

theorem skipIndex_len (c : OrderingChannel) (index : Sequence24) (h : c.heap.len ≤ 2048) :
    (c.skipIndex index).2.heap.len ≤ 2048 := by
  unfold skipIndex
  split
  · exact h
  · exact le_trans (release_len_le { c with orderRead := c.orderRead.next }) h

end OrderingChannel

namespace Session

variable {F : Type}

open OrderingChannels

section Kept

variable {P : OrderingChannels → Prop} (hP : Kept P)
include hP

theorem handleEncapsulated_ordering {s : Session F} (h : P s.ordering) (enc : EncapsulatedPacket) (now : Instant) :
    P (s.handleEncapsulated enc now).2.ordering := by
  generalize hhandled : s.handleEncapsulated enc now = result
  have hcases := s.handleEncapsulated_cases enc now
  rw [hhandled] at hcases
  cases hcases with
  | seen _ _ => exact h
  | refused _ => exact h
  | pending _ _ => exact h
  | @delivered enc' splitAssembler _ _ =>
    have hcommit : (commitIndex { s with splitAssembler } (filterIndex enc)).ordering = s.ordering := by
      cases filterIndex enc <;> rfl
    obtain ⟨_, _, hdeliver⟩ := deliver_frame (commitIndex { s with splitAssembler } (filterIndex enc)) enc'
    rw [hdeliver, hcommit]
    dsimp only
    split
    · exact hP.arrive _ _ h
    · exact h

theorem allocOrderingIndex_ordering {s : Session F} (h : P s.ordering) (reliability : Reliability) (channel : UInt8) :
    P (s.allocOrderingIndex reliability channel).2.ordering := by
  unfold allocOrderingIndex
  split
  · exact hP.next _ _ h
  · exact h

theorem queuePacket_ordering {s : Session F} (h : P s.ordering) (pkt : RaknetPacket) (reliability : Reliability)
    (channel : UInt8) (priority : RakPriority) : P (s.queuePacket pkt reliability channel priority).2.ordering := by
  cases hmsg : s.message pkt reliability channel with
  | none => rwa [queuePacket_of_none hmsg]
  | some m =>
    rw [(queuePacket_spec hmsg priority).ordering]
    exact allocOrderingIndex_ordering hP h _ _

theorem skipDropped_ordering {dropped : List (Option UInt8 × Option Sequence24)} {o : OrderingChannels} (h : P o) :
    P (skipDropped o dropped) := by
  induction dropped generalizing o with
  | nil => exact h
  | cons item rest ih =>
    rcases item with ⟨_ | ch, _ | idx⟩
    · exact ih h
    · exact ih h
    · exact ih h
    · exact ih (hP.skip _ _ _ h)

variable [Float64 F]

theorem step_ordering {s : Session F} (h : P s.ordering) (op : Op) : P (s.step op).ordering := by
  have hcases := s.step_cases op
  generalize s.step op = s' at hcases
  cases hcases with
  | queuePacket _ => exact queuePacket_ordering hP h _ _ _ _
  | handleDataPayload _ =>
    exact handleDataPayload_inv (I := fun s => P s.ordering) (fun _ enc h => handleEncapsulated_ordering hP h enc _) _ h
  | onTick => exact skipDropped_ordering hP h
  | _ => exact h

theorem ordering_after (mtu : Nat) (tunables : SessionTunables)
    (hnew : P (OrderingChannels.new tunables.maxOrderingChannels)) (ops : List Op) :
    P (after mtu tunables ops : Session F).ordering :=
  Machine.run_inv_all (P := fun s : Session F => P s.ordering) (fun _ op h => step_ordering hP h op) ops hnew

end Kept

/-- In every run no ordering buffer holds more than 2048 packets. -/
theorem heap_len_after [Float64 F] (mtu : Nat) (tunables : SessionTunables) (ops : List Op) :
    ∀ c ∈ (after mtu tunables ops : Session F).ordering.channels, c.heap.len ≤ 2048 := by
  refine ordering_after (.channels (fun _ h => h) (fun c idx enc h => c.handleOrdered_len idx enc h)
    fun c index h => c.skipIndex_len index h) mtu tunables ?_ ops
  intro c hc
  rw [List.eq_of_mem_replicate hc]
  exact Nat.zero_le _

end Session

end BedrockRs.Raknet

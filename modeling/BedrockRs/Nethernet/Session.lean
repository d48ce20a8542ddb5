/-
Concurrent sends on one NetherNet session (`session/mod.rs`). A `send` call splits its message and hands
the segments to the reliable channel one by one, with no lock held in between, so that the calls of
several tasks interleave; the receiver's `on_message` has one accumulator for all of them. A run takes
the steps of the calls in any order. The channel itself keeps order and loses nothing, and may refuse a
segment.
-/
import BedrockRs.Lib.Machine
import BedrockRs.Nethernet.Protocol.Reassembly

namespace BedrockRs.Nethernet

open Lib

/-- A `send` call: its message, the segments it has handed over, those it has still to, and what it
returned. -/
structure Call where
  data : Bytes
  sent : List MessageSegment
  left : List MessageSegment
  result : Option (Except NethernetError Unit)
deriving DecidableEq

/-- The sending session, with what the channel has taken so far. -/
structure Session where
  closed : Bool
  reliableChannel : Bool
  calls : List Call
  channel : List Bytes

namespace Session

inductive Action where
  | send (data : Bytes)
  /-- The channel takes the next segment of a call. -/
  | put (call : Nat)
  /-- The channel refuses it. -/
  | refuse (call : Nat) (text : String)
  | close

/-- `send` up to its loop; a call that panics never returns. -/
def send (p : Profile) (s : Session) (data : Bytes) : Call :=
  if s.closed then ⟨data, [], [], some (.error .connectionClosed)⟩
  else if s.reliableChannel = false then ⟨data, [], [], some (.error (.dataChannel "Reliable channel not set"))⟩
  else
    match Message.splitIntoSegments p data with
    | some (.ok segments) => ⟨data, [], segments, none⟩
    | some (.error e) => ⟨data, [], [], some (.error e)⟩
    | none => ⟨data, [], [], none⟩

/-- One round of the loop: what goes into the channel, and the call after it. -/
def advance (c : Call) : Option (Bytes × Call) :=
  match c.result, c.left with
  | none, segment :: rest =>
    some (segment.encode, ⟨c.data, c.sent ++ [segment], rest, if rest = [] then some (.ok ()) else none⟩)
  | _, _ => none

def step (p : Profile) (s : Session) : Action → Session
  | .send data => { s with calls := s.calls ++ [send p s data] }
  | .put i =>
    match s.calls[i]?.bind fun c => advance c with
    | some (bytes, c') => { s with calls := s.calls.set i c', channel := s.channel ++ [bytes] }
    | none => s
  | .refuse i text =>
    match s.calls[i]? with
    | some c =>
      if (advance c).isSome then
        { s with calls := s.calls.set i { c with result := some (.error (.dataChannel text)) } }
      else s
    | none => s
  | .close => { s with closed := true }

/-- A session before its first send. -/
def idle (closed reliableChannel : Bool) : Session := ⟨closed, reliableChannel, [], []⟩

/-- The message of a call that returned `Ok`. -/
def okMessage (c : Call) : Option Bytes := if c.result = some (.ok ()) then some c.data else none

def okMessages (s : Session) : List Bytes := s.calls.filterMap okMessage

end Session

/-! ## The receiver -/

/-- The message in a result of `add_segment`. -/
def completed : Except NethernetError (Option Bytes) → Option Bytes
  | .ok complete => complete
  | .error _ => none

/-- The handler of `set_reliable_channel`: the accumulator afterwards and the message it completed. -/
def onMessage (p : Profile) (buffer : Message) (data : Bytes) : Option (Message × Option Bytes) :=
  match MessageSegment.decode data with
  | .ok segment => (buffer.addSegment p segment).map fun out => (out.1, completed out.2)
  | .error _ => some (buffer, none)

/-- The accumulator and the messages after everything in the channel was taken. -/
def receive (p : Profile) : Message → List Bytes → Option (Message × List Bytes)
  | buffer, [] => some (buffer, [])
  | buffer, data :: channel => do
    let (buffer, complete) ← onMessage p buffer data
    let (buffer, messages) ← receive p buffer channel
    return (buffer, complete.toList ++ messages)

/-- The receiver produces exactly the messages whose send returned `Ok`, each once. -/
def Session.Delivers (p : Profile) (s : Session) : Prop :=
  ∃ buffer messages, receive p .new s.channel = some (buffer, messages) ∧ messages.Perm s.okMessages

section Receive

variable {p : Profile}

theorem receive_cons {buffer buffer' : Message} {data : Bytes} {complete : Option Bytes}
    (h : onMessage p buffer data = some (buffer', complete)) (channel : List Bytes) :
    receive p buffer (data :: channel) = (receive p buffer' channel).map fun out =>
      (out.1, complete.toList ++ out.2) := by
  simp [receive, h, Option.map_eq_bind]

theorem receive_concat : ∀ {buffer buffer' : Message} {channel messages : List Bytes},
    receive p buffer channel = some (buffer', messages) → ∀ data,
      receive p buffer (channel ++ [data]) =
        (onMessage p buffer' data).map fun out => (out.1, messages ++ out.2.toList)
  | buffer, buffer', [], messages, h, data => by
    cases h
    cases hdata : onMessage p buffer data with
    | none => simp [receive, hdata]
    | some out => simp [receive, hdata]
  | buffer, buffer', first :: channel, messages, h, data => by
    cases hfirst : onMessage p buffer first with
    | none => simp [receive, hfirst] at h
    | some out =>
      obtain ⟨next, complete⟩ := out
      rw [receive_cons hfirst] at h
      obtain ⟨⟨last, rest⟩, hrest, hout⟩ := Option.map_eq_some_iff.1 h
      cases hout
      rw [List.cons_append, receive_cons hfirst, receive_concat hrest data, Option.map_map]
      refine Option.map_congr fun out _ => ?_
      simp

theorem onMessage_encode {buffer : Message} (segment : MessageSegment) (h : segment.data ≠ []) :
    onMessage p buffer segment.encode = (buffer.addSegment p segment).map fun out => (out.1, completed out.2) := by
  rw [onMessage, MessageSegment.decode_encode h]

end Receive

namespace Session

variable {p : Profile}

/-! ## The segments of a call -/

/-- A call under way: some of its segments are in the channel and some are not. It may have failed since. -/
def Midway (c : Call) : Prop := c.sent ≠ [] ∧ c.left ≠ []

/-- The segments of a call are those of its message, and it returns `Ok` with the last of them. -/
structure Splits (p : Profile) (c : Call) : Prop where
  segments : c.sent ++ c.left = [] ∨ Message.splitIntoSegments p c.data = some (.ok (c.sent ++ c.left))
  ok_iff : c.result = some (.ok ()) ↔ c.sent ≠ [] ∧ c.left = []

theorem splits_send (s : Session) (data : Bytes) : Splits p (send p s data) := by
  have hempty : ∀ result, result ≠ some (.ok ()) → Splits p ⟨data, [], [], result⟩ := by
    intro result hresult
    exact ⟨.inl rfl, by simp [hresult]⟩
  unfold send
  split_ifs
  · exact hempty _ (by simp)
  · exact hempty _ (by simp)
  · cases hsplit : Message.splitIntoSegments p data with
    | none => exact hempty _ (by simp)
    | some out =>
      cases out with
      | error e => exact hempty _ (by simp)
      | ok segments => exact ⟨.inr (by simpa using hsplit), by simp⟩

theorem sent_send (s : Session) (data : Bytes) : (send p s data).sent = [] := by
  unfold send
  split_ifs
  · rfl
  · rfl
  · cases hsplit : Message.splitIntoSegments p data with
    | none => rfl
    | some out => cases out <;> rfl

theorem advance_eq_some {c c' : Call} {bytes : Bytes} (h : advance c = some (bytes, c')) :
    ∃ segment rest, c.result = none ∧ c.left = segment :: rest ∧ bytes = segment.encode ∧
      c' = ⟨c.data, c.sent ++ [segment], rest, if rest = [] then some (.ok ()) else none⟩ := by
  obtain ⟨data, sent, left, result⟩ := c
  cases result with
  | some r => cases h
  | none =>
    cases left with
    | nil => cases h
    | cons segment rest =>
      cases h
      exact ⟨segment, rest, rfl, rfl, rfl, rfl⟩

theorem Splits.advance {c c' : Call} {bytes : Bytes} (h : Splits p c) (hadv : Session.advance c = some (bytes, c')) :
    Splits p c' := by
  obtain ⟨segment, rest, hresult, hleft, -, rfl⟩ := advance_eq_some hadv
  constructor
  · simpa [hleft] using h.segments
  · by_cases hrest : rest = [] <;> simp [hrest]

/-- The segments of a message that is not empty are a countdown of its bytes. -/
theorem countdown_of_split {data : Bytes} {segments : List MessageSegment} (hdata : data ≠ [])
    (h : Message.splitIntoSegments p data = some (.ok segments)) :
    ∃ k ≤ 254, maxMessageSize * k < data.length ∧ data.length ≤ maxMessageSize * (k + 1) ∧
      segments = Message.countdown k data := by
  have hpos : 1 ≤ data.length := List.length_pos_of_ne_nil hdata
  rcases Nat.lt_or_ge 2550000 data.length with hlarge | hlen
  · rw [Message.splitIntoSegments_too_large hlarge] at h
    cases h
  · obtain ⟨k, hk, hlo, hhi⟩ := Message.exists_segments hpos hlen
    rw [Message.splitIntoSegments_eq hk hlo hhi] at h
    cases h
    exact ⟨k, hk, hlo, hhi, rfl⟩

/-- The accumulator on the next segment of a call, after the earlier ones: nothing comes out before the
last, and the whole message with it. -/
theorem addSegment_next {data : Bytes} {sent rest : List MessageSegment} {segment : MessageSegment} {buffer : Message}
    {results : List (Except NethernetError (Option Bytes))} (hdata : data ≠ [])
    (hsplit : Message.splitIntoSegments p data = some (.ok (sent ++ segment :: rest)))
    (hfeed : Message.feed p .new sent = some (buffer, results)) :
    segment.data ≠ [] ∧
    (rest = [] → buffer.addSegment p segment = some (.new, .ok (some data))) ∧
    (rest ≠ [] → ∃ buffer', buffer.addSegment p segment = some (buffer', .ok none)) := by
  obtain ⟨k, hk, hlo, hhi, heq⟩ := countdown_of_split hdata hsplit
  have hall : Message.feed p .new (sent ++ segment :: rest) =
      some (.new, List.replicate k (.ok none) ++ [.ok (some data)]) := by
    rw [heq]
    exact Message.feed_countdown hk data (.inl rfl)
  have hmem : segment ∈ Message.countdown k data := by simp [← heq]
  refine ⟨List.ne_nil_of_length_pos (Message.length_data_of_mem_countdown hlo hhi segment hmem).1, ?_⟩
  rw [Message.feed_append hfeed] at hall
  obtain ⟨⟨last, results'⟩, hrest, hout⟩ := Option.map_eq_some_iff.1 hall
  rw [Prod.mk.injEq] at hout
  obtain ⟨rfl, hresults⟩ := hout
  cases hadd : buffer.addSegment p segment with
  | none => simp [Message.feed, hadd] at hrest
  | some out =>
    obtain ⟨buffer', r⟩ := out
    rw [Message.feed_cons hadd] at hrest
    obtain ⟨⟨last', after⟩, hafter, hout⟩ := Option.map_eq_some_iff.1 hrest
    rw [Prod.mk.injEq] at hout
    obtain ⟨rfl, rfl⟩ := hout
    constructor
    · rintro rfl
      cases hafter
      have hr := List.append_inj_right' hresults rfl
      rw [List.singleton_inj] at hr
      rw [hr]
    · intro hne
      -- the result of this segment is not the last of the results, and all the others are `Ok(None)`
      have hlen := Message.length_feed hafter
      have hafter_ne : after ≠ [] := by
        rintro rfl
        exact hne (List.length_eq_zero_iff.1 hlen.symm)
      have hdrop := congrArg List.dropLast hresults
      rw [List.dropLast_concat, List.dropLast_append_of_ne_nil (by simp),
        List.dropLast_cons_of_ne_nil hafter_ne] at hdrop
      have hr : r ∈ List.replicate k (Except.ok none) := by
        rw [← hdrop]
        simp
      rw [List.eq_of_mem_replicate hr]
      exact ⟨buffer', rfl⟩

/-! ## Sends that do not meet -/

/-- The step hands over a segment of a message that is not empty, while no other call is under way. -/
def Alone (s : Session) : Action → Prop
  | .put i => ∀ c, s.calls[i]? = some c → c.data ≠ [] ∧ ∀ j c', j ≠ i → s.calls[j]? = some c' → ¬ Midway c'
  | _ => True

/-- The receiver has made of the channel what the calls put into it: whole messages, and the segments of
the one call that is under way. -/
structure Tidy (p : Profile) (s : Session) (buffer : Message) (messages : List Bytes) : Prop where
  calls : ∀ c ∈ s.calls, Splits p c
  receive : receive p .new s.channel = some (buffer, messages)
  messages : messages.Perm s.okMessages
  midway : ∀ c ∈ s.calls, Midway c → ∃ results, Message.feed p .new c.sent = some (buffer, results)
  fresh : (∀ c ∈ s.calls, ¬ Midway c) → buffer = .new

theorem tidy_idle (closed reliableChannel : Bool) : Tidy p (idle closed reliableChannel) .new [] where
  calls := by simp [idle]
  receive := rfl
  messages := List.Perm.refl _
  midway := by simp [idle]
  fresh := fun _ => rfl

theorem Tidy.send {s : Session} {buffer : Message} {messages : List Bytes} (h : Tidy p s buffer messages)
    (data : Bytes) : Tidy p (step p s (.send data)) buffer messages := by
  have hnot : ¬ (Session.send p s data).result = some (.ok ()) := by
    rw [(splits_send s data).ok_iff]
    exact fun hok => hok.1 (sent_send s data)
  refine ⟨?_, h.receive, ?_, ?_, ?_⟩
  · intro c hc
    rcases List.mem_append.1 hc with hc | hc
    · exact h.calls c hc
    · rw [List.mem_singleton.1 hc]
      exact splits_send s data
  · refine h.messages.trans (List.Perm.of_eq ?_)
    simp [okMessages, step, List.filterMap_append, okMessage, hnot]
  · intro c hc hmid
    rcases List.mem_append.1 hc with hc | hc
    · exact h.midway c hc hmid
    · rw [List.mem_singleton.1 hc] at hmid
      exact absurd (sent_send s data) hmid.1
  · intro hnone
    exact h.fresh fun c hc => hnone c (List.mem_append_left _ hc)

/-- The calls after one of them was written over: the new one, and the others. -/
theorem mem_calls_set {calls : List Call} {i : Nat} {c c' : Call} (h : c ∈ calls.set i c') :
    c = c' ∨ ∃ j, j ≠ i ∧ calls[j]? = some c := by
  obtain ⟨j, hj⟩ := List.mem_iff_getElem?.1 h
  by_cases hij : j = i
  · subst hij
    left
    rw [List.getElem?_set_self'] at hj
    obtain ⟨_, -, hc⟩ := Option.map_eq_some_iff.1 hj
    exact hc.symm
  · right
    rw [List.getElem?_set_ne (Ne.symm hij)] at hj
    exact ⟨j, hij, hj⟩

theorem Tidy.refuse {s : Session} {buffer : Message} {messages : List Bytes} (h : Tidy p s buffer messages) (i : Nat)
    (text : String) : Tidy p (step p s (.refuse i text)) buffer messages := by
  cases hi : s.calls[i]? with
  | none => simpa [step, hi] using h
  | some c =>
    cases hadv : advance c with
    | none => simpa [step, hi, hadv] using h
    | some out =>
      obtain ⟨segment, rest, hresult, hleft, -, -⟩ := advance_eq_some hadv
      have hc := List.mem_of_getElem? hi
      have hstep : step p s (.refuse i text) =
          { s with calls := s.calls.set i { c with result := some (.error (.dataChannel text)) } } := by
        simp [step, hi, hadv]
      rw [hstep]
      refine ⟨?_, h.receive, ?_, ?_, ?_⟩
      · intro c' hc'
        rcases List.mem_or_eq_of_mem_set hc' with hc' | rfl
        · exact h.calls c' hc'
        · exact ⟨(h.calls c hc).segments, by simp [hleft]⟩
      · have hperm := filterMap_set_perm (f := okMessage) hi (by simp [okMessage, hresult])
          { c with result := some (.error (.dataChannel text)) }
        exact h.messages.trans hperm.symm
      · intro c' hc' hmid
        rcases List.mem_or_eq_of_mem_set hc' with hc' | rfl
        · exact h.midway c' hc' hmid
        · exact h.midway c hc hmid
      · -- a refused call counts as unfinished still, so a fresh buffer was fresh before
        intro hnone
        refine h.fresh fun c' hc' hmid => ?_
        obtain ⟨j, hj⟩ := List.mem_iff_getElem?.1 hc'
        by_cases hij : j = i
        · subst hij
          rw [hi] at hj
          cases hj
          exact hnone _ (List.mem_set (List.getElem?_eq_some_iff.1 hi).1 _) hmid
        · exact hnone c' (List.mem_of_getElem? (by rwa [List.getElem?_set_ne (Ne.symm hij)])) hmid

/-- The accumulator stands where the call has got to, when no other call is under way. -/
theorem Tidy.feed_sent {s : Session} {buffer : Message} {messages : List Bytes} (h : Tidy p s buffer messages) {i : Nat}
    {c : Call} (hi : s.calls[i]? = some c) (hleft : c.left ≠ [])
    (hothers : ∀ j c', j ≠ i → s.calls[j]? = some c' → ¬ Midway c') :
    ∃ results, Message.feed p .new c.sent = some (buffer, results) := by
  by_cases hsent : c.sent = []
  · have hbuffer : buffer = .new := by
      refine h.fresh fun c' hc' hmid => ?_
      obtain ⟨j, hj⟩ := List.mem_iff_getElem?.1 hc'
      by_cases hij : j = i
      · subst hij
        rw [hi] at hj
        cases hj
        exact hmid.1 hsent
      · exact hothers j c' hij hj hmid
    rw [hsent, hbuffer]
    exact ⟨[], rfl⟩
  · exact h.midway c (List.mem_of_getElem? hi) ⟨hsent, hleft⟩

theorem Tidy.put {s : Session} {buffer : Message} {messages : List Bytes} (h : Tidy p s buffer messages) {i : Nat}
    (halone : Alone s (.put i)) : ∃ buffer' messages', Tidy p (step p s (.put i)) buffer' messages' := by
  cases hi : s.calls[i]? with
  | none => exact ⟨buffer, messages, by simpa [step, hi] using h⟩
  | some c =>
    cases hadv : advance c with
    | none => exact ⟨buffer, messages, by simpa [step, hi, hadv] using h⟩
    | some out =>
      obtain ⟨bytes, c'⟩ := out
      have hstep : step p s (.put i) = { s with calls := s.calls.set i c', channel := s.channel ++ [bytes] } := by
        simp [step, hi, hadv]
      have hsplits := (h.calls c (List.mem_of_getElem? hi)).advance hadv
      obtain ⟨segment, rest, hresult, hleft, rfl, rfl⟩ := advance_eq_some hadv
      obtain ⟨hdata, hothers⟩ := halone c hi
      -- no other call is in the middle of its message, so the buffer holds what this one has sent
      obtain ⟨results, hfeed⟩ := h.feed_sent hi (by simp [hleft]) hothers
      have hsplit : Message.splitIntoSegments p c.data = some (.ok (c.sent ++ segment :: rest)) := by
        rcases (h.calls c (List.mem_of_getElem? hi)).segments with hnil | hsplit
        · simp [hleft] at hnil
        · rwa [hleft] at hsplit
      obtain ⟨hsegment, hlast, hmore⟩ := addSegment_next hdata hsplit hfeed
      have hcalls :
        ∀ c'' ∈ s.calls.set i ⟨c.data, c.sent ++ [segment], rest, if rest = [] then some (.ok ()) else none⟩,
          Splits p c'' := by
        intro c'' hc''
        rcases List.mem_or_eq_of_mem_set hc'' with hc'' | rfl
        · exact h.calls c'' hc''
        · exact hsplits
      have hperm := filterMap_set_perm (f := okMessage) hi (by simp [okMessage, hresult])
        ⟨c.data, c.sent ++ [segment], rest, if rest = [] then some (.ok ()) else none⟩
      rw [hstep]
      -- the last segment completes the message and leaves the buffer new
      by_cases hrest : rest = []
      · subst hrest
        refine ⟨.new, messages ++ [c.data], hcalls, ?_, ?_, ?_, fun _ => rfl⟩
        · rw [receive_concat h.receive, onMessage_encode _ hsegment, hlast rfl]
          rfl
        · refine (List.perm_append_comm.trans (h.messages.append_left [c.data])).trans hperm.symm
        · intro c'' hc'' hmid
          rcases mem_calls_set hc'' with rfl | ⟨j, hij, hj⟩
          · exact absurd rfl hmid.2
          · exact absurd hmid (hothers j c'' hij hj)
      · obtain ⟨buffer', hadd⟩ := hmore hrest
        refine ⟨buffer', messages, hcalls, ?_, ?_, ?_, ?_⟩
        · rw [receive_concat h.receive, onMessage_encode _ hsegment, hadd]
          simp [completed]
        · refine h.messages.trans (List.Perm.trans ?_ hperm.symm)
          simp [hrest, okMessages, okMessage]
        · intro c'' hc'' hmid
          rcases mem_calls_set hc'' with rfl | ⟨j, hij, hj⟩
          · refine ⟨results ++ [.ok none], ?_⟩
            rw [Message.feed_concat hfeed, hadd]
            rfl
          · exact absurd hmid (hothers j c'' hij hj)
        · intro hnone
          refine absurd ⟨by simp, hrest⟩ (hnone _ (List.mem_set (List.getElem?_eq_some_iff.1 hi).1 _))

/-- One step of any call keeps the receiver in line, if the call is alone. -/
theorem Tidy.step {s : Session} {buffer : Message} {messages : List Bytes} (h : Tidy p s buffer messages) (a : Action)
    (halone : Alone s a) : ∃ buffer' messages', Tidy p (Session.step p s a) buffer' messages' := by
  cases a with
  | send data => exact ⟨buffer, messages, h.send data⟩
  | put i => exact h.put halone
  | refuse i text => exact ⟨buffer, messages, h.refuse i text⟩
  | close => exact ⟨buffer, messages, h.calls, h.receive, h.messages, h.midway, h.fresh⟩

theorem delivers_of_alone (closed reliableChannel : Bool) (acts : List Action)
    (h : Machine.Along (step p) Alone (idle closed reliableChannel) acts) :
    (Machine.run (step p) (idle closed reliableChannel) acts).Delivers p := by
  have hstep : ∀ s a, (∃ buffer messages, Tidy p s buffer messages) → Alone s a →
      ∃ buffer messages, Tidy p (step p s a) buffer messages := by
    rintro s a ⟨buffer, messages, htidy⟩ halone
    exact htidy.step a halone
  obtain ⟨buffer, messages, htidy⟩ := Machine.run_inv hstep acts ⟨.new, [], tidy_idle closed reliableChannel⟩ h
  exact ⟨buffer, messages, htidy.receive, htidy.messages⟩

end Session

end BedrockRs.Nethernet

/-
Which interleavings of concurrent sends the receiver can take apart (`session/mod.rs`). A segment does not
say whose it is, so the receiver finds the messages only where their segments follow one another. Where no
call failed with segments in the channel, this is exact: the receiver produces the sent messages exactly
when the channel is made of whole messages, none of them empty (`delivers_concurrent`).
-/
import BedrockRs.Nethernet.Session

namespace BedrockRs.Nethernet

open Lib

/-! ## Reading a countdown back -/

namespace Message

/-- A segment as the splitting makes them: all but the last of a message are full. -/
structure Shaped (s : MessageSegment) : Prop where
  le : s.data.length ≤ maxMessageSize
  full : s.remainingSegments ≠ 0 → s.data.length = maxMessageSize
  countable : s.remainingSegments ≠ 255

theorem shaped_of_mem_countdown {k : Nat} {data : Bytes} (hk : k ≤ 254) (hlo : maxMessageSize * k ≤ data.length)
    (hhi : data.length ≤ maxMessageSize * (k + 1)) : ∀ s ∈ countdown k data, Shaped s := by
  induction k generalizing data with
  | zero =>
    intro s hs
    obtain rfl := List.mem_singleton.1 hs
    exact ⟨by simpa using hhi, fun hne => absurd rfl hne, show (0 : UInt8) ≠ 255 by decide⟩
  | succ k ih =>
    intro s hs
    rw [Nat.mul_succ] at hlo hhi
    rcases List.mem_cons.1 hs with rfl | hs
    · have hfull : (data.take maxMessageSize).length = maxMessageSize := by
        rw [List.length_take]
        omega
      refine ⟨hfull.le, fun _ => hfull, fun h255 => ?_⟩
      have := congrArg UInt8.toNat h255
      rw [toNat_ofNat_small (by omega)] at this
      change k + 1 = 255 at this
      omega
    · refine ih (by omega) ?_ ?_ s hs <;> (rw [List.length_drop]; omega)

theorem CountsTo.of_cons {s : MessageSegment} {run : List MessageSegment} (h : CountsTo 0 (s :: run)) :
    s.remainingSegments.toNat = run.length ∧ CountsTo 0 run := by
  unfold CountsTo at *
  rw [List.length_cons, List.range'_1_concat, List.reverse_append, List.map_cons] at h
  simp only [List.reverse_singleton, List.singleton_append, List.cons.injEq] at h
  exact ⟨by simpa using h.1, h.2⟩

/-- A countdown to zero of well shaped segments is the countdown of its bytes. -/
theorem countdown_of_countsTo : ∀ {n : Nat} {run : List MessageSegment}, run.length = n + 1 → CountsTo 0 run →
    (∀ s ∈ run, Shaped s) → (∀ s ∈ run, s.data ≠ []) →
    n ≤ 254 ∧ run = countdown n (run.flatMap (·.data)) ∧
      maxMessageSize * n < (run.flatMap (·.data)).length ∧
      (run.flatMap (·.data)).length ≤ maxMessageSize * (n + 1) := by
  intro n
  induction n with
  | zero =>
    intro run hlen hcounts hshaped hne
    obtain ⟨s, rfl⟩ := List.length_eq_one_iff.1 hlen
    have hs : s.remainingSegments = 0 := UInt8.toNat_inj.1 hcounts.of_cons.1
    have hpos := List.length_pos_of_ne_nil (hne s (by simp))
    have hle := (hshaped s (by simp)).le
    obtain ⟨remaining, data⟩ := s
    obtain rfl : remaining = 0 := hs
    refine ⟨by omega, ?_⟩
    simpa [countdown] using ⟨hpos, hle⟩
  -- the first segment counts n + 1, so it is full; the others are the countdown from n
  | succ n ih =>
    intro run hlen hcounts hshaped hne
    obtain ⟨s, run, rfl⟩ := List.exists_cons_of_ne_nil (List.ne_nil_of_length_pos (by omega : 0 < run.length))
    have hlen' : run.length = n + 1 := by simpa using hlen
    obtain ⟨hs, hrun⟩ := hcounts.of_cons
    rw [hlen'] at hs
    have hremaining : s.remainingSegments = UInt8.ofNat (n + 1) := by rw [← hs, UInt8.ofNat_toNat]
    have hcountable : s.remainingSegments.toNat ≠ 255 :=
      fun h255 => (hshaped s (by simp)).countable (UInt8.toNat_inj.1 h255)
    have hlt := s.remainingSegments.toNat_lt
    have hfull : s.data.length = maxMessageSize :=
      (hshaped s (by simp)).full (by rw [hremaining]; exact ofNat_succ_ne_zero (by omega))
    obtain ⟨-, heq, hlo, hhi⟩ := ih hlen' hrun (fun s' hs' => hshaped s' (by simp [hs'])) fun s' hs' =>
      hne s' (by simp [hs'])
    refine ⟨by omega, ?_, ?_, ?_⟩
    · rw [List.flatMap_cons, countdown, List.take_left' hfull, List.drop_left' hfull, ← heq, ← hremaining]
    · rw [List.flatMap_cons, List.length_append, hfull, Nat.mul_succ]
      omega
    · rw [List.flatMap_cons, List.length_append, hfull, Nat.mul_succ]
      omega

end Message

/-! ## The channel of whole messages -/

/-- What a call puts into the channel for a message. -/
def wire (p : Profile) (data : Bytes) : List Bytes :=
  match Message.splitIntoSegments p data with
  | some (.ok segments) => segments.map MessageSegment.encode
  | _ => []

section Wire

variable {p : Profile}

theorem wire_eq {data : Bytes} {segments : List MessageSegment}
    (h : Message.splitIntoSegments p data = some (.ok segments)) :
    wire p data = segments.map MessageSegment.encode := by
  rw [wire, h]

/-- The receiver after a channel of segments: it has produced messages out of some of them and holds a
countdown of others, and if there are no more than these, the channel is those messages and the countdown. -/
structure Reads (p : Profile) (channel : List Bytes) (buffer : Message) (messages : List Bytes)
    (run : List MessageSegment) : Prop where
  counts : Message.CountsTo buffer.expectedSegments run
  data : buffer.data = run.flatMap (·.data)
  fresh : buffer.expectedSegments = 0 ↔ run = []
  shaped : ∀ s ∈ run, Message.Shaped s
  nonempty : ∀ s ∈ run, s.data ≠ []
  messages_ne : [] ∉ messages
  length_le : (messages.flatMap (wire p)).length + run.length ≤ channel.length
  exact : (messages.flatMap (wire p)).length + run.length = channel.length →
    channel = messages.flatMap (wire p) ++ run.map MessageSegment.encode

/-- The receiver between two messages. -/
theorem reads_new {channel messages : List Bytes} (hne : [] ∉ messages)
    (hle : (messages.flatMap (wire p)).length ≤ channel.length)
    (hexact : (messages.flatMap (wire p)).length = channel.length → channel = messages.flatMap (wire p)) :
    Reads p channel .new messages [] where
  counts := rfl
  data := rfl
  fresh := by simp [Message.new]
  shaped := by simp
  nonempty := by simp
  messages_ne := hne
  length_le := hle
  exact := by simpa using hexact

/-- Bytes the receiver drops belong to none of its messages. -/
theorem Reads.drop {channel messages : List Bytes} {buffer : Message} {run : List MessageSegment}
    (h : Reads p channel buffer messages run) (bytes : Bytes) :
    (messages.flatMap (wire p)).length + run.length < (channel ++ [bytes]).length := by
  have hle := h.length_le
  rw [List.length_append, List.length_singleton]
  omega

theorem Reads.skip {channel messages : List Bytes} {buffer : Message} {run : List MessageSegment}
    (h : Reads p channel buffer messages run) (bytes : Bytes) : Reads p (channel ++ [bytes]) buffer messages run :=
  { h with
    length_le := (h.drop bytes).le
    exact := fun heq => absurd heq (h.drop bytes).ne }

theorem Reads.reset {channel messages : List Bytes} {buffer : Message} {run : List MessageSegment}
    (h : Reads p channel buffer messages run) (bytes : Bytes) : Reads p (channel ++ [bytes]) .new messages [] := by
  have hlt := h.drop bytes
  exact reads_new h.messages_ne (by omega) fun heq => by omega

theorem Reads.more {channel messages : List Bytes} {buffer : Message} {run : List MessageSegment} {s : MessageSegment}
    (h : Reads p channel buffer messages run) (hawaits : buffer.Awaits s) (hlast : s.remainingSegments ≠ 0)
    (hshaped : Message.Shaped s) (hdata : s.data ≠ []) :
    Reads p (channel ++ [s.encode]) ⟨s.remainingSegments, buffer.data ++ s.data⟩ messages (run ++ [s]) where
  counts := h.counts.concat_of_awaits h.fresh.1 hawaits
  data := by simp [h.data]
  fresh := by simp [hlast]
  shaped := by
    intro s' hs'
    rcases List.mem_append.1 hs' with hs' | hs'
    · exact h.shaped s' hs'
    · rwa [List.mem_singleton.1 hs']
  nonempty := by
    intro s' hs'
    rcases List.mem_append.1 hs' with hs' | hs'
    · exact h.nonempty s' hs'
    · rwa [List.mem_singleton.1 hs']
  messages_ne := h.messages_ne
  length_le := by
    have hle := h.length_le
    simp only [List.length_append, List.length_singleton]
    omega
  exact := by
    intro heq
    simp only [List.length_append, List.length_singleton] at heq
    have hchannel := h.exact (by omega)
    rw [hchannel]
    simp

/-- The last segment of a countdown: the message it completes is split into just these segments. -/
theorem Reads.complete {channel messages : List Bytes} {buffer : Message} {run : List MessageSegment}
    {s : MessageSegment} (h : Reads p channel buffer messages run) (hawaits : buffer.Awaits s)
    (hlast : s.remainingSegments = 0) (hshaped : Message.Shaped s) (hdata : s.data ≠ []) :
    Reads p (channel ++ [s.encode]) .new (messages ++ [buffer.data ++ s.data]) [] := by
  have hcounts : Message.CountsTo 0 (run ++ [s]) := by
    rw [← hlast]
    exact h.counts.concat_of_awaits h.fresh.1 hawaits
  have hbytes : buffer.data ++ s.data = (run ++ [s]).flatMap (·.data) := by simp [h.data]
  have hall : ∀ s' ∈ run ++ [s], Message.Shaped s' ∧ s'.data ≠ [] := by
    intro s' hs'
    rcases List.mem_append.1 hs' with hs' | hs'
    · exact ⟨h.shaped s' hs', h.nonempty s' hs'⟩
    · rw [List.mem_singleton.1 hs']
      exact ⟨hshaped, hdata⟩
  obtain ⟨hk, hrun, hlo, hhi⟩ := Message.countdown_of_countsTo (n := run.length) (by simp) hcounts
    (fun s' hs' => (hall s' hs').1) fun s' hs' => (hall s' hs').2
  have hwire : wire p (buffer.data ++ s.data) = (run ++ [s]).map MessageSegment.encode := by
    rw [hbytes, wire_eq (Message.splitIntoSegments_eq hk hlo hhi), ← hrun]
  have hle := h.length_le
  refine reads_new ?_ ?_ fun heq => ?_
  · simp [h.messages_ne, hdata]
  · simp only [List.flatMap_append, List.flatMap_singleton, hwire, List.length_append, List.length_map,
      List.length_singleton]
    omega
  · simp only [List.flatMap_append, List.flatMap_singleton, hwire, List.length_append, List.length_map,
      List.length_singleton] at heq
    rw [h.exact (by omega)]
    simp [hwire]

/-- One segment more in the channel. -/
theorem Reads.onMessage {channel messages : List Bytes} {buffer : Message} {run : List MessageSegment}
    {s : MessageSegment} (h : Reads p channel buffer messages run) (hshaped : Message.Shaped s) :
    ∃ buffer' complete run', Nethernet.onMessage p buffer s.encode = some (buffer', complete) ∧
      Reads p (channel ++ [s.encode]) buffer' (messages ++ complete.toList) run' := by
  by_cases hdata : s.data = []
  · refine ⟨buffer, none, run, ?_, by simpa using h.skip s.encode⟩
    obtain ⟨remaining, data⟩ := s
    obtain rfl : data = [] := hdata
    rfl
  rw [onMessage_encode _ hdata]
  by_cases hawaits : buffer.Awaits s
  · rw [Message.addSegment_awaits hawaits, Message.append]
    by_cases hlast : s.remainingSegments = 0
    · rw [if_pos hlast]
      exact ⟨.new, _, [], rfl, h.complete hawaits hlast hshaped hdata⟩
    · rw [if_neg hlast]
      exact ⟨_, none, run ++ [s], rfl, by simpa using h.more hawaits hlast hshaped hdata⟩
  · obtain ⟨hbusy, horder⟩ := Message.out_of_order_of_not_awaits hawaits fun hover => hshaped.countable hover.2
    rw [Message.addSegment_out_of_order hbusy horder]
    exact ⟨.new, none, [], rfl, by simpa using h.reset s.encode⟩

theorem reads_receive : ∀ {segments : List MessageSegment}, (∀ s ∈ segments, Message.Shaped s) →
    ∃ buffer messages run, receive p .new (segments.map MessageSegment.encode) = some (buffer, messages) ∧
      Reads p (segments.map MessageSegment.encode) buffer messages run := by
  intro segments
  induction segments using List.reverseRecOn with
  | nil => exact fun _ => ⟨.new, [], [], rfl, reads_new (by simp) (by simp) (by simp)⟩
  | append_singleton segments s ih =>
    intro hshaped
    obtain ⟨buffer, messages, run, hreceive, hreads⟩ := ih fun s' hs' => hshaped s' (by simp [hs'])
    obtain ⟨buffer', complete, run', hnext, hreads'⟩ := hreads.onMessage (hshaped s (by simp))
    refine ⟨buffer', messages ++ complete.toList, run', ?_, by simpa using hreads'⟩
    rw [List.map_append, List.map_singleton, receive_concat hreceive, hnext]
    rfl

theorem receive_encode {buffer buffer' : Message} {results : List (Except NethernetError (Option Bytes))}
    (rest : List Bytes) : ∀ {segments : List MessageSegment}, (∀ s ∈ segments, s.data ≠ []) →
      Message.feed p buffer segments = some (buffer', results) →
      receive p buffer (segments.map MessageSegment.encode ++ rest) =
        (receive p buffer' rest).map fun out => (out.1, results.filterMap completed ++ out.2) := by
  intro segments
  induction segments generalizing buffer results with
  | nil =>
    intro _ hfeed
    cases hfeed
    simp
  | cons s segments ih =>
    intro hdata hfeed
    cases hadd : buffer.addSegment p s with
    | none => simp [Message.feed, hadd] at hfeed
    | some out =>
      obtain ⟨next, r⟩ := out
      rw [Message.feed_cons hadd] at hfeed
      obtain ⟨⟨last, results'⟩, hfeed', hout⟩ := Option.map_eq_some_iff.1 hfeed
      cases hout
      have hfirst : onMessage p buffer s.encode = some (next, completed r) := by
        rw [onMessage_encode s (hdata s (by simp)), hadd]
        rfl
      rw [List.map_cons, List.cons_append, receive_cons hfirst, ih (fun s' hs' => hdata s' (by simp [hs'])) hfeed',
        Option.map_map]
      refine Option.map_congr fun out _ => ?_
      cases hr : completed r <;> simp [hr]

theorem receive_wire {data : Bytes} {segments : List MessageSegment} (hdata : data ≠ [])
    (h : Message.splitIntoSegments p data = some (.ok segments)) (rest : List Bytes) :
    receive p .new (wire p data ++ rest) = (receive p .new rest).map fun out => (out.1, data :: out.2) := by
  obtain ⟨k, hk, hlo, hhi, rfl⟩ := Session.countdown_of_split hdata h
  have hne : ∀ s ∈ Message.countdown k data, s.data ≠ [] := fun s hs =>
    List.ne_nil_of_length_pos (Message.length_data_of_mem_countdown hlo hhi s hs).1
  rw [wire_eq h, receive_encode rest hne (Message.feed_countdown hk data (.inl rfl))]
  refine Option.map_congr fun out _ => ?_
  rw [List.filterMap_append, List.filterMap_replicate_of_none rfl]
  rfl

theorem receive_wires : ∀ {messages : List Bytes},
    (∀ data ∈ messages, data ≠ [] ∧ ∃ segments, Message.splitIntoSegments p data = some (.ok segments)) →
      receive p .new (messages.flatMap (wire p)) = some (.new, messages)
  | [], _ => rfl
  | data :: messages, h => by
    obtain ⟨hdata, segments, hsplit⟩ := h data (by simp)
    rw [List.flatMap_cons, receive_wire hdata hsplit, receive_wires fun data' hdata' => h data' (by simp [hdata'])]
    rfl

end Wire

namespace Session

variable {p : Profile}

/-! ## The channel of a run -/

/-- The channel holds the segments the calls have handed over, in some order. -/
structure Carries (p : Profile) (s : Session) (segments : List MessageSegment) : Prop where
  calls : ∀ c ∈ s.calls, Splits p c
  channel : s.channel = segments.map MessageSegment.encode
  segments : segments.Perm (s.calls.flatMap (·.sent))

theorem Carries.step {s : Session} {segments : List MessageSegment} (h : Carries p s segments) (a : Action) :
    ∃ segments', Carries p (Session.step p s a) segments' := by
  cases a with
  | send data =>
    refine ⟨segments, ?_, h.channel, ?_⟩
    · intro c hc
      rcases List.mem_append.1 hc with hc | hc
      · exact h.calls c hc
      · rw [List.mem_singleton.1 hc]
        exact splits_send s data
    · refine h.segments.trans (List.Perm.of_eq ?_)
      simp [Session.step, sent_send]
  | put i =>
    cases hi : s.calls[i]? with
    | none => exact ⟨segments, by simpa [Session.step, hi] using h⟩
    | some c =>
      cases hadv : advance c with
      | none => exact ⟨segments, by simpa [Session.step, hi, hadv] using h⟩
      | some out =>
        obtain ⟨bytes, c'⟩ := out
        have hstep : Session.step p s (.put i) =
            { s with calls := s.calls.set i c', channel := s.channel ++ [bytes] } := by
          simp [Session.step, hi, hadv]
        have hsplits := (h.calls c (List.mem_of_getElem? hi)).advance hadv
        obtain ⟨segment, rest, hresult, hleft, rfl, hc'⟩ := advance_eq_some hadv
        rw [hstep]
        -- the segment goes behind all others, wherever its call stands in the list
        refine ⟨segments ++ [segment], ?_, by simp [h.channel], ?_⟩
        · intro c'' hc''
          rcases List.mem_or_eq_of_mem_set hc'' with hc'' | rfl
          · exact h.calls c'' hc''
          · exact hsplits
        · have hsent : c'.sent = c.sent ++ [segment] := by rw [hc']
          exact (h.segments.append_right [segment]).trans (flatMap_set_perm hi hsent).symm
  | refuse i text =>
    cases hi : s.calls[i]? with
    | none => exact ⟨segments, by simpa [Session.step, hi] using h⟩
    | some c =>
      cases hadv : advance c with
      | none => exact ⟨segments, by simpa [Session.step, hi, hadv] using h⟩
      | some out =>
        obtain ⟨segment, rest, hresult, hleft, -, -⟩ := advance_eq_some hadv
        have hstep : Session.step p s (.refuse i text) =
            { s with calls := s.calls.set i { c with result := some (.error (.dataChannel text)) } } := by
          simp [Session.step, hi, hadv]
        rw [hstep]
        refine ⟨segments, ?_, h.channel, ?_⟩
        · intro c' hc'
          rcases List.mem_or_eq_of_mem_set hc' with hc' | rfl
          · exact h.calls c' hc'
          · exact ⟨(h.calls c (List.mem_of_getElem? hi)).segments, by simp [hleft]⟩
        · -- a refused segment is not sent, and its call is over
          have hset : ((s.calls.set i { c with result := some (.error (.dataChannel text)) }).flatMap Call.sent).Perm
              (s.calls.flatMap Call.sent ++ []) := flatMap_set_perm hi (by simp)
          rw [List.append_nil] at hset
          exact h.segments.trans hset.symm
  | close => exact ⟨segments, h.calls, h.channel, h.segments⟩

theorem carries_run (closed reliableChannel : Bool) (acts : List Action) :
    ∃ segments, Carries p (Machine.run (step p) (idle closed reliableChannel) acts) segments := by
  refine Machine.run_inv_all (P := fun s => ∃ segments, Carries p s segments) ?_ acts ?_
  · rintro s a ⟨segments, h⟩
    exact h.step a
  · exact ⟨[], by simp [idle], rfl, List.Perm.refl _⟩

theorem shaped_of_split {data : Bytes} {segments : List MessageSegment}
    (h : Message.splitIntoSegments p data = some (.ok segments)) : ∀ s ∈ segments, Message.Shaped s := by
  by_cases hdata : data = []
  · subst hdata
    cases h
    have hempty : ∀ s ∈ Message.countdown 0 [], Message.Shaped s :=
      Message.shaped_of_mem_countdown (by omega) (by simp) (by simp)
    exact hempty
  · obtain ⟨k, hk, hlo, hhi, rfl⟩ := countdown_of_split hdata h
    exact Message.shaped_of_mem_countdown hk hlo.le hhi

theorem Splits.shaped {c : Call} (h : Splits p c) : ∀ s ∈ c.sent, Message.Shaped s := by
  intro s hs
  rcases h.segments with hnil | hsplit
  · rw [(List.append_eq_nil_iff.1 hnil).1] at hs
    cases hs
  · exact shaped_of_split hsplit s (List.mem_append_left _ hs)

/-- A call that returned `Ok` has handed over its whole message. -/
theorem Splits.split_of_ok {c : Call} (h : Splits p c) (hok : c.result = some (.ok ())) :
    Message.splitIntoSegments p c.data = some (.ok c.sent) := by
  obtain ⟨hsent, hleft⟩ := h.ok_iff.1 hok
  have hsegments := h.segments
  rw [hleft, List.append_nil] at hsegments
  exact hsegments.resolve_left hsent

/-- Every call has put its whole message into the channel and returned `Ok`, or has put nothing there. -/
def Settled (s : Session) : Prop := ∀ c ∈ s.calls, c.result = some (.ok ()) ∨ c.sent = []

theorem sent_of_settled {calls : List Call} (hcalls : ∀ c ∈ calls, Splits p c)
    (hdone : ∀ c ∈ calls, c.result = some (.ok ()) ∨ c.sent = []) :
    (calls.flatMap (·.sent)).map MessageSegment.encode = (calls.filterMap okMessage).flatMap (wire p) := by
  induction calls with
  | nil => rfl
  | cons c calls ih =>
    have hrest := ih (fun c' hc' => hcalls c' (by simp [hc'])) fun c' hc' => hdone c' (by simp [hc'])
    have hc := hcalls c (by simp)
    rw [List.flatMap_cons, List.map_append, hrest]
    by_cases hok : c.result = some (.ok ())
    · rw [List.filterMap_cons_some (by rw [okMessage, if_pos hok]), List.flatMap_cons, wire_eq (hc.split_of_ok hok)]
    · rw [List.filterMap_cons_none (by rw [okMessage, if_neg hok]), (hdone c (by simp)).resolve_left hok]
      rfl

theorem split_of_mem_okMessages {s : Session} {segments : List MessageSegment} (h : Carries p s segments) {data : Bytes}
    (hdata : data ∈ s.okMessages) : ∃ segments, Message.splitIntoSegments p data = some (.ok segments) := by
  obtain ⟨c, hc, hok⟩ := List.mem_filterMap.1 hdata
  unfold okMessage at hok
  split_ifs at hok with hresult
  cases hok
  exact ⟨c.sent, (h.calls c hc).split_of_ok hresult⟩

theorem Carries.delivers_iff {s : Session} {segments : List MessageSegment} (h : Carries p s segments)
    (hdone : Settled s) :
    s.Delivers p ↔ [] ∉ s.okMessages ∧ ∃ order : List Bytes, order.Perm s.okMessages ∧
      s.channel = order.flatMap (wire p) := by
  constructor
  · rintro ⟨buffer, messages, hreceive, hperm⟩
    have hshaped : ∀ s' ∈ segments, Message.Shaped s' := by
      intro s' hs'
      obtain ⟨c, hc, hsent⟩ := List.mem_flatMap.1 (h.segments.subset hs')
      exact (h.calls c hc).shaped s' hsent
    obtain ⟨buffer', messages', run, hreceive', hreads⟩ := reads_receive (p := p) hshaped
    rw [← h.channel] at hreceive' hreads
    rw [hreceive] at hreceive'
    cases hreceive'
    -- as many packets as the messages need: then none of them was wasted, and they are the messages
    have hlength : s.channel.length = (messages.flatMap (wire p)).length := by
      calc s.channel.length = ((s.calls.flatMap (·.sent)).map MessageSegment.encode).length := by
            rw [h.channel]
            exact (h.segments.map _).length_eq
        _ = (s.okMessages.flatMap (wire p)).length := by
            rw [sent_of_settled h.calls hdone]
            rfl
        _ = _ := (hperm.flatMap_right (wire p)).length_eq.symm
    have hle := hreads.length_le
    have hrun : run = [] := List.length_eq_zero_iff.1 (by omega)
    refine ⟨fun hnil => hreads.messages_ne (hperm.mem_iff.2 hnil), messages, hperm, ?_⟩
    simpa [hrun] using hreads.exact (by rw [hrun, List.length_nil, hlength]; rfl)
  · rintro ⟨hne, order, hperm, hchannel⟩
    refine ⟨.new, order, ?_, hperm⟩
    rw [hchannel]
    refine receive_wires fun data hdata => ⟨?_, split_of_mem_okMessages h (hperm.mem_iff.1 hdata)⟩
    rintro rfl
    exact hne (hperm.mem_iff.1 hdata)

/-- Concurrent sends: in every run whose segments each go out while no other call is under way, and of a
message that is not empty, the receiver produces exactly the messages whose send returned `Ok`. After a run
whose calls all returned `Ok` or put nothing into the channel, it does so exactly when the channel is made
of whole messages, none of them empty. -/
theorem delivers_concurrent (p : Profile) (closed reliableChannel : Bool) (acts : List Action) :
    (Machine.Along (step p) Alone (idle closed reliableChannel) acts →
      (Machine.run (step p) (idle closed reliableChannel) acts).Delivers p) ∧
    (Settled (Machine.run (step p) (idle closed reliableChannel) acts) →
      ((Machine.run (step p) (idle closed reliableChannel) acts).Delivers p ↔
        [] ∉ (Machine.run (step p) (idle closed reliableChannel) acts).okMessages ∧
        ∃ order : List Bytes, order.Perm (Machine.run (step p) (idle closed reliableChannel) acts).okMessages ∧
          (Machine.run (step p) (idle closed reliableChannel) acts).channel = order.flatMap (wire p))) := by
  constructor
  · exact delivers_of_alone closed reliableChannel acts
  · intro hdone
    obtain ⟨segments, hcarries⟩ := carries_run (p := p) closed reliableChannel acts
    exact hcarries.delivers_iff hdone

/-- Two sends that meet, one of a full segment and a byte and one of a single byte. -/
theorem interleaved_run {full : Bytes} (hfull : full.length = maxMessageSize) :
    Machine.run (step .release) (idle false true) [.send (full ++ [0]), .send [7], .put 0, .put 1, .put 0] =
      ⟨false, true, [⟨full ++ [0], [⟨1, full⟩, ⟨0, [0]⟩], [], some (.ok ())⟩, ⟨[7], [⟨0, [7]⟩], [], some (.ok ())⟩],
        [1 :: full, [0, 7], [0, 0]]⟩ := by
  have hlen : (full ++ [0]).length = 10001 := by
    rw [List.length_append, hfull]
    rfl
  have hsplit : Message.splitIntoSegments .release (full ++ [0]) = some (.ok [⟨1, full⟩, ⟨0, [0]⟩]) := by
    rw [Message.splitIntoSegments_eq (k := 1) (by omega) (by rw [hlen]; decide) (by rw [hlen]; decide),
      Message.countdown, List.take_left' hfull, List.drop_left' hfull]
    rfl
  have hsend : Session.send .release (idle false true) (full ++ [0]) =
      ⟨full ++ [0], [], [⟨1, full⟩, ⟨0, [0]⟩], none⟩ := by
    rw [Session.send, if_neg (by decide), if_neg (by decide), hsplit]
  simp only [Machine.run_cons, step, hsend]
  rfl

/-- The one byte of the second message completes the first segment of the first: both calls return `Ok`, and
neither message arrives. -/
theorem delivers_fails_interleaved :
    ∃ s, s = Machine.run (step .release) (idle false true)
        [.send (List.replicate 10000 0 ++ [0]), .send [7], .put 0, .put 1, .put 0] ∧
      s.okMessages = [List.replicate 10000 0 ++ [0], [7]] ∧
      receive .release .new s.channel = some (.new, [List.replicate 10000 0 ++ [7], [0]]) ∧ ¬ s.Delivers .release := by
  have hfull : (List.replicate 10000 (0 : UInt8)).length = maxMessageSize := List.length_replicate
  revert hfull
  -- only the length of the first segment matters, so that it is never written out
  generalize List.replicate 10000 (0 : UInt8) = full
  intro hfull
  have hne : full ≠ [] := List.ne_nil_of_length_pos (by rw [hfull]; decide)
  have hreceive : receive .release .new [1 :: full, [0, 7], [0, 0]] = some (.new, [full ++ [7], [0]]) := by
    have hfirst : onMessage .release .new (1 :: full) = some (⟨1, full⟩, none) := by
      have hawaits : Message.new.Awaits ⟨1, full⟩ := show (1 : UInt8) ≠ 255 by decide
      exact (onMessage_encode ⟨1, full⟩ hne).trans (by rw [Message.addSegment_awaits hawaits]; rfl)
    have hsecond : onMessage .release ⟨1, full⟩ [0, 7] = some (.new, some (full ++ [7])) := by
      have hawaits : Message.Awaits ⟨1, full⟩ ⟨0, [7]⟩ := show (1 : UInt8) = 0 + 1 by decide
      exact (onMessage_encode ⟨0, [7]⟩ (by simp)).trans (by rw [Message.addSegment_awaits hawaits]; rfl)
    rw [receive_cons hfirst, receive_cons hsecond]
    rfl
  refine ⟨_, rfl, ?_⟩
  rw [interleaved_run hfull]
  refine ⟨rfl, hreceive, ?_⟩
  rintro ⟨buffer, messages, hmessages, hperm⟩
  rw [hreceive] at hmessages
  cases hmessages
  have hseven : [7] ∈ [full ++ [7], [0]] := hperm.mem_iff.2 (by simp [okMessages, okMessage])
  simp [hne] at hseven

end Session

end BedrockRs.Nethernet

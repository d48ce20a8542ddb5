/-
A NetherNet stream as a stream of bytes (`transport/stream.rs`). `poll_write` starts a send of the whole
buffer and says that it took all of it, also where the send has yet to wait; the next poll goes on with
that send before it does anything else. At the other end every message that was put together is a chunk
of what is read.

What is read is what was written (`received_accepted`): the chunks that come out are the buffers that
went in, in their order, with none missing in between, as long as no poll has returned an error; and a
flush that is ready has handed everything over.
-/
import BedrockRs.Nethernet.Interleaving

namespace BedrockRs.Nethernet

open Lib

inductive Poll (α : Type) where
  | ready (a : α)
  | pending
deriving DecidableEq

/-- The errors inside the `io::Error` of a poll. -/
inductive StreamError where
  | session (e : NethernetError)
  | webRtc (text : String)
deriving DecidableEq

/-- What a future finds where it waits. A lock never refuses. -/
inductive Await where
  | ready
  | refused (error : String)

/-! ## The writer -/

/-- The future of `session.send(data)`, by what it waits for. -/
inductive SendFuture where
  /-- The lock of `closed`. -/
  | closed (data : Bytes)
  /-- The lock of the reliable channel. -/
  | channel (data : Bytes)
  /-- The channel, which takes the first of the segments left. -/
  | sending (left : List MessageSegment)

/-- A future that was polled. -/
inductive Progress (φ ε : Type) where
  | waiting (f : φ)
  | done (result : Except ε Unit)

namespace SendFuture

/-- The loop of `send`. -/
def loop : List MessageSegment → Progress SendFuture NethernetError
  | [] => .done (.ok ())
  | left => .waiting (.sending left)

/-- The future gets past one wait; `none` is a panic. -/
def resume (p : Profile) (s : Session) : SendFuture → Await → Option (Session × Progress SendFuture NethernetError)
  | .closed data, _ => some (s, if s.closed then .done (.error .connectionClosed) else .waiting (.channel data))
  | .channel data, _ =>
    if s.reliableChannel = false then some (s, .done (.error (.dataChannel "Reliable channel not set")))
    else
      match Message.splitIntoSegments p data with
      | some (.ok segments) => some (s, loop segments)
      | some (.error e) => some (s, .done (.error e))
      | none => none
  | .sending (segment :: rest), .ready => some ({ s with channel := s.channel ++ [segment.encode] }, loop rest)
  | .sending (_ :: _), .refused error => some (s, .done (.error (.dataChannel error)))
  | .sending [], _ => some (s, .done (.ok ()))

/-- One poll: the future goes on for as long as it finds an answer. -/
def poll (p : Profile) : List Await → Session → SendFuture → Option (Session × Progress SendFuture NethernetError)
  | [], s, f => some (s, .waiting f)
  | answer :: answers, s, f => do
    let (s, progress) ← resume p s f answer
    match progress with
    | .waiting f => poll p answers s f
    | .done result => return (s, .done result)

end SendFuture

/-- The future of `session.close()`. -/
inductive CloseFuture where
  /-- The lock of `closed`. -/
  | closed
  /-- The data channels, whose errors do not matter. -/
  | channels
  | connection

namespace CloseFuture

def resume (s : Session) : CloseFuture → Await → Session × Progress CloseFuture String
  | .closed, _ => if s.closed then (s, .done (.ok ())) else ({ s with closed := true }, .waiting .channels)
  | .channels, _ => (s, .waiting .connection)
  | .connection, .ready => (s, .done (.ok ()))
  | .connection, .refused error => (s, .done (.error error))

def poll : List Await → Session → CloseFuture → Session × Progress CloseFuture String
  | [], s, f => (s, .waiting f)
  | answer :: answers, s, f =>
    match resume s f answer with
    | (s, .waiting f) => poll answers s f
    | (s, .done result) => (s, .done result)

end CloseFuture

structure NethernetStream where
  session : Session
  sendFuture : Option SendFuture
  shutdownFuture : Option CloseFuture

namespace NethernetStream

def fromSession (session : Session) : NethernetStream := ⟨session, none, none⟩

def startSend (p : Profile) (x : NethernetStream) (buf : Bytes) (answers : List Await) :
    Option (NethernetStream × Poll (Except StreamError Nat)) := do
  let (session, progress) ← SendFuture.poll p answers x.session (.closed buf)
  match progress with
  | .done (.ok ()) => return ({ x with session, sendFuture := none }, .ready (.ok buf.length))
  | .done (.error e) => return ({ x with session, sendFuture := none }, .ready (.error (.session e)))
  | .waiting f => return ({ x with session, sendFuture := some f }, .ready (.ok buf.length))

/-- `poll_write`: what the send under way finds, and then the new one. -/
def pollWrite (p : Profile) (x : NethernetStream) (buf : Bytes) (answers answers' : List Await) :
    Option (NethernetStream × Poll (Except StreamError Nat)) :=
  match x.sendFuture with
  | none => x.startSend p buf answers'
  | some f => do
    let (session, progress) ← f.poll p answers x.session
    match progress with
    | .done (.ok ()) => startSend p { x with session, sendFuture := none } buf answers'
    | .done (.error e) => return ({ x with session, sendFuture := none }, .ready (.error (.session e)))
    | .waiting f => return ({ x with session, sendFuture := some f }, .pending)

def pollFlush (p : Profile) (x : NethernetStream) (answers : List Await) :
    Option (NethernetStream × Poll (Except StreamError Unit)) :=
  match x.sendFuture with
  | none => some (x, .ready (.ok ()))
  | some f => do
    let (session, progress) ← f.poll p answers x.session
    match progress with
    | .done (.ok ()) => return ({ x with session, sendFuture := none }, .ready (.ok ()))
    | .done (.error e) => return ({ x with session, sendFuture := none }, .ready (.error (.session e)))
    | .waiting f => return ({ x with session, sendFuture := some f }, .pending)

def pollShutdown (p : Profile) (x : NethernetStream) (answers answers' : List Await) :
    Option (NethernetStream × Poll (Except StreamError Unit)) := do
  let (x, flushed) ← x.pollFlush p answers
  match flushed with
  | .ready (.ok ()) =>
    match CloseFuture.poll answers' x.session (x.shutdownFuture.getD .closed) with
    | (session, .done (.ok ())) => return ({ x with session, shutdownFuture := none }, .ready (.ok ()))
    | (session, .done (.error e)) => return ({ x with session, shutdownFuture := none }, .ready (.error (.webRtc e)))
    | (session, .waiting f) => return ({ x with session, shutdownFuture := some f }, .pending)
  | poll => return (x, poll)

end NethernetStream

/-! ## The reader -/

/-- The future of `session.recv()`, by what it waits for. -/
inductive RecvFuture where
  | closed
  | packets

/-- A session and the stream of chunks that is read from it. -/
structure SessionStream where
  closed : Bool
  messageBuffer : Message
  packets : List Bytes
  recvFuture : RecvFuture

namespace SessionStream

def new : SessionStream := ⟨false, .new, [], .closed⟩

/-- The handler of the reliable channel. -/
def handle (p : Profile) (x : SessionStream) (data : Bytes) : Option SessionStream := do
  let (messageBuffer, complete) ← onMessage p x.messageBuffer data
  return { x with messageBuffer, packets := x.packets ++ complete.toList }

/-- `poll_next`, which gets past so many locks; a new future of `recv` takes the place of one that is ready. -/
def pollNext (x : SessionStream) : Nat → SessionStream × Poll (Option Bytes)
  | 0 => (x, .pending)
  | locks + 1 =>
    match x.recvFuture with
    | .closed => if x.closed then (x, .ready none) else pollNext { x with recvFuture := .packets } locks
    | .packets =>
      match x.packets with
      | [] => (x, .pending)
      | data :: packets => ({ x with packets, recvFuture := .closed }, .ready (some data))

end SessionStream

/-! ## Both ends -/

/-- A writer and a reader with the channel between them, and what has passed the ends. -/
structure ByteStream where
  writer : NethernetStream
  reader : SessionStream
  /-- How much of what the channel took the reader's handler has taken. -/
  taken : Nat
  /-- The bytes of each write that said it took them. -/
  accepted : List Bytes
  /-- A poll of the writer has returned an error. -/
  failed : Bool
  /-- The chunks that came out. -/
  received : List Bytes

namespace ByteStream

inductive Op where
  | write (buf : Bytes) (answers answers' : List Await)
  | flush (answers : List Await)
  | shutdown (answers answers' : List Await)
  /-- Another task closes the writer's session. -/
  | closeWriter
  /-- The reader's handler takes what the channel brings next. -/
  | deliver
  | read (locks : Nat)
  | closeReader

def new (reliableChannel : Bool) : ByteStream := ⟨.fromSession (.idle false reliableChannel), .new, 0, [], false, []⟩

/-- What a write took of its buffer. -/
def acceptedBy (buf : Bytes) : Poll (Except StreamError Nat) → List Bytes
  | .ready (.ok n) => [buf.take n]
  | _ => []

def isError {α : Type} : Poll (Except StreamError α) → Bool
  | .ready (.error _) => true
  | _ => false

def chunk : Poll (Option Bytes) → List Bytes
  | .ready (some data) => [data]
  | _ => []

def step (p : Profile) (x : ByteStream) : Op → Option ByteStream
  | .write buf answers answers' => do
    let (writer, poll) ← x.writer.pollWrite p buf answers answers'
    return { x with writer, accepted := x.accepted ++ acceptedBy buf poll, failed := x.failed || isError poll }
  | .flush answers => do
    let (writer, poll) ← x.writer.pollFlush p answers
    return { x with writer, failed := x.failed || isError poll }
  | .shutdown answers answers' => do
    let (writer, poll) ← x.writer.pollShutdown p answers answers'
    return { x with writer, failed := x.failed || isError poll }
  | .closeWriter => some { x with writer.session.closed := true }
  | .deliver => do
    let data ← x.writer.session.channel[x.taken]?
    let reader ← x.reader.handle p data
    return { x with reader, taken := x.taken + 1 }
  | .read locks =>
    let (reader, poll) := x.reader.pollNext locks
    some { x with reader, received := x.received ++ chunk poll }
  | .closeReader => some { x with reader.closed := true }

def after (p : Profile) (reliableChannel : Bool) (ops : List Op) : Option ByteStream :=
  Machine.run (Machine.advance (step p)) (some (new reliableChannel)) ops

end ByteStream

section

variable {p : Profile}

/-! ## What the channel has taken -/

/-- How far a send of `data` has got that has handed over the segments `sent`. -/
inductive Continues (p : Profile) (data : Bytes) : SendFuture → List MessageSegment → Prop
  | closed : Continues p data (.closed data) []
  | channel : Continues p data (.channel data) []
  | sending {sent left} (hsplit : Message.splitIntoSegments p data = some (.ok (sent ++ left))) (hleft : left ≠ []) :
    Continues p data (.sending left) sent

/-- A send that was polled: it waits, or it has handed over its whole message, or it has failed. -/
def Reaches (p : Profile) (data : Bytes) (sent : List MessageSegment) : Progress SendFuture NethernetError → Prop
  | .waiting f => Continues p data f sent
  | .done (.ok ()) => Message.splitIntoSegments p data = some (.ok sent)
  | .done (.error _) => True

theorem reaches_loop {data : Bytes} {sent left : List MessageSegment}
    (hsplit : Message.splitIntoSegments p data = some (.ok (sent ++ left))) :
    Reaches p data sent (SendFuture.loop left) := by
  cases left with
  | nil => rwa [List.append_nil] at hsplit
  | cons segment rest => exact .sending hsplit (by simp)

theorem SendFuture.resume_reaches {s s' : Session} {f : SendFuture} {answer : Await} {data : Bytes}
    {sent : List MessageSegment} {progress : Progress SendFuture NethernetError} (hf : Continues p data f sent)
    (h : resume p s f answer = some (s', progress)) :
    ∃ more, s' = { s with channel := s.channel ++ more.map MessageSegment.encode } ∧
      Reaches p data (sent ++ more) progress := by
  have hsame : s = { s with channel := s.channel ++ List.map MessageSegment.encode [] } := by simp
  cases hf with
  | closed =>
    cases h
    refine ⟨[], hsame, ?_⟩
    split_ifs
    · trivial
    · exact .channel
  | channel =>
    rw [resume] at h
    split_ifs at h with hchannel
    · cases h
      exact ⟨[], hsame, trivial⟩
    · cases hsplit : Message.splitIntoSegments p data with
      | none =>
        rw [hsplit] at h
        cases h
      | some out =>
        rw [hsplit] at h
        cases out with
        | error e =>
          cases h
          exact ⟨[], hsame, trivial⟩
        | ok segments =>
          cases h
          exact ⟨[], hsame, reaches_loop hsplit⟩
  | @sending _ left hsplit hleft =>
    obtain ⟨segment, rest, rfl⟩ := List.exists_cons_of_ne_nil hleft
    cases answer with
    | ready =>
      cases h
      refine ⟨[segment], by simp, reaches_loop ?_⟩
      rwa [List.append_assoc, List.singleton_append]
    | refused error =>
      cases h
      exact ⟨[], hsame, trivial⟩

theorem SendFuture.poll_reaches : ∀ {answers : List Await} {s s' : Session} {f : SendFuture} {data : Bytes}
    {sent : List MessageSegment} {progress : Progress SendFuture NethernetError}, Continues p data f sent →
    poll p answers s f = some (s', progress) →
    ∃ more, s' = { s with channel := s.channel ++ more.map MessageSegment.encode } ∧
      Reaches p data (sent ++ more) progress
  | [], s, s', f, data, sent, progress, hf, h => by
    cases h
    exact ⟨[], by simp, by rwa [List.append_nil]⟩
  | answer :: answers, s, s', f, data, sent, progress, hf, h => by
    obtain ⟨⟨mid, reached⟩, hresume, h⟩ := Option.bind_eq_some_iff.1 h
    obtain ⟨more, rfl, hreached⟩ := resume_reaches hf hresume
    cases reached with
    | done result =>
      cases h
      exact ⟨more, rfl, hreached⟩
    | waiting f' =>
      obtain ⟨more', rfl, hprogress⟩ := poll_reaches hreached h
      refine ⟨more ++ more', by simp, ?_⟩
      rwa [← List.append_assoc]

/-- The channel has taken the accepted messages whole, but for the last one while its send is under way. -/
inductive Written (p : Profile) (w : NethernetStream) : List Bytes → Prop
  | idle {accepted} (hidle : w.sendFuture = none)
    (hsplit : ∀ data ∈ accepted, ∃ segments, Message.splitIntoSegments p data = some (.ok segments))
    (hchannel : w.session.channel = accepted.flatMap (wire p)) : Written p w accepted
  | busy {accepted data f sent} (hbusy : w.sendFuture = some f) (hcontinues : Continues p data f sent)
    (hsplit : ∀ data ∈ accepted, ∃ segments, Message.splitIntoSegments p data = some (.ok segments))
    (hchannel : w.session.channel = accepted.flatMap (wire p) ++ sent.map MessageSegment.encode) :
    Written p w (accepted ++ [data])

/-- The future that is kept of a poll. -/
def Progress.future {φ ε : Type} : Progress φ ε → Option φ
  | .waiting f => some f
  | .done _ => none

section Written

variable {w w' : NethernetStream} {accepted : List Bytes} {answers answers' : List Await}

/-- A poll of the send under way. -/
theorem Written.poll {f : SendFuture} {session : Session} {progress : Progress SendFuture NethernetError}
    (h : Written p w accepted) (hf : w.sendFuture = some f)
    (hpoll : f.poll p answers w.session = some (session, progress)) (hok : ∀ e, progress ≠ .done (.error e)) :
    Written p { w with session, sendFuture := progress.future } accepted ∧ w.session.channel <+: session.channel := by
  cases h with
  | idle hidle =>
    rw [hidle] at hf
    cases hf
  | @busy accepted data _ sent hbusy hcontinues hsplit hchannel =>
    obtain rfl := Option.some.inj (hbusy.symm.trans hf)
    obtain ⟨more, rfl, hreaches⟩ := SendFuture.poll_reaches hcontinues hpoll
    have hchannel' : w.session.channel ++ more.map MessageSegment.encode =
        accepted.flatMap (wire p) ++ (sent ++ more).map MessageSegment.encode := by
      rw [hchannel, List.map_append, List.append_assoc]
    refine ⟨?_, List.prefix_append _ _⟩
    match progress, hok with
    | .waiting f', _ => exact .busy rfl hreaches hsplit hchannel'
    | .done (.error e), hok => exact absurd rfl (hok e)
    | .done (.ok ()), _ =>
      refine .idle rfl ?_ ?_
      · intro data' hdata'
        rcases List.mem_append.1 hdata' with hdata' | hdata'
        · exact hsplit data' hdata'
        · rw [List.mem_singleton.1 hdata']
          exact ⟨_, hreaches⟩
      · rw [List.flatMap_append, List.flatMap_singleton, wire_eq hreaches]
        exact hchannel'

/-- A send that is started with nothing under way takes the whole buffer. -/
theorem Written.startSend {buf : Bytes} {poll : Poll (Except StreamError Nat)} (h : Written p w accepted)
    (hidle : w.sendFuture = none) (hstart : w.startSend p buf answers = some (w', poll))
    (hok : ByteStream.isError poll = false) :
    Written p w' (accepted ++ ByteStream.acceptedBy buf poll) ∧ w.session.channel <+: w'.session.channel := by
  obtain ⟨⟨session, progress⟩, hpoll, hstart⟩ := Option.bind_eq_some_iff.1 hstart
  have hstarted : Written p { w with sendFuture := some (.closed buf) } (accepted ++ [buf]) := by
    cases h with
    | idle _ hsplit hchannel => exact .busy rfl .closed hsplit (by simpa using hchannel)
    | busy hbusy =>
      rw [hidle] at hbusy
      cases hbusy
  match progress with
  | .waiting f =>
    cases hstart
    simpa [ByteStream.acceptedBy, Progress.future] using hstarted.poll rfl hpoll (by simp)
  | .done (.ok ()) =>
    cases hstart
    simpa [ByteStream.acceptedBy, Progress.future] using hstarted.poll rfl hpoll (by simp)
  | .done (.error e) =>
    cases hstart
    cases hok

theorem Written.pollWrite {buf : Bytes} {poll : Poll (Except StreamError Nat)} (h : Written p w accepted)
    (hwrite : w.pollWrite p buf answers answers' = some (w', poll)) (hok : ByteStream.isError poll = false) :
    Written p w' (accepted ++ ByteStream.acceptedBy buf poll) ∧ w.session.channel <+: w'.session.channel := by
  unfold NethernetStream.pollWrite at hwrite
  cases hf : w.sendFuture with
  | none =>
    rw [hf] at hwrite
    exact h.startSend hf hwrite hok
  | some f =>
    rw [hf] at hwrite
    obtain ⟨⟨session, progress⟩, hpoll, hwrite⟩ := Option.bind_eq_some_iff.1 hwrite
    match progress with
    | .waiting f' =>
      cases hwrite
      simpa [ByteStream.acceptedBy, Progress.future] using h.poll hf hpoll (by simp)
    | .done (.ok ()) =>
      obtain ⟨hfinished, hgrows⟩ := h.poll hf hpoll (by simp)
      obtain ⟨hstarted, hgrows'⟩ := hfinished.startSend rfl hwrite hok
      exact ⟨hstarted, hgrows.trans hgrows'⟩
    | .done (.error e) =>
      cases hwrite
      cases hok

theorem Written.pollFlush {poll : Poll (Except StreamError Unit)} (h : Written p w accepted)
    (hflush : w.pollFlush p answers = some (w', poll)) (hok : ByteStream.isError poll = false) :
    Written p w' accepted ∧ w.session.channel <+: w'.session.channel ∧
      (poll = .ready (.ok ()) → w'.sendFuture = none) := by
  unfold NethernetStream.pollFlush at hflush
  cases hf : w.sendFuture with
  | none =>
    rw [hf] at hflush
    cases hflush
    exact ⟨h, List.prefix_rfl, fun _ => hf⟩
  | some f =>
    rw [hf] at hflush
    obtain ⟨⟨session, progress⟩, hpoll, hflush⟩ := Option.bind_eq_some_iff.1 hflush
    match progress with
    | .waiting f' =>
      cases hflush
      obtain ⟨hwaits, hgrows⟩ := h.poll hf hpoll (by simp)
      exact ⟨hwaits, hgrows, nofun⟩
    | .done (.ok ()) =>
      cases hflush
      obtain ⟨hfinished, hgrows⟩ := h.poll hf hpoll (by simp)
      exact ⟨hfinished, hgrows, fun _ => rfl⟩
    | .done (.error e) =>
      cases hflush
      cases hok

/-- Closing does not touch what was sent. -/
theorem CloseFuture.poll_channel : ∀ (answers : List Await) (s : Session) (f : CloseFuture),
    (poll answers s f).1.channel = s.channel
  | [], _, _ => rfl
  | answer :: answers, s, f => by
    unfold poll
    cases f with
    | closed =>
      unfold resume
      by_cases hclosed : s.closed = true
      · rw [if_pos hclosed]
      · rw [if_neg hclosed]
        exact poll_channel answers _ _
    | channels => exact poll_channel answers _ _
    | connection => cases answer <;> rfl

theorem Written.withSession (h : Written p w accepted) (session : Session)
    (hchannel : session.channel = w.session.channel) (shutdownFuture : Option CloseFuture) :
    Written p ⟨session, w.sendFuture, shutdownFuture⟩ accepted := by
  cases h with
  | idle hidle hsplit hfirst => exact .idle hidle hsplit (hchannel.trans hfirst)
  | busy hbusy hcontinues hsplit hfirst => exact .busy hbusy hcontinues hsplit (hchannel.trans hfirst)

theorem Written.pollShutdown {poll : Poll (Except StreamError Unit)} (h : Written p w accepted)
    (hshutdown : w.pollShutdown p answers answers' = some (w', poll)) (hok : ByteStream.isError poll = false) :
    Written p w' accepted ∧ w.session.channel <+: w'.session.channel := by
  obtain ⟨⟨mid, flushed⟩, hflush, hshutdown⟩ := Option.bind_eq_some_iff.1 hshutdown
  match flushed with
  | .pending =>
    cases hshutdown
    obtain ⟨hwaits, hgrows, -⟩ := h.pollFlush hflush rfl
    exact ⟨hwaits, hgrows⟩
  | .ready (.error e) =>
    cases hshutdown
    cases hok
  | .ready (.ok ()) =>
    obtain ⟨hflushed, hgrows, -⟩ := h.pollFlush hflush rfl
    have hchannel := CloseFuture.poll_channel answers' mid.session (mid.shutdownFuture.getD .closed)
    cases hclose : CloseFuture.poll answers' mid.session (mid.shutdownFuture.getD .closed) with
    | mk session progress =>
      dsimp only at hshutdown
      rw [hclose] at hchannel hshutdown
      match progress with
      | .waiting _ | .done (.ok ()) | .done (.error _) =>
        cases hshutdown
        exact ⟨hflushed.withSession session hchannel _, hchannel.symm ▸ hgrows⟩

theorem Written.of_idle (h : Written p w accepted) (hidle : w.sendFuture = none) :
    (∀ data ∈ accepted, ∃ segments, Message.splitIntoSegments p data = some (.ok segments)) ∧
      w.session.channel = accepted.flatMap (wire p) := by
  cases h with
  | idle _ hsplit hchannel => exact ⟨hsplit, hchannel⟩
  | busy hbusy =>
    rw [hidle] at hbusy
    cases hbusy

/-- What the channel has taken is a front part of the accepted messages as they are sent. -/
theorem Written.front (h : Written p w accepted) : ∃ good, good <+: accepted ∧
    (∀ data ∈ good, ∃ segments, Message.splitIntoSegments p data = some (.ok segments)) ∧
      w.session.channel <+: good.flatMap (wire p) := by
  cases h with
  | idle _ hsplit hchannel => exact ⟨accepted, List.prefix_rfl, hsplit, by rw [hchannel]⟩
  | @busy accepted data f sent _ hcontinues hsplit hchannel =>
    rw [hchannel]
    cases hcontinues with
    | closed => exact ⟨accepted, List.prefix_append _ _, hsplit, by simp⟩
    | channel => exact ⟨accepted, List.prefix_append _ _, hsplit, by simp⟩
    | @sending _ left hsend =>
      refine ⟨accepted ++ [data], List.prefix_rfl, ?_, ?_⟩
      · intro data' hdata'
        rcases List.mem_append.1 hdata' with hdata' | hdata'
        · exact hsplit data' hdata'
        · rw [List.mem_singleton.1 hdata']
          exact ⟨_, hsend⟩
      · rw [List.flatMap_append, List.flatMap_singleton, wire_eq hsend, List.map_append, ← List.append_assoc]
        exact List.prefix_append _ _

end Written

/-! ## What the reader makes of it -/

theorem receive_append : ∀ {buffer : Message} {xs ys : List Bytes}, receive p buffer (xs ++ ys) =
    (receive p buffer xs).bind fun out => (receive p out.1 ys).map fun out' => (out'.1, out.2 ++ out'.2)
  | buffer, [], ys => by
    rw [List.nil_append, receive]
    exact (Option.map_id' ..).symm
  | buffer, data :: xs, ys => by
    cases hdata : onMessage p buffer data with
    | none => simp [receive, hdata]
    | some out =>
      obtain ⟨next, complete⟩ := out
      rw [List.cons_append, receive_cons hdata, receive_cons hdata, receive_append]
      cases hxs : receive p next xs with
      | none => simp
      | some out =>
        simp only [Option.bind_some, Option.map_some, Option.map_map]
        refine Option.map_congr fun out' _ => ?_
        simp

/-- What was put together from a front part of the channel stays as it is. -/
theorem receive_front {buffer last last' : Message} {xs ys messages messages' : List Bytes} (hxs : xs <+: ys)
    (hfront : receive p buffer xs = some (last, messages)) (hall : receive p buffer ys = some (last', messages')) :
    messages <+: messages' := by
  obtain ⟨rest, rfl⟩ := hxs
  rw [receive_append, hfront] at hall
  obtain ⟨⟨last'', more⟩, -, hout⟩ := Option.map_eq_some_iff.1 hall
  cases hout
  exact List.prefix_append _ _

/-- Whole messages come out as they are; an empty one is no segment to the reader. -/
theorem receive_wires_all : ∀ {messages : List Bytes},
    (∀ data ∈ messages, ∃ segments, Message.splitIntoSegments p data = some (.ok segments)) →
      receive p .new (messages.flatMap (wire p)) = some (.new, messages.filter (· ≠ []))
  | [], _ => rfl
  | data :: messages, h => by
    have ih := receive_wires_all fun data' hdata' => h data' (List.mem_cons_of_mem _ hdata')
    by_cases hdata : data = []
    · subst hdata
      have hwire : wire p [] = [[0]] := rfl
      have hempty : onMessage p .new [0] = some (.new, none) := rfl
      rw [List.flatMap_cons, hwire, List.singleton_append, receive_cons hempty, ih]
      rfl
    · obtain ⟨segments, hsplit⟩ := h data (List.mem_cons_self ..)
      rw [List.flatMap_cons, receive_wire hdata hsplit, ih, List.filter_cons_of_pos (by simpa using hdata)]
      rfl

namespace ByteStream

/-- While no poll has failed, the writer's end and the reader's end are in step with what passed them. -/
structure InStep (p : Profile) (x : ByteStream) : Prop where
  written : Written p x.writer x.accepted
  taken_le : x.taken ≤ x.writer.session.channel.length
  read : receive p .new (x.writer.session.channel.take x.taken) =
    some (x.reader.messageBuffer, x.received ++ x.reader.packets)

theorem pollNext_packets : ∀ (locks : Nat) (x : SessionStream),
    (x.pollNext locks).1.messageBuffer = x.messageBuffer ∧
      chunk (x.pollNext locks).2 ++ (x.pollNext locks).1.packets = x.packets
  | 0, _ => ⟨rfl, rfl⟩
  | locks + 1, ⟨closed, messageBuffer, packets, recvFuture⟩ => by
    unfold SessionStream.pollNext
    cases recvFuture with
    | closed =>
      cases closed with
      | false => exact pollNext_packets locks _
      | true => exact ⟨rfl, rfl⟩
    | packets =>
      cases packets with
      | nil => exact ⟨rfl, rfl⟩
      | cons data packets => exact ⟨rfl, rfl⟩

/-- A poll of the writer leaves the reader behind. -/
theorem InStep.writer {x : ByteStream} (h : x.InStep p) {w : NethernetStream} {accepted : List Bytes} (failed : Bool)
    (hwritten : Written p w accepted) (hgrows : x.writer.session.channel <+: w.session.channel) :
    InStep p { x with writer := w, accepted, failed } where
  written := hwritten
  taken_le := h.taken_le.trans hgrows.length_le
  read := by
    obtain ⟨more, hmore⟩ := hgrows
    dsimp only
    rw [← hmore, List.take_append_of_le_length h.taken_le]
    exact h.read

theorem InStep.step {x x' : ByteStream} {op : Op} (h : x.InStep p) (hstep : x.step p op = some x')
    (hok : x'.failed = false) : x'.InStep p := by
  cases op with
  | write buf answers answers' =>
    obtain ⟨⟨w, poll⟩, hwrite, hstep⟩ := Option.bind_eq_some_iff.1 hstep
    cases hstep
    obtain ⟨hwritten, hgrows⟩ := h.written.pollWrite hwrite (Bool.or_eq_false_iff.1 hok).2
    exact h.writer _ hwritten hgrows
  | flush answers =>
    obtain ⟨⟨w, poll⟩, hflush, hstep⟩ := Option.bind_eq_some_iff.1 hstep
    cases hstep
    obtain ⟨hwritten, hgrows, -⟩ := h.written.pollFlush hflush (Bool.or_eq_false_iff.1 hok).2
    exact h.writer _ hwritten hgrows
  | shutdown answers answers' =>
    obtain ⟨⟨w, poll⟩, hshutdown, hstep⟩ := Option.bind_eq_some_iff.1 hstep
    cases hstep
    obtain ⟨hwritten, hgrows⟩ := h.written.pollShutdown hshutdown (Bool.or_eq_false_iff.1 hok).2
    exact h.writer _ hwritten hgrows
  | closeWriter =>
    cases hstep
    exact h.writer _ (h.written.withSession { x.writer.session with closed := true } rfl _) List.prefix_rfl
  | deliver =>
    obtain ⟨data, hdata, hstep⟩ := Option.bind_eq_some_iff.1 hstep
    obtain ⟨reader, hhandle, hstep⟩ := Option.bind_eq_some_iff.1 hstep
    cases hstep
    obtain ⟨⟨messageBuffer, complete⟩, hmessage, hhandle⟩ := Option.bind_eq_some_iff.1 hhandle
    cases hhandle
    obtain ⟨hlt, rfl⟩ := List.getElem?_eq_some_iff.1 hdata
    refine ⟨h.written, hlt, ?_⟩
    dsimp only
    rw [List.take_succ_eq_append_getElem hlt, receive_concat h.read, hmessage, Option.map_some, List.append_assoc]
  | read locks =>
    cases hstep
    obtain ⟨hbuffer, hpackets⟩ := pollNext_packets locks x.reader
    refine ⟨h.written, h.taken_le, ?_⟩
    dsimp only
    rw [List.append_assoc, hpackets, hbuffer]
    exact h.read
  | closeReader =>
    cases hstep
    exact ⟨h.written, h.taken_le, h.read⟩

theorem failed_of_step {x x' : ByteStream} {op : Op} (hstep : x.step p op = some x') (hok : x'.failed = false) :
    x.failed = false := by
  cases op with
  | write | flush | shutdown =>
    obtain ⟨⟨w, poll⟩, -, hstep⟩ := Option.bind_eq_some_iff.1 hstep
    cases hstep
    exact (Bool.or_eq_false_iff.1 hok).1
  | deliver =>
    obtain ⟨data, -, hstep⟩ := Option.bind_eq_some_iff.1 hstep
    obtain ⟨reader, -, hstep⟩ := Option.bind_eq_some_iff.1 hstep
    cases hstep
    exact hok
  | closeWriter | read | closeReader =>
    cases hstep
    exact hok

theorem inStep_after {reliableChannel : Bool} {ops : List Op} {x : ByteStream}
    (h : after p reliableChannel ops = some x) (hok : x.failed = false) : x.InStep p := by
  refine Machine.run_advance_inv_history (P := fun _ x => x.failed = false → InStep p x)
    (fun done x op x' hx hstep hok => ?_)
    ops [] (fun _ => ?_) h hok
  · exact (hx (failed_of_step hstep hok)).step hstep hok
  · exact ⟨.idle rfl nofun rfl, Nat.zero_le _, rfl⟩

/-- As long as no poll of the writer has failed, the chunks that came out are the buffers that were accepted, in
their order, up to some point, and so are the bytes. A flush that is ready has handed over everything, and then
everything comes out. -/
theorem received_accepted {reliableChannel : Bool} {ops : List Op} {x : ByteStream}
    (h : after p reliableChannel ops = some x) (hok : x.failed = false) :
    x.received <+: x.accepted.filter (· ≠ []) ∧ x.received.flatten <+: x.accepted.flatten ∧
    (∀ answers w, x.writer.pollFlush p answers = some (w, .ready (.ok ())) →
      w.session.channel = x.accepted.flatMap (wire p)) ∧
    (x.writer.sendFuture = none → x.taken = x.writer.session.channel.length → x.reader.packets = [] →
      x.received.flatten = x.accepted.flatten) := by
  obtain ⟨hwritten, -, hread⟩ := inStep_after h hok
  have hflatten : (x.accepted.filter (· ≠ [])).flatten = x.accepted.flatten := List.flatten_filter_ne_nil
  have hreceived : x.received <+: x.received ++ x.reader.packets := List.prefix_append _ _
  have hfront : x.received ++ x.reader.packets <+: x.accepted.filter (· ≠ []) := by
    obtain ⟨good, hgood, hsplit, hchannel⟩ := hwritten.front
    exact (receive_front ((List.take_prefix _ _).trans hchannel) hread (receive_wires_all hsplit)).trans
      (hgood.filter _)
  refine ⟨hreceived.trans hfront, ?_, ?_, ?_⟩
  · rw [← hflatten]
    exact (hreceived.trans hfront).flatten
  · intro answers w hflush
    obtain ⟨hflushed, -, hidle⟩ := hwritten.pollFlush hflush rfl
    exact (hflushed.of_idle (hidle rfl)).2
  · intro hidle htaken hpackets
    obtain ⟨hsplit, hchannel⟩ := hwritten.of_idle hidle
    rw [htaken, List.take_length, hchannel, receive_wires_all hsplit, hpackets, List.append_nil] at hread
    rw [← hflatten, (Prod.mk.inj (Option.some.inj hread)).2]

/-- A write whose send has to wait, another that is turned away meanwhile, and a flush. -/
def waitingRun : List Op :=
  [.write [1, 2, 3] [] [.ready, .ready], .write [4] [] [], .flush [.ready], .deliver, .read 2]

theorem received_accepted_waiting : ∃ x, after .dev true waitingRun = some x ∧ x.received = [[1, 2, 3]] ∧
    x.received <+: x.accepted.filter (· ≠ []) := by
  have hrun : ((after .dev true waitingRun).map fun x => (x.failed, x.received)) = some (false, [[1, 2, 3]]) := by
    decide +kernel
  obtain ⟨x, h, hx⟩ := Option.map_eq_some_iff.1 hrun
  obtain ⟨hok, hreceived⟩ := Prod.mk.inj hx
  exact ⟨x, h, hreceived, (received_accepted h hok).1⟩

end ByteStream

end

end BedrockRs.Nethernet

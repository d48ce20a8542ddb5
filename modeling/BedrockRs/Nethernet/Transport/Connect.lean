/-
The connecting end of NetherNet (`NethernetStream::connect` in `transport/stream.rs`) and the answering
end (`handle_offer` in `transport/listener.rs`) as the signals see them. Each end sets its own
description and the other's on a peer connection of WebRTC, whose operations succeed or fail as the run
says; a description is the text of its SDP. The candidates that come in wait for the remote description.
Once it is set, `connect` adds them one by one and then leaves the signals to a task, which goes on
taking them until it is cancelled.
-/
import BedrockRs.Nethernet.Signaling.LanNetwork

namespace BedrockRs.Nethernet

open Lib

/-- `RTCIceCandidateInit`. -/
structure CandidateInit where
  candidate : String
  sdpMid : Option String
  sdpMlineIndex : Option UInt16
  usernameFragment : Option String
deriving DecidableEq

/-- The candidate that a signal carries: its data is read as JSON, and taken for the text of a candidate where
it is none. -/
def candidateInit (fromJson : String → Option CandidateInit) (data : String) : CandidateInit :=
  (fromJson data).getD ⟨data, none, none, none⟩

/-- `RTCIceConnectionState`. -/
inductive IceState where
  | new
  | checking
  | connected
  | completed
  | disconnected
  | failed
  | closed
deriving DecidableEq

inductive ConnectFailure where
  | signaling
  | webRtc
  | timeout
  | connectionClosed
deriving DecidableEq

/-! ## The connecting end -/

/-- How far `connect` has come: the offer is made, set as the local description, signalled, and answered; the
answer is the remote description, the candidates that waited for it are added, the session has its channels, the
channels are open, and it has returned. -/
inductive ConnectPhase where
  | preparing
  | offering
  | awaiting
  | describing (answer : String)
  | applying
  | settingUp
  | opening
  | converging
  | returned (result : Except ConnectFailure Unit)

/-- The task that takes the candidates after the answer. -/
inductive CandidateTask where
  | none
  | running
  | cancelled
  | ended
deriving DecidableEq

/-- A call of `connect`. -/
structure Connector where
  node : Nat
  connectionId : UInt64
  remoteNetworkId : String
  /-- The local description. -/
  offer : String
  /-- How many signals had come out anywhere when it subscribed, and whether its subscription has lagged since. -/
  subscribed : Option Nat
  lagged : Bool
  phase : ConnectPhase
  inbox : List Signal
  pending : List CandidateInit
  remoteDescription : Option String
  /-- The candidates it has called `add_ice_candidate` with. -/
  tried : List CandidateInit
  task : CandidateTask
  reliableOpen : Bool
  unreliableOpen : Bool

namespace Connector

def new (node : Nat) (connectionId : UInt64) (remoteNetworkId offer : String) : Connector where
  node := node
  connectionId := connectionId
  remoteNetworkId := remoteNetworkId
  offer := offer
  subscribed := none
  lagged := false
  phase := .preparing
  inbox := []
  pending := []
  remoteDescription := none
  tried := []
  task := .none
  reliableOpen := false
  unreliableOpen := false

inductive Event where
  /-- The loop or the task takes a signal from the subscription, finds that it has lagged by `n` signals, or
  that it has ended. -/
  | take
  | lag (n : Nat)
  | closed
  /-- The answer is set as the remote description, if WebRTC lets it. -/
  | describe (ok : Bool)
  /-- `add_ice_candidate` is called with the next candidate that has waited; behind the last one the task is spawned. -/
  | apply
  /-- The session is given its channels, if WebRTC lets it. -/
  | setUp (ok : Bool)
  /-- A data channel opens, `connect` sees that both have, or has waited for too long. -/
  | opened (reliable : Bool)
  | join
  | openTimeout
  | poll (state : IceState)
  | iceTimeout
  | taskEnd

/-- The candidate that a signal brings for the connection. -/
def candidateOf (fromJson : String → Option CandidateInit) (connectionId : UInt64) (s : Signal) :
    Option CandidateInit :=
  if s.connectionId = connectionId ∧ s.signalType = .candidate then some (candidateInit fromJson s.data) else none

/-- A signal in the loop that waits for the answer. -/
def hear (fromJson : String → Option CandidateInit) (c : Connector) (s : Signal) : Connector :=
  if s.connectionId = c.connectionId then
    match s.signalType with
    | .answer => { c with phase := .describing s.data }
    | .candidate => { c with pending := c.pending ++ [candidateInit fromJson s.data] }
    | _ => c
  else c

/-- `cancel_token.cancel()`. -/
def cancel (c : Connector) : Connector := { c with task := if c.task = .running then .cancelled else c.task }

/-- A cancelled task may still take a signal: `select!` picks among what is ready. -/
def taskTakes (c : Connector) : Bool := c.task = .running || c.task = .cancelled

def step (fromJson : String → Option CandidateInit) (c : Connector) : Event → Option Connector
  | .take =>
    match c.inbox, c.phase with
    | s :: inbox, .awaiting => some ({ c with inbox := inbox }.hear fromJson s)
    | s :: inbox, _ =>
      if c.taskTakes then
        some { c with inbox := inbox, tried := c.tried ++ (candidateOf fromJson c.connectionId s).toList }
      else none
    | [], _ => none
  | .lag n => if c.subscribed.isSome then some { c with inbox := c.inbox.drop n, lagged := true } else none
  | .closed =>
    match c.inbox, c.phase with
    | [], .awaiting => some { c with phase := .returned (.error .timeout) }
    | [], _ => if c.taskTakes then some { c with task := .ended } else none
    | _ :: _, _ => none
  | .describe ok =>
    match c.phase with
    | .describing answer =>
      some (if ok then { c with phase := .applying, remoteDescription := some answer }
        else { c with phase := .returned (.error .webRtc) })
    | _ => none
  | .apply =>
    match c.phase, c.pending with
    | .applying, init :: pending => some { c with pending := pending, tried := c.tried ++ [init] }
    | .applying, [] => some { c with phase := .settingUp, task := .running }
    | _, _ => none
  | .setUp ok =>
    match c.phase with
    | .settingUp => some { c with phase := if ok then .opening else .returned (.error .webRtc) }
    | _ => none
  | .opened reliable =>
    some (if reliable then { c with reliableOpen := true } else { c with unreliableOpen := true })
  | .join =>
    match c.phase with
    | .opening => if c.reliableOpen && c.unreliableOpen then some { c with phase := .converging } else none
    | _ => none
  | .openTimeout =>
    match c.phase with
    -- the task is not cancelled here
    | .opening => if c.reliableOpen && c.unreliableOpen then none
      else some { c with phase := .returned (.error .timeout) }
    | _ => none
  | .poll state =>
    match c.phase with
    | .converging =>
      match state with
      | .connected | .completed => some { c.cancel with phase := .returned (.ok ()) }
      | .failed | .disconnected | .closed => some { c.cancel with phase := .returned (.error .connectionClosed) }
      | .new | .checking => some c
    | _ => none
  | .iceTimeout =>
    match c.phase with
    | .converging => some { c.cancel with phase := .returned (.error .timeout) }
    | _ => none
  | .taskEnd => if c.task = .cancelled then some { c with task := .ended } else none

/-- Two states of one call. -/
structure SameCall (c c' : Connector) : Prop where
  node : c'.node = c.node
  connectionId : c'.connectionId = c.connectionId
  remoteNetworkId : c'.remoteNetworkId = c.remoteNetworkId
  offer : c'.offer = c.offer

theorem SameCall.refl (c : Connector) : c.SameCall c := ⟨rfl, rfl, rfl, rfl⟩

/-- The offer is the local description, or not; with it the call subscribes to the signals of its node. -/
def prepared (c : Connector) (subscribed : Nat) (ok : Bool) : Connector :=
  if ok then { c with phase := .offering, subscribed := some subscribed }
    else { c with phase := .returned (.error .webRtc) }

/-- The offer is signalled, or not. -/
def offered (c : Connector) (sent : Bool) : Connector :=
  { c with phase := if sent then .awaiting else .returned (.error .signaling) }

theorem prepared_same (c : Connector) (subscribed : Nat) (ok : Bool) : c.SameCall (c.prepared subscribed ok) := by
  cases ok <;> exact ⟨rfl, rfl, rfl, rfl⟩

/-! ## What a step can do -/

/-- The phases in which no answer is set. -/
def Undescribed : ConnectPhase → Prop
  | .preparing | .offering | .awaiting | .describing _ => True
  | _ => False

/-- The phases behind them, as long as nothing has failed. -/
def Described : ConnectPhase → Prop
  | .applying | .settingUp | .opening | .converging | .returned (.ok ()) => True
  | _ => False

/-- The phases behind the loop over the waiting candidates. -/
def Behind : ConnectPhase → Prop
  | .settingUp | .opening | .converging | .returned _ => True
  | _ => False

theorem Behind.ne {phase : ConnectPhase} (h : Behind phase) :
    phase ≠ .preparing ∧ phase ≠ .applying ∧ ¬ Undescribed phase ∧ ∀ answer, phase ≠ .describing answer := by
  cases phase with
  | preparing | offering | awaiting | describing | applying => exact h.elim
  | _ => exact ⟨nofun, nofun, id, nofun⟩

/-- Nothing happens to the signals and descriptions. The phase stays, or moves on to one behind the loop over
the waiting candidates, and none behind the remote description and no task comes from elsewhere. -/
structure Calm (c c' : Connector) : Prop where
  same : ∃ phase task reliableOpen unreliableOpen, c' = { c with phase, task, reliableOpen, unreliableOpen }
  phase : c'.phase = c.phase ∨ c.phase ≠ .applying ∧ Behind c'.phase ∧ (Described c'.phase → Described c.phase)
  task : c'.task ≠ .none → c.task ≠ .none

inductive Stepped (fromJson : String → Option CandidateInit) (c : Connector) : Event → Connector → Prop
  | heard {s inbox} (hphase : c.phase = .awaiting) (hinbox : c.inbox = s :: inbox) :
    Stepped fromJson c .take ({ c with inbox := inbox }.hear fromJson s)
  | took {s inbox} (htask : c.task ≠ .none) (hinbox : c.inbox = s :: inbox) :
    Stepped fromJson c .take
    { c with inbox := inbox, tried := c.tried ++ (candidateOf fromJson c.connectionId s).toList }
  | lagged {n} : Stepped fromJson c (.lag n) { c with inbox := c.inbox.drop n, lagged := true }
  | described {answer} (hphase : c.phase = .describing answer) :
    Stepped fromJson c (.describe true) { c with phase := .applying, remoteDescription := some answer }
  | applied {init pending} (hphase : c.phase = .applying) (hpending : c.pending = init :: pending) :
    Stepped fromJson c .apply { c with pending := pending, tried := c.tried ++ [init] }
  | spawned (hphase : c.phase = .applying) (hpending : c.pending = []) :
    Stepped fromJson c .apply { c with phase := .settingUp, task := .running }
  | calm {e c'} (h : c.Calm c') : Stepped fromJson c e c'

variable {fromJson : String → Option CandidateInit} {c c' : Connector}

theorem Calm.advance (hphase : Described c.phase) (hloop : c.phase ≠ .applying) {phase : ConnectPhase}
    (hbehind : Behind phase) (task : CandidateTask) (htask : task ≠ .none → c.task ≠ .none) :
    c.Calm { c with phase, task } :=
  ⟨⟨_, _, _, _, rfl⟩, .inr ⟨hloop, hbehind, fun _ => hphase⟩, htask⟩

theorem Calm.fail (hloop : c.phase ≠ .applying) (e : ConnectFailure) (task : CandidateTask)
    (htask : task ≠ .none → c.task ≠ .none) : c.Calm { c with phase := .returned (.error e), task } :=
  ⟨⟨_, _, _, _, rfl⟩, .inr ⟨hloop, trivial, nofun⟩, htask⟩

theorem Calm.stay (c : Connector) (task : CandidateTask) (reliableOpen unreliableOpen : Bool)
    (htask : task ≠ .none → c.task ≠ .none) : c.Calm { c with task, reliableOpen, unreliableOpen } :=
  ⟨⟨_, _, _, _, rfl⟩, .inl rfl, htask⟩

theorem task_of_takes (h : c.taskTakes = true) : c.task ≠ .none := by
  intro hnone
  rw [taskTakes, hnone] at h
  cases h

theorem task_of_cancel (h : c.cancel.task ≠ .none) : c.task ≠ .none := by
  intro hnone
  refine h ?_
  rw [cancel, hnone]
  rfl

theorem step_cases {e : Event} (h : c.step fromJson e = some c') : Stepped fromJson c e c' := by
  cases e with
  | take =>
    rw [step] at h
    split at h
    · rename_i s inbox hinbox hphase
      cases h
      exact .heard hphase hinbox
    · rename_i s inbox hinbox hphase
      split at h
      · rename_i htask
        cases h
        exact .took (task_of_takes htask) hinbox
      · cases h
    · cases h
  | lag n =>
    rw [step] at h
    split at h
    · cases h
      exact .lagged
    · cases h
  | closed =>
    rw [step] at h
    split at h
    · rename_i _ hphase
      cases h
      exact .calm (.fail (by rw [hphase]; nofun) _ c.task id)
    · split at h
      · rename_i htask
        cases h
        exact .calm (.stay c _ c.reliableOpen c.unreliableOpen fun _ => task_of_takes htask)
      · cases h
    · cases h
  | describe ok =>
    rw [step] at h
    split at h
    · rename_i answer hphase
      cases h
      cases ok with
      | true => exact .described hphase
      | false => exact .calm (.fail (by rw [hphase]; nofun) _ c.task id)
    · cases h
  | apply =>
    rw [step] at h
    split at h
    · rename_i init pending hphase hpending
      cases h
      exact .applied hphase hpending
    · rename_i hphase hpending
      cases h
      exact .spawned hphase hpending
    · cases h
  | setUp ok =>
    rw [step] at h
    split at h
    · rename_i hphase
      have hloop : c.phase ≠ .applying := by
        rw [hphase]
        nofun
      cases h
      cases ok with
      | true => exact .calm (.advance (by rw [hphase]; trivial) hloop (by trivial) c.task id)
      | false => exact .calm (.fail hloop _ c.task id)
    · cases h
  | opened reliable =>
    cases h
    cases reliable with
    | true => exact .calm (.stay c c.task true c.unreliableOpen id)
    | false => exact .calm (.stay c c.task c.reliableOpen true id)
  | join =>
    rw [step] at h
    split at h
    · rename_i hphase
      split at h
      · cases h
        exact .calm (.advance (by rw [hphase]; trivial) (by rw [hphase]; nofun) (by trivial) c.task id)
      · cases h
    · cases h
  | openTimeout =>
    rw [step] at h
    split at h
    · rename_i hphase
      split at h
      · cases h
      · cases h
        exact .calm (.fail (by rw [hphase]; nofun) _ c.task id)
    · cases h
  | poll state =>
    unfold step at h
    dsimp only at h
    split at h
    · rename_i hphase
      have hdescribed : Described c.phase := by
        rw [hphase]
        trivial
      have hloop : c.phase ≠ .applying := by
        rw [hphase]
        nofun
      cases state with
      | new | checking =>
        cases h
        exact .calm (.stay c c.task c.reliableOpen c.unreliableOpen id)
      | connected | completed =>
        cases h
        exact .calm (.advance hdescribed hloop (by trivial) _ task_of_cancel)
      | disconnected | failed | closed =>
        cases h
        exact .calm (.fail hloop _ _ task_of_cancel)
    · cases h
  | iceTimeout =>
    rw [step] at h
    split at h
    · rename_i hphase
      cases h
      exact .calm (.fail (by rw [hphase]; nofun) _ _ task_of_cancel)
    · cases h
  | taskEnd =>
    rw [step] at h
    split at h
    · rename_i htask
      cases h
      refine .calm (.stay c _ c.reliableOpen c.unreliableOpen fun _ hnone => ?_)
      rw [hnone] at htask
      cases htask
    · cases h

variable (fromJson) in
theorem hear_same (c : Connector) (s : Signal) : c.SameCall (c.hear fromJson s) := by
  unfold hear
  split
  · split <;> exact ⟨rfl, rfl, rfl, rfl⟩
  · exact .refl c

theorem step_same {e : Event} (h : c.step fromJson e = some c') : c.SameCall c' := by
  cases step_cases h with
  | @heard s inbox _ _ =>
    obtain ⟨hnode, hid, hremote, hoffer⟩ := hear_same fromJson { c with inbox := inbox } s
    exact ⟨hnode, hid, hremote, hoffer⟩
  | calm hcalm =>
    obtain ⟨_, _, _, _, rfl⟩ := hcalm.same
    exact ⟨rfl, rfl, rfl, rfl⟩
  | _ => exact ⟨rfl, rfl, rfl, rfl⟩

/-! ## What a call makes of the signals -/

/-- The signals that came out at the node of the call since it subscribed; none before it has. -/
def audible (surfaced : List (Nat × Signal)) (c : Connector) : List Signal :=
  match c.subscribed with
  | some subscribed => ((surfaced.drop subscribed).filter fun x => x.1 = c.node).map Prod.snd
  | none => []

/-- What a call knows came out at its node. -/
structure Sound (fromJson : String → Option CandidateInit) (surfaced : List (Nat × Signal)) (c : Connector) : Prop where
  inbox : ∀ s ∈ c.inbox, (c.node, s) ∈ surfaced
  answer : ∀ answer, c.phase = .describing answer ∨ c.remoteDescription = some answer →
    ∃ s, (c.node, s) ∈ surfaced ∧ s.signalType = .answer ∧ s.connectionId = c.connectionId ∧ s.data = answer
  candidates : ∀ init ∈ c.pending ++ c.tried, ∃ s, (c.node, s) ∈ surfaced ∧
    candidateOf fromJson c.connectionId s = some init

/-- No candidate is lost, tried too early or held back for too long. -/
structure Orderly (fromJson : String → Option CandidateInit) (surfaced : List (Nat × Signal)) (c : Connector) :
    Prop where
  fresh : c.phase = .preparing → c.subscribed = none
  subscribed : ∀ n, c.subscribed = some n → n ≤ surfaced.length
  complete : c.lagged = false → c.tried ++ c.pending ++ c.inbox.filterMap (candidateOf fromJson c.connectionId) =
    (c.audible surfaced).filterMap (candidateOf fromJson c.connectionId)
  early : c.remoteDescription = none → c.tried = []
  late : c.remoteDescription ≠ none → c.phase = .applying ∨ c.pending = []
  undescribed : Undescribed c.phase → c.remoteDescription = none
  described : Described c.phase → c.remoteDescription ≠ none
  task : c.task ≠ .none → c.remoteDescription ≠ none ∧ c.phase ≠ .applying

variable (fromJson) in
theorem hear_cases (c : Connector) (s : Signal) :
    s.connectionId = c.connectionId ∧ s.signalType = .answer ∧
      c.hear fromJson s = { c with phase := .describing s.data } ∨
    candidateOf fromJson c.connectionId s = some (candidateInit fromJson s.data) ∧
      c.hear fromJson s = { c with pending := c.pending ++ [candidateInit fromJson s.data] } ∨
    candidateOf fromJson c.connectionId s = none ∧ c.hear fromJson s = c := by
  unfold hear candidateOf
  by_cases hid : s.connectionId = c.connectionId
  · cases htype : s.signalType <;> simp [hid]
  · simp [hid]

theorem candidateOf_answer {id : UInt64} {s : Signal} (h : s.signalType = .answer) :
    candidateOf fromJson id s = none := by
  rw [candidateOf, if_neg]
  rintro ⟨-, htype⟩
  rw [h] at htype
  cases htype

section Keep

variable {surfaced : List (Nat × Signal)}

theorem Calm.sound (h : c.Calm c') (hs : Sound fromJson surfaced c) : Sound fromJson surfaced c' := by
  obtain ⟨⟨phase, task, _, _, rfl⟩, hphase, -⟩ := h
  refine ⟨hs.inbox, ?_, hs.candidates⟩
  rintro answer (hanswer | hanswer)
  · rcases hphase with hstay | ⟨-, hbehind, -⟩
    · exact hs.answer answer (.inl (hstay.symm.trans hanswer))
    · exact absurd hanswer (hbehind.ne.2.2.2 answer)
  · exact hs.answer answer (.inr hanswer)

/-- A phase without an answer in hand. -/
theorem Sound.move (hs : Sound fromJson surfaced c) {phase : ConnectPhase}
    (hphase : ∀ answer, phase ≠ .describing answer) (subscribed : Option Nat) (task : CandidateTask) :
    Sound fromJson surfaced { c with phase, subscribed, task } :=
  ⟨hs.inbox, fun answer h => hs.answer answer (.inr (h.resolve_left (hphase answer))), hs.candidates⟩

theorem Sound.step (hs : Sound fromJson surfaced c) {e : Event} (h : c.step fromJson e = some c') :
    Sound fromJson surfaced c' := by
  cases step_cases h with
  | @heard s inbox hphase hinbox =>
    have hs' : Sound fromJson surfaced { c with inbox := inbox } :=
      ⟨fun s' hs' => hs.inbox s' (hinbox ▸ List.mem_cons_of_mem s hs'), hs.answer, hs.candidates⟩
    have hcame : (c.node, s) ∈ surfaced := hs.inbox s (hinbox ▸ List.mem_cons_self ..)
    rcases hear_cases fromJson { c with inbox := inbox } s with ⟨hid, htype, he⟩ | ⟨hcandidate, he⟩ | ⟨-, he⟩
    · rw [he]
      refine ⟨hs'.inbox, ?_, hs'.candidates⟩
      rintro answer (hanswer | hanswer)
      · cases hanswer
        exact ⟨s, hcame, htype, hid, rfl⟩
      · exact hs.answer answer (.inr hanswer)
    · rw [he]
      refine ⟨hs'.inbox, hs'.answer, fun init hinit => ?_⟩
      rcases List.mem_append.1 hinit with hpending | htried
      · rcases List.mem_append.1 hpending with hold | hnew
        · exact hs.candidates init (List.mem_append_left _ hold)
        · rw [List.mem_singleton.1 hnew]
          exact ⟨s, hcame, hcandidate⟩
      · exact hs.candidates init (List.mem_append_right _ htried)
    · rw [he]
      exact hs'
  | @took s inbox htask hinbox =>
    refine ⟨fun s' hs' => hs.inbox s' (hinbox ▸ List.mem_cons_of_mem s hs'), hs.answer, fun init hinit => ?_⟩
    rcases List.mem_append.1 hinit with hpending | htried
    · exact hs.candidates init (List.mem_append_left _ hpending)
    · rcases List.mem_append.1 htried with hold | hnew
      · exact hs.candidates init (List.mem_append_right _ hold)
      · exact ⟨s, hs.inbox s (hinbox ▸ List.mem_cons_self ..), Option.mem_toList.1 hnew⟩
  | lagged => exact ⟨fun s hs' => hs.inbox s (List.mem_of_mem_drop hs'), hs.answer, hs.candidates⟩
  | @described answer hphase =>
    refine ⟨hs.inbox, ?_, hs.candidates⟩
    rintro _ (hanswer | hanswer)
    · cases hanswer
    · cases hanswer
      exact hs.answer answer (.inl hphase)
  | @applied init pending hphase hpending =>
    refine ⟨hs.inbox, hs.answer, fun init' hinit => hs.candidates init' ?_⟩
    rw [hpending]
    simp only [List.mem_append, List.mem_cons, List.not_mem_nil, or_false] at hinit ⊢
    tauto
  | spawned hphase hpending => exact hs.move (fun _ => by nofun) c.subscribed _
  | calm hcalm => exact hcalm.sound hs

theorem Calm.orderly (h : c.Calm c') (ho : Orderly fromJson surfaced c) : Orderly fromJson surfaced c' := by
  obtain ⟨⟨phase, _, _, _, rfl⟩, hphase, htask⟩ := h
  rcases hphase with hstay | ⟨hloop, hbehind, hdescribed⟩
  · dsimp only at hstay
    subst hstay
    exact { ho with task := fun hne => ho.task (htask hne) }
  · obtain ⟨hpreparing, happlying, hundescribed, -⟩ := hbehind.ne
    exact { ho with
      fresh := fun h => absurd h hpreparing
      late := fun hsome => .inr ((ho.late hsome).resolve_left hloop)
      undescribed := fun h => absurd h hundescribed
      described := fun h => ho.described (hdescribed h)
      task := fun hne => ⟨(ho.task (htask hne)).1, happlying⟩ }

theorem Orderly.step (ho : Orderly fromJson surfaced c) {e : Event} (h : c.step fromJson e = some c') :
    Orderly fromJson surfaced c' := by
  cases step_cases h with
  | @heard s inbox hphase hinbox =>
    have hnone : c.remoteDescription = none := ho.undescribed (by rw [hphase]; trivial)
    have hcomplete := ho.complete
    rw [hinbox, List.filterMap_cons] at hcomplete
    rcases hear_cases fromJson { c with inbox := inbox } s with ⟨-, htype, he⟩ | ⟨hcandidate, he⟩ | ⟨hcandidate, he⟩
    · rw [he]
      rw [candidateOf_answer htype] at hcomplete
      exact { ho with
        fresh := nofun
        complete := hcomplete
        undescribed := fun _ => hnone
        late := fun hsome => absurd hnone hsome
        described := nofun
        task := fun hne => absurd hnone (ho.task hne).1 }
    · rw [he]
      dsimp only at hcandidate
      rw [hcandidate] at hcomplete
      refine { ho with complete := fun hlag => ?_, late := fun hsome => absurd hnone hsome }
      rw [← List.append_assoc, List.append_assoc, List.singleton_append]
      exact hcomplete hlag
    · rw [he]
      dsimp only at hcandidate
      rw [hcandidate] at hcomplete
      exact { ho with complete := hcomplete }
  | @took s inbox htask hinbox =>
    -- the task runs behind the loop, and nothing is pending there
    obtain ⟨hsome, hloop⟩ := ho.task htask
    have hpending := (ho.late hsome).resolve_left hloop
    refine { ho with complete := fun hlag => ?_, early := fun hnone => absurd hnone hsome }
    have hcomplete := ho.complete hlag
    rw [hinbox, List.filterMap_cons, hpending, List.append_nil] at hcomplete
    dsimp only
    rw [hpending, List.append_nil]
    refine Eq.trans ?_ hcomplete
    cases candidateOf fromJson c.connectionId s with
    | none => rw [Option.toList_none, List.append_nil]
    | some init => rw [Option.toList_some, List.append_assoc, List.singleton_append]
  | lagged => exact { ho with complete := nofun }
  | @described answer hphase =>
    have hnone : c.remoteDescription = none := ho.undescribed (by rw [hphase]; trivial)
    exact { ho with
      fresh := nofun
      early := nofun
      late := fun _ => .inl rfl
      undescribed := nofun
      described := nofun
      task := fun hne => absurd hnone (ho.task hne).1 }
  | @applied init pending hphase hpending =>
    have hsome : c.remoteDescription ≠ none := ho.described (by rw [hphase]; trivial)
    refine { ho with
      complete := fun hlag => ?_
      early := fun hnone => absurd hnone hsome
      late := fun _ => .inl hphase }
    have hcomplete := ho.complete hlag
    rw [hpending] at hcomplete
    dsimp only
    rw [List.append_assoc c.tried, List.singleton_append]
    exact hcomplete
  | spawned hphase hpending =>
    have hsome : c.remoteDescription ≠ none := ho.described (by rw [hphase]; trivial)
    exact { ho with
      fresh := nofun
      late := fun _ => .inr hpending
      undescribed := nofun
      described := fun _ => hsome
      task := fun _ => ⟨hsome, nofun⟩ }
  | calm hcalm => exact hcalm.orderly ho

theorem new_sound (node : Nat) (connectionId : UInt64) (remoteNetworkId offer : String) :
    Sound fromJson surfaced (new node connectionId remoteNetworkId offer) := by
  refine ⟨nofun, ?_, nofun⟩
  rintro answer (h | h) <;> cases h

theorem new_orderly (node : Nat) (connectionId : UInt64) (remoteNetworkId offer : String) :
    Orderly fromJson surfaced (new node connectionId remoteNetworkId offer) :=
  ⟨fun _ => rfl, nofun, fun _ => rfl, fun _ => rfl, fun _ => .inr rfl, fun _ => rfl, nofun, fun h => absurd rfl h⟩

theorem Sound.prepared (hs : Sound fromJson surfaced c) (ok : Bool) :
    Sound fromJson surfaced (c.prepared surfaced.length ok) := by
  cases ok with
  | true => exact hs.move (fun _ => by nofun) _ c.task
  | false => exact hs.move (fun _ => by nofun) c.subscribed c.task

/-- Nothing has come to a call that has not subscribed, and nothing is audible when it does. -/
theorem Orderly.prepared (ho : Orderly fromJson surfaced c) (hphase : c.phase = .preparing) (ok : Bool) :
    Orderly fromJson surfaced (c.prepared surfaced.length ok) := by
  have hnone : c.remoteDescription = none := ho.undescribed (by rw [hphase]; trivial)
  have htask : ∀ {P : Prop}, c.task ≠ .none → P := fun hne => absurd hnone (ho.task hne).1
  cases ok with
  | true =>
    refine ⟨nofun, ?_, fun hlag => ?_, ho.early, fun hsome => absurd hnone hsome, fun _ => hnone, nofun, htask⟩
    · rintro _ ⟨⟩
      exact Nat.le_refl _
    · have hcomplete := ho.complete hlag
      rw [audible, ho.fresh hphase] at hcomplete
      show _ = (((surfaced.drop surfaced.length).filter _).map _).filterMap _
      rw [List.drop_length]
      exact hcomplete
  | false =>
    exact { ho with
      fresh := nofun
      late := fun hsome => absurd hnone hsome
      undescribed := nofun
      described := nofun
      task := htask }

theorem Sound.offered (hs : Sound fromJson surfaced c) (sent : Bool) : Sound fromJson surfaced (c.offered sent) :=
  hs.move (fun _ => by cases sent <;> nofun) c.subscribed c.task

theorem Orderly.offered (ho : Orderly fromJson surfaced c) (hphase : c.phase = .offering) (sent : Bool) :
    Orderly fromJson surfaced (c.offered sent) := by
  have hnone : c.remoteDescription = none := ho.undescribed (by rw [hphase]; trivial)
  exact { ho with
    fresh := by cases sent <;> exact nofun
    late := fun hsome => absurd hnone hsome
    undescribed := fun _ => hnone
    described := by cases sent <;> exact nofun
    task := fun hne => absurd hnone (ho.task hne).1 }

/-- Signals come out at a node. -/
def overhear (node : Nat) (signals : List Signal) (c : Connector) : Connector :=
  if c.node = node ∧ c.subscribed.isSome then { c with inbox := c.inbox ++ signals } else c

theorem overhear_same (c : Connector) (node : Nat) (signals : List Signal) : c.SameCall (c.overhear node signals) := by
  unfold overhear
  split
  · exact ⟨rfl, rfl, rfl, rfl⟩
  · exact .refl c

theorem audible_append (h : ∀ n, c.subscribed = some n → n ≤ surfaced.length) (node : Nat) (signals : List Signal) :
    c.audible (surfaced ++ signals.map fun s => (node, s)) =
      c.audible surfaced ++ if c.node = node ∧ c.subscribed.isSome then signals else [] := by
  unfold audible
  cases hsub : c.subscribed with
  | none => simp
  | some n =>
    dsimp only
    rw [List.drop_append_of_le_length (h n hsub), List.filter_append, List.map_append]
    congr 1
    by_cases hnode : c.node = node
    · rw [if_pos ⟨hnode, rfl⟩, List.filter_eq_self.2, List.map_map]
      · exact List.map_id signals
      · rintro x hx
        obtain ⟨s, -, rfl⟩ := List.mem_map.1 hx
        exact decide_eq_true hnode.symm
    · rw [if_neg fun h => hnode h.1, List.filter_eq_nil_iff.2, List.map_nil]
      rintro x hx
      obtain ⟨s, -, rfl⟩ := List.mem_map.1 hx
      exact fun h => hnode (of_decide_eq_true h).symm

theorem Sound.overhear (hs : Sound fromJson surfaced c) (node : Nat) (signals : List Signal) :
    Sound fromJson (surfaced ++ signals.map fun s => (node, s)) (c.overhear node signals) := by
  have hs' : Sound fromJson (surfaced ++ signals.map fun s => (node, s)) c := by
    refine ⟨fun s hs' => List.mem_append_left _ (hs.inbox s hs'), fun answer hanswer => ?_, fun init hinit => ?_⟩
    · obtain ⟨s, hcame, hrest⟩ := hs.answer answer hanswer
      exact ⟨s, List.mem_append_left _ hcame, hrest⟩
    · obtain ⟨s, hcame, hrest⟩ := hs.candidates init hinit
      exact ⟨s, List.mem_append_left _ hcame, hrest⟩
  unfold Connector.overhear
  split
  · rename_i hhears
    refine ⟨fun s hmem => ?_, hs'.answer, hs'.candidates⟩
    rcases List.mem_append.1 hmem with hold | hnew
    · exact hs'.inbox s hold
    · exact List.mem_append_right _ (List.mem_map.2 ⟨s, hnew, by rw [hhears.1]⟩)
  · exact hs'

theorem Orderly.overhear (ho : Orderly fromJson surfaced c) (node : Nat) (signals : List Signal) :
    Orderly fromJson (surfaced ++ signals.map fun s => (node, s)) (c.overhear node signals) := by
  have hsub : ∀ n, c.subscribed = some n → n ≤ (surfaced ++ signals.map fun s => (node, s)).length := by
    intro n hn
    rw [List.length_append]
    exact Nat.le_add_right_of_le (ho.subscribed n hn)
  have haudible := audible_append ho.subscribed node signals
  unfold Connector.overhear
  split
  · rename_i hhears
    rw [if_pos hhears] at haudible
    refine { ho with subscribed := hsub, complete := fun hlag => ?_ }
    show _ = (c.audible _).filterMap _
    rw [haudible, List.filterMap_append, List.filterMap_append, ← List.append_assoc, ho.complete hlag]
  · rename_i hdeaf
    rw [if_neg hdeaf, List.append_nil] at haudible
    refine { ho with subscribed := hsub, complete := fun hlag => ?_ }
    rw [haudible]
    exact ho.complete hlag

end Keep

end Connector

/-! ## The answering end -/

/-- A peer connection that `handle_offer` has made, with the offer and the network id it came from. -/
structure Peer where
  node : Nat
  connectionId : UInt64
  networkId : String
  offer : String
  remoteDescription : Option String
  localDescription : Option String
  /-- The candidates it has signalled. -/
  candidates : List String

/-- The signal handler of a listener, with the peer connection of the offer it is handling. -/
structure SignalHandler where
  node : Nat
  inbox : List Signal
  handling : Option Nat

namespace SignalHandler

inductive Event where
  /-- A signal is taken; an offer is given a peer connection, if one can be made. -/
  | take (created : Bool)
  | lag (n : Nat)
  /-- The offer is set as the remote description, and an answer made and set as the local one, if WebRTC lets it. -/
  | describe (ok : Bool)
  | answer (sdp : Option String)
  /-- The answer is signalled; `io` is what the socket returns. -/
  | reply (io : Except NethernetError Unit)

def overhear (node : Nat) (signals : List Signal) (h : SignalHandler) : SignalHandler :=
  if h.node = node then { h with inbox := h.inbox ++ signals } else h

/-- What a handler has yet to take came out at its node. -/
def Sound (surfaced : List (Nat × Signal)) (h : SignalHandler) : Prop := ∀ s ∈ h.inbox, (h.node, s) ∈ surfaced

theorem Sound.overhear {surfaced : List (Nat × Signal)} {h : SignalHandler} (hs : h.Sound surfaced) (node : Nat)
    (signals : List Signal) : (h.overhear node signals).Sound (surfaced ++ signals.map fun s => (node, s)) := by
  unfold SignalHandler.overhear
  split
  · rename_i hnode
    intro s hmem
    rcases List.mem_append.1 hmem with hold | hnew
    · exact List.mem_append_left _ (hs s hold)
    · exact List.mem_append_right _ (List.mem_map.2 ⟨s, hnew, by rw [hnode]⟩)
  · exact fun s hmem => List.mem_append_left _ (hs s hmem)

end SignalHandler

namespace Peer

/-- The offer came out at the node, and no other has been set as the remote description, which the answer comes
after. -/
structure Sound (surfaced : List (Nat × Signal)) (a : Peer) : Prop where
  offer : (a.node, Signal.offer a.connectionId a.offer a.networkId) ∈ surfaced
  remote : ∀ sdp, a.remoteDescription = some sdp → sdp = a.offer
  answered : a.localDescription.isSome = true → a.remoteDescription.isSome = true

theorem Sound.mono {surfaced surfaced' : List (Nat × Signal)} {a : Peer} (h : a.Sound surfaced)
    (hsub : surfaced ⊆ surfaced') : a.Sound surfaced' :=
  ⟨hsub h.offer, h.remote, h.answered⟩

/-- What a peer connection goes through. -/
structure Grows (a a' : Peer) : Prop where
  node : a'.node = a.node
  connectionId : a'.connectionId = a.connectionId
  networkId : a'.networkId = a.networkId
  offer : a'.offer = a.offer
  remote : ∀ sdp, a.remoteDescription = some sdp → a'.remoteDescription = some sdp
  answer : ∀ sdp, a.localDescription = some sdp → a'.localDescription = some sdp
  candidates : a.candidates ⊆ a'.candidates

theorem Grows.refl (a : Peer) : a.Grows a := ⟨rfl, rfl, rfl, rfl, fun _ h => h, fun _ h => h, List.Subset.refl _⟩

end Peer

end BedrockRs.Nethernet

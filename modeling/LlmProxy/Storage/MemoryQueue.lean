import Mathlib.Logic.Function.Basic
import LlmProxy.ProofKit.System

/-! `memory.MemoryQueue`: topics with their dispatchers, subscribers, any number of calls of
`Publish`, and `Close`.  A step is one section under `mu` or one channel operation.  A receive of a
subscriber and the call of its handler are one step. -/

namespace LlmProxy.Storage

open ProofKit

/-- Where `dispatch` is in its loop. -/
inductive Dispatcher (α : Type)
  | selecting
  | received (msg : α)
  /-- At the sends to the subscribers that are left of its copy. -/
  | fanningOut (msg : α) (subs : List Nat)
  | returned

/-- `topicChannel`, with the dispatcher that reads from it. -/
structure TopicChannel (α : Type) where
  buffer : List α := []
  closed : Bool := false
  /-- The context of the dispatcher is done. -/
  cancelled : Bool := false
  dispatcher : Dispatcher α := .selecting
  /-- What has been sent to the channel, which the queue itself does not keep. -/
  published : List α := []

/-- The channel of a subscriber, with the goroutine that reads from it. -/
structure Subscription (α : Type) where
  buffer : List α := []
  closed : Bool := false
  /-- The context of `Subscribe` is done. -/
  ctxDone : Bool := false
  returned : Bool := false
  -- The rest is history: what the dispatcher offered, and for what it then dropped how many
  -- messages were in the buffer.
  offered : List (α × Option Nat) := []
  handled : List α := []

structure MemoryQueue (α : Type) where
  bufferSize : Nat
  topics : String → Option (TopicChannel α) := fun _ => none
  /-- The subscribers of a topic, by their places in `subs`. -/
  fanout : String → List Nat := fun _ => []
  subs : List (Subscription α) := []
  /-- The calls of `Publish` that have released `mu` and not sent yet. -/
  publishing : Nat → Option (String × α) := fun _ => none
  closed : Bool := false
  /-- A send on a closed channel has ended the process. -/
  panicked : Bool := false

def defaultBufferSize : Nat := 4096

namespace MemoryQueue

variable {α : Type}

/-- `NewMemoryQueue`. -/
def new (α : Type) (bufferSize : Int) : MemoryQueue α :=
  { bufferSize := if bufferSize ≤ 0 then defaultBufferSize else bufferSize.toNat }

inductive Action (α : Type)
  /-- The section of `Publish`, by the goroutine `p`. -/
  | publish (p : Nat) (topic : String) (payload : α)
  | send (p : Nat)
  | subscribe (topic : String)
  | receive (topic : String)
  | copySubs (topic : String)
  | fanOut (topic : String)
  | stopDispatch (topic : String)
  | handle (i : Nat)
  | endContext (i : Nat)
  | stopHandling (i : Nat)
  | close

def putTopic (q : MemoryQueue α) (topic : String) (tc : TopicChannel α) : MemoryQueue α :=
  { q with topics := Function.update q.topics topic (some tc) }

@[simp] theorem putTopic_topics_self (q : MemoryQueue α) (topic : String) (tc : TopicChannel α) :
    (q.putTopic topic tc).topics topic = some tc :=
  Function.update_self ..

theorem putTopic_topics_of_ne (q : MemoryQueue α) {topic topic' : String} (h : topic' ≠ topic)
    (tc : TopicChannel α) : (q.putTopic topic tc).topics topic' = q.topics topic' :=
  Function.update_of_ne h ..

def putSub (q : MemoryQueue α) (i : Nat) (sub : Subscription α) : MemoryQueue α :=
  { q with subs := q.subs.set i sub }

def ensureTopic (q : MemoryQueue α) (topic : String) : MemoryQueue α :=
  match q.topics topic with
  | some _ => q
  | none => q.putTopic topic {}

/-- The send of `Publish`, which drops the payload if the buffer is full. -/
def sendTo (q : MemoryQueue α) (topic : String) (tc : TopicChannel α) (payload : α) :
    MemoryQueue α :=
  if tc.closed then { q with panicked := true }
  else if tc.buffer.length < q.bufferSize then
    q.putTopic topic
      { tc with buffer := tc.buffer ++ [payload], published := tc.published ++ [payload] }
  else q

/-- The send of `dispatch` to one subscriber. -/
def offer (q : MemoryQueue α) (i : Nat) (sub : Subscription α) (msg : α) : MemoryQueue α :=
  if sub.closed then { q with panicked := true }
  else if sub.buffer.length < q.bufferSize then
    q.putSub i { sub with buffer := sub.buffer ++ [msg], offered := sub.offered ++ [(msg, none)] }
  else q.putSub i { sub with offered := sub.offered ++ [(msg, some sub.buffer.length)] }

/-- The section of `Close`. -/
def closeAll (q : MemoryQueue α) : MemoryQueue α :=
  { q with
    closed := true
    topics := fun topic => (q.topics topic).map fun tc =>
      { tc with cancelled := true, closed := true }
    subs := q.subs.map fun sub => { sub with closed := true } }

def next (q : MemoryQueue α) (a : Action α) : Option (MemoryQueue α) :=
  if q.panicked then none
  else
    match a with
    | .publish p topic payload =>
      if (q.publishing p).isSome then none
      else if q.closed then some q
      else some { q.ensureTopic topic with
        publishing := Function.update q.publishing p (some (topic, payload)) }
    | .send p =>
      (q.publishing p).bind fun (topic, payload) => (q.topics topic).map fun tc =>
        { q with publishing := Function.update q.publishing p none }.sendTo topic tc payload
    | .subscribe topic =>
      if q.closed then some q
      else some { q.ensureTopic topic with
        subs := q.subs ++ [{}]
        fanout := Function.update q.fanout topic (q.fanout topic ++ [q.subs.length]) }
    | .receive topic =>
      (q.topics topic).bind fun tc =>
        match tc.dispatcher, tc.buffer with
        | .selecting, msg :: rest =>
          some (q.putTopic topic { tc with buffer := rest, dispatcher := .received msg })
        | _, _ => none
    | .copySubs topic =>
      (q.topics topic).bind fun tc =>
        match tc.dispatcher with
        | .received msg =>
          some (q.putTopic topic { tc with dispatcher := .fanningOut msg (q.fanout topic) })
        | _ => none
    | .fanOut topic =>
      (q.topics topic).bind fun tc =>
        match tc.dispatcher with
        | .fanningOut _ [] => some (q.putTopic topic { tc with dispatcher := .selecting })
        | .fanningOut msg (i :: rest) =>
          q.subs[i]?.map fun sub =>
            (q.putTopic topic { tc with dispatcher := .fanningOut msg rest }).offer i sub msg
        | _ => none
    | .stopDispatch topic =>
      (q.topics topic).bind fun tc =>
        match tc.dispatcher with
        | .selecting =>
          if tc.cancelled ∨ tc.closed ∧ tc.buffer = [] then
            some (q.putTopic topic { tc with dispatcher := .returned })
          else none
        | _ => none
    | .handle i =>
      q.subs[i]?.bind fun sub =>
        match sub.buffer with
        | msg :: rest =>
          if sub.returned then none
          else some (q.putSub i { sub with buffer := rest, handled := sub.handled ++ [msg] })
        | [] => none
    | .endContext i => q.subs[i]?.map fun sub => q.putSub i { sub with ctxDone := true }
    | .stopHandling i =>
      q.subs[i]?.bind fun sub =>
        if sub.ctxDone ∨ sub.closed ∧ sub.buffer = [] then
          some (q.putSub i { sub with returned := true })
        else none
    | .close => if q.closed then some q else some q.closeAll

def system (α : Type) (bufferSize : Int) : System (MemoryQueue α) (Action α) :=
  .ofNext (· = new α bufferSize) next

/-! ### Steps -/

/-- A step of a dispatcher that only concerns its topic. -/
inductive Dispatches (fanout : List Nat) (tc : TopicChannel α) : TopicChannel α → Prop
  | receive {msg : α} {rest : List α} (hd : tc.dispatcher = .selecting)
      (hb : tc.buffer = msg :: rest) :
      Dispatches fanout tc { tc with buffer := rest, dispatcher := .received msg }
  | copySubs {msg : α} (hd : tc.dispatcher = .received msg) :
      Dispatches fanout tc { tc with dispatcher := .fanningOut msg fanout }
  | fannedOut {msg : α} (hd : tc.dispatcher = .fanningOut msg []) :
      Dispatches fanout tc { tc with dispatcher := .selecting }
  | stop (hd : tc.dispatcher = .selecting) (hend : tc.cancelled ∨ tc.closed ∧ tc.buffer = []) :
      Dispatches fanout tc { tc with dispatcher := .returned }

/-- A step of a subscriber. -/
inductive Handles (sub : Subscription α) : Subscription α → Prop
  | handle {msg : α} {rest : List α} (hb : sub.buffer = msg :: rest) (hrun : sub.returned = false) :
      Handles sub { sub with buffer := rest, handled := sub.handled ++ [msg] }
  | endContext : Handles sub { sub with ctxDone := true }
  | stop (hend : sub.ctxDone ∨ sub.closed ∧ sub.buffer = []) :
      Handles sub { sub with returned := true }

/-- What a step does to the queue, with one case for each way in which `next` succeeds. -/
inductive Step (q : MemoryQueue α) : Action α → MemoryQueue α → Prop
  | refused {a : Action α} (hclosed : q.closed = true) : Step q a q
  | publish {p : Nat} {topic : String} {payload : α} (hopen : q.closed = false)
      (hidle : q.publishing p = none) :
      Step q (.publish p topic payload) { q.ensureTopic topic with
        publishing := Function.update q.publishing p (some (topic, payload)) }
  | send {p : Nat} {topic : String} {payload : α} {tc : TopicChannel α}
      (hp : q.publishing p = some (topic, payload)) (htopic : q.topics topic = some tc) :
      Step q (.send p)
        ({ q with publishing := Function.update q.publishing p none }.sendTo topic tc payload)
  | subscribe {topic : String} (hopen : q.closed = false) :
      Step q (.subscribe topic) { q.ensureTopic topic with
        subs := q.subs ++ [{}]
        fanout := Function.update q.fanout topic (q.fanout topic ++ [q.subs.length]) }
  | dispatch {a : Action α} {topic : String} {tc tc' : TopicChannel α}
      (htopic : q.topics topic = some tc)
      (hstep : Dispatches (q.fanout topic) tc tc') : Step q a (q.putTopic topic tc')
  | fanOut {topic : String} {tc : TopicChannel α} {msg : α} {i : Nat} {rest : List Nat}
      {sub : Subscription α} (htopic : q.topics topic = some tc)
      (hd : tc.dispatcher = .fanningOut msg (i :: rest)) (hsub : q.subs[i]? = some sub) :
      Step q (.fanOut topic)
        ((q.putTopic topic { tc with dispatcher := .fanningOut msg rest }).offer i sub msg)
  | subscriber {a : Action α} {i : Nat} {sub sub' : Subscription α} (hsub : q.subs[i]? = some sub)
      (hstep : Handles sub sub') : Step q a (q.putSub i sub')
  | close (hopen : q.closed = false) : Step q .close q.closeAll

theorem next_step {q q' : MemoryQueue α} {a : Action α} (h : q.next a = some q') :
    q.panicked = false ∧ Step q a q' := by
  unfold next at h
  split at h
  · cases h
  · next hpanicked =>
    refine ⟨by simpa using hpanicked, ?_⟩
    cases a with
    | publish p topic payload =>
      simp only at h
      split at h
      · cases h
      · next hidle =>
        have hnone : q.publishing p = none := by simpa using hidle
        split at h
        · next hclosed =>
          obtain rfl := Option.some.inj h
          exact .refused hclosed
        · next hclosed =>
          obtain rfl := Option.some.inj h
          exact .publish (by simpa using hclosed) hnone
    | send p =>
      obtain ⟨⟨topic, payload⟩, hp, htopic⟩ := Option.bind_eq_some_iff.mp h
      obtain ⟨tc, htc, rfl⟩ := Option.map_eq_some_iff.mp htopic
      exact .send hp htc
    | subscribe topic =>
      simp only at h
      split at h
      · next hclosed =>
        obtain rfl := Option.some.inj h
        exact .refused hclosed
      · next hclosed =>
        obtain rfl := Option.some.inj h
        exact .subscribe (by simpa using hclosed)
    | receive topic =>
      obtain ⟨tc, htopic, h⟩ := Option.bind_eq_some_iff.mp h
      split at h
      case h_1 hd hb =>
        obtain rfl := Option.some.inj h
        exact .dispatch htopic (.receive hd hb)
      case h_2 => cases h
    | copySubs topic =>
      obtain ⟨tc, htopic, h⟩ := Option.bind_eq_some_iff.mp h
      split at h
      case h_1 hd =>
        obtain rfl := Option.some.inj h
        exact .dispatch htopic (.copySubs hd)
      case h_2 => cases h
    | fanOut topic =>
      obtain ⟨tc, htopic, h⟩ := Option.bind_eq_some_iff.mp h
      split at h
      case h_1 hd =>
        obtain rfl := Option.some.inj h
        exact .dispatch htopic (.fannedOut hd)
      case h_2 hd =>
        obtain ⟨sub, hsub, rfl⟩ := Option.map_eq_some_iff.mp h
        exact .fanOut htopic hd hsub
      case h_3 => cases h
    | stopDispatch topic =>
      obtain ⟨tc, htopic, h⟩ := Option.bind_eq_some_iff.mp h
      split at h
      case h_1 hd =>
        split at h
        · next hend =>
          obtain rfl := Option.some.inj h
          exact .dispatch htopic (.stop hd hend)
        · cases h
      case h_2 => cases h
    | handle i =>
      obtain ⟨sub, hsub, h⟩ := Option.bind_eq_some_iff.mp h
      split at h
      case h_1 hb =>
        split at h
        · cases h
        · next hrun =>
          obtain rfl := Option.some.inj h
          exact .subscriber hsub (.handle hb (by simpa using hrun))
      case h_2 => cases h
    | endContext i =>
      obtain ⟨sub, hsub, rfl⟩ := Option.map_eq_some_iff.mp h
      exact .subscriber hsub .endContext
    | stopHandling i =>
      obtain ⟨sub, hsub, h⟩ := Option.bind_eq_some_iff.mp h
      split at h
      · next hend =>
        obtain rfl := Option.some.inj h
        exact .subscriber hsub (.stop hend)
      · cases h
    | close =>
      simp only at h
      split at h
      · next hclosed =>
        obtain rfl := Option.some.inj h
        exact .refused hclosed
      · next hclosed =>
        obtain rfl := Option.some.inj h
        exact .close (by simpa using hclosed)

end MemoryQueue

end LlmProxy.Storage

import Mathlib.Logic.Function.Basic
import LlmProxy.ProofKit.Counting
import LlmProxy.ProofKit.Progress
import Mathlib.Algebra.Order.BigOperators.Group.List
import Mathlib.Algebra.Order.Ring.Nat

/-! `redis.RedisQueue`: lists on a Redis server, calls of `Publish`, the goroutines of `Subscribe`,
and `Close`.  A step is one command on the server or one operation of a goroutine.  The client sends
a command again when the connection breaks, so that the server may run an `RPUSH` several times or
not at all, and may take a message off a list for a `BLPOP` whose reply nobody receives. -/

namespace LlmProxy.Storage

open ProofKit

def queueKey (topic : String) : String := "queue:" ++ topic

/-- A list of the server.  All but the items is history. -/
structure RedisList (α : Type) where
  items : List α := []
  /-- What was pushed to the right end, in order; of that, what `Publish` has pushed. -/
  pushed : List α := []
  published : List α := []
  /-- What was popped from the left end, in order. -/
  popped : List α := []
  /-- The messages whose handler returned without an error. -/
  completed : List α := []
  /-- The messages whose reply was lost, and those whose handler failed. -/
  lost : List α := []
  returned : List α := []

/-- Where `consume` is in its loop. -/
inductive ConsumerPhase (α : Type)
  /-- At the test of `stopCh` and the context. -/
  | checking
  /-- In `BLPop`. -/
  | popping
  | handling (payload : α)
  /-- In the `RPush` after the handler's error. -/
  | requeueing (payload : α)
  /-- At the select after an error of `BLPop`. -/
  | backingOff
  | returned
  deriving DecidableEq

structure Consumer (α : Type) where
  topic : String
  phase : ConsumerPhase α := .checking
  /-- The context of `Subscribe` is done. -/
  ctxDone : Bool := false

structure RedisQueue (α : Type) where
  lists : String → RedisList α := fun _ => {}
  consumers : List (Consumer α) := []
  /-- `stopCh` is closed. -/
  stopped : Bool := false

namespace RedisList

variable {α : Type}

/-- `RPUSH`, which the server has run this many times. -/
def rpush (l : RedisList α) (payload : α) (times : Nat) : RedisList α :=
  { l with
    items := l.items ++ List.replicate times payload
    pushed := l.pushed ++ List.replicate times payload }

/-- The server takes the first item off the list. -/
def take (l : RedisList α) (payload : α) (rest : List α) : RedisList α :=
  { l with items := rest, popped := l.popped ++ [payload] }

end RedisList

namespace RedisQueue

variable {α : Type}

inductive Action (α : Type)
  | publish (topic : String) (payload : α) (times : Nat)
  | subscribe (topic : String)
  | endContext (i : Nat)
  | close
  | check (i : Nat)
  /-- `BLPop` returns a message, or `goredis.Nil`, or another error. -/
  | pop (i : Nat)
  | timeout (i : Nat)
  | fail (i : Nat)
  /-- A reply with a message is lost. -/
  | lose (i : Nat)
  | handle (i : Nat) (ok : Bool)
  | requeue (i : Nat) (times : Nat)
  /-- The two cases of the select after an error. -/
  | stopWaiting (i : Nat)
  | backedOff (i : Nat)

def putList (q : RedisQueue α) (key : String) (l : RedisList α) : RedisQueue α :=
  { q with lists := Function.update q.lists key l }

def setPhase (q : RedisQueue α) (i : Nat) (c : Consumer α) (phase : ConsumerPhase α) :
    RedisQueue α :=
  { q with consumers := q.consumers.set i { c with phase } }

def next (q : RedisQueue α) : Action α → Option (RedisQueue α)
  | .publish topic payload times =>
    let key := queueKey topic
    let l := (q.lists key).rpush payload times
    some (q.putList key { l with published := l.published ++ List.replicate times payload })
  | .subscribe topic => some { q with consumers := q.consumers ++ [{ topic }] }
  | .endContext i =>
    q.consumers[i]?.map fun c =>
      { q with consumers := q.consumers.set i { c with ctxDone := true } }
  | .close => some { q with stopped := true }
  | .check i =>
    q.consumers[i]?.bind fun c =>
      match c.phase with
      | .checking => some (q.setPhase i c (if q.stopped || c.ctxDone then .returned else .popping))
      | _ => none
  | .pop i =>
    q.consumers[i]?.bind fun c =>
      match c.phase, (q.lists (queueKey c.topic)).items with
      | .popping, payload :: rest =>
        some ((q.putList (queueKey c.topic)
          ((q.lists (queueKey c.topic)).take payload rest)).setPhase i c
          (.handling payload))
      | _, _ => none
  | .timeout i =>
    q.consumers[i]?.bind fun c =>
      match c.phase, (q.lists (queueKey c.topic)).items with
      | .popping, [] => some (q.setPhase i c .checking)
      | _, _ => none
  | .fail i =>
    q.consumers[i]?.bind fun c =>
      match c.phase with
      | .popping => some (q.setPhase i c (if c.ctxDone then .returned else .backingOff))
      | _ => none
  | .lose i =>
    q.consumers[i]?.bind fun c =>
      match c.phase, (q.lists (queueKey c.topic)).items with
      | .popping, payload :: rest =>
        let l := (q.lists (queueKey c.topic)).take payload rest
        some (q.putList (queueKey c.topic) { l with lost := l.lost ++ [payload] })
      | _, _ => none
  | .handle i ok =>
    q.consumers[i]?.bind fun c =>
      match c.phase with
      | .handling payload =>
        if ok then
          let l := q.lists (queueKey c.topic)
          some ((q.putList (queueKey c.topic)
            { l with completed := l.completed ++ [payload] }).setPhase i c
            .checking)
        else some (q.setPhase i c (.requeueing payload))
      | _ => none
  | .requeue i times =>
    q.consumers[i]?.bind fun c =>
      match c.phase with
      | .requeueing payload =>
        let l := (q.lists (queueKey c.topic)).rpush payload times
        some ((q.putList (queueKey c.topic)
          { l with returned := l.returned ++ [payload] }).setPhase i c .checking)
      | _ => none
  | .stopWaiting i =>
    q.consumers[i]?.bind fun c =>
      match c.phase with
      | .backingOff => if q.stopped then some (q.setPhase i c .returned) else none
      | _ => none
  | .backedOff i =>
    q.consumers[i]?.bind fun c =>
      match c.phase with
      | .backingOff => some (q.setPhase i c .checking)
      | _ => none

def system (α : Type) : System (RedisQueue α) (Action α) := .ofNext (· = {}) next

/-- What a step does, with one case for each way in which `next` succeeds. -/
inductive Step (q : RedisQueue α) : Action α → RedisQueue α → Prop
  | publish (topic : String) (payload : α) (times : Nat) :
      Step q (.publish topic payload times) (q.putList (queueKey topic)
        { (q.lists (queueKey topic)).rpush payload times with
          published := (q.lists (queueKey topic)).published ++ List.replicate times payload })
  | subscribe (topic : String) :
      Step q (.subscribe topic) { q with consumers := q.consumers ++ [{ topic }] }
  | endContext {i : Nat} {c : Consumer α} (hc : q.consumers[i]? = some c) :
      Step q (.endContext i) { q with consumers := q.consumers.set i { c with ctxDone := true } }
  | close : Step q .close { q with stopped := true }
  | check {i : Nat} {c : Consumer α} (hc : q.consumers[i]? = some c)
      (hphase : c.phase = .checking) :
      Step q (.check i) (q.setPhase i c (if q.stopped || c.ctxDone then .returned else .popping))
  | pop {i : Nat} {c : Consumer α} {payload : α} {rest : List α} (hc : q.consumers[i]? = some c)
      (hphase : c.phase = .popping) (hitems : (q.lists (queueKey c.topic)).items = payload ::
        rest) :
      Step q (.pop i) ((q.putList (queueKey c.topic)
        ((q.lists (queueKey c.topic)).take payload rest)).setPhase i c (.handling payload))
  | timeout {i : Nat} {c : Consumer α} (hc : q.consumers[i]? = some c) (hphase : c.phase = .popping)
      (hitems : (q.lists (queueKey c.topic)).items = []) :
      Step q (.timeout i) (q.setPhase i c .checking)
  | fail {i : Nat} {c : Consumer α} (hc : q.consumers[i]? = some c) (hphase : c.phase = .popping) :
      Step q (.fail i) (q.setPhase i c (if c.ctxDone then .returned else .backingOff))
  | lose {i : Nat} {c : Consumer α} {payload : α} {rest : List α} (hc : q.consumers[i]? = some c)
      (hphase : c.phase = .popping) (hitems : (q.lists (queueKey c.topic)).items = payload ::
        rest) :
      Step q (.lose i) (q.putList (queueKey c.topic)
        { (q.lists (queueKey c.topic)).take payload rest with
          lost := (q.lists (queueKey c.topic)).lost ++ [payload] })
  | handled {i : Nat} {c : Consumer α} {payload : α} (hc : q.consumers[i]? = some c)
      (hphase : c.phase = .handling payload) :
      Step q (.handle i true) ((q.putList (queueKey c.topic)
        { q.lists (queueKey c.topic) with
          completed := (q.lists (queueKey c.topic)).completed ++ [payload] }).setPhase
        i c .checking)
  | failed {i : Nat} {c : Consumer α} {payload : α} (hc : q.consumers[i]? = some c)
      (hphase : c.phase = .handling payload) :
      Step q (.handle i false) (q.setPhase i c (.requeueing payload))
  | requeue {i times : Nat} {c : Consumer α} {payload : α} (hc : q.consumers[i]? = some c)
      (hphase : c.phase = .requeueing payload) :
      Step q (.requeue i times) ((q.putList (queueKey c.topic)
        { (q.lists (queueKey c.topic)).rpush payload times with
          returned := (q.lists (queueKey c.topic)).returned ++ [payload] }).setPhase i c .checking)
  | stopWaiting {i : Nat} {c : Consumer α} (hc : q.consumers[i]? = some c)
      (hphase : c.phase = .backingOff) (hstopped : q.stopped = true) :
      Step q (.stopWaiting i) (q.setPhase i c .returned)
  | backedOff {i : Nat} {c : Consumer α} (hc : q.consumers[i]? = some c)
      (hphase : c.phase = .backingOff) : Step q (.backedOff i) (q.setPhase i c .checking)

variable {q q' : RedisQueue α} {a : Action α}

theorem next_step (h : q.next a = some q') : Step q a q' := by
  cases a with
  | publish topic payload times =>
    obtain rfl := Option.some.inj h
    exact .publish topic payload times
  | subscribe topic =>
    obtain rfl := Option.some.inj h
    exact .subscribe topic
  | endContext i =>
    obtain ⟨c, hc, rfl⟩ := Option.map_eq_some_iff.mp h
    exact .endContext hc
  | close =>
    obtain rfl := Option.some.inj h
    exact .close
  | check i =>
    obtain ⟨c, hc, h⟩ := Option.bind_eq_some_iff.mp h
    split at h
    · next hphase =>
      obtain rfl := Option.some.inj h
      exact .check hc hphase
    · cases h
  | pop i =>
    obtain ⟨c, hc, h⟩ := Option.bind_eq_some_iff.mp h
    split at h
    · next hphase hitems =>
      obtain rfl := Option.some.inj h
      exact .pop hc hphase hitems
    · cases h
  | timeout i =>
    obtain ⟨c, hc, h⟩ := Option.bind_eq_some_iff.mp h
    split at h
    · next hphase hitems =>
      obtain rfl := Option.some.inj h
      exact .timeout hc hphase hitems
    · cases h
  | fail i =>
    obtain ⟨c, hc, h⟩ := Option.bind_eq_some_iff.mp h
    split at h
    · next hphase =>
      obtain rfl := Option.some.inj h
      exact .fail hc hphase
    · cases h
  | lose i =>
    obtain ⟨c, hc, h⟩ := Option.bind_eq_some_iff.mp h
    split at h
    · next hphase hitems =>
      obtain rfl := Option.some.inj h
      exact .lose hc hphase hitems
    · cases h
  | requeue i times =>
    obtain ⟨c, hc, h⟩ := Option.bind_eq_some_iff.mp h
    split at h
    · next hphase =>
      obtain rfl := Option.some.inj h
      exact .requeue hc hphase
    · cases h
  | backedOff i =>
    obtain ⟨c, hc, h⟩ := Option.bind_eq_some_iff.mp h
    split at h
    · next hphase =>
      obtain rfl := Option.some.inj h
      exact .backedOff hc hphase
    · cases h
  | handle i ok =>
    obtain ⟨c, hc, h⟩ := Option.bind_eq_some_iff.mp h
    split at h
    · next hphase =>
      cases ok with
      | true =>
        obtain rfl := Option.some.inj h
        exact .handled hc hphase
      | false =>
        obtain rfl := Option.some.inj h
        exact .failed hc hphase
    · cases h
  | stopWaiting i =>
    obtain ⟨c, hc, h⟩ := Option.bind_eq_some_iff.mp h
    split at h
    · next hphase =>
      split at h
      · next hstopped =>
        obtain rfl := Option.some.inj h
        exact .stopWaiting hc hphase hstopped
      · cases h
    · cases h

/-! ### Where the messages are -/

/-- The message in the hands of a consumer. -/
def message : ConsumerPhase α → Option α
  | .handling payload | .requeueing payload => some payload
  | .checking | .popping | .backingOff | .returned => none

def heldAt (key : String) (c : Consumer α) : Option α :=
  if queueKey c.topic = key then message c.phase else none

def held (q : RedisQueue α) (key : String) : Multiset α := holdings (heldAt key) q.consumers

/-- Messages leave a list in the order in which they came to it, and each of them that has left it
is in the hands of one consumer, or was handled, or lost with its reply, or its handler has
failed. -/
structure Placed (q : RedisQueue α) (key : String) : Prop where
  order : (q.lists key).popped ++ (q.lists key).items = (q.lists key).pushed
  places : ((q.lists key).popped : Multiset α) =
    q.held key + ↑(q.lists key).completed + ↑(q.lists key).lost + ↑(q.lists key).returned

theorem held_setPhase {i : Nat} {c : Consumer α} (hc : q.consumers[i]? = some c) (key : String)
    (phase : ConsumerPhase α) :
    (q.setPhase i c phase).held key + ↑(heldAt key c).toList =
      q.held key + ↑(heldAt key { c with phase }).toList :=
  holdings_set_add (heldAt key) hc { c with phase }

/-- A consumer whose message, or lack of one, stays as it is. -/
theorem held_setPhase_same {i : Nat} {c : Consumer α} (hc : q.consumers[i]? = some c) (key : String)
    {phase : ConsumerPhase α} (h : message phase = message c.phase) :
    (q.setPhase i c phase).held key = q.held key := by
  have := held_setPhase hc key phase
  simp only [heldAt, h] at this
  exact add_right_cancel this

theorem lists_putList_of_ne {key key' : String} (h : key' ≠ key) (l : RedisList α) :
    (q.putList key l).lists key' = q.lists key' :=
  Function.update_of_ne h ..

@[simp] theorem lists_putList_self (key : String) (l : RedisList α) :
    (q.putList key l).lists key = l :=
  Function.update_self ..

theorem Placed.congr {key : String} (h : Placed q key) (hlist : q'.lists key = q.lists key)
    (hheld : q'.held key = q.held key) : Placed q' key :=
  ⟨by rw [hlist]; exact h.order, by rw [hlist, hheld]; exact h.places⟩

/-- A command on one list, together with the phase of a consumer of its topic. -/
theorem Placed.move {i : Nat} {c : Consumer α} (h : ∀ key, Placed q key)
    (hc : q.consumers[i]? = some c) {l : RedisList α} {phase : ConsumerPhase α}
    (horder : l.popped ++ l.items = l.pushed)
    (hplaces : (l.popped : Multiset α) + ↑(message c.phase).toList =
      q.held (queueKey c.topic) + ↑(message phase).toList + ↑l.completed + ↑l.lost + ↑l.returned)
    (key : String) : Placed ((q.putList (queueKey c.topic) l).setPhase i c phase) key := by
  have hheld := held_setPhase (q := q.putList (queueKey c.topic) l) hc key phase
  by_cases hkey : key = queueKey c.topic
  · subst hkey
    simp only [heldAt, if_true] at hheld
    have hlist :
        ((q.putList (queueKey c.topic) l).setPhase i c phase).lists (queueKey c.topic) = l :=
      lists_putList_self _ l
    refine ⟨by rw [hlist]; exact horder, ?_⟩
    rw [hlist]
    apply add_right_cancel (b := (↑(message c.phase).toList : Multiset α))
    rw [hplaces, show q.held (queueKey c.topic) = (q.putList (queueKey c.topic) l).held _ from rfl,
      ← hheld]
    abel
  · refine (h key).congr (lists_putList_of_ne hkey l) ?_
    simp only [heldAt, Ne.symm hkey, if_false] at hheld
    exact add_right_cancel hheld

/-- A command on a list that no consumer takes part in. -/
theorem Placed.put {key₀ : String} (h : ∀ key, Placed q key) {l : RedisList α}
    (horder : l.popped ++ l.items = l.pushed)
    (hplaces : (l.popped : Multiset α) = q.held key₀ + ↑l.completed + ↑l.lost + ↑l.returned)
    (key : String) : Placed (q.putList key₀ l) key := by
  by_cases hkey : key = key₀
  · subst hkey
    exact ⟨by rw [lists_putList_self]; exact horder, by rw [lists_putList_self]; exact hplaces⟩
  · exact (h key).congr (lists_putList_of_ne hkey l) rfl

theorem coe_snoc (xs : List α) (x : α) : ((xs ++ [x] : List α) : Multiset α) = ↑xs + {x} := rfl

theorem step_placed (h : ∀ key, Placed q key) (hstep : Step q a q') : ∀ key, Placed q' key := by
  cases hstep with
  | publish topic payload times =>
    refine Placed.put h ?_ (h _).places
    simp only [RedisList.rpush, ← List.append_assoc, (h _).order]
  | subscribe topic =>
    intro key
    refine (h key).congr rfl ?_
    simp [held, holdings, heldAt, message]
  | @endContext i c hc =>
    intro key
    refine (h key).congr rfl
      (add_right_cancel (holdings_set_add (heldAt key) hc { c with ctxDone := true }))
  | close => exact fun key => (h key).congr rfl rfl
  | @check i c hc hphase =>
    refine fun key => (h key).congr rfl (held_setPhase_same hc key ?_)
    rw [hphase]
    split <;> rfl
  | timeout hc hphase | stopWaiting hc hphase | backedOff hc hphase =>
    exact fun key => (h key).congr rfl (held_setPhase_same hc key (by rw [hphase]; rfl))
  | @fail i c hc hphase =>
    refine fun key => (h key).congr rfl (held_setPhase_same hc key ?_)
    rw [hphase]
    split <;> rfl
  | failed hc hphase =>
    exact fun key => (h key).congr rfl (held_setPhase_same hc key (by rw [hphase]; rfl))
  | @pop i c payload rest hc hphase hitems =>
    have horder := (h (queueKey c.topic)).order
    refine Placed.move h hc ?_ ?_
    · rw [hitems] at horder
      simpa [RedisList.take] using horder
    · simp only [RedisList.take, coe_snoc, (h (queueKey c.topic)).places, hphase, message,
        Option.toList_none, Option.toList_some, Multiset.coe_nil, Multiset.coe_singleton]
      abel
  | @lose i c payload rest hc hphase hitems =>
    have horder := (h (queueKey c.topic)).order
    refine Placed.put h ?_ ?_
    · rw [hitems] at horder
      simpa [RedisList.take] using horder
    · simp only [RedisList.take, coe_snoc, (h (queueKey c.topic)).places]
      abel
  | @handled i c payload hc hphase =>
    refine Placed.move h hc (h _).order ?_
    simp only [coe_snoc, (h (queueKey c.topic)).places, hphase, message, Option.toList_none,
      Option.toList_some, Multiset.coe_nil, Multiset.coe_singleton]
    abel
  | @requeue i times c payload hc hphase =>
    refine Placed.move h hc ?_ ?_
    · simp only [RedisList.rpush, ← List.append_assoc, (h _).order]
    · simp only [RedisList.rpush, coe_snoc, (h (queueKey c.topic)).places, hphase, message,
        Option.toList_none, Option.toList_some, Multiset.coe_nil, Multiset.coe_singleton]
      abel

theorem reachable_placed {ok : RedisQueue α → Action α → Prop} (h : (system α).Reachable ok q) :
    ∀ key, Placed q key := by
  apply h.invariant (fun q => ∀ key, Placed q key)
  · rintro _ rfl key
    exact ⟨rfl, rfl⟩
  · intro q a q' _ hi _ hstep
    exact step_placed hi (next_step hstep)

/-! ### While the connection holds -/

/-- No reply is lost, and a command is run once. -/
def Connected (_ : RedisQueue α) : Action α → Prop
  | .lose _ => False
  | .publish _ _ times | .requeue _ times => times = 1
  | _ => True

instance (q : RedisQueue α) : (a : Action α) → Decidable (Connected q a)
  | .lose _ => instDecidableFalse
  | .publish _ _ times | .requeue _ times => inferInstanceAs (Decidable (times = 1))
  | .subscribe _ | .endContext _ | .close | .check _ | .pop _ | .timeout _ | .fail _ | .handle ..
  | .stopWaiting _ | .backedOff _ => instDecidableTrue

/-- What is pushed was published, or comes back from a handler that failed. -/
structure Lossless (q : RedisQueue α) (key : String) : Prop where
  lost : (q.lists key).lost = []
  pushed : ((q.lists key).pushed : Multiset α) = ↑(q.lists key).published + ↑(q.lists key).returned

theorem Lossless.put {key₀ : String} (h : ∀ key, Lossless q key) {l : RedisList α}
    (hq' : q'.lists = Function.update q.lists key₀ l) (hlost : l.lost = [])
    (hpushed : (l.pushed : Multiset α) = ↑l.published + ↑l.returned) (key : String) :
    Lossless q' key := by
  by_cases hkey : key = key₀
  · subst hkey
    have hlist : q'.lists key = l := by rw [hq', Function.update_self]
    exact ⟨by rw [hlist]; exact hlost, by rw [hlist]; exact hpushed⟩
  · have hlist : q'.lists key = q.lists key := by rw [hq', Function.update_of_ne hkey]
    exact ⟨by rw [hlist]; exact (h key).lost, by rw [hlist]; exact (h key).pushed⟩

theorem step_lossless (h : ∀ key, Lossless q key) (hok : Connected q a) (hstep : Step q a q') :
    ∀ key, Lossless q' key := by
  cases hstep with
  | publish topic payload times =>
    obtain rfl : times = 1 := hok
    refine Lossless.put h rfl (h (queueKey topic)).lost ?_
    simp only [RedisList.rpush, List.replicate_one, coe_snoc, (h (queueKey topic)).pushed]
    abel
  | @requeue i times c payload hc hphase =>
    obtain rfl : times = 1 := hok
    refine Lossless.put h rfl (h (queueKey c.topic)).lost ?_
    simp only [RedisList.rpush, List.replicate_one, coe_snoc, (h (queueKey c.topic)).pushed]
    abel
  | @pop i c payload rest | @handled i c payload =>
    exact Lossless.put h rfl (h (queueKey c.topic)).lost (h (queueKey c.topic)).pushed
  | lose => cases hok
  | subscribe | endContext | close | check | timeout | fail | failed | stopWaiting | backedOff =>
    exact fun key => ⟨(h key).lost, (h key).pushed⟩

/-- While the connection holds, the queue neither loses nor duplicates a message, with any number of
consumers and however often handlers fail: each message that was published is still on its list, or
in the hands of one consumer, or was handled without an error.  Messages leave a list in the order
in which they were pushed to it. -/
theorem message_in_one_place (h : (system α).Reachable Connected q) (topic : String) :
    (q.lists (queueKey topic)).pushed =
        (q.lists (queueKey topic)).popped ++ (q.lists (queueKey topic)).items ∧
      ((q.lists (queueKey topic)).published : Multiset α) =
        ↑(q.lists (queueKey topic)).items + q.held (queueKey topic) +
          ↑(q.lists (queueKey topic)).completed := by
  have hplaced := reachable_placed h (queueKey topic)
  have hlossless : ∀ key, Lossless q key := by
    apply h.invariant (fun q => ∀ key, Lossless q key)
    · rintro _ rfl key
      exact ⟨rfl, rfl⟩
    · intro q a q' _ hi hok hstep
      exact step_lossless hi hok (next_step hstep)
  refine ⟨hplaced.order.symm, ?_⟩
  have hpushed := (hlossless (queueKey topic)).pushed
  rw [← hplaced.order, ← Multiset.coe_add, hplaced.places, (hlossless (queueKey topic)).lost]
    at hpushed
  apply add_right_cancel (b := (↑(q.lists (queueKey topic)).returned : Multiset α))
  rw [← hpushed]
  simp only [Multiset.coe_nil]
  abel

/-- Two consumers: one has handled the second message, the first one went back to the list after an
error and is with the other consumer. -/
theorem message_in_one_place_requeued :
    ∃ q, (system Nat).Reachable Connected q ∧ (q.lists (queueKey "t")).popped = [1, 2, 1] ∧
      ((q.lists (queueKey "t")).published : Multiset Nat) =
        ↑(q.lists (queueKey "t")).items + q.held (queueKey "t") +
          ↑(q.lists (queueKey "t")).completed := by
  have hinit : (system Nat).Reachable Connected {} := .init rfl
  obtain ⟨q, hq, hpopped⟩ := hinit.exists_of_exec
    (fun q : RedisQueue Nat => (q.lists (queueKey "t")).popped = [1, 2, 1])
    (show System.Admits next Connected {} [.subscribe "t", .subscribe "t", .publish "t" 1 1,
      .publish "t" 2 1, .check 0, .check 1, .pop 0, .pop 1, .handle 0 false, .requeue 0 1,
      .handle 1 true, .check 1, .pop 1] by decide) (by decide)
  exact ⟨q, hq, hpopped, (message_in_one_place hq "t").2⟩

/-! ### `Close` -/

/-- The steps that a consumer has left once `stopCh` is closed. -/
def stepsLeft : ConsumerPhase α → Nat
  | .returned => 0
  | .checking => 1
  | .backingOff | .requeueing _ => 2
  | .handling _ => 3
  | .popping => 4

def isPopping : ConsumerPhase α → Bool
  | .popping => true
  | _ => false

/-- The consumer that takes the step.  It takes none when a reply is lost, which it does not
notice. -/
def Action.consumer? : Action α → Option Nat
  | .check i | .pop i | .timeout i | .fail i | .handle i _ | .requeue i _ | .stopWaiting i
  | .backedOff i => some i
  | .publish .. | .subscribe _ | .endContext _ | .close | .lose _ => none

def Action.own (a : Action α) : Bool := a.consumer?.isSome

def Action.isBy (i : Nat) (a : Action α) : Bool := a.consumer? = some i

/-- The consumer receives a message. -/
def Action.isPopBy (i : Nat) : Action α → Bool
  | .pop j => j = i
  | _ => false

/-- A consumer that comes later sees `stopCh` in its first step. -/
def Action.cost : Action α → Nat
  | .subscribe _ => 1
  | _ => 0

/-- `wg.Wait` lets `Close` return. -/
def Returnable (q : RedisQueue α) : Prop := ∀ c ∈ q.consumers, c.phase = .returned

/-- The consumer has returned, or there is none yet. -/
def HasReturned (i : Nat) (q : RedisQueue α) : Prop := ∀ c ∈ q.consumers[i]?, c.phase = .returned

theorem step_stopped (hstopped : q.stopped = true) (hstep : Step q a q') : q'.stopped = true := by
  cases hstep with
  | close => rfl
  | _ => exact hstopped

/-- What a consumer's step does to it once `stopCh` is closed; the other consumers stay as they
are. -/
structure Advances (q : RedisQueue α) (i : Nat) (a : Action α) (q' : RedisQueue α)
    (c c' : Consumer α) : Prop where
  before : q.consumers[i]? = some c
  after : q'.consumers = q.consumers.set i c'
  stepsLeft_lt : stepsLeft c'.phase < stepsLeft c.phase
  left : isPopping c'.phase = false
  received : ∀ j, a.isPopBy j = true → j = i ∧ isPopping c.phase = true

theorem step_advances {i : Nat} (hstopped : q.stopped = true) (hstep : Step q a q')
    (hby : a.consumer? = some i) : ∃ c c', Advances q i a q' c c' := by
  have hquiet {a : Action α} (h : ∀ j, a.isPopBy j = false) {c : Consumer α} (j : Nat)
      (hpop : a.isPopBy j = true) : j = i ∧ isPopping c.phase = true := by
    rw [h j] at hpop
    cases hpop
  cases hstep with
  | @check j c hc hphase =>
    obtain rfl := Option.some.inj hby
    exact ⟨c, _, hc, rfl, by simp [hstopped, hphase, stepsLeft], by rw [hstopped]; rfl,
      hquiet fun _ => rfl⟩
  | @pop j c payload rest hc hphase =>
    obtain rfl := Option.some.inj hby
    refine ⟨c, _, hc, rfl, by simp [hphase, stepsLeft], rfl, fun k hk => ⟨?_, by rw [hphase]; rfl⟩⟩
    exact (of_decide_eq_true hk).symm
  | @fail j c hc hphase =>
    obtain rfl := Option.some.inj hby
    refine ⟨c, _, hc, rfl, ?_, by simp only; split <;> rfl, hquiet fun _ => rfl⟩
    rw [hphase]
    split <;> simp [stepsLeft]
  | timeout hc hphase | handled hc hphase | failed hc hphase | requeue hc hphase
  | stopWaiting hc hphase | backedOff hc hphase =>
    obtain rfl := Option.some.inj hby
    exact ⟨_, _, hc, rfl, by simp [hphase, stepsLeft], rfl, hquiet fun _ => rfl⟩
  | publish | subscribe | endContext | close | lose => cases hby

/-- The steps that no consumer takes. -/
theorem step_others (hstep : Step q a q') (hby : a.consumer? = none) :
    q'.consumers = q.consumers ∨
      (∃ topic, a = .subscribe topic ∧ q'.consumers = q.consumers ++ [{ topic := topic }]) ∨
      ∃ i c, q.consumers[i]? = some c ∧
        q'.consumers = q.consumers.set i { c with ctxDone := true } := by
  cases hstep with
  | publish | close | lose => exact .inl rfl
  | subscribe topic => exact .inr (.inl ⟨topic, rfl, rfl⟩)
  | endContext hc => exact .inr (.inr ⟨_, _, hc, rfl⟩)
  | check | pop | timeout | fail | handled | failed | requeue | stopWaiting | backedOff => cases hby

/-- A step of another party leaves the phase of a consumer as it is, or the consumer begins with
it. -/
theorem phase_of_not_by {i : Nat} (hstopped : q.stopped = true) (hstep : Step q a q')
    (hby : a.isBy i = false) :
    q'.consumers[i]?.map (·.phase) = q.consumers[i]?.map (·.phase) ∨
      q.consumers[i]? = none ∧ q'.consumers[i]?.map (·.phase) = some .checking := by
  have hne : a.consumer? ≠ some i := of_decide_eq_false hby
  cases hwho : a.consumer? with
  | some j =>
    obtain ⟨c, c', hadv⟩ := step_advances hstopped hstep hwho
    have hij : j ≠ i := fun heq => hne (heq ▸ hwho)
    rw [hadv.after, List.getElem?_set_ne hij]
    exact .inl rfl
  | none =>
    obtain hsame | ⟨topic, -, hnew⟩ | ⟨j, c, hc, hset⟩ := step_others hstep hwho
    · rw [hsame]
      exact .inl rfl
    · rw [hnew]
      obtain hlt | heq | hgt := Nat.lt_trichotomy i q.consumers.length
      · rw [List.getElem?_append_left hlt]
        exact .inl rfl
      · subst heq
        exact .inr ⟨List.getElem?_eq_none le_rfl, by rw [List.getElem?_concat_length]; rfl⟩
      · rw [List.getElem?_eq_none hgt.le,
          List.getElem?_eq_none (by simpa using Nat.succ_le_of_lt hgt)]
        exact .inl rfl
    · rw [hset, List.getElem?_set]
      split
      · next heq =>
        subst heq
        rw [if_pos (List.getElem?_eq_some_iff.mp hc).1, hc]
        exact .inl rfl
      · exact .inl rfl

/-! #### One consumer -/

/-- The steps that a consumer has left, where one that comes later has its first test left. -/
def rankOf (i : Nat) (q : RedisQueue α) : Nat := (q.consumers[i]?.map (·.phase)).elim 1 stepsLeft

/-- The messages that a consumer may still receive. -/
def receivable (i : Nat) (q : RedisQueue α) : Nat :=
  (q.consumers[i]?.map (·.phase)).elim 0 fun phase => if isPopping phase then 1 else 0

theorem Advances.phases {i : Nat} {c c' : Consumer α} (h : Advances q i a q' c c') :
    q.consumers[i]?.map (·.phase) = some c.phase ∧
      q'.consumers[i]?.map (·.phase) = some c'.phase := by
  have hlt := (List.getElem?_eq_some_iff.mp h.before).1
  rw [h.before, h.after, List.getElem?_set_self hlt]
  exact ⟨rfl, rfl⟩

theorem consumer_enabled {i : Nat} (hstopped : q.stopped = true) (hnot : ¬ q.HasReturned i) :
    ∃ a, a.consumer? = some i ∧ (q.next a).isSome := by
  unfold HasReturned at hnot
  push Not at hnot
  obtain ⟨c, hc, hphase⟩ := hnot
  have hc : q.consumers[i]? = some c := hc
  cases hp : c.phase with
  | returned => exact absurd hp hphase
  | checking => exact ⟨.check i, rfl, by simp [next, hc, hp]⟩
  | popping =>
    cases hitems : (q.lists (queueKey c.topic)).items with
    | nil => exact ⟨.timeout i, rfl, by simp [next, hc, hp, hitems]⟩
    | cons payload rest => exact ⟨.pop i, rfl, by simp [next, hc, hp, hitems]⟩
  | handling payload => exact ⟨.handle i true, rfl, by simp [next, hc, hp]⟩
  | requeueing payload => exact ⟨.requeue i 1, rfl, by simp [next, hc, hp]⟩
  | backingOff => exact ⟨.stopWaiting i, rfl, by simp [next, hc, hp, hstopped]⟩

theorem ranked_consumer (α : Type) (i : Nat) :
    (system α).Ranked (Action.isBy i) (fun _ => 0) (HasReturned i) (·.stopped = true)
      (rankOf i) where
  keeps _ _ _ hs h := step_stopped hs (next_step h)
  lowers q a q' hs h hby := by
    obtain ⟨c, c', hadv⟩ := step_advances hs (next_step h) (of_decide_eq_true hby)
    rw [rankOf, rankOf, hadv.phases.1, hadv.phases.2]
    exact hadv.stepsLeft_lt
  raises q a q' hs h hby := by
    rw [rankOf, rankOf]
    obtain hsame | ⟨hnone, hnew⟩ := phase_of_not_by hs (next_step h) hby
    · rw [hsame]
      exact le_rfl
    · rw [hnone, hnew]
      exact le_rfl
  enabled q hs hnot := by
    obtain ⟨a, hby, hsome⟩ := consumer_enabled hs hnot
    exact ⟨a, _, decide_eq_true hby, Option.eq_some_of_isSome hsome⟩

/-- After `close(q.stopCh)` a consumer does not come to `BLPop` again. -/
theorem ranked_receivable (α : Type) (i : Nat) :
    (system α).Ranked (Action.isPopBy i) (fun _ => 0) (fun _ => True) (·.stopped = true)
      (receivable i) where
  keeps _ _ _ hs h := step_stopped hs (next_step h)
  lowers q a q' hs h hpop := by
    cases a with
    | pop j =>
      obtain ⟨c, c', hadv⟩ := step_advances (a := .pop j) hs (next_step h) rfl
      obtain ⟨rfl, hpopping⟩ := hadv.received i hpop
      rw [receivable, receivable, hadv.phases.1, hadv.phases.2]
      simp [hpopping, hadv.left]
    | _ => cases hpop
  raises q a q' hs h _ := by
    rw [receivable, receivable]
    cases hby : a.isBy i with
    | true =>
      obtain ⟨c, c', hadv⟩ := step_advances hs (next_step h) (of_decide_eq_true hby)
      rw [hadv.phases.2]
      simp [hadv.left]
    | false =>
      obtain hsame | ⟨hnone, hnew⟩ := phase_of_not_by hs (next_step h) hby
      · rw [hsame]
        exact le_rfl
      · rw [hnone, hnew]
        exact le_rfl
  enabled _ _ hnot := absurd trivial hnot

/-! #### All consumers -/

def closeRank (q : RedisQueue α) : Nat := (q.consumers.map (stepsLeft ·.phase)).sum

theorem closeRank_own_lt (hstopped : q.stopped = true) (hstep : Step q a q') (hown : a.own = true) :
    q'.closeRank < q.closeRank := by
  obtain ⟨i, hby⟩ := Option.isSome_iff_exists.mp hown
  obtain ⟨c, c', hadv⟩ := step_advances hstopped hstep hby
  have hsum := sum_map_set_add hadv.before c' (stepsLeft ·.phase)
  have hlt := hadv.stepsLeft_lt
  rw [closeRank, closeRank, hadv.after]
  omega

theorem closeRank_other_le (hstep : Step q a q') (hown : a.own = false) :
    q'.closeRank ≤ q.closeRank + a.cost := by
  rw [closeRank, closeRank]
  obtain hsame | ⟨topic, rfl, hnew⟩ | ⟨j, c, hc, hset⟩ :=
    step_others hstep (by simpa [Action.own] using hown)
  · rw [hsame]
    exact Nat.le_add_right _ _
  · simp [hnew, stepsLeft, Action.cost]
  · have hsum := sum_map_set_add hc { c with ctxDone := true } (stepsLeft ·.phase)
    rw [hset, add_right_cancel hsum]
    exact Nat.le_add_right _ _

theorem ranked_close (α : Type) :
    (system α).Ranked Action.own Action.cost Returnable (·.stopped = true) closeRank where
  keeps _ _ _ hs h := step_stopped hs (next_step h)
  lowers _ _ _ hs h hown := closeRank_own_lt hs (next_step h) hown
  raises _ _ _ _ h hown := closeRank_other_le (next_step h) hown
  enabled q hs hnot := by
    unfold Returnable at hnot
    push Not at hnot
    obtain ⟨c, hmem, hphase⟩ := hnot
    obtain ⟨i, hc⟩ := List.mem_iff_getElem?.mp hmem
    obtain ⟨a, hby, hsome⟩ := consumer_enabled (i := i) hs fun hall => hphase (hall c hc)
    exact ⟨a, _, by rw [Action.own, hby]; rfl, Option.eq_some_of_isSome hsome⟩

theorem stepsLeft_le (phase : ConsumerPhase α) : stepsLeft phase ≤ 4 := by
  cases phase <;> simp [stepsLeft]

theorem receivable_le (i : Nat) (q : RedisQueue α) :
    receivable i q ≤ 1 ∧
      (0 < receivable i q → ∃ c, q.consumers[i]? = some c ∧ c.phase = .popping) := by
  rw [receivable]
  cases hc : q.consumers[i]? with
  | none => simp
  | some c => cases hphase : c.phase <;> simp [isPopping, hphase]

/-- `Close` returns.  Once it has closed `stopCh`, every consumer takes at most four more steps,
whatever is published meanwhile and whichever replies are lost, and it can take one until it has
returned; and it receives a message only if it was in `BLPop` at that moment, and one message at
most. -/
theorem close_ends (hstopped : q.stopped = true) :
    (system α).Ends Action.own Action.cost Returnable (4 * q.consumers.length) q ∧
      ∀ i, (system α).Ends (Action.isBy i) (fun _ => 0) (HasReturned i) 4 q ∧
        ∀ actions q', (system α).Run q actions q' → actions.countP (Action.isPopBy i) ≤ 1 ∧
          (0 < actions.countP (Action.isPopBy i) → ∃ c, q.consumers[i]? = some c ∧
            c.phase = .popping) := by
  refine ⟨((ranked_close α).ends hstopped).mono ?_, fun i => ⟨?_, fun actions q' hrun => ?_⟩⟩
  · have hsum := List.sum_le_card_nsmul (q.consumers.map (stepsLeft ·.phase)) 4 fun n hn => by
      obtain ⟨c, -, rfl⟩ := List.mem_map.mp hn
      exact stepsLeft_le c.phase
    rw [List.length_map, nsmul_eq_mul, Nat.cast_id] at hsum
    rw [closeRank]
    omega
  · refine ((ranked_consumer α i).ends hstopped).mono ?_
    rw [rankOf]
    cases q.consumers[i]? with
    | none => exact (by decide : 1 ≤ 4)
    | some c => exact stepsLeft_le c.phase
  · have hbound : actions.countP (Action.isPopBy i) ≤ receivable i q := by
      simpa using ((ranked_receivable α i).ends hstopped).bounded actions q' hrun
    obtain ⟨hone, hpopping⟩ := receivable_le i q
    exact ⟨hbound.trans hone, fun hpos => hpopping (Nat.lt_of_lt_of_le hpos hbound)⟩

/-- One consumer in `BLPop` and one with a message when `stopCh` is closed, and two messages on the
list. -/
def closingQueue : RedisQueue Nat where
  lists := Function.update (fun _ => {}) (queueKey "t")
    { items := [2, 3], pushed := [1, 2, 3], published := [1, 2, 3], popped := [1] }
  consumers := [{ topic := "t", phase := .popping }, { topic := "t", phase := .handling 1 }]
  stopped := true

theorem close_ends_two_consumers :
    ∃ actions q', (system Nat).Run closingQueue actions q' ∧ q'.Returnable ∧
      actions.countP (Action.isPopBy 0) ≤ 1 ∧ actions.countP (Action.isPopBy 1) = 0 := by
  obtain ⟨hends, hconsumers⟩ := close_ends (q := closingQueue) rfl
  obtain ⟨actions, q', hrun, -, hreturnable⟩ := hends.reaches fun a hown => by
    cases a <;> first | rfl | cases hown
  obtain ⟨hfirst, -⟩ := (hconsumers 0).2 actions q' hrun
  obtain ⟨-, hsecond⟩ := (hconsumers 1).2 actions q' hrun
  refine ⟨actions, q', hrun, hreturnable, hfirst, Nat.eq_zero_of_not_pos fun hpos => ?_⟩
  obtain ⟨c, hc, hphase⟩ := hsecond hpos
  obtain rfl := Option.some.inj hc
  cases hphase

end RedisQueue

end LlmProxy.Storage

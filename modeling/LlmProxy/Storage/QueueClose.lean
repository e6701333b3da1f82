import LlmProxy.Storage.MemoryQueue
import Mathlib.Data.List.Basic
import Mathlib.Tactic.ByContra

/-! Sends on closed channels.  `Publish` and `dispatch` send after they have released `mu`, so that
`Close` is safe exactly if it finds none of them between the two. -/

namespace LlmProxy.Storage

open ProofKit

variable {α : Type}

/-- The subscribers that a dispatcher is going to send to. -/
def Dispatcher.targets : Dispatcher α → List Nat
  | .fanningOut _ subs => subs
  | _ => []

/-- The message that a dispatcher has and has not copied the subscribers for. -/
def Dispatcher.message : Dispatcher α → Option α
  | .received msg => some msg
  | _ => none

namespace MemoryQueue

/-- The dispatcher of the topic sends nothing any more, if nothing is published. -/
def Idle (fanout : List Nat) (tc : TopicChannel α) : Prop :=
  tc.dispatcher.targets = [] ∧
    (fanout = [] ∨ tc.buffer = [] ∧ tc.dispatcher.message = none)

/-- No call of `Publish` and no dispatcher has anything to send. -/
def Quiet (q : MemoryQueue α) : Prop :=
  (∀ p, q.publishing p = none) ∧ ∀ topic tc, q.topics topic = some tc → Idle (q.fanout topic) tc

/-- `Close` comes when nothing is on its way. -/
def ClosesQuietly (q : MemoryQueue α) : Action α → Prop
  | .close => q.closed = true ∨ q.Quiet
  | _ => True

/-! ### Before and after `Close` -/

/-- A topic of a queue with so many subscribers, which is closed or not. -/
structure TopicSound (closed : Bool) (subs : Nat) (fanout : List Nat) (tc : TopicChannel α) :
    Prop where
  closed_eq : tc.closed = closed
  cancelled_eq : tc.cancelled = closed
  running : closed = false → tc.dispatcher ≠ .returned
  targets_lt : ∀ i ∈ tc.dispatcher.targets, i < subs
  idle : closed = true → Idle fanout tc

structure Sound (q : MemoryQueue α) : Prop where
  panicked : q.panicked = false
  publishing : ∀ p topic payload, q.publishing p = some (topic, payload) →
    q.closed = false ∧ ∃ tc, q.topics topic = some tc
  topics : ∀ topic tc, q.topics topic = some tc →
    TopicSound q.closed q.subs.length (q.fanout topic) tc
  subs : ∀ sub ∈ q.subs, sub.closed = q.closed
  fanout_lt : ∀ topic, ∀ i ∈ q.fanout topic, i < q.subs.length

variable {q : MemoryQueue α} {topic : String} {tc tc' : TopicChannel α}

theorem TopicSound.dispatches {closed : Bool} {subs : Nat} {fanout : List Nat}
    (h : TopicSound closed subs fanout tc) (hfanout : ∀ i ∈ fanout, i < subs)
    (hstep : Dispatches fanout tc tc') : TopicSound closed subs fanout tc' := by
  cases hstep with
  | receive hd hb =>
    refine ⟨h.closed_eq, h.cancelled_eq, fun _ => nofun, nofun, fun hclosed => ⟨rfl, .inl ?_⟩⟩
    -- What is left in the buffer of a closed channel has nobody to go to.
    exact (h.idle hclosed).2.resolve_right fun hempty => by simp [hb] at hempty
  | copySubs hd =>
    refine ⟨h.closed_eq, h.cancelled_eq, fun _ => nofun, hfanout, fun hclosed => ?_⟩
    have hnone : fanout = [] :=
      (h.idle hclosed).2.resolve_right fun hempty => by simp [hd, Dispatcher.message] at hempty
    exact ⟨hnone, .inl hnone⟩
  | fannedOut hd =>
    refine ⟨h.closed_eq, h.cancelled_eq, fun _ => nofun, nofun, fun hclosed => ⟨rfl, ?_⟩⟩
    exact (h.idle hclosed).2.imp_right fun hempty => ⟨hempty.1, rfl⟩
  | stop hd hend =>
    refine ⟨h.closed_eq, h.cancelled_eq, fun hopen => ?_, nofun, fun hclosed => ⟨rfl, ?_⟩⟩
    · simp [h.closed_eq, h.cancelled_eq, hopen] at hend
    · exact (h.idle hclosed).2.imp_right fun hempty => ⟨hempty.1, rfl⟩

theorem Sound.putTopic (h : Sound q)
    (htc : TopicSound q.closed q.subs.length (q.fanout topic) tc) :
    Sound (q.putTopic topic tc) := by
  refine ⟨h.panicked, fun p topic' payload hp => ?_, fun topic' tc' htopic' =>
    ?_, h.subs, h.fanout_lt⟩
  · obtain ⟨hopen, tc', htc'⟩ := h.publishing p topic' payload hp
    refine ⟨hopen, ?_⟩
    by_cases heq : topic' = topic
    · exact ⟨tc, heq ▸ putTopic_topics_self ..⟩
    · exact ⟨tc', (putTopic_topics_of_ne q heq tc).trans htc'⟩
  · by_cases heq : topic' = topic
    · subst heq
      rw [putTopic_topics_self] at htopic'
      exact Option.some.inj htopic' ▸ htc
    · rw [putTopic_topics_of_ne q heq] at htopic'
      exact h.topics topic' tc' htopic'

theorem Sound.putSub (h : Sound q) (i : Nat) {sub : Subscription α} (hsub : sub.closed = q.closed) :
    Sound (q.putSub i sub) := by
  have hlength : (q.putSub i sub).subs.length = q.subs.length := List.length_set
  refine ⟨h.panicked, h.publishing, ?_, fun sub' hmem => ?_, ?_⟩
  · rw [hlength]
    exact h.topics
  · rcases List.mem_or_eq_of_mem_set hmem with hold | rfl
    · exact h.subs sub' hold
    · exact hsub
  · rw [hlength]
    exact h.fanout_lt

theorem Sound.ensureTopic (h : Sound q) (hopen : q.closed = false) (topic : String) :
    Sound (q.ensureTopic topic) ∧ ∃ tc, (q.ensureTopic topic).topics topic = some tc := by
  unfold MemoryQueue.ensureTopic
  split
  · next tc htopic => exact ⟨h, tc, htopic⟩
  · refine ⟨h.putTopic ⟨hopen.symm, hopen.symm, fun _ => nofun, nofun, fun hclosed => ?_⟩,
      {}, putTopic_topics_self ..⟩
    simp [hopen] at hclosed

theorem ensureTopic_frame (q : MemoryQueue α) (topic : String) :
    (q.ensureTopic topic).closed = q.closed ∧ (q.ensureTopic topic).publishing = q.publishing ∧
      (q.ensureTopic topic).subs = q.subs ∧ (q.ensureTopic topic).fanout = q.fanout := by
  unfold MemoryQueue.ensureTopic
  split <;> exact ⟨rfl, rfl, rfl, rfl⟩

theorem Sound.publish (h : Sound q) (hopen : q.closed = false) (p : Nat) (topic : String)
    (payload : α) :
    Sound { q.ensureTopic topic with
      publishing := Function.update q.publishing p (some (topic, payload)) } := by
  obtain ⟨hensured, htopic⟩ := h.ensureTopic hopen topic
  obtain ⟨hclosed, hpublishing, -, -⟩ := ensureTopic_frame q topic
  refine ⟨hensured.panicked, fun p' topic' payload' hp => ?_, hensured.topics, hensured.subs,
    hensured.fanout_lt⟩
  by_cases heq : p' = p
  · subst heq
    simp only [Function.update_self, Option.some.injEq, Prod.mk.injEq] at hp
    exact ⟨hclosed.trans hopen, hp.1 ▸ htopic⟩
  · simp only [Function.update_of_ne heq, ← hpublishing] at hp
    exact hensured.publishing p' topic' payload' hp

/-- A payload is sent to an open channel, because no call of `Publish` is left when the queue is
closed. -/
theorem Sound.send (h : Sound q) {p : Nat} {payload : α}
    (hp : q.publishing p = some (topic, payload)) (htopic : q.topics topic = some tc) :
    Sound
      ({ q with publishing := Function.update q.publishing p none }.sendTo topic tc payload) := by
  have hopen := (h.publishing p topic payload hp).1
  have htc := h.topics topic tc htopic
  have hdone : Sound { q with publishing := Function.update q.publishing p none } := by
    refine ⟨h.panicked, fun p' topic' payload' hp' => ?_, h.topics, h.subs, h.fanout_lt⟩
    by_cases heq : p' = p
    · subst heq
      simp at hp'
    · simp only [Function.update_of_ne heq] at hp'
      exact h.publishing p' topic' payload' hp'
  rw [sendTo, if_neg (by simp [htc.closed_eq, hopen])]
  split
  · refine hdone.putTopic ⟨htc.closed_eq, htc.cancelled_eq, htc.running, htc.targets_lt,
      fun hclosed => ?_⟩
    simp [hopen] at hclosed
  · exact hdone

theorem Sound.subscribe (h : Sound q) (hopen : q.closed = false) (topic : String) :
    Sound { q.ensureTopic topic with
      subs := q.subs ++ [{}]
      fanout := Function.update q.fanout topic (q.fanout topic ++ [q.subs.length]) } := by
  have hensured := (h.ensureTopic hopen topic).1
  obtain ⟨hclosed, -, hsubs, hfanout⟩ := ensureTopic_frame q topic
  have hlt {i : Nat} (hi : i < q.subs.length) : i < (q.subs ++ [({} : Subscription α)]).length := by
    simp only [List.length_append]
    omega
  refine ⟨hensured.panicked, hensured.publishing, fun topic' tc htopic' => ?_, fun sub hsub => ?_,
    fun topic' i hi => ?_⟩
  · have htc := hensured.topics topic' tc htopic'
    rw [hsubs] at htc
    refine ⟨htc.closed_eq, htc.cancelled_eq, htc.running, fun i hi => hlt (htc.targets_lt i hi), ?_⟩
    intro htrue
    simp [hclosed, hopen] at htrue
  · rcases List.mem_append.mp hsub with hold | hnew
    · exact (h.subs sub hold).trans hclosed.symm
    · rw [List.mem_singleton.mp hnew]
      exact (hclosed.trans hopen).symm
  · by_cases heq : topic' = topic
    · subst heq
      simp only [Function.update_self, List.mem_append, List.mem_singleton] at hi
      rcases hi with hi | rfl
      · exact hlt (h.fanout_lt topic' i hi)
      · simp
    · simp only [Function.update_of_ne heq] at hi
      exact hlt (h.fanout_lt topic' i hi)

/-- A message is offered to an open channel, because no targets are left when the queue is
closed. -/
theorem Sound.fanOut (h : Sound q) {msg : α} {i : Nat} {rest : List Nat} {sub : Subscription α}
    (htopic : q.topics topic = some tc) (hd : tc.dispatcher = .fanningOut msg (i :: rest))
    (hsub : q.subs[i]? = some sub) :
    Sound ((q.putTopic topic { tc with dispatcher := .fanningOut msg rest }).offer i sub msg) := by
  have htc := h.topics topic tc htopic
  have hopen : q.closed = false := by
    by_contra hclosed
    have htargets := (htc.idle (by simpa using hclosed)).1
    simp [hd, Dispatcher.targets] at htargets
  have hsubOpen : sub.closed = q.closed := h.subs sub (List.mem_of_getElem? hsub)
  have hmoved : Sound (q.putTopic topic { tc with dispatcher := .fanningOut msg rest }) := by
    refine h.putTopic ⟨htc.closed_eq, htc.cancelled_eq, fun _ => nofun, fun j hj =>
      ?_, fun hclosed => ?_⟩
    · exact htc.targets_lt j (by rw [hd]; exact List.mem_cons_of_mem i hj)
    · simp [hopen] at hclosed
  rw [offer, if_neg (by simp [hsubOpen, hopen])]
  split
  · exact hmoved.putSub i hsubOpen
  · exact hmoved.putSub i hsubOpen

theorem Sound.closeAll (h : Sound q) (hquiet : q.Quiet) : Sound q.closeAll := by
  refine ⟨h.panicked, fun p topic payload hp => ?_, fun topic tc htopic => ?_, fun sub hsub => ?_,
    fun topic i hi => ?_⟩
  · have hnone : q.publishing p = none := hquiet.1 p
    exact absurd (hnone.symm.trans hp) nofun
  · obtain ⟨tc, htc, rfl⟩ := Option.map_eq_some_iff.mp htopic
    refine ⟨rfl, rfl, nofun, fun i hi => ?_, fun _ => hquiet.2 topic tc htc⟩
    simpa [MemoryQueue.closeAll] using (h.topics topic tc htc).targets_lt i hi
  · obtain ⟨sub, -, rfl⟩ := List.mem_map.mp hsub
    rfl
  · simpa [MemoryQueue.closeAll] using h.fanout_lt topic i hi

theorem Sound.step {q' : MemoryQueue α} {a : Action α} (h : Sound q) (hok : ClosesQuietly q a)
    (hstep : Step q a q') : Sound q' := by
  cases hstep with
  | refused => exact h
  | publish hopen => exact h.publish hopen ..
  | send hp htopic => exact h.send hp htopic
  | subscribe hopen => exact h.subscribe hopen _
  | dispatch htopic hstep =>
    exact h.putTopic ((h.topics _ _ htopic).dispatches (h.fanout_lt _) hstep)
  | fanOut htopic hd hsub => exact h.fanOut htopic hd hsub
  | subscriber hsub hstep =>
    have hopen := h.subs _ (List.mem_of_getElem? hsub)
    exact h.putSub _ (by cases hstep <;> exact hopen)
  | close hopen => exact h.closeAll (hok.resolve_left (by simp [hopen]))

theorem sound_of_reachable {bufferSize : Int}
    (h : (system α bufferSize).Reachable ClosesQuietly q) :
    Sound q := by
  refine h.invariant Sound ?_ fun q a q' _ hsound hok hnext => hsound.step hok (next_step hnext).2
  rintro _ rfl
  exact ⟨rfl, nofun, nofun, nofun, nofun⟩

/-! ### Closing too early -/

/-- Some steps lead to a send on a closed channel. -/
def CanPanic (q : MemoryQueue α) : Prop :=
  ∃ actions q', System.exec next q actions = some q' ∧ q'.panicked = true

theorem CanPanic.of_next {q' : MemoryQueue α} {a : Action α} (hnext : q.next a = some q')
    (h : CanPanic q') : CanPanic q := by
  obtain ⟨actions, last, hexec, hlast⟩ := h
  exact ⟨a :: actions, last, by simp [System.exec, hnext, hexec], hlast⟩

theorem canPanic_of_panicked (h : q.panicked = true) : CanPanic q := ⟨[], q, rfl, h⟩

theorem canPanic_of_publishing (hlive : q.panicked = false) {p : Nat} {payload : α}
    (hp : q.publishing p = some (topic, payload)) (htopic : q.topics topic = some tc)
    (hclosed : tc.closed = true) : CanPanic q := by
  have hnext : q.next (.send p) =
      some ({ q with publishing := Function.update q.publishing p none }.sendTo
        topic tc payload) := by
    simp [next, hlive, hp, htopic]
  refine .of_next hnext (canPanic_of_panicked ?_)
  rw [sendTo, if_pos hclosed]

section Subscribers

variable {msg : α} (hlive : q.panicked = false) (hsubs : ∀ sub ∈ q.subs, sub.closed = true)
include hlive hsubs

theorem canPanic_of_target (htopic : q.topics topic = some tc) {i : Nat} {rest : List Nat}
    (hd : tc.dispatcher = .fanningOut msg (i :: rest)) (hi : i < q.subs.length) : CanPanic q := by
  have hsub : q.subs[i]? = some q.subs[i] := List.getElem?_eq_getElem hi
  have hnext : q.next (.fanOut topic) = some ((q.putTopic topic
      { tc with dispatcher := .fanningOut msg rest }).offer i q.subs[i] msg) := by
    simp [next, hlive, htopic, hd, hi]
  refine .of_next hnext (canPanic_of_panicked ?_)
  rw [offer, if_pos (hsubs _ (List.mem_of_getElem? hsub))]

variable (hfanout : q.fanout topic ≠ []) (hlt : ∀ i ∈ q.fanout topic, i < q.subs.length)
include hfanout hlt

theorem canPanic_of_received (htopic : q.topics topic = some tc)
    (hd : tc.dispatcher = .received msg) : CanPanic q := by
  have hnext : q.next (.copySubs topic) =
      some (q.putTopic topic { tc with dispatcher := .fanningOut msg (q.fanout topic) }) := by
    simp [next, hlive, htopic, hd]
  refine .of_next hnext ?_
  obtain ⟨i, rest, hcons⟩ := List.exists_cons_of_ne_nil hfanout
  have hcopied :
    ({ tc with dispatcher := .fanningOut msg (q.fanout topic) } : TopicChannel α).dispatcher =
      .fanningOut msg (i :: rest) := by
    rw [hcons]
  exact canPanic_of_target hlive hsubs (putTopic_topics_self ..) hcopied (hlt i (by simp [hcons]))

theorem canPanic_of_selecting (htopic : q.topics topic = some tc) (hd : tc.dispatcher = .selecting)
    (hbuffer : tc.buffer ≠ []) : CanPanic q := by
  obtain ⟨msg, rest, hcons⟩ := List.exists_cons_of_ne_nil hbuffer
  have hnext : q.next (.receive topic) =
      some (q.putTopic topic { tc with buffer := rest, dispatcher := .received msg }) := by
    simp [next, hlive, htopic, hd, hcons]
  exact .of_next hnext
    (canPanic_of_received hlive hsubs hfanout hlt (putTopic_topics_self ..) rfl)

/-- Whatever the dispatcher of a topic with subscribers has to send leads to a panic. -/
theorem canPanic_of_not_idle (htopic : q.topics topic = some tc) (hrun : tc.dispatcher ≠ .returned)
    (htargets : ∀ i ∈ tc.dispatcher.targets, i < q.subs.length)
    (hsends : tc.buffer ≠ [] ∨ tc.dispatcher.message ≠ none) : CanPanic q := by
  cases hd : tc.dispatcher with
  | selecting =>
    refine canPanic_of_selecting hlive hsubs hfanout hlt htopic hd (hsends.resolve_right ?_)
    simp [hd, Dispatcher.message]
  | received msg => exact canPanic_of_received hlive hsubs hfanout hlt htopic hd
  | fanningOut msg targets =>
    cases targets with
    | cons i rest =>
      exact canPanic_of_target hlive hsubs htopic hd (htargets i (by simp [hd, Dispatcher.targets]))
    | nil =>
      have hnext : q.next (.fanOut topic) =
          some (q.putTopic topic { tc with dispatcher := .selecting }) := by
        simp [next, hlive, htopic, hd]
      refine .of_next hnext
        (canPanic_of_selecting hlive hsubs hfanout hlt (putTopic_topics_self ..) rfl ?_)
      exact hsends.resolve_right (by simp [hd, Dispatcher.message])
  | returned => exact absurd hd hrun

end Subscribers

theorem Sound.canPanic_closeAll (h : Sound q) (hopen : q.closed = false) (hquiet : ¬ q.Quiet) :
    CanPanic q.closeAll := by
  have hsubs : ∀ sub ∈ q.closeAll.subs, sub.closed = true := by
    intro sub hsub
    obtain ⟨sub, -, rfl⟩ := List.mem_map.mp hsub
    rfl
  have hlength : q.closeAll.subs.length = q.subs.length := List.length_map ..
  have htopics {topic : String} {tc : TopicChannel α} (htopic : q.topics topic = some tc) :
      q.closeAll.topics topic = some { tc with cancelled := true, closed := true } :=
    Option.map_eq_some_iff.mpr ⟨tc, htopic, rfl⟩
  rw [Quiet, not_and_or, not_forall] at hquiet
  rcases hquiet with ⟨p, hp⟩ | hdispatch
  · obtain ⟨⟨topic, payload⟩, hp⟩ := Option.ne_none_iff_exists'.mp hp
    obtain ⟨-, tc, htopic⟩ := h.publishing p topic payload hp
    exact canPanic_of_publishing h.panicked hp (htopics htopic) rfl
  · simp only [not_forall] at hdispatch
    obtain ⟨topic, tc, htopic, hidle⟩ := hdispatch
    have htc := h.topics topic tc htopic
    have htargets : ∀ i ∈ tc.dispatcher.targets, i < q.closeAll.subs.length := by
      rw [hlength]
      exact htc.targets_lt
    rw [Idle, not_and_or, not_or, not_and_or] at hidle
    rcases hidle with hleft | ⟨hfanout, hsends⟩
    · cases hd : tc.dispatcher with
      | fanningOut msg targets =>
        rw [hd] at hleft htargets
        obtain ⟨i, rest, rfl⟩ := List.exists_cons_of_ne_nil hleft
        exact canPanic_of_target h.panicked hsubs (htopics htopic) hd
          (htargets i (List.mem_cons_self ..))
      | _ => exact absurd (by rw [hd]; rfl) hleft
    · refine canPanic_of_not_idle h.panicked hsubs hfanout ?_ (htopics htopic) (htc.running hopen)
        htargets hsends
      rw [hlength]
      exact h.fanout_lt topic

/-- Nothing is sent on a closed channel if `Close` comes when nothing is on its way.  At any other
time something may be. -/
theorem sends_on_open_channels (α : Type) (bufferSize : Int) :
    (∀ q, (system α bufferSize).Reachable ClosesQuietly q → q.panicked = false) ∧
      ∀ q, (system α bufferSize).Reachable ClosesQuietly q → q.closed = false → ¬ q.Quiet →
        ∃ actions q', System.exec next q (.close :: actions) = some q' ∧ q'.panicked = true := by
  refine ⟨fun q hq => (sound_of_reachable hq).panicked, fun q hq hopen hquiet => ?_⟩
  have hsound := sound_of_reachable hq
  obtain ⟨actions, q', hexec, hpanicked⟩ := hsound.canPanic_closeAll hopen hquiet
  have hclose : q.next .close = some q.closeAll := by simp [next, hsound.panicked, hopen]
  exact ⟨actions, q', by simp [System.exec, hclose, hexec], hpanicked⟩

/-- `Publish` takes the channel, `Close` closes it, and `Publish` sends. -/
theorem publish_panics :
    ∃ q, (system String 0).Reachable System.always q ∧ q.panicked = true :=
  System.Reachable.exists_of_exec (fun q : MemoryQueue String => q.panicked = true) (.init rfl)
    (System.admits_always _ [.publish 0 "logs" "entry", .close, .send 0]) (by decide)

end MemoryQueue

end LlmProxy.Storage

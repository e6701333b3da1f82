import LlmProxy.Storage.QueueClose
import Mathlib.Data.List.Nodup

/-! What the subscribers of a topic get while the queue is open.  A payload passes two buffers, with
the dispatcher between them, and each subscriber gets what was published since it was registered, in
order and once, unless its own buffer is full when the dispatcher comes to it. -/

namespace LlmProxy.Storage

open ProofKit

variable {α : Type}

/-- The message that a dispatcher still has for a subscriber. -/
def Dispatcher.toCome (i : Nat) : Dispatcher α → List α
  | .received msg => [msg]
  | .fanningOut msg subs => if i ∈ subs then [msg] else []
  | _ => []

/-- What is on its way to a subscriber before the subscriber's own buffer. -/
def TopicChannel.coming (i : Nat) (tc : TopicChannel α) : List α :=
  tc.dispatcher.toCome i ++ tc.buffer

/-- What the dispatcher has sent. -/
def Subscription.accepted (sub : Subscription α) : List α :=
  (sub.offered.filter (·.2.isNone)).map (·.1)

/-- A payload in the buffer of the topic. -/
def TopicChannel.sent (tc : TopicChannel α) (payload : α) : TopicChannel α :=
  { tc with buffer := tc.buffer ++ [payload], published := tc.published ++ [payload] }

/-- A message that the dispatcher has sent. -/
def Subscription.accept (sub : Subscription α) (msg : α) : Subscription α :=
  { sub with buffer := sub.buffer ++ [msg], offered := sub.offered ++ [(msg, none)] }

/-- A message that the dispatcher has dropped. -/
def Subscription.refuse (sub : Subscription α) (msg : α) : Subscription α :=
  { sub with offered := sub.offered ++ [(msg, some sub.buffer.length)] }

/-- A message that the dispatcher has come with, to a channel of this size. -/
def Subscription.offer (bufferSize : Nat) (sub : Subscription α) (msg : α) : Subscription α :=
  if sub.buffer.length < bufferSize then sub.accept msg else sub.refuse msg

namespace MemoryQueue

/-- `Close` is not called. -/
def NeverCloses (_ : MemoryQueue α) : Action α → Prop
  | .close => False
  | _ => True

/-! ### Dispatchers and their subscribers -/

/-- A dispatcher sends to subscribers of its topic, to none of them twice, and what it has not
copied the subscribers for comes last in what was published. -/
structure TopicWired (fanout : List Nat) (tc : TopicChannel α) : Prop where
  nodup : tc.dispatcher.targets.Nodup
  subset : tc.dispatcher.targets ⊆ fanout
  pending : ∃ copied, tc.published = copied ++ (tc.dispatcher.message.toList ++ tc.buffer)

/-- An open queue, where no two topics share a subscriber. -/
structure Wired (q : MemoryQueue α) : Prop extends Sound q where
  isOpen : q.closed = false
  fanout_nodup : ∀ topic, (q.fanout topic).Nodup
  fanout_inj : ∀ topic topic' i, i ∈ q.fanout topic → i ∈ q.fanout topic' → topic = topic'
  wired : ∀ topic tc, q.topics topic = some tc → TopicWired (q.fanout topic) tc

variable {q q' : MemoryQueue α} {a : Action α} {topic : String} {tc tc' : TopicChannel α} {i : Nat}

theorem TopicWired.dispatches {fanout : List Nat} (h : TopicWired fanout tc)
    (hfanout : fanout.Nodup) (hstep : Dispatches fanout tc tc') : TopicWired fanout tc' := by
  obtain ⟨copied, hpending⟩ := h.pending
  cases hstep with
  | receive hd hb =>
    refine ⟨List.nodup_nil, List.nil_subset _, copied, ?_⟩
    simpa [hd, hb, Dispatcher.message] using hpending
  | copySubs hd =>
    refine ⟨hfanout, List.Subset.refl _, ?_⟩
    rw [hd] at hpending
    exact ⟨copied ++ [_], by simpa [Dispatcher.message] using hpending⟩
  | fannedOut hd =>
    refine ⟨List.nodup_nil, List.nil_subset _, copied, ?_⟩
    simpa [hd, Dispatcher.message] using hpending
  | stop hd hend =>
    refine ⟨List.nodup_nil, List.nil_subset _, copied, ?_⟩
    simpa [hd, Dispatcher.message] using hpending

theorem offer_open (q : MemoryQueue α) (i : Nat) {sub : Subscription α} (hopen : sub.closed = false)
    (msg : α) : q.offer i sub msg = q.putSub i (sub.offer q.bufferSize msg) := by
  rw [offer, if_neg (by simp [hopen]), Subscription.offer, apply_ite (q.putSub i)]
  rfl

theorem sendTo_open (q : MemoryQueue α) (topic : String) (hopen : tc.closed = false) (payload : α) :
    q.sendTo topic tc payload = if tc.buffer.length < q.bufferSize then
      q.putTopic topic (tc.sent payload)
      else q := by
  rw [sendTo, if_neg (by simp [hopen])]
  rfl

theorem ensureTopic_topics (q : MemoryQueue α) {topic topic' : String}
    (h : q.topics topic' = some tc) :
    (q.ensureTopic topic).topics topic' = some tc := by
  unfold ensureTopic
  split
  · exact h
  · next hnone =>
    have hne : topic' ≠ topic := by
      rintro rfl
      rw [hnone] at h
      cases h
    rw [putTopic_topics_of_ne q hne, h]

/-- The topics after `ensureTopic`: a new one has nothing in it. -/
theorem ensureTopic_cases (q : MemoryQueue α) {topic topic' : String}
    (h : (q.ensureTopic topic).topics topic' = some tc) : q.topics topic' = some tc ∨ tc = {} := by
  unfold ensureTopic at h
  split at h
  · exact .inl h
  · by_cases hne : topic' = topic
    · subst hne
      rw [putTopic_topics_self] at h
      exact .inr (Option.some.inj h).symm
    · rw [putTopic_topics_of_ne q hne] at h
      exact .inl h

theorem topicWired_empty (fanout : List Nat) : TopicWired fanout ({} : TopicChannel α) :=
  ⟨List.nodup_nil, List.nil_subset _, [], rfl⟩

theorem TopicWired.sent {fanout : List Nat} (h : TopicWired fanout tc) (payload : α) :
    TopicWired fanout (tc.sent payload) := by
  obtain ⟨copied, hpending⟩ := h.pending
  refine ⟨h.nodup, h.subset, copied, ?_⟩
  simp [TopicChannel.sent, hpending]

theorem TopicWired.passed {fanout : List Nat} (h : TopicWired fanout tc) {msg : α} {rest : List Nat}
    (hd : tc.dispatcher = .fanningOut msg (i :: rest)) :
    TopicWired fanout { tc with dispatcher := .fanningOut msg rest } := by
  obtain ⟨copied, hpending⟩ := h.pending
  have hnodup := h.nodup
  have hsubset := h.subset
  rw [hd] at hnodup hsubset hpending
  exact ⟨(List.nodup_cons.mp hnodup).2, (List.cons_subset.mp hsubset).2, copied, hpending⟩

/-- A step that leaves the subscribers of the topics as they are. -/
theorem Wired.keep (h : Wired q) (hsound : Sound q') (hopen : q'.closed = false)
    (hfanout : q'.fanout = q.fanout)
    (htopics : ∀ topic tc, q'.topics topic = some tc → TopicWired (q.fanout topic) tc) :
    Wired q' := by
  refine ⟨hsound, hopen, ?_, ?_, ?_⟩
  · rw [hfanout]
    exact h.fanout_nodup
  · rw [hfanout]
    exact h.fanout_inj
  · rw [hfanout]
    exact htopics

/-- A topic that is put in the place of another one. -/
theorem Wired.topics_put (h : Wired q) (htc : TopicWired (q.fanout topic) tc) :
    ∀ topic' tc', (q.putTopic topic tc).topics topic' = some tc' →
      TopicWired (q.fanout topic') tc' := by
  intro topic' tc' htopic'
  by_cases hne : topic' = topic
  · subst hne
    rw [putTopic_topics_self] at htopic'
    exact Option.some.inj htopic' ▸ htc
  · rw [putTopic_topics_of_ne q hne] at htopic'
    exact h.wired topic' tc' htopic'

theorem Wired.topics_ensure (h : Wired q) {topic topic' : String}
    (hensured : (q.ensureTopic topic).topics topic' = some tc) :
    TopicWired (q.fanout topic') tc := by
  rcases ensureTopic_cases q hensured with hold | rfl
  · exact h.wired topic' tc hold
  · exact topicWired_empty _

/-- The subscribers of the topics after a `Subscribe`. -/
theorem mem_subscribed {fanout : String → List Nat} {topic topic' : String} {i j : Nat} :
    i ∈ Function.update fanout topic (fanout topic ++ [j]) topic' ↔
      i ∈ fanout topic' ∨ i = j ∧ topic' = topic := by
  by_cases hne : topic' = topic
  · subst hne
    simp
  · simp [hne]

theorem Wired.subscribe (h : Wired q) (topic : String) :
    Wired { q.ensureTopic topic with
      subs := q.subs ++ [{}]
      fanout := Function.update q.fanout topic (q.fanout topic ++ [q.subs.length]) } := by
  have hfresh (topic' : String) : q.subs.length ∉ q.fanout topic' := fun hmem =>
    Nat.lt_irrefl _ (h.fanout_lt topic' _ hmem)
  have hclosed := (ensureTopic_frame q topic).1
  refine ⟨h.toSound.subscribe h.isOpen topic, hclosed.trans h.isOpen, fun topic' => ?_,
    fun topic₁ topic₂ i h₁ h₂ => ?_, fun topic' tc htopic' => ?_⟩
  · by_cases hne : topic' = topic
    · subst hne
      simp only [Function.update_self]
      exact (h.fanout_nodup topic').append (List.nodup_singleton _)
        (List.disjoint_singleton.mpr (hfresh topic'))
    · simp only [Function.update_of_ne hne]
      exact h.fanout_nodup topic'
  · rcases mem_subscribed.mp h₁ with h₁ | ⟨rfl, rfl⟩
    · rcases mem_subscribed.mp h₂ with h₂ | ⟨rfl, -⟩
      · exact h.fanout_inj topic₁ topic₂ i h₁ h₂
      · exact absurd h₁ (hfresh topic₁)
    · rcases mem_subscribed.mp h₂ with h₂ | ⟨-, rfl⟩
      · exact absurd h₂ (hfresh topic₂)
      · rfl
  · have htc := h.topics_ensure htopic'
    exact ⟨htc.nodup, fun i hi => mem_subscribed.mpr (.inl (htc.subset hi)), htc.pending⟩

theorem Wired.step (h : Wired q) (hok : NeverCloses q a) (hstep : Step q a q') : Wired q' := by
  have hsound : Sound q' := h.toSound.step (by cases a <;> first | exact hok.elim | trivial) hstep
  cases hstep with
  | refused hclosed => exact h
  | @publish p topic payload hopen =>
    obtain ⟨hclosed, -, -, hfanout⟩ := ensureTopic_frame q topic
    exact h.keep hsound (hclosed.trans h.isOpen) hfanout fun _ _ => h.topics_ensure
  | @send p topic payload tc hp htopic =>
    have hopen := ((h.topics topic tc htopic).closed_eq).trans h.isOpen
    rw [sendTo_open _ _ hopen] at hsound ⊢
    split at hsound
    · next hroom =>
      rw [if_pos hroom]
      exact h.keep hsound h.isOpen rfl (h.topics_put ((h.wired topic tc htopic).sent payload))
    · next hroom =>
      rw [if_neg hroom]
      exact h.keep hsound h.isOpen rfl h.wired
  | subscribe hopen => exact h.subscribe _
  | @dispatch _ topic tc tc' htopic hdispatch =>
    exact h.keep hsound h.isOpen rfl
      (h.topics_put ((h.wired topic tc htopic).dispatches (h.fanout_nodup topic) hdispatch))
  | @fanOut topic tc msg j rest sub htopic hd hsub =>
    have hopen := (h.subs sub (List.mem_of_getElem? hsub)).trans h.isOpen
    rw [offer_open _ _ hopen] at hsound ⊢
    exact h.keep hsound h.isOpen rfl (h.topics_put ((h.wired topic tc htopic).passed hd))
  | subscriber hsub hstep => exact h.keep hsound h.isOpen rfl h.wired
  | close => exact hok.elim

/-! ### One subscriber -/

/-- What a step may do to a topic and to one of its subscribers. -/
inductive Moves (bufferSize : Nat) (fanout : List Nat) (i : Nat) (tc : TopicChannel α)
    (sub : Subscription α) :
    TopicChannel α → Subscription α → Prop
  | stay : Moves bufferSize fanout i tc sub tc sub
  | send (payload : α) : Moves bufferSize fanout i tc sub (tc.sent payload) sub
  | dispatch {tc' : TopicChannel α} (hstep : Dispatches fanout tc tc') :
      Moves bufferSize fanout i tc sub tc' sub
  /-- The dispatcher has come to another subscriber. -/
  | pass {msg : α} {j : Nat} {rest : List Nat} (hd : tc.dispatcher = .fanningOut msg (j :: rest))
      (hne : i ≠ j) :
        Moves bufferSize fanout i tc sub { tc with dispatcher := .fanningOut msg rest } sub
  | offer {msg : α} {rest : List Nat} (hd : tc.dispatcher = .fanningOut msg (i :: rest)) :
      Moves bufferSize fanout i tc sub { tc with dispatcher := .fanningOut msg rest }
        (sub.offer bufferSize msg)
  | handle {sub' : Subscription α} (hstep : Handles sub sub') :
      Moves bufferSize fanout i tc sub tc sub'

/-- The places of a topic and of a subscriber in the queue. -/
def At (q : MemoryQueue α) (topic : String) (i : Nat) (tc : TopicChannel α) (sub : Subscription α) :
    Prop :=
  i ∈ q.fanout topic ∧ q.topics topic = some tc ∧ q.subs[i]? = some sub

variable {sub sub' : Subscription α}

/-- Another topic is put into the queue. -/
theorem At.putTopic (h : q.At topic i tc sub) (topic' : String) (tc' : TopicChannel α) :
    (q.putTopic topic' tc').At topic i (if topic = topic' then tc' else tc) sub := by
  refine ⟨h.1, ?_, h.2.2⟩
  by_cases hne : topic = topic'
  · subst hne
    rw [putTopic_topics_self, if_pos rfl]
  · rw [putTopic_topics_of_ne q hne, if_neg hne]
    exact h.2.1

theorem At.putSub (h : q.At topic i tc sub) (j : Nat) (sub' : Subscription α) :
    (q.putSub j sub').At topic i tc (if i = j then sub' else sub) := by
  refine ⟨h.1, h.2.1, ?_⟩
  have hlt := (List.getElem?_eq_some_iff.mp h.2.2).1
  by_cases hne : i = j
  · subst hne
    rw [if_pos rfl]
    exact List.getElem?_set_self hlt
  · rw [if_neg hne]
    exact (List.getElem?_set_ne (Ne.symm hne)).trans h.2.2

theorem At.subscribe (h : q.At topic i tc sub) (topic' : String) :
    At { q.ensureTopic topic' with
      subs := q.subs ++ [{}]
      fanout := Function.update q.fanout topic' (q.fanout topic' ++ [q.subs.length]) }
      topic i tc sub := by
  have ⟨hi, htc, hsub⟩ := h
  have hlt := (List.getElem?_eq_some_iff.mp hsub).1
  exact ⟨mem_subscribed.mpr (.inl hi), ensureTopic_topics q htc,
    (List.getElem?_append_left hlt).trans hsub⟩

/-- A topic has made a step that is one for its subscribers. -/
theorem At.moves_putTopic (h : q.At topic i tc sub) {topic' : String} {tc₁ tc₂ : TopicChannel α}
    (htopic : q.topics topic' = some tc₁)
    (hmoves : Moves q.bufferSize (q.fanout topic') i tc₁ sub tc₂ sub) :
    ∃ tc' sub', (q.putTopic topic' tc₂).At topic i tc' sub' ∧
      Moves q.bufferSize (q.fanout topic) i tc sub tc' sub' := by
  refine ⟨_, sub, h.putTopic topic' tc₂, ?_⟩
  split
  · next heq =>
    subst heq
    obtain rfl := Option.some.inj (h.2.1.symm.trans htopic)
    exact hmoves
  · exact .stay

/-- The dispatcher of a topic has come to a subscriber. -/
theorem Wired.moves_fanOut (h : Wired q) (hat : q.At topic i tc sub) {topic' : String}
    {tc₁ : TopicChannel α} {msg : α} {j : Nat} {rest : List Nat} {sub₁ : Subscription α}
    (htopic : q.topics topic' = some tc₁) (hd : tc₁.dispatcher = .fanningOut msg (j :: rest))
    (hsub : q.subs[j]? = some sub₁) :
    ∃ tc' sub', ((q.putTopic topic' { tc₁ with dispatcher := .fanningOut msg rest }).putSub j
      (sub₁.offer q.bufferSize msg)).At topic i tc' sub' ∧
        Moves q.bufferSize (q.fanout topic) i tc sub tc' sub' := by
  refine ⟨_, _, (hat.putTopic topic' _).putSub j _, ?_⟩
  have hj : j ∈ q.fanout topic' :=
    (h.wired topic' tc₁ htopic).subset (by rw [hd]; exact List.mem_cons_self)
  by_cases heq : topic = topic'
  · subst heq
    obtain rfl := Option.some.inj (hat.2.1.symm.trans htopic)
    rw [if_pos rfl]
    split
    · next hij =>
      subst hij
      obtain rfl := Option.some.inj (hat.2.2.symm.trans hsub)
      exact .offer hd
    · next hij => exact .pass hd hij
  · -- A subscriber of another topic.
    have hij : i ≠ j := by
      rintro rfl
      exact heq (h.fanout_inj topic topic' i hat.1 hj)
    rw [if_neg heq, if_neg hij]
    exact .stay

/-- Whatever the step, it is one of these for a subscriber of a topic. -/
theorem Wired.moves (h : Wired q) (hok : NeverCloses q a) (hstep : Step q a q')
    (hat : q.At topic i tc sub) :
    ∃ tc' sub', q'.At topic i tc' sub' ∧ Moves q.bufferSize (q.fanout topic) i tc sub tc' sub' := by
  have ⟨hi, htc, hsub⟩ := hat
  cases hstep with
  | refused hclosed => exact ⟨tc, sub, hat, .stay⟩
  | @publish p topic' payload hopen =>
    obtain ⟨-, -, hsubs, hfanout⟩ := ensureTopic_frame q topic'
    exact ⟨tc, sub, ⟨by rwa [hfanout], ensureTopic_topics q htc, by rwa [hsubs]⟩, .stay⟩
  | @send p topic' payload tc' hp htopic =>
    have hopen := ((h.topics topic' tc' htopic).closed_eq).trans h.isOpen
    rw [sendTo_open _ _ hopen]
    split
    · have hput : MemoryQueue.At { q with publishing := Function.update q.publishing p none }
          topic i tc sub := hat
      exact hput.moves_putTopic htopic (.send payload)
    · exact ⟨tc, sub, hat, .stay⟩
  | subscribe hopen => exact ⟨tc, sub, hat.subscribe _, .stay⟩
  | dispatch htopic hdispatch => exact hat.moves_putTopic htopic (.dispatch hdispatch)
  | @fanOut topic' tc' msg j rest sub' htopic hd hsub' =>
    have hopen := (h.subs sub' (List.mem_of_getElem? hsub')).trans h.isOpen
    rw [offer_open _ _ hopen]
    exact h.moves_fanOut hat htopic hd hsub'
  | @subscriber _ j sub₁ sub₂ hsub₁ hhandles =>
    refine ⟨tc, _, hat.putSub j sub₂, ?_⟩
    split
    · next hij =>
      subst hij
      obtain rfl := Option.some.inj (hsub.symm.trans hsub₁)
      exact .handle hhandles
    · exact .stay
  | close => exact hok.elim

/-- The payloads of a topic after those that the subscriber came too late for: each was offered to
it, and handled or put into its buffer unless this was full, or it is still to come. -/
structure Traced (bufferSize i : Nat) (skipped : List α) (tc : TopicChannel α)
    (sub : Subscription α) : Prop where
  published : tc.published = skipped ++ (sub.offered.map (·.1) ++ tc.coming i)
  accepted : sub.handled ++ sub.buffer = sub.accepted
  bounded : sub.buffer.length ≤ bufferSize
  full : ∀ msg length, (msg, some length) ∈ sub.offered → length = bufferSize
  isOpen : sub.closed = false
  running : sub.ctxDone = false → sub.returned = false

variable {bufferSize : Nat} {skipped : List α}

theorem Traced.handles (h : Traced bufferSize i skipped tc sub) (hstep : Handles sub sub') :
    Traced bufferSize i skipped tc sub' := by
  cases hstep with
  | handle hb hrun =>
    have haccepted := h.accepted
    have hbounded := h.bounded
    rw [hb] at haccepted hbounded
    refine ⟨h.published, ?_, Nat.le_of_succ_le hbounded, h.full, h.isOpen, fun _ => hrun⟩
    simpa [Subscription.accepted] using haccepted
  | endContext => exact ⟨h.published, h.accepted, h.bounded, h.full, h.isOpen, nofun⟩
  | stop hend =>
    refine ⟨h.published, h.accepted, h.bounded, h.full, h.isOpen, fun hctx => ?_⟩
    simp [h.isOpen, show sub.ctxDone = false from hctx] at hend

theorem Traced.offered (h : Traced bufferSize i skipped tc sub)
    (hwired : tc.dispatcher.targets.Nodup) {msg : α} {rest : List Nat}
    (hd : tc.dispatcher = .fanningOut msg (i :: rest)) :
    Traced bufferSize i skipped { tc with dispatcher := .fanningOut msg rest }
      (sub.offer bufferSize msg) := by
  have hlast : i ∉ rest := by
    rw [hd] at hwired
    exact (List.nodup_cons.mp hwired).1
  have hpublished (found : Option Nat) : tc.published = skipped ++
      ((sub.offered ++ [(msg, found)]).map (·.1) ++
        TopicChannel.coming i { tc with dispatcher := .fanningOut msg rest }) := by
    rw [h.published]
    simp [TopicChannel.coming, Dispatcher.toCome, hd, hlast]
  have haccepted := h.accepted
  unfold Subscription.offer
  split
  · next hroom =>
    refine ⟨hpublished none, ?_, ?_, ?_, h.isOpen, h.running⟩
    · simp [Subscription.accept, Subscription.accepted, ← List.append_assoc, haccepted]
    · simpa [Subscription.accept] using Nat.succ_le_of_lt hroom
    · simpa [Subscription.accept] using h.full
  · next hroom =>
    have hfull : sub.buffer.length = bufferSize := Nat.le_antisymm h.bounded (Nat.not_lt.mp hroom)
    refine ⟨hpublished (some _), ?_, h.bounded, fun other length hmem => ?_, h.isOpen, h.running⟩
    · simpa [Subscription.refuse, Subscription.accepted] using haccepted
    · rcases List.mem_append.mp hmem with hold | hnew
      · exact h.full other length hold
      · obtain ⟨-, rfl⟩ : other = msg ∧ length = sub.buffer.length := by simpa using hnew
        exact hfull

theorem Traced.moves {fanout : List Nat} (h : Traced bufferSize i skipped tc sub) (hi : i ∈ fanout)
    (hwired : TopicWired fanout tc) (hmoves : Moves bufferSize fanout i tc sub tc' sub') :
    Traced bufferSize i skipped tc' sub' := by
  cases hmoves with
  | stay => exact h
  | send payload =>
    refine ⟨?_, h.accepted, h.bounded, h.full, h.isOpen, h.running⟩
    simp [TopicChannel.sent, TopicChannel.coming, h.published]
  | dispatch hstep =>
    refine ⟨?_, h.accepted, h.bounded, h.full, h.isOpen, h.running⟩
    cases hstep with
    | receive hd hb => simp [h.published, TopicChannel.coming, Dispatcher.toCome, hd, hb]
    | copySubs hd => simp [h.published, TopicChannel.coming, Dispatcher.toCome, hd, hi]
    | fannedOut hd => simp [h.published, TopicChannel.coming, Dispatcher.toCome, hd]
    | stop hd => simp [h.published, TopicChannel.coming, Dispatcher.toCome, hd]
  | pass hd hne =>
    refine ⟨?_, h.accepted, h.bounded, h.full, h.isOpen, h.running⟩
    simp [h.published, TopicChannel.coming, Dispatcher.toCome, hd, hne]
  | offer hd => exact h.offered hwired.nodup hd
  | handle hstep => exact h.handles hstep

/-- The subscriber gets what is published on the topic, apart from what came before it. -/
def Serves (q : MemoryQueue α) (topic : String) (i : Nat) (skipped : List α) : Prop :=
  ∃ tc sub, q.At topic i tc sub ∧ Traced q.bufferSize i skipped tc sub

theorem ensureTopic_bufferSize (q : MemoryQueue α) (topic : String) :
    (q.ensureTopic topic).bufferSize = q.bufferSize := by
  unfold ensureTopic
  split <;> rfl

/-- A send subscribes nobody. -/
theorem sendTo_frame (q : MemoryQueue α) (topic : String) (tc : TopicChannel α) (payload : α) :
    (q.sendTo topic tc payload).bufferSize = q.bufferSize ∧
      (q.sendTo topic tc payload).fanout = q.fanout := by
  unfold sendTo
  split
  · exact ⟨rfl, rfl⟩
  · split <;> exact ⟨rfl, rfl⟩

theorem offer_frame (q : MemoryQueue α) (i : Nat) (sub : Subscription α) (msg : α) :
    (q.offer i sub msg).bufferSize = q.bufferSize ∧ (q.offer i sub msg).fanout = q.fanout := by
  unfold offer
  split
  · exact ⟨rfl, rfl⟩
  · split <;> exact ⟨rfl, rfl⟩

theorem Step.bufferSize_eq (hstep : Step q a q') : q'.bufferSize = q.bufferSize := by
  cases hstep with
  | publish => exact ensureTopic_bufferSize q _
  | subscribe => exact ensureTopic_bufferSize q _
  | send => exact (sendTo_frame ..).1
  | fanOut => exact (offer_frame ..).1
  | _ => rfl

theorem Serves.step (h : Serves q topic i skipped) (hwired : Wired q) (hok : NeverCloses q a)
    (hstep : Step q a q') : Serves q' topic i skipped := by
  obtain ⟨tc, sub, hat, htraced⟩ := h
  obtain ⟨tc', sub', hat', hmoves⟩ := hwired.moves hok hstep hat
  refine ⟨tc', sub', hat', ?_⟩
  rw [hstep.bufferSize_eq]
  exact htraced.moves hat.1 (hwired.wired topic tc hat.2.1) hmoves

/-- A new subscriber has come too late for what the dispatcher has copied the subscribers for. -/
theorem Wired.serves_new (h : Wired q) (topic : String) :
    ∃ skipped, Serves { q.ensureTopic topic with
      subs := q.subs ++ [{}]
      fanout := Function.update q.fanout topic (q.fanout topic ++ [q.subs.length]) }
      topic q.subs.length skipped := by
  obtain ⟨hensured, tc, htc⟩ := h.toSound.ensureTopic h.isOpen topic
  obtain ⟨copied, hpending⟩ := (h.topics_ensure htc).pending
  have hfresh : q.subs.length ∉ tc.dispatcher.targets := fun hmem => by
    have hlt := (hensured.topics topic tc htc).targets_lt _ hmem
    rw [(ensureTopic_frame q topic).2.2.1] at hlt
    exact Nat.lt_irrefl _ hlt
  have hcome : tc.dispatcher.toCome q.subs.length = tc.dispatcher.message.toList := by
    cases hd : tc.dispatcher with
    | fanningOut msg subs =>
      rw [hd] at hfresh
      exact if_neg hfresh
    | _ => rfl
  refine ⟨copied, tc, {}, ⟨?_, htc, List.getElem?_concat_length⟩, ?_, rfl, Nat.zero_le _,
    nofun, rfl, fun _ => rfl⟩
  · exact mem_subscribed.mpr (.inr ⟨rfl, rfl⟩)
  · rw [hpending, TopicChannel.coming, hcome]
    rfl

/-- A subscriber was there before the step, or the step is its `Subscribe`. -/
theorem Step.fanout_cases (hstep : Step q a q') (hi : i ∈ q'.fanout topic) :
    i ∈ q.fanout topic ∨ i = q.subs.length ∧ q' = { q.ensureTopic topic with
      subs := q.subs ++ [{}]
      fanout := Function.update q.fanout topic (q.fanout topic ++ [q.subs.length]) } := by
  cases hstep with
  | publish => exact .inl ((ensureTopic_frame q _).2.2.2 ▸ hi)
  | @subscribe topic' hopen =>
    rcases mem_subscribed.mp hi with hold | ⟨hlast, rfl⟩
    · exact .inl hold
    · exact .inr ⟨hlast, rfl⟩
  | send =>
    rw [(sendTo_frame ..).2] at hi
    exact .inl hi
  | fanOut =>
    rw [(offer_frame ..).2] at hi
    exact .inl hi
  | _ => exact .inl hi

/-- Every subscriber is served. -/
structure Served (q : MemoryQueue α) : Prop extends Wired q where
  serves : ∀ topic, ∀ i ∈ q.fanout topic, ∃ skipped, Serves q topic i skipped

theorem Served.step (h : Served q) (hok : NeverCloses q a) (hstep : Step q a q') : Served q' := by
  refine ⟨h.toWired.step hok hstep, fun topic i hi => ?_⟩
  rcases hstep.fanout_cases hi with hold | ⟨rfl, rfl⟩
  · obtain ⟨skipped, hserves⟩ := h.serves topic i hold
    exact ⟨skipped, hserves.step h.toWired hok hstep⟩
  · exact h.toWired.serves_new topic

theorem served_of_reachable {bufferSize : Int} (h : (system α bufferSize).Reachable NeverCloses q) :
    Served q := by
  refine h.invariant Served (fun q hq => ?_) fun q a q' _ hserved hok hnext =>
    hserved.step hok (next_step hnext).2
  obtain rfl := hq
  exact ⟨⟨⟨rfl, nofun, nofun, nofun, nofun⟩, rfl, fun _ => List.nodup_nil, nofun, nofun⟩, nofun⟩

/-! ### Every payload -/

/-- What became of a payload for a subscriber. -/
inductive Fate
  | handled
  /-- In the buffer of the subscriber. -/
  | waiting
  /-- Not sent by the dispatcher, when so many messages were in the buffer. -/
  | dropped (length : Nat)
  /-- The dispatcher has not come to the subscriber with it. -/
  | coming
  deriving DecidableEq

/-- How many messages were in the buffer when the dispatcher did not send the payload. -/
def Fate.found : Fate → Option Nat
  | .dropped length => some length
  | _ => none

/-- The payloads with a fate, in order. -/
def withFate (fate : Fate) (fates : List (α × Fate)) : List α :=
  (fates.filter (·.2 = fate)).map (·.1)

/-- The fates of what a subscriber was offered, when it has handled so many of the payloads that
were sent to it. -/
def fatesOf : Nat → List (α × Option Nat) → List (α × Fate)
  | _, [] => []
  | n, (msg, some length) :: rest => (msg, .dropped length) :: fatesOf n rest
  | 0, (msg, none) :: rest => (msg, .waiting) :: fatesOf 0 rest
  | n + 1, (msg, none) :: rest => (msg, .handled) :: fatesOf n rest

/-- A list of all payloads that were published on the topic since some publication, and their fates
for the subscriber, whose channel is of this size. -/
structure Delivery (bufferSize i : Nat) (skipped : List α) (fates : List (α × Fate))
    (tc : TopicChannel α) (sub : Subscription α) : Prop where
  published : tc.published = skipped ++ fates.map (·.1)
  handled : sub.handled = withFate .handled fates
  waiting : sub.buffer = withFate .waiting fates
  coming : tc.coming i = withFate .coming fates
  /-- What the dispatcher has come with. -/
  offered : sub.offered = (fates.filter (·.2 ≠ .coming)).map fun (msg, fate) => (msg, fate.found)
  full : ∀ msg length, (msg, .dropped length) ∈ fates → length = bufferSize

theorem withFate_cons (fate : Fate) (entry : α × Fate) (fates : List (α × Fate)) :
    withFate fate (entry :: fates) =
      if entry.2 = fate then entry.1 :: withFate fate fates else withFate fate fates := by
  by_cases heq : entry.2 = fate <;> simp [withFate, heq]

theorem withFate_append (fate : Fate) (fates fates' : List (α × Fate)) :
    withFate fate (fates ++ fates') = withFate fate fates ++ withFate fate fates' := by
  simp [withFate]

theorem withFate_coming (fate : Fate) (msgs : List α) :
    withFate fate (msgs.map (·, Fate.coming)) = if fate = .coming then msgs else [] := by
  induction msgs with
  | nil => simp [withFate]
  | cons msg rest ih =>
    rw [List.map_cons, withFate_cons, ih]
    by_cases heq : fate = .coming <;> simp [heq, eq_comm]

theorem fatesOf_payloads (n : Nat) (offered : List (α × Option Nat)) :
    (fatesOf n offered).map (·.1) = offered.map (·.1) := by
  fun_induction fatesOf n offered with
  | case1 => rfl
  | case2 _ _ _ _ ih | case3 _ _ ih | case4 _ _ _ ih => rw [List.map_cons, ih, List.map_cons]

/-- What a subscriber has handled are the first payloads that were sent to it. -/
theorem fatesOf_handled (n : Nat) (offered : List (α × Option Nat)) :
    withFate .handled (fatesOf n offered) = ((offered.filter (·.2.isNone)).map (·.1)).take n := by
  fun_induction fatesOf n offered with
  | case1 => simp [withFate]
  | case2 _ _ _ _ ih | case3 _ _ ih | case4 _ _ _ ih => simp [withFate_cons, ih]

theorem fatesOf_waiting (n : Nat) (offered : List (α × Option Nat)) :
    withFate .waiting (fatesOf n offered) = ((offered.filter (·.2.isNone)).map (·.1)).drop n := by
  fun_induction fatesOf n offered with
  | case1 => simp [withFate]
  | case2 _ _ _ _ ih | case3 _ _ ih | case4 _ _ _ ih => simp [withFate_cons, ih]

theorem fatesOf_coming (n : Nat) (offered : List (α × Option Nat)) :
    withFate .coming (fatesOf n offered) = [] := by
  fun_induction fatesOf n offered with
  | case1 => rfl
  | case2 _ _ _ _ ih | case3 _ _ ih | case4 _ _ _ ih => simp [withFate_cons, ih]

theorem fatesOf_offered (n : Nat) (offered : List (α × Option Nat)) :
    ((fatesOf n offered).filter (·.2 ≠ .coming)).map (fun (msg, fate) => (msg, fate.found)) =
      offered := by
  fun_induction fatesOf n offered with
  | case1 => rfl
  | case2 _ _ _ _ ih | case3 _ _ ih | case4 _ _ _ ih =>
    rw [List.filter_cons_of_pos (by simp), List.map_cons, ih]
    rfl

theorem mem_of_fatesOf_dropped {n length : Nat} {msg : α} {offered : List (α × Option Nat)}
    (h : (msg, .dropped length) ∈ fatesOf n offered) : (msg, some length) ∈ offered := by
  fun_induction fatesOf n offered with
  | case1 => cases h
  | case2 n other length' rest ih =>
    rcases List.mem_cons.mp h with heq | hrest
    · cases heq
      exact List.mem_cons_self
    · exact List.mem_cons_of_mem _ (ih hrest)
  | case3 other rest ih => exact List.mem_cons_of_mem _ (ih (by simpa using h))
  | case4 n other rest ih => exact List.mem_cons_of_mem _ (ih (by simpa using h))

/-- A traced subscriber accounts for every payload. -/
theorem Traced.delivery (h : Traced bufferSize i skipped tc sub) :
    Delivery bufferSize i skipped
      (fatesOf sub.handled.length sub.offered ++ (tc.coming i).map (·, .coming)) tc sub := by
  have hhandled : sub.accepted.take sub.handled.length = sub.handled := by
    rw [← h.accepted, List.take_left]
  have hwaiting : sub.accepted.drop sub.handled.length = sub.buffer := by
    rw [← h.accepted, List.drop_left]
  refine ⟨?_, ?_, ?_, ?_, ?_, fun msg length hmem => ?_⟩
  · rw [List.map_append, fatesOf_payloads, h.published]
    simp [Function.comp_def]
  · rw [withFate_append, withFate_coming, if_neg (by decide), List.append_nil, fatesOf_handled]
    exact hhandled.symm
  · rw [withFate_append, withFate_coming, if_neg (by decide), List.append_nil, fatesOf_waiting]
    exact hwaiting.symm
  · rw [withFate_append, withFate_coming, if_pos rfl, fatesOf_coming, List.nil_append]
  · rw [List.filter_append, List.map_append, fatesOf_offered]
    simp
  · exact h.full msg length (mem_of_fatesOf_dropped (by simpa using hmem))

theorem Delivery.handled_sublist {fates : List (α × Fate)}
    (h : Delivery bufferSize i skipped fates tc sub) : sub.handled.Sublist tc.published := by
  rw [h.published, h.handled]
  exact (List.filter_sublist.map _).trans (List.sublist_append_right ..)

/-- A subscriber of a topic handles payloads of this topic only, in the order in which they were
published and none of them twice.  Of those that were published after it subscribed, it has missed
the ones that the dispatcher came with when its own buffer was full; the others are handled or on
their way, to a goroutine that has not returned if its context is not done. -/
theorem fans_out_in_order {bufferSize : Int} {q q' : MemoryQueue α} {actions : List (Action α)}
    {topic : String} {i : Nat} (hq : (system α bufferSize).Reachable NeverCloses q)
    (hi : i ∈ q.fanout topic)
    (hrun : ((system α bufferSize).restrict NeverCloses).Run q actions q') :
    ∃ tc tc' sub', q.topics topic = some tc ∧ q'.topics topic = some tc' ∧ q'.subs[i]? = some sub' ∧
      sub'.handled.Sublist tc'.published ∧ (∀ other, i ∈ q'.fanout other → other = topic) ∧
      (sub'.ctxDone = false → sub'.returned = false) ∧
      ∃ skipped fates, skipped.length ≤ tc.published.length ∧
        Delivery (new α bufferSize).bufferSize i skipped fates tc' sub' := by
  have hserved := served_of_reachable hq
  obtain ⟨skipped, hserves⟩ := hserved.serves topic i hi
  have hsize : q.bufferSize = (new α bufferSize).bufferSize :=
    hq.invariant (fun q => q.bufferSize = (new α bufferSize).bufferSize)
      (fun _ hinit => hinit ▸ rfl)
      fun _ _ _ _ heq _ hnext => (next_step hnext).2.bufferSize_eq.trans heq
  have hkept : q'.bufferSize = q.bufferSize ∧ Wired q' ∧ Serves q' topic i skipped := by
    refine hrun.invariant (fun q₁ => q₁.bufferSize = q.bufferSize ∧ Wired q₁ ∧
      Serves q₁ topic i skipped) ?_
      ⟨rfl, hserved.toWired, hserves⟩
    rintro q₁ a q₂ ⟨heq, hwired, hserves⟩ ⟨hok, hnext⟩
    have hstep := (next_step hnext).2
    exact ⟨hstep.bufferSize_eq.trans heq, hwired.step hok hstep, hserves.step hwired hok hstep⟩
  obtain ⟨tc, sub, hat, htraced⟩ := hserves
  obtain ⟨hsize', hwired, tc', sub', hat', htraced'⟩ := hkept
  rw [hsize', hsize] at htraced'
  refine ⟨tc, tc', sub', hat.2.1, hat'.2.1, hat'.2.2, htraced'.delivery.handled_sublist,
    fun other hother => hwired.fanout_inj other topic i hother hat'.1, htraced'.running,
    skipped, _, ?_, htraced'.delivery⟩
  rw [htraced.published, List.length_append]
  exact Nat.le_add_right ..

/-- Buffers for one payload: the first payload is handled, the second one finds the buffer of the
subscriber full, and the third one is on its way. -/
theorem fans_out_in_order_full :
    ∃ q q' actions, (system Nat 1).Reachable NeverCloses q ∧ 0 ∈ q.fanout "logs" ∧
      ((system Nat 1).restrict NeverCloses).Run q actions q' ∧
      q'.subs.map (·.offered) = [[(1, none), (2, some 1)]] ∧ q'.subs.map (·.handled) = [[1]] ∧
      ∃ tc tc' sub', q.topics "logs" = some tc ∧ q'.topics "logs" = some tc' ∧
        q'.subs[0]? = some sub' ∧ sub'.handled.Sublist tc'.published ∧
        (∀ other, 0 ∈ q'.fanout other → other = "logs") ∧
        (sub'.ctxDone = false → sub'.returned = false) ∧ ∃ skipped fates,
          skipped.length ≤ tc.published.length ∧ Delivery 1 0 skipped fates tc' sub' := by
  let actions : List (Action Nat) :=
    [.publish 0 "logs" 1, .send 0, .receive "logs", .copySubs "logs", .fanOut "logs",
      .fanOut "logs", .publish 0 "logs" 2, .send 0, .receive "logs", .copySubs "logs",
      .fanOut "logs", .fanOut "logs", .handle 0, .publish 0 "logs" 3, .send 0]
  let q := (System.exec next (new Nat 1) [.subscribe "logs"]).get (by decide)
  let q' := (System.exec next q actions).get (by decide)
  have hq : (system Nat 1).Reachable NeverCloses q :=
    .exec (.init rfl) (by simp [System.Admits, NeverCloses]) (Option.some_get _).symm
  have hi : 0 ∈ q.fanout "logs" := by decide
  have hrun : ((system Nat 1).restrict NeverCloses).Run q actions q' :=
    .of_exec _ (by simp [actions, System.Admits, NeverCloses]) (Option.some_get _).symm
  exact ⟨q, q', actions, hq, hi, hrun, by decide, by decide, fans_out_in_order hq hi hrun⟩

end MemoryQueue

end LlmProxy.Storage

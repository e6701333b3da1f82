import LlmProxy.Queue.PriorityQueue
import LlmProxy.ProofKit.System
import Mathlib.Algebra.Order.Group.Multiset
import Mathlib.Tactic.Abel

/-! `RequestQueue` refines a bounded priority multiset.  `Bag` says what the queue is for, without a
slice and without sift loops.  Every sequence of calls on the queue, with contexts that end at any
point between them, is a sequence of calls on the bag with the same results. -/

namespace LlmProxy.Queue

open ProofKit

/-- A call with its results, or the end of the context of the request at `addr`.  A call of
`DequeueBlocking` also names the cancelled requests that it pops, and a call of `Remove` the
request that it takes out. -/
inductive Call
  | enqueue (req : PendingRequest) (position length : Int)
  | dequeue (skipped : List PendingRequest) (out : RequestQueue.Dequeued)
  | remove (requestID : String) (taken : List PendingRequest) (index : Int)
  | close
  | cancel (addr : Nat)

/-- `done` after the context of the request at `addr` has ended. -/
def endContext (done : Nat → Bool) (addr : Nat) : Nat → Bool :=
  fun a => if a = addr then true else done a

/-- The queue, and which contexts are done. -/
structure QueueState where
  queue : RequestQueue
  done : Nat → Bool

def QueueState.Step (s : QueueState) : Call → QueueState → Prop
  | .enqueue req position length, s' =>
    s.queue.enqueue req = (position, length, s'.queue) ∧ s'.done = s.done
  | .dequeue skipped out, s' =>
    s.queue.dequeue s.done = (skipped, out, s'.queue) ∧ s'.done = s.done
  | .remove requestID taken index, s' =>
    s.queue.remove requestID = (index, s'.queue) ∧ s'.done = s.done ∧
      taken = if 0 ≤ index then s.queue.heap[index.toNat]?.toList else []
  | .close, s' => s' = { s with queue := s.queue.close }
  | .cancel addr, s' => s' = { s with done := endContext s.done addr }

def queueSystem (max : Int) : System QueueState Call where
  init s := s.queue = newRequestQueue max
  step := QueueState.Step

/-- A multiset of requests that may be closed. -/
structure Bag where
  items : Multiset PendingRequest
  closed : Bool
  done : Nat → Bool

/-- `a` goes before `b`: it has a higher priority, or the same one and an earlier timestamp. -/
def Before (a b : PendingRequest) : Prop :=
  b.priority < a.priority ∨ a.priority = b.priority ∧ a.timestamp < b.timestamp

/-- The bag takes no further request. -/
def Bag.Refuses (max : Int) (b : Bag) : Prop :=
  b.closed = true ∨ 0 < max ∧ max ≤ b.items.card

def Bag.Step (max : Int) (b : Bag) : Call → Bag → Prop
  | .enqueue req position length, b' =>
    (b.Refuses max ∧ position = -1 ∧ length = -1 ∧ b' = b) ∨
      (¬b.Refuses max ∧ 0 ≤ position ∧ length = b.items.card + 1 ∧
        b' = { b with items := req ::ₘ b.items })
  | .dequeue skipped out, b' =>
    (∀ x ∈ skipped, b.done x.addr = true) ∧ b'.closed = b.closed ∧ b'.done = b.done ∧
      match out with
      | .item r => b.items = ↑skipped + r ::ₘ b'.items ∧ b.done r.addr = false ∧
          ∀ y ∈ b'.items, ¬Before y r
      | .stopped => b.items = ↑skipped ∧ b'.items = 0 ∧ b.closed = true
      | .wait => b.items = ↑skipped ∧ b'.items = 0 ∧ b.closed = false
  | .remove requestID taken index, b' =>
    ((∀ r ∈ b.items, r.id ≠ requestID) ∧ taken = [] ∧ index = -1 ∧ b' = b) ∨
      ∃ r items, r.id = requestID ∧ taken = [r] ∧ 0 ≤ index ∧ b.items = r ::ₘ items ∧
        b' = { b with items }
  | .close, b' => b' = { b with closed := true }
  | .cancel addr, b' => b' = { b with done := endContext b.done addr }

def bagSystem (max : Int) : System Bag Call where
  init b := b.items = 0 ∧ b.closed = false
  step := Bag.Step max

/-- The bag that a queue stands for. -/
def QueueState.bag (s : QueueState) : Bag :=
  { items := ↑s.queue.heap, closed := s.queue.closed, done := s.done }

/-- What every call keeps: the heap order, the bound, and the room that `max` leaves. -/
structure QueueState.Inv (max : Int) (s : QueueState) : Prop where
  valid : s.queue.Valid
  max_eq : s.queue.max = max
  bounded : 0 < max → s.queue.heap.length ≤ max

theorem QueueState.newQueue_inv (max : Int) (done : Nat → Bool) :
    QueueState.Inv max ⟨newRequestQueue max, done⟩ :=
  ⟨RequestQueue.newRequestQueue_valid max, rfl, fun hpos => by
    simpa [newRequestQueue] using Int.le_of_lt hpos⟩

theorem refuses_iff {max : Int} {s : QueueState} (hmax : s.queue.max = max) :
    s.bag.Refuses max ↔ (s.queue.closed || s.queue.full) = true := by
  simp [Bag.Refuses, QueueState.bag, RequestQueue.full, hmax]

theorem enqueue_refines {max : Int} {s s' : QueueState} (hi : s.Inv max) {req : PendingRequest}
    {position length : Int} (h : s.Step (.enqueue req position length) s') :
    s.bag.Step max (.enqueue req position length) s'.bag ∧ s'.Inv max := by
  obtain ⟨heq, hdone⟩ := h
  obtain ⟨q', done'⟩ := s'
  subst hdone
  by_cases hr : (s.queue.closed || s.queue.full) = true
  · rw [RequestQueue.enqueue_refused hr] at heq
    obtain ⟨rfl, rfl, rfl⟩ : -1 = position ∧ -1 = length ∧ s.queue = q' := by simpa using heq
    exact ⟨.inl ⟨(refuses_iff hi.max_eq).mpr hr, rfl, rfl, rfl⟩, hi⟩
  · obtain ⟨heap, hperm, hen, hvalid⟩ := RequestQueue.enqueue_accepted (by simpa using hr) req
    rw [hen] at heq
    obtain ⟨rfl, rfl, rfl⟩ := heq
    have hlen : heap.length = s.queue.heap.length + 1 := hperm.length_eq
    refine ⟨.inr ⟨mt (refuses_iff hi.max_eq).mp hr, by simp, ?_, ?_⟩, hvalid hi.valid, hi.max_eq,
      fun hpos => ?_⟩
    · simp [QueueState.bag, hlen]
    · have hitems : (heap : Multiset PendingRequest) = req ::ₘ ↑s.queue.heap :=
        Multiset.coe_eq_coe.mpr hperm
      simp [QueueState.bag, hitems]
    · -- Below the limit there is room for one more.
      have hroom : ¬(max ≤ s.queue.heap.length) := by
        have hmax := hi.max_eq
        simp [RequestQueue.full, hmax, hpos] at hr
        omega
      show (heap.length : Int) ≤ max
      omega

theorem dequeue_refines {max : Int} {s s' : QueueState} (hi : s.Inv max)
    {skipped : List PendingRequest} {out : RequestQueue.Dequeued}
    (h : s.Step (.dequeue skipped out) s') :
    s.bag.Step max (.dequeue skipped out) s'.bag ∧ s'.Inv max := by
  obtain ⟨heq, hdone⟩ := h
  obtain ⟨q', done'⟩ := s'
  subst hdone
  cases out with
  | item r =>
    obtain ⟨hskip, hlive, hperm, hmin, hvalid, hmax, hclosed⟩ :=
      RequestQueue.dequeue_item hi.valid heq
    have hlen := hperm.length_eq
    simp only [List.length_append, List.length_cons] at hlen
    refine ⟨⟨hskip, hclosed, rfl, ?_, hlive, fun y hy => ?_⟩, hvalid, hmax.trans hi.max_eq,
      fun hpos => ?_⟩
    · exact (Multiset.coe_eq_coe.mpr hperm).symm
    · exact less_eq_false.mp (hmin y hy)
    · have := hi.bounded hpos
      show (q'.heap.length : Int) ≤ max
      omega
  | stopped | wait =>
    obtain ⟨hskip, hperm, hq, hout⟩ := RequestQueue.dequeue_empty hi.valid heq (by simp)
    subst hq
    refine ⟨⟨hskip, rfl, rfl, (Multiset.coe_eq_coe.mpr hperm).symm, rfl, ?_⟩, ?_, hi.max_eq, ?_⟩
    · show s.queue.closed = _
      cases hc : s.queue.closed <;> simp_all
    · intro i _ hlt
      simp at hlt
    · intro hpos
      show ((0 : Nat) : Int) ≤ max
      omega

theorem remove_refines {max : Int} {s s' : QueueState} (hi : s.Inv max) {requestID : String}
    {taken : List PendingRequest} {index : Int} (h : s.Step (.remove requestID taken index) s') :
    s.bag.Step max (.remove requestID taken index) s'.bag ∧ s'.Inv max := by
  obtain ⟨heq, hdone, htaken⟩ := h
  obtain ⟨q', done'⟩ := s'
  subst hdone
  rcases RequestQueue.remove_spec hi.valid requestID with
    ⟨hnone, hrem⟩ | ⟨i, r, heap, hid, hget, hperm, hheap, hrem⟩
  · rw [hrem] at heq
    obtain ⟨rfl, rfl⟩ : -1 = index ∧ s.queue = q' := by simpa using heq
    exact ⟨.inl ⟨hnone, by simpa using htaken, rfl, rfl⟩, hi⟩
  · rw [hrem] at heq
    obtain ⟨rfl, rfl⟩ := heq
    have hlen := hperm.length_eq
    simp only [List.length_cons] at hlen
    refine ⟨.inr ⟨r, ↑heap, hid, ?_, by simp, (Multiset.coe_eq_coe.mpr hperm).symm, rfl⟩, hheap,
      hi.max_eq, fun hpos => ?_⟩
    · simpa [hget] using htaken
    · have := hi.bounded hpos
      show (heap.length : Int) ≤ max
      omega

theorem step_refines {max : Int} {s s' : QueueState} (hi : s.Inv max) {c : Call}
    (h : s.Step c s') : s.bag.Step max c s'.bag ∧ s'.Inv max := by
  cases c with
  | enqueue req position length => exact enqueue_refines hi h
  | dequeue skipped out => exact dequeue_refines hi h
  | remove requestID taken index => exact remove_refines hi h
  | close =>
    obtain rfl := h
    exact ⟨rfl, hi.valid, hi.max_eq, hi.bounded⟩
  | cancel addr =>
    obtain rfl := h
    exact ⟨rfl, hi.valid, hi.max_eq, hi.bounded⟩

/-- A run of a new queue is a run of an empty bag. -/
theorem run_refines {max : Int} {done : Nat → Bool} {calls : List Call} {s : QueueState}
    (h : (queueSystem max).Run ⟨newRequestQueue max, done⟩ calls s) :
    (bagSystem max).Run ⟨0, false, done⟩ calls s.bag ∧ s.Inv max :=
  h.refines (QueueState.Inv max) QueueState.bag (fun _ _ _ hi hs => step_refines hi hs)
    (QueueState.newQueue_inv max done)

/-! ### What enters the queue and what leaves it -/

/-- The requests that a call puts in the queue. -/
def Call.accepted : Call → Multiset PendingRequest
  | .enqueue req position _ => if position = -1 then 0 else {req}
  | _ => 0

/-- The requests that a call pops or removes. -/
def Call.gone : Call → Multiset PendingRequest
  | .dequeue skipped (.item r) => ↑skipped + {r}
  | .dequeue skipped _ => ↑skipped
  | .remove _ taken _ => ↑taken
  | _ => 0

theorem Bag.Step.conserves {max : Int} {b b' : Bag} {c : Call} (h : b.Step max c b') :
    b'.items + c.gone = b.items + c.accepted := by
  cases c with
  | enqueue req position length =>
    rcases h with ⟨-, rfl, -, rfl⟩ | ⟨-, hpos, -, rfl⟩
    · simp [Call.gone, Call.accepted]
    · have hne : position ≠ -1 := by omega
      simp only [Call.gone, Call.accepted, hne, ↓reduceIte, ← Multiset.singleton_add]
      abel
  | dequeue skipped out =>
    obtain ⟨-, -, -, h⟩ := h
    cases out with
    | item r =>
      rw [h.1, ← Multiset.singleton_add]
      simp only [Call.gone, Call.accepted]
      abel
    | stopped | wait =>
      simp [Call.gone, Call.accepted, h.1, h.2.1]
  | remove requestID taken index =>
    rcases h with ⟨-, rfl, -, rfl⟩ | ⟨r, items, -, rfl, -, hitems, rfl⟩
    · simp [Call.gone, Call.accepted]
    · simp only [Call.gone, Call.accepted, hitems, Multiset.coe_singleton,
        ← Multiset.singleton_add]
      abel
  | close | cancel =>
    obtain rfl := h
    simp [Call.gone, Call.accepted]

theorem bag_conserves {max : Int} {b b' : Bag} {calls : List Call}
    (h : (bagSystem max).Run b calls b') :
    b'.items + (calls.map Call.gone).sum = b.items + (calls.map Call.accepted).sum := by
  induction h with
  | nil => simp
  | @cons b mid b' c rest hstep _ ih =>
    have hone := Bag.Step.conserves hstep
    simp only [List.map_cons, List.sum_cons]
    calc
      b'.items + (c.gone + (rest.map Call.gone).sum) =
          b'.items + (rest.map Call.gone).sum + c.gone := by abel
      _ = mid.items + c.gone + (rest.map Call.accepted).sum := by rw [ih]; abel
      _ = b.items + (c.accepted + (rest.map Call.accepted).sum) := by rw [hone]; abel

/-- For every `max` and every sequence of calls, with contexts that end at any point between them:
the calls give the results that a bounded priority multiset gives, the slice is in heap order, it
holds the accepted requests that have not been popped or removed, and it has at most `max`
elements when `max` is positive. -/
theorem requestQueue_refines_bag (max : Int) (done : Nat → Bool) {calls : List Call}
    {s : QueueState} (h : (queueSystem max).Run ⟨newRequestQueue max, done⟩ calls s) :
    (bagSystem max).Run ⟨0, false, done⟩ calls s.bag ∧ BinaryHeap.IsHeap less s.queue.heap ∧
      ↑s.queue.heap + (calls.map Call.gone).sum = (calls.map Call.accepted).sum ∧
      (0 < max → s.queue.heap.length ≤ max) := by
  obtain ⟨hrun, hinv⟩ := run_refines h
  refine ⟨hrun, hinv.valid, ?_, hinv.bounded⟩
  have := bag_conserves hrun
  simpa [QueueState.bag, newRequestQueue] using this

/-- A queue of two: the third request is refused, and the one with the higher priority is skipped
because its context has ended. -/
theorem requestQueue_refines_bag_skip :
    let low : PendingRequest := { addr := 1, priority := 1 }
    let high : PendingRequest := { addr := 2, priority := 10 }
    let calls : List Call := [.enqueue low 0 1, .enqueue high 0 2, .enqueue low (-1) (-1),
      .cancel 2, .dequeue [high] (.item low)]
    ∃ s, (queueSystem 2).Run ⟨newRequestQueue 2, fun _ => false⟩ calls s ∧
      (bagSystem 2).Run ⟨0, false, fun _ => false⟩ calls s.bag := by
  intro low high calls
  let one : RequestQueue := { heap := [low], max := 2, closed := false }
  let two : RequestQueue := { heap := [high, low], max := 2, closed := false }
  let live : Nat → Bool := fun _ => false
  have h1 : QueueState.Step ⟨newRequestQueue 2, live⟩ (.enqueue low 0 1) ⟨one, live⟩ :=
    ⟨by decide, rfl⟩
  have h2 : QueueState.Step ⟨one, live⟩ (.enqueue high 0 2) ⟨two, live⟩ := ⟨by decide, rfl⟩
  have h3 : QueueState.Step ⟨two, live⟩ (.enqueue low (-1) (-1)) ⟨two, live⟩ := ⟨by decide, rfl⟩
  have h4 : QueueState.Step ⟨two, live⟩ (.cancel 2) ⟨two, endContext live 2⟩ := rfl
  have h5 : QueueState.Step ⟨two, endContext live 2⟩ (.dequeue [high] (.item low))
      ⟨newRequestQueue 2, endContext live 2⟩ := ⟨by decide, rfl⟩
  have hrun : (queueSystem 2).Run ⟨newRequestQueue 2, live⟩ calls
      ⟨newRequestQueue 2, endContext live 2⟩ :=
    .cons h1 (.cons h2 (.cons h3 (.cons h4 (.cons h5 .nil))))
  exact ⟨_, hrun, (requestQueue_refines_bag 2 _ hrun).1⟩

end LlmProxy.Queue

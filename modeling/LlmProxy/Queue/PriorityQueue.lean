import LlmProxy.Domain
import LlmProxy.ProofKit.BinaryHeap

/-! Package `queue`: the pending requests, their order, and the operations of `RequestQueue`.  Each
operation is one section under the queue's mutex and returns what the Go function returns, followed
by the queue: `enqueue` the position estimate and the length, `remove` the index that the request
had or -1.  A section of `DequeueBlocking` ends when it returns or when it starts to wait on the
condition variable, and the broadcast of `Close` comes after its section. -/

namespace LlmProxy.Queue

open ProofKit

/-- `PendingRequest`.  Its `addr` is the address of the object, which also names its context and
its result channel: two requests may carry the same `id`, which the client chooses. -/
structure PendingRequest where
  addr : Nat
  id : String := ""
  priority : Int := 0
  timestamp : Int := 0
  apiKeyID : String := ""
  modelAlias : String := ""
  endpointType : EndpointType := .all
  deriving DecidableEq

/-- `priorityHeap.Less`: a higher priority first, and then an earlier timestamp. -/
def less (a b : PendingRequest) : Bool :=
  if a.priority = b.priority then decide (a.timestamp < b.timestamp)
  else decide (b.priority < a.priority)

theorem less_eq_true {a b : PendingRequest} :
    less a b = true ↔
      b.priority < a.priority ∨ a.priority = b.priority ∧ a.timestamp < b.timestamp := by
  rw [less]
  split <;> simp only [decide_eq_true_eq] <;> omega

theorem less_eq_false {a b : PendingRequest} :
    less a b = false ↔
      ¬(b.priority < a.priority ∨ a.priority = b.priority ∧ a.timestamp < b.timestamp) := by
  rw [← less_eq_true, Bool.not_eq_true]

theorem less_strictWeak : BinaryHeap.StrictWeak less where
  asymm a b hab := by
    rw [less_eq_true] at hab
    rw [less_eq_false]
    omega
  trans_not a b c hab hbc := by
    rw [less_eq_false] at *
    omega

structure RequestQueue where
  heap : List PendingRequest
  max : Int
  closed : Bool
  deriving DecidableEq

def newRequestQueue (maxSize : Int) : RequestQueue :=
  { heap := [], max := maxSize, closed := false }

namespace RequestQueue

/-- The queue takes no further request: the test at the start of `Enqueue`. -/
def full (q : RequestQueue) : Bool := decide (0 < q.max) && decide (q.max ≤ q.heap.length)

def close (q : RequestQueue) : RequestQueue := { q with closed := true }

def enqueue (q : RequestQueue) (req : PendingRequest) : Int × Int × RequestQueue :=
  if q.closed || q.full then (-1, -1, q)
  else
    let heap := BinaryHeap.push less q.heap req
    (heap.countP (less · req), heap.length, { q with heap })

/-- How a section of `DequeueBlocking` ends: it returns a request, it returns nil, or it waits. -/
inductive Dequeued
  | item (r : PendingRequest)
  | stopped
  | wait
  deriving DecidableEq

/-- The loop of `DequeueBlocking` while the heap holds requests: the cancelled requests popped on
the way, the first live one, and the heap. -/
def popLive (done : Nat → Bool) :
    Nat → List PendingRequest → List PendingRequest × Option PendingRequest × List PendingRequest
  | 0, heap => ([], none, heap)
  | fuel + 1, heap =>
    match BinaryHeap.pop less heap with
    | none => ([], none, heap)
    | some (item, rest) =>
      if done item.addr then
        let (skipped, found, left) := popLive done fuel rest
        (item :: skipped, found, left)
      else ([], some item, rest)

/-- A section of `DequeueBlocking`, where `done` tells which contexts are done: the cancelled
requests it pops, how it ends, and the queue. -/
def dequeue (q : RequestQueue) (done : Nat → Bool) :
    List PendingRequest × Dequeued × RequestQueue :=
  let (skipped, found, left) := popLive done q.heap.length q.heap
  match found with
  | some r => (skipped, .item r, { q with heap := left })
  | none => (skipped, if q.closed then .stopped else .wait, { q with heap := left })

def remove (q : RequestQueue) (requestID : String) : Int × RequestQueue :=
  match q.heap.findIdx? (·.id = requestID) with
  | none => (-1, q)
  | some i =>
    match BinaryHeap.remove less q.heap i with
    | none => (-1, q)
    | some (_, heap) => (i, { q with heap })

@[simp] theorem enqueue_closed (q : RequestQueue) (req : PendingRequest) :
    (q.enqueue req).2.2.closed = q.closed := by
  rw [enqueue]
  split <;> rfl

@[simp] theorem dequeue_closed (q : RequestQueue) (done : Nat → Bool) :
    (q.dequeue done).2.2.closed = q.closed := by
  rw [dequeue]
  rcases popLive done q.heap.length q.heap with ⟨_, _ | _, _⟩ <;> rfl

/-! ### What each operation does to a queue in heap order -/

def Valid (q : RequestQueue) : Prop := BinaryHeap.IsHeap less q.heap

theorem newRequestQueue_valid (maxSize : Int) : (newRequestQueue maxSize).Valid := by
  intro i _ hi
  simp [newRequestQueue] at hi

theorem enqueue_refused {q : RequestQueue} (h : (q.closed || q.full) = true)
    (req : PendingRequest) :
    q.enqueue req = (-1, -1, q) := by
  simp [enqueue, h]

theorem enqueue_accepted {q : RequestQueue} (h : (q.closed || q.full) = false)
    (req : PendingRequest) :
    ∃ heap, heap.Perm (req :: q.heap) ∧
      q.enqueue req = (heap.countP (less · req), heap.length, { q with heap }) ∧
      (q.Valid → ({ q with heap } : RequestQueue).Valid) := by
  refine ⟨_, BinaryHeap.push_perm less q.heap req, by simp [enqueue, h], fun hv => ?_⟩
  exact BinaryHeap.push_isHeap less_strictWeak hv req

/-- The loop of `DequeueBlocking` splits the heap into the cancelled requests it pops, the live one
it finds, and the rest, which has none before the one found. -/
theorem popLive_spec (done : Nat → Bool) (fuel : Nat) {heap : List PendingRequest}
    (hv : BinaryHeap.IsHeap less heap) (hfuel : heap.length ≤ fuel) :
    let out := popLive done fuel heap
    (∀ r ∈ out.1, done r.addr = true) ∧ BinaryHeap.IsHeap less out.2.2 ∧
      (out.1 ++ out.2.1.toList ++ out.2.2).Perm heap ∧
      (out.2.1 = none → out.2.2 = []) ∧
      ∀ r, out.2.1 = some r → done r.addr = false ∧ ∀ y ∈ out.2.2, less y r = false := by
  induction fuel generalizing heap with
  | zero =>
    obtain rfl : heap = [] := List.length_eq_zero_iff.mp (by omega)
    simp [popLive, hv]
  | succ fuel ih =>
    by_cases hne : heap = []
    · subst hne
      simp [popLive, hv]
    obtain ⟨item, rest, hpop, hrest, hperm, hmin⟩ := BinaryHeap.pop_spec less_strictWeak hv hne
    have hlen : rest.length ≤ fuel := by
      have := hperm.length_eq
      simp only [List.length_cons] at this
      omega
    simp only [popLive, hpop]
    cases hdone : done item.addr with
    | false =>
      simp only [Bool.false_eq_true, ↓reduceIte]
      refine ⟨by simp, hrest, by simpa using hperm, by simp, fun r hr => ?_⟩
      obtain rfl : item = r := by simpa using hr
      exact ⟨hdone, hmin⟩
    | true =>
      obtain ⟨hskip, hheap, hsplit, hnone, hsome⟩ := ih hrest hlen
      simp only [↓reduceIte]
      refine ⟨?_, hheap, ?_, hnone, hsome⟩
      · intro r hr
        rcases List.mem_cons.mp hr with rfl | hr
        · exact hdone
        · exact hskip r hr
      · simp only [List.cons_append]
        exact (hsplit.cons item).trans hperm

theorem dequeue_item {q : RequestQueue} {done : Nat → Bool} (hv : q.Valid)
    {skipped : List PendingRequest} {r : PendingRequest} {q' : RequestQueue}
    (h : q.dequeue done = (skipped, .item r, q')) :
    (∀ x ∈ skipped, done x.addr = true) ∧ done r.addr = false ∧
      (skipped ++ r :: q'.heap).Perm q.heap ∧ (∀ y ∈ q'.heap, less y r = false) ∧
      q'.Valid ∧ q'.max = q.max ∧ q'.closed = q.closed := by
  obtain ⟨hskip, hheap, hsplit, -, hsome⟩ := popLive_spec done q.heap.length hv (Nat.le_refl _)
  rw [dequeue] at h
  generalize popLive done q.heap.length q.heap = out at *
  obtain ⟨skip, found, left⟩ := out
  cases found with
  | none =>
    simp only at h
    split at h <;> simp at h
  | some item =>
    simp only [Prod.mk.injEq, Dequeued.item.injEq] at h
    obtain ⟨rfl, rfl, rfl⟩ := h
    obtain ⟨hlive, hmin⟩ := hsome item rfl
    exact ⟨hskip, hlive, by simpa using hsplit, hmin, hheap, rfl, rfl⟩

/-- A section of `DequeueBlocking` that returns no request has popped the whole heap. -/
theorem dequeue_empty {q : RequestQueue} {done : Nat → Bool} (hv : q.Valid)
    {skipped : List PendingRequest} {out : Dequeued} {q' : RequestQueue}
    (h : q.dequeue done = (skipped, out, q')) (hout : ∀ r, out ≠ .item r) :
    (∀ x ∈ skipped, done x.addr = true) ∧ skipped.Perm q.heap ∧ q' = { q with heap := [] } ∧
      out = if q.closed then .stopped else .wait := by
  obtain ⟨hskip, -, hsplit, hnone, -⟩ := popLive_spec done q.heap.length hv (Nat.le_refl _)
  rw [dequeue] at h
  generalize popLive done q.heap.length q.heap = res at *
  obtain ⟨skip, found, left⟩ := res
  cases found with
  | none =>
    simp only [Prod.mk.injEq] at h
    obtain ⟨rfl, rfl, rfl⟩ := h
    obtain rfl : left = [] := hnone rfl
    exact ⟨hskip, by simpa using hsplit, rfl, rfl⟩
  | some item =>
    simp only [Prod.mk.injEq] at h
    exact absurd h.2.1.symm (hout item)

theorem dequeue_subset {q : RequestQueue} (hv : q.Valid) (done : Nat → Bool) :
    (q.dequeue done).2.2.heap ⊆ q.heap := by
  intro r hr
  obtain ⟨-, -, hsplit, -, -⟩ := popLive_spec done q.heap.length hv (Nat.le_refl _)
  rw [dequeue] at hr
  generalize popLive done q.heap.length q.heap = out at *
  rcases out with ⟨_, _ | _, left⟩ <;> exact hsplit.mem_iff.mp (List.mem_append_right _ hr)

theorem remove_spec {q : RequestQueue} (hv : q.Valid) (requestID : String) :
    ((∀ r ∈ q.heap, r.id ≠ requestID) ∧ q.remove requestID = (-1, q)) ∨
      ∃ (i : Nat) (r : PendingRequest) (heap : List PendingRequest), r.id = requestID ∧
        q.heap[i]? = some r ∧ (r :: heap).Perm q.heap ∧ BinaryHeap.IsHeap less heap ∧
        q.remove requestID = (↑i, { q with heap }) := by
  rw [remove]
  cases hfind : q.heap.findIdx? (fun x => decide (x.id = requestID)) with
  | none =>
    refine .inl ⟨fun r hr => ?_, rfl⟩
    simpa using List.findIdx?_eq_none_iff.mp hfind r hr
  | some i =>
    obtain ⟨hi, hid, -⟩ := List.findIdx?_eq_some_iff_getElem.mp hfind
    obtain ⟨heap, hrem, hheap, hperm⟩ :=
      BinaryHeap.remove_spec less_strictWeak hv (List.getElem?_eq_getElem hi)
    exact .inr ⟨i, _, heap, by simpa using hid, List.getElem?_eq_getElem hi, hperm, hheap,
      by simp only [hrem]⟩

end RequestQueue

end LlmProxy.Queue

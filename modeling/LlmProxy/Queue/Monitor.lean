import LlmProxy.Queue.Refinement
import LlmProxy.ProofKit.Counting

/-! The monitor of `RequestQueue`: workers that call `DequeueBlocking` while requests are enqueued
and the queue is closed.  A step is one section under the mutex, or the broadcast of `Close`, which
comes after the mutex is released.  `sync.Cond` keeps a wait set: `Wait` releases the mutex and
joins it at once, `Signal` takes one waiter out of it, if there is one, and `Broadcast` takes out
all.

Whether a context is done can change while a section runs.  Contexts stay done, so a section that
skips some requests and returns another gives what it gives when all of it runs at its end, and one
step can stand for it. -/

namespace LlmProxy.Queue

open ProofKit

/-- Where a worker is: not in `DequeueBlocking`, in the wait set, taken out of it but not running
again, or back from a call that returned nil. -/
inductive Waiter
  | outside
  | waiting
  | signalled
  | stopped
  deriving DecidableEq

structure Monitor where
  queue : RequestQueue
  done : Nat → Bool
  workers : List Waiter
  /-- The calls of `Close` that have released the mutex and not yet broadcast. -/
  closing : Nat
  closeReturned : Bool

namespace Monitor

inductive Action
  | enqueue (req : PendingRequest) (woken : Option Nat)
  | enter (w : Nat)
  | resume (w : Nat)
  | close
  | broadcast
  | cancel (addr : Nat)

/-- `Signal` may take `woken` out of the wait set. -/
def canSignal (workers : List Waiter) : Option Nat → Bool
  | some w => workers[w]? == some .waiting
  | none => !workers.contains .waiting

def signal (workers : List Waiter) : Option Nat → List Waiter
  | some w => workers.set w .signalled
  | none => workers

/-- A section of `DequeueBlocking` that worker `w` runs. -/
def section_ (s : Monitor) (w : Nat) : Monitor :=
  match s.queue.dequeue s.done with
  | (_, .item _, queue) => { s with queue, workers := s.workers.set w .outside }
  | (_, .stopped, queue) => { s with queue, workers := s.workers.set w .stopped }
  | (_, .wait, queue) => { s with queue, workers := s.workers.set w .waiting }

def next (s : Monitor) : Action → Option Monitor
  | .enqueue req woken =>
    if s.queue.closed || s.queue.full then
      if woken = none then some s else none
    else if canSignal s.workers woken then
      some { s with queue := (s.queue.enqueue req).2.2, workers := signal s.workers woken }
    else none
  | .enter w => if s.workers[w]? = some .outside then some (s.section_ w) else none
  | .resume w => if s.workers[w]? = some .signalled then some (s.section_ w) else none
  | .close => some { s with queue := s.queue.close, closing := s.closing + 1 }
  | .broadcast =>
    if 0 < s.closing then
      some { s with
        workers := s.workers.map fun p => if p = .waiting then .signalled else p
        closing := s.closing - 1
        closeReturned := true }
    else none
  | .cancel addr => some { s with done := endContext s.done addr }

/-- A queue of the given size with workers that have not yet called `DequeueBlocking`. -/
def system (max : Int) (count : Nat) : System Monitor Action :=
  .ofNext (fun s => s.queue = newRequestQueue max ∧ s.workers = List.replicate count .outside ∧
    s.closing = 0 ∧ s.closeReturned = false) next

/-- The workers that have been signalled and do not run yet. -/
def signalled (s : Monitor) : Nat := s.workers.countP (· = .signalled)

structure Inv (s : Monitor) : Prop where
  valid : s.queue.Valid
  /-- While some worker waits, each request in the heap has a signalled worker to its name. -/
  woken : .waiting ∈ s.workers → s.queue.heap.length ≤ s.signalled
  closing : 0 < s.closing → s.queue.closed = true
  closed : s.closeReturned = true → s.queue.closed = true ∧ .waiting ∉ s.workers

theorem heap_nil_valid (q : RequestQueue) : ({ q with heap := [] } : RequestQueue).Valid := by
  intro i _ hi
  simp at hi

/-- What a section does: it takes one request or more out of the heap, or it empties the heap, and
the worker waits only if the queue is open. -/
theorem section_cases {s : Monitor} (hv : s.queue.Valid) (w : Nat) :
    ∃ queue p, s.section_ w = { s with queue, workers := s.workers.set w p } ∧ queue.Valid ∧
      queue.closed = s.queue.closed ∧
      (p = .outside ∧ queue.heap.length < s.queue.heap.length ∨
        queue.heap = [] ∧ (p = .stopped ∨ p = .waiting ∧ s.queue.closed = false)) := by
  rw [section_]
  split
  · rename_i skipped r queue heq
    obtain ⟨-, -, hperm, -, hvalid, -, hclosed⟩ := RequestQueue.dequeue_item hv heq
    have hlen := hperm.length_eq
    simp only [List.length_append, List.length_cons] at hlen
    exact ⟨queue, .outside, rfl, hvalid, hclosed, .inl ⟨rfl, by omega⟩⟩
  · rename_i skipped queue heq
    obtain ⟨-, -, rfl, -⟩ := RequestQueue.dequeue_empty hv heq (by simp)
    exact ⟨_, .stopped, rfl, heap_nil_valid _, rfl, .inr ⟨rfl, .inl rfl⟩⟩
  · rename_i skipped queue heq
    obtain ⟨-, -, rfl, hout⟩ := RequestQueue.dequeue_empty hv heq (by simp)
    refine ⟨_, .waiting, rfl, heap_nil_valid _, rfl, .inr ⟨rfl, .inr ⟨rfl, ?_⟩⟩⟩
    cases hc : s.queue.closed <;> simp_all

/-- A section run by a worker that is outside, or signalled. -/
theorem section_inv {s : Monitor} (hi : s.Inv) {w : Nat} {p : Waiter}
    (hw : s.workers[w]? = some p) (hp : p = .outside ∨ p = .signalled) : (s.section_ w).Inv := by
  obtain ⟨queue, p', heq, hvalid, hclosed, hcases⟩ := section_cases hi.valid w
  rw [heq]
  have hcount := countP_set_add hw p' (· = .signalled)
  refine ⟨hvalid, fun hmem => ?_, fun h => hclosed.trans (hi.closing h), fun h => ?_⟩
  · show queue.heap.length ≤ (s.workers.set w p').countP (· = .signalled)
    rcases hcases with ⟨rfl, hlt⟩ | ⟨hnil, -⟩
    · have hold := hi.woken (mem_of_mem_set_ne hmem (by simp))
      rw [signalled] at hold
      rcases hp with rfl | rfl
      · simp at hcount
        omega
      · simp at hcount
        omega
    · simp [hnil]
  · obtain ⟨hc, hnone⟩ := hi.closed h
    refine ⟨hclosed.trans hc, fun hmem => ?_⟩
    rcases hcases with ⟨rfl, -⟩ | ⟨-, rfl | ⟨rfl, hopen⟩⟩
    · exact hnone (mem_of_mem_set_ne hmem (by simp))
    · exact hnone (mem_of_mem_set_ne hmem (by simp))
    · simp [hc] at hopen

theorem enqueue_inv {s : Monitor} (hi : s.Inv) {req : PendingRequest} {woken : Option Nat}
    (hopen : (s.queue.closed || s.queue.full) = false) (hw : canSignal s.workers woken = true) :
    Inv { s with queue := (s.queue.enqueue req).2.2, workers := signal s.workers woken } := by
  obtain ⟨heap, hperm, heq, hvalid⟩ := RequestQueue.enqueue_accepted hopen req
  have hclosed : s.queue.closed = false := (Bool.or_eq_false_iff.mp hopen).1
  have hlen : heap.length = s.queue.heap.length + 1 := hperm.length_eq
  rw [heq]
  refine ⟨hvalid hi.valid, fun hmem => ?_, hi.closing, fun h => ?_⟩
  · show heap.length ≤ (signal s.workers woken).countP (· = .signalled)
    cases woken with
    | none =>
      simp only [canSignal, Bool.not_eq_true', List.contains_eq_mem, decide_eq_false_iff_not] at hw
      exact absurd hmem hw
    | some w =>
      have hwait : s.workers[w]? = some .waiting := by simpa [canSignal] using hw
      have hcount := countP_set_add hwait .signalled (· = .signalled)
      have hold := hi.woken (List.mem_of_getElem? hwait)
      rw [signalled] at hold
      simp only [signal]
      simp at hcount
      omega
  · have := (hi.closed h).1
    simp [hclosed] at this

theorem broadcast_none (workers : List Waiter) :
    .waiting ∉ workers.map fun p => if p = .waiting then .signalled else p := by
  intro hmem
  obtain ⟨p, -, hp⟩ := List.mem_map.mp hmem
  split at hp <;> simp_all

theorem next_inv {s s' : Monitor} {a : Action} (hi : s.Inv) (h : s.next a = some s') : s'.Inv := by
  cases a with
  | enqueue req woken =>
    simp only [next] at h
    split at h
    · split at h
      · cases h; exact hi
      · cases h
    · rename_i hopen
      split at h
      · rename_i hw
        cases h
        exact enqueue_inv hi (by simpa using hopen) hw
      · cases h
  | enter w =>
    simp only [next] at h
    split at h
    · rename_i hw
      cases h
      exact section_inv hi hw (.inl rfl)
    · cases h
  | resume w =>
    simp only [next] at h
    split at h
    · rename_i hw
      cases h
      exact section_inv hi hw (.inr rfl)
    · cases h
  | close =>
    cases h
    exact ⟨hi.valid, hi.woken, fun _ => rfl, fun h => ⟨rfl, (hi.closed h).2⟩⟩
  | broadcast =>
    simp only [next] at h
    split at h
    · rename_i hclosing
      cases h
      have hnone := broadcast_none s.workers
      exact ⟨hi.valid, fun hmem => absurd hmem hnone, fun _ => hi.closing hclosing,
        fun _ => ⟨hi.closing hclosing, hnone⟩⟩
    · cases h
  | cancel addr =>
    cases h
    exact ⟨hi.valid, hi.woken, hi.closing, hi.closed⟩

theorem init_inv {max : Int} {count : Nat} {s : Monitor} (h : (system max count).init s) :
    s.Inv := by
  obtain ⟨hq, hworkers, hclosing, hreturned⟩ := h
  refine ⟨hq ▸ RequestQueue.newRequestQueue_valid max, fun hmem => ?_, fun h => ?_, fun h => ?_⟩
  · rw [hworkers, List.mem_replicate] at hmem
    simp at hmem
  · omega
  · simp [hreturned] at h

theorem reachable_inv {max : Int} {count : Nat} {s : Monitor}
    (h : (system max count).Reachable System.always s) : s.Inv :=
  h.invariant Inv (fun _ h => init_inv h) fun _ _ _ _ hi _ hs => next_inv hi hs

/-- No wake-up is lost.  In every reachable state in which some worker waits, the heap holds at most
as many requests as there are workers that have been signalled and do not run yet.  So when every
worker waits the heap is empty.  Once `Close` has returned, no worker waits. -/
theorem no_lost_wakeup {max : Int} {count : Nat} {s : Monitor}
    (h : (system max count).Reachable System.always s) :
    (.waiting ∈ s.workers → s.queue.heap.length ≤ s.signalled) ∧
      (s.workers ≠ [] → (∀ p ∈ s.workers, p = .waiting) → s.queue.heap = []) ∧
      (s.closeReturned = true → .waiting ∉ s.workers) := by
  have hi := reachable_inv h
  refine ⟨hi.woken, fun hne hall => ?_, fun hc => (hi.closed hc).2⟩
  obtain ⟨p, hp⟩ := List.exists_mem_of_ne_nil _ hne
  have hwait := hi.woken (hall p hp ▸ hp)
  have hzero : s.signalled = 0 := by
    rw [signalled, List.countP_eq_zero]
    intro q hq
    simp [hall q hq]
  exact List.length_eq_zero_iff.mp (by omega)

/-- Both workers wait, and a request arrives: one worker is signalled for it. -/
theorem no_lost_wakeup_two_workers : ∃ s, ((system 10 2).Reachable System.always s ∧
    .waiting ∈ s.workers ∧ s.queue.heap.length = 1) ∧ s.queue.heap.length ≤ s.signalled := by
  have hstart : (system 10 2).Reachable System.always
      ⟨newRequestQueue 10, fun _ => false, [.outside, .outside], 0, false⟩ :=
    .init ⟨rfl, rfl, rfl, rfl⟩
  obtain ⟨s, hs, hp⟩ := System.Reachable.exists_of_exec
    (fun s => .waiting ∈ s.workers ∧ s.queue.heap.length = 1) hstart
    (System.admits_always _ [.enter 0, .enter 1, .enqueue { addr := 1 } (some 0)]) (by decide)
  exact ⟨s, ⟨hs, hp⟩, (no_lost_wakeup hs).1 hp.1⟩

end Monitor

end LlmProxy.Queue

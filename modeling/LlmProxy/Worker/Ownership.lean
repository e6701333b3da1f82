import LlmProxy.Worker.Pool

/-! Who has a request.  A step of the pool moves requests between the heap, the workers, the
goroutines that put requests back, and the finished ones.  `Pool.next_flow` says what each step can
add and what it can lose; that no request is ever in two places and that none is lost follow from
it. -/

namespace LlmProxy.Worker

open Queue ProofKit

def addrOf (p : WorkerPhase) : Option Nat := p.request.map (·.addr)

def startedAddr (p : WorkerPhase) : Option Nat := p.started.map (·.addr)

namespace Pool

def inHeap (s : Pool) : Multiset Nat := ↑(s.queue.heap.map (·.addr))

def atWorkers (s : Pool) : Multiset Nat := holdings addrOf s.workers

def atGoroutines (s : Pool) : Multiset Nat := ↑(s.delayed.map (·.addr))

def finished (s : Pool) : Multiset Nat := ↑s.sent + ↑s.dropped

/-- All requests that are somewhere, each as often as it is there. -/
def located (s : Pool) : Multiset Nat := s.inHeap + s.atWorkers + s.atGoroutines + s.finished

/-- The goroutine that takes the step finds its request live and the queue closed or full. -/
def Refuses (s : Pool) (act : Action) (addr : Nat) : Prop :=
  ∃ i r, act = .reenqueue i ∧ s.delayed[i]? = some r ∧ r.addr = addr ∧
    s.done r.addr = false ∧ (s.queue.closed || s.queue.full) = true

/-- What a step does to the requests: `gained` are accepted from a handler, `lost` are nowhere
afterwards. -/
structure Flow (s : Pool) (act : Action) (s' : Pool) (gained lost : Multiset Nat) : Prop where
  balance : s'.located + lost = s.located + gained
  accepted : (s'.accepted : Multiset Nat) = s.accepted + gained
  fresh : ∀ a ∈ gained, a ∉ s.created ∧ a ∈ s'.created
  nodup : gained.Nodup
  lost_cases : ∀ a ∈ lost, s.done a = true ∨ s.Refuses act a

/-- A step that accepts and loses nothing. -/
theorem Flow.move {s s' : Pool} {act : Action} (hloc : s'.located = s.located)
    (hacc : s'.accepted = s.accepted) : Flow s act s' 0 0 where
  balance := by simp [hloc]
  accepted := by simp [hacc]
  fresh := by simp
  nodup := by simp
  lost_cases := by simp

theorem enqueue_addrs {q : RequestQueue} (r : PendingRequest)
    (h : (q.closed || q.full) = false) :
    (((q.enqueue r).2.2.heap.map (·.addr) : List Nat) : Multiset Nat) =
        ↑(q.heap.map (·.addr)) + {r.addr} ∧ (q.enqueue r).1 ≠ -1 := by
  obtain ⟨heap, hperm, heq, -⟩ := RequestQueue.enqueue_accepted h r
  rw [heq]
  refine ⟨?_, by simp only; omega⟩
  have : ((heap.map (·.addr) : List Nat) : Multiset Nat) = ↑((r :: q.heap).map (·.addr)) :=
    Multiset.coe_eq_coe.mpr (hperm.map _)
  rw [this, List.map_cons, ← Multiset.cons_coe, ← Multiset.singleton_add, add_comm]

/-- A section of `DequeueBlocking` splits the heap into the requests it skips, the one it returns,
and the rest. -/
theorem dequeue_addrs {q q' : RequestQueue} {done : Nat → Bool} (hv : q.Valid)
    {skipped : List PendingRequest} {out : RequestQueue.Dequeued}
    (h : q.dequeue done = (skipped, out, q')) :
    (∀ x ∈ skipped, done x.addr = true) ∧ q'.Valid ∧ q'.closed = q.closed ∧
      (q.heap.map (·.addr) : Multiset Nat) =
        ↑(skipped.map (·.addr)) + ↑(addrOf (afterDequeue out)).toList +
          ↑(q'.heap.map (·.addr)) := by
  by_cases hitem : ∃ r, out = .item r
  · obtain ⟨r, rfl⟩ := hitem
    obtain ⟨hskip, -, hperm, -, hvalid, -, hclosed⟩ := RequestQueue.dequeue_item hv h
    refine ⟨hskip, hvalid, hclosed, ?_⟩
    rw [← Multiset.coe_eq_coe.mpr (hperm.map _)]
    simp only [List.map_append, List.map_cons, ← Multiset.coe_add, ← Multiset.cons_coe,
      ← Multiset.singleton_add, add_assoc]
    rfl
  · have hnone : ∀ r, out ≠ .item r := fun r hr => hitem ⟨r, hr⟩
    obtain ⟨hskip, hperm, rfl, hout⟩ := RequestQueue.dequeue_empty hv h hnone
    refine ⟨hskip, ?_, rfl, ?_⟩
    · intro i _ hi
      simp at hi
    · rw [← Multiset.coe_eq_coe.mpr (hperm.map _), hout]
      split <;> simp [addrOf, afterDequeue, WorkerPhase.request]

/-- What changes in `located` when one worker changes its phase. -/
theorem atWorkers_set {s : Pool} {w : Nat} {old : WorkerPhase} (hw : s.workers[w]? = some old)
    (p : WorkerPhase) :
    holdings addrOf (s.workers.set w p) + ↑(addrOf old).toList =
      s.atWorkers + ↑(addrOf p).toList :=
  holdings_set_add addrOf hw p

/-- A worker that had nothing has nothing after it. -/
theorem atWorkers_set_idle {s : Pool} {w : Nat} {old p : WorkerPhase}
    (hw : s.workers[w]? = some old) (h : addrOf old = addrOf p) :
    holdings addrOf (s.workers.set w p) = s.atWorkers := by
  have := atWorkers_set hw p
  rw [h] at this
  exact add_right_cancel this

theorem enqueue_flow {s : Pool} {r : PendingRequest} (hfresh : r.addr ∉ s.created) :
    ∃ gained lost, Flow s (.enqueue r) { s with
      queue := (s.queue.enqueue r).2.2
      created := r.addr :: s.created
      accepted := if (s.queue.enqueue r).1 = -1 then s.accepted else r.addr :: s.accepted }
      gained lost := by
  cases hfull : s.queue.closed || s.queue.full with
  | true =>
    refine ⟨0, 0, .move ?_ ?_⟩ <;> rw [RequestQueue.enqueue_refused hfull r] <;> rfl
  | false =>
    obtain ⟨hheap, hpos⟩ := enqueue_addrs r hfull
    refine ⟨{r.addr}, 0, ?_, ?_, ?_, Multiset.nodup_singleton _, by simp⟩
    · simp only [located, inHeap, hheap, add_zero]
      simp only [atWorkers, atGoroutines, finished]
      abel
    · simp only [hpos, ↓reduceIte, ← Multiset.cons_coe, ← Multiset.singleton_add, add_comm]
    · intro a ha
      obtain rfl := Multiset.mem_singleton.mp ha
      exact ⟨hfresh, List.mem_cons_self⟩

theorem dequeue_flow {s : Pool} {w : Nat} (hv : s.queue.Valid)
    (hw : s.workers[w]? = some .dequeuing) :
    ∃ gained lost, Flow s (.dequeue w)
      { s.setWorker w (afterDequeue (s.queue.dequeue s.done).2.1) with
        queue := (s.queue.dequeue s.done).2.2 } gained lost := by
  rcases hd : s.queue.dequeue s.done with ⟨skipped, out, queue⟩
  obtain ⟨hskip, -, -, hsplit⟩ := dequeue_addrs hv hd
  have hset : holdings addrOf (s.workers.set w (afterDequeue out)) + 0 =
      s.atWorkers + ↑(addrOf (afterDequeue out)).toList := atWorkers_set hw _
  rw [add_zero] at hset
  refine ⟨0, ↑(skipped.map (·.addr)), ?_, by simp [setWorker], by simp, by simp, ?_⟩
  · simp only [located, inHeap, atWorkers, atGoroutines, finished, setWorker, hsplit, add_zero,
      hset]
    abel
  · intro a ha
    obtain ⟨x, hx, rfl⟩ := List.mem_map.mp (Multiset.mem_coe.mp ha)
    exact .inl (hskip x hx)

/-- The goroutine that puts a request back loses it when its context is done, and when the queue
refuses it. -/
theorem reenqueue_flow {s : Pool} {i : Nat} {r : PendingRequest} (hr : s.delayed[i]? = some r) :
    ∃ gained lost, Flow s (.reenqueue i) { s with
      delayed := s.delayed.eraseIdx i
      queue := if s.done r.addr then s.queue else (s.queue.enqueue r).2.2 } gained lost := by
  obtain ⟨hlt, hget⟩ := List.getElem?_eq_some_iff.mp hr
  have hperm : (s.atGoroutines) = ↑((s.delayed.eraseIdx i).map (·.addr)) + {r.addr} := by
    have := (List.getElem_cons_eraseIdx_perm hlt).map (·.addr)
    rw [hget] at this
    rw [atGoroutines, ← Multiset.coe_eq_coe.mpr this, List.map_cons, ← Multiset.cons_coe,
      ← Multiset.singleton_add, add_comm]
  have hloss (queue : RequestQueue) (hq : queue = s.queue) :
      ({ s with delayed := s.delayed.eraseIdx i, queue } : Pool).located + {r.addr} =
        s.located + 0 := by
    rw [located, located, hperm, hq]
    simp only [inHeap, atWorkers, atGoroutines, finished]
    abel
  cases hdone : s.done r.addr with
  | true =>
    refine ⟨0, {r.addr}, hloss _ rfl, by simp, by simp, by simp, fun a ha => ?_⟩
    obtain rfl := Multiset.mem_singleton.mp ha
    exact .inl hdone
  | false =>
    cases hfull : s.queue.closed || s.queue.full with
    | true =>
      refine ⟨0, {r.addr}, hloss _ ?_, by simp, by simp, by simp, fun a ha => ?_⟩
      · rw [RequestQueue.enqueue_refused hfull r]
        rfl
      · obtain rfl := Multiset.mem_singleton.mp ha
        exact .inr ⟨i, r, rfl, hr, rfl, hdone, hfull⟩
    | false =>
      refine ⟨0, 0, .move ?_ rfl⟩
      rw [located, located, hperm]
      simp only [inHeap, (enqueue_addrs r hfull).1, atWorkers, atGoroutines, finished,
        Bool.false_eq_true, ↓reduceIte]
      abel

/-- A worker that finishes a request moves it from its hands to the finished ones. -/
theorem finish_located {s : Pool} {w : Nat} {r : PendingRequest}
    (hw : s.workers[w]? = some (.sending r)) :
    holdings addrOf (s.workers.set w .polling) + {r.addr} = s.atWorkers := by
  have hset : _ + {r.addr} = s.atWorkers + 0 := atWorkers_set hw .polling
  rwa [add_zero] at hset

/-- What a step can add to the requests that are somewhere, and what it can lose. -/
theorem next_flow {s s' : Pool} {act : Action} (hv : s.queue.Valid) (h : s.next act = some s') :
    ∃ gained lost, Flow s act s' gained lost := by
  cases next_step h with
  | enqueue hfresh => exact enqueue_flow hfresh
  | dequeue hw => exact dequeue_flow hv hw
  | reenqueue hr => exact reenqueue_flow hr
  | poll hw =>
    refine ⟨0, 0, .move ?_ rfl⟩
    have hidle := atWorkers_set_idle hw
      (p := if s.stop = .running then .dequeuing else .exited) (by split <;> rfl)
    simp only [located, atWorkers, setWorker, hidle]
    rfl
  | allowed hw =>
    refine ⟨0, 0, .move ?_ rfl⟩
    have hidle := atWorkers_set_idle hw (p := .forwarding _) rfl
    simp only [located, atWorkers, setWorker, hidle]
    rfl
  | @blocked w r hw =>
    refine ⟨0, 0, .move ?_ rfl⟩
    have hset : holdings addrOf (s.workers.set w .polling) + {r.addr} = s.atWorkers + 0 :=
      atWorkers_set hw .polling
    rw [add_zero] at hset
    simp only [located, ← hset, atGoroutines, List.map_cons, ← Multiset.cons_coe,
      ← Multiset.singleton_add]
    simp only [inHeap, atWorkers, finished, setWorker]
    abel
  | finish hw =>
    refine ⟨0, 0, .move ?_ rfl⟩
    have hidle := atWorkers_set_idle hw (p := .sending _) rfl
    simp only [located, atWorkers, setWorker, hidle]
    rfl
  | send hw | drop hw =>
    refine ⟨0, 0, .move ?_ rfl⟩
    simp only [located, ← finish_located hw, finished, ← Multiset.cons_coe,
      ← Multiset.singleton_add]
    simp only [inHeap, atWorkers, atGoroutines, setWorker]
    abel
  | cancel | receive | monitor | closeStopCh | closeQueue | stopReturns =>
    exact ⟨0, 0, .move rfl rfl⟩

theorem next_valid {s s' : Pool} {act : Action} (hv : s.queue.Valid) (h : s.next act = some s') :
    s'.queue.Valid := by
  have henq (r : PendingRequest) : (s.queue.enqueue r).2.2.Valid := by
    cases hfull : s.queue.closed || s.queue.full with
    | true => rwa [RequestQueue.enqueue_refused hfull r]
    | false =>
      obtain ⟨heap, -, heq, hvalid⟩ := RequestQueue.enqueue_accepted hfull r
      rw [heq]
      exact hvalid hv
  cases next_step h with
  | enqueue => exact henq _
  | dequeue => exact (dequeue_addrs hv rfl).2.1
  | reenqueue =>
    show RequestQueue.Valid (if _ then _ else _)
    split
    · exact hv
    · exact henq _
  | _ => exact hv

/-- The histories only grow, and a context stays done. -/
structure Grows (s s' : Pool) : Prop where
  done : ∀ a, s.done a = true → s'.done a = true
  created : s.created ⊆ s'.created
  accepted : s.accepted ⊆ s'.accepted

theorem next_grows {s s' : Pool} {act : Action} (h : s.next act = some s') : Grows s s' := by
  cases next_step h with
  | cancel addr =>
    refine ⟨fun a ha => ?_, List.Subset.refl _, List.Subset.refl _⟩
    show endContext s.done addr a = true
    rw [endContext]
    split <;> trivial
  | enqueue =>
    refine ⟨fun _ ha => ha, List.subset_cons_self _ _, ?_⟩
    show s.accepted ⊆ if _ then _ else _
    split
    · exact List.Subset.refl _
    · exact List.subset_cons_self _ _
  | _ => exact ⟨fun _ ha => ha, List.Subset.refl _, List.Subset.refl _⟩

/-- What holds in every state of the pool. -/
structure Owned (s : Pool) : Prop where
  valid : s.queue.Valid
  located_le : s.located ≤ s.accepted
  accepted_nodup : s.accepted.Nodup
  accepted_created : s.accepted ⊆ s.created
  forwarded_eq : (s.forwarded : Multiset Nat) = holdings startedAddr s.workers + s.finished
  buffered_sent : s.buffered ⊆ s.sent
  dropped_done : ∀ a ∈ s.dropped, s.done a = true

theorem start_owned (max : Int) (count : Nat) (done : Nat → Bool) :
    Owned (start max count done) where
  valid := RequestQueue.newRequestQueue_valid max
  located_le := by
    have hidle : (start max count done).atWorkers = 0 := holdings_replicate addrOf rfl count
    rw [located, hidle]
    exact le_refl 0
  accepted_nodup := by simp [start]
  accepted_created := by simp [start]
  forwarded_eq := by
    have hidle : holdings startedAddr (start max count done).workers = 0 :=
      holdings_replicate startedAddr rfl count
    rw [hidle]
    rfl
  buffered_sent := by simp [start]
  dropped_done := by simp [start]

/-- The requests that were forwarded are those in the hands of a worker past the limiter, and the
finished ones. -/
theorem next_forwarded {s s' : Pool} {act : Action} (h : s.next act = some s')
    (hi : (s.forwarded : Multiset Nat) = holdings startedAddr s.workers + s.finished) :
    (s'.forwarded : Multiset Nat) = holdings startedAddr s'.workers + s'.finished := by
  have hkeep {w : Nat} {old p : WorkerPhase} (hw : s.workers[w]? = some old)
      (hp : startedAddr old = startedAddr p) :
      holdings startedAddr (s.workers.set w p) = holdings startedAddr s.workers := by
    have := holdings_set_add startedAddr hw p
    rw [hp] at this
    exact add_right_cancel this
  cases next_step h with
  | @allowed w r hw =>
    have hset : holdings startedAddr (s.workers.set w (.forwarding r)) + 0 =
        holdings startedAddr s.workers + {r.addr} := holdings_set_add startedAddr hw _
    rw [add_zero] at hset
    simp only [setWorker, hset, ← Multiset.cons_coe, ← Multiset.singleton_add, hi, finished]
    abel
  | @send w r hw | @drop w r hw =>
    have hset : holdings startedAddr (s.workers.set w .polling) + {r.addr} =
        holdings startedAddr s.workers + 0 := holdings_set_add startedAddr hw _
    rw [add_zero] at hset
    simp only [setWorker, finished, ← Multiset.cons_coe, ← Multiset.singleton_add, hi, ← hset]
    abel
  | dequeue hw =>
    have := hkeep hw (p := afterDequeue (s.queue.dequeue s.done).2.1)
      (by cases (s.queue.dequeue s.done).2.1 <;> rfl)
    simp only [setWorker, this]
    exact hi
  | poll hw =>
    have := hkeep hw (p := if s.stop = .running then .dequeuing else .exited) (by split <;> rfl)
    simp only [setWorker, this]
    exact hi
  | blocked hw =>
    simp only [setWorker, hkeep hw (p := .polling) rfl]
    exact hi
  | finish hw =>
    simp only [setWorker, hkeep hw (p := .sending _) rfl]
    exact hi
  | enqueue | cancel | receive | reenqueue | monitor | closeStopCh | closeQueue | stopReturns =>
    exact hi

theorem next_buffered {s s' : Pool} {act : Action} (h : s.next act = some s')
    (hi : s.buffered ⊆ s.sent) : s'.buffered ⊆ s'.sent := by
  cases next_step h with
  | send => exact List.cons_subset_cons _ hi
  | receive => exact fun a ha => hi (List.mem_of_mem_erase ha)
  | _ => exact hi

theorem next_dropped {s s' : Pool} {act : Action} (h : s.next act = some s')
    (hi : ∀ a ∈ s.dropped, s.done a = true) : ∀ a ∈ s'.dropped, s'.done a = true := by
  have hold : ∀ a ∈ s.dropped, s'.done a = true := fun a ha => (next_grows h).done a (hi a ha)
  cases next_step h with
  | drop hw hdone => exact List.forall_mem_cons.mpr ⟨hdone, hold⟩
  | _ => exact hold

theorem next_owned {s s' : Pool} {act : Action} (hi : Owned s) (h : s.next act = some s') :
    Owned s' := by
  obtain ⟨gained, lost, hflow⟩ := next_flow hi.valid h
  have hgrow := next_grows h
  refine ⟨next_valid hi.valid h, ?_, ?_, ?_, next_forwarded h hi.forwarded_eq,
    next_buffered h hi.buffered_sent, next_dropped h hi.dropped_done⟩
  · calc s'.located
      _ ≤ s'.located + lost := Multiset.le_add_right _ _
      _ = s.located + gained := hflow.balance
      _ ≤ s.accepted + gained := by gcongr; exact hi.located_le
      _ = s'.accepted := hflow.accepted.symm
  · rw [← Multiset.coe_nodup, hflow.accepted, Multiset.nodup_add]
    refine ⟨Multiset.coe_nodup.mpr hi.accepted_nodup, hflow.nodup, ?_⟩
    apply Multiset.disjoint_left.mpr
    intro a hold hnew
    exact (hflow.fresh a hnew).1 (hi.accepted_created (Multiset.mem_coe.mp hold))
  · intro a ha
    rw [← Multiset.mem_coe, hflow.accepted, Multiset.mem_add] at ha
    rcases ha with hold | hnew
    · exact hgrow.created (hi.accepted_created (Multiset.mem_coe.mp hold))
    · exact (hflow.fresh a hnew).2

theorem reachable_owned {max : Int} {count : Nat} {ok : Pool → Action → Prop} {s : Pool}
    (h : (system max count).Reachable ok s) : Owned s := by
  apply h.invariant Owned
  · rintro _ ⟨done, rfl⟩
    exact start_owned max count done
  · intro s act s' _ hi _ hs
    exact next_owned hi hs

theorem Owned.count_le_one {s : Pool} (hi : Owned s) (a : Nat) : s.located.count a ≤ 1 :=
  calc s.located.count a
    _ ≤ (s.accepted : Multiset Nat).count a := Multiset.count_le_of_le a hi.located_le
    _ ≤ 1 := Multiset.nodup_iff_count_le_one.mp (Multiset.coe_nodup.mpr hi.accepted_nodup) a

/-- A worker that still has its request has not sent the result of that request. -/
theorem Owned.not_sent {s : Pool} (hi : Owned s) {w : Nat} {r : PendingRequest}
    (hw : s.workers[w]? = some (.sending r)) : r.addr ∉ s.sent := by
  intro hsent
  have hheld : r.addr ∈ s.atWorkers := by
    rw [← finish_located hw]
    simp
  have hone := hi.count_le_one r.addr
  have h1 := Multiset.one_le_count_iff_mem.mpr hheld
  have h2 := List.one_le_count_iff.mpr hsent
  simp only [located, finished, Multiset.count_add, Multiset.coe_count] at hone
  omega

/-! ### At most once -/

/-- A request is in at most one place, is forwarded at most once and has at most one result, and a
worker that comes to send the result finds the slot of the channel free. -/
theorem forwarded_at_most_once (max : Int) (count : Nat) {s : Pool}
    (h : (system max count).Reachable System.always s) (a : Nat) :
    s.inHeap.count a + s.atWorkers.count a + s.atGoroutines.count a + s.finished.count a ≤ 1 ∧
      s.forwarded.count a ≤ 1 ∧ s.sent.count a ≤ 1 ∧
      ∀ w r, s.workers[w]? = some (.sending r) → (s.next (.send w)).isSome := by
  have hi := reachable_owned h
  have hone := hi.count_le_one a
  simp only [located, Multiset.count_add] at hone
  have hstarted : (holdings startedAddr s.workers).count a ≤ s.atWorkers.count a := by
    apply Multiset.count_le_of_le
    apply holdings_mono
    intro p x hx
    cases p <;> first | exact hx | cases hx
  have hforwarded : s.forwarded.count a =
      (holdings startedAddr s.workers).count a + s.finished.count a := by
    rw [← Multiset.coe_count, hi.forwarded_eq, Multiset.count_add]
  have hsent : s.sent.count a ≤ s.finished.count a := by
    rw [finished, Multiset.count_add, Multiset.coe_count]
    exact Nat.le_add_right _ _
  refine ⟨hone, by omega, by omega, fun w r hw => ?_⟩
  have hfree : r.addr ∉ s.buffered := fun hb => hi.not_sent hw (hi.buffered_sent hb)
  simp [next, hw, hfree]

/-- A request that the limiter blocks once and that is then forwarded, with its result sent. -/
theorem forwarded_at_most_once_blocked :
    ∃ s, (system 4 2).Reachable System.always s ∧ s.sent.count 7 = 1 ∧ s.forwarded.count 7 ≤ 1 := by
  let r : PendingRequest := { addr := 7 }
  have hinit : (system 4 2).Reachable System.always (start 4 2 fun _ => false) := .init ⟨_, rfl⟩
  obtain ⟨s, hs, hsent⟩ := System.Reachable.exists_of_exec (fun s : Pool => s.sent.count 7 = 1)
    hinit (System.admits_always _ [.enqueue r, .poll 0, .dequeue 0, .limit 0 false, .reenqueue 0,
      .poll 1, .dequeue 1, .limit 1 true, .finish 1, .send 1]) (by decide)
  exact ⟨s, hs, hsent, (forwarded_at_most_once 4 2 hs 7).2.1⟩

/-! ### No request is lost -/

/-- Every accepted request whose context is not done is somewhere. -/
def Retained (s : Pool) : Prop :=
  ∀ a, s.done a = false → s.located.count a = s.accepted.count a

/-- A step keeps the live requests unless the queue refuses one that comes back. -/
theorem next_retained {s s' : Pool} {act : Action} (hv : s.queue.Valid) (hi : Retained s)
    (hkeep : ∀ a, ¬s.Refuses act a) (h : s.next act = some s') : Retained s' := by
  obtain ⟨gained, lost, hflow⟩ := next_flow hv h
  intro a hlive
  have hbefore : s.done a = false := by
    by_contra hdone
    have := (next_grows h).done a (by simpa using hdone)
    simp [this] at hlive
  have hlost : lost.count a = 0 := by
    apply Multiset.count_eq_zero.mpr
    intro hmem
    rcases hflow.lost_cases a hmem with hdone | hrefused
    · simp [hdone] at hbefore
    · exact hkeep a hrefused
  have hbalance := congrArg (Multiset.count a) hflow.balance
  have haccepted := congrArg (Multiset.count a) hflow.accepted
  have hsame := hi a hbefore
  simp only [Multiset.count_add, Multiset.coe_count] at hbalance haccepted
  omega

theorem start_retained (max : Int) (count : Nat) (done : Nat → Bool) :
    Retained (start max count done) := by
  intro a _
  have hnone : (start max count done).located ≤ 0 := (start_owned max count done).located_le
  rw [Multiset.le_zero.mp hnone]
  rfl

/-- `Stop` is not called. -/
def NeverStops (_ : Pool) : Action → Prop
  | .closeStopCh => False
  | _ => True

/-- `Stop` is not called, and a goroutine that puts a live request back finds room for it. -/
def RoomOnReturn (s : Pool) : Action → Prop
  | .closeStopCh => False
  | .reenqueue i => ∀ r ∈ s.delayed[i]?, s.done r.addr = false → s.queue.full = false
  | _ => True

instance (s : Pool) : (act : Action) → Decidable (NeverStops s act)
  | .closeStopCh => instDecidableFalse
  | .enqueue _ | .cancel _ | .poll _ | .dequeue _ | .limit _ _ | .finish _ | .send _ | .drop _
  | .receive _ | .reenqueue _ | .monitor _ | .closeQueue | .stopReturns => instDecidableTrue

instance (s : Pool) : (act : Action) → Decidable (RoomOnReturn s act)
  | .closeStopCh => instDecidableFalse
  | .reenqueue i => inferInstanceAs
    (Decidable (∀ r ∈ s.delayed[i]?, s.done r.addr = false → s.queue.full = false))
  | .enqueue _ | .cancel _ | .poll _ | .dequeue _ | .limit _ _ | .finish _ | .send _ | .drop _
  | .receive _ | .monitor _ | .closeQueue | .stopReturns => instDecidableTrue

theorem next_running {s s' : Pool} {act : Action} (hact : NeverStops s act)
    (hstop : s.stop = .running) (h : s.next act = some s') :
    s'.stop = .running ∧ s'.queue.closed = s.queue.closed := by
  cases next_step h with
  | closeStopCh => exact hact.elim
  | closeQueue hsignalled => simp [hsignalled] at hstop
  | stopReturns hclosed => simp [hclosed] at hstop
  | reenqueue =>
    refine ⟨hstop, ?_⟩
    show (if _ then _ else _ : RequestQueue).closed = _
    split <;> simp
  | _ => simp [setWorker, hstop]

/-- A pool that is never stopped keeps its live requests in every run in which each request that
comes back finds room: each is in the heap, at a worker, at a goroutine that puts it back, or has
its result sent. -/
theorem accepted_in_one_place (max : Int) (count : Nat) {s : Pool}
    (h : (system max count).Reachable RoomOnReturn s) {a : Nat} (ha : a ∈ s.accepted)
    (hlive : s.done a = false) :
    s.inHeap.count a + s.atWorkers.count a + s.atGoroutines.count a + s.sent.count a = 1 := by
  have hkept : Retained s ∧ s.stop = .running ∧ s.queue.closed = false := by
    apply h.invariant (fun s => Retained s ∧ s.stop = .running ∧ s.queue.closed = false)
    · rintro _ ⟨done, rfl⟩
      exact ⟨start_retained max count done, rfl, rfl⟩
    · rintro s act s' hreach ⟨hret, hrun⟩ hok hs
      have hnever : NeverStops s act := by
        cases act <;> trivial
      obtain ⟨hrun', hclosed⟩ := next_running hnever hrun.1 hs
      refine ⟨next_retained (reachable_owned hreach).valid hret ?_ hs, hrun', hclosed.trans hrun.2⟩
      rintro a ⟨i, r, rfl, hi, -, hdone, hfull⟩
      simp [hrun.2, hok r hi hdone] at hfull
  have hi := reachable_owned h
  have hdropped : s.dropped.count a = 0 := by
    apply List.count_eq_zero.mpr
    intro hmem
    simp [hi.dropped_done a hmem] at hlive
  have hcount := hkept.1 a hlive
  rw [List.count_eq_one_of_mem hi.accepted_nodup ha] at hcount
  simp only [located, finished, Multiset.count_add, Multiset.coe_count, hdropped] at hcount
  omega

/-- A blocked request that comes back to a queue with room. -/
theorem accepted_in_one_place_returned :
    ∃ s, (system 1 1).Reachable RoomOnReturn s ∧ s.forwarded = [] ∧ s.inHeap.count 1 +
      s.atWorkers.count 1 + s.atGoroutines.count 1 + s.sent.count 1 = 1 := by
  have hinit : (system 1 1).Reachable RoomOnReturn (start 1 1 fun _ => false) := .init ⟨_, rfl⟩
  have hroom : System.Admits next RoomOnReturn (start 1 1 fun _ => false)
      [.enqueue { addr := 1 }, .poll 0, .dequeue 0, .limit 0 false, .reenqueue 0] := by decide
  obtain ⟨s, hs, hp⟩ := System.Reachable.exists_of_exec
    (fun s : Pool => s.forwarded = [] ∧ 1 ∈ s.accepted ∧ s.done 1 = false) hinit hroom (by decide)
  exact ⟨s, hs, hp.1, accepted_in_one_place 1 1 hs hp.2.1 hp.2.2⟩

/-- With room for one request, a blocked request that comes back after another handler has filled
the queue is nowhere, although its context is live. -/
theorem accepted_request_lost :
    ∃ s, (system 1 1).Reachable NeverStops s ∧ 1 ∈ s.accepted ∧ s.done 1 = false ∧
      s.located.count 1 = 0 := by
  have hinit : (system 1 1).Reachable NeverStops (start 1 1 fun _ => false) := .init ⟨_, rfl⟩
  have hnever : System.Admits next NeverStops (start 1 1 fun _ => false)
      [.enqueue { addr := 1 }, .poll 0, .dequeue 0, .limit 0 false, .enqueue { addr := 2 },
        .reenqueue 0] := by decide
  exact System.Reachable.exists_of_exec
    (fun s : Pool => 1 ∈ s.accepted ∧ s.done 1 = false ∧ s.located.count 1 = 0) hinit hnever
    (by decide)

end Pool

end LlmProxy.Worker

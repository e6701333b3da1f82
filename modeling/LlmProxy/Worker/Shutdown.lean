import LlmProxy.Worker.Ownership

/-! What `Stop` leaves behind.  A worker ends in two ways: `DequeueBlocking` returns nil, which it
does when the queue is closed and empty, or the test of `stopCh` before it sees that `Stop` has
begun, whatever the queue still holds. -/

namespace LlmProxy.Worker

open Queue ProofKit

namespace Pool

/-- No live request that was accepted before `Stop` is in the heap. -/
def Drained (s : Pool) : Prop :=
  ∀ r ∈ s.queue.heap, s.done r.addr = false → r.addr ∉ s.acceptedBeforeStop

/-- The limiter allows every request. -/
def AlwaysAllowed (_ : Pool) : Action → Prop
  | .limit _ allowed => allowed = true
  | _ => True

/-- The limiter allows every request, no worker takes its exit at `stopCh` while a live request
accepted before `Stop` is in the heap, and a pool without workers has none there when `Stop`
begins. -/
def DrainsFirst (s : Pool) : Action → Prop
  | .limit _ allowed => allowed = true
  | .poll _ => s.stop ≠ .running → s.Drained
  | .closeStopCh => s.workers = [] → ∀ r ∈ s.queue.heap, s.done r.addr = true
  | _ => True

instance (s : Pool) : (act : Action) → Decidable (AlwaysAllowed s act)
  | .limit _ allowed => inferInstanceAs (Decidable (allowed = true))
  | .enqueue _ | .cancel _ | .poll _ | .dequeue _ | .finish _ | .send _ | .drop _ | .receive _
  | .reenqueue _ | .monitor _ | .closeStopCh | .closeQueue | .stopReturns => instDecidableTrue

instance (s : Pool) : Decidable s.Drained := inferInstanceAs (Decidable
  (∀ r ∈ s.queue.heap, s.done r.addr = false → r.addr ∉ s.acceptedBeforeStop))

instance (s : Pool) : (act : Action) → Decidable (DrainsFirst s act)
  | .limit _ allowed => inferInstanceAs (Decidable (allowed = true))
  | .poll _ => inferInstanceAs (Decidable (s.stop ≠ .running → s.Drained))
  | .closeStopCh => inferInstanceAs
    (Decidable (s.workers = [] → ∀ r ∈ s.queue.heap, s.done r.addr = true))
  | .enqueue _ | .cancel _ | .dequeue _ | .finish _ | .send _ | .drop _ | .receive _
  | .reenqueue _ | .monitor _ | .closeQueue | .stopReturns => instDecidableTrue

/-- `Stop` has begun, and no worker is left that would come back to the heap: one has found it
drained, or there are none. -/
def NoneLeft (s : Pool) : Prop := .exited ∈ s.workers ∨ s.stop ≠ .running ∧ s.workers = []

structure Draining (s : Pool) : Prop where
  retained : Retained s
  none_delayed : s.delayed = []
  before_accepted : s.acceptedBeforeStop ⊆ s.accepted
  exited_stopping : .exited ∈ s.workers → s.stop ≠ .running
  closed_stopping : s.queue.closed = true → s.stop ≠ .running
  drained : s.NoneLeft → s.Drained
  returned : s.stop = .returned → ∀ p ∈ s.workers, p = .exited

theorem start_draining (max : Int) (count : Nat) (done : Nat → Bool) :
    Draining (start max count done) where
  retained := start_retained max count done
  none_delayed := rfl
  before_accepted := List.nil_subset _
  exited_stopping h := by
    have := (List.mem_replicate.mp h).2
    cases this
  closed_stopping h := by cases h
  drained _ r hr := by cases hr
  returned h := by cases h

/-- The heap of the next state holds requests of this one, and a request that a handler has just
created. -/
theorem next_heap {s s' : Pool} {act : Action} (hi : Owned s) (hdelayed : s.delayed = [])
    (h : s.next act = some s') : ∀ r ∈ s'.queue.heap, r ∈ s.queue.heap ∨ r.addr ∉ s.created := by
  cases next_step h with
  | @enqueue req hfresh =>
    intro r hr
    cases hfull : s.queue.closed || s.queue.full with
    | true =>
      rw [RequestQueue.enqueue_refused hfull req] at hr
      exact .inl hr
    | false =>
      obtain ⟨heap, hperm, heq, -⟩ := RequestQueue.enqueue_accepted hfull req
      rw [heq] at hr
      rcases List.mem_cons.mp (hperm.mem_iff.mp hr) with rfl | hold
      · exact .inr hfresh
      · exact .inl hold
  | dequeue => exact fun r hr => .inl (RequestQueue.dequeue_subset hi.valid s.done hr)
  | reenqueue hr => simp [hdelayed] at hr
  | _ => exact fun r hr => .inl hr

/-- Once `Stop` has begun, it stays so, and which requests were accepted before is fixed. -/
theorem next_stopping {s s' : Pool} {act : Action} (hstop : s.stop ≠ .running)
    (h : s.next act = some s') :
    s'.stop ≠ .running ∧ s'.acceptedBeforeStop = s.acceptedBeforeStop := by
  cases next_step h with
  | closeStopCh hrunning => exact absurd hrunning hstop
  | closeQueue | stopReturns => exact ⟨by simp, rfl⟩
  | _ => exact ⟨hstop, rfl⟩

/-- A drained heap stays drained: what a handler adds was not accepted before `Stop`. -/
theorem next_drained {s s' : Pool} {act : Action} (hi : Owned s) (hd : Draining s)
    (hstop : s.stop ≠ .running) (hdrained : s.Drained) (h : s.next act = some s') :
    s'.Drained := by
  intro r hr hlive hbefore
  rw [(next_stopping hstop h).2] at hbefore
  rcases next_heap hi hd.none_delayed h r hr with hold | hfresh
  · apply hdrained r hold _ hbefore
    by_contra hdone
    have := (next_grows h).done r.addr (by simpa using hdone)
    simp [this] at hlive
  · exact hfresh (hi.accepted_created (hd.before_accepted hbefore))

/-- How a worker comes to exit. -/
theorem next_exited {s s' : Pool} {act : Action} (hi : Owned s) (h : s.next act = some s')
    (hexit : .exited ∈ s'.workers) :
    .exited ∈ s.workers ∨ (∃ w, act = .poll w ∧ s.stop ≠ .running) ∨
      s.queue.closed = true ∧ s'.queue.heap = [] ∧ s'.stop = s.stop := by
  cases next_step h with
  | @poll w hw =>
    by_cases hstop : s.stop = .running
    · rw [if_pos hstop] at hexit
      exact .inl (mem_of_mem_set_ne hexit (by simp))
    · exact .inr (.inl ⟨w, rfl, hstop⟩)
  | dequeue hw =>
    rcases hd : s.queue.dequeue s.done with ⟨skipped, out, queue⟩
    simp only [hd, setWorker] at hexit ⊢
    cases out with
    | item r => exact .inl (mem_of_mem_set_ne hexit (by simp [afterDequeue]))
    | wait => exact .inl (mem_of_mem_set_ne hexit (by simp [afterDequeue]))
    | stopped =>
      obtain ⟨-, -, rfl, hclosed⟩ := RequestQueue.dequeue_empty hi.valid hd (by simp)
      refine .inr (.inr ⟨?_, rfl, trivial⟩)
      by_contra hopen
      simp [hopen] at hclosed
  | allowed | blocked | finish | send | drop => exact .inl (mem_of_mem_set_ne hexit (by simp))
  | enqueue | cancel | receive | reenqueue | monitor | closeStopCh | closeQueue | stopReturns =>
    exact .inl hexit

theorem next_closed {s s' : Pool} {act : Action} (h : s.next act = some s')
    (hclosed : s'.queue.closed = true) : s.queue.closed = true ∨ s.stop ≠ .running := by
  cases next_step h with
  | closeQueue hstop => exact .inr (by simp [hstop])
  | reenqueue =>
    refine .inl ?_
    change (if _ then _ else _ : RequestQueue).closed = true at hclosed
    split at hclosed <;> simpa using hclosed
  | _ => exact .inl (by simpa [setWorker] using hclosed)

/-- When `Stop` has returned, all workers have exited, and they stay so. -/
theorem next_returned {s s' : Pool} {act : Action}
    (hi : s.stop = .returned → ∀ p ∈ s.workers, p = .exited) (h : s.next act = some s')
    (hret : s'.stop = .returned) : ∀ p ∈ s'.workers, p = .exited := by
  have hidle {w : Nat} {p : WorkerPhase} (hstop : s.stop = .returned)
      (hw : s.workers[w]? = some p) : p = .exited := hi hstop p (List.mem_of_getElem? hw)
  cases next_step h with
  | stopReturns _ hexited => exact hexited
  | closeStopCh | closeQueue => cases hret
  | poll hw | dequeue hw | allowed hw | blocked hw | finish hw | send hw | drop hw =>
    cases hidle hret hw
  | enqueue | cancel | receive | reenqueue | monitor => exact hi hret

theorem next_delayed {s s' : Pool} {act : Action} (hok : AlwaysAllowed s act)
    (hi : s.delayed = []) (h : s.next act = some s') : s'.delayed = [] := by
  cases next_step h with
  | reenqueue hr => simp [hi] at hr
  | blocked => cases hok
  | _ => exact hi

theorem next_before {s s' : Pool} {act : Action} (hi : s.acceptedBeforeStop ⊆ s.accepted)
    (h : s.next act = some s') : s'.acceptedBeforeStop ⊆ s'.accepted := by
  have hgrow := List.Subset.trans hi (next_grows h).accepted
  cases next_step h with
  | closeStopCh => exact List.Subset.refl _
  | _ => exact hgrow

/-- The workers stay as many as they are. -/
theorem next_no_workers {s s' : Pool} {act : Action} (h : s.next act = some s')
    (hnone : s'.workers = []) : s.workers = [] := by
  cases next_step h with
  | poll | dequeue | allowed | blocked | finish | send | drop => simpa [setWorker] using hnone
  | _ => exact hnone

theorem next_noneLeft_drained {s s' : Pool} {act : Action} (hi : Owned s) (hd : Draining s)
    (hok : DrainsFirst s act) (h : s.next act = some s') (hleft : s'.NoneLeft) : s'.Drained := by
  rcases hleft with hexit | ⟨hstop', hnone⟩
  · rcases next_exited hi h hexit with hold | ⟨w, rfl, hstop⟩ | ⟨-, hheap, -⟩
    · exact next_drained hi hd (hd.exited_stopping hold) (hd.drained (.inl hold)) h
    · exact next_drained hi hd hstop (hok hstop) h
    · intro r hr
      rw [hheap] at hr
      cases hr
  · have hnone' := next_no_workers h hnone
    by_cases hstop : s.stop = .running
    · -- Only the first step of `Stop` leaves `running`.
      cases next_step h with
      | closeStopCh =>
        intro r hr hlive
        simp [hok hnone' r hr] at hlive
      | _ => exact absurd (next_running (by trivial) hstop h).1 hstop'
    · exact next_drained hi hd hstop (hd.drained (.inr ⟨hstop, hnone'⟩)) h

theorem next_draining {s s' : Pool} {act : Action} (hi : Owned s) (hd : Draining s)
    (hok : DrainsFirst s act) (h : s.next act = some s') : Draining s' where
  retained := by
    apply next_retained hi.valid hd.retained _ h
    rintro a ⟨i, r, rfl, hr, -⟩
    simp [hd.none_delayed] at hr
  none_delayed := next_delayed (by cases act <;> trivial) hd.none_delayed h
  before_accepted := next_before hd.before_accepted h
  exited_stopping hexit := by
    rcases next_exited hi h hexit with hold | ⟨w, -, hstop⟩ | ⟨hclosed, -, -⟩
    · exact (next_stopping (hd.exited_stopping hold) h).1
    · exact (next_stopping hstop h).1
    · exact (next_stopping (hd.closed_stopping hclosed) h).1
  closed_stopping hclosed := by
    rcases next_closed h hclosed with hold | hstop
    · exact (next_stopping (hd.closed_stopping hold) h).1
    · exact (next_stopping hstop h).1
  drained := next_noneLeft_drained hi hd hok h
  returned := next_returned hd.returned h

/-- `Stop` drains the queue in every run in which the workers go on while the heap holds a live
request accepted before `Stop`: when `Stop` returns, all those requests have their results sent. -/
theorem stop_drains (max : Int) (count : Nat) {s : Pool}
    (h : (system max count).Reachable DrainsFirst s) (hret : s.stop = .returned) {a : Nat}
    (ha : a ∈ s.acceptedBeforeStop) (hlive : s.done a = false) : a ∈ s.sent := by
  have hd : Draining s := by
    apply h.invariant Draining
    · rintro _ ⟨done, rfl⟩
      exact start_draining max count done
    · intro s act s' hreach hd hok hs
      exact next_draining (reachable_owned hreach) hd hok hs
  have hi := reachable_owned h
  have hexited := hd.returned hret
  have hleft : s.NoneLeft := by
    rcases List.eq_nil_or_concat s.workers with hnone | ⟨ws, p, hws⟩
    · exact .inr ⟨by simp [hret], hnone⟩
    · have hp : p ∈ s.workers := by simp [hws]
      exact .inl (hexited p hp ▸ hp)
  have hheap : s.inHeap.count a = 0 := by
    apply Multiset.count_eq_zero.mpr
    intro hmem
    obtain ⟨r, hr, rfl⟩ := List.mem_map.mp (Multiset.mem_coe.mp hmem)
    exact hd.drained hleft r hr hlive ha
  have hworkers : s.atWorkers = 0 := by
    rw [atWorkers, List.eq_replicate_of_mem hexited]
    exact holdings_replicate addrOf rfl _
  have hdropped : s.dropped.count a = 0 := by
    apply List.count_eq_zero.mpr
    intro hmem
    simp [hi.dropped_done a hmem] at hlive
  have hcount := hd.retained a hlive
  rw [List.count_eq_one_of_mem hi.accepted_nodup (hd.before_accepted ha)] at hcount
  simp only [located, atGoroutines, finished, hworkers, hd.none_delayed, List.map_nil,
    Multiset.count_add, Multiset.coe_count, hheap, hdropped, Multiset.count_zero,
    List.count_nil] at hcount
  apply List.one_le_count_iff.mp
  omega

/-- A worker that has taken the request when `Stop` begins. -/
theorem stop_drains_taken :
    ∃ s, (system 0 1).Reachable DrainsFirst s ∧ s.stop = .returned ∧ 1 ∈ s.sent := by
  have hinit : (system 0 1).Reachable DrainsFirst (start 0 1 fun _ => false) := .init ⟨_, rfl⟩
  have hdrains : System.Admits next DrainsFirst (start 0 1 fun _ => false)
      [.enqueue { addr := 1 }, .poll 0, .dequeue 0, .closeStopCh, .closeQueue, .limit 0 true,
        .finish 0, .send 0, .poll 0, .monitor .stop, .stopReturns] := by decide
  obtain ⟨s, hs, hret, hbefore, hlive⟩ := System.Reachable.exists_of_exec
    (fun s : Pool => s.stop = .returned ∧ 1 ∈ s.acceptedBeforeStop ∧ s.done 1 = false)
    hinit hdrains (by decide)
  exact ⟨s, hs, hret, stop_drains 0 1 hs hret hbefore hlive⟩

/-- The only worker is at its test of `stopCh` when `Stop` begins: it exits, `Stop` returns, and the
request stays in the heap without a result. -/
theorem stop_leaves_request :
    ∃ s, (system 0 1).Reachable AlwaysAllowed s ∧ s.stop = .returned ∧
      1 ∈ s.acceptedBeforeStop ∧ s.done 1 = false ∧ 1 ∉ s.sent := by
  have hinit : (system 0 1).Reachable AlwaysAllowed (start 0 1 fun _ => false) := .init ⟨_, rfl⟩
  have hallowed : System.Admits next AlwaysAllowed (start 0 1 fun _ => false)
      [.enqueue { addr := 1 }, .closeStopCh, .closeQueue, .poll 0, .monitor .stop,
        .stopReturns] := by decide
  exact System.Reachable.exists_of_exec
    (fun s : Pool => s.stop = .returned ∧ 1 ∈ s.acceptedBeforeStop ∧ s.done 1 = false ∧ 1 ∉ s.sent)
    hinit hallowed (by decide)

end Pool

end LlmProxy.Worker

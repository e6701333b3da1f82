import LlmProxy.Queue.Refinement

/-! In which order requests leave the queue, and what the position that `Enqueue` returns tells of
it. -/

namespace LlmProxy.Queue

open ProofKit

/-- The results of the calls of `DequeueBlocking`, in order. -/
def dequeued (calls : List Call) : List RequestQueue.Dequeued :=
  calls.filterMap fun
    | .dequeue _ out => some out
    | _ => none

/-- The requests that `Enqueue` has taken, in order. -/
def accepted (calls : List Call) : List PendingRequest :=
  calls.filterMap fun
    | .enqueue req position _ => if position = -1 then none else some req
    | _ => none

/-- The requests that `DequeueBlocking` has returned, in order. -/
def returned (calls : List Call) : List PendingRequest :=
  calls.filterMap fun
    | .dequeue _ (.item r) => some r
    | _ => none

/-- Nothing is removed and no context ends. -/
def Call.undisturbed : Call → Bool
  | .enqueue .. | .dequeue .. | .close => true
  | .remove .. | .cancel _ => false

/-! ### One section of `DequeueBlocking` -/

/-- No request in the heap has been cancelled. -/
def QueueState.Live (s : QueueState) : Prop := ∀ r ∈ s.queue.heap, s.done r.addr = false

/-- Without cancelled requests a section returns one that no other goes before, unless the heap is
empty. -/
theorem dequeue_live {s s' : QueueState} (hvalid : s.queue.Valid) (hlive : s.Live)
    {skipped : List PendingRequest} {out : RequestQueue.Dequeued}
    (h : s.Step (.dequeue skipped out) s') :
    s'.queue.Valid ∧ s'.done = s.done ∧
      ((s.queue.heap = [] ∧ s'.queue.heap = [] ∧ ∀ r, out ≠ .item r) ∨
        ∃ r, out = .item r ∧ (r :: s'.queue.heap).Perm s.queue.heap ∧
          ∀ y ∈ s'.queue.heap, ¬Before y r) := by
  obtain ⟨heq, hdone⟩ := h
  have hnone (hskip : ∀ x ∈ skipped, s.done x.addr = true) (hsub : skipped ⊆ s.queue.heap) :
      skipped = [] := by
    refine List.eq_nil_iff_forall_not_mem.mpr fun x hx => ?_
    have := hlive x (hsub hx)
    simp [hskip x hx] at this
  cases out with
  | item r =>
    obtain ⟨hskip, -, hperm, hmin, hvalid', -, -⟩ := RequestQueue.dequeue_item hvalid heq
    obtain rfl := hnone hskip fun x hx => hperm.subset (List.mem_append_left _ hx)
    exact ⟨hvalid', hdone, .inr ⟨r, rfl, hperm, fun y hy => less_eq_false.mp (hmin y hy)⟩⟩
  | stopped | wait =>
    obtain ⟨hskip, hperm, hq, -⟩ := RequestQueue.dequeue_empty hvalid heq (by simp)
    obtain rfl := hnone hskip hperm.subset
    rw [hq]
    refine ⟨fun i _ hlt => by simp at hlt, hdone, .inl ⟨hperm.symm.eq_nil, rfl, by simp⟩⟩

/-! ### The position that `Enqueue` returns -/

/-- Neither `Enqueue` nor `Remove`, and no context ends. -/
def Call.drains : Call → Bool
  | .dequeue .. | .close => true
  | .enqueue .. | .remove .. | .cancel _ => false

/-- Two requests that differ in priority or timestamp: one goes before the other. -/
def KeysDiffer (a b : PendingRequest) : Prop :=
  (a.priority, a.timestamp) ≠ (b.priority, b.timestamp)

theorem KeysDiffer.symm {a b : PendingRequest} (h : KeysDiffer a b) : KeysDiffer b a := Ne.symm h

theorem KeysDiffer.less {a b : PendingRequest} (h : KeysDiffer a b) (hnot : ¬Before b a) :
    less a b = true := by
  have hne : ¬(a.priority = b.priority ∧ a.timestamp = b.timestamp) := by
    simpa [KeysDiffer] using h
  rw [less_eq_true]
  rw [Before] at hnot
  omega

/-- The request that leaves the heap is `req`, and nothing goes before it, or one of those that
do. -/
theorem rank_of_leaving {heap heap' : List PendingRequest} {r req : PendingRequest}
    (hperm : (r :: heap').Perm heap) (hkeys : (r :: heap').Pairwise KeysDiffer)
    (hmin : ∀ y ∈ heap', ¬Before y r) (hreq : req ∈ heap) :
    (r = req ∧ heap.countP (less · req) = 0) ∨
      (r ≠ req ∧ req ∈ heap' ∧ heap.countP (less · req) = heap'.countP (less · req) + 1) := by
  have hcount := (hperm.countP_eq (less · req)).symm
  rw [List.countP_cons] at hcount
  rcases List.mem_cons.mp (hperm.mem_iff.mpr hreq) with rfl | hleft
  · have hnone : heap'.countP (less · req) = 0 :=
      List.countP_eq_zero.mpr fun y hy => by simpa using less_eq_false.mpr (hmin y hy)
    have hself : less req req = false := by simp [less]
    exact .inl ⟨rfl, by simpa [hnone, hself] using hcount⟩
  · have hdiffer : KeysDiffer r req := List.rel_of_pairwise_cons hkeys hleft
    rw [hdiffer.less (hmin req hleft), if_pos rfl] at hcount
    exact .inr ⟨fun heq => hdiffer (heq ▸ rfl), hleft, hcount⟩

/-- Of requests with different keys, those that go before `req` leave before it, and it leaves
next. -/
theorem drain_rank {max : Int} {s s' : QueueState} {later : List Call}
    (hrun : (queueSystem max).Run s later s') (hdrains : ∀ c ∈ later, c.drains = true)
    (hvalid : s.queue.Valid) (hlive : s.Live) (hkeys : s.queue.heap.Pairwise KeysDiffer)
    {req : PendingRequest} (hreq : req ∈ s.queue.heap) {i : Nat} {out : RequestQueue.Dequeued}
    (hout : (dequeued later)[i]? = some out) :
    (i < s.queue.heap.countP (less · req) → ∃ r, out = .item r ∧ r ≠ req) ∧
      (i = s.queue.heap.countP (less · req) → out = .item req) := by
  induction hrun generalizing i with
  | nil => simp [dequeued] at hout
  | @cons s mid s' c rest hstep _ ih =>
    obtain ⟨hc, hrest⟩ := List.forall_mem_cons.mp hdrains
    cases c with
    | dequeue skipped first =>
      obtain ⟨hvalid', hdone, ⟨hnil, -, -⟩ | ⟨r, rfl, hperm, hmin⟩⟩ :=
        dequeue_live hvalid hlive hstep
      · simp [hnil] at hreq
      have hkeys' : (r :: mid.queue.heap).Pairwise KeysDiffer :=
        hkeys.perm hperm.symm KeysDiffer.symm
      have hlive' : mid.Live := fun y hy =>
        hdone ▸ hlive y (hperm.subset (List.mem_cons_of_mem r hy))
      obtain ⟨rfl, hzero⟩ | ⟨hne, hleft, hcount⟩ := rank_of_leaving hperm hkeys' hmin hreq
      · refine ⟨fun hlt => by omega, fun heq => ?_⟩
        obtain rfl : i = 0 := by omega
        exact (Option.some.inj hout).symm
      · cases i with
        | zero =>
          obtain rfl : RequestQueue.Dequeued.item r = out := Option.some.inj hout
          exact ⟨fun _ => ⟨r, rfl, hne⟩, fun heq => by omega⟩
        | succ j =>
          obtain ⟨hbefore, hnext⟩ := ih hrest hvalid' hlive' hkeys'.of_cons hleft (i := j) hout
          exact ⟨fun hlt => hbefore (by omega), fun heq => hnext (by omega)⟩
    | close =>
      obtain rfl := hstep
      exact ih hrest hvalid hlive hkeys hreq hout
    | enqueue | remove | cancel => cases hc

/-- In a queue in which no two requests have the same priority and timestamp, the position is the
number of requests that `DequeueBlocking` returns before the new one. -/
theorem enqueue_position_exact {max : Int} {done : Nat → Bool} {calls : List Call} {s : QueueState}
    (hrun : (queueSystem max).Run ⟨newRequestQueue max, done⟩ calls s) {req : PendingRequest}
    (hlive : ∀ r ∈ req :: s.queue.heap, s.done r.addr = false)
    (hkeys : (req :: s.queue.heap).Pairwise KeysDiffer) {position length : Int}
    {queue : RequestQueue} (henqueue : s.queue.enqueue req = (position, length, queue))
    (hposition : 0 ≤ position) :
    queue.heap.Perm (req :: s.queue.heap) ∧ length = queue.heap.length ∧ position < length ∧
      ∀ (later : List Call) (s' : QueueState), (queueSystem max).Run ⟨queue, s.done⟩ later s' →
        (∀ c ∈ later, c.drains = true) → ∀ (i : Nat) (out : RequestQueue.Dequeued),
          (dequeued later)[i]? = some out →
            (i < position → ∃ r, out = .item r ∧ r ≠ req) ∧ (i = position → out = .item req) := by
  have haccepted : (s.queue.closed || s.queue.full) = false := by
    refine Bool.eq_false_iff.mpr fun hrefused => ?_
    rw [RequestQueue.enqueue_refused hrefused] at henqueue
    have : -1 = position := congrArg Prod.fst henqueue
    omega
  obtain ⟨heap, hperm, hen, hvalid⟩ := RequestQueue.enqueue_accepted haccepted req
  rw [hen] at henqueue
  obtain ⟨rfl, rfl, rfl⟩ := henqueue
  have hreq : req ∈ heap := hperm.symm.subset List.mem_cons_self
  refine ⟨hperm, rfl, ?_, fun later s' hlater hdrains i out hout => ?_⟩
  · have hlt : heap.countP (less · req) < heap.length :=
      List.countP_lt_length_iff.mpr ⟨req, hreq, by simp [less]⟩
    exact Int.ofNat_lt.mpr hlt
  · have hrank := drain_rank hlater hdrains (hvalid (run_refines hrun).2.valid)
      (fun r hr => hlive r (hperm.subset hr)) (hkeys.perm hperm.symm KeysDiffer.symm) hreq hout
    simpa using hrank

/-- A request of low priority behind one that waits: it is the second to leave. -/
theorem enqueue_position_exact_second :
    let high : PendingRequest := { addr := 1, priority := 10 }
    let low : PendingRequest := { addr := 2, priority := 1 }
    let queue : RequestQueue := { heap := [high, low], max := 0, closed := false }
    let live : Nat → Bool := fun _ => false
    ∀ (later : List Call) (s' : QueueState), (queueSystem 0).Run ⟨queue, live⟩ later s' →
      (∀ c ∈ later, c.drains = true) → ∀ out, (dequeued later)[1]? = some out →
        out = .item low := by
  intro high low queue live later s' hlater hdrains out hout
  let one : RequestQueue := { heap := [high], max := 0, closed := false }
  have hstep : QueueState.Step ⟨newRequestQueue 0, live⟩ (.enqueue high 0 1) ⟨one, live⟩ :=
    ⟨by decide, rfl⟩
  have hrun : (queueSystem 0).Run ⟨newRequestQueue 0, live⟩ [.enqueue high 0 1] ⟨one, live⟩ :=
    .cons hstep .nil
  have henqueue : one.enqueue low = (1, 2, queue) := by decide
  have hkeys : (low :: one.heap).Pairwise KeysDiffer :=
    List.pairwise_pair.mpr (by simp [KeysDiffer, low, high])
  have hexact := enqueue_position_exact hrun (fun _ _ => rfl) hkeys henqueue (by decide)
  exact (hexact.2.2.2 later s' hlater hdrains 1 out hout).2 rfl

/-! ### Requests of one priority -/

/-- No request of the same priority and time is in the queue. -/
def Untied (s : QueueState) : Call → Prop
  | .enqueue req _ _ => ∀ r ∈ s.queue.heap, r.priority = req.priority → r.timestamp ≠ req.timestamp
  | _ => True

/-- Of each priority, the requests that have been returned are the first ones that were accepted. -/
def FirstInFirstOut (calls : List Call) : Prop :=
  ∀ priority, (returned calls).filter (·.priority = priority) <+:
    (accepted calls).filter (·.priority = priority)

/-- The requests in the queue as they came, where requests of one priority came at different
times. -/
structure LinedUp (line heap : List PendingRequest) : Prop where
  perm : line.Perm heap
  earlier : line.Pairwise fun a b => a.priority = b.priority → a.timestamp < b.timestamp

section LinedUp

variable {line heap heap' : List PendingRequest} {req r : PendingRequest}

theorem LinedUp.enqueue (h : LinedUp line heap) (hheap : heap'.Perm (req :: heap))
    (htime : ∀ a ∈ line, a.timestamp ≤ req.timestamp)
    (huntied : ∀ a ∈ heap, a.priority = req.priority → a.timestamp ≠ req.timestamp) :
    LinedUp (line ++ [req]) heap' where
  perm := (List.perm_append_singleton req line).trans ((h.perm.cons req).trans hheap.symm)
  earlier := by
    refine List.pairwise_append.mpr ⟨h.earlier, List.pairwise_singleton _ _,
      fun a ha b hb hpri => ?_⟩
    obtain rfl := List.mem_singleton.mp hb
    have hle := htime a ha
    have hne := huntied a (h.perm.subset ha) hpri
    omega

/-- The request that leaves is the first one of its priority. -/
theorem LinedUp.dequeue (h : LinedUp line heap) (hperm : (r :: heap').Perm heap)
    (hmin : ∀ y ∈ heap', ¬Before y r) :
    ∃ line', LinedUp line' heap' ∧ line'.Sublist line ∧ ∀ priority,
      line.filter (·.priority = priority) =
        (if r.priority = priority then [r] else []) ++ line'.filter (·.priority = priority) := by
  have hmem : r ∈ line := h.perm.mem_iff.mpr (hperm.subset List.mem_cons_self)
  obtain ⟨before, after, rfl⟩ := List.append_of_mem hmem
  have hrest : (before ++ after).Perm heap' := by
    refine List.Perm.cons_inv (a := r) ?_
    exact (List.perm_middle.symm.trans h.perm).trans hperm.symm
  have hsub : (before ++ after).Sublist (before ++ r :: after) :=
    (List.sublist_cons_self r after).append_left before
  have hfirst : ∀ a ∈ before, a.priority ≠ r.priority := by
    intro a ha hpri
    have hlt := (List.pairwise_append.mp h.earlier).2.2 a ha r List.mem_cons_self hpri
    exact hmin a (hrest.subset (List.mem_append_left _ ha)) (.inr ⟨hpri, hlt⟩)
  refine ⟨before ++ after, ⟨hrest, h.earlier.sublist hsub⟩, hsub, fun priority => ?_⟩
  by_cases hpri : r.priority = priority
  · subst hpri
    have hnone : before.filter (·.priority = r.priority) = [] :=
      List.filter_eq_nil_iff.mpr fun a ha => by simpa using hfirst a ha
    simp [hnone]
  · simp [hpri]

end LinedUp

theorem accepted_cons (c : Call) (calls : List Call) :
    accepted (c :: calls) = accepted [c] ++ accepted calls :=
  List.filterMap_append (l := [c])

theorem returned_cons (c : Call) (calls : List Call) :
    returned (c :: calls) = returned [c] ++ returned calls :=
  List.filterMap_append (l := [c])

/-- A call leaves the requests lined up: of each priority, it returns the first one of those that
were in the queue or have come. -/
theorem LinedUp.step {max : Int} {s s' : QueueState} {c : Call} {line : List PendingRequest}
    (h : LinedUp line s.queue.heap) (hinv : s.Inv max) (hlive : ∀ addr, s.done addr = false)
    (hc : c.undisturbed = true) (huntied : Untied s c) (hstep : s.Step c s')
    (htime : ∀ a ∈ line, ∀ r ∈ accepted [c], a.timestamp ≤ r.timestamp) :
    s'.done = s.done ∧ ∃ line', LinedUp line' s'.queue.heap ∧ line'.Sublist (line ++ accepted [c]) ∧
      ∀ priority, (line ++ accepted [c]).filter (·.priority = priority) =
        (returned [c]).filter (·.priority = priority) ++ line'.filter (·.priority = priority) := by
  cases c with
  | enqueue req position length =>
    obtain ⟨heq, hdone⟩ := hstep
    refine ⟨hdone, ?_⟩
    by_cases hrefused : (s.queue.closed || s.queue.full) = true
    · rw [RequestQueue.enqueue_refused hrefused] at heq
      obtain ⟨rfl, rfl, hq⟩ : -1 = position ∧ -1 = length ∧ s.queue = s'.queue := by simpa using heq
      exact ⟨line, hq ▸ h, by simp, fun priority => by simp [accepted, returned]⟩
    · obtain ⟨heap, hperm, hen, -⟩ := RequestQueue.enqueue_accepted (by simpa using hrefused) req
      rw [hen] at heq
      obtain ⟨hpos, -, hq⟩ := by simpa using heq
      have hkept : accepted [.enqueue req position length] = [req] :=
        List.filterMap_cons_some (if_neg (by omega))
      have hheap : s'.queue.heap = heap := by rw [← hq]
      rw [hkept] at htime ⊢
      refine ⟨line ++ [req], ?_, List.Sublist.refl _, fun priority => by simp [returned]⟩
      exact hheap ▸ h.enqueue hperm (fun a ha => htime a ha req (List.mem_singleton_self req))
        huntied
  | dequeue skipped out =>
    have hnone : accepted [.dequeue skipped out] = [] := rfl
    rw [hnone, List.append_nil]
    obtain ⟨-, hdone, ⟨hnil, hnil', hout⟩ | ⟨r, rfl, hperm, hmin⟩⟩ :=
      dequeue_live hinv.valid (fun r _ => hlive r.addr) hstep
    · have hskip : returned [.dequeue skipped out] = [] := by
        cases out with
        | item r => exact absurd rfl (hout r)
        | stopped | wait => rfl
      rw [hnil] at h
      exact ⟨hdone, line, hnil' ▸ h, List.Sublist.refl _, fun priority => by simp [hskip]⟩
    · obtain ⟨line', hline', hsub, hfilter⟩ := h.dequeue hperm hmin
      refine ⟨hdone, line', hline', hsub, fun priority => ?_⟩
      have htaken : returned [.dequeue skipped (.item r)] = [r] := rfl
      rw [hfilter, htaken, List.filter_singleton]
      simp
  | close =>
    obtain rfl := hstep
    exact ⟨rfl, line, h, by simp [accepted], fun priority => by simp [accepted, returned]⟩
  | remove | cancel => cases hc

/-- A run from a state in which the requests are lined up. -/
theorem fifo_of_linedUp {max : Int} {s s' : QueueState} {calls : List Call}
    (hrun : ((queueSystem max).restrict Untied).Run s calls s') {line : List PendingRequest}
    (hinv : s.Inv max) (hlive : ∀ addr, s.done addr = false) (hline : LinedUp line s.queue.heap)
    (hcalls : ∀ c ∈ calls, c.undisturbed = true)
    (hsorted : (line ++ accepted calls).Pairwise (·.timestamp ≤ ·.timestamp)) (priority : Int) :
    (returned calls).filter (·.priority = priority) <+:
      (line ++ accepted calls).filter (·.priority = priority) := by
  induction hrun generalizing line with
  | nil => exact List.nil_prefix
  | @cons s mid s' c rest hstep _ ih =>
    obtain ⟨huntied, hstep⟩ := hstep
    obtain ⟨hc, hrest⟩ := List.forall_mem_cons.mp hcalls
    rw [accepted_cons, ← List.append_assoc] at hsorted ⊢
    have htime := (List.pairwise_append.mp (List.pairwise_append.mp hsorted).1).2.2
    obtain ⟨hdone, line', hline', hsub, hfilter⟩ := hline.step hinv hlive hc huntied hstep htime
    have hnext := ih (step_refines hinv hstep).2 (hdone ▸ hlive) hline' hrest
      (hsorted.sublist (hsub.append_right _))
    have hsplit : (line ++ accepted [c] ++ accepted rest).filter (·.priority = priority) =
        (returned [c]).filter (·.priority = priority) ++
          (line' ++ accepted rest).filter (·.priority = priority) := by
      rw [List.filter_append, hfilter, List.append_assoc, ← List.filter_append]
    rw [hsplit, returned_cons, List.filter_append]
    exact (List.prefix_append_right_inj _).mpr hnext

/-- Requests of one priority leave the queue in the order in which they came, in every run in which
no request is enqueued while another one of its priority and time is in the queue. -/
theorem fifo_of_untied {max : Int} {calls : List Call} {s : QueueState}
    (hrun : ((queueSystem max).restrict Untied).Run ⟨newRequestQueue max, fun _ => false⟩ calls s)
    (hcalls : ∀ c ∈ calls, c.undisturbed = true)
    (hsorted : (accepted calls).Pairwise (·.timestamp ≤ ·.timestamp)) : FirstInFirstOut calls := by
  intro priority
  have hline : LinedUp [] (newRequestQueue max).heap := ⟨.refl [], .nil⟩
  exact fifo_of_linedUp hrun (QueueState.newQueue_inv max _)
    (fun _ => rfl) hline hcalls hsorted priority

/-- Two requests of one priority at different times, and one of a higher priority that overtakes
them. -/
theorem fifo_of_untied_overtaken :
    let first : PendingRequest := { addr := 1, priority := 1, timestamp := 1 }
    let second : PendingRequest := { addr := 2, priority := 1, timestamp := 2 }
    let high : PendingRequest := { addr := 3, priority := 10, timestamp := 2 }
    let calls : List Call := [.enqueue first 0 1, .enqueue second 1 2, .enqueue high 0 3,
      .dequeue [] (.item high), .dequeue [] (.item first), .dequeue [] (.item second)]
    FirstInFirstOut calls := by
  intro first second high calls
  let live : Nat → Bool := fun _ => false
  let queue (heap : List PendingRequest) : QueueState := ⟨{ heap, max := 0, closed := false }, live⟩
  have h1 : QueueState.Step (queue []) (.enqueue first 0 1) (queue [first]) := ⟨by decide, rfl⟩
  have h2 : QueueState.Step (queue [first]) (.enqueue second 1 2) (queue [first, second]) :=
    ⟨by decide, rfl⟩
  have h3 : QueueState.Step (queue [first, second]) (.enqueue high 0 3)
      (queue [high, second, first]) := ⟨by decide, rfl⟩
  have h4 : QueueState.Step (queue [high, second, first]) (.dequeue [] (.item high))
      (queue [first, second]) := ⟨by decide, rfl⟩
  have h5 : QueueState.Step (queue [first, second]) (.dequeue [] (.item first)) (queue [second]) :=
    ⟨by decide, rfl⟩
  have h6 : QueueState.Step (queue [second]) (.dequeue [] (.item second)) (queue []) :=
    ⟨by decide, rfl⟩
  have hsecond : ∀ r ∈ [first], r.priority = second.priority → r.timestamp ≠ second.timestamp := by
    decide
  have hhigh : ∀ r ∈ [first, second], r.priority = high.priority →
      r.timestamp ≠ high.timestamp := by
    decide
  have hrun : ((queueSystem 0).restrict Untied).Run (queue []) calls (queue []) :=
    .cons ⟨fun r hr => by simp [queue] at hr, h1⟩ (.cons ⟨hsecond, h2⟩ (.cons ⟨hhigh, h3⟩
      (.cons ⟨trivial, h4⟩ (.cons ⟨trivial, h5⟩ (.cons ⟨trivial, h6⟩ .nil)))))
  exact fifo_of_untied hrun (by decide) (by decide)

/-- Three requests of one priority and time: once the first has left, the third is on top. -/
theorem tied_requests_overtake :
    let first : PendingRequest := { addr := 1 }
    let second : PendingRequest := { addr := 2 }
    let third : PendingRequest := { addr := 3 }
    let calls : List Call := [.enqueue first 0 1, .enqueue second 0 2, .enqueue third 0 3,
      .dequeue [] (.item first), .dequeue [] (.item third)]
    (∃ s, (queueSystem 0).Run ⟨newRequestQueue 0, fun _ => false⟩ calls s) ∧
      (∀ c ∈ calls, c.undisturbed = true) ∧
      (accepted calls).Pairwise (·.timestamp ≤ ·.timestamp) ∧ ¬FirstInFirstOut calls := by
  intro first second third calls
  let live : Nat → Bool := fun _ => false
  let queue (heap : List PendingRequest) : QueueState := ⟨{ heap, max := 0, closed := false }, live⟩
  have h1 : QueueState.Step (queue []) (.enqueue first 0 1) (queue [first]) := ⟨by decide, rfl⟩
  have h2 : QueueState.Step (queue [first]) (.enqueue second 0 2) (queue [first, second]) :=
    ⟨by decide, rfl⟩
  have h3 : QueueState.Step (queue [first, second]) (.enqueue third 0 3)
      (queue [first, second, third]) := ⟨by decide, rfl⟩
  have h4 : QueueState.Step (queue [first, second, third]) (.dequeue [] (.item first))
      (queue [third, second]) := ⟨by decide, rfl⟩
  have h5 : QueueState.Step (queue [third, second]) (.dequeue [] (.item third)) (queue [second]) :=
    ⟨by decide, rfl⟩
  refine ⟨⟨queue [second], .cons h1 (.cons h2 (.cons h3 (.cons h4 (.cons h5 .nil))))⟩, by decide,
    by decide, fun hfifo => ?_⟩
  have hfirst : [first, third] <+: [first, second, third] := hfifo 0
  simp [first, second, third] at hfirst

end LlmProxy.Queue

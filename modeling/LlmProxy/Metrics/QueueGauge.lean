import LlmProxy.Metrics.Registry
import LlmProxy.Worker.Ownership

/-! The gauge of the queue length.  A handler sets the gauge of its model to the length that
`Enqueue` returned, which counts the requests of all models; what the workers and the goroutines
that put requests back do to the queue is not reported. -/

namespace LlmProxy.Worker.Pool

open Queue ProofKit

variable {s s' : Pool} {act : Action} {r : PendingRequest}

/-- The request is in the heap, with a goroutine that puts it back, or with a worker. -/
def Holds (s : Pool) (r : PendingRequest) : Prop :=
  r ∈ s.queue.heap ∨ r ∈ s.delayed ∨ ∃ p ∈ s.workers, p.request = some r

/-- A worker that changes its phase. -/
theorem Holds.of_setWorker {w : Nat} {p : WorkerPhase} (h : (s.setWorker w p).Holds r) :
    s.Holds r ∨ p.request = some r := by
  rcases h with hheap | hdelayed | ⟨p', hmem, hr⟩
  · exact .inl (.inl hheap)
  · exact .inl (.inr (.inl hdelayed))
  · rcases List.mem_or_eq_of_mem_set hmem with hold | rfl
    · exact .inl (.inr (.inr ⟨p', hold, hr⟩))
    · exact .inr hr

theorem mem_enqueue {q : RequestQueue} {req : PendingRequest} (h : r ∈ (q.enqueue req).2.2.heap) :
    r ∈ q.heap ∨ r = req ∧ (q.closed || q.full) = false := by
  cases hfull : q.closed || q.full with
  | true =>
    rw [RequestQueue.enqueue_refused hfull req] at h
    exact .inl h
  | false =>
    obtain ⟨heap, hperm, heq, -⟩ := RequestQueue.enqueue_accepted hfull req
    rw [heq] at h
    rcases List.mem_cons.mp (hperm.mem_iff.mp h) with rfl | hold
    · exact .inr ⟨rfl, rfl⟩
    · exact .inl hold

/-- What a worker has after `DequeueBlocking` was in the heap. -/
theorem mem_heap_of_dequeue {q : RequestQueue} (hv : q.Valid) {done : Nat → Bool}
    (h : (afterDequeue (q.dequeue done).2.1).request = some r) : r ∈ q.heap := by
  cases hout : (q.dequeue done).2.1 with
  | item r' =>
    rw [hout] at h
    obtain rfl := Option.some.inj h
    obtain ⟨-, -, hperm, -⟩ := RequestQueue.dequeue_item hv
      (show q.dequeue done = ((q.dequeue done).1, .item r', (q.dequeue done).2.2) by rw [← hout])
    exact hperm.mem_iff.mp (List.mem_append_right _ List.mem_cons_self)
  | _ =>
    rw [hout] at h
    cases h

/-- No step brings a request into the pool but its own `Enqueue`. -/
theorem next_holds (hv : s.queue.Valid) (h : s.next act = some s') (hr : s'.Holds r) :
    s.Holds r ∨ act = .enqueue r ∧ (s.queue.closed || s.queue.full) = false := by
  have hset {w : Nat} {p : WorkerPhase} (hr : (s.setWorker w p).Holds r) (hp : p.request = some r →
    s.Holds r) :
      s.Holds r := hr.of_setWorker.elim id hp
  cases next_step h with
  | enqueue hfresh =>
    rcases hr with hheap | hrest
    · rcases mem_enqueue hheap with hold | ⟨rfl, hfull⟩
      · exact .inl (.inl hold)
      · exact .inr ⟨rfl, hfull⟩
    · exact .inl (.inr hrest)
  | dequeue hw =>
    rcases hr with hheap | hrest
    · exact .inl (.inl (RequestQueue.dequeue_subset hv s.done hheap))
    · exact .inl (hset (.inr hrest) fun hnew => .inl (mem_heap_of_dequeue hv hnew))
  | poll hw =>
    refine .inl (hset hr fun hnew => ?_)
    split at hnew <;> cases hnew
  | allowed hw | finish hw =>
    exact .inl (hset hr fun hnew => .inr (.inr ⟨_, List.mem_of_getElem? hw, hnew⟩))
  | send hw | drop hw => exact .inl (hset hr nofun)
  | blocked hw =>
    rcases hr with hheap | hdelayed | hworker
    · exact .inl (.inl hheap)
    · rcases List.mem_cons.mp hdelayed with rfl | hold
      · exact .inl (.inr (.inr ⟨_, List.mem_of_getElem? hw, rfl⟩))
      · exact .inl (.inr (.inl hold))
    · exact .inl (hset (.inr (.inr hworker)) nofun)
  | reenqueue hi =>
    rcases hr with hheap | hdelayed | hworker
    · replace hheap : r ∈ (if _ then s.queue else _ : RequestQueue).heap := hheap
      split at hheap
      · exact .inl (.inl hheap)
      · rcases mem_enqueue hheap with hold | ⟨rfl, -⟩
        · exact .inl (.inl hold)
        · exact .inl (.inr (.inl (List.mem_of_getElem? hi)))
    · exact .inl (.inr (.inl (List.mem_of_mem_eraseIdx hdelayed)))
    · exact .inl (.inr (.inr hworker))
  | _ => exact .inl hr

theorem heap_of_accepted (h : s.next (.enqueue r) = some s')
    (hroom : (s.queue.closed || s.queue.full) = false) :
    s'.queue.heap.Perm (r :: s.queue.heap) := by
  obtain ⟨heap, hperm, heq, -⟩ := RequestQueue.enqueue_accepted hroom r
  cases next_step h with
  | enqueue =>
    show (s.queue.enqueue r).2.2.heap.Perm _
    rw [heq]
    exact hperm

/-- A goroutine that puts a request back finds its context done, or the queue closed or full. -/
def PutsNothingBack (s : Pool) (i : Nat) : Prop :=
  ∀ r ∈ s.delayed[i]?, s.done r.addr = true ∨ (s.queue.closed || s.queue.full) = true

/-- The heap is changed by `Enqueue` and by `DequeueBlocking`, and by nothing else. -/
theorem next_heap_eq (hv : s.queue.Valid) (h : s.next act = some s')
    (henqueue : ∀ r, act = .enqueue r → (s.queue.closed || s.queue.full) = true)
    (hdequeue : ∀ w, act = .dequeue w → s.queue.heap = [])
    (hreenqueue : ∀ i, act = .reenqueue i → s.PutsNothingBack i) :
    s'.queue.heap = s.queue.heap := by
  cases next_step h with
  | @enqueue r =>
    show (s.queue.enqueue r).2.2.heap = _
    rw [RequestQueue.enqueue_refused (henqueue r rfl)]
  | @dequeue w =>
    have hsubset := RequestQueue.dequeue_subset hv s.done
    rw [hdequeue w rfl, List.subset_nil] at hsubset
    exact hsubset.trans (hdequeue w rfl).symm
  | @reenqueue i r hr =>
    show RequestQueue.heap (if _ then _ else _) = _
    split
    · rfl
    · next hdone =>
      rw [RequestQueue.enqueue_refused ((hreenqueue i rfl r hr).resolve_left hdone)]
  | _ => rfl

/-- A request that is put back. -/
theorem heap_of_putBack {i : Nat} (h : s.next (.reenqueue i) = some s')
    (hback : ¬ s.PutsNothingBack i) :
    ∃ r ∈ s.delayed, s'.queue.heap.Perm (r :: s.queue.heap) := by
  cases next_step h with
  | @reenqueue _ r hr =>
    have hlive : ¬ (s.done r.addr = true ∨ (s.queue.closed || s.queue.full) = true) := by
      refine fun hor => hback fun r' hr' => ?_
      obtain rfl := Option.some.inj (hr.symm.trans hr')
      exact hor
    obtain ⟨hdone, hroom⟩ := not_or.mp hlive
    obtain ⟨heap, hperm, heq, -⟩ := RequestQueue.enqueue_accepted (Bool.eq_false_iff.mpr hroom) r
    refine ⟨r, List.mem_of_getElem? hr, ?_⟩
    show (RequestQueue.heap (if _ then _ else _)).Perm _
    rw [if_neg hdone, heq]
    exact hperm

/-- A section of `DequeueBlocking` with a request in the heap takes one out at least. -/
theorem dequeue_length_lt {q : RequestQueue} (hv : q.Valid) (done : Nat → Bool) (h : q.heap ≠ []) :
    (q.dequeue done).2.2.heap.length < q.heap.length := by
  by_cases hitem : ∃ r, (q.dequeue done).2.1 = .item r
  · obtain ⟨r, hr⟩ := hitem
    obtain ⟨-, -, hperm, -⟩ := RequestQueue.dequeue_item hv
      (show q.dequeue done = ((q.dequeue done).1, .item r, (q.dequeue done).2.2) by rw [← hr])
    rw [← hperm.length_eq, List.length_append, List.length_cons]
    omega
  · obtain ⟨-, -, hq, -⟩ := RequestQueue.dequeue_empty hv
      (show q.dequeue done = ((q.dequeue done).1, (q.dequeue done).2.1, (q.dequeue done).2.2)
        from rfl)
      fun r hr => hitem ⟨r, hr⟩
    rw [hq]
    exact List.length_pos_of_ne_nil h

theorem heap_of_dequeue {w : Nat} (hv : s.queue.Valid) (h : s.next (.dequeue w) = some s')
    (hheap : s.queue.heap ≠ []) : s'.queue.heap.length < s.queue.heap.length := by
  cases next_step h with
  | dequeue => exact dequeue_length_lt hv s.done hheap

end LlmProxy.Worker.Pool

namespace LlmProxy.Metrics

open Queue Worker ProofKit

/-- The pool and the registry, with the handlers between `Enqueue` and `SetQueueLength`. -/
structure Gauged where
  pool : Pool
  registry : Registry := {}
  /-- The model of each handler in between, and the length that its `Enqueue` returned. -/
  between : List (String × Int) := []
  /-- The models of the requests that the queue accepted from handlers, as history. -/
  models : List String := []

namespace Gauged

inductive Action
  | pool (act : Pool.Action)
  /-- `SetQueueLength` of a handler. -/
  | report (i : Nat)

/-- What the handlers and the workers record about a step of the pool.  A handler whose request was
accepted goes on to `SetQueueLength`. -/
def observe (s : Gauged) : Pool.Action → Gauged
  | .enqueue r =>
    let (position, length, _) := s.pool.queue.enqueue r
    if position = -1 then { s with registry := s.registry.incRequests r.modelAlias "queue_full" }
    else
      { s with
        between := s.between ++ [(r.modelAlias, length)]
        models := r.modelAlias :: s.models }
  | .limit _ true => { s with registry := s.registry.incWorkerBusy }
  | .finish _ => { s with registry := s.registry.decWorkerBusy }
  | _ => s

def next (s : Gauged) : Action → Option Gauged
  | .pool act => (s.pool.next act).map fun pool => { s.observe act with pool }
  | .report i =>
    s.between[i]?.map fun (model, length) =>
      { s with registry := s.registry.setQueueLength model length, between := s.between.eraseIdx i }

def start (max : Int) (count : Nat) (done : Nat → Bool) : Gauged :=
  { pool := Pool.start max count done }

def system (max : Int) (count : Nat) : System Gauged Action :=
  .ofNext (fun s => ∃ done, s = start max count done) next

/-- The value of `proxyllm_queue_length` for a model. -/
def gauge (s : Gauged) (model : String) : Option Int :=
  (s.registry.queueLength.get? model).map (·.2)

/-- The requests for a model in the queue. -/
def queued (s : Gauged) (model : String) : Nat := s.pool.queue.heap.countP (·.modelAlias = model)

/-- The gauge of each model that was ever enqueued tells how many requests for it are in the queue,
unless a handler is in between. -/
def TellsQueue (s : Gauged) : Prop :=
  s.between = [] → ∀ model ∈ s.models, s.gauge model = some (s.queued model : Int)

/-- One model is enqueued, nothing changes the queue while no handler is in between, and the last
handler that was in between finds as many requests in the queue as after its `Enqueue`. -/
def Steady (s : Gauged) : Action → Prop
  | .pool (.enqueue r) =>
    (s.pool.queue.closed || s.pool.queue.full) = true ∨ ∀ model ∈ s.models, model = r.modelAlias
  | .pool (.dequeue _) => s.between ≠ [] ∨ s.pool.queue.heap = []
  | .pool (.reenqueue i) => s.between ≠ [] ∨ s.pool.PutsNothingBack i
  | .report i => ∀ entry ∈ s.between[i]?, s.between.length = 1 → entry.2 = s.pool.queue.heap.length
  | _ => True

/-! ### Steps -/

/-- What a step does to the gauges and to the handlers. -/
inductive Step (s : Gauged) : Action → Gauged → Prop
  | accepted {r : PendingRequest} {s' : Gauged} (hpool : s.pool.next (.enqueue r) = some s'.pool)
      (hroom : (s.pool.queue.closed || s.pool.queue.full) = false) (hgauge : s'.gauge = s.gauge)
      (hbetween : s'.between = s.between ++ [(r.modelAlias, (s'.pool.queue.heap.length : Int))])
      (hmodels : s'.models = r.modelAlias :: s.models) : Step s (.pool (.enqueue r)) s'
  | quiet {act : Pool.Action} {s' : Gauged} (hpool : s.pool.next act = some s'.pool)
      (hrefused : ∀ r, act = .enqueue r → (s.pool.queue.closed || s.pool.queue.full) = true)
      (hgauge : s'.gauge = s.gauge) (hbetween : s'.between = s.between)
        (hmodels : s'.models = s.models) :
      Step s (.pool act) s'
  | report {i : Nat} {model : String} {length : Int}
      (hentry : s.between[i]? = some (model, length)) :
      Step s (.report i)
        { s with
          registry := s.registry.setQueueLength model length
          between := s.between.eraseIdx i }

variable {s s' : Gauged} {a : Action}

theorem next_step (h : s.next a = some s') : Step s a s' := by
  cases a with
  | pool act =>
    obtain ⟨pool, hpool, rfl⟩ := Option.map_eq_some_iff.mp h
    cases act with
    | enqueue r =>
      cases hfull : s.pool.queue.closed || s.pool.queue.full with
      | true =>
        have hobserve : s.observe (.enqueue r) =
            { s with registry := s.registry.incRequests r.modelAlias "queue_full" } := by
          rw [observe, RequestQueue.enqueue_refused hfull]
          rfl
        rw [hobserve]
        exact .quiet hpool (fun _ _ => hfull) rfl rfl rfl
      | false =>
        obtain ⟨heap, hperm, heq, -⟩ := RequestQueue.enqueue_accepted hfull r
        have hlength : pool.queue.heap.length = heap.length :=
          ((Pool.heap_of_accepted hpool hfull).trans hperm.symm).length_eq
        have hobserve : s.observe (.enqueue r) = { s with
            between := s.between ++ [(r.modelAlias, (heap.length : Int))]
            models := r.modelAlias :: s.models } := by
          rw [observe, heq]
          exact if_neg (by omega)
        rw [hobserve]
        refine .accepted hpool hfull rfl ?_ rfl
        show _ = s.between ++ [(r.modelAlias, (pool.queue.heap.length : Int))]
        rw [hlength]
    | limit w allowed => cases allowed <;> exact .quiet hpool nofun rfl rfl rfl
    | _ => exact .quiet hpool nofun rfl rfl rfl
  | report i =>
    obtain ⟨⟨model, length⟩, hentry, rfl⟩ := Option.map_eq_some_iff.mp h
    exact .report hentry

theorem gauge_setQueueLength (registry : Registry) (model : String) (length : Int) :
    (fun m =>
      (((registry.setQueueLength model length).queueLength.get? m).map (·.2) : Option Int)) =
      Function.update (fun m => (registry.queueLength.get? m).map (·.2)) model (some length) := by
  funext m
  rw [Registry.setQueueLength, Keyed.record, Keyed.get?_upsert]
  by_cases hm : m = model
  · subst hm
    simp [storeInt64]
  · simp [Function.update_of_ne hm]

/-- The gauges after a handler has set its own. -/
theorem gauge_report (s : Gauged) (model : String) (length : Int) (between : List (String × Int)) :
    gauge { s with registry := s.registry.setQueueLength model length, between := between } =
      Function.update s.gauge model (some length) :=
  gauge_setQueueLength s.registry model length

/-! ### One model -/

/-- All requests are for one model, which every handler in between reports a length for, and no
gauge is zero. -/
structure Uniform (s : Gauged) : Prop where
  valid : s.pool.queue.Valid
  held : ∀ r, s.pool.Holds r → r.modelAlias ∈ s.models
  alone : ∀ m ∈ s.models, ∀ m' ∈ s.models, m = m'
  between : ∀ entry ∈ s.between, entry.1 ∈ s.models ∧ 0 < entry.2
  reported : ∀ m ∈ s.models, m ∈ s.between.map (·.1) ∨ ∃ n, 0 < n ∧ s.gauge m = some n

theorem start_uniform (max : Int) (count : Nat) (done : Nat → Bool) :
    Uniform (start max count done) where
  valid := RequestQueue.newRequestQueue_valid max
  held r hr := by
    rcases hr with hheap | hdelayed | ⟨p, hp, hr⟩
    · cases hheap
    · cases hdelayed
    · obtain rfl := List.eq_of_mem_replicate hp
      cases hr
  alone := nofun
  between := nofun
  reported := nofun

/-- The requests in the queue are all for the model. -/
theorem Uniform.queued_eq (h : Uniform s) {model : String} (hmodel : model ∈ s.models) :
    s.queued model = s.pool.queue.heap.length := by
  refine List.countP_eq_length.mpr fun r hr => decide_eq_true ?_
  exact h.alone _ (h.held r (.inl hr)) model hmodel

/-- A step that enqueues no second model. -/
theorem Uniform.step (h : Uniform s) (hstep : Step s a s')
    (hone : ∀ r, a = .pool (.enqueue r) → (s.pool.queue.closed || s.pool.queue.full) = true ∨
      ∀ model ∈ s.models, model = r.modelAlias) : Uniform s' := by
  cases hstep with
  | @accepted r _ hpool hroom hgauge hbetween hmodels =>
    have hmodel : ∀ m ∈ s'.models, m = r.modelAlias := by
      rw [hmodels]
      exact List.forall_mem_cons.mpr ⟨rfl, (hone r rfl).resolve_left (by simp [hroom])⟩
    have hlength := (Pool.heap_of_accepted hpool hroom).length_eq
    rw [List.length_cons] at hlength
    refine ⟨Pool.next_valid h.valid hpool, fun r' hr' => ?_, fun m hm m' hm' =>
      ?_, fun entry hentry => ?_,
      fun m hm => ?_⟩
    · rw [hmodels]
      rcases Pool.next_holds h.valid hpool hr' with hold | ⟨heq, -⟩
      · exact List.mem_cons_of_mem _ (h.held r' hold)
      · cases heq
        exact List.mem_cons_self
    · exact (hmodel m hm).trans (hmodel m' hm').symm
    · rw [hbetween, List.mem_append, List.mem_singleton] at hentry
      rw [hmodels]
      rcases hentry with hold | rfl
      · exact ⟨List.mem_cons_of_mem _ (h.between entry hold).1, (h.between entry hold).2⟩
      · exact ⟨List.mem_cons_self, by omega⟩
    · refine .inl ?_
      rw [hbetween, hmodel m hm]
      simp
  | quiet hpool hrefused hgauge hbetween hmodels =>
    refine ⟨Pool.next_valid h.valid hpool, fun r' hr' => ?_, ?_, ?_, ?_⟩
    · rw [hmodels]
      rcases Pool.next_holds h.valid hpool hr' with hold | ⟨rfl, hroom⟩
      · exact h.held r' hold
      · simp [hrefused r' rfl] at hroom
    · rw [hmodels]
      exact h.alone
    · rw [hbetween, hmodels]
      exact h.between
    · rw [hbetween, hmodels, hgauge]
      exact h.reported
  | @report i model length hentry =>
    have hmem := h.between _ (List.mem_of_getElem? hentry)
    refine ⟨h.valid, h.held, h.alone, fun entry hold =>
      h.between entry (List.mem_of_mem_eraseIdx hold),
      fun m hm => .inr ⟨length, hmem.2, ?_⟩⟩
    obtain rfl := h.alone m hm model hmem.1
    rw [gauge_report, Function.update_self]

/-! ### Steady runs -/

/-- The gauge of the one model is the length of the queue, unless a handler is in between. -/
structure Accurate (s : Gauged) : Prop extends Uniform s where
  gauge_eq : s.between = [] → ∀ m ∈ s.models, s.gauge m = some (s.pool.queue.heap.length : Int)

theorem Accurate.tellsQueue (h : Accurate s) : s.TellsQueue := by
  intro hbetween m hm
  rw [h.gauge_eq hbetween m hm, h.queued_eq hm]

theorem Accurate.step (h : Accurate s) (hok : Steady s a) (hstep : Step s a s') : Accurate s' := by
  have huniform : Uniform s' := by
    refine h.toUniform.step hstep fun r heq => ?_
    subst heq
    exact hok
  refine ⟨huniform, fun hempty m hm => ?_⟩
  cases hstep with
  | accepted hpool hroom hgauge hbetween hmodels => simp [hbetween] at hempty
  | quiet hpool hrefused hgauge hbetween hmodels =>
    rw [hbetween] at hempty
    have hheap : s'.pool.queue.heap = s.pool.queue.heap := by
      refine Pool.next_heap_eq h.valid hpool hrefused (fun w heq => ?_) fun i heq => ?_
      · subst heq
        exact hok.resolve_left fun hne => hne hempty
      · subst heq
        exact hok.resolve_left fun hne => hne hempty
    rw [hgauge, hheap]
    exact h.gauge_eq hempty m (hmodels ▸ hm)
  | @report i model length hentry =>
    have hlt := (List.getElem?_eq_some_iff.mp hentry).1
    have hone : s.between.length = 1 := by
      have hlength := congrArg List.length (show s.between.eraseIdx i = [] from hempty)
      rw [List.length_eraseIdx_of_lt hlt, List.length_nil] at hlength
      omega
    obtain rfl := h.alone m hm model (h.between _ (List.mem_of_getElem? hentry)).1
    rw [gauge_report, Function.update_self]
    exact congrArg some (hok _ hentry hone)

theorem accurate_of_reachable {max : Int} {count : Nat}
    (h : (system max count).Reachable Steady s) :
    Accurate s := by
  refine h.invariant Accurate (fun s hs => ?_) fun s a s' _ haccurate hok hnext =>
    haccurate.step hok (next_step hnext)
  obtain ⟨done, rfl⟩ := hs
  exact ⟨start_uniform max count done, nofun⟩

/-! ### Other steps -/

/-- All handlers in between report.  What holds of the lengths for a model holds of its gauge
then. -/
theorem exists_reported (s : Gauged) :
    ∃ s', System.exec next s (List.replicate s.between.length (.report 0)) = some s' ∧
      s'.pool = s.pool ∧ s'.models = s.models ∧ s'.between = [] ∧
      ∀ (m : String) (Q : Int → Prop), (∀ entry ∈ s.between, entry.1 = m → Q entry.2) →
        (m ∈ s.between.map (·.1) ∨ ∃ n, Q n ∧ s.gauge m = some n) → ∃ n, Q n ∧
          s'.gauge m = some n := by
  induction hbetween : s.between generalizing s with
  | nil => exact ⟨s, rfl, rfl, rfl, hbetween, fun m Q _ h => h.resolve_left (by simp)⟩
  | cons entry rest ih =>
    obtain ⟨model, length⟩ := entry
    let mid : Gauged :=
      { s with registry := s.registry.setQueueLength model length, between := rest }
    have hnext : s.next (.report 0) = some mid := by
      rw [next, hbetween]
      rfl
    obtain ⟨s', hexec, hpool, hmodels, hempty, hgauge⟩ := ih mid rfl
    refine ⟨s', ?_, hpool, hmodels, hempty, fun m Q hall hsome =>
      hgauge m Q (fun entry hentry => ?_) ?_⟩
    · rw [List.length_cons, List.replicate_succ, System.exec, hnext]
      exact hexec
    · exact hall entry (List.mem_cons_of_mem _ hentry)
    · by_cases hm : m = model
      · subst hm
        refine .inr ⟨length, hall (m, length) List.mem_cons_self rfl, ?_⟩
        rw [gauge_report, Function.update_self]
      · rw [gauge_report, Function.update_of_ne hm]
        refine hsome.imp_left fun hmem => ?_
        rw [List.map_cons] at hmem
        exact (List.mem_cons.mp hmem).resolve_left hm

/-- The gauge of the model is not the length of the queue. -/
theorem Uniform.not_tellsQueue (h : Uniform s) (hbetween : s.between = []) {m : String}
    (hm : m ∈ s.models) {n : Int} (hgauge : s.gauge m = some n)
    (hne : n ≠ s.pool.queue.heap.length) : ¬ s.TellsQueue := by
  intro htells
  have heq := htells hbetween m hm
  rw [hgauge, h.queued_eq hm] at heq
  exact hne (Option.some.inj heq)

/-- The queue once a request for a second model has been put into it. -/
theorem Uniform.queued_second (h : Uniform s) {r : PendingRequest} {m : String} (hm : m ∈ s.models)
    (hne : m ≠ r.modelAlias) (hperm : s'.pool.queue.heap.Perm (r :: s.pool.queue.heap)) :
    s'.queued r.modelAlias = 1 ∧ s'.queued m = s.pool.queue.heap.length := by
  rw [queued, queued, hperm.countP_eq, hperm.countP_eq]
  constructor
  · rw [List.countP_cons_of_pos (by simp), Nat.add_eq_right, List.countP_eq_zero]
    intro r' hr'
    simpa [h.alone _ (h.held r' (.inl hr')) m hm] using hne
  · rw [List.countP_cons_of_neg (by simpa using Ne.symm hne)]
    exact h.queued_eq hm

/-- What the handlers in between report for the two models then. -/
theorem Uniform.between_second (h : Uniform s) {model m : String} {length : Int} (hm : m ∈ s.models)
    (hne : m ≠ model) {entry : String × Int} (hentry : entry ∈ s.between ++ [(model, length)]) :
    (entry.1 = model → entry.2 = length) ∧ (entry.1 = m → 0 < entry.2) := by
  rcases List.mem_append.mp hentry with hold | hnew
  · obtain ⟨hmem, hpos⟩ := h.between entry hold
    exact ⟨fun heq => absurd ((h.alone m hm _ hmem).trans heq) hne, fun _ => hpos⟩
  · obtain rfl := List.mem_singleton.mp hnew
    exact ⟨fun _ => rfl, fun heq => absurd heq.symm hne⟩

/-- A second model is enqueued.  Either its gauge counts requests of the first model as well, or
there are none of these left, and the gauge of the first model does not tell so. -/
theorem Accurate.second_model (h : Accurate s) {r : PendingRequest}
    (hstep : Step s (.pool (.enqueue r)) s')
    (hroom : (s.pool.queue.closed || s.pool.queue.full) = false) {m : String} (hm : m ∈ s.models)
    (hne : m ≠ r.modelAlias) :
    ∃ n s'', System.exec next s' (List.replicate n (.report 0)) = some s'' ∧ ¬ s''.TellsQueue := by
  obtain ⟨s'', hexec, hpool', hmodels', hempty, hgauge'⟩ := exists_reported s'
  refine ⟨_, s'', hexec, fun htells => ?_⟩
  cases hstep with
  | quiet hpool hrefused => simp [hrefused r rfl] at hroom
  | accepted hpool _ hgauge hbetween hmodels =>
    have hperm := Pool.heap_of_accepted hpool hroom
    have hlength := hperm.length_eq
    rw [List.length_cons] at hlength
    obtain ⟨hsecond, hfirst⟩ :=
      h.queued_second hm hne (show s''.pool.queue.heap.Perm _ from hpool' ▸ hperm)
    rw [hbetween] at hgauge'
    obtain ⟨n, rfl, hsecondGauge⟩ := hgauge' r.modelAlias (· = (s'.pool.queue.heap.length : Int))
      (fun entry hentry => (h.between_second hm hne hentry).1) (.inl (by simp))
    obtain ⟨n, hpos, hfirstGauge⟩ := hgauge' m (0 < ·)
      (fun entry hentry => (h.between_second hm hne hentry).2) (by
        rw [hgauge, List.map_append, List.mem_append]
        exact (h.reported m hm).imp_left .inl)
    -- The first of these leaves no request for the first model in the queue, and the second one
    -- needs some.
    have hone := htells hempty r.modelAlias (by simp [hmodels', hmodels])
    have hsome := htells hempty m (by simp [hmodels', hmodels, hm])
    rw [hsecondGauge, hsecond, Option.some.injEq] at hone
    rw [hfirstGauge, hfirst, Option.some.injEq] at hsome
    omega

/-- The last handler in between reports a length that the queue no longer has. -/
theorem Accurate.stale_report (h : Accurate s) {i : Nat} (hstep : Step s (.report i) s')
    (hnot : ¬ Steady s (.report i)) : ¬ s'.TellsQueue := by
  have huniform := h.toUniform.step hstep nofun
  cases hstep with
  | @report _ model length hentry =>
    have ⟨hone, hne⟩ : s.between.length = 1 ∧ length ≠ s.pool.queue.heap.length := by
      by_contra hok
      refine hnot fun entry hentry' hone => ?_
      obtain rfl := Option.some.inj (hentry.symm.trans hentry')
      exact not_not.mp fun hne => hok ⟨hone, hne⟩
    have hlt := (List.getElem?_eq_some_iff.mp hentry).1
    refine huniform.not_tellsQueue ?_ (h.between _ (List.mem_of_getElem? hentry)).1 ?_ hne
    · show s.between.eraseIdx i = []
      rw [← List.length_eq_zero_iff, List.length_eraseIdx_of_lt hlt]
      omega
    · rw [gauge_report, Function.update_self]

/-- The length of the queue changes and no handler is in between to report it. -/
theorem Accurate.unreported (h : Accurate s) {act : Pool.Action} (hstep : Step s (.pool act) s')
    (hact : ∀ r, act ≠ .enqueue r) (hempty : s.between = []) {r : PendingRequest}
    (hr : s.pool.Holds r) (hne : s'.pool.queue.heap.length ≠ s.pool.queue.heap.length) :
    ¬ s'.TellsQueue := by
  have huniform := h.toUniform.step hstep fun r heq => absurd (Action.pool.inj heq) (hact r)
  cases hstep with
  | accepted => exact absurd rfl (hact _)
  | quiet hpool _ hgauge hbetween hmodels =>
    have hm := h.held r hr
    refine huniform.not_tellsQueue (hbetween.trans hempty) (hmodels ▸ hm)
      (hgauge ▸ h.gauge_eq hempty _ hm) ?_
    omega

theorem Accurate.unsteady (h : Accurate s) (hnext : s.next a = some s') (hnot : ¬ Steady s a) :
    ∃ n s'', System.exec next s' (List.replicate n (.report 0)) = some s'' ∧ ¬ s''.TellsQueue := by
  have hstep := next_step hnext
  cases a with
  | report i => exact ⟨0, s', rfl, h.stale_report hstep hnot⟩
  | pool act =>
    obtain ⟨pool, hpool, rfl⟩ := Option.map_eq_some_iff.mp hnext
    cases act with
    | enqueue r =>
      obtain ⟨hroom, hother⟩ := not_or.mp hnot
      simp only [not_forall] at hother
      obtain ⟨m, hm, hne⟩ := hother
      exact h.second_model hstep (by simpa using hroom) hm hne
    | dequeue w =>
      obtain ⟨hempty, hheap⟩ := not_or.mp hnot
      obtain ⟨r, hr⟩ := List.exists_mem_of_ne_nil _ hheap
      have hlt := Pool.heap_of_dequeue h.valid hpool hheap
      exact ⟨0, _, rfl, h.unreported hstep nofun (not_not.mp hempty) (.inl hr) hlt.ne⟩
    | reenqueue i =>
      obtain ⟨hempty, hback⟩ := not_or.mp hnot
      obtain ⟨r, hr, hperm⟩ := Pool.heap_of_putBack hpool hback
      have hlength := hperm.length_eq
      rw [List.length_cons] at hlength
      refine ⟨0, _, rfl, h.unreported hstep nofun (not_not.mp hempty) (.inr (.inl hr)) ?_⟩
      show pool.queue.heap.length ≠ _
      omega
    | _ => exact absurd trivial hnot

/-- In steady runs the gauge tells the queue.  Any other step, wherever such a run may take one,
leads to a gauge that does not, as soon as the handlers in between have reported. -/
theorem gauge_tells_queue (max : Int) (count : Nat) :
    (∀ s, (system max count).Reachable Steady s → s.TellsQueue) ∧
      ∀ s a s', (system max count).Reachable Steady s → s.next a = some s' → ¬ Steady s a →
        ∃ n s'', System.exec next s' (List.replicate n (.report 0)) = some s'' ∧ ¬ s''.TellsQueue :=
  ⟨fun _ hs => (accurate_of_reachable hs).tellsQueue,
    fun _ _ _ hs hnext hnot => (accurate_of_reachable hs).unsteady hnext hnot⟩

/-- A handler enqueues a request and reports the length. -/
theorem gauge_tells_queue_reported :
    ∃ s, (system 0 1).Reachable Steady s ∧ s.between = [] ∧ "gpt-4" ∈ s.models ∧ s.TellsQueue := by
  let s₀ := start 0 1 fun _ => false
  let s₁ := (s₀.next (.pool (.enqueue { addr := 1, modelAlias := "gpt-4" }))).get (by decide)
  let s₂ := (s₁.next (.report 0)).get (by decide)
  have h₀ : (system 0 1).Reachable Steady s₀ := .init ⟨_, rfl⟩
  have hfirst : Steady s₀ (.pool (.enqueue { addr := 1, modelAlias := "gpt-4" })) := Or.inr nofun
  have h₁ : (system 0 1).Reachable Steady s₁ := .step h₀ hfirst (Option.some_get _).symm
  have hsecond : Steady s₁ (.report 0) :=
    show ∀ entry ∈ s₁.between[0]?, s₁.between.length = 1 →
      entry.2 = (s₁.pool.queue.heap.length : Int) by decide
  have h₂ : (system 0 1).Reachable Steady s₂ := .step h₁ hsecond (Option.some_get _).symm
  exact ⟨s₂, h₂, by decide, by decide, (gauge_tells_queue 0 1).1 s₂ h₂⟩

/-- A worker takes the only request, and the gauge stays at one. -/
theorem gauge_stays :
    ∃ s, (system 0 1).Reachable System.always s ∧
      (s.between = [] ∧ "gpt-4" ∈ s.models ∧ s.gauge "gpt-4" = some 1 ∧ s.queued "gpt-4" = 0) :=
  System.Reachable.exists_of_exec
    (fun s : Gauged => s.between = [] ∧ "gpt-4" ∈ s.models ∧ s.gauge "gpt-4" = some 1 ∧
      s.queued "gpt-4" = 0)
    (.init ⟨fun _ => false, rfl⟩)
    (System.admits_always _ [.pool (.enqueue { addr := 1, modelAlias := "gpt-4" }), .report 0,
      .pool (.poll 0), .pool (.dequeue 0)])
    (by decide)

end Gauged

end LlmProxy.Metrics

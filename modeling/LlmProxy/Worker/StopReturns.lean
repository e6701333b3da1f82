import LlmProxy.Worker.Shutdown
import LlmProxy.ProofKit.Progress
import Mathlib.Algebra.Order.BigOperators.Group.List
import Mathlib.Algebra.Order.Ring.Nat

/-! `Stop` returns.  Once it has closed the queue, `DequeueBlocking` never waits again, and every
worker finds `stopCh` closed when it is back at its test: each of them has a few steps left, and so
has `monitor` between two ticks.  Handlers and the goroutines of rate-limited requests may go on for
as long as they like; the queue refuses what they bring. -/

namespace LlmProxy.Worker

open Queue ProofKit

namespace Pool

/-- The steps of the workers, of `monitor` and of `Stop`.  The others are those of handlers, of
contexts, of the goroutines that put requests back and of the ticker. -/
def Action.own : Action → Bool
  | .poll _ | .dequeue _ | .limit .. | .finish _ | .send _ | .drop _ => true
  | .monitor .report | .monitor .stop => true
  | .closeStopCh | .closeQueue | .stopReturns => true
  | .enqueue _ | .cancel _ | .receive _ | .reenqueue _ | .monitor .tick => false

/-- The steps that an action of the others makes necessary: `monitor` reports a tick that it has
taken. -/
def Action.cost : Action → Nat
  | .monitor .tick => 1
  | _ => 0

/-- The steps that a worker has left once the queue is closed. -/
def stepsLeft : WorkerPhase → Nat
  | .exited => 0
  | .polling => 1
  | .sending _ => 2
  | .forwarding _ => 3
  | .limiting _ => 4
  | .dequeuing => 5

/-- The steps that `monitor` has left until the next tick. -/
def monitorLeft : MonitorPhase → Nat
  | .exited => 0
  | .selecting => 1
  | .reporting => 2

def stopRank (s : Pool) : Nat :=
  (s.workers.map stepsLeft).sum + (monitorLeft s.monitor + if s.stop = .returned then 0 else 1)

/-- `Stop` has closed the queue. -/
structure Closing (s : Pool) : Prop where
  owned : Owned s
  stopped : s.stop = .closed ∨ s.stop = .returned
  closed : s.queue.closed = true
  returned : s.stop = .returned → ∀ p ∈ s.workers, p = .exited

variable {s s' : Pool} {act : Action}

theorem monitor_next_spec {stop : StopPhase} {m m' : MonitorPhase} {a : MonitorAction}
    (h : m.next stop a = some m') :
    (a = .tick ∧ monitorLeft m' = monitorLeft m + 1) ∨
      (a ≠ .tick ∧ monitorLeft m' < monitorLeft m) := by
  cases m <;> cases a <;> simp only [MonitorPhase.next, reduceCtorEq] at h
  · obtain rfl := Option.some.inj h
    exact .inl ⟨rfl, rfl⟩
  · split at h
    · cases h
    · obtain rfl := Option.some.inj h
      exact .inr ⟨by simp, by decide⟩
  · obtain rfl := Option.some.inj h
    exact .inr ⟨by simp, by decide⟩

/-- A `monitor` that has not exited can take a step once `stopCh` is closed. -/
theorem monitor_enabled {stop : StopPhase} {m : MonitorPhase} (hstop : stop ≠ .running)
    (hm : m ≠ .exited) : ∃ a, Action.own (.monitor a) = true ∧ (m.next stop a).isSome := by
  cases m with
  | selecting => exact ⟨.stop, rfl, by simp [MonitorPhase.next, hstop]⟩
  | reporting => exact ⟨.report, rfl, rfl⟩
  | exited => exact absurd rfl hm

/-- `DequeueBlocking` does not wait at a closed queue. -/
theorem afterDequeue_closed (hv : s.queue.Valid) (hclosed : s.queue.closed = true) :
    stepsLeft (afterDequeue (s.queue.dequeue s.done).2.1) < stepsLeft .dequeuing := by
  rcases hd : s.queue.dequeue s.done with ⟨skipped, out, queue⟩
  cases out with
  | item r => simp [afterDequeue, stepsLeft]
  | stopped => simp [afterDequeue, stepsLeft]
  | wait =>
    obtain ⟨-, -, -, hopen⟩ := RequestQueue.dequeue_empty hv hd (by simp)
    simp [hclosed] at hopen

theorem stopRank_setWorker {w : Nat} {old p : WorkerPhase} (hw : s.workers[w]? = some old)
    (hp : stepsLeft p < stepsLeft old) : stopRank (s.setWorker w p) < stopRank s := by
  have := sum_map_set_add hw p stepsLeft
  have hlt : ((s.workers.set w p).map stepsLeft).sum < (s.workers.map stepsLeft).sum := by omega
  exact Nat.add_lt_add_right hlt _

theorem next_closing (hs : Closing s) (h : s.next act = some s') : Closing s' := by
  have howned := next_owned hs.owned h
  have hreturned := next_returned hs.returned h
  have hnot : s.stop ≠ .running ∧ s.stop ≠ .signalled := by
    rcases hs.stopped with hstop | hstop <;> simp [hstop]
  cases next_step h with
  | closeStopCh hstop => exact absurd hstop hnot.1
  | closeQueue hstop => exact absurd hstop hnot.2
  | stopReturns => exact ⟨howned, .inr rfl, hs.closed, hreturned⟩
  | enqueue | dequeue =>
    exact ⟨howned, hs.stopped, by simpa [setWorker] using hs.closed, hreturned⟩
  | reenqueue =>
    refine ⟨howned, hs.stopped, ?_, hreturned⟩
    show (if _ then _ else _ : RequestQueue).closed = true
    split <;> simpa using hs.closed
  | cancel | poll | allowed | blocked | finish | send | drop | receive | monitor =>
    exact ⟨howned, hs.stopped, hs.closed, hreturned⟩

/-- A step of a worker, of `monitor` or of `Stop`. -/
theorem next_stopRank (hs : Closing s) (h : s.next act = some s') (hown : act.own = true) :
    stopRank s' < stopRank s := by
  have hnot : s.stop ≠ .running ∧ s.stop ≠ .signalled := by
    rcases hs.stopped with hstop | hstop <;> simp [hstop]
  cases next_step h with
  | poll hw => exact stopRank_setWorker hw (by simp [hnot.1, stepsLeft])
  | dequeue hw => exact stopRank_setWorker hw (afterDequeue_closed hs.owned.valid hs.closed)
  | allowed hw | blocked hw | finish hw | send hw | drop hw =>
    exact stopRank_setWorker hw (by simp [stepsLeft])
  | closeStopCh hstop => exact absurd hstop hnot.1
  | closeQueue hstop => exact absurd hstop hnot.2
  | stopReturns hstop => simp [stopRank, hstop]
  | monitor hmonitor =>
    rcases monitor_next_spec hmonitor with ⟨rfl, -⟩ | ⟨-, hlt⟩
    · cases hown
    · exact Nat.add_lt_add_left (Nat.add_lt_add_right hlt _) _
  | enqueue | cancel | receive | reenqueue => cases hown

theorem next_stopRank_other (h : s.next act = some s') (hown : act.own = false) :
    stopRank s' ≤ stopRank s + act.cost := by
  cases next_step h with
  | enqueue | cancel | receive | reenqueue => exact le_refl _
  | @monitor a p hmonitor =>
    rcases monitor_next_spec hmonitor with ⟨rfl, heq⟩ | ⟨hne, -⟩
    · simp only [stopRank, Action.cost, heq]
      omega
    · cases a with
      | tick => exact absurd rfl hne
      | report | stop => cases hown
  | _ => cases hown

/-- Every worker that has not exited can take a step: no other party is needed for it. -/
theorem worker_enabled (howned : Owned s) {w : Nat} {p : WorkerPhase} (hw : s.workers[w]? = some p)
    (hp : p ≠ .exited) : ∃ act, act.own = true ∧ (s.next act).isSome := by
  cases p with
  | exited => exact absurd rfl hp
  | polling => exact ⟨.poll w, rfl, by simp [next, hw]⟩
  | dequeuing => exact ⟨.dequeue w, rfl, by simp [next, hw]⟩
  | limiting r => exact ⟨.limit w true, rfl, by simp [next, hw]⟩
  | forwarding r => exact ⟨.finish w, rfl, by simp [next, hw]⟩
  | sending r =>
    -- the slot of the channel is free: this is the only result of the request
    have hfree : r.addr ∉ s.buffered := fun hb => howned.not_sent hw (howned.buffered_sent hb)
    exact ⟨.send w, rfl, by simp [next, hw, hfree]⟩

theorem closing_enabled (hs : Closing s) (hnot : s.stop ≠ .returned) :
    ∃ act, act.own = true ∧ (s.next act).isSome := by
  have hstop : s.stop = .closed := hs.stopped.resolve_right hnot
  by_cases hexited : ∀ p ∈ s.workers, p = .exited
  · by_cases hmonitor : s.monitor = .exited
    · exact ⟨.stopReturns, rfl, by rw [next, if_pos ⟨hstop, hexited, hmonitor⟩]; rfl⟩
    · have hnot' : s.stop ≠ .running := by simp [hstop]
      obtain ⟨a, hown, hsome⟩ := monitor_enabled hnot' hmonitor
      exact ⟨.monitor a, hown, by rwa [next, Option.isSome_map]⟩
  · push Not at hexited
    obtain ⟨p, hmem, hp⟩ := hexited
    obtain ⟨w, hw⟩ := List.mem_iff_getElem?.mp hmem
    exact worker_enabled hs.owned hw hp

theorem ranked_closing (max : Int) (count : Nat) :
    (system max count).Ranked Action.own Action.cost (·.stop = .returned) Closing stopRank where
  keeps _ _ _ hs h := next_closing hs h
  lowers _ _ _ hs h hown := next_stopRank hs h hown
  raises _ _ _ _ h hown := next_stopRank_other h hown
  enabled _ hs hnot := by
    obtain ⟨act, hown, hsome⟩ := closing_enabled hs hnot
    exact ⟨act, _, hown, Option.eq_some_of_isSome hsome⟩

theorem stopRank_le (s : Pool) : stopRank s ≤ 5 * s.workers.length + 3 := by
  have hsum := List.sum_le_card_nsmul (s.workers.map stepsLeft) 5 fun n hn => by
    obtain ⟨p, -, rfl⟩ := List.mem_map.mp hn
    cases p <;> simp [stepsLeft]
  rw [List.length_map, nsmul_eq_mul, Nat.cast_id] at hsum
  have hmonitor : monitorLeft s.monitor ≤ 2 := by cases s.monitor <;> simp [monitorLeft]
  rw [stopRank]
  split <;> omega

/-- The number of workers is that of `Start`, the queue is closed by `Stop`, and `Stop` returns when
all workers and `monitor` have exited. -/
structure Running (count : Nat) (s : Pool) : Prop where
  owned : Owned s
  workers : s.workers.length = count
  closed : s.stop = .closed ∨ s.stop = .returned → s.queue.closed = true
  returned : s.stop = .returned → ∀ p ∈ s.workers, p = .exited
  monitor : s.stop = .returned → s.monitor = .exited

theorem next_workers_length (h : s.next act = some s') : s'.workers.length = s.workers.length := by
  cases next_step h with
  | poll | dequeue | allowed | blocked | finish | send | drop => exact List.length_set
  | _ => rfl

theorem next_queue_closed (hs : s.stop = .closed ∨ s.stop = .returned → s.queue.closed = true)
    (h : s.next act = some s') (hstop : s'.stop = .closed ∨ s'.stop = .returned) :
    s'.queue.closed = true := by
  cases next_step h with
  | closeQueue => rfl
  | stopReturns hclosed => exact hs (.inl hclosed)
  | closeStopCh => simp at hstop
  | enqueue | dequeue => simpa [setWorker] using hs hstop
  | reenqueue =>
    show (if _ then _ else _ : RequestQueue).closed = true
    split <;> simpa using hs hstop
  | cancel | poll | allowed | blocked | finish | send | drop | receive | monitor => exact hs hstop

theorem next_monitor (hi : s.stop = .returned → s.monitor = .exited) (h : s.next act = some s')
    (hret : s'.stop = .returned) : s'.monitor = .exited := by
  cases next_step h with
  | stopReturns _ _ hmonitor => exact hmonitor
  | closeStopCh | closeQueue => cases hret
  | monitor hmonitor => simp [hi hret, MonitorPhase.next] at hmonitor
  | _ => exact hi hret

theorem reachable_running {max : Int} {count : Nat} {ok : Pool → Action → Prop}
    (h : (system max count).Reachable ok s) : Running count s := by
  apply h.invariant (Running count)
  · rintro _ ⟨done, rfl⟩
    exact ⟨start_owned max count done, by
      simp [start], by simp [start], by simp [start], by simp [start]⟩
  · intro s act s' _ hi _ hs
    exact ⟨next_owned hi.owned hs, (next_workers_length hs).trans hi.workers,
      next_queue_closed hi.closed hs, next_returned hi.returned hs, next_monitor hi.monitor hs⟩

/-- `Stop` returns: from the moment at which it has closed the queue of a pool of `count` workers,
the workers, `monitor` and `Stop` take at most `5 * count + 3` steps, and one for each tick that
`monitor` still takes, whatever the handlers and the goroutines do between them, and one of them can
take a step until `Stop` has returned. -/
theorem stop_returns (max : Int) (count : Nat) (h : (system max count).Reachable System.always s)
    (hstop : s.stop = .closed) :
    (system max count).Ends Action.own Action.cost (·.stop = .returned) (5 * count + 3) s := by
  have hs := reachable_running h
  have hclosing : Closing s := ⟨hs.owned, .inl hstop, hs.closed (.inl hstop), hs.returned⟩
  apply ((ranked_closing max count).ends hclosing).mono
  rw [← hs.workers]
  exact stopRank_le s

/-- Two workers, one with a request in its hands and one at the queue, and `monitor` in its report,
when `Stop` closes the queue. -/
theorem stop_returns_two_workers : ∃ s, (system 0 2).Reachable System.always s ∧
    s.workers = [.forwarding { addr := 1 }, .dequeuing] ∧ s.monitor = .reporting ∧
    ∃ actions s', (system 0 2).Run s actions s' ∧ s'.stop = .returned := by
  have hinit : (system 0 2).Reachable System.always (start 0 2 fun _ => false) := .init ⟨_, rfl⟩
  obtain ⟨s, hs, hworkers, hmonitor, hstop⟩ := hinit.exists_of_exec
    (fun s : Pool => s.workers = [.forwarding { addr := 1 }, .dequeuing] ∧ s.monitor = .reporting ∧
      s.stop = .closed)
    (System.admits_always _ [.enqueue { addr := 1 }, .poll 0, .poll 1, .dequeue 0, .limit 0 true,
      .monitor .tick, .closeStopCh, .closeQueue]) (by decide)
  have hfree (act : Action) (hown : act.own = true) : act.cost = 0 := by
    cases act with
    | monitor a => cases a <;> first | rfl | cases hown
    | _ => rfl
  obtain ⟨actions, s', hrun, -, hreturned⟩ := (stop_returns 0 2 hs hstop).reaches hfree
  exact ⟨s, hs, hworkers, hmonitor, actions, s', hrun, hreturned⟩

end Pool

end LlmProxy.Worker

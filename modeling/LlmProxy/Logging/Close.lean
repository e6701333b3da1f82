import LlmProxy.Logging.AsyncLogger
import LlmProxy.ProofKit.Progress

/-! `Close` of the logger returns.  Once `stopCh` is closed a worker drains its channel, inserts its
batch and exits.  What can hold it up is work that others bring: an entry that is logged in the
meantime, and a tick of the ticker, which the select may take in place of `stopCh`. -/

namespace LlmProxy.Logging

open ProofKit

/-- The steps that a worker with an empty channel has left once `stopCh` is closed. -/
def stepsLeft : WorkerPhase → Nat
  | .exited => 0
  | .lastFlush => 1
  | .draining => 2
  | .selecting => 3
  | .flushing => 4

namespace Pipe

variable {α : Type} {bufferSize early : Nat} {stopped : Bool} {p p' : Pipe α}

/-- An entry in the channel takes two steps: it is received, and may fill a batch that is
flushed. -/
def closeRank (p : Pipe α) : Nat := stepsLeft p.worker + 2 * p.chan.length

theorem closeRank_collect_le (early : Nat) (p : Pipe α) (x : α) :
    (p.collect early x).closeRank ≤ 4 + 2 * p.chan.length := by
  simp only [closeRank, collect]
  split <;> simp [stepsLeft]

theorem closeRank_log_le (bufferSize early : Nat) (p : Pipe α) (x : α) (parked : Bool) :
    (p.log bufferSize early x parked).closeRank ≤ p.closeRank + 2 := by
  unfold log
  split
  · simp only [closeRank, List.length_append, List.length_singleton]
    omega
  split
  · next hparked =>
    have hselecting : p.closeRank = 3 + 2 * p.chan.length := by
      simp [closeRank, hparked.2.1, stepsLeft]
    have := p.closeRank_collect_le early x
    show (p.collect early x).closeRank ≤ _
    omega
  · exact Nat.le_add_right _ _

theorem closeRank_insert (p : Pipe α) (xs : List α) : (p.insert xs).closeRank = p.closeRank := by
  cases xs <;> rfl

/-- A step of the worker, other than a tick. -/
theorem closeRank_work_lt {a : WorkerAction} (h : p.work early stopped a = some p')
    (ha : a ≠ .tick) :
    p'.closeRank < p.closeRank := by
  cases work_step h with
  | @collect x rest hworker hchan =>
    have := ({ p with chan := rest } : Pipe α).closeRank_collect_le early x
    have hbefore : p.closeRank = 3 + 2 * (rest.length + 1) := by
      simp [closeRank, hworker, hchan, stepsLeft]
    simp only at this
    omega
  | drain hworker hchan => simp [closeRank, hworker, hchan]
  | drained hworker hchan | stop hworker | flush hworker | lastFlush hworker =>
    cases hbatch : p.batch <;> simp [closeRank, hworker, stepsLeft, insert, hbatch]
  | tick hworker =>
    -- no other action of the worker leaves it like this
    cases a with
    | tick => exact absurd rfl ha
    | stop | flush => simp [work, hworker] at h
    | receive =>
      simp only [work, hworker] at h
      split at h <;> simp_all [collect]

theorem closeRank_tick_le (h : p.work early stopped .tick = some p') :
    p'.closeRank ≤ p.closeRank + 1 := by
  simp only [work] at h
  split at h
  · next hworker =>
    obtain rfl := Option.some.inj h
    simp [closeRank, hworker, stepsLeft]
    omega
  · cases h

/-- A worker that has not exited can take a step. -/
theorem work_enabled (early : Nat) (p : Pipe α) (h : p.worker ≠ .exited) :
    ∃ a, a ≠ .tick ∧ (p.work early true a).isSome := by
  cases hworker : p.worker with
  | exited => exact absurd hworker h
  | selecting => exact ⟨.stop, by simp, by simp [work, hworker]⟩
  | flushing => exact ⟨.flush, by simp, by simp [work, hworker]⟩
  | lastFlush => exact ⟨.flush, by simp, by simp [work, hworker]⟩
  | draining =>
    refine ⟨.receive, by simp, ?_⟩
    cases hchan : p.chan <;> simp [work, hworker, hchan]

end Pipe

namespace AsyncLogger

variable {ρ δ : Type} {bufferSize : Nat} {s s' : AsyncLogger ρ δ} {a : Action ρ δ}

/-- The steps of the two workers, but for the ticks. -/
def Action.own : Action ρ δ → Bool
  | .requestWorker .tick | .detailWorker .tick => false
  | .requestWorker _ | .detailWorker _ => true
  | _ => false

/-- The steps by which an action of others delays the workers at most. -/
def Action.cost : Action ρ δ → Nat
  | .asyncLog .. | .asyncLogDetail .. => 2
  | .requestWorker .tick | .detailWorker .tick => 1
  | _ => 0

def closeRank (s : AsyncLogger ρ δ) : Nat := s.reqs.closeRank + s.details.closeRank

/-- `wg.Wait` lets `Close` return. -/
def Returnable (s : AsyncLogger ρ δ) : Prop := s.reqs.worker = .exited ∧ s.details.worker = .exited

theorem closeRank_advance_le {reqs reqs' : Pipe ρ} {details details' : Pipe δ}
    {call call' : FlushCall ρ δ} (h : advance reqs details call = some (call', reqs', details')) :
    reqs'.closeRank + details'.closeRank ≤ reqs.closeRank + details.closeRank := by
  cases advance_cases h with
  | takeReq hchan | takeDetail hchan =>
    simp only [Pipe.closeRank, hchan, List.length_cons]
    omega
  | noReqs | noDetails => exact le_refl _
  | insertReqs | insertDetails => rw [Pipe.closeRank_insert]

theorem next_stopped (h : next bufferSize s a = some s') (hstopped : s.stopped = true) :
    s'.stopped = true := by
  cases a with
  | asyncLog | asyncLogDetail | flush | close =>
    obtain rfl := Option.some.inj h
    first | exact hstopped | rfl
  | requestWorker | detailWorker =>
    obtain ⟨_, -, rfl⟩ := Option.map_eq_some_iff.mp h
    exact hstopped
  | flushStep i =>
    obtain ⟨call, -, hstep⟩ := Option.bind_eq_some_iff.mp h
    obtain ⟨_, -, rfl⟩ := Option.map_eq_some_iff.mp hstep
    exact hstopped
  | closeReturn =>
    simp only [next] at h
    split at h
    · obtain rfl := Option.some.inj h
      exact hstopped
    · cases h

theorem closeRank_own_lt (h : next bufferSize s a = some s') (hown : a.own = true) :
    s'.closeRank < s.closeRank := by
  cases a with
  | requestWorker a =>
    obtain ⟨reqs, hwork, rfl⟩ := Option.map_eq_some_iff.mp h
    exact Nat.add_lt_add_right (Pipe.closeRank_work_lt hwork (by rintro rfl; cases hown)) _
  | detailWorker a =>
    obtain ⟨details, hwork, rfl⟩ := Option.map_eq_some_iff.mp h
    exact Nat.add_lt_add_left (Pipe.closeRank_work_lt hwork (by rintro rfl; cases hown)) _
  | asyncLog | asyncLogDetail | flush | flushStep | close | closeReturn => cases hown

theorem closeRank_other_le (h : next bufferSize s a = some s') (hown : a.own = false) :
    s'.closeRank ≤ s.closeRank + a.cost := by
  cases a with
  | asyncLog r parked =>
    obtain rfl := Option.some.inj h
    have := s.reqs.closeRank_log_le bufferSize earlyReqs r parked
    simp only [closeRank, Action.cost]
    omega
  | asyncLogDetail d parked =>
    obtain rfl := Option.some.inj h
    have := s.details.closeRank_log_le bufferSize earlyDetails d parked
    simp only [closeRank, Action.cost]
    omega
  | requestWorker a =>
    obtain ⟨reqs, hwork, rfl⟩ := Option.map_eq_some_iff.mp h
    cases a with
    | tick =>
      have := Pipe.closeRank_tick_le hwork
      simp only [closeRank, Action.cost]
      omega
    | receive | stop | flush => cases hown
  | detailWorker a =>
    obtain ⟨details, hwork, rfl⟩ := Option.map_eq_some_iff.mp h
    cases a with
    | tick =>
      have := Pipe.closeRank_tick_le hwork
      simp only [closeRank, Action.cost]
      omega
    | receive | stop | flush => cases hown
  | flushStep i =>
    obtain ⟨call, -, hstep⟩ := Option.bind_eq_some_iff.mp h
    obtain ⟨⟨call', reqs, details⟩, hadvance, rfl⟩ := Option.map_eq_some_iff.mp hstep
    exact closeRank_advance_le hadvance
  | flush | close =>
    obtain rfl := Option.some.inj h
    exact Nat.le_add_right _ _
  | closeReturn =>
    simp only [next] at h
    split at h
    · obtain rfl := Option.some.inj h
      exact Nat.le_add_right _ _
    · cases h

theorem worker_enabled (bufferSize : Nat) (hstopped : s.stopped = true) (hnot : ¬ s.Returnable) :
    ∃ a, a.own = true ∧ (next bufferSize s a).isSome := by
  by_cases hreqs : s.reqs.worker = .exited
  · obtain ⟨a, ha, hsome⟩ := s.details.work_enabled earlyDetails fun hdetails =>
      hnot ⟨hreqs, hdetails⟩
    refine ⟨.detailWorker a, by cases a <;> simp_all [Action.own], ?_⟩
    simpa [next, hstopped] using hsome
  · obtain ⟨a, ha, hsome⟩ := s.reqs.work_enabled earlyReqs hreqs
    refine ⟨.requestWorker a, by cases a <;> simp_all [Action.own], ?_⟩
    simpa [next, hstopped] using hsome

theorem ranked_close (ρ δ : Type) (bufferSize : Nat) :
    (system ρ δ bufferSize).Ranked Action.own Action.cost Returnable
      (·.stopped = true) closeRank where
  keeps _ _ _ hs h := next_stopped h hs
  lowers _ _ _ _ h hown := closeRank_own_lt h hown
  raises _ _ _ _ h hown := closeRank_other_le h hown
  enabled _ hs hnot := by
    obtain ⟨a, hown, hsome⟩ := worker_enabled bufferSize hs hnot
    exact ⟨a, _, hown, Option.eq_some_of_isSome hsome⟩

/-- `Close` returns: with `stopCh` closed, the workers take at most two steps for each entry in the
channels and eight more, and beyond that two for each entry that is logged meanwhile and one for
each tick; and one of them can take a step until `Close` can return. -/
theorem close_returns (hstopped : s.stopped = true) :
    (system ρ δ bufferSize).Ends Action.own Action.cost Returnable
      (2 * (s.reqs.chan.length + s.details.chan.length) + 8) s := by
  apply ((ranked_close ρ δ bufferSize).ends hstopped).mono
  have hphase (w : WorkerPhase) : stepsLeft w ≤ 4 := by cases w <;> simp [stepsLeft]
  have := hphase s.reqs.worker
  have := hphase s.details.worker
  simp only [closeRank, Pipe.closeRank]
  omega

/-- Two entries in the channel and one in the batch when `stopCh` is closed. -/
theorem close_returns_loaded :
    ∃ actions s', (system Nat Nat 4).Run
      { reqs := { chan := [2, 3], batch := [1], accepted := [1, 2, 3] }, stopped := true }
        actions s' ∧
      (next 4 s' .closeReturn).isSome := by
  obtain ⟨actions, s', hrun, -, hreturnable⟩ := (@close_returns Nat Nat 4
    { reqs := { chan := [2, 3], batch := [1], accepted := [1, 2, 3] }, stopped := true }
      rfl).reaches
    fun a hown => by
      cases a with
      | requestWorker a | detailWorker a => cases a <;> first | rfl | cases hown
      | _ => first | rfl | cases hown
  have hstopped : s'.stopped = true :=
    hrun.invariant (fun s : AsyncLogger Nat Nat => s.stopped = true)
      (fun _ _ _ hs h => next_stopped h hs) rfl
  exact ⟨actions, s', hrun, by simp [next, hstopped, hreturnable.1, hreturnable.2]⟩

end AsyncLogger

end LlmProxy.Logging

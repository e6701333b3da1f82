import Mathlib.Data.List.Perm.Basic

/-! One tier of `AsyncLogger`: a buffered channel, and the worker that collects what it receives in
a batch and passes the batch to the database.  `runRequestWorker` and `runDetailWorker` differ in
the size of a batch that is flushed early. -/

namespace LlmProxy.Logging

/-- Where the worker is: at its select, in `flush` after it, in the loop that drains the channel
after `stopCh` is closed, in the last `flush`, or past its return. -/
inductive WorkerPhase
  | selecting
  | flushing
  | draining
  | lastFlush
  | exited
  deriving DecidableEq

/-- The channel, the batch and the phase of the worker.  The rest is history: what the channel has
accepted, what was dropped and how much the channel held at that time, and the lists that were
passed to the bulk insert. -/
structure Pipe (α : Type) where
  chan : List α := []
  batch : List α := []
  worker : WorkerPhase := .selecting
  accepted : List α := []
  dropped : List (α × Nat) := []
  inserted : List (List α) := []
  deriving DecidableEq

/-- What the worker can do next: receive from the channel, or find that it is empty while it drains
it; take the tick of the ticker; see that `stopCh` is closed; and call `flush`. -/
inductive WorkerAction
  | receive
  | tick
  | stop
  | flush

namespace Pipe

variable {α : Type}

/-- An entry that the worker has received in its select. -/
def collect (early : Nat) (p : Pipe α) (x : α) : Pipe α :=
  { p with
    batch := p.batch ++ [x]
    worker := if early ≤ (p.batch ++ [x]).length then .flushing else .selecting }

/-- `AsyncLog` and `AsyncLogDetail`.  A channel without a buffer takes an entry only if the worker
is `parked` at its select: the other receivers never wait. -/
def log (bufferSize early : Nat) (p : Pipe α) (x : α) (parked : Bool) : Pipe α :=
  if p.chan.length < bufferSize then
    { p with chan := p.chan ++ [x], accepted := p.accepted ++ [x] }
  else if bufferSize = 0 ∧ p.worker = .selecting ∧ parked = true then
    { p.collect early x with accepted := p.accepted ++ [x] }
  else { p with dropped := p.dropped ++ [(x, p.chan.length)] }

/-- The bulk insert, which is not called for an empty list. -/
def insert (p : Pipe α) (xs : List α) : Pipe α :=
  match xs with
  | [] => p
  | x :: rest => { p with inserted := p.inserted ++ [x :: rest] }

/-- A step of the worker; `stopped` tells whether `stopCh` is closed. -/
def work (early : Nat) (stopped : Bool) (p : Pipe α) : WorkerAction → Option (Pipe α)
  | .receive =>
    match p.worker, p.chan with
    | .selecting, x :: rest => some ({ p with chan := rest }.collect early x)
    | .draining, x :: rest => some { p with chan := rest, batch := p.batch ++ [x] }
    | .draining, [] => some { p with worker := .lastFlush }
    | _, _ => none
  | .tick => if p.worker = .selecting then some { p with worker := .flushing } else none
  | .stop =>
    if p.worker = .selecting ∧ stopped = true then some { p with worker := .draining } else none
  | .flush =>
    -- the insert is over when the worker cuts its slice back to `batch[:0]` and appends to it again
    match p.worker with
    | .flushing => some { p.insert p.batch with batch := [], worker := .selecting }
    | .lastFlush => some { p.insert p.batch with batch := [], worker := .exited }
    | _ => none

/-- What a step of the worker does, with one case for each way in which `work` succeeds. -/
inductive WorkStep (early : Nat) (stopped : Bool) (p : Pipe α) : Pipe α → Prop
  | collect {x : α} {rest : List α} (hworker : p.worker = .selecting) (hchan : p.chan = x :: rest) :
      WorkStep early stopped p ({ p with chan := rest }.collect early x)
  | drain {x : α} {rest : List α} (hworker : p.worker = .draining) (hchan : p.chan = x :: rest) :
      WorkStep early stopped p { p with chan := rest, batch := p.batch ++ [x] }
  | drained (hworker : p.worker = .draining) (hchan : p.chan = []) :
      WorkStep early stopped p { p with worker := .lastFlush }
  | tick (hworker : p.worker = .selecting) : WorkStep early stopped p { p with worker := .flushing }
  | stop (hworker : p.worker = .selecting) (hstopped : stopped = true) :
      WorkStep early stopped p { p with worker := .draining }
  | flush (hworker : p.worker = .flushing) :
      WorkStep early stopped p { p.insert p.batch with batch := [], worker := .selecting }
  | lastFlush (hworker : p.worker = .lastFlush) :
      WorkStep early stopped p { p.insert p.batch with batch := [], worker := .exited }

theorem work_step {early : Nat} {stopped : Bool} {p p' : Pipe α} {a : WorkerAction}
    (h : p.work early stopped a = some p') : WorkStep early stopped p p' := by
  cases a with
  | receive =>
    simp only [work] at h
    split at h
    · next hworker hchan =>
      obtain rfl := Option.some.inj h
      exact .collect hworker hchan
    · next hworker hchan =>
      obtain rfl := Option.some.inj h
      exact .drain hworker hchan
    · next hworker hchan =>
      obtain rfl := Option.some.inj h
      exact .drained hworker hchan
    · cases h
  | tick =>
    simp only [work] at h
    split at h
    · next hworker =>
      obtain rfl := Option.some.inj h
      exact .tick hworker
    · cases h
  | stop =>
    simp only [work] at h
    split at h
    · next hstop =>
      obtain rfl := Option.some.inj h
      exact .stop hstop.1 hstop.2
    · cases h
  | flush =>
    simp only [work] at h
    split at h
    · next hworker =>
      obtain rfl := Option.some.inj h
      exact .flush hworker
    · next hworker =>
      obtain rfl := Option.some.inj h
      exact .lastFlush hworker
    · cases h

/-! ### Where the entries are -/

/-- The accepted entries that no bulk insert has got yet, with what the running calls of `Flush`
hold. -/
def waiting (p : Pipe α) (held : List α) : List α := p.chan ++ p.batch ++ held

/-- The places of accepted entries. -/
def places (p : Pipe α) (held : List α) : List α :=
  p.chan ++ p.batch ++ held ++ p.inserted.flatten

/-- What the phase of the worker tells: from the draining on `stopCh` is closed, after it the
channel is empty, and a worker that has returned has an empty batch. -/
def Drained (stopped : Bool) (p : Pipe α) : Prop :=
  match p.worker with
  | .selecting | .flushing => True
  | .draining => stopped = true
  | .lastFlush => stopped = true ∧ p.chan = []
  | .exited => stopped = true ∧ p.chan = [] ∧ p.batch = []

/-- Every accepted entry is in one place, and entries are dropped by a full channel only. -/
structure Kept (bufferSize : Nat) (p : Pipe α) (held : List α) : Prop where
  accounted : p.accepted.Perm (p.places held)
  bounded : p.chan.length ≤ bufferSize
  full : ∀ d ∈ p.dropped, d.2 = bufferSize

variable {bufferSize early : Nat} {stopped : Bool} {p p' : Pipe α} {held held' xs rest : List α}
  {x : α}
  {worker : WorkerPhase}

/-- An operation that adds to the places what it adds to the accepted entries. -/
theorem accounted_of_count (h : p.accepted.Perm (p.places held))
    (hcount : ∀ (_ : DecidableEq α) (y : α), p'.accepted.count y + (p.places held).count y =
      p.accepted.count y + (p'.places held').count y) :
    p'.accepted.Perm (p'.places held') := by
  classical
  rw [List.perm_iff_count] at h ⊢
  intro y
  have := h y
  have := hcount inferInstance y
  omega

theorem Kept.empty (bufferSize : Nat) : Kept bufferSize ({} : Pipe α) [] where
  accounted := .refl []
  bounded := Nat.zero_le _
  full _ hd := absurd hd List.not_mem_nil

theorem Kept.congr (h : Kept bufferSize p held) (hheld : held.Perm held') :
    Kept bufferSize p held' :=
  { h with accounted := h.accounted.trans ((hheld.append_left _).append_right _) }

/-! ### What keeps them there -/

theorem length_le_of_cons (h : p.chan.length ≤ bufferSize) (hchan : p.chan = x :: rest) :
    rest.length ≤ bufferSize := by
  rw [hchan, List.length_cons] at h
  omega

/-- The worker receives an entry. -/
theorem Kept.receive (h : Kept bufferSize p held) (hchan : p.chan = x :: rest) :
    Kept bufferSize { p with chan := rest, batch := p.batch ++ [x], worker } held where
  accounted := accounted_of_count h.accounted fun _ y => by
    simp only [places, hchan, List.count_append, List.count_cons, List.count_nil]
    omega
  bounded := length_le_of_cons h.bounded hchan
  full := h.full

/-- `AsyncLog`, at any time. -/
theorem Kept.log (h : Kept bufferSize p held) (x : α) (parked : Bool) :
    Kept bufferSize (p.log bufferSize early x parked) held := by
  unfold Pipe.log
  split
  · next hroom =>
    refine ⟨?_, ?_, h.full⟩
    · refine accounted_of_count h.accounted fun _ y => ?_
      simp only [places, List.count_append]
      omega
    · simp only [List.length_append, List.length_singleton]
      omega
  · split
    · next hzero =>
      refine ⟨?_, h.bounded, h.full⟩
      refine accounted_of_count h.accounted fun _ y => ?_
      simp only [places, collect, List.count_append]
      omega
    · next hfull _ =>
      refine ⟨h.accounted, h.bounded, fun d hd => ?_⟩
      rcases List.mem_append.mp hd with hd | hd
      · exact h.full d hd
      · have := h.bounded
        rw [List.mem_singleton.mp hd]
        show p.chan.length = bufferSize
        omega

/-- A call of `Flush` receives an entry. -/
theorem Kept.take (h : Kept bufferSize p (xs ++ held)) (hchan : p.chan = x :: rest) :
    Kept bufferSize { p with chan := rest } ((xs ++ [x]) ++ held) where
  accounted := accounted_of_count h.accounted fun _ y => by
    simp only [places, hchan, List.count_append, List.count_cons, List.count_nil]
    omega
  bounded := length_le_of_cons h.bounded hchan
  full := h.full

/-- The bulk insert changes nothing but the history of bulk inserts. -/
theorem insert_frame (p : Pipe α) (xs : List α) :
    (p.insert xs).accepted = p.accepted ∧ (p.insert xs).chan = p.chan ∧
      (p.insert xs).batch = p.batch ∧ (p.insert xs).dropped = p.dropped ∧
      (p.insert xs).worker = p.worker := by
  cases xs <;> exact ⟨rfl, rfl, rfl, rfl, rfl⟩

/-- The bulk insert of entries that were held. -/
theorem Kept.insert (h : Kept bufferSize p (xs ++ held)) : Kept bufferSize (p.insert xs) held := by
  have hinsert : (p.insert xs).inserted.flatten = p.inserted.flatten ++ xs := by
    cases xs <;> simp [Pipe.insert]
  obtain ⟨haccepted, hchan, hbatch, hdropped, -⟩ := p.insert_frame xs
  refine ⟨accounted_of_count h.accounted fun _ y => ?_, hchan ▸ h.bounded, hdropped ▸ h.full⟩
  simp only [places, hinsert, haccepted, hchan, hbatch, List.count_append]
  omega

/-- The worker passes its batch to the bulk insert. -/
theorem Kept.flush (h : Kept bufferSize p held) :
    Kept bufferSize { p.insert p.batch with batch := [], worker } held := by
  have hbefore : Kept bufferSize { p with batch := [], worker } (p.batch ++ held) :=
    { h with
      accounted := accounted_of_count h.accounted fun _ y => by
        simp only [places, List.count_append, List.count_nil]
        omega }
  have hsame : { p.insert p.batch with batch := [], worker } =
      ({ p with batch := [], worker } : Pipe α).insert p.batch := by
    cases p.batch <;> rfl
  rw [hsame]
  exact hbefore.insert

/-- A step of the worker. -/
theorem Kept.work (h : Kept bufferSize p held) {a : WorkerAction}
    (hwork : p.work early stopped a = some p') : Kept bufferSize p' held := by
  cases work_step hwork with
  | collect _ hchan | drain _ hchan => exact h.receive hchan
  | drained | tick | stop => exact ⟨h.accounted, h.bounded, h.full⟩
  | flush | lastFlush => exact h.flush

/-! ### What the worker leaves behind -/

theorem Drained.of_open (h : p.Drained false) : p.worker = .selecting ∨ p.worker = .flushing := by
  unfold Drained at h
  cases hw : p.worker <;> simp [hw] at h ⊢

theorem Drained.close (h : p.Drained stopped) : p.Drained true := by
  unfold Drained at *
  cases hw : p.worker <;> simp_all

theorem collect_drained (early : Nat) (stopped : Bool) (p : Pipe α) (x : α) :
    (p.collect early x).Drained stopped := by
  by_cases hearly : early ≤ p.batch.length + 1 <;> simp [Drained, collect, hearly]

/-- `AsyncLog` before `Close` has begun. -/
theorem Drained.log (h : p.Drained stopped) (hstopped : stopped = false) (x : α) (parked : Bool) :
    (p.log bufferSize early x parked).Drained stopped := by
  subst hstopped
  unfold Pipe.log
  split
  · rcases h.of_open with hw | hw <;> simp [Drained, hw]
  split
  · exact collect_drained ..
  · exact h

theorem Drained.take (h : p.Drained stopped) (hchan : p.chan = x :: rest) :
    Drained stopped { p with chan := rest } := by
  unfold Drained at *
  cases hw : p.worker <;> simp_all

theorem Drained.insert (h : p.Drained stopped) (xs : List α) : (p.insert xs).Drained stopped := by
  obtain ⟨-, hchan, hbatch, -, hworker⟩ := p.insert_frame xs
  unfold Drained at *
  rwa [hworker, hchan, hbatch]

theorem Drained.work (h : p.Drained stopped) {a : WorkerAction}
    (hwork : p.work early stopped a = some p') : p'.Drained stopped := by
  cases work_step hwork with
  | collect => exact collect_drained ..
  | drain hworker | drained hworker hchan => simpa [Drained, *] using h
  | tick | flush => trivial
  | stop _ hstopped => exact hstopped
  | lastFlush hworker =>
    simp only [Drained, hworker] at h
    obtain ⟨-, hchan, -⟩ := p.insert_frame p.batch
    exact ⟨h.1, hchan.trans h.2, rfl⟩

end Pipe

end LlmProxy.Logging

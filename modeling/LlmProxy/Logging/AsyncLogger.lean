import LlmProxy.Logging.Pipe
import LlmProxy.ProofKit.Counting
import LlmProxy.ProofKit.System

/-! `AsyncLogger`: the pipes of the request logs and of the detail logs, calls of `Flush`, which
drain both channels beside the workers, and `Close`.  A state is what all of them have done so far,
in any interleaving. -/

namespace LlmProxy.Logging

open ProofKit

/-- A call of `Flush`, with its local lists. -/
inductive FlushCall (ρ δ : Type)
  | drainReqs (reqs : List ρ)
  | insertReqs (reqs : List ρ)
  | drainDetails (details : List δ)
  | insertDetails (details : List δ)
  | returned
  deriving DecidableEq

namespace FlushCall

variable {ρ δ : Type}

/-- The request logs that the call holds. -/
def reqs : FlushCall ρ δ → List ρ
  | drainReqs reqs | insertReqs reqs => reqs
  | _ => []

def details : FlushCall ρ δ → List δ
  | drainDetails details | insertDetails details => details
  | _ => []

end FlushCall

/-- The sizes of a batch that a worker flushes early. -/
def earlyReqs : Nat := 256

def earlyDetails : Nat := 64

structure AsyncLogger (ρ δ : Type) where
  reqs : Pipe ρ := {}
  details : Pipe δ := {}
  flushes : List (FlushCall ρ δ) := []
  /-- `stopCh` is closed. -/
  stopped : Bool := false
  /-- `Close` has returned. -/
  closed : Bool := false
  deriving DecidableEq

namespace AsyncLogger

variable {ρ δ : Type}

inductive Action (ρ δ : Type)
  | asyncLog (r : ρ) (parked : Bool)
  | asyncLogDetail (d : δ) (parked : Bool)
  | requestWorker (a : WorkerAction)
  | detailWorker (a : WorkerAction)
  | flush
  | flushStep (i : Nat)
  | close
  | closeReturn

/-- A step of a call of `Flush`: its new state, and the pipes. -/
def advance (reqs : Pipe ρ) (details : Pipe δ) :
    FlushCall ρ δ → Option (FlushCall ρ δ × Pipe ρ × Pipe δ)
  | .drainReqs taken =>
    match reqs.chan with
    | r :: rest => some (.drainReqs (taken ++ [r]), { reqs with chan := rest }, details)
    | [] => some (.insertReqs taken, reqs, details)
  | .insertReqs taken => some (.drainDetails [], reqs.insert taken, details)
  | .drainDetails taken =>
    match details.chan with
    | d :: rest => some (.drainDetails (taken ++ [d]), reqs, { details with chan := rest })
    | [] => some (.insertDetails taken, reqs, details)
  | .insertDetails taken => some (.returned, reqs, details.insert taken)
  | .returned => none

def next (bufferSize : Nat) (s : AsyncLogger ρ δ) : Action ρ δ → Option (AsyncLogger ρ δ)
  | .asyncLog r parked => some { s with reqs := s.reqs.log bufferSize earlyReqs r parked }
  | .asyncLogDetail d parked =>
    some { s with details := s.details.log bufferSize earlyDetails d parked }
  | .requestWorker a => (s.reqs.work earlyReqs s.stopped a).map fun reqs => { s with reqs }
  | .detailWorker a =>
    (s.details.work earlyDetails s.stopped a).map fun details => { s with details }
  | .flush => some { s with flushes := s.flushes ++ [.drainReqs []] }
  | .flushStep i =>
    s.flushes[i]?.bind fun call => (advance s.reqs s.details call).map fun (call, reqs, details) =>
      { s with reqs, details, flushes := s.flushes.set i call }
  | .close => some { s with stopped := true }
  | .closeReturn =>
    if s.stopped = true ∧ s.reqs.worker = .exited ∧ s.details.worker = .exited then
      some { s with closed := true }
    else none

def system (ρ δ : Type) (bufferSize : Nat) : System (AsyncLogger ρ δ) (Action ρ δ) :=
  .ofNext (· = {}) (next bufferSize)

/-- Nothing is logged once `Close` has begun, and every call of `Flush` returns before `Close`
does. -/
def Orderly (s : AsyncLogger ρ δ) : Action ρ δ → Prop
  | .asyncLog .. | .asyncLogDetail .. => s.stopped = false
  | .flush => s.closed = false
  | .closeReturn => ∀ call ∈ s.flushes, call = .returned
  | _ => True

instance [DecidableEq ρ] [DecidableEq δ] (s : AsyncLogger ρ δ) :
    (a : Action ρ δ) → Decidable (Orderly s a)
  | .asyncLog .. | .asyncLogDetail .. => inferInstanceAs (Decidable (s.stopped = false))
  | .flush => inferInstanceAs (Decidable (s.closed = false))
  | .closeReturn => inferInstanceAs (Decidable (∀ call ∈ s.flushes, call = .returned))
  | .requestWorker _ | .detailWorker _ | .flushStep _ | .close => instDecidableTrue

/-- The accepted entries that no bulk insert has got. -/
def waitingReqs (s : AsyncLogger ρ δ) : List ρ := s.reqs.waiting (s.flushes.flatMap FlushCall.reqs)

def waitingDetails (s : AsyncLogger ρ δ) : List δ :=
  s.details.waiting (s.flushes.flatMap FlushCall.details)

/-! ### Every interleaving -/

/-- What holds in every run, also in one that logs or flushes after `Close`. -/
structure Kept (bufferSize : Nat) (s : AsyncLogger ρ δ) : Prop where
  reqs : s.reqs.Kept bufferSize (s.flushes.flatMap FlushCall.reqs)
  details : s.details.Kept bufferSize (s.flushes.flatMap FlushCall.details)

/-- What an orderly run has besides. -/
structure Sound (bufferSize : Nat) (s : AsyncLogger ρ δ) : Prop extends Kept bufferSize s where
  reqs_drained : s.reqs.Drained s.stopped
  details_drained : s.details.Drained s.stopped
  closed : s.closed = true → s.reqs.worker = .exited ∧ s.details.worker = .exited ∧
    ∀ call ∈ s.flushes, call = .returned

variable {bufferSize : Nat} {s s' : AsyncLogger ρ δ} {a : Action ρ δ}

/-- What a step of a call of `Flush` does, with one case for each way in which `advance`
succeeds. -/
inductive Advance (reqs : Pipe ρ) (details : Pipe δ) :
    FlushCall ρ δ → FlushCall ρ δ → Pipe ρ → Pipe δ → Prop
  | takeReq {taken rest : List ρ} {r : ρ} (hchan : reqs.chan = r :: rest) :
      Advance reqs details (.drainReqs taken)
        (.drainReqs (taken ++ [r])) { reqs with chan := rest } details
  | noReqs {taken : List ρ} (hchan : reqs.chan = []) :
      Advance reqs details (.drainReqs taken) (.insertReqs taken) reqs details
  | insertReqs {taken : List ρ} :
      Advance reqs details (.insertReqs taken) (.drainDetails []) (reqs.insert taken) details
  | takeDetail {taken rest : List δ} {d : δ} (hchan : details.chan = d :: rest) :
      Advance reqs details (.drainDetails taken) (.drainDetails (taken ++ [d])) reqs
        { details with chan := rest }
  | noDetails {taken : List δ} (hchan : details.chan = []) :
      Advance reqs details (.drainDetails taken) (.insertDetails taken) reqs details
  | insertDetails {taken : List δ} :
      Advance reqs details (.insertDetails taken) .returned reqs (details.insert taken)

section Advance

variable {reqs reqs' : Pipe ρ} {details details' : Pipe δ} {call call' : FlushCall ρ δ}

theorem advance_cases (h : advance reqs details call = some (call', reqs', details')) :
    Advance reqs details call call' reqs' details' := by
  cases call with
  | drainReqs taken =>
    simp only [advance] at h
    split at h
    · next hchan =>
      obtain ⟨rfl, rfl, rfl⟩ := by simpa using h
      exact .takeReq hchan
    · next hchan =>
      obtain ⟨rfl, rfl, rfl⟩ := by simpa using h
      exact .noReqs hchan
  | insertReqs taken =>
    obtain ⟨rfl, rfl, rfl⟩ := by simpa [advance] using h
    exact .insertReqs
  | drainDetails taken =>
    simp only [advance] at h
    split at h
    · next hchan =>
      obtain ⟨rfl, rfl, rfl⟩ := by simpa using h
      exact .takeDetail hchan
    · next hchan =>
      obtain ⟨rfl, rfl, rfl⟩ := by simpa using h
      exact .noDetails hchan
  | insertDetails taken =>
    obtain ⟨rfl, rfl, rfl⟩ := by simpa [advance] using h
    exact .insertDetails
  | returned => simp [advance] at h

/-- A step of a call of `Flush`, beside what the other calls hold. -/
theorem advance_kept {others : List ρ} {others' : List δ}
    (hadvance : advance reqs details call = some (call', reqs', details'))
    (hreqs : reqs.Kept bufferSize (call.reqs ++ others))
    (hdetails : details.Kept bufferSize (call.details ++ others')) :
    reqs'.Kept bufferSize (call'.reqs ++ others) ∧
      details'.Kept bufferSize (call'.details ++ others') := by
  cases advance_cases hadvance with
  | takeReq hchan => exact ⟨hreqs.take hchan, hdetails⟩
  | takeDetail hchan => exact ⟨hreqs, hdetails.take hchan⟩
  | noReqs | noDetails => exact ⟨hreqs, hdetails⟩
  | insertReqs => exact ⟨hreqs.insert, hdetails⟩
  | insertDetails => exact ⟨hreqs, hdetails.insert⟩

theorem advance_drained {stopped : Bool}
    (hadvance : advance reqs details call = some (call', reqs', details'))
    (hreqs : reqs.Drained stopped) (hdetails : details.Drained stopped) :
    reqs'.Drained stopped ∧ details'.Drained stopped := by
  cases advance_cases hadvance with
  | takeReq hchan => exact ⟨hreqs.take hchan, hdetails⟩
  | takeDetail hchan => exact ⟨hreqs, hdetails.take hchan⟩
  | noReqs | noDetails => exact ⟨hreqs, hdetails⟩
  | insertReqs => exact ⟨hreqs.insert _, hdetails⟩
  | insertDetails => exact ⟨hreqs, hdetails.insert _⟩

end Advance

theorem exited_of_work {α : Type} {early : Nat} {stopped : Bool} {p p' : Pipe α} {a : WorkerAction}
    (h : p.work early stopped a = some p') : p.worker ≠ .exited := by
  intro hexited
  cases Pipe.work_step h <;> simp_all

theorem next_kept (h : Kept bufferSize s) (hnext : next bufferSize s a = some s') :
    Kept bufferSize s' := by
  cases a with
  | asyncLog r parked =>
    obtain rfl := Option.some.inj hnext
    exact ⟨h.reqs.log r parked, h.details⟩
  | asyncLogDetail d parked =>
    obtain rfl := Option.some.inj hnext
    exact ⟨h.reqs, h.details.log d parked⟩
  | requestWorker a =>
    obtain ⟨reqs, hwork, rfl⟩ := Option.map_eq_some_iff.mp hnext
    exact ⟨h.reqs.work hwork, h.details⟩
  | detailWorker a =>
    obtain ⟨details, hwork, rfl⟩ := Option.map_eq_some_iff.mp hnext
    exact ⟨h.reqs, h.details.work hwork⟩
  | flush =>
    obtain rfl := Option.some.inj hnext
    exact ⟨by simpa [FlushCall.reqs] using h.reqs, by simpa [FlushCall.details] using h.details⟩
  | flushStep i =>
    obtain ⟨call, hcall, hstep⟩ := Option.bind_eq_some_iff.mp hnext
    obtain ⟨⟨call', reqs, details⟩, hadvance, rfl⟩ := Option.map_eq_some_iff.mp hstep
    have hi : i < s.flushes.length := (List.getElem?_eq_some_iff.mp hcall).1
    obtain ⟨hreqs, hdetails⟩ := advance_kept hadvance
      (h.reqs.congr (flatMap_perm_eraseIdx _ hcall))
        (h.details.congr (flatMap_perm_eraseIdx _ hcall))
    exact ⟨hreqs.congr (flatMap_set_perm _ hi call').symm,
      hdetails.congr (flatMap_set_perm _ hi call').symm⟩
  | close =>
    obtain rfl := Option.some.inj hnext
    exact ⟨h.reqs, h.details⟩
  | closeReturn =>
    simp only [next] at hnext
    split at hnext
    · obtain rfl := Option.some.inj hnext
      exact ⟨h.reqs, h.details⟩
    · cases hnext

theorem start_kept (bufferSize : Nat) : Kept bufferSize ({} : AsyncLogger ρ δ) :=
  ⟨.empty bufferSize, .empty bufferSize⟩

theorem reachable_kept {ok : AsyncLogger ρ δ → Action ρ δ → Prop}
    (h : (system ρ δ bufferSize).Reachable ok s) : Kept bufferSize s := by
  apply h.invariant (Kept bufferSize)
  · rintro _ rfl
    exact start_kept bufferSize
  · intro s a s' _ hs _ hstep
    exact next_kept hs hstep

theorem Sound.open_of (h : Sound bufferSize s) (hstopped : s.stopped = false) :
    s.closed = false := by
  cases hclosed : s.closed with
  | false => rfl
  | true =>
    have := h.reqs_drained
    simp [Pipe.Drained, (h.closed hclosed).1, hstopped] at this

theorem next_sound (h : Sound bufferSize s) (hok : Orderly s a)
    (hnext : next bufferSize s a = some s') :
    Sound bufferSize s' := by
  have hkept := next_kept h.toKept hnext
  cases a with
  | asyncLog r parked =>
    obtain rfl := Option.some.inj hnext
    have hopen : s.closed = false := h.open_of hok
    exact ⟨hkept, h.reqs_drained.log hok r parked, h.details_drained,
      fun hclosed => by simp [hopen] at hclosed⟩
  | asyncLogDetail d parked =>
    obtain rfl := Option.some.inj hnext
    have hopen : s.closed = false := h.open_of hok
    exact ⟨hkept, h.reqs_drained, h.details_drained.log hok d parked,
      fun hclosed => by simp [hopen] at hclosed⟩
  | requestWorker a =>
    obtain ⟨reqs, hwork, rfl⟩ := Option.map_eq_some_iff.mp hnext
    exact ⟨hkept, h.reqs_drained.work hwork, h.details_drained,
      fun hclosed => absurd (h.closed hclosed).1 (exited_of_work hwork)⟩
  | detailWorker a =>
    obtain ⟨details, hwork, rfl⟩ := Option.map_eq_some_iff.mp hnext
    exact ⟨hkept, h.reqs_drained, h.details_drained.work hwork,
      fun hclosed => absurd (h.closed hclosed).2.1 (exited_of_work hwork)⟩
  | flush =>
    obtain rfl := Option.some.inj hnext
    have hopen : s.closed = false := hok
    exact ⟨hkept, h.reqs_drained, h.details_drained, fun hclosed => by simp [hopen] at hclosed⟩
  | flushStep i =>
    obtain ⟨call, hcall, hstep⟩ := Option.bind_eq_some_iff.mp hnext
    obtain ⟨⟨call', reqs, details⟩, hadvance, rfl⟩ := Option.map_eq_some_iff.mp hstep
    obtain ⟨hreqs, hdetails⟩ := advance_drained hadvance h.reqs_drained h.details_drained
    refine ⟨hkept, hreqs, hdetails, fun hclosed => ?_⟩
    -- a call that has returned takes no step
    have hreturned : call = .returned := (h.closed hclosed).2.2 call (List.mem_of_getElem? hcall)
    simp [hreturned, advance] at hadvance
  | close =>
    obtain rfl := Option.some.inj hnext
    exact ⟨hkept, h.reqs_drained.close, h.details_drained.close, h.closed⟩
  | closeReturn =>
    simp only [next] at hnext
    split at hnext
    · next hexited =>
      obtain rfl := Option.some.inj hnext
      exact ⟨hkept, h.reqs_drained, h.details_drained, fun _ => ⟨hexited.2.1, hexited.2.2, hok⟩⟩
    · cases hnext

theorem start_sound (bufferSize : Nat) : Sound bufferSize ({} : AsyncLogger ρ δ) :=
  ⟨start_kept bufferSize, trivial, trivial, fun hclosed => by cases hclosed⟩

theorem reachable_sound (h : (system ρ δ bufferSize).Reachable Orderly s) : Sound bufferSize s := by
  apply h.invariant (Sound bufferSize)
  · rintro _ rfl
    exact start_sound bufferSize
  · intro s a s' _ hs hok hstep
    exact next_sound hs hok hstep

/-! ### After `Close` -/

theorem waiting_of_drained {α : Type} {p : Pipe α} {stopped : Bool} {held : List α}
    (h : p.Drained stopped) (hworker : p.worker = .exited) (hheld : held = []) :
    p.waiting held = [] := by
  simp only [Pipe.Drained, hworker] at h
  simp [Pipe.waiting, h, hheld]

theorem flatMap_returned {β : Type} {calls : List (FlushCall ρ δ)} {held : FlushCall ρ δ → List β}
    (hheld : held .returned = []) (h : ∀ call ∈ calls, call = .returned) :
    calls.flatMap held = [] := by
  refine List.flatMap_eq_nil_iff.mpr fun call hcall => ?_
  rw [h call hcall, hheld]

/-- When `Close` has returned, the bulk insert has got every accepted entry. -/
theorem Sound.none_waiting (h : Sound bufferSize s) (hclosed : s.closed = true) :
    s.waitingReqs = [] ∧ s.waitingDetails = [] := by
  obtain ⟨hreqs, hdetails, hflushes⟩ := h.closed hclosed
  exact ⟨waiting_of_drained h.reqs_drained hreqs (flatMap_returned rfl hflushes),
    waiting_of_drained h.details_drained hdetails (flatMap_returned rfl hflushes)⟩

/-- What a pipe owes to the callers, with what the running calls of `Flush` hold: every accepted
entry is in exactly one of the channel, the batch, these calls and the lists passed to the bulk
insert; an entry was dropped only when the channel was full; and after `Close` the bulk insert has
got every entry. -/
structure Conserved {α : Type} (bufferSize : Nat) (p : Pipe α) (held : List α) (closed : Bool) :
    Prop where
  accounted : p.accepted.Perm (p.chan ++ p.batch ++ held ++ p.inserted.flatten)
  dropped : ∀ d ∈ p.dropped, d.2 = bufferSize
  inserted : closed = true → p.accepted.Perm p.inserted.flatten

theorem conserved_of_kept {α : Type} {p : Pipe α} {held : List α} {closed : Bool}
    (h : p.Kept bufferSize held) (hclosed : closed = true → p.waiting held = []) :
    Conserved bufferSize p held closed where
  accounted := h.accounted
  dropped := h.full
  inserted hc := by
    have haccounted : p.accepted.Perm (p.waiting held ++ p.inserted.flatten) := h.accounted
    rwa [hclosed hc, List.nil_append] at haccounted

theorem Sound.reqs_conserved (h : Sound bufferSize s) :
    Conserved bufferSize s.reqs (s.flushes.flatMap FlushCall.reqs) s.closed :=
  conserved_of_kept h.reqs fun hclosed => (h.none_waiting hclosed).1

theorem Sound.details_conserved (h : Sound bufferSize s) :
    Conserved bufferSize s.details (s.flushes.flatMap FlushCall.details) s.closed :=
  conserved_of_kept h.details fun hclosed => (h.none_waiting hclosed).2

/-- The log pipeline neither loses nor duplicates an entry, in whatever order its parties act. -/
theorem pipeline_conserved (h : (system ρ δ bufferSize).Reachable Orderly s) :
    Conserved bufferSize s.reqs (s.flushes.flatMap FlushCall.reqs) s.closed ∧
      Conserved bufferSize s.details (s.flushes.flatMap FlushCall.details) s.closed := by
  have hs := reachable_sound h
  exact ⟨hs.reqs_conserved, hs.details_conserved⟩

/-- With room for one entry: the second is dropped, the third goes to a call of `Flush` while the
worker has the first in its batch. -/
theorem pipeline_conserved_flush_beside_worker :
    ∃ s, (system Nat Nat 1).Reachable Orderly s ∧
      (s.closed = true ∧ s.reqs.dropped = [(2, 1)] ∧ s.reqs.inserted = [[3], [1]]) ∧
      s.reqs.accepted.Perm s.reqs.inserted.flatten := by
  have hinit : (system Nat Nat 1).Reachable Orderly {} := .init rfl
  obtain ⟨s, hs, hp⟩ := hinit.exists_of_exec
    (fun s : AsyncLogger Nat Nat =>
      s.closed = true ∧ s.reqs.dropped = [(2, 1)] ∧ s.reqs.inserted = [[3], [1]])
    (show System.Admits (next 1) Orderly {} [.asyncLog 1 false, .asyncLog 2 false,
      .requestWorker .receive, .asyncLog 3 false, .flush, .flushStep 0, .flushStep 0, .flushStep 0,
      .flushStep 0, .flushStep 0, .close, .requestWorker .stop, .requestWorker .receive,
      .requestWorker .flush, .detailWorker .stop, .detailWorker .receive, .detailWorker .flush,
      .closeReturn] by decide) (by decide)
  exact ⟨s, hs, hp, (pipeline_conserved hs).1.inserted hp.1⟩

end AsyncLogger

end LlmProxy.Logging

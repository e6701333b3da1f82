import LlmProxy.Logging.AsyncLogger

/-! What a call of `Flush` commits.  It empties both channels, so that of the entries accepted
before the call those are left that somebody else has taken from a channel and not inserted yet: a
worker, in its batch, or another call of `Flush`. -/

namespace LlmProxy.Logging

open ProofKit

namespace Pipe

variable {α : Type} {bufferSize early : Nat} {stopped : Bool} {p p' : Pipe α} {before : List α}

/-- What a step does to the entries that the channel has accepted and to those that it holds. -/
def Moves (p p' : Pipe α) : Prop :=
  ∃ new, p'.accepted = p.accepted ++ new ∧ p'.chan ⊆ p.chan ++ new

theorem Moves.of_subset (haccepted : p'.accepted = p.accepted) (hchan : p'.chan ⊆ p.chan) :
    p.Moves p' :=
  ⟨[], by simpa using haccepted, by simpa using hchan⟩

theorem Moves.refl (p : Pipe α) : p.Moves p := .of_subset rfl (List.Subset.refl _)

theorem log_moves (p : Pipe α) (x : α) (parked : Bool) :
    p.Moves (p.log bufferSize early x parked) := by
  unfold log
  split
  · exact ⟨[x], rfl, List.Subset.refl _⟩
  split
  · exact ⟨[x], rfl, List.subset_append_left _ _⟩
  · exact .of_subset rfl (List.Subset.refl _)

theorem insert_moves (p : Pipe α) (xs : List α) : p.Moves (p.insert xs) := by
  cases xs <;> exact .of_subset rfl (List.Subset.refl _)

theorem take_moves {x : α} {rest : List α} (h : p.chan = x :: rest) :
    p.Moves { p with chan := rest } :=
  .of_subset rfl (h ▸ List.subset_cons_self x rest)

theorem work_moves {a : WorkerAction} (h : p.work early stopped a = some p') : p.Moves p' := by
  cases work_step h with
  | collect _ hchan | drain _ hchan => exact take_moves hchan
  | drained | tick | stop => exact .refl p
  | flush | lastFlush => exact p.insert_moves p.batch

/-- The channel holds only entries that it has accepted after these ones. -/
def HoldsLater (before : List α) (p : Pipe α) : Prop :=
  ∃ later, p.accepted = before ++ later ∧ p.chan ⊆ later

theorem HoldsLater.of_empty (h : before <+: p.accepted) (hchan : p.chan = []) :
    p.HoldsLater before := by
  obtain ⟨later, hlater⟩ := h
  exact ⟨later, hlater.symm, by simp [hchan]⟩

theorem Moves.accepted_mono (h : p.Moves p') (hbefore : before <+: p.accepted) :
    before <+: p'.accepted := by
  obtain ⟨new, haccepted, -⟩ := h
  exact haccepted ▸ hbefore.trans (List.prefix_append _ _)

theorem Moves.holdsLater (h : p.Moves p') (hlater : p.HoldsLater before) :
    p'.HoldsLater before := by
  obtain ⟨new, haccepted, hchan⟩ := h
  obtain ⟨later, hbefore, hsub⟩ := hlater
  refine ⟨later ++ new, by rw [haccepted, hbefore, List.append_assoc], fun x hx => ?_⟩
  rcases List.mem_append.mp (hchan hx) with hx | hx
  · exact List.mem_append_left _ (hsub hx)
  · exact List.mem_append_right _ hx

/-- Every entry that one state has accepted has been inserted in the other one. -/
def Committed (p p' : Pipe α) : Prop := ∀ x ∈ p.accepted, x ∈ p'.inserted.flatten

/-- None of these entries is in the batch of the worker or held by others. -/
def Untaken (before : List α) (p : Pipe α) (others : List α) : Prop :=
  ∀ x ∈ before, x ∉ p.batch ∧ x ∉ others

instance [DecidableEq α] (before : List α) (p : Pipe α) (others : List α) :
    Decidable (p.Untaken before others) :=
  inferInstanceAs (Decidable (∀ x ∈ before, _ ∧ _))

/-- A call that has emptied the channel and inserts what it holds. -/
theorem inserted_iff_untaken {own others : List α}
    (hplaces : p.accepted.Perm (p.places (own ++ others))) (honce : p.accepted.Nodup)
    (hlater : p.HoldsLater before) :
    (∀ x ∈ before, x ∈ p.inserted.flatten ++ own) ↔ p.Untaken before others := by
  obtain ⟨later, haccepted, hchan⟩ := hlater
  have hdisjoint : before.Disjoint later := List.disjoint_of_nodup_append (haccepted ▸ honce)
  refine forall₂_congr fun x hx => ?_
  have hgone : x ∉ p.chan := fun hmem => hdisjoint hx (hchan hmem)
  have hmem : x ∈ p.places (own ++ others) := hplaces.subset (by simp [haccepted, hx])
  have hnodup : (p.places (own ++ others)).Nodup := hplaces.nodup_iff.mp honce
  simp only [places, List.nodup_append, List.mem_append] at hmem hnodup ⊢
  grind

end Pipe

namespace AsyncLogger

variable {ρ δ : Type} {bufferSize : Nat} {s s' : AsyncLogger ρ δ} {a : Action ρ δ}

theorem advance_moves {reqs reqs' : Pipe ρ} {details details' : Pipe δ} {call call' : FlushCall ρ δ}
    (h : advance reqs details call = some (call', reqs', details')) :
    reqs.Moves reqs' ∧ details.Moves details' := by
  cases advance_cases h with
  | takeReq hchan => exact ⟨Pipe.take_moves hchan, .refl details⟩
  | takeDetail hchan => exact ⟨.refl reqs, Pipe.take_moves hchan⟩
  | noReqs | noDetails => exact ⟨.refl reqs, .refl details⟩
  | insertReqs => exact ⟨reqs.insert_moves _, .refl details⟩
  | insertDetails => exact ⟨.refl reqs, details.insert_moves _⟩

theorem next_moves (h : next bufferSize s a = some s') :
    s.reqs.Moves s'.reqs ∧ s.details.Moves s'.details := by
  cases a with
  | asyncLog r parked =>
    obtain rfl := Option.some.inj h
    exact ⟨s.reqs.log_moves r parked, .refl _⟩
  | asyncLogDetail d parked =>
    obtain rfl := Option.some.inj h
    exact ⟨.refl _, s.details.log_moves d parked⟩
  | requestWorker a =>
    obtain ⟨reqs, hwork, rfl⟩ := Option.map_eq_some_iff.mp h
    exact ⟨Pipe.work_moves hwork, .refl _⟩
  | detailWorker a =>
    obtain ⟨details, hwork, rfl⟩ := Option.map_eq_some_iff.mp h
    exact ⟨.refl _, Pipe.work_moves hwork⟩
  | flush | close =>
    obtain rfl := Option.some.inj h
    exact ⟨.refl _, .refl _⟩
  | flushStep i =>
    obtain ⟨call, -, hstep⟩ := Option.bind_eq_some_iff.mp h
    obtain ⟨⟨call', reqs, details⟩, hadvance, rfl⟩ := Option.map_eq_some_iff.mp hstep
    exact advance_moves hadvance
  | closeReturn =>
    simp only [next] at h
    split at h
    · obtain rfl := Option.some.inj h
      exact ⟨.refl _, .refl _⟩
    · cases h

/-- A step leaves a call of `Flush` where it is unless it is a step of that call. -/
theorem next_call {i : Nat} {call : FlushCall ρ δ} (hcall : s.flushes[i]? = some call)
    (h : next bufferSize s a = some s') :
    s'.flushes[i]? = some call ∨ ∃ call', s'.flushes[i]? = some call' ∧
      advance s.reqs s.details call = some (call', s'.reqs, s'.details) := by
  have hi : i < s.flushes.length := (List.getElem?_eq_some_iff.mp hcall).1
  cases a with
  | asyncLog | asyncLogDetail | close =>
    obtain rfl := Option.some.inj h
    exact .inl hcall
  | requestWorker | detailWorker =>
    obtain ⟨_, -, rfl⟩ := Option.map_eq_some_iff.mp h
    exact .inl hcall
  | flush =>
    obtain rfl := Option.some.inj h
    exact .inl ((List.getElem?_append_left hi).trans hcall)
  | flushStep j =>
    obtain ⟨stepped, hstepped, hstep⟩ := Option.bind_eq_some_iff.mp h
    obtain ⟨⟨call', reqs, details⟩, hadvance, rfl⟩ := Option.map_eq_some_iff.mp hstep
    by_cases hji : j = i
    · subst hji
      obtain rfl : call = stepped := Option.some.inj (hcall.symm.trans hstepped)
      exact .inr ⟨call', List.getElem?_set_self hi, hadvance⟩
    · exact .inl ((List.getElem?_set_ne hji).trans hcall)
  | closeReturn =>
    simp only [next] at h
    split at h
    · obtain rfl := Option.some.inj h
      exact .inl hcall
    · cases h

/-- What a call of `Flush` has done to the channels, with the entries accepted before it. -/
def HasEmptied (reqs : List ρ) (details : List δ) (p : Pipe ρ) (q : Pipe δ) : FlushCall ρ δ → Prop
  | .drainReqs _ => True
  | .insertReqs _ | .drainDetails _ => p.HoldsLater reqs
  | .insertDetails _ | .returned => p.HoldsLater reqs ∧ q.HoldsLater details

section HasEmptied

variable {reqs : List ρ} {details : List δ} {p p' : Pipe ρ} {q q' : Pipe δ}
  {call call' : FlushCall ρ δ}

theorem HasEmptied.moves (h : HasEmptied reqs details p q call) (hp : p.Moves p')
    (hq : q.Moves q') :
    HasEmptied reqs details p' q' call := by
  cases call with
  | drainReqs => trivial
  | insertReqs | drainDetails => exact hp.holdsLater h
  | insertDetails | returned => exact ⟨hp.holdsLater h.1, hq.holdsLater h.2⟩

theorem HasEmptied.advance (h : HasEmptied reqs details p q call) (hreqs : reqs <+: p.accepted)
    (hdetails : details <+: q.accepted)
    (hadvance : AsyncLogger.advance p q call = some (call', p', q')) :
    HasEmptied reqs details p' q' call' := by
  obtain ⟨hp, hq⟩ := advance_moves hadvance
  cases advance_cases hadvance with
  | takeReq => trivial
  | noReqs hchan => exact .of_empty hreqs hchan
  | insertReqs | takeDetail => exact hp.holdsLater h
  | noDetails hchan => exact ⟨h, .of_empty hdetails hchan⟩
  | insertDetails => exact ⟨h.1, hq.holdsLater h.2⟩

end HasEmptied

/-- The state of the `i`-th call of `Flush`, and the entries accepted before it. -/
structure Underway (i : Nat) (reqs : List ρ) (details : List δ) (s : AsyncLogger ρ δ) : Prop where
  reqs_accepted : reqs <+: s.reqs.accepted
  details_accepted : details <+: s.details.accepted
  call : ∃ call, s.flushes[i]? = some call ∧ HasEmptied reqs details s.reqs s.details call

theorem Underway.next {i : Nat} {reqs : List ρ} {details : List δ} (h : Underway i reqs details s)
    (hnext : next bufferSize s a = some s') : Underway i reqs details s' := by
  obtain ⟨hreqs, hdetails⟩ := next_moves hnext
  refine ⟨hreqs.accepted_mono h.reqs_accepted, hdetails.accepted_mono h.details_accepted, ?_⟩
  obtain ⟨call, hcall, hemptied⟩ := h.call
  obtain hsame | ⟨call', hcall', hadvance⟩ := next_call hcall hnext
  · exact ⟨call, hsame, hemptied.moves hreqs hdetails⟩
  · exact ⟨call', hcall', hemptied.advance h.reqs_accepted h.details_accepted hadvance⟩

theorem underway_flush (hflush : next bufferSize s .flush = some s') :
    Underway s.flushes.length s.reqs.accepted s.details.accepted s' := by
  obtain rfl := Option.some.inj hflush
  exact ⟨List.prefix_refl _, List.prefix_refl _, .drainReqs [], by simp, trivial⟩

/-- None of the entries that `s` has accepted is in the batch of a worker or in the hands of another
call of `Flush` than the `i`-th. -/
def NoneTaken (s : AsyncLogger ρ δ) (i : Nat) (s' : AsyncLogger ρ δ) : Prop :=
  s'.reqs.Untaken s.reqs.accepted ((s'.flushes.eraseIdx i).flatMap FlushCall.reqs) ∧
    s'.details.Untaken s.details.accepted ((s'.flushes.eraseIdx i).flatMap FlushCall.details)

/-- In every interleaving: when a call of `Flush` returns, it has committed what was logged before
it exactly when no worker and no other call has taken any of it from a channel and still holds it.
Entries are pointers, and each is logged once. -/
theorem flush_commits_iff {called started last returned : AsyncLogger ρ δ}
    {actions : List (Action ρ δ)} {taken : List δ}
    (hreach : (system ρ δ bufferSize).Reachable Orderly called) (horderly : Orderly called .flush)
    (hflush : next bufferSize called .flush = some started)
    (hrun : ((system ρ δ bufferSize).restrict Orderly).Run started actions last)
    (hcall : last.flushes[called.flushes.length]? = some (.insertDetails taken))
    (hreturn : next bufferSize last (.flushStep called.flushes.length) = some returned)
    (hreqs : last.reqs.accepted.Nodup) (hdetails : last.details.accepted.Nodup) :
    called.reqs.Committed returned.reqs ∧ called.details.Committed returned.details ↔
      NoneTaken called called.flushes.length last := by
  have hsound : Sound bufferSize last := by
    refine hrun.invariant (Sound bufferSize) ?_
      (next_sound (reachable_sound hreach) horderly hflush)
    rintro s a s' hs ⟨hok, hstep⟩
    exact next_sound hs hok hstep
  have hunderway :
      Underway called.flushes.length called.reqs.accepted called.details.accepted last := by
    refine hrun.invariant (Underway _ _ _) ?_ (underway_flush hflush)
    rintro s a s' hs ⟨-, hstep⟩
    exact hs.next hstep
  obtain ⟨call, hcall', hlater⟩ := hunderway.call
  obtain rfl : FlushCall.insertDetails taken = call := Option.some.inj (hcall.symm.trans hcall')
  obtain rfl : { last with
      details := last.details.insert taken
      flushes := last.flushes.set called.flushes.length .returned } = returned := by
    simpa [next, hcall, advance] using hreturn
  have hinserted : (last.details.insert taken).inserted.flatten = last.details.inserted.flatten ++
      taken := by
    cases taken <;> simp [Pipe.insert]
  have hreqsIff := Pipe.inserted_iff_untaken
    (hsound.reqs.congr (flatMap_perm_eraseIdx _ hcall)).accounted hreqs hlater.1
  have hdetailsIff := Pipe.inserted_iff_untaken
    (hsound.details.congr (flatMap_perm_eraseIdx _ hcall)).accounted hdetails hlater.2
  refine and_congr ?_ ?_
  · simpa [Pipe.Committed, FlushCall.reqs] using hreqsIff
  · simpa [Pipe.Committed, hinserted, FlushCall.details] using hdetailsIff

/-- An entry that is still in the channel. -/
theorem flush_commits_iff_channel :
    let called : AsyncLogger Nat Nat := { reqs := { chan := [7], accepted := [7] } }
    ∃ returned, System.exec (next 1) called (.flush :: List.replicate 5 (.flushStep 0)) =
      some returned ∧
      called.reqs.Committed returned.reqs ∧ called.details.Committed returned.details := by
  intro called
  let started : AsyncLogger Nat Nat := { called with flushes := [.drainReqs []] }
  let last : AsyncLogger Nat Nat :=
    { reqs := { accepted := [7], inserted := [[7]] }, flushes := [.insertDetails []] }
  have hreach : (system Nat Nat 1).Reachable Orderly called :=
    .step (a := .asyncLog 7 false) (.init rfl) rfl rfl
  have hrun : ((system Nat Nat 1).restrict Orderly).Run started
      (List.replicate 4 (.flushStep 0)) last :=
    .of_exec _ (by decide) (by decide)
  have hfree : NoneTaken called 0 last := ⟨by decide, by decide⟩
  exact ⟨_, rfl, (flush_commits_iff hreach rfl rfl hrun rfl rfl (by decide) (by decide)).mpr hfree⟩

/-- An entry that the worker has received: `Flush` finds the channels empty and returns, and nothing
has been inserted. -/
theorem flush_misses_batch :
    ∃ called returned : AsyncLogger Nat Nat, (system Nat Nat 1).Reachable Orderly called ∧
      System.exec (next 1) called (.flush :: List.replicate 4 (.flushStep 0)) = some returned ∧
      returned.flushes = [.returned] ∧ called.reqs.accepted = [7] ∧
        returned.reqs.inserted = [] := by
  let logged : AsyncLogger Nat Nat := { reqs := { chan := [7], accepted := [7] } }
  have hlogged : (system Nat Nat 1).Reachable Orderly logged :=
    .step (a := .asyncLog 7 false) (.init rfl) rfl rfl
  have hreceived :
      (system Nat Nat 1).Reachable Orderly { reqs := { batch := [7], accepted := [7] } } :=
    .step (a := .requestWorker .receive) hlogged trivial rfl
  exact ⟨_, _, hreceived, rfl, rfl, rfl, rfl⟩

end AsyncLogger

end LlmProxy.Logging

import LlmProxy.Worker.Retry
import Mathlib.Data.Finset.Card

/-! Runs of `forwardWithRetry` to its end, for a request whose context is never done.  `Inputs`
holds all that a run depends on: the candidates, the random choices, and the outcome of each
attempt. -/

namespace LlmProxy.Worker

open ProofKit Logging Proxy Queue

/-- How an attempt goes: what becomes of its request, how the upstream answers it, and whether the
writes to the client fail, counted from the first one of the attempt. -/
structure Outcome where
  prepared : Except GoError Prepared
  reply : Except GoError Response
  writeErr : Nat → Option GoError

structure Inputs where
  candidates : List ModelNode
  choice : Nat → Nat
  outcome : Nat → Outcome

/-- What can be seen of a run: the attempts as they start, and the calls on the client's writer. -/
inductive Event
  | started (attempt : Nat) (node : ModelNode)
  | client (call : ClientCall)
  deriving DecidableEq

namespace Event

def isHeader : Event → Bool
  | started .. => false
  | client call => call.isHeader

def isStart : Event → Bool
  | started .. => true
  | client _ => false

end Event

structure World where
  attempt : Nat := 0
  choices : Nat := 0
  writes : Nat := 0
  /-- The header map of the client's writer. -/
  header : Header := []
  events : List Event := []

/-- The surroundings of a run. -/
def World.answer (inp : Inputs) : (op : Op) → World → op.Ans × World
  | .resolve .., s => (inp.candidates, s)
  | .contextErr, s => (none, s)
  | .streamContextErr, s => (none, s)
  | .intn n, s => (Fin.ofNat (n + 1) (inp.choice s.choices), { s with choices := s.choices + 1 })
  | .attemptStart attempt node, s =>
    ((), { s with attempt, writes := 0, events := s.events ++ [.started attempt node] })
  | .prepare _, s => ((inp.outcome s.attempt).prepared, s)
  | .roundTrip .., s => ((inp.outcome s.attempt).reply, s)
  | .assignHeader key vals, s => ((), { s with header := s.header.assign key vals })
  | .writeHeader src status, s =>
    ((), { s with events := s.events ++ [.client (.writeHeader src status s.header)] })
  | .write src bytes, s =>
    ((inp.outcome s.attempt).writeErr s.writes,
      { s with writes := s.writes + 1, events := s.events ++ [.client (.write src bytes)] })
  | .flush, s => ((), s)
  | .sleep _, s => ((), s)

/-- Run a piece of the worker's code. -/
def runIn (inp : Inputs) {α : Type} (p : Prog α) (s : World) : α × World :=
  p.eval (World.answer inp) s

section Run

variable {inp : Inputs} {α β : Type}

@[simp] theorem runIn_pure (a : α) (s : World) : runIn inp (pure a) s = (a, s) := rfl

@[simp] theorem runIn_bind (p : Prog α) (f : α → Prog β) (s : World) :
    runIn inp (p >>= f) s = runIn inp (f (runIn inp p s).1) (runIn inp p s).2 :=
  Program.eval_bind p f s

@[simp] theorem runIn_run (op : Op) (s : World) : runIn inp op.run s = World.answer inp op s := rfl

/-- The client has been sent `calls` between the two states, within one attempt. -/
structure Sent (s s' : World) (calls : List ClientCall) : Prop where
  events : s'.events = s.events ++ calls.map .client
  attempt : s'.attempt = s.attempt

theorem Sent.refl (s : World) : Sent s s [] := ⟨by simp, rfl⟩

theorem Sent.trans {s s' s'' : World} {calls calls' : List ClientCall} (h : Sent s s' calls)
    (h' : Sent s' s'' calls') : Sent s s'' (calls ++ calls') :=
  ⟨by simp [h'.events, h.events], h'.attempt.trans h.attempt⟩

/-- The writes of a source. -/
def WritesOf (src : Source) (calls : List ClientCall) : Prop :=
  ∀ c ∈ calls, ∃ bytes, c = .write src bytes

/-- A whole answer of one source: one header, and then writes. -/
def AnswerOf (src : Source) (calls : List ClientCall) : Prop :=
  ∃ status header writes, calls = .writeHeader src status header :: writes ∧ WritesOf src writes

end Run

namespace Recorder

variable (inp : Inputs)

/-- A recorder that has its status and holds everything back. -/
def Buffering (r : Recorder) : Prop := r.wroteHeader = true ∧ r.commit = false

/-- A recorder that writes through. -/
def Committed (r : Recorder) : Prop := r.wroteHeader = true ∧ r.commit = true

theorem write_buffering {r : Recorder} (hr : r.Buffering) (bytes : Bytes) (s : World) :
    runIn inp (r.write bytes) s = ((none, { r with body := r.body ++ bytes }), s) := by
  simp only [write, hr.1, hr.2, ↓reduceIte, Bool.false_eq_true, runIn_bind, runIn_pure]

theorem write_committed {r : Recorder} (hr : r.Committed) (bytes : Bytes) (s : World) :
    ∃ s', runIn inp (r.write bytes) s = (((inp.outcome s.attempt).writeErr s.writes, r), s') ∧
      s'.writes = s.writes + 1 ∧ Sent s s' [.write r.src bytes] := by
  simp only [write, hr.1, hr.2, ↓reduceIte, runIn_bind, runIn_pure, runIn_run, World.answer]
  exact ⟨_, rfl, rfl, rfl, rfl⟩

theorem flush_run (r : Recorder) (s : World) : runIn inp r.flush s = ((), s) := by
  rw [flush]
  split <;> rfl

end Recorder

/-! ### One attempt -/

namespace Outcome

/-- The upstream answers with a status that is passed on to the client at once. -/
def PassesStatus (resp : Response) : Prop :=
  isRetryable (classifyError none resp.statusCode) = false

instance (resp : Response) : Decidable (PassesStatus resp) :=
  inferInstanceAs (Decidable (_ = false))

/-- The attempt fails after it has passed a status on: the stream breaks off, or a write to the
client fails. -/
def BreaksOff (o : Outcome) : Prop :=
  ∃ request resp, o.prepared = .ok request ∧ o.reply = .ok resp ∧ PassesStatus resp ∧
    if request.isStream then
      ¬((scan resp).2 = none ∧ ∀ i < (scan resp).1.length, o.writeErr i = none)
    else resp.bodyErr = none ∧ o.writeErr 0 ≠ none

/-- The attempt fails before it has passed a status on: there is no answer, a status that is worth
another attempt, or a body that cannot be read. -/
def FailsEarly (o : Outcome) : Prop :=
  ∀ request resp, o.prepared = .ok request → o.reply = .ok resp → PassesStatus resp →
    request.isStream = false ∧ resp.bodyErr ≠ none

theorem not_breaksOff_of_failsEarly {o : Outcome} (h : o.FailsEarly) : ¬o.BreaksOff := by
  rintro ⟨request, resp, hp, hr, hpass, hbreak⟩
  obtain ⟨hstream, herr⟩ := h request resp hp hr hpass
  simp [hstream, herr] at hbreak

end Outcome

/-! ### The loop -/

/-- How many nodes are left to try, by their ids. -/
def remaining (candidates : List ModelNode) (excluded : List String) : Nat :=
  ((available candidates excluded).map (·.id)).toFinset.card

theorem remaining_eq_zero {candidates : List ModelNode} {excluded : List String} :
    remaining candidates excluded = 0 ↔ available candidates excluded = [] := by
  rw [remaining, Finset.card_eq_zero, List.toFinset_eq_empty_iff, List.map_eq_nil_iff]

/-- Excluding a node that was available leaves one less. -/
theorem remaining_exclude {candidates : List ModelNode} {excluded : List String} {n : ModelNode}
    (h : n ∈ available candidates excluded) :
    remaining candidates (n.id :: excluded) + 1 = remaining candidates excluded := by
  have herase : ((available candidates (n.id :: excluded)).map (·.id)).toFinset =
      ((available candidates excluded).map (·.id)).toFinset.erase n.id := by
    ext id
    simp only [available, List.mem_toFinset, List.mem_map, List.mem_filter, Finset.mem_erase,
      List.contains_cons, Bool.not_or, Bool.and_eq_true, Bool.not_eq_true', beq_eq_false_iff_ne]
    constructor
    · rintro ⟨m, ⟨hm, ⟨hne, hex⟩, hen⟩, rfl⟩
      exact ⟨hne, m, ⟨hm, hex, hen⟩, rfl⟩
    · rintro ⟨hne, m, ⟨hm, hex, hen⟩, rfl⟩
      exact ⟨m, ⟨hm, ⟨hne, hex⟩, hen⟩, rfl⟩
  rw [remaining, remaining, herase]
  apply Finset.card_erase_add_one
  exact List.mem_toFinset.mpr (List.mem_map_of_mem h)

/-- The two states differ in the random choices only. -/
def SameButChoices (s s' : World) : Prop := s' = { s with choices := s'.choices }

theorem pick_run (inp : Inputs) (nodes : List ModelNode) (s : World) :
    ∃ out s', runIn inp (pick nodes) s = (out, s') ∧ SameButChoices s s' ∧
      (out = none ↔ nodes = []) ∧ ∀ n, out = some n → n ∈ nodes := by
  match nodes with
  | [] => exact ⟨none, s, rfl, rfl, by simp, by simp⟩
  | [n] => exact ⟨some n, s, rfl, rfl, by simp, by simp⟩
  | n :: m :: rest =>
    refine ⟨_, _, rfl, rfl, by simp, ?_⟩
    rintro _ ⟨⟩
    exact List.get_mem _ _

end LlmProxy.Worker

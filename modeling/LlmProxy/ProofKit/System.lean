/-! Transition systems with labelled steps: the states that a run reaches when each of its steps
meets a condition on the state before the step, and the rule that derives a fact about all of them
from one fact about a single step. -/

namespace LlmProxy.ProofKit

/-- A transition system: its initial states, and its steps, each labelled with an action. -/
structure System (State Action : Type) where
  init : State → Prop
  step : State → Action → State → Prop

namespace System

variable {State Action : Type} {sys : System State Action}

/-- Every step is admitted. -/
def always (_ : State) (_ : Action) : Prop := True

/-- The states that runs reach when each step from `s` with action `a` satisfies `ok s a`. -/
inductive Reachable (sys : System State Action) (ok : State → Action → Prop) : State → Prop
  | init {s : State} : sys.init s → Reachable sys ok s
  | step {s s' : State} {a : Action} :
      Reachable sys ok s → ok s a → sys.step s a s' → Reachable sys ok s'

/-- A fact about the initial states that every admitted step keeps holds of every reachable
state. -/
theorem Reachable.invariant {ok : State → Action → Prop} (Inv : State → Prop)
    (hinit : ∀ s, sys.init s → Inv s)
    (hstep : ∀ s a s', sys.Reachable ok s → Inv s → ok s a → sys.step s a s' → Inv s')
    {s : State} (h : sys.Reachable ok s) : Inv s := by
  induction h with
  | init h => exact hinit _ h
  | step hreach hok hs ih => exact hstep _ _ _ hreach ih hok hs

/-- A run under a condition is a run. -/
theorem Reachable.to_always {ok : State → Action → Prop} {s : State} (h : sys.Reachable ok s) :
    sys.Reachable always s := by
  induction h with
  | init h => exact .init h
  | step _ _ hs ih => exact .step ih trivial hs

/-- A run from one state to another, with the actions of its steps in order. -/
inductive Run (sys : System State Action) : State → List Action → State → Prop
  | nil {s : State} : Run sys s [] s
  | cons {s mid s' : State} {a : Action} {rest : List Action} :
      sys.step s a mid → Run sys mid rest s' → Run sys s (a :: rest) s'

/-- A fact that every step keeps holds at the end of a run that it holds at the start of. -/
theorem Run.invariant (Inv : State → Prop) (hstep : ∀ s a s', Inv s → sys.step s a s' → Inv s')
    {s s' : State} {actions : List Action} (h : sys.Run s actions s') (hs : Inv s) : Inv s' := by
  induction h with
  | nil => exact hs
  | cons hone _ ih => exact ih (hstep _ _ _ hs hone)

/-- The system without the steps that do not meet a condition on the state before them. -/
def restrict (sys : System State Action) (ok : State → Action → Prop) : System State Action where
  init := sys.init
  step s a s' := ok s a ∧ sys.step s a s'

/-- A system refines another when each step from a state that satisfies `Inv` is a step of the
other one, with the same action, between the images of its states: its runs are runs of the
other. -/
theorem Run.refines {Abstract : Type} {spec : System Abstract Action} (Inv : State → Prop)
    (abs : State → Abstract)
    (hstep : ∀ s a s', Inv s → sys.step s a s' → spec.step (abs s) a (abs s') ∧ Inv s')
    {s s' : State} {actions : List Action} (h : sys.Run s actions s') (hs : Inv s) :
    spec.Run (abs s) actions (abs s') ∧ Inv s' := by
  induction h with
  | nil => exact ⟨.nil, hs⟩
  | cons hstep' _ ih =>
    obtain ⟨hspec, hmid⟩ := hstep _ _ _ hs hstep'
    exact ⟨.cons hspec (ih hmid).1, (ih hmid).2⟩

/-- The system whose steps a partial function computes. -/
def ofNext (init : State → Prop) (next : State → Action → Option State) :
    System State Action where
  init := init
  step s a s' := next s a = some s'

/-- The state after a list of actions. -/
def exec (next : State → Action → Option State) : State → List Action → Option State
  | s, [] => some s
  | s, a :: rest => (next s a).bind (exec next · rest)

/-- The condition `ok` at every step of a list of actions. -/
def Admits (next : State → Action → Option State) (ok : State → Action → Prop) :
    State → List Action → Prop
  | _, [] => True
  | s, a :: rest => ok s a ∧ ∀ s' ∈ next s a, Admits next ok s' rest

instance decidableAdmits (next : State → Action → Option State) (ok : State → Action → Prop)
    [∀ s a, Decidable (ok s a)] : (s : State) → (actions : List Action) →
    Decidable (Admits next ok s actions)
  | _, [] => instDecidableTrue
  | s, a :: rest =>
    have : ∀ s', Decidable (Admits next ok s' rest) := fun s' => decidableAdmits next ok s' rest
    inferInstanceAs (Decidable (ok s a ∧ ∀ s' ∈ next s a, Admits next ok s' rest))

theorem admits_always {next : State → Action → Option State} :
    (s : State) → (actions : List Action) → Admits next always s actions
  | _, [] => trivial
  | _, _ :: rest => ⟨trivial, fun s' _ => admits_always s' rest⟩

/-- A run that the partial function computes reaches its last state. -/
theorem Reachable.exec {init : State → Prop} {next : State → Action → Option State}
    {ok : State → Action → Prop} {s s' : State} {actions : List Action}
    (hs : (ofNext init next).Reachable ok s) (hok : Admits next ok s actions)
    (h : System.exec next s actions = some s') : (ofNext init next).Reachable ok s' := by
  induction actions generalizing s with
  | nil =>
    obtain rfl : s = s' := by simpa [System.exec] using h
    exact hs
  | cons a rest ih =>
    cases hn : next s a with
    | none => simp [System.exec, hn] at h
    | some mid =>
      have hrest : System.exec next mid rest = some s' := by
        simpa [System.exec, hn] using h
      exact ih (.step hs hok.1 hn) (hok.2 mid hn) hrest

/-- A list of actions that the partial function computes is a run. -/
theorem Run.of_exec (init : State → Prop) {next : State → Action → Option State}
    {ok : State → Action → Prop} {s s' : State} {actions : List Action}
    (hok : Admits next ok s actions) (h : System.exec next s actions = some s') :
    ((ofNext init next).restrict ok).Run s actions s' := by
  induction actions generalizing s with
  | nil =>
    obtain rfl : s = s' := by simpa [System.exec] using h
    exact .nil
  | cons a rest ih =>
    obtain ⟨mid, hn, hrest⟩ := Option.bind_eq_some_iff.mp h
    exact .cons ⟨hok.1, hn⟩ (ih (hok.2 mid hn) hrest)

/-- A computed run that ends in a state with property `p`. -/
theorem Reachable.exists_of_exec {init : State → Prop} {next : State → Action → Option State}
    {ok : State → Action → Prop} {s : State} {actions : List Action} (p : State → Prop)
    [DecidablePred p] (hs : (ofNext init next).Reachable ok s) (hok : Admits next ok s actions)
    (h : (System.exec next s actions).any (fun s' => decide (p s')) = true) :
    ∃ s', (ofNext init next).Reachable ok s' ∧ p s' := by
  cases hexec : System.exec next s actions with
  | none => simp [hexec] at h
  | some s' => exact ⟨s', hs.exec hok hexec, by simpa [hexec] using h⟩

end System

end LlmProxy.ProofKit

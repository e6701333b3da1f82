import LlmProxy.ProofKit.System
import Mathlib.Algebra.BigOperators.Group.List.Basic
import Mathlib.Algebra.Ring.Nat

/-! Components that come to an end beside an environment that goes on.  Some actions are the
component's own: each of them lowers a rank.  An action of the environment may raise the rank, by
its cost.  When one of its own actions can be taken until the component is at its end, the component
ends: in any run it takes no more steps than its first rank and the costs of that run allow. -/

namespace LlmProxy.ProofKit

namespace System

variable {State Action : Type} {sys : System State Action} {own : Action → Bool}
  {cost : Action → Nat}
  {final Inv : State → Prop} {n : Nat} {s s' : State} {actions : List Action}

/-- From `s` on the component takes at most `n` steps of its own beyond the costs of the
environment's, however the steps interleave, and it can take one until it is at its end. -/
structure Ends (sys : System State Action) (own : Action → Bool) (cost : Action → Nat)
    (final : State → Prop) (n : Nat) (s : State) : Prop where
  bounded : ∀ actions s', sys.Run s actions s' → actions.countP own ≤ n + (actions.map cost).sum
  enabled : ∀ actions s', sys.Run s actions s' → ¬ final s' → ∃ a s'', own a = true ∧
    sys.step s' a s''

/-- A rank that the component's own steps lower and the others raise by their cost at most, among
the states that `Inv` describes; where such a state is not the end, the component has a step. -/
structure Ranked (sys : System State Action) (own : Action → Bool) (cost : Action → Nat)
    (final Inv : State → Prop) (rank : State → Nat) : Prop where
  keeps : ∀ s a s', Inv s → sys.step s a s' → Inv s'
  lowers : ∀ s a s', Inv s → sys.step s a s' → own a = true → rank s' < rank s
  raises : ∀ s a s', Inv s → sys.step s a s' → own a = false → rank s' ≤ rank s + cost a
  enabled : ∀ s, Inv s → ¬ final s → ∃ a s', own a = true ∧ sys.step s a s'

theorem Ranked.countP_add_le {rank : State → Nat} (h : sys.Ranked own cost final Inv rank)
    (hrun : sys.Run s actions s') (hs : Inv s) :
    actions.countP own + rank s' ≤ rank s + (actions.map cost).sum := by
  induction hrun with
  | nil => simp
  | @cons s mid s' a rest hone _ ih =>
    have hrest := ih (h.keeps _ _ _ hs hone)
    rw [List.map_cons, List.sum_cons]
    cases hown : own a with
    | true =>
      have := h.lowers _ _ _ hs hone hown
      rw [List.countP_cons_of_pos (by simpa using hown)]
      omega
    | false =>
      have := h.raises _ _ _ hs hone hown
      rw [List.countP_cons_of_neg (by simp [hown])]
      omega

theorem Ranked.ends {rank : State → Nat} (h : sys.Ranked own cost final Inv rank) (hs : Inv s) :
    sys.Ends own cost final (rank s) s where
  bounded actions s' hrun := by
    have := h.countP_add_le hrun hs
    omega
  enabled actions s' hrun := h.enabled s' (hrun.invariant Inv h.keeps hs)

theorem Ends.mono {m : Nat} (h : sys.Ends own cost final n s) (hle : n ≤ m) :
    sys.Ends own cost final m s where
  bounded actions s' hrun := by
    have := h.bounded actions s' hrun
    omega
  enabled := h.enabled

/-- Left alone, a component whose own steps cost nothing reaches its end. -/
theorem Ends.reaches (hfree : ∀ a, own a = true → cost a = 0) (h : sys.Ends own cost final n s) :
    ∃ actions s', sys.Run s actions s' ∧ (∀ a ∈ actions, own a = true) ∧ final s' := by
  -- by induction on the steps that are left: each one that can be taken uses one of them up
  induction n generalizing s with
  | zero =>
    by_cases hfinal : final s
    · exact ⟨[], s, .nil, by simp, hfinal⟩
    · obtain ⟨a, s', hown, hstep⟩ := h.enabled [] s .nil hfinal
      have := h.bounded [a] s' (.cons hstep .nil)
      simp [hown, hfree a hown] at this
  | succ n ih =>
    by_cases hfinal : final s
    · exact ⟨[], s, .nil, by simp, hfinal⟩
    · obtain ⟨a, mid, hown, hstep⟩ := h.enabled [] s .nil hfinal
      have hmid : sys.Ends own cost final n mid := by
        refine ⟨fun rest s' hrest => ?_, fun rest s' hrest => h.enabled _ _ (.cons hstep hrest)⟩
        have := h.bounded _ _ (.cons hstep hrest)
        rw [List.countP_cons_of_pos (by simpa using hown), List.map_cons, List.sum_cons,
          hfree a hown] at this
        omega
      obtain ⟨rest, s', hrun, hrest, hend⟩ := ih hmid
      exact ⟨a :: rest, s', .cons hstep hrun, List.forall_mem_cons.mpr ⟨hown, hrest⟩, hend⟩

end System

end LlmProxy.ProofKit

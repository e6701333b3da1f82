/-! Sequential programs that act on their surroundings through operations.  A program is a tree: at
each node it calls an operation, and every answer leads to a subtree.  The same program can be run
to its end against a handler that answers every operation (`eval`), or be interleaved with other
parties, one operation at a time.  `Obeys` is the proof rule for the second use: it says that a
program keeps a contract with its surroundings, whatever they answer and however they interfere. -/

namespace LlmProxy.ProofKit

/-- A program that returns a value of type `α` and calls operations `op : Op`, each answered with
a value of type `Ans op`. -/
inductive Program (Op : Type) (Ans : Op → Type) (α : Type) : Type
  | done (a : α) : Program Op Ans α
  | call (op : Op) (next : Ans op → Program Op Ans α) : Program Op Ans α

namespace Program

variable {Op : Type} {Ans : Op → Type} {α β σ γ : Type}

protected def bind : Program Op Ans α → (α → Program Op Ans β) → Program Op Ans β
  | done a, f => f a
  | call op next, f => call op fun r => (next r).bind f

instance : Monad (Program Op Ans) where
  pure := done
  bind := Program.bind

def perform (op : Op) : Program Op Ans (Ans op) := call op done

@[simp] theorem call_bind (op : Op) (next : Ans op → Program Op Ans α)
    (f : α → Program Op Ans β) : (call op next >>= f) = call op fun r => next r >>= f := rfl

/-! ### Runs against a handler -/

/-- The result of a program and the last state of the handler that answers its operations. -/
def eval (h : (op : Op) → σ → Ans op × σ) : Program Op Ans α → σ → α × σ
  | done a, s => (a, s)
  | call op next, s => eval h (next (h op s).1) (h op s).2

variable {h : (op : Op) → σ → Ans op × σ}

@[simp] theorem eval_call (op : Op) (next : Ans op → Program Op Ans α) (s : σ) :
    eval h (call op next) s = eval h (next (h op s).1) (h op s).2 := rfl

@[simp] theorem eval_bind (p : Program Op Ans α) (f : α → Program Op Ans β) (s : σ) :
    eval h (p >>= f) s = eval h (f (eval h p s).1) (eval h p s).2 := by
  induction p generalizing s with
  | done a => rfl
  | call op next ih => simp only [call_bind, eval_call, ih]

end Program

/-- What a program may assume of its surroundings and what they may rely on, relative to a state
`γ` that both sides track: before each operation the surroundings may change the state as
`interferes` says, `allowed` bounds the operations that the program may call, `answers` the
answers it may get, and `next` is the state after an answer. -/
structure Contract (Op : Type) (Ans : Op → Type) (γ : Type) where
  interferes : γ → Op → γ → Prop := fun g _ g' => g' = g
  allowed : γ → Op → Prop
  answers : γ → (op : Op) → Ans op → Prop
  next : γ → (op : Op) → Ans op → γ

namespace Program

variable {Op : Type} {Ans : Op → Type} {α β γ : Type} {C : Contract Op Ans γ}
  {Q Q' : γ → α → Prop} {R : γ → β → Prop} {g : γ}

/-- From the state `g` on, the program calls only allowed operations, and when it returns its
result satisfies `Q`. -/
def Obeys (C : Contract Op Ans γ) (Q : γ → α → Prop) : Program Op Ans α → γ → Prop
  | done a, g => Q g a
  | call op next, g => ∀ g', C.interferes g op g' →
      C.allowed g' op ∧ ∀ r, C.answers g' op r → Obeys C Q (next r) (C.next g' op r)

theorem obeys_done {a : α} (hq : Q g a) : Obeys C Q (done a) g := hq

theorem obeys_call {op : Op} {next : Ans op → Program Op Ans α}
    (hop : ∀ g', C.interferes g op g' → C.allowed g' op ∧
      ∀ r, C.answers g' op r → Obeys C Q (next r) (C.next g' op r)) :
    Obeys C Q (call op next) g := hop

theorem Obeys.bind {p : Program Op Ans α} {f : α → Program Op Ans β} (hp : Obeys C Q p g)
    (hf : ∀ g a, Q g a → Obeys C R (f a) g) : Obeys C R (p >>= f) g := by
  induction p generalizing g with
  | done a => exact hf g a hp
  | call op next ih =>
    intro g' hg
    exact ⟨(hp g' hg).1, fun r hr => ih r ((hp g' hg).2 r hr)⟩

theorem Obeys.mono {p : Program Op Ans α} (hp : Obeys C Q p g) (hq : ∀ g a, Q g a → Q' g a) :
    Obeys C Q' p g := by
  induction p generalizing g with
  | done a => exact hq g a hp
  | call op next ih =>
    intro g' hg
    exact ⟨(hp g' hg).1, fun r hr => ih r ((hp g' hg).2 r hr)⟩

/-- Every operation that the program can call satisfies `P`. -/
def Calls (P : Op → Prop) : Program Op Ans α → Prop
  | done _ => True
  | call op next => P op ∧ ∀ r, Calls P (next r)

theorem calls_perform {P : Op → Prop} {op : Op} (h : P op) :
    Calls P (perform op : Program Op Ans (Ans op)) :=
  ⟨h, fun _ => trivial⟩

theorem Calls.bind {P : Op → Prop} {p : Program Op Ans α} {f : α → Program Op Ans β}
    (hp : Calls P p) (hf : ∀ a, Calls P (f a)) : Calls P (p >>= f) := by
  induction p with
  | done a => exact hf a
  | call op next ih => exact ⟨hp.1, fun r => ih r (hp.2 r)⟩

/-- Two handlers that agree on the operations of a program run it alike. -/
theorem Calls.eval_congr {σ : Type} {h h' : (op : Op) → σ → Ans op × σ} {P : Op → Prop}
    {p : Program Op Ans α} (hp : Calls P p) (hagree : ∀ op, P op → ∀ s, h op s = h' op s) (s : σ) :
    p.eval h s = p.eval h' s := by
  induction p generalizing s with
  | done a => rfl
  | call op next ih =>
    rw [eval_call, eval_call, hagree op hp.1 s]
    exact ih _ (hp.2 _) _

/-- A program keeps a contract, and the state of it, when each operation that it calls does. -/
theorem Calls.obeys {P : Op → Prop} {p : Program Op Ans α} (hp : Calls P p)
    (h : ∀ op, P op → (∀ g', C.interferes g op g' → g' = g) ∧ C.allowed g op ∧
      ∀ r, C.next g op r = g) : Obeys C (fun g' _ => g' = g) p g := by
  induction p with
  | done a => exact rfl
  | call op next ih =>
    obtain ⟨hkeep, hallowed, hnext⟩ := h op hp.1
    intro g' hg'
    obtain rfl := hkeep g' hg'
    refine ⟨hallowed, fun r _ => ?_⟩
    rw [hnext r]
    exact ih r (hp.2 r)

/-- After an answer to the first operation the rest of the program keeps the contract. -/
theorem Obeys.answer {op : Op} {next : Ans op → Program Op Ans α} {r : Ans op}
    (hp : Obeys C Q (call op next) g) (hg : C.interferes g op g) (hr : C.answers g op r) :
    Obeys C Q (next r) (C.next g op r) :=
  (hp g hg).2 r hr

/-- A program that keeps a contract, run against a handler that keeps its side of it: the state of
the contract follows that of the handler. -/
theorem Obeys.eval {σ : Type} {h : (op : Op) → σ → Ans op × σ} {Rel : γ → σ → Prop}
    (hstep : ∀ g s op, Rel g s → C.interferes g op g ∧ (C.allowed g op →
      C.answers g op (h op s).1 ∧ Rel (C.next g op (h op s).1) (h op s).2))
    {p : Program Op Ans α} (hp : Obeys C Q p g) {s : σ} (hs : Rel g s) :
    ∃ g', Rel g' (p.eval h s).2 ∧ Q g' (p.eval h s).1 := by
  induction p generalizing g s with
  | done a => exact ⟨g, hs, hp⟩
  | call op next ih =>
    obtain ⟨hsame, hserved⟩ := hstep g s op hs
    obtain ⟨hallowed, hnext⟩ := hp g hsame
    obtain ⟨hanswer, hs'⟩ := hserved hallowed
    exact ih _ (hnext _ hanswer) hs'

/-- A program keeps its contract when the surroundings interfere. -/
theorem Obeys.interfere {op : Op} {next : Ans op → Program Op Ans α} {g' : γ}
    (hp : Obeys C Q (call op next) g)
    (htrans : ∀ g'', C.interferes g' op g'' → C.interferes g op g'') :
    Obeys C Q (call op next) g' :=
  fun g'' hg => hp g'' (htrans g'' hg)

end Program

/-- The contract of a program that may call what it likes, where only the answers are bounded. -/
def Contract.assuming {Op : Type} {Ans : Op → Type} (A : (op : Op) → Ans op → Prop) :
    Contract Op Ans Unit where
  allowed _ _ := True
  answers _ := A
  next _ _ _ := ()

namespace Program

variable {Op : Type} {Ans : Op → Type} {α β : Type} {A : (op : Op) → Ans op → Prop} {Q : α → Prop}
  {R : β → Prop}

/-- If the answers are as `A` says, the result satisfies `Q`. -/
def Ensures (A : (op : Op) → Ans op → Prop) (Q : α → Prop) (p : Program Op Ans α) : Prop :=
  p.Obeys (.assuming A) (fun _ => Q) ()

theorem ensures_done {a : α} (h : Q a) : (done a : Program Op Ans α).Ensures A Q := h

theorem ensures_call {op : Op} {next : Ans op → Program Op Ans α}
    (h : ∀ r, A op r → (next r).Ensures A Q) : (call op next).Ensures A Q :=
  fun _ _ => ⟨trivial, h⟩

theorem Ensures.bind {p : Program Op Ans α} {f : α → Program Op Ans β} (hp : p.Ensures A Q)
    (hf : ∀ a, Q a → (f a).Ensures A R) : (p >>= f).Ensures A R :=
  Obeys.bind hp fun _ a ha => hf a ha

theorem Ensures.mono {Q' : α → Prop} {p : Program Op Ans α} (hp : p.Ensures A Q)
    (h : ∀ a, Q a → Q' a) : p.Ensures A Q' :=
  Obeys.mono hp fun _ a ha => h a ha

theorem ensures_trivial (p : Program Op Ans α) : p.Ensures A fun _ => True := by
  induction p with
  | done a => exact trivial
  | call op next ih => exact ensures_call fun r _ => ih r

/-- What a run against a handler returns that answers as `A` says. -/
theorem Ensures.eval {σ : Type} {h : (op : Op) → σ → Ans op × σ}
    (hanswers : ∀ op s, A op (h op s).1) {p : Program Op Ans α} (hp : p.Ensures A Q) (s : σ) :
    Q (p.eval h s).1 := by
  induction p generalizing s with
  | done a => exact hp
  | call op next ih => exact ih _ ((hp () rfl).2 _ (hanswers op s)) _

end Program

end LlmProxy.ProofKit

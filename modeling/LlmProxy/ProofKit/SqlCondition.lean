import LlmProxy.ProofKit.Strconv

/-! Conditions of SQL with placeholders.  A condition is a comparison, or two conditions joined by
`OR` in brackets; a clause is a list of conditions joined by `AND`, with its arguments.  Each `?`
takes the next argument, in the order of the text, so that a clause makes sense if conditions and
arguments are added together. -/

namespace LlmProxy.ProofKit.Sql

inductive Value
  | int (n : Int)
  | text (s : String)
  deriving DecidableEq

namespace Value

/-- The order of values, in which the numbers come before the texts. -/
def le : Value → Value → Bool
  | .int a, .int b => decide (a ≤ b)
  | .int _, .text _ => true
  | .text _, .int _ => false
  | .text a, .text b => !decide (b < a)

def asText : Value → String
  | .int n => formatInt n
  | .text s => s

/-- The value as a literal, where a quote within a text is doubled. -/
def literal : Value → String
  | .int n => formatInt n
  | .text s =>
    let quote := Char.ofNat 39
    String.ofList (quote :: s.toList.flatMap (fun c => if c = quote then [c, c] else [c]) ++
      [quote])

end Value

inductive Operand (κ : Type)
  | column (c : κ)
  | placeholder
  | literal (v : Value)

inductive Operator
  | eq
  | ne
  | ge
  | le
  | like

inductive Condition (κ : Type)
  | compare (lhs : Operand κ) (op : Operator) (rhs : Operand κ)
  | or (a b : Condition κ)

/-! ### Text -/

section Text

variable {κ : Type} (name : κ → String)

def Operand.text : Operand κ → String
  | .column c => name c
  | .placeholder => "?"
  | .literal v => v.literal

def Operator.text : Operator → String
  | .eq => "="
  | .ne => " != "
  | .ge => " >= "
  | .le => " <= "
  | .like => " LIKE "

def Condition.text : Condition κ → String
  | .compare lhs op rhs => lhs.text name ++ op.text ++ rhs.text name
  | .or a b => "(" ++ a.text ++ " OR " ++ b.text ++ ")"

end Text

/-! ### Meaning -/

section Eval

-- `like` tells whether a text matches a pattern, and `row` is the row that a condition is evaluated
-- at.
variable {κ : Type} (like : String → String → Bool) (row : κ → Value)

def Operator.apply : Operator → Value → Value → Bool
  | .eq, a, b => a = b
  | .ne, a, b => a ≠ b
  | .ge, a, b => b.le a
  | .le, a, b => a.le b
  | .like, a, b => like b.asText a.asText

/-- The value of an operand, and the arguments that are left. -/
def Operand.eval : Operand κ → List Value → Option (Value × List Value)
  | .column c, args => some (row c, args)
  | .literal v, args => some (v, args)
  | .placeholder, [] => none
  | .placeholder, v :: args => some (v, args)

def Condition.eval : Condition κ → List Value → Option (Bool × List Value)
  | .compare lhs op rhs, args =>
    (lhs.eval row args).bind fun (a, args) =>
      (rhs.eval row args).map fun (b, args) => (op.apply like a b, args)
  | .or a b, args =>
    (a.eval args).bind fun (x, args) => (b.eval args).map fun (y, args) => (x || y, args)

def evalAll : List (Condition κ) → List Value → Option (Bool × List Value)
  | [], args => some (true, args)
  | c :: cs, args =>
    (c.eval like row args).bind fun (x, args) => (evalAll cs args).map fun (y, args) =>
      (x && y, args)

end Eval

/-! ### Clauses -/

structure Clause (κ : Type) where
  conds : List (Condition κ) := []
  args : List Value := []

namespace Clause

variable {κ : Type}

def add (w : Clause κ) (c : Condition κ) (args : List Value) : Clause κ :=
  { conds := w.conds ++ [c], args := w.args ++ args }

/-- The clause with a condition that is only added in some cases. -/
def addIf (w : Clause κ) (p : Prop) [Decidable p] (c : Condition κ) (args : List Value) :
    Clause κ :=
  if p then w.add c args else w

/-- The clause with a condition on a value, if there is one. -/
def addSome {α : Type} (w : Clause κ) (o : Option α) (c : Condition κ) (args : α → List Value) :
    Clause κ :=
  match o with
  | some x => w.add c (args x)
  | none => w

/-- ` WHERE ` and the conditions, if there are any. -/
def text (name : κ → String) (w : Clause κ) : String :=
  if w.conds = [] then "" else " WHERE " ++ " AND ".intercalate (w.conds.map (·.text name))

/-- Whether a row meets the clause, if there are as many arguments as placeholders. -/
def eval (like : String → String → Bool) (row : κ → Value) (w : Clause κ) : Option Bool :=
  match evalAll like row w.conds w.args with
  | some (b, []) => some b
  | _ => none

end Clause

/-! ### Conditions and arguments side by side -/

section Extend

variable {κ : Type} {like : String → String → Bool} {row : κ → Value}

theorem Operand.eval_append {o : Operand κ} {args rest : List Value} {v : Value}
    (h : o.eval row args = some (v, rest)) (more : List Value) :
    o.eval row (args ++ more) = some (v, rest ++ more) := by
  cases o with
  | column c =>
    cases h
    rfl
  | literal w =>
    cases h
    rfl
  | placeholder =>
    cases args with
    | nil => cases h
    | cons w args =>
      cases h
      rfl

/-- Further arguments are left to what comes after the condition. -/
theorem Condition.eval_append {c : Condition κ} {args rest : List Value} {b : Bool}
    (h : c.eval like row args = some (b, rest)) (more : List Value) :
    c.eval like row (args ++ more) = some (b, rest ++ more) := by
  induction c generalizing args rest b with
  | compare lhs op rhs =>
    obtain ⟨⟨x, mid⟩, hlhs, hrest⟩ := Option.bind_eq_some_iff.mp h
    obtain ⟨⟨y, last⟩, hrhs, heq⟩ := Option.map_eq_some_iff.mp hrest
    cases heq
    simp only [Condition.eval, Operand.eval_append hlhs, Operand.eval_append hrhs, Option.bind_some,
      Option.map_some]
  | or a b iha ihb =>
    obtain ⟨⟨x, mid⟩, ha, hrest⟩ := Option.bind_eq_some_iff.mp h
    obtain ⟨⟨y, last⟩, hb, heq⟩ := Option.map_eq_some_iff.mp hrest
    cases heq
    simp only [Condition.eval, iha ha, ihb hb, Option.bind_some, Option.map_some]

theorem evalAll_append {cs : List (Condition κ)} {c : Condition κ} {args more : List Value}
    {b b' : Bool} {rest : List Value} (hcs : evalAll like row cs args = some (b, rest))
    (hc : c.eval like row (rest ++ more) = some (b', [])) :
    evalAll like row (cs ++ [c]) (args ++ more) = some (b && b', []) := by
  induction cs generalizing args b with
  | nil =>
    cases hcs
    simp [evalAll, hc]
  | cons d ds ih =>
    obtain ⟨⟨x, mid⟩, hd, hrest⟩ := Option.bind_eq_some_iff.mp hcs
    obtain ⟨⟨y, last⟩, hds, heq⟩ := Option.map_eq_some_iff.mp hrest
    cases heq
    simp only [List.cons_append, evalAll, Condition.eval_append hd, ih hds, Option.bind_some,
      Option.map_some, Bool.and_assoc]

namespace Clause

/-- The clause takes all of its arguments, and this is whether the row meets it. -/
def Means (like : String → String → Bool) (row : κ → Value) (w : Clause κ) (b : Bool) : Prop :=
  evalAll like row w.conds w.args = some (b, [])

theorem Means.eval_eq {w : Clause κ} {b : Bool} (h : w.Means like row b) :
    w.eval like row = some b := by
  rw [Clause.eval, h]

theorem means_empty : ({} : Clause κ).Means like row true := rfl

theorem Means.add {w : Clause κ} {b b' : Bool} {c : Condition κ} {args : List Value}
    (h : w.Means like row b) (hc : c.eval like row args = some (b', [])) :
    (w.add c args).Means like row (b && b') :=
  evalAll_append h hc

theorem Means.addIf {w : Clause κ} {b b' : Bool} {c : Condition κ} {args : List Value}
    (h : w.Means like row b) (p : Prop) [Decidable p] (hc : c.eval like row args = some (b', [])) :
    (w.addIf p c args).Means like row (b && (!decide p || b')) := by
  unfold Clause.addIf
  by_cases hp : p
  · simpa only [hp, if_true, decide_true, Bool.not_true, Bool.false_or] using h.add hc
  · simpa only [hp, if_false, decide_false, Bool.not_false, Bool.true_or, Bool.and_true] using h

theorem Means.addSome {α : Type} {w : Clause κ} {b : Bool} {c : Condition κ} {args : α → List Value}
    {b' : α → Bool} (h : w.Means like row b) (o : Option α)
    (hc : ∀ x, c.eval like row (args x) = some (b' x, [])) :
    (w.addSome o c args).Means like row (b && o.all b') := by
  cases o with
  | none =>
    rw [Option.all_none, Bool.and_true]
    exact h
  | some x => exact h.add (hc x)

end Clause

end Extend

end LlmProxy.ProofKit.Sql

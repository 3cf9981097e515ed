import Runbook.Dict
import Runbook.Reference
import Runbook.Text.Blank
import Runbook.Text.Integer
import Runbook.Value

/-!
# Conditions

A condition is one comparison of two operands. Operands that start with `@` or `$` are references
and get their text when the condition is evaluated.

* `Comparison.parse` splits an expression at the first operator, in the order of
  `Operator.parseOrder`, that leaves exactly two operands.
* `Operator.holds` compares two texts: as integers if both are integers, else for equality only.
* `Condition` is a comparison together with the values its references are bound to.
-/

namespace Runbook

/-! ### Operators -/

inductive Operator where
  | eq
  | ne
  | ge
  | le
  | gt
  | lt
  deriving Repr, DecidableEq

namespace Operator

/-- Operators of two characters come before those of one, which are parts of them. -/
def parseOrder : List Operator := [eq, ne, ge, le, gt, lt]

def symbol : Operator → List Char
  | eq => ['=', '=']
  | ne => ['!', '=']
  | ge => ['>', '=']
  | le => ['<', '=']
  | gt => ['>']
  | lt => ['<']

def text (op : Operator) : String := String.ofList op.symbol

/-- Whether `a op b` for integers. -/
def onInts (op : Operator) (a b : Int) : Bool :=
  match op with
  | eq => decide (a = b)
  | ne => decide (a ≠ b)
  | ge => decide (b ≤ a)
  | le => decide (a ≤ b)
  | gt => decide (b < a)
  | lt => decide (a < b)

end Operator

/-- Why a condition has no truth value. -/
inductive EvalError where
  /-- A reference has no value. -/
  | unbound (token : String)
  /-- An ordering was asked of texts that are not both integers. -/
  | unsupported (op : Operator) (lhs rhs : String)
  deriving Repr, DecidableEq

def EvalError.message : EvalError → String
  | unbound token => "variable `" ++ token ++ "` has no bound value"
  | unsupported op lhs rhs =>
    "operator `" ++ op.text ++ "` is not defined for non-integer operands `" ++ lhs ++ "` and `" ++
      rhs ++ "`"

/-- Compares two texts as integers if both denote one; otherwise only equality is decided, by the
exact texts. -/
def Operator.holds (op : Operator) (lhs rhs : String) : Except EvalError Bool :=
  match Text.int64? lhs, Text.int64? rhs with
  | some a, some b => .ok (op.onInts a b)
  | _, _ =>
    match op with
    | .eq => .ok (decide (lhs = rhs))
    | .ne => .ok (decide (lhs ≠ rhs))
    | _ => .error (.unsupported op lhs rhs)

/-! ### Comparisons -/

inductive Operand where
  | literal (text : String)
  /-- Stands for a value that is bound later. -/
  | reference (token : String)
  deriving Repr, DecidableEq

namespace Operand

def ofText (s : String) : Operand :=
  if Reference.needsLookup s then .reference s else .literal s

def reference? : Operand → Option String
  | literal _ => none
  | reference token => some token

end Operand

/-- Why a text is no comparison. -/
inductive ParseError where
  | empty
  | noOperator (expression : String)
  deriving Repr, DecidableEq

def ParseError.message : ParseError → String
  | empty => "empty condition expression"
  | noOperator expression =>
    "no supported binary operator splits `" ++ expression ++ "` into two operands"

structure Comparison where
  op : Operator
  lhs : Operand
  rhs : Operand
  deriving Repr, DecidableEq

namespace Comparison

/-- The two operands around the only occurrence of `op`, neither of them blank. -/
def splitAt? (expression : List Char) (op : Operator) : Option Comparison :=
  match Text.cutAt op.symbol expression with
  | none => none
  | some (before, after) =>
    -- An operator that occurs twice splits the text into three.
    if (Text.cutAt op.symbol after).isSome then none
    else
      let lhs := Text.trimChars before
      let rhs := Text.trimChars after
      if lhs.isEmpty || rhs.isEmpty then none
      else some ⟨op, .ofText (String.ofList lhs), .ofText (String.ofList rhs)⟩

/-- Reads an expression, taking the first operator that splits it. -/
def parse (expression : String) : Except ParseError Comparison :=
  if Text.isBlankText expression then .error .empty
  else
    match Operator.parseOrder.findSome? (splitAt? expression.toList) with
    | some c => .ok c
    | none => .error (.noOperator expression)

/-- The references among the operands, left to right and without repetition. -/
def references (c : Comparison) : List String :=
  match c.lhs.reference?, c.rhs.reference? with
  | some a, some b => if a = b then [a] else [a, b]
  | some a, none => [a]
  | none, some b => [b]
  | none, none => []

theorem mem_references {c : Comparison} {token : String} :
    token ∈ c.references ↔ c.lhs = .reference token ∨ c.rhs = .reference token := by
  obtain ⟨op, lhs, rhs⟩ := c
  cases lhs <;> cases rhs <;> simp only [references, Operand.reference?]
  case reference.reference a b =>
    split <;> simp_all [eq_comm]
  all_goals simp [eq_comm]

theorem nodup_references (c : Comparison) : c.references.Nodup := by
  rw [references]
  split
  · split <;> simp_all
  all_goals simp

end Comparison

/-! ### Conditions with bound references -/

/-- A comparison and the values bound to references so far. -/
structure Condition where
  comparison : Comparison
  bound : Dict String Value

namespace Condition

def parse (expression : String) : Except ParseError Condition :=
  (Comparison.parse expression).map fun c => ⟨c, ∅⟩

def bind (c : Condition) (token : String) (value : Value) : Condition :=
  { c with bound := c.bound.insert token value }

/-- The text an operand stands for. -/
def textOf (c : Condition) : Operand → Except EvalError String
  | .literal s => .ok s
  | .reference token =>
    match c.bound.get? token with
    | some v => .ok v.text
    | none => .error (.unbound token)

def evaluate (c : Condition) : Except EvalError Bool := do
  let lhs ← c.textOf c.comparison.lhs
  let rhs ← c.textOf c.comparison.rhs
  c.comparison.op.holds lhs rhs

end Condition

end Runbook

import Workflow.Condition.Token
import Workflow.Condition.Expression

/-!
# Postfix order

Infix tokens are put into postfix order with a stack of operators, and a tree is built from postfix
tokens with a stack of operands. Both passes take any tokens: the first knows only the precedence
of operators and the nesting of parentheses, the second only how many operands an operator has.
Whether the operators of an infix list stand between their operands is checked by neither.
-/

set_option autoImplicit false

namespace Workflow

namespace Token

/-- How tightly an operator binds. An operator with an unknown text has no precedence. -/
def precedence? (t : Token) : Option Nat :=
  if t.kind = .operator then
    if (Comparison.ofSymbol? t.text).isSome then some 4
    else if t.text = negationKeyword then some 3
    else if t.text = Connective.and.keyword then some 2
    else if t.text = Connective.or.keyword then some 1
    else none
  else none

def yieldsTo (incoming : Nat) (stacked : Token) : Bool :=
  match stacked.precedence? with
  | some p => incoming ≤ p
  | none => false

/-- Puts tokens into postfix order behind a stack of operators and left parentheses. -/
def arrange (stack : List Token) : List Token → Except ConditionError (List Token)
  | [] =>
    if stack.any (·.kind = .leftParen) then .error .unbalancedParenthesis else .ok stack
  | t :: ts =>
    match t.kind with
    | .operator =>
      let (popped, kept) := stack.span (yieldsTo (t.precedence?.getD 0))
      return popped ++ (← arrange (t :: kept) ts)
    | .leftParen => arrange (t :: stack) ts
    | .rightParen =>
      match stack.span (·.kind ≠ .leftParen) with
      | (_, []) => .error .unbalancedParenthesis
      | (popped, _ :: kept) => return popped ++ (← arrange kept ts)
    | _ => return t :: (← arrange stack ts)

def toPostfix (tokens : List Token) : Except ConditionError (List Token) := arrange [] tokens

end Token

namespace Expression

inductive Role where
  | operand
  | negation
  | comparison (op : Comparison)
  | connective (op : Connective)
  deriving DecidableEq, Repr

def role (t : Token) : Role :=
  if t.kind = .operator then
    if t.text = negationKeyword then .negation
    else match Comparison.ofSymbol? t.text, Connective.ofKeyword? t.text with
      | some op, _ => .comparison op
      | none, some op => .connective op
      | none, none => .operand
  else .operand

/-- The operands after one more token. The operand on top of the stack is the right one. -/
def push (stack : List Expression) (t : Token) : Except ConditionError (List Expression) :=
  match role t, stack with
  | .operand, stack => .ok (.leaf t.text :: stack)
  | .negation, e :: stack => .ok (.negation e :: stack)
  | .comparison op, r :: l :: stack => .ok (.comparison op l r :: stack)
  | .connective op, r :: l :: stack => .ok (.connective op l r :: stack)
  | _, _ => .error (.insufficientOperands t.text)

def assemble (stack : List Expression) : List Token → Except ConditionError Expression
  | [] =>
    match stack with
    | [e] => .ok e
    | stack => .error (.malformed stack.length)
  | t :: ts => do assemble (← push stack t) ts

def ofPostfix (tokens : List Token) : Except ConditionError Expression := assemble [] tokens

def parse (text : String) : Except ConditionError Expression := do
  ofPostfix (← Token.toPostfix (← Token.ofText text))

end Expression

end Workflow

/-!
# Why a condition is refused

Lexical errors point into the text, counting characters from zero. Structural errors name an
operator or a number of operands, or say that parentheses do not match.
-/

set_option autoImplicit false

namespace Workflow

inductive ConditionError where
  | unterminatedString (position : Nat)
  | unknownCharacter (character : Char) (position : Nat)
  | insufficientOperands (operator : String)
  | unbalancedParenthesis
  | malformed (remaining : Nat)
  deriving DecidableEq, Repr

def ConditionError.message : ConditionError → String
  | .unterminatedString p =>
    "Unterminated string literal starting at position " ++ toString p
  | .unknownCharacter c p =>
    "Unknown character '" ++ c.toString ++ "' at position " ++ toString p
  | .insufficientOperands op =>
    "Malformed expression: insufficient operands for operator " ++ op
  | .unbalancedParenthesis => "Malformed expression: unbalanced parenthesis"
  | .malformed n =>
    "Malformed expression: expected a single expression, found " ++ toString n

end Workflow

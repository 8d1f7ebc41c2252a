/-!
# Condition trees

A condition is a tree of negations, comparisons and connectives over leaves. A leaf keeps the raw
text it was written with, a quoted string its quotes. Each operator has a symbol, by which it is
written in a condition, and a name, by which the schema of compiled conditions knows it.
-/

set_option autoImplicit false

namespace Workflow

inductive Comparison where
  | equal
  | notEqual
  | greater
  | less
  | greaterOrEqual
  | lessOrEqual
  deriving DecidableEq, Repr

namespace Comparison

def symbol : Comparison → String
  | .equal => "=="
  | .notEqual => "!="
  | .greater => ">"
  | .less => "<"
  | .greaterOrEqual => ">="
  | .lessOrEqual => "<="

def ofSymbol? : String → Option Comparison
  | "==" => some .equal
  | "!=" => some .notEqual
  | ">" => some .greater
  | "<" => some .less
  | ">=" => some .greaterOrEqual
  | "<=" => some .lessOrEqual
  | _ => none

/-- The name in the schema; inequality has none of its own. -/
def schemaName? : Comparison → Option String
  | .equal => some "equals"
  | .notEqual => none
  | .greater => some "greater"
  | .less => some "less"
  | .greaterOrEqual => some "greaterOrEquals"
  | .lessOrEqual => some "lessOrEquals"

end Comparison

inductive Connective where
  | and
  | or
  deriving DecidableEq, Repr

namespace Connective

def keyword : Connective → String
  | .and => "and"
  | .or => "or"

def ofKeyword? : String → Option Connective
  | "and" => some .and
  | "or" => some .or
  | _ => none

end Connective

def negationKeyword : String := "not"

inductive Expression where
  | leaf (text : String)
  | negation (operand : Expression)
  | comparison (op : Comparison) (left right : Expression)
  | connective (op : Connective) (left right : Expression)
  deriving DecidableEq, Repr

end Workflow

import Workflow.Graph.Basic

/-!
# Variable actions

A variable is declared once, with a type and perhaps a first value, and changed by four operations
that all take its name and a value.
-/

set_option autoImplicit false

namespace Workflow

inductive VariableType where
  | string
  | integer
  | boolean
  | float
  | array
  | object
  deriving DecidableEq, Repr

namespace VariableType

def all : List VariableType := [string, integer, boolean, float, array, object]

def name : VariableType → String
  | string => "string"
  | integer => "integer"
  | boolean => "boolean"
  | float => "float"
  | array => "array"
  | object => "object"

def ofName? (name : String) : Option VariableType := all.find? (·.name = name)

end VariableType

inductive VariableOp where
  | set
  | appendToString
  | increment
  | decrement
  deriving DecidableEq, Repr

namespace VariableOp

def all : List VariableOp := [set, appendToString, increment, decrement]

def kind : VariableOp → String
  | set => "SetVariable"
  | appendToString => "AppendToStringVariable"
  | increment => "IncrementVariable"
  | decrement => "DecrementVariable"

def ofKind? (kind : String) : Option VariableOp := all.find? (·.kind = kind)

end VariableOp

namespace Node

def declareVariable (source : IdSource) (name target : String) (type : VariableType)
    (value : Option Json) : StateM Supply Node :=
  let declaration : Fields := [("name", .string target), ("type", .string type.name)] ++
    (value.map fun v => ("value", v)).toList
  create source name declarationKind
    [("inputs", .object [("variables", .array [.object declaration])])]

def changeVariable (source : IdSource) (op : VariableOp) (name target : String) (value : Json) :
    StateM Supply Node :=
  create source name op.kind [("inputs", .object [("name", .string target), ("value", value)])]

end Node

end Workflow

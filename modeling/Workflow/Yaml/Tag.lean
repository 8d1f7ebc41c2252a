/-!
# Tags of YAML nodes

A tag is a text of bytes, since escapes in it may write any bytes. Only a few tags change how a node
is read: those of the types of scalars, and the local ones, which begin with an exclamation mark and
give a name.
-/

set_option autoImplicit false

namespace Workflow.Yaml

def bytesOf (text : String) : List UInt8 := text.toUTF8.toList

inductive Tag where
  | null
  | bool
  | int
  | float
  | named (name : String)
  | unnamed
  | other
  deriving DecidableEq, Repr

namespace Tag

def coreStem : String := "tag:yaml.org,2002:"

def ofBytes (bytes : List UInt8) : Tag :=
  match bytes with
  | 0x21 :: name =>
    match String.fromUTF8? ⟨name.toArray⟩ with
    | some name => named name
    | none => unnamed
  | bytes =>
    if bytes = bytesOf (coreStem ++ "null") then null
    else if bytes = bytesOf (coreStem ++ "bool") then bool
    else if bytes = bytesOf (coreStem ++ "int") then int
    else if bytes = bytesOf (coreStem ++ "float") then float
    else other

def localName? : Option Tag → Option String
  | some (named name) => some name
  | _ => none

end Tag

end Workflow.Yaml

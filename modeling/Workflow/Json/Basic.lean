import Workflow.Json.Number

/-!
# Document values

Values with objects whose fields keep the order in which they were first inserted. Inserting at a
key that is present replaces the value where it stands; a new key goes to the end. Objects are plain
lists of pairs, and every operation of this library gives distinct keys when it is given distinct
keys.
-/

set_option autoImplicit false

namespace Workflow

inductive Json where
  | null
  | bool (value : Bool)
  | number (value : Number)
  | string (value : String)
  | array (items : List Json)
  | object (fields : List (String × Json))
  deriving Repr

abbrev Fields := List (String × Json)

namespace Fields

def keys (fields : Fields) : List String := fields.map Prod.fst

def get? (key : String) : Fields → Option Json
  | [] => none
  | (k, v) :: rest => if k = key then some v else get? key rest

def contains (key : String) (fields : Fields) : Bool := (fields.get? key).isSome

/-- Sets a field where it stands, or at the end if it is new. -/
def insert (key : String) (value : Json) : Fields → Fields
  | [] => [(key, value)]
  | (k, v) :: rest => if k = key then (key, value) :: rest else (k, v) :: insert key value rest

/-- The fields made of entries in a row. What comes last under a key counts, and stands where the key
came first. -/
def collect (entries : Fields) : Fields :=
  entries.foldl (fun fields (key, value) => fields.insert key value) []

def erase (key : String) : Fields → Fields
  | [] => []
  | (k, v) :: rest => if k = key then rest else (k, v) :: erase key rest

end Fields

namespace Json

def fields : Json → Fields
  | .object fields => fields
  | _ => []

def isObject : Json → Bool
  | .object _ => true
  | _ => false

def int (n : Int) : Json := .number (.int n)

def lookup : Json → List String → Option Json
  | v, [] => some v
  | .object fields, key :: path => (Fields.get? key fields).bind fun v => v.lookup path
  | _, _ :: _ => none

end Json

namespace Fields

/-- Sets the value under a path of keys. A missing object on the way is created and any other value
on the way is replaced by an empty object; the empty path changes nothing. -/
def insertAt (value : Json) : List String → Fields → Fields
  | [], fields => fields
  | [key], fields => fields.insert key value
  | key :: next :: path, fields =>
    let inner := ((fields.get? key).getD .null).fields
    fields.insert key (.object (insertAt value (next :: path) inner))

end Fields

end Workflow

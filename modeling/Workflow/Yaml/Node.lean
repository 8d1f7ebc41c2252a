import Workflow.Yaml.Tag
import Workflow.Yaml.Token

/-!
# YAML nodes

A node is a scalar, a sequence, a mapping, or an alias of an anchored node. Anchors are numbered by
how many different names were anchored before, so an anchored name that comes again is a new anchor,
and an alias means the last node that has its number.

The structure of tokens is read by one function for every place in which nodes stand. Each gives the
tokens it leaves; a bound on the calls inside of each other makes them total. One exception of the
structure: in a flow sequence a question mark without a key takes the token after it away.
-/

set_option autoImplicit false

namespace Workflow.Yaml

structure Scalar where
  text : String
  style : Style
  tag : Option Tag
  deriving DecidableEq, Repr

inductive Node where
  | scalar (anchor : Option Nat) (scalar : Scalar)
  | sequence (anchor : Option Nat) (tag : Option Tag) (items : List Node)
  | mapping (anchor : Option Nat) (tag : Option Tag) (entries : List (Node × Node))
  | alias (anchor : Nat)
  deriving Repr

namespace Node

def empty : Node := .scalar none ⟨"", .plain, none⟩

abbrev Anchors := List (String × Nat)

def numberOf? (name : String) (anchors : Anchors) : Option Nat :=
  (anchors.find? (·.1 = name)).map (·.2)

def anchor (name : String) (anchors : Anchors) : Anchors :=
  (name, anchors.length) :: anchors.filter (·.1 ≠ name)

abbrev Handles := List (String × List UInt8)

def resolveTag? (handles : Handles) (handle : String) (suffix : List UInt8) : Option Tag :=
  if handle.isEmpty then some (.ofBytes suffix)
  else (handles.find? (·.1 = handle)).map fun (_, stem) => .ofBytes (stem ++ suffix)

structure Properties where
  anchor : Option String := none
  tag : Option (String × List UInt8) := none

def properties : List Token → Properties × List Token
  | .anchor a :: .tag h s :: rest => (⟨some a, some (h, s)⟩, rest)
  | .anchor a :: rest => (⟨some a, none⟩, rest)
  | .tag h s :: .anchor a :: rest => (⟨some a, some (h, s)⟩, rest)
  | .tag h s :: rest => (⟨none, some (h, s)⟩, rest)
  | rest => ({}, rest)

/-- Where a node stands, which decides about the forms it may have. -/
inductive Place where
  | block
  | blockOrIndentless
  | flow
  deriving DecidableEq, Repr

structure Result (α : Type) where
  value : α
  anchors : Anchors
  rest : List Token

/-- The empty scalar of an anchor or a tag; without either there is no node. -/
def emptyContent (number : Option Nat) (tag : Option Tag) (anchors : Anchors)
    (ts : List Token) : Option (Result Node) :=
  if number.isSome || tag.isSome then some ⟨.scalar number ⟨"", .plain, tag⟩, anchors, ts⟩
  else none

def startsWith (ts : List Token) (heads : List Token) : Bool :=
  match ts with
  | t :: _ => heads.contains t
  | [] => false

def nextItem? (first : Bool) (close : Token) (ts : List Token) : Option (List Token) :=
  if first || startsWith ts [close] then some ts
  else if startsWith ts [.flowEntry] then some (ts.drop 1)
  else none

mutual

def read (handles : Handles) :
    (bound : Nat) → Place → Anchors → List Token → Option (Result Node)
  | 0, _, _, _ => none
  | _ + 1, _, anchors, .alias name :: rest =>
    (numberOf? name anchors).map fun n => ⟨.alias n, anchors, rest⟩
  | bound + 1, place, anchors, ts => do
    let (found, rest) := properties ts
    let tag ← match found.tag with
      | none => some none
      | some (handle, suffix) => (resolveTag? handles handle suffix).map some
    match found.anchor with
    | some name =>
      readContent handles bound place (some anchors.length) tag (anchor name anchors) rest
    | none => readContent handles bound place none tag anchors rest

def readContent (handles : Handles) :
    (bound : Nat) → Place → Option Nat → Option Tag → Anchors → List Token → Option (Result Node)
  | 0, _, _, _, _, _ => none
  | bound + 1, place, number, tag, anchors, ts =>
    let sequence := fun (r : Result (List Node)) =>
      some (Result.mk (.sequence number tag r.value) r.anchors r.rest)
    let mapping := fun (r : Result (List (Node × Node))) =>
      some (Result.mk (.mapping number tag r.value) r.anchors r.rest)
    match ts, place with
    | .blockEntry :: _, .blockOrIndentless =>
      (readIndentlessItems handles bound anchors ts).bind sequence
    | .scalar text style :: rest, _ => some ⟨.scalar number ⟨text, style, tag⟩, anchors, rest⟩
    | .flowSequenceStart :: rest, _ =>
      (readFlowItems handles bound true anchors rest).bind sequence
    | .flowMappingStart :: rest, _ =>
      (readFlowEntries handles bound true anchors rest).bind mapping
    | .blockSequenceStart :: rest, .block | .blockSequenceStart :: rest, .blockOrIndentless =>
      (readBlockItems handles bound anchors rest).bind sequence
    | .blockMappingStart :: rest, .block | .blockMappingStart :: rest, .blockOrIndentless =>
      (readBlockEntries handles bound anchors rest).bind mapping
    | ts, _ => emptyContent number tag anchors ts

def readOrEmpty (handles : Handles) :
    (bound : Nat) → Place → (ends : List Token) → Anchors → List Token → Option (Result Node)
  | 0, _, _, _, _ => none
  | bound + 1, place, ends, anchors, ts =>
    if startsWith ts ends then some ⟨empty, anchors, ts⟩ else read handles bound place anchors ts

def readBlockItems (handles : Handles) :
    (bound : Nat) → Anchors → List Token → Option (Result (List Node))
  | bound + 1, anchors, .blockEntry :: rest => do
    let item ← readOrEmpty handles bound .block [.blockEntry, .blockEnd] anchors rest
    let items ← readBlockItems handles bound item.anchors item.rest
    return { items with value := item.value :: items.value }
  | _ + 1, anchors, .blockEnd :: rest => some ⟨[], anchors, rest⟩
  | _, _, _ => none

def readIndentlessItems (handles : Handles) :
    (bound : Nat) → Anchors → List Token → Option (Result (List Node))
  | 0, _, _ => none
  | bound + 1, anchors, .blockEntry :: rest => do
    let ends := [.blockEntry, .key, .value, .blockEnd]
    let item ← readOrEmpty handles bound .block ends anchors rest
    let items ← readIndentlessItems handles bound item.anchors item.rest
    return { items with value := item.value :: items.value }
  | _ + 1, anchors, ts => some ⟨[], anchors, ts⟩

def readBlockEntries (handles : Handles) :
    (bound : Nat) → Anchors → List Token → Option (Result (List (Node × Node)))
  | bound + 1, anchors, .key :: rest => do
    let ends := [.key, .value, .blockEnd]
    let key ← readOrEmpty handles bound .blockOrIndentless ends anchors rest
    let value ← readValue handles bound .blockOrIndentless ends key.anchors key.rest
    let entries ← readBlockEntries handles bound value.anchors value.rest
    return { entries with value := (key.value, value.value) :: entries.value }
  | _ + 1, anchors, .blockEnd :: rest => some ⟨[], anchors, rest⟩
  | _, _, _ => none

def readValue (handles : Handles) :
    (bound : Nat) → Place → (ends : List Token) → Anchors → List Token → Option (Result Node)
  | 0, _, _, _, _ => none
  | bound + 1, place, ends, anchors, .value :: rest =>
    readOrEmpty handles bound place ends anchors rest
  | _ + 1, _, _, anchors, ts => some ⟨empty, anchors, ts⟩

def readFlowItems (handles : Handles) :
    (bound : Nat) → (first : Bool) → Anchors → List Token → Option (Result (List Node))
  | 0, _, _, _ => none
  | bound + 1, first, anchors, ts => do
    match ← nextItem? first .flowSequenceEnd ts with
    | .flowSequenceEnd :: rest => return ⟨[], anchors, rest⟩
    | start =>
      let item ← readFlowItem handles bound anchors start
      let items ← readFlowItems handles bound false item.anchors item.rest
      return { items with value := item.value :: items.value }

def readFlowItem (handles : Handles) :
    (bound : Nat) → Anchors → List Token → Option (Result Node)
  | 0, _, _ => none
  | bound + 1, anchors, .key :: rest => do
    let ends := [.flowEntry, .flowSequenceEnd]
    let key ← if startsWith rest (.value :: ends) then some ⟨empty, anchors, rest.drop 1⟩
      else read handles bound .flow anchors rest
    let value ← readValue handles bound .flow ends key.anchors key.rest
    return { value with value := .mapping none none [(key.value, value.value)] }
  | bound + 1, anchors, ts => read handles bound .flow anchors ts

def readFlowEntries (handles : Handles) :
    (bound : Nat) → (first : Bool) → Anchors → List Token →
      Option (Result (List (Node × Node)))
  | 0, _, _, _ => none
  | bound + 1, first, anchors, ts => do
    match ← nextItem? first .flowMappingEnd ts with
    | .flowMappingEnd :: rest => return ⟨[], anchors, rest⟩
    | .key :: rest =>
      let ends := [.flowEntry, .flowMappingEnd]
      let key ← readOrEmpty handles bound .flow (.value :: ends) anchors rest
      let value ← readValue handles bound .flow ends key.anchors key.rest
      let entries ← readFlowEntries handles bound false value.anchors value.rest
      return { entries with value := (key.value, value.value) :: entries.value }
    | start =>
      let key ← read handles bound .flow anchors start
      let entries ← readFlowEntries handles bound false key.anchors key.rest
      return { entries with value := (key.value, empty) :: entries.value }

end

/-- The node in front of the tokens of a document. At most six calls come between two that take a
token away, so the bound is never reached. -/
def ofTokens? (handles : Handles) (ts : List Token) : Option (Result Node) :=
  read handles (8 * (ts.length + 1)) .block [] ts

end Node

end Workflow.Yaml

import Workflow.Yaml.Layout
import Workflow.Yaml.Node

/-!
# YAML documents

A text holds at most one document, either bare or after directives and a mark. A text without tokens
holds the empty node. A document knows the last node of every anchor, so an alias may mean a node
that comes after it, or one around it; how often aliases may be followed is bounded by the size of
the document.
-/

set_option autoImplicit false

namespace Workflow.Yaml

namespace Node

mutual

/-- How large a node is: leaves count once, collections twice and with all that is in them. -/
def size : Node → Nat
  | .scalar _ _ => 1
  | .alias _ => 1
  | .sequence _ _ items => 2 + sizeOfItems items
  | .mapping _ _ entries => 2 + sizeOfEntries entries

def sizeOfItems : List Node → Nat
  | [] => 0
  | item :: items => item.size + sizeOfItems items

def sizeOfEntries : List (Node × Node) → Nat
  | [] => 0
  | (key, value) :: entries => key.size + value.size + sizeOfEntries entries

end

abbrev Targets := List (Nat × Node)

def Targets.note (targets : Targets) (number : Option Nat) (node : Node) : Targets :=
  match number with
  | some n => (n, node) :: targets
  | none => targets

mutual

/-- The targets with those of a node, which comes before all that is in it. -/
def noteAll (targets : Targets) : Node → Targets
  | .scalar n s => targets.note n (.scalar n s)
  | .alias _ => targets
  | .sequence n tag items => noteItems (targets.note n (.sequence n tag items)) items
  | .mapping n tag entries => noteEntries (targets.note n (.mapping n tag entries)) entries

def noteItems (targets : Targets) : List Node → Targets
  | [] => targets
  | item :: items => noteItems (noteAll targets item) items

def noteEntries (targets : Targets) : List (Node × Node) → Targets
  | [] => targets
  | (key, value) :: entries => noteEntries (noteAll (noteAll targets key) value) entries

end

end Node

structure Directives where
  hasVersion : Bool := false
  handles : Node.Handles := []

namespace Directives

/-- The directives at the front of the tokens, and the other tokens. There may be one version, which
is 1.1 or 1.2, and one stem for every handle. -/
def read (d : Directives) : List Token → Option (Directives × List Token)
  | .versionDirective major minor :: rest =>
    if d.hasVersion || major ≠ 1 || (minor ≠ 1 && minor ≠ 2) then none
    else read { d with hasVersion := true } rest
  | .tagDirective handle stem :: rest =>
    if d.handles.any (·.1 = handle) then none
    else read { d with handles := d.handles ++ [(handle, stem)] } rest
  | rest => some (d, rest)

def allHandles (d : Directives) : Node.Handles :=
  d.handles ++ [("!", bytesOf "!"), ("!!", bytesOf Tag.coreStem)]

end Directives

structure Document where
  root : Node
  targets : Node.Targets
  allowance : Nat

namespace Document

def ofRoot (root : Node) : Document := ⟨root, Node.noteAll [] root, 100 * root.size⟩

def isEmptyAfterMark : List Token → Bool
  | [] => true
  | .versionDirective _ _ :: _ => true
  | .tagDirective _ _ :: _ => true
  | .documentStart :: _ => true
  | .documentEnd :: _ => true
  | _ => false

def readRoot (ts : List Token) : Option (Node.Result Node) := do
  let (directives, rest) ← Directives.read {} ts
  match rest with
  | .documentStart :: rest =>
    if isEmptyAfterMark rest then some ⟨.empty, [], rest⟩
    else Node.ofTokens? directives.allHandles rest
  | rest =>
    if rest.length < ts.length then none else Node.ofTokens? directives.allHandles rest

def ofText? (text : String) : Option Document := do
  let ts ← Token.ofText? text
  if ts.isEmpty then some (ofRoot .empty)
  else
    let root ← readRoot ts
    if root.rest.all (· = .documentEnd) then some (ofRoot root.value) else none

def target? (d : Document) (number : Nat) : Option Node :=
  (d.targets.find? (·.1 = number)).map (·.2)

end Document

end Workflow.Yaml

import Workflow.Flow.Definition
import Workflow.Flow.Error

/-!
# Definitions from document values

A definition is an object with its fields by name, or an array with its fields by position. Fields
with a default may be missing but not null, optional fields may be null, and unknown names are
ignored. A field that does not fit refuses the whole definition.
-/

set_option autoImplicit false

namespace Workflow

theorem Fields.mem_of_get? {key : String} {fields : Fields} {v : Json}
    (h : Fields.get? key fields = some v) : (key, v) ∈ fields := by
  induction fields with
  | nil => simp [Fields.get?] at h
  | cons field rest ih =>
    obtain ⟨k, w⟩ := field
    by_cases hk : k = key
    · simp [Fields.get?, hk] at h
      simp [hk, h]
    · simp only [Fields.get?, hk, if_false] at h
      exact List.mem_cons_of_mem _ (ih h)

namespace Json

/-- The fields of an object, or of an array that gives at least `least` of the named fields by
position and no others. -/
def fieldsByName? (names : List String) (least : Nat) : Json → Option Fields
  | .object fields => some fields
  | .array items =>
    if least ≤ items.length ∧ items.length ≤ names.length then some (names.zip items) else none
  | _ => none

theorem sizeOf_lt_of_fieldsByName? {names : List String} {least : Nat} {j v : Json}
    {fields : Fields} {key : String} (hf : fieldsByName? names least j = some fields)
    (hv : Fields.get? key fields = some v) : sizeOf v < sizeOf j := by
  have hm := Fields.mem_of_get? hv
  cases j with
  | object fs =>
    obtain rfl : fs = fields := by simpa [fieldsByName?] using hf
    have h1 := List.sizeOf_lt_of_mem hm
    simp only [Prod.mk.sizeOf_spec, Json.object.sizeOf_spec] at *
    omega
  | array items =>
    simp only [fieldsByName?] at hf
    split at hf
    · obtain rfl : names.zip items = fields := by simpa using hf
      have h1 := List.sizeOf_lt_of_mem (List.of_mem_zip hm).2
      simp only [Json.array.sizeOf_spec]
      omega
    · simp at hf
  | _ => simp [fieldsByName?] at hf

def string? : Json → Option String
  | .string s => some s
  | _ => none

def bool? : Json → Option Bool
  | .bool b => some b
  | _ => none

def limit? : Json → Option Nat
  | .number (.int n) => if 0 ≤ n ∧ n ≤ ActionDefinition.maxLimit then some n.toNat else none
  | _ => none

/-- The name of a mode, alone or as the only field of an object, with nothing in it. -/
def mode? : Json → Option RunMode
  | .string name => RunMode.ofName? name
  | .object [(name, .null)] => RunMode.ofName? name
  | _ => none

def required {α : Type} (read : Json → Option α) (key : String) (fields : Fields) : Option α :=
  (Fields.get? key fields).bind read

def withDefault {α : Type} (read : Json → Option α) (default : α) (key : String)
    (fields : Fields) : Option α :=
  match Fields.get? key fields with
  | none => some default
  | some v => read v

def optional {α : Type} (read : Json → Option α) (key : String) (fields : Fields) :
    Option (Option α) :=
  match Fields.get? key fields with
  | none | some .null => some none
  | some v => (read v).map some

end Json

namespace ActionDefinition

mutual

/-- The definition that a value writes. By position all fields are needed. -/
def ofJson? (j : Json) : Option ActionDefinition :=
  match hf : j.fieldsByName? fieldNames fieldNames.length with
  | none => none
  | some fields => do
    let actions ← match hv : Fields.get? "actions" fields with
      | none => some []
      | some (.array items) =>
        have := Json.sizeOf_lt_of_fieldsByName? hf hv
        listOfJson? items
      | some _ => none
    let otherwise ← match hv : Fields.get? "else" fields with
      | none | some .null => some none
      | some (.array items) =>
        have := Json.sizeOf_lt_of_fieldsByName? hf hv
        (listOfJson? items).map some
      | some _ => none
    return {
      name := ← Json.required Json.string? "name" fields
      kind := ← Json.required Json.string? "type" fields
      inputs := ← Json.optional some "inputs" fields
      after := ← Json.optional Json.string? "after" fields
      mode := ← Json.withDefault Json.mode? .normal "mode" fields
      top := ← Json.withDefault Json.bool? false "top" fields
      condition := ← Json.optional Json.string? "condition" fields
      items := ← Json.optional Json.string? "foreach" fields
      expression := ← Json.optional Json.string? "expression" fields
      limit := ← Json.optional Json.limit? "limit" fields
      actions
      otherwise
      raw := ← Json.optional some "raw" fields }
  termination_by sizeOf j
  decreasing_by all_goals simp_all; omega

def listOfJson? : List Json → Option (List ActionDefinition)
  | [] => some []
  | j :: rest => do return (← ofJson? j) :: (← listOfJson? rest)
  termination_by items => sizeOf items

end

end ActionDefinition

namespace FlowDefinition

def ofJson? (j : Json) : Option FlowDefinition := do
  let fields ← j.fieldsByName? fieldNames 1
  return {
    name := ← Json.required Json.string? "name" fields
    description := ← Json.withDefault Json.string? "" "description" fields
    triggers := ← Json.withDefault (fun | .object fs => some fs | _ => none) [] "triggers" fields
    actions := ← Json.withDefault
      (fun | .array items => ActionDefinition.listOfJson? items | _ => none) [] "actions" fields }

def ofJson (j : Json) : Except FlowError FlowDefinition :=
  match ofJson? j with
  | some d => .ok d
  | none => .error .malformedJson

end FlowDefinition

end Workflow

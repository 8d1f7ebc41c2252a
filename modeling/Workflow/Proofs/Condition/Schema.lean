import Workflow.Condition.Schema

/-!
# Compiled conditions read back

A compiled condition can be read by the schema alone: a field names an operator, and what is no
object is a value. Read so, a compiled condition is the tree of the condition, with the value of
each leaf, in which every inequality is the negation of an equality. Nothing else is lost, and two
conditions have one compiled form exactly if these readings are the same.
-/

set_option autoImplicit false

namespace Workflow

def Comparison.ofSchemaName? : String → Option Comparison
  | "equals" => some .equal
  | "greater" => some .greater
  | "greaterOrEquals" => some .greaterOrEqual
  | "less" => some .less
  | "lessOrEquals" => some .lessOrEqual
  | _ => none

/-- What a compiled condition says: operators over values. -/
inductive SchemaReading where
  | value (json : Json)
  | negation (operand : SchemaReading)
  | comparison (op : Comparison) (left right : SchemaReading)
  | connective (op : Connective) (left right : SchemaReading)

namespace SchemaReading

/-- The operator on two operands that a field names. -/
def binary? (key : String) : Option (SchemaReading → SchemaReading → SchemaReading) :=
  match Comparison.ofSchemaName? key, Connective.ofKeyword? key with
  | some op, _ => some (comparison op)
  | none, some op => some (connective op)
  | none, none => none

/-- The reading of a document by the schema. An object that is no operator has none. -/
def ofJson? : Json → Option SchemaReading
  | .object [(key, operand)] =>
    if key = negationKeyword then (ofJson? operand).map negation
    else match operand with
      | .array [l, r] => do return (← binary? key) (← ofJson? l) (← ofJson? r)
      | _ => none
  | .object _ => none
  | v => some (value v)

theorem ofJson?_of_isObject {v : Json} (h : v.isObject = false) : ofJson? v = some (value v) := by
  cases v with
  | object fields => cases h
  | _ => rfl

theorem ofJson?_negation {v : Json} {x : SchemaReading} (h : ofJson? v = some x) :
    ofJson? (.object [(negationKeyword, v)]) = some (negation x) := by
  rw [ofJson?.eq_def]
  simp [h]

theorem ofJson?_binary {key : String} {op : SchemaReading → SchemaReading → SchemaReading}
    {l r : Json} {x y : SchemaReading} (hkey : binary? key = some op) (hl : ofJson? l = some x)
    (hr : ofJson? r = some y) :
    ofJson? (.object [(key, .array [l, r])]) = some (op x y) := by
  have hne : key ≠ negationKeyword := by
    rintro rfl
    cases hkey
  rw [ofJson?, if_neg hne]
  simp [hkey, hl, hr]

theorem binary?_schemaName {op : Comparison} {name : String} (h : op.schemaName? = some name) :
    binary? name = some (comparison op) := by
  cases op <;> cases h <;> rfl

theorem binary?_keyword (op : Connective) : binary? op.keyword = some (connective op) := by
  cases op <;> rfl

end SchemaReading

namespace Expression
open SchemaReading

/-- Every inequality written as the negation of an equality. -/
def withoutInequality : Expression → Expression
  | leaf text => leaf text
  | negation e => negation e.withoutInequality
  | comparison .notEqual l r =>
    negation (comparison .equal l.withoutInequality r.withoutInequality)
  | comparison op l r => comparison op l.withoutInequality r.withoutInequality
  | connective op l r => connective op l.withoutInequality r.withoutInequality

/-- Every leaf replaced by its compiled form. -/
def withValues : Expression → SchemaReading
  | leaf text => value (lowerLeaf text)
  | negation e => .negation e.withValues
  | comparison op l r => .comparison op l.withValues r.withValues
  | connective op l r => .connective op l.withValues r.withValues

theorem lowerLeaf_isObject (text : String) : (lowerLeaf text).isObject = false := by
  unfold lowerLeaf
  split
  · rfl
  split
  · rfl
  split
  · rfl
  split <;> rfl

theorem lower_of_schemaName {op : Comparison} {name : String} (h : op.schemaName? = some name)
    (l r : Expression) :
    (comparison op l r).lower = .object [(name, .array [l.lower, r.lower])] := by
  rw [lower, h]

theorem withoutInequality_of_schemaName {op : Comparison} {name : String}
    (h : op.schemaName? = some name) (l r : Expression) :
    (comparison op l r).withoutInequality =
      comparison op l.withoutInequality r.withoutInequality := by
  cases op <;> first | rfl | cases h

theorem ofJson?_lower (e : Expression) :
    ofJson? e.lower = some e.withoutInequality.withValues := by
  induction e with
  | leaf text => exact ofJson?_of_isObject (lowerLeaf_isObject text)
  | negation e ih => exact ofJson?_negation ih
  | comparison op l r ihl ihr =>
    cases hname : op.schemaName? with
    | some name =>
      rw [lower_of_schemaName hname, withoutInequality_of_schemaName hname]
      exact ofJson?_binary (binary?_schemaName hname) ihl ihr
    | none =>
      -- only inequality has no name, and it is compiled as what replaces it
      obtain rfl : op = .notEqual := by cases op <;> first | rfl | cases hname
      exact ofJson?_negation (ofJson?_binary (binary?_schemaName rfl) ihl ihr)
  | connective op l r ihl ihr => exact ofJson?_binary (binary?_keyword op) ihl ihr

theorem lower_withoutInequality (e : Expression) : e.withoutInequality.lower = e.lower := by
  induction e with
  | leaf text => rfl
  | negation e ih => rw [withoutInequality, lower, ih, lower]
  | comparison op l r ihl ihr =>
    cases op <;> simp only [withoutInequality, lower, Comparison.schemaName?, ihl, ihr]
  | connective op l r ihl ihr => rw [withoutInequality, lower, ihl, ihr, lower]

/-- The operators and the values of the leaves determine the compiled form. -/
theorem lower_congr {a b : Expression} (h : a.withValues = b.withValues) : a.lower = b.lower := by
  induction a generalizing b with
  | leaf text =>
    cases b with
    | leaf other => exact SchemaReading.value.inj h
    | _ => cases h
  | negation a ih =>
    cases b with
    | negation b => rw [lower, ih (SchemaReading.negation.inj h), lower]
    | _ => cases h
  | comparison op l r ihl ihr =>
    cases b with
    | comparison op' l' r' =>
      obtain ⟨rfl, hl, hr⟩ := SchemaReading.comparison.inj h
      rw [lower, ihl hl, ihr hr, lower]
    | _ => cases h
  | connective op l r ihl ihr =>
    cases b with
    | connective op' l' r' =>
      obtain ⟨rfl, hl, hr⟩ := SchemaReading.connective.inj h
      rw [lower, ihl hl, ihr hr, lower]
    | _ => cases h

/-- Compiling loses nothing of a condition but how its inequalities and the values of its leaves are
spelled. -/
theorem lower_faithful :
    (∀ e : Expression, ofJson? e.lower = some e.withoutInequality.withValues) ∧
      ∀ a b : Expression, a.lower = b.lower ↔
        a.withoutInequality.withValues = b.withoutInequality.withValues := by
  refine ⟨ofJson?_lower, fun a b => ⟨fun h => ?_, fun h => ?_⟩⟩
  · have hread := ofJson?_lower a
    rw [h, ofJson?_lower b] at hread
    exact (Option.some.inj hread).symm
  · rw [← lower_withoutInequality a, ← lower_withoutInequality b]
    exact lower_congr h

example : lower (.comparison .notEqual (.leaf "a") (.leaf "01")) =
    lower (.negation (.comparison .equal (.leaf "a") (.leaf "1"))) := by rfl

end Expression

end Workflow

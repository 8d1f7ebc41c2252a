import Mathlib.Data.List.Basic
import Workflow.Flow.Build
import Workflow.Proofs.Graph.Insertion
import Workflow.Proofs.Supply

/-!
# How actions are built

All kinds of actions are built in the same three steps: the payload is made from the fields of the
definition, then the nested sequences are filled one after the other, and last the action draws its
identity. The kinds differ only in the payload and in what is nested where. A step of a build runs
from one supply to another, also if it fails.
-/

set_option autoImplicit false

namespace Workflow

namespace Building
variable {α β : Type}

/-- From one supply to another a step gives a result. -/
def Runs (x : Building α) (s : Supply) (r : Except FlowError α) (s' : Supply) : Prop :=
  x.run.run s = (r, s')

def ofResult : Except FlowError α → Building α
  | .ok a => pure a
  | .error e => throw e

theorem runs_exists (x : Building α) (s : Supply) : ∃ r s', Runs x s r s' := ⟨_, _, rfl⟩

theorem runs_pure {a : α} {s s' : Supply} {r : Except FlowError α} :
    Runs (pure a) s r s' ↔ r = .ok a ∧ s' = s := by
  change ((Except.ok a, s) = (r, s')) ↔ _
  rw [Prod.mk.injEq]
  exact and_congr eq_comm eq_comm

theorem runs_throw {e : FlowError} {s s' : Supply} {r : Except FlowError α} :
    Runs (throw e) s r s' ↔ r = .error e ∧ s' = s := by
  change ((Except.error e, s) = (r, s')) ↔ _
  rw [Prod.mk.injEq]
  exact and_congr eq_comm eq_comm

theorem runs_ofResult {x r : Except FlowError α} {s s' : Supply} :
    Runs (ofResult x) s r s' ↔ r = x ∧ s' = s := by
  cases x with
  | ok a => exact runs_pure
  | error e => exact runs_throw

theorem run_bind (x : Building α) (f : α → Building β) (s : Supply) :
    (x >>= f).run.run s = match x.run.run s with
      | (.ok a, s₁) => (f a).run.run s₁
      | (.error e, s₁) => (.error e, s₁) := by
  rw [ExceptT.run_bind, StateT.run_bind]
  change (match x.run.run s with | (r, s₁) => _) = _
  obtain ⟨r, s₁⟩ := x.run.run s
  cases r <;> rfl

theorem runs_bind_ok {x : Building α} {f : α → Building β} {b : β} {s s' : Supply} :
    Runs (x >>= f) s (.ok b) s' ↔ ∃ a s₁, Runs x s (.ok a) s₁ ∧ Runs (f a) s₁ (.ok b) s' := by
  unfold Runs
  rw [run_bind]
  rcases x.run.run s with ⟨e | a, s₁⟩
  · constructor
    · intro h
      cases h
    · rintro ⟨a, s₂, h, -⟩
      cases h
  · constructor
    · exact fun h => ⟨a, s₁, rfl, h⟩
    · rintro ⟨a', s₂, h, hf⟩
      cases h
      exact hf

theorem runs_bind_error {x : Building α} {f : α → Building β} {e : FlowError} {s s' : Supply} :
    Runs (x >>= f) s (.error e) s' ↔
      Runs x s (.error e) s' ∨ ∃ a s₁, Runs x s (.ok a) s₁ ∧ Runs (f a) s₁ (.error e) s' := by
  unfold Runs
  rw [run_bind]
  rcases x.run.run s with ⟨e' | a, s₁⟩
  · constructor
    · intro h
      cases h
      exact .inl rfl
    · rintro (h | ⟨a, s₂, h, -⟩)
      · cases h
        rfl
      · cases h
  · constructor
    · exact fun h => .inr ⟨a, s₁, rfl, h⟩
    · rintro (h | ⟨a', s₂, h, hf⟩)
      · cases h
      · cases h
        exact hf

theorem runs_create {source : IdSource} {name kind : String} {payload : Fields} {s s' : Supply}
    {r : Except FlowError Node} :
    Runs (Node.create source name kind payload) s r s' ↔
      r = .ok (Node.detached (source.spell (s.count source.key)) name kind payload) ∧
        s' = s.advance source.key := by
  change ((Except.ok (Node.detached (source.spell (s.count source.key)) name kind payload),
    s.advance source.key) = (r, s')) ↔ _
  rw [Prod.mk.injEq]
  exact and_congr eq_comm eq_comm

theorem runs_ofInsertion_ok {x : Except GraphError (String × Graph)} {g : Graph} {s s' : Supply} :
    Runs (ofInsertion x) s (.ok g) s' ↔ (∃ name, x = .ok (name, g)) ∧ s' = s := by
  rcases x with e | ⟨name, joined⟩
  · simp [ofInsertion, runs_throw]
  · simp [ofInsertion, runs_pure, eq_comm]

theorem runs_ofInsertion_error {x : Except GraphError (String × Graph)} {e : FlowError}
    {s s' : Supply} :
    Runs (ofInsertion x) s (.error e) s' ↔ (∃ cause, x = .error cause ∧ e = .graph cause) ∧ s' = s := by
  rcases x with cause | ⟨name, joined⟩
  · simp [ofInsertion, runs_throw]
  · simp [ofInsertion, runs_pure]

end Building

/-- What is nested in an action that is to be built: a list of definitions, or ready-made actions. -/
inductive Part where
  | actions (list : List ActionDefinition)
  | raw (actions : Raw)

namespace ActionDefinition
open Building

/-- The payload, without what is nested. Its places for nested sequences are empty. -/
def payload (d : ActionDefinition) : Except FlowError Fields :=
  if d.kind = "If" then
    match d.condition with
    | none => .error (.missingCondition d.name)
    | some source =>
      match Condition.ofText source with
      | .ok c => .ok [("expression", c.lower), ("actions", .object [])]
      | .error e => .error (.condition e)
  else if d.kind = "Foreach" then
    match d.items with
    | none => .error (.missingItems d.name)
    | some items => .ok [("foreach", .string items)]
  else if d.kind = "Scope" then .ok []
  else if d.kind = "Until" then
    match d.expression with
    | none => .error (.missingExpression d.name)
    | some expression =>
      .ok [("actions", .null), ("expression", .string expression),
        ("limit", .object [("count", .int (d.limit.getD Node.defaultLimit)),
          ("timeout", .string Node.loopTimeout)])]
  else .ok (d.inputs.map fun v => ("inputs", v)).toList

/-- The nested sequences with the paths under which they are exported, in the order in which they
are built. -/
def parts (d : ActionDefinition) : List (List String × Part) :=
  if d.kind = "If" then
    (if d.actions.isEmpty then [] else [(["actions"], .actions d.actions)]) ++
      (d.otherwise.map fun list => (["else", "actions"], .actions list)).toList
  else if d.kind = "Foreach" then [(["actions"], .actions d.actions)]
  else if d.kind = "Scope" then
    match d.raw with
    | some v => [(["actions"], .raw (.ofJson v))]
    | none => [(["actions"], .actions d.actions)]
  else if d.kind = "Until" then [(["actions"], .actions d.actions)]
  else []

/-- The lists of definitions that are built when the action is. -/
def nested (d : ActionDefinition) : List (List ActionDefinition) :=
  if d.kind = "If" then d.actions :: d.otherwise.toList
  else if d.kind = "Foreach" ∨ d.kind = "Until" then [d.actions]
  else if d.kind = "Scope" ∧ d.raw.isNone then [d.actions]
  else []

/-- The kinds in which one list is nested, in a scope only if its actions are not ready-made. -/
def HasList (d : ActionDefinition) : Prop :=
  d.kind = "Foreach" ∨ d.kind = "Until" ∨ (d.kind = "Scope" ∧ d.raw.isNone)

/-- The shapes of definitions, by what is nested in them. -/
inductive Shape (d : ActionDefinition) : Prop where
  | branch : d.kind = "If" → Shape d
  | list : d.HasList → Shape d
  | raw {v : Json} : d.kind = "Scope" → d.raw = some v → Shape d
  | plain : d.kind ≠ "If" → d.kind ≠ "Foreach" → d.kind ≠ "Scope" → d.kind ≠ "Until" → Shape d

theorem shape (d : ActionDefinition) : d.Shape := by
  by_cases hIf : d.kind = "If"
  · exact .branch hIf
  by_cases hlist : d.HasList
  · exact .list hlist
  by_cases hScope : d.kind = "Scope"
  · cases hraw : d.raw with
    | some v => exact .raw hScope hraw
    | none => exact absurd (.inr (.inr ⟨hScope, by rw [hraw]; rfl⟩)) hlist
  · exact .plain hIf (fun h => hlist (.inl h)) hScope fun h => hlist (.inr (.inl h))

section Shapes
variable {d : ActionDefinition}

theorem HasList.kind_ne_if (h : d.HasList) : d.kind ≠ "If" := by
  rcases h with hkind | hkind | ⟨hkind, -⟩ <;> simp [hkind]

theorem HasList.parts_eq (h : d.HasList) : d.parts = [(["actions"], .actions d.actions)] := by
  rcases h with hkind | hkind | ⟨hkind, hraw⟩
  · simp [parts, hkind]
  · simp [parts, hkind]
  · simp [parts, hkind, Option.isNone_iff_eq_none.mp hraw]

theorem HasList.nested_eq (h : d.HasList) : d.nested = [d.actions] := by
  rcases h with hkind | hkind | ⟨hkind, hraw⟩
  · simp [nested, hkind]
  · simp [nested, hkind]
  · simp [nested, hkind, hraw]

end Shapes

def fillPart (source : IdSource) : Part → Building (Nested Node)
  | .actions list => Nested.graph <$> fill source (Graph.empty false source) list
  | .raw r => return .raw r

def fillParts (source : IdSource) : List (List String × Part) → Building (List (Slot Node))
  | [] => return []
  | (path, part) :: rest => do
    let actions ← fillPart source part
    let slots ← fillParts source rest
    return ⟨path, actions⟩ :: slots

/-- All kinds are built in the same steps. -/
theorem build_eq (source : IdSource) (d : ActionDefinition) :
    d.build source = do
      let payload ← ofResult d.payload
      let slots ← fillParts source d.parts
      let n ← Node.create source d.name d.kind payload
      return { n with slots } := by
  obtain ⟨name, kind, inputs, after, mode, top, condition, items, expression, limit, actions,
    otherwise, raw⟩ := d
  unfold build payload parts
  dsimp only
  by_cases hIf : kind = "If"
  · subst hIf
    simp only [if_true]
    cases condition with
    | none => rfl
    | some text =>
      cases hc : Condition.ofText text with
      | error e => simp [required, ofCondition, hc, ofResult]
      | ok c =>
        cases actions <;> cases otherwise <;>
          simp [required, ofCondition, hc, ofResult, fillParts, fillPart, buildOptional, Node.branch]
  by_cases hForeach : kind = "Foreach"
  · subst hForeach
    cases items with
    | none => rfl
    | some items =>
      simp [required, ofResult, fillParts, fillPart, Node.forEach, Node.nest, Node.create, Node.detached]
  by_cases hScope : kind = "Scope"
  · subst hScope
    cases raw with
    | some v =>
      simp [ofResult, fillParts, fillPart, Node.scope, Node.nest, Node.create, Node.detached]
    | none =>
      simp [ofResult, fillParts, fillPart, Node.scope, Node.nest, Node.create, Node.detached]
  by_cases hUntil : kind = "Until"
  · subst hUntil
    cases expression with
    | none => rfl
    | some expression =>
      simp [required, ofResult, fillParts, fillPart, Node.loop, Node.nest, Node.create, Node.detached]
  · simp [hIf, hForeach, hScope, hUntil, ofResult, fillParts, Node.create, Node.detached]

section Runs
variable {source : IdSource} {d : ActionDefinition} {g g' : Graph} {s s' : Supply} {e : FlowError}

/-- A built action has drawn its identity last and is not put in anywhere. -/
theorem build_ok {n : Node} (h : Runs (d.build source) s (.ok n) s') :
    ∃ payload slots s₁, d.payload = .ok payload ∧
      Runs (fillParts source d.parts) s (.ok slots) s₁ ∧
      n = ⟨source.spell (s₁.count source.key), d.name, d.kind, payload, slots, [], false⟩ ∧
      s' = s₁.advance source.key := by
  rw [build_eq] at h
  obtain ⟨payload, s₀, h₀, h₁⟩ := runs_bind_ok.mp h
  obtain ⟨hpayload, hs₀⟩ := runs_ofResult.mp h₀
  obtain ⟨slots, s₁, hslots, h₂⟩ := runs_bind_ok.mp h₁
  obtain ⟨m, s₂, h₃, h₄⟩ := runs_bind_ok.mp h₂
  obtain ⟨hm, hs₂⟩ := runs_create.mp h₃
  obtain ⟨hn, hs'⟩ := runs_pure.mp h₄
  rw [Except.ok.inj hm] at hn
  rw [hs₀] at hslots
  exact ⟨payload, slots, s₁, hpayload.symm, hslots, Except.ok.inj hn, hs'.trans hs₂⟩

theorem build_error (h : Runs (d.build source) s (.error e) s') :
    d.payload = .error e ∨
      ∃ payload, d.payload = .ok payload ∧ Runs (fillParts source d.parts) s (.error e) s' := by
  rw [build_eq] at h
  rcases runs_bind_error.mp h with h₀ | ⟨payload, s₀, h₀, h₁⟩
  · exact .inl (runs_ofResult.mp h₀).1.symm
  obtain ⟨hpayload, hs₀⟩ := runs_ofResult.mp h₀
  rcases runs_bind_error.mp h₁ with h₂ | ⟨slots, s₁, -, h₂⟩
  · rw [hs₀] at h₂
    exact .inr ⟨payload, hpayload.symm, h₂⟩
  rcases runs_bind_error.mp h₂ with h₃ | ⟨m, s₂, -, h₃⟩
  · cases (runs_create.mp h₃).1
  · cases (runs_pure.mp h₃).1

theorem fillPart_ok {list : List ActionDefinition} {actions : Nested Node}
    (h : Runs (fillPart source (.actions list)) s (.ok actions) s') :
    ∃ g, Runs (fill source (Graph.empty false source) list) s (.ok g) s' ∧ actions = .graph g := by
  simp only [fillPart, map_eq_pure_bind] at h
  obtain ⟨g, s₁, hg, h⟩ := runs_bind_ok.mp h
  obtain ⟨hactions, rfl⟩ := runs_pure.mp h
  exact ⟨g, hg, Except.ok.inj hactions⟩

theorem fillPart_error {list : List ActionDefinition}
    (h : Runs (fillPart source (.actions list)) s (.error e) s') :
    Runs (fill source (Graph.empty false source) list) s (.error e) s' := by
  simp only [fillPart, map_eq_pure_bind] at h
  rcases runs_bind_error.mp h with h | ⟨g, s₁, -, h⟩
  · exact h
  · cases (runs_pure.mp h).1

theorem fillParts_cons_ok {path : List String} {part : Part} {rest : List (List String × Part)}
    {slots : List (Slot Node)} (h : Runs (fillParts source ((path, part) :: rest)) s (.ok slots) s') :
    ∃ actions others s₁, Runs (fillPart source part) s (.ok actions) s₁ ∧
      Runs (fillParts source rest) s₁ (.ok others) s' ∧ slots = ⟨path, actions⟩ :: others := by
  obtain ⟨actions, s₁, hactions, h⟩ := runs_bind_ok.mp h
  obtain ⟨others, s₂, hothers, h⟩ := runs_bind_ok.mp h
  obtain ⟨hslots, rfl⟩ := runs_pure.mp h
  exact ⟨actions, others, s₁, hactions, hothers, Except.ok.inj hslots⟩

theorem fillParts_cons_error {path : List String} {part : Part} {rest : List (List String × Part)}
    (h : Runs (fillParts source ((path, part) :: rest)) s (.error e) s') :
    Runs (fillPart source part) s (.error e) s' ∨
      ∃ actions s₁, Runs (fillPart source part) s (.ok actions) s₁ ∧
        Runs (fillParts source rest) s₁ (.error e) s' := by
  rcases runs_bind_error.mp h with h | ⟨actions, s₁, hactions, h⟩
  · exact .inl h
  · rcases runs_bind_error.mp h with h | ⟨others, s₂, -, h⟩
    · exact .inr ⟨actions, s₁, hactions, h⟩
    · cases (runs_pure.mp h).1

/-- How a built action is put in. -/
def insertion (d : ActionDefinition) (n : Node) : Insertion :=
  if d.top then .top n
  else match d.after with
    | some name => .after n name d.mode
    | none => .append n d.mode

theorem insertInto_eq (n : Node) : d.insertInto g n = g.insert (d.insertion n) := by
  unfold insertInto insertion
  cases d.top
  · cases d.after <;> rfl
  · rfl

theorem fill_cons_ok {rest : List ActionDefinition}
    (h : Runs (fill source g (d :: rest)) s (.ok g') s') :
    ∃ n s₁ name g₁, Runs (d.build source) s (.ok n) s₁ ∧
      g.insert (d.insertion n) = .ok (name, g₁) ∧ Runs (fill source g₁ rest) s₁ (.ok g') s' := by
  rw [fill] at h
  obtain ⟨n, s₁, hn, h₁⟩ := runs_bind_ok.mp h
  obtain ⟨g₁, s₂, h₂, hrest⟩ := runs_bind_ok.mp h₁
  obtain ⟨⟨name, hins⟩, hs₂⟩ := runs_ofInsertion_ok.mp h₂
  rw [insertInto_eq] at hins
  rw [hs₂] at hrest
  exact ⟨n, s₁, name, g₁, hn, hins, hrest⟩

theorem fill_cons_error {rest : List ActionDefinition}
    (h : Runs (fill source g (d :: rest)) s (.error e) s') :
    Runs (d.build source) s (.error e) s' ∨
      ∃ n s₁, Runs (d.build source) s (.ok n) s₁ ∧
        ((∃ cause, g.insert (d.insertion n) = .error cause ∧ e = .graph cause) ∨
          ∃ name g₁, g.insert (d.insertion n) = .ok (name, g₁) ∧
            Runs (fill source g₁ rest) s₁ (.error e) s') := by
  rw [fill] at h
  rcases runs_bind_error.mp h with h₁ | ⟨n, s₁, hn, h₁⟩
  · exact .inl h₁
  refine .inr ⟨n, s₁, hn, ?_⟩
  rcases runs_bind_error.mp h₁ with h₂ | ⟨g₁, s₂, h₂, hrest⟩
  · obtain ⟨⟨cause, hins, he⟩, -⟩ := runs_ofInsertion_error.mp h₂
    rw [insertInto_eq] at hins
    exact .inl ⟨cause, hins, he⟩
  · obtain ⟨⟨name, hins⟩, hs₂⟩ := runs_ofInsertion_ok.mp h₂
    rw [insertInto_eq] at hins
    rw [hs₂] at hrest
    exact .inr ⟨name, g₁, hins, hrest⟩

end Runs

/-- An empty list is nested in a branch that has no part for it. -/
theorem mem_nested_iff {d : ActionDefinition} {list : List ActionDefinition} (hlist : list ≠ []) :
    list ∈ d.nested ↔ ∃ path, (path, .actions list) ∈ d.parts := by
  cases d.shape with
  | branch hkind =>
    unfold nested parts
    cases d.actions <;> cases d.otherwise <;> simp [hkind, hlist, exists_or]
  | list h => simp [h.nested_eq, h.parts_eq]
  | raw hkind hraw => simp [nested, parts, hkind, hraw]
  | plain hIf hForeach hScope hUntil => simp [nested, parts, hIf, hForeach, hScope, hUntil]

theorem nested_of_parts {a d : ActionDefinition} {list : List ActionDefinition}
    {path : List String} (hpart : (path, .actions list) ∈ d.parts) (ha : a ∈ list) :
    list ∈ d.nested :=
  (mem_nested_iff (List.ne_nil_of_mem ha)).mpr ⟨path, hpart⟩

theorem sizeOf_lt_of_mem_nested {a d : ActionDefinition} {list : List ActionDefinition}
    (hlist : list ∈ d.nested) (ha : a ∈ list) : sizeOf a < sizeOf d := by
  have hmem := List.sizeOf_lt_of_mem ha
  obtain ⟨name, kind, inputs, after, mode, top, condition, items, expression, limit, actions,
    otherwise, raw⟩ := d
  have hcases : list = actions ∨ otherwise = some list := by
    unfold nested at hlist
    grind
  rcases hcases with rfl | rfl
  · simp only [mk.sizeOf_spec]
    omega
  · simp only [mk.sizeOf_spec, Option.some.sizeOf_spec]
    omega

/-- What holds of a definition if it holds of all in its nested lists holds of every definition. -/
theorem induct {P : ActionDefinition → Prop}
    (step : ∀ d, (∀ list ∈ d.nested, ∀ a ∈ list, P a) → P d) (d : ActionDefinition) : P d :=
  step d fun _ hlist a ha =>
    have := sizeOf_lt_of_mem_nested hlist ha
    induct step a
termination_by sizeOf d

end ActionDefinition

end Workflow

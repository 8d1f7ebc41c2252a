import Workflow.Proofs.Flow.Buildable

/-!
# Why a definition is refused

The error of a build can be read off the definition, as its document can. It is about the first
action that cannot be built, in the order in which the actions are complete: its fields come before
what is nested in it, and what is nested in it before its place in the list. Where identities are
never repeated, a build fails with this error and with no other.
-/

set_option autoImplicit false

namespace Workflow

/-- The error of a step that fails. -/
def failure? {α : Type} : Except FlowError α → Option FlowError
  | .ok _ => none
  | .error e => some e

namespace ActionDefinition

/-- The name after which an action is to run, if no earlier action has it. -/
def missing? (earlier : List String) (d : ActionDefinition) : Option String :=
  if d.top then none else d.after.filter fun name => name ∉ earlier

/-- Why an action may not stand in a list behind actions with the given keys. -/
def misfit? (isRoot : Bool) (earlier : List String) (d : ActionDefinition) : Option GraphError :=
  match d.missing? earlier with
  | some name => some (.unknownReference name)
  | none =>
    if !isRoot && d.kind = declarationKind then some (.restrictedKind d.name d.kind) else none

mutual

def refusal? : ActionDefinition → Option FlowError
  | ⟨name, kind, inputs, after, mode, top, condition, items, expression, limit, actions, otherwise,
      raw⟩ =>
    (failure? (payload ⟨name, kind, inputs, after, mode, top, condition, items, expression, limit,
      actions, otherwise, raw⟩)).or
      (if kind = "If" then (listRefusal? false [] actions).or (optionalRefusal? otherwise)
        else if kind = "Foreach" ∨ kind = "Until" ∨ (kind = "Scope" ∧ raw.isNone) then
          listRefusal? false [] actions
        else none)

/-- Why a list may not stand behind actions with the given keys. -/
def listRefusal? (isRoot : Bool) (earlier : List String) : List ActionDefinition → Option FlowError
  | [] => none
  | d :: rest =>
    d.refusal?.or (((d.misfit? isRoot earlier).map FlowError.graph).or
      (listRefusal? isRoot (earlier ++ [d.key earlier]) rest))

def optionalRefusal? : Option (List ActionDefinition) → Option FlowError
  | none => none
  | some list => listRefusal? false [] list

end

end ActionDefinition

def Part.refusal? : Part → Option FlowError
  | .actions list => ActionDefinition.listRefusal? false [] list
  | .raw _ => none

namespace FlowDefinition

/-- The first trigger whose name is taken already. -/
def triggerRefusal? (taken : List String) : Fields → Option FlowError
  | [] => none
  | (name, _) :: rest =>
    if name ∈ taken then some (.duplicateTrigger name) else triggerRefusal? (taken ++ [name]) rest

def refusal? (d : FlowDefinition) : Option FlowError :=
  (triggerRefusal? [] d.triggers).or (ActionDefinition.listRefusal? true [] d.actions)

end FlowDefinition

namespace ActionDefinition
open Building
variable {source : IdSource} {d : ActionDefinition} {list : List ActionDefinition} {g g' : Graph}
  {s s' : Supply} {n : Node}

theorem findSome?_cons_or {α β : Type} (f : α → Option β) (x : α) (xs : List α) :
    (x :: xs).findSome? f = (f x).or (xs.findSome? f) := by
  rw [List.findSome?_cons]
  cases f x <;> rfl

theorem refusal?_eq (d : ActionDefinition) :
    d.refusal? = (failure? d.payload).or (d.parts.findSome? fun part => part.2.refusal?) := by
  have hshape := d.shape
  obtain ⟨name, kind, inputs, after, mode, top, condition, items, expression, limit, actions,
    otherwise, raw⟩ := d
  rw [refusal?]
  congr 1
  cases hshape with
  | branch hkind =>
    obtain rfl : kind = "If" := hkind
    cases actions <;> cases otherwise <;>
      simp [parts, Part.refusal?, listRefusal?, optionalRefusal?, findSome?_cons_or]
  | list h =>
    have hlist : kind = "Foreach" ∨ kind = "Until" ∨ (kind = "Scope" ∧ raw.isNone) := h
    rw [h.parts_eq, if_neg h.kind_ne_if, if_pos hlist]
    simp [Part.refusal?]
  | @raw v hkind hraw =>
    obtain rfl : kind = "Scope" := hkind
    obtain rfl : raw = some v := hraw
    simp [parts, Part.refusal?]
  | plain hIf hForeach hScope hUntil =>
    dsimp only at hIf hForeach hScope hUntil
    simp [parts, hIf, hForeach, hScope, hUntil]

/-- A build of the action fails with the error that is read, and only if one is read. -/
def IsRefused (source : IdSource) (d : ActionDefinition) : Prop :=
  ∀ s r s', Runs (d.build source) s r s' → d.refusal? = failure? r

/-- The reference that a graph cannot resolve is the name that is missing. -/
theorem missing?_eq (h : g.WellFormed) :
    d.missing? g.names =
      match g.resolve? (d.insertion n).reference with
      | some _ => none
      | none => some ((d.insertion n).reference.getD "") := by
  cases htop : d.top with
  | true => simp [missing?, insertion, htop, Insertion.reference, Graph.resolve?]
  | false =>
    cases hafter : d.after with
    | none => simp [missing?, insertion, htop, hafter, Insertion.reference, Graph.resolve?]
    | some name =>
      have hindex := h.exists_indexOf? name
      cases hp : g.indexOf? name with
      | some p =>
        have hmem : name ∈ g.names := hindex.mp ⟨p, hp⟩
        simp [missing?, insertion, htop, hafter, Insertion.reference, Graph.resolve?, hp, hmem]
      | none =>
        have hmem : name ∉ g.names := by simpa [hp] using hindex
        simp [missing?, insertion, htop, hafter, Insertion.reference, Graph.resolve?, hp, hmem]

/-- A new action is refused for its definition, and for nothing else. -/
theorem misfit?_eq (h : g.WellFormed) (hname : n.name = d.name) (hkind : n.kind = d.kind)
    (hfresh : g.hasIdentity n.id = false ∧ n.isAttached = false) :
    d.misfit? g.isRoot g.names =
      match g.insert (d.insertion n) with
      | .ok _ => none
      | .error cause => some cause := by
  rw [misfit?, @missing?_eq d g n h, Graph.insert_eq, Graph.check_eq, insertion_node, hfresh.1,
    hfresh.2, hname, hkind]
  cases g.resolve? (d.insertion n).reference with
  | none => rfl
  | some p =>
    by_cases hdeclares : (!g.isRoot && d.kind = declarationKind) = true
    · simp [hdeclares, Except.map]
    · simp [hdeclares, Except.map]

theorem fill_refusal (hsource : Function.Injective source.spell)
    (hlist : ∀ a ∈ list, a.IsRefused source) (hw : g.WellFormed) (hg : Numbered source s g)
    {r : Except FlowError Graph} (h : Runs (fill source g list) s r s') :
    listRefusal? g.isRoot g.names list = failure? r := by
  induction list generalizing g s with
  | nil =>
    obtain ⟨rfl, -⟩ := runs_pure.mp h
    rfl
  | cons d rest ih =>
    have hd := hlist d List.mem_cons_self
    -- the next action is put in or refused as it is read
    have hmisfit : ∀ {n s₁}, Runs (d.build source) s (.ok n) s₁ →
        d.misfit? g.isRoot g.names = match g.insert (d.insertion n) with
          | .ok _ => none
          | .error cause => some cause := by
      intro n s₁ hbuild
      obtain ⟨fields, k, -, -, hn⟩ := d.isRead source s s₁ n hbuild
      exact misfit?_eq hw hn.name hn.kind (build_fresh hsource hg hbuild)
    have hnext : ∀ {n s₁ name g₁}, Runs (d.build source) s (.ok n) s₁ →
        g.insert (d.insertion n) = .ok (name, g₁) → Runs (fill source g₁ rest) s₁ r s' →
        listRefusal? g.isRoot g.names (d :: rest) = failure? r := by
      intro n s₁ name g₁ hbuild hins hrest
      obtain ⟨fields, k, -, -, hn⟩ := d.isRead source s s₁ n hbuild
      have hothers := ih (fun a ha => hlist a (List.mem_cons_of_mem _ ha)) (hw.insert hins)
        (hg.insert hw hbuild hins) hrest
      rw [(hn.insert hw hins).1, Graph.insert_isRoot hins] at hothers
      rw [listRefusal?, hd s _ s₁ hbuild, hmisfit hbuild, hins, hothers]
      rfl
    cases r with
    | ok g' =>
      obtain ⟨n, s₁, name, g₁, hbuild, hins, hrest⟩ := fill_cons_ok h
      exact hnext hbuild hins hrest
    | error e =>
      rcases fill_cons_error h with
        hbuild | ⟨n, s₁, hbuild, ⟨cause, hins, rfl⟩ | ⟨name, g₁, hins, hrest⟩⟩
      · rw [listRefusal?, hd s _ s' hbuild]
        rfl
      · rw [listRefusal?, hd s _ s₁ hbuild, hmisfit hbuild, hins]
        rfl
      · exact hnext hbuild hins hrest

theorem fillPart_refusal (hsource : Function.Injective source.spell) {part : Part}
    (hpart : ∀ list, part = .actions list → ∀ a ∈ list, a.IsRefused source)
    {r : Except FlowError (Nested Node)} (h : Runs (fillPart source part) s r s') :
    part.refusal? = failure? r := by
  cases part with
  | raw r =>
    obtain ⟨rfl, -⟩ := runs_pure.mp h
    rfl
  | actions list =>
    have hw := Graph.empty_wellFormed false source
    have hg := numbered_empty source s false
    cases r with
    | ok actions =>
      obtain ⟨g, hfill, -⟩ := fillPart_ok h
      exact fill_refusal hsource (hpart list rfl) hw hg hfill
    | error e => exact fill_refusal hsource (hpart list rfl) hw hg (fillPart_error h)

theorem fillParts_refusal (hsource : Function.Injective source.spell)
    {parts : List (List String × Part)}
    (hparts : ∀ path list, (path, .actions list) ∈ parts → ∀ a ∈ list, a.IsRefused source)
    {r : Except FlowError (List (Slot Node))} (h : Runs (fillParts source parts) s r s') :
    (parts.findSome? fun part => part.2.refusal?) = failure? r := by
  induction parts generalizing s r with
  | nil =>
    obtain ⟨rfl, -⟩ := runs_pure.mp h
    rfl
  | cons entry rest ih =>
    obtain ⟨path, part⟩ := entry
    have hrest := fun path list hmem => hparts path list (List.mem_cons_of_mem _ hmem)
    have hpart : ∀ list, part = .actions list → ∀ a ∈ list, a.IsRefused source := by
      rintro list rfl
      exact hparts path list List.mem_cons_self
    rw [findSome?_cons_or]
    cases r with
    | ok slots =>
      obtain ⟨actions, others, s₁, hactions, hothers, -⟩ := fillParts_cons_ok h
      rw [fillPart_refusal hsource hpart hactions, ih hrest hothers]
      rfl
    | error e =>
      rcases fillParts_cons_error h with hfails | ⟨actions, s₁, hactions, hothers⟩
      · rw [fillPart_refusal hsource hpart hfails]
        rfl
      · rw [fillPart_refusal hsource hpart hactions, ih hrest hothers]
        rfl

theorem isRefused (hsource : Function.Injective source.spell) (d : ActionDefinition) :
    d.IsRefused source := by
  induction d using induct with
  | step d ih =>
    intro s r s' h
    have hparts : ∀ path list, (path, .actions list) ∈ d.parts → ∀ a ∈ list, a.IsRefused source :=
      fun path list hmem a ha => ih list (nested_of_parts hmem ha) a ha
    rw [refusal?_eq]
    cases r with
    | ok n =>
      obtain ⟨payload, slots, s₁, hpayload, hslots, -⟩ := build_ok h
      rw [hpayload, fillParts_refusal hsource hparts hslots]
      rfl
    | error e =>
      rcases build_error h with hpayload | ⟨payload, hpayload, hslots⟩
      · rw [hpayload]
        rfl
      · rw [hpayload, fillParts_refusal hsource hparts hslots]
        rfl

end ActionDefinition

namespace FlowDefinition
open Building
variable {source : IdSource} {s s' : Supply}

theorem setTriggers_refusal (fs : Fields) (f : Flow) :
    triggerRefusal? (Fields.keys f.triggers) fs = failure? (setTriggers f fs) := by
  induction fs generalizing f with
  | nil => rfl
  | cons entry rest ih =>
    obtain ⟨name, payload⟩ := entry
    unfold triggerRefusal? setTriggers Flow.setTrigger
    by_cases hname : name ∈ Fields.keys f.triggers
    · rw [if_pos hname, if_pos (Fields.contains_iff.mpr hname)]
      rfl
    · rw [if_neg hname, if_neg (mt Fields.contains_iff.mp hname)]
      have hrest := ih { f with triggers := f.triggers ++ [(name, payload)] }
      rwa [Fields.keys, List.map_append] at hrest

/-- Where identities are never repeated, a build fails exactly with the error that is read. -/
theorem build_refusal (hsource : Function.Injective source.spell) (d : FlowDefinition)
    {r : Except FlowError Flow} (h : Runs (d.build source) s r s') : d.refusal? = failure? r := by
  have htriggers : triggerRefusal? [] d.triggers =
      failure? (setTriggers (Flow.empty source) d.triggers) :=
    setTriggers_refusal d.triggers (Flow.empty source)
  -- setting triggers does not touch the graph
  have hfill : ∀ {f : Flow} {r : Except FlowError Graph} {s₁ s₂ : Supply},
      setTriggers (Flow.empty source) d.triggers = .ok f →
        Runs (ActionDefinition.fill source f.actions d.actions) s₁ r s₂ →
          ActionDefinition.listRefusal? true [] d.actions = failure? r := by
    intro f r s₁ s₂ hf hrun
    rw [setTriggers_ok hf] at hrun
    exact ActionDefinition.fill_refusal hsource (fun a _ => a.isRefused hsource)
      (Graph.empty_wellFormed true source) (ActionDefinition.numbered_empty source s₁ true) hrun
  rw [build_eq] at h
  rw [refusal?, htriggers]
  cases r with
  | ok f =>
    obtain ⟨f₀, s₀, h₀, h₁⟩ := runs_bind_ok.mp h
    have hf₀ := (runs_ofResult.mp h₀).1.symm
    obtain ⟨g, s₁, hg, -⟩ := runs_bind_ok.mp h₁
    rw [hf₀, hfill hf₀ hg]
    rfl
  | error e =>
    rcases runs_bind_error.mp h with h₀ | ⟨f₀, s₀, h₀, h₁⟩
    · rw [(runs_ofResult.mp h₀).1.symm]
      rfl
    · have hf₀ := (runs_ofResult.mp h₀).1.symm
      rcases runs_bind_error.mp h₁ with hg | ⟨g, s₁, -, hpure⟩
      · rw [hf₀, hfill hf₀ hg]
        rfl
      · cases (runs_pure.mp hpure).1

theorem build_fails_iff (hsource : Function.Injective source.spell) (d : FlowDefinition)
    (s : Supply) (e : FlowError) :
    (∃ s', Runs (d.build source) s (.error e) s') ↔ d.refusal? = some e := by
  constructor
  · rintro ⟨s', h⟩
    exact build_refusal hsource d h
  · intro he
    obtain ⟨r, s', h⟩ := runs_exists (d.build source) s
    rw [build_refusal hsource d h] at he
    cases r with
    | ok f => cases he
    | error e' =>
      obtain rfl := Option.some.inj he
      exact ⟨s', h⟩

theorem build_succeeds_iff (hsource : Function.Injective source.spell) (d : FlowDefinition)
    (s : Supply) : (∃ f s', Runs (d.build source) s (.ok f) s') ↔ d.refusal? = none := by
  constructor
  · rintro ⟨f, s', h⟩
    exact build_refusal hsource d h
  · intro hnone
    obtain ⟨r, s', h⟩ := runs_exists (d.build source) s
    rw [build_refusal hsource d h] at hnone
    cases r with
    | ok f => exact ⟨f, s', h⟩
    | error e => cases hnone

end FlowDefinition

end Workflow

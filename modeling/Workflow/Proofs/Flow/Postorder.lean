import Mathlib.Data.List.Forall2
import Workflow.Proofs.Flow.Reading
import Workflow.Proofs.Graph.Site

/-!
# Built actions in the order of their completion

Actions draw their identities in the order in which they are complete: those of a list in the order
of the list, and each one behind all that are nested in it. So the actions that are built from some
definitions are listed in that order with the identities that are drawn meanwhile, no others and none
of them twice.
-/

set_option autoImplicit false

namespace Workflow

namespace ActionDefinition

mutual

/-- The definitions that are built with this one, itself the last. Ready-made actions are not built,
nor is a list that the kind does not use. -/
def postorder : ActionDefinition → List ActionDefinition
  | ⟨name, kind, inputs, after, mode, top, condition, items, expression, limit, actions, otherwise,
      raw⟩ =>
    (if kind = "If" then listPostorder actions ++ optionalPostorder otherwise
      else if kind = "Foreach" ∨ kind = "Until" ∨ (kind = "Scope" ∧ raw.isNone) then
        listPostorder actions
      else []) ++
      [⟨name, kind, inputs, after, mode, top, condition, items, expression, limit, actions,
        otherwise, raw⟩]

def listPostorder : List ActionDefinition → List ActionDefinition
  | [] => []
  | d :: rest => d.postorder ++ listPostorder rest

def optionalPostorder : Option (List ActionDefinition) → List ActionDefinition
  | none => []
  | some list => listPostorder list

end

end ActionDefinition

def Part.postorder : Part → List ActionDefinition
  | .actions list => ActionDefinition.listPostorder list
  | .raw _ => []

def FlowDefinition.postorder (d : FlowDefinition) : List ActionDefinition :=
  ActionDefinition.listPostorder d.actions

namespace ActionDefinition
open Building
variable {source : IdSource} {d : ActionDefinition} {list : List ActionDefinition} {g g' : Graph}
  {s s₁ s' : Supply}

theorem postorder_eq (d : ActionDefinition) :
    d.postorder = d.parts.flatMap (fun part => part.2.postorder) ++ [d] := by
  have hshape := d.shape
  obtain ⟨name, kind, inputs, after, mode, top, condition, items, expression, limit, actions,
    otherwise, raw⟩ := d
  rw [postorder]
  congr 1
  cases hshape with
  | branch hkind =>
    obtain rfl : kind = "If" := hkind
    cases actions <;> cases otherwise <;>
      simp [parts, Part.postorder, listPostorder, optionalPostorder]
  | list h =>
    have hlist : kind = "Foreach" ∨ kind = "Until" ∨ (kind = "Scope" ∧ raw.isNone) := h
    rw [h.parts_eq, if_neg h.kind_ne_if, if_pos hlist]
    simp [Part.postorder]
  | @raw v hkind hraw =>
    obtain rfl : kind = "Scope" := hkind
    obtain rfl : raw = some v := hraw
    simp [parts, Part.postorder]
  | plain hIf hForeach hScope hUntil =>
    dsimp only at hIf hForeach hScope hUntil
    simp [parts, hIf, hForeach, hScope, hUntil]

/-- What of an action is fixed by its definition alone, wherever it is put in. -/
structure Yields (d : ActionDefinition) (n : Node) : Prop where
  kind : n.kind = d.kind
  name : ∃ k, n.name = candidate d.name k
  paths : n.slots.map (·.path) = d.parts.map Prod.fst

theorem parts_paths (d : ActionDefinition) :
    d.parts.map Prod.fst ∈ [[], [["actions"]], [["else", "actions"]],
      [["actions"], ["else", "actions"]]] := by
  cases d.shape with
  | branch hkind =>
    unfold parts
    cases d.actions <;> cases d.otherwise <;> simp [hkind]
  | list h => simp [h.parts_eq]
  | raw hkind hraw => simp [parts, hkind, hraw]
  | plain hIf hForeach hScope hUntil => simp [parts, hIf, hForeach, hScope, hUntil]

theorem parts_apart (d : ActionDefinition) :
    (∀ path ∈ d.parts.map Prod.fst, ∀ key ∈ path.head?, key ∉ reservedKeys) ∧
      (∀ path ∈ d.parts.map Prod.fst, path ≠ []) ∧ (d.parts.map Prod.fst).Pairwise Apart := by
  have hall : ∀ paths ∈ [[], [["actions"]], [["else", "actions"]],
      [["actions"], ["else", "actions"]]],
      (∀ path ∈ paths, ∀ key ∈ path.head?, key ∉ reservedKeys) ∧
        (∀ path ∈ paths, path ≠ []) ∧ paths.Pairwise Apart := by decide
  exact hall _ d.parts_paths

theorem Yields.isLegible {n : Node} (h : d.Yields n) : n.IsLegible := by
  obtain ⟨hunreserved, hnonempty, hapart⟩ := d.parts_apart
  rw [← h.paths] at hunreserved hnonempty hapart
  exact ⟨List.forall_mem_map.mp hunreserved,
    fun slot hslot => hnonempty _ (List.mem_map_of_mem hslot), List.pairwise_map.mp hapart⟩

theorem isLegible_of_yields {ds : List ActionDefinition} {ns : List Node}
    (h : List.Forall₂ Yields ds ns) : ∀ n ∈ ns, n.IsLegible := by
  induction h with
  | nil => simp
  | cons hd _ ih => exact List.forall_mem_cons.mpr ⟨hd.isLegible, ih⟩

/-- Some definitions are built between two supplies, each one numbered as it is complete. -/
structure Numbers (source : IdSource) (s s' : Supply) (ds : List ActionDefinition)
    (ns : List Node) : Prop where
  yields : List.Forall₂ Yields ds ns
  identities : ns.map (·.id) = source.drawn s s'
  precedes : s.Precedes s'

theorem Numbers.nil (source : IdSource) (s : Supply) : Numbers source s s [] [] :=
  ⟨.nil, (source.drawn_self s).symm, .refl s⟩

theorem Numbers.append {ds ds' : List ActionDefinition} {ns ns' : List Node}
    (h : Numbers source s s₁ ds ns) (h' : Numbers source s₁ s' ds' ns') :
    Numbers source s s' (ds ++ ds') (ns ++ ns') where
  yields := List.rel_append h.yields h'.yields
  identities := by
    rw [List.map_append, h.identities, h'.identities,
      IdSource.drawn_append h.precedes h'.precedes]
  precedes := h.precedes.trans h'.precedes

/-- As many identities are drawn as definitions are built. -/
theorem Numbers.count {ds : List ActionDefinition} {ns : List Node}
    (h : Numbers source s s' ds ns) : s'.count source.key = s.count source.key + ds.length := by
  have hlength := congrArg List.length h.identities
  rw [List.length_map, IdSource.drawn_length, ← h.yields.length_eq] at hlength
  have hle := h.precedes source.key
  omega

/-- What is nested in the action is numbered when its parts are filled. -/
def IsNumbered (source : IdSource) (d : ActionDefinition) : Prop :=
  ∀ s slots s', Runs (fillParts source d.parts) s (.ok slots) s' →
    Numbers source s s' (d.parts.flatMap fun part => part.2.postorder)
      (slots.flatMap fun slot => slot.actions.postorder)

theorem fillParts_paths {parts : List (List String × Part)} {slots : List (Slot Node)}
    (h : Runs (fillParts source parts) s (.ok slots) s') :
    slots.map (·.path) = parts.map Prod.fst := by
  induction parts generalizing s slots with
  | nil =>
    obtain ⟨rfl, -⟩ := fillParts_nil h
    rfl
  | cons entry rest ih =>
    obtain ⟨path, part⟩ := entry
    obtain ⟨actions, others, s₁, -, hrest, rfl⟩ := fillParts_cons_ok h
    rw [List.map_cons, List.map_cons, ih hrest]

/-- An action that is put in is numbered behind what is nested in it. -/
theorem IsNumbered.insert {n : Node} {name : String} (hd : d.IsNumbered source)
    (hg : g.WellFormed) (hbuild : Runs (d.build source) s (.ok n) s')
    (hins : g.insert (d.insertion n) = .ok (name, g')) :
    ∃ ns, g'.postorder = g.postorder ++ ns ∧ Numbers source s s' d.postorder ns := by
  obtain ⟨payload, slots, s₁, -, hslots, rfl, rfl⟩ := build_ok hbuild
  obtain ⟨-, -, -, p, -, -, rfl⟩ := Graph.insert_ok_iff.mp hins
  have hne : g.nodes ≠ [] := List.length_pos_iff.mp hg.length_pos
  refine ⟨_, Graph.postorder_link hne _ _ _, ?_⟩
  rw [insertion_node, postorder_eq]
  refine (hd s slots s₁ hslots).append ⟨.cons ⟨rfl, ?_, fillParts_paths hslots⟩ .nil, ?_, ?_⟩
  · obtain ⟨k, hk, -⟩ := firstFree_isFirst g.registry.names d.name
    exact ⟨k, hk⟩
  · exact (source.drawn_advance s₁).symm
  · exact Supply.precedes_advance s₁ source.key

theorem fill_numbered (hlist : ∀ a ∈ list, a.IsNumbered source) (hg : g.WellFormed)
    (h : Runs (fill source g list) s (.ok g') s') :
    ∃ ns, g'.postorder = g.postorder ++ ns ∧ Numbers source s s' (listPostorder list) ns := by
  induction list generalizing g s with
  | nil =>
    obtain ⟨hg', rfl⟩ := runs_pure.mp h
    rw [Except.ok.inj hg']
    exact ⟨[], (List.append_nil _).symm, .nil source _⟩
  | cons d rest ih =>
    obtain ⟨n, s₁, name, g₁, hbuild, hins, hrest⟩ := fill_cons_ok h
    obtain ⟨ns, hns, hnumbers⟩ := (hlist d List.mem_cons_self).insert hg hbuild hins
    obtain ⟨ms, hms, hothers⟩ := ih (fun a ha => hlist a (List.mem_cons_of_mem _ ha))
      (hg.insert hins) hrest
    refine ⟨ns ++ ms, ?_, hnumbers.append hothers⟩
    rw [hms, hns, List.append_assoc]

theorem fillParts_numbered {parts : List (List String × Part)} {slots : List (Slot Node)}
    (hparts : ∀ path list, (path, .actions list) ∈ parts → ∀ a ∈ list, a.IsNumbered source)
    (h : Runs (fillParts source parts) s (.ok slots) s') :
    Numbers source s s' (parts.flatMap fun part => part.2.postorder)
      (slots.flatMap fun slot => slot.actions.postorder) := by
  induction parts generalizing s slots with
  | nil =>
    obtain ⟨rfl, rfl⟩ := fillParts_nil h
    exact .nil source _
  | cons entry rest ih =>
    obtain ⟨path, part⟩ := entry
    obtain ⟨actions, others, s₁, hactions, hrest, rfl⟩ := fillParts_cons_ok h
    have hothers := ih (fun path list hmem => hparts path list (List.mem_cons_of_mem _ hmem)) hrest
    rw [List.flatMap_cons, List.flatMap_cons]
    refine Numbers.append ?_ hothers
    cases part with
    | raw r =>
      obtain ⟨hraw, rfl⟩ := runs_pure.mp hactions
      rw [Except.ok.inj hraw]
      exact .nil source _
    | actions list =>
      obtain ⟨g, hg, rfl⟩ := fillPart_ok hactions
      obtain ⟨ns, hns, hnumbers⟩ := fill_numbered (hparts path list List.mem_cons_self)
        (Graph.empty_wellFormed false source) hg
      rw [Nested.postorder_graph, hns]
      exact hnumbers

theorem isNumbered (source : IdSource) (d : ActionDefinition) : d.IsNumbered source := by
  induction d using induct with
  | step d ih =>
    intro s slots s' h
    exact fillParts_numbered (fun path list hmem a ha => ih list (nested_of_parts hmem ha) a ha) h

theorem build_precedes {n : Node} (h : Runs (d.build source) s (.ok n) s') : s.Precedes s' := by
  obtain ⟨payload, slots, s₁, -, hslots, -, rfl⟩ := build_ok h
  exact (d.isNumbered source s slots s₁ hslots).precedes.trans (Supply.precedes_advance s₁ _)

end ActionDefinition

end Workflow

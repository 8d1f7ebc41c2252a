import Workflow.Proofs.Flow.Postorder

/-!
# Which definitions can be built

Whether a definition can be built does not depend on the identities, as long as no draw is repeated:
every listed action has to have the fields that its kind needs, may declare a variable only in the
list of the flow itself, and may run only after an action that is listed before it. Clashes of
identities, of parents or of triggers do not occur.
-/

set_option autoImplicit false

namespace Workflow

/-- An error of a graph about what an action is, not about what its definition says, or an error
about triggers of one name. -/
def FlowError.IsClash : FlowError → Prop
  | .graph (.duplicateIdentity _) => True
  | .graph (.alreadyHasParent _) => True
  | .duplicateTrigger _ => True
  | _ => False

namespace ActionDefinition

/-- The fields that the kind of an action needs are there, and its condition can be read. -/
structure HasFields (d : ActionDefinition) : Prop where
  condition : d.kind = "If" → ∃ text e, d.condition = some text ∧ Expression.parse text = .ok e
  items : d.kind = "Foreach" → d.items.isSome
  expression : d.kind = "Until" → d.expression.isSome

/-- The keys under which the actions of a list are exported, behind earlier ones. -/
def keys (earlier : List String) (list : List ActionDefinition) : List String :=
  list.foldl (fun ks d => ks ++ [d.key ks]) earlier

/-- An action may stand in a list behind actions that have the given keys. -/
structure Fits (isRoot : Bool) (earlier : List String) (d : ActionDefinition) : Prop where
  fields : d.HasFields
  declares : d.kind = declarationKind → isRoot = true
  after : d.top = false → ∀ name, d.after = some name → name ∈ earlier

/-- Every action of a list may stand where it does. -/
def IsSound (isRoot : Bool) (list : List ActionDefinition) : Prop :=
  ∀ before d rest, list = before ++ d :: rest → d.Fits isRoot (keys [] before)

/-- The lists that are built with a list: itself, and those with the nested lists of its actions,
which are not at the root. -/
inductive BuiltWith : Bool → List ActionDefinition → Bool → List ActionDefinition → Prop
  | self (isRoot : Bool) (list : List ActionDefinition) : BuiltWith isRoot list isRoot list
  | nested {isRoot isRoot' : Bool} {list inner list' : List ActionDefinition} {d : ActionDefinition} :
    d ∈ list → inner ∈ d.nested → BuiltWith false inner isRoot' list' →
      BuiltWith isRoot list isRoot' list'

/-- Every list that is built with a list is sound. -/
def IsBuildable (isRoot : Bool) (list : List ActionDefinition) : Prop :=
  ∀ isRoot' list', BuiltWith isRoot list isRoot' list' → IsSound isRoot' list'

theorem isBuildable_iff {isRoot : Bool} {list : List ActionDefinition} :
    IsBuildable isRoot list ↔
      IsSound isRoot list ∧ ∀ d ∈ list, ∀ inner ∈ d.nested, IsBuildable false inner := by
  constructor
  · intro h
    refine ⟨h _ _ (.self isRoot list), ?_⟩
    intro d hd inner hinner isRoot' list' hbuilt
    exact h _ _ (.nested hd hinner hbuilt)
  · rintro ⟨hsound, hnested⟩ isRoot' list' hbuilt
    cases hbuilt with
    | self => exact hsound
    | nested hd hinner hbuilt => exact hnested _ hd _ hinner _ _ hbuilt

/-- An action has its fields, and all that is nested in it can be built. -/
def IsComplete (d : ActionDefinition) : Prop :=
  d.HasFields ∧ ∀ inner ∈ d.nested, IsBuildable false inner

/-- A list may stand behind earlier actions, with all that is built with it. -/
def Continues (isRoot : Bool) (earlier : List String) (list : List ActionDefinition) : Prop :=
  ∀ before d rest, list = before ++ d :: rest →
    d.Fits isRoot (keys earlier before) ∧ ∀ inner ∈ d.nested, IsBuildable false inner

theorem isBuildable_iff_continues {isRoot : Bool} {list : List ActionDefinition} :
    IsBuildable isRoot list ↔ Continues isRoot [] list := by
  rw [isBuildable_iff]
  constructor
  · rintro ⟨hsound, hnested⟩ before d rest rfl
    exact ⟨hsound _ _ _ rfl, hnested d (by simp)⟩
  · intro h
    refine ⟨fun before d rest hlist => (h before d rest hlist).1, ?_⟩
    intro d hd
    obtain ⟨before, rest, hlist⟩ := List.append_of_mem hd
    exact (h before d rest hlist).2

theorem continues_nil (isRoot : Bool) (earlier : List String) : Continues isRoot earlier [] := by
  intro before d rest h
  simp at h

theorem continues_cons {isRoot : Bool} {earlier : List String} {d : ActionDefinition}
    {rest : List ActionDefinition} :
    Continues isRoot earlier (d :: rest) ↔
      (d.Fits isRoot earlier ∧ ∀ inner ∈ d.nested, IsBuildable false inner) ∧
        Continues isRoot (earlier ++ [d.key earlier]) rest := by
  constructor
  · intro h
    refine ⟨h [] d rest rfl, ?_⟩
    rintro before a rest' rfl
    exact h (d :: before) a rest' rfl
  · rintro ⟨hd, hrest⟩ before a rest' hlist
    cases before with
    | nil =>
      obtain ⟨rfl, rfl⟩ := List.cons.inj hlist
      exact hd
    | cons b before =>
      obtain ⟨rfl, rfl⟩ := List.cons.inj hlist
      exact hrest before a rest' rfl

section Runs
open Building
variable {source : IdSource} {d : ActionDefinition} {list : List ActionDefinition} {g g' : Graph}
  {s s' : Supply} {n : Node} {e : FlowError}

theorem hasFields_of_payload {payload : Fields} (h : d.payload = .ok payload) : d.HasFields := by
  unfold ActionDefinition.payload at h
  constructor
  · intro hkind
    rw [if_pos hkind] at h
    cases hc : d.condition with
    | none => simp [hc] at h
    | some text =>
      cases hparse : Expression.parse text with
      | error e => simp [hc, Condition.ofText, hparse, Except.map] at h
      | ok e => exact ⟨text, e, rfl, hparse⟩
  · intro hkind
    cases hi : d.items with
    | none => simp [hkind, hi] at h
    | some items => rfl
  · intro hkind
    cases hx : d.expression with
    | none => simp [hkind, hx] at h
    | some expression => rfl

/-- Why an action has no payload. -/
theorem payload_error (h : d.payload = .error e) :
    (d.kind = "If" ∧ d.condition = none ∧ e = .missingCondition d.name) ∨
      (∃ text cause, d.kind = "If" ∧ d.condition = some text ∧
        Expression.parse text = .error cause ∧ e = .condition cause) ∨
      (d.kind = "Foreach" ∧ d.items = none ∧ e = .missingItems d.name) ∨
      (d.kind = "Until" ∧ d.expression = none ∧ e = .missingExpression d.name) := by
  unfold ActionDefinition.payload at h
  by_cases hIf : d.kind = "If"
  · cases hc : d.condition with
    | none => simp_all
    | some text =>
      cases hparse : Expression.parse text with
      | ok e => simp [hIf, hc, Condition.ofText, hparse, Except.map] at h
      | error cause => simp_all [Condition.ofText, Except.map]
  by_cases hForeach : d.kind = "Foreach"
  · cases hi : d.items <;> simp_all
  by_cases hUntil : d.kind = "Until"
  · cases hx : d.expression <;> simp_all
  · by_cases hScope : d.kind = "Scope" <;> simp [hIf, hForeach, hUntil, hScope] at h

theorem not_hasFields_of_payload (h : d.payload = .error e) : ¬ d.HasFields ∧ ¬ e.IsClash := by
  rcases payload_error h with ⟨hkind, hnone, rfl⟩ | ⟨text, cause, hkind, hsome, hparse, rfl⟩ |
    ⟨hkind, hnone, rfl⟩ | ⟨hkind, hnone, rfl⟩
  · refine ⟨fun hd => ?_, id⟩
    obtain ⟨text, e, htext, -⟩ := hd.condition hkind
    simp [hnone] at htext
  · refine ⟨fun hd => ?_, id⟩
    obtain ⟨text', e, htext, he⟩ := hd.condition hkind
    rw [hsome, Option.some.injEq] at htext
    rw [← htext, hparse] at he
    cases he
  · refine ⟨fun hd => ?_, id⟩
    have hitems := hd.items hkind
    simp [hnone] at hitems
  · refine ⟨fun hd => ?_, id⟩
    have hexpression := hd.expression hkind
    simp [hnone] at hexpression

/-- When all parts are filled, every list among them was filled. -/
theorem fillParts_filled {parts : List (List String × Part)} {slots : List (Slot Node)}
    (h : Runs (fillParts source parts) s (.ok slots) s') {path : List String}
    (hpart : (path, .actions list) ∈ parts) :
    ∃ s₁ g s₂, Runs (fill source (Graph.empty false source) list) s₁ (.ok g) s₂ := by
  induction parts generalizing s slots with
  | nil => cases hpart
  | cons entry rest ih =>
    obtain ⟨path', part⟩ := entry
    obtain ⟨actions, others, s₁, hactions, hrest, rfl⟩ := fillParts_cons_ok h
    rcases List.mem_cons.mp hpart with heq | hmem
    · cases heq
      obtain ⟨g, hg, -⟩ := fillPart_ok hactions
      exact ⟨s, g, s₁, hg⟩
    · exact ih hrest hmem

/-- When the parts are not all filled, one list among them was not. -/
theorem fillParts_unfilled {parts : List (List String × Part)}
    (h : Runs (fillParts source parts) s (.error e) s') :
    ∃ path list s₁, (path, .actions list) ∈ parts ∧
      Runs (fill source (Graph.empty false source) list) s₁ (.error e) s' := by
  induction parts generalizing s with
  | nil => cases (runs_pure.mp h).1
  | cons entry rest ih =>
    obtain ⟨path, part⟩ := entry
    rcases fillParts_cons_error h with hpart | ⟨actions, s₁, -, hrest⟩
    · cases part with
      | raw r => cases (runs_pure.mp hpart).1
      | actions list => exact ⟨path, list, s, List.mem_cons_self, fillPart_error hpart⟩
    · obtain ⟨path', list, s₂, hmem, hlist⟩ := ih hrest
      exact ⟨path', list, s₂, List.mem_cons_of_mem _ hmem, hlist⟩

/-- All actions of a graph have identities that were drawn before. -/
def Numbered (source : IdSource) (s : Supply) (g : Graph) : Prop :=
  ∀ m ∈ g.members, ∃ k, k < s.count source.key ∧ m.id = source.spell k

/-- A built action is new to every graph whose actions have identities drawn before it. -/
theorem build_fresh (hsource : Function.Injective source.spell) (hg : Numbered source s g)
    (h : Runs (d.build source) s (.ok n) s') : g.hasIdentity n.id = false ∧ n.isAttached = false := by
  obtain ⟨payload, slots, s₁, -, hslots, rfl, -⟩ := build_ok h
  have hcount := (d.isNumbered source s slots s₁ hslots).precedes source.key
  refine ⟨Graph.hasIdentity_eq_false_iff.mpr ?_, rfl⟩
  intro m hm heq
  obtain ⟨k, hk, hid⟩ := hg m hm
  have hspell : source.spell k = source.spell (s₁.count source.key) := hid.symm.trans heq
  have := hsource hspell
  omega

theorem Numbered.insert {s₁ : Supply} {name : String} (hg : Numbered source s g)
    (hw : g.WellFormed) (hbuild : Runs (d.build source) s (.ok n) s₁)
    (hins : g.insert (d.insertion n) = .ok (name, g')) : Numbered source s₁ g' := by
  have hcount := build_precedes hbuild source.key
  obtain ⟨payload, slots, s₂, -, -, hn, hs₁⟩ := build_ok hbuild
  obtain ⟨-, -, -, p, -, -, rfl⟩ := Graph.insert_ok_iff.mp hins
  intro m hm
  rw [hw.link_members, List.mem_append, List.mem_singleton] at hm
  rcases hm with hm | rfl
  · obtain ⟨k, hk, hid⟩ := hg m hm
    exact ⟨k, Nat.lt_of_lt_of_le hk hcount, hid⟩
  · refine ⟨s₂.count source.key, ?_, ?_⟩
    · rw [hs₁, Supply.count_advance]
      exact Nat.lt_succ_self _
    · rw [insertion_node]
      exact congrArg Node.id hn

theorem exists_resolve? (h : g.WellFormed) :
    (∃ p, g.resolve? (d.insertion n).reference = some p) ↔
      (d.top = false → ∀ name, d.after = some name → name ∈ g.names) := by
  rw [h.exists_resolve?]
  cases htop : d.top with
  | true => simp [insertion, htop, Insertion.reference]
  | false => cases hafter : d.after <;> simp [insertion, htop, hafter, Insertion.reference]

/-- A new action is put in exactly if it fits behind those that are there. -/
theorem insert_iff_fits (h : g.WellFormed) (hfields : d.HasFields) (hkind : n.kind = d.kind)
    (hfresh : g.hasIdentity n.id = false ∧ n.isAttached = false) :
    (∃ name g', g.insert (d.insertion n) = .ok (name, g')) ↔ d.Fits g.isRoot g.names := by
  constructor
  · rintro ⟨name, g', hins⟩
    obtain ⟨-, -, hallowed, p, hp, -⟩ := Graph.insert_ok_iff.mp hins
    refine ⟨hfields, fun hd => ?_, (exists_resolve? h).mp ⟨p, hp⟩⟩
    rw [insertion_node, hkind] at hallowed
    exact hallowed.resolve_right fun hne => hne hd
  · intro hfits
    obtain ⟨p, hp⟩ := (exists_resolve? (n := n) h).mpr hfits.after
    refine ⟨_, _, Graph.insert_ok_iff.mpr ⟨?_, ?_, ?_, p, hp, rfl, rfl⟩⟩
    · rw [insertion_node]
      exact hfresh.1
    · rw [insertion_node]
      exact hfresh.2
    · rw [insertion_node, hkind]
      by_cases hd : d.kind = declarationKind
      · exact .inl (hfits.declares hd)
      · exact .inr hd

/-- A new action is refused only for what its definition says. -/
theorem insert_error {cause : GraphError} (h : g.insert (d.insertion n) = .error cause)
    (hfresh : g.hasIdentity n.id = false ∧ n.isAttached = false) :
    ¬ (FlowError.graph cause).IsClash := by
  rw [Graph.insert_eq, Graph.check_eq, insertion_node, hfresh.1, hfresh.2] at h
  cases hp : g.resolve? (d.insertion n).reference with
  | none =>
    simp only [hp, Except.map, Bool.false_eq_true, if_false, Except.error.injEq] at h
    subst h
    exact id
  | some p =>
    simp only [hp, Bool.false_eq_true, if_false] at h
    split at h
    · simp only [Except.map, Except.error.injEq] at h
      subst h
      exact id
    · cases h

/-- An action is built exactly if it is complete, and a build that fails does not fail by a clash. -/
structure Decided (source : IdSource) (d : ActionDefinition) : Prop where
  ok : ∀ s n s', Runs (d.build source) s (.ok n) s' → d.IsComplete
  error : ∀ s e s', Runs (d.build source) s (.error e) s' → ¬ d.IsComplete ∧ ¬ e.IsClash

/-- What is filled in could continue the graph as it was. Each action that is put in is new, because
its identity was drawn after those of the graph. -/
theorem fill_ok_continues (hsource : Function.Injective source.spell)
    (hlist : ∀ a ∈ list, a.Decided source) (hw : g.WellFormed) (hg : Numbered source s g)
    (h : Runs (fill source g list) s (.ok g') s') : Continues g.isRoot g.names list := by
  induction list generalizing g s with
  | nil => exact continues_nil _ _
  | cons d rest ih =>
    obtain ⟨n, s₁, name, g₁, hbuild, hins, hrest⟩ := fill_cons_ok h
    obtain ⟨hfields, hnested⟩ := (hlist d List.mem_cons_self).ok s n s₁ hbuild
    obtain ⟨fields, k, -, -, hn⟩ := d.isRead source s s₁ n hbuild
    have hfits := (insert_iff_fits hw hfields hn.kind (build_fresh hsource hg hbuild)).mp ⟨_, _, hins⟩
    have hothers := ih (fun a ha => hlist a (List.mem_cons_of_mem _ ha)) (hw.insert hins)
      (hg.insert hw hbuild hins) hrest
    rw [(hn.insert hw hins).1, Graph.insert_isRoot hins] at hothers
    exact continues_cons.mpr ⟨⟨hfits, hnested⟩, hothers⟩

theorem fill_error_continues (hsource : Function.Injective source.spell)
    (hlist : ∀ a ∈ list, a.Decided source) (hw : g.WellFormed) (hg : Numbered source s g)
    (h : Runs (fill source g list) s (.error e) s') :
    ¬ Continues g.isRoot g.names list ∧ ¬ e.IsClash := by
  induction list generalizing g s with
  | nil => cases (runs_pure.mp h).1
  | cons d rest ih =>
    have hd := hlist d List.mem_cons_self
    rcases fill_cons_error h with hbuild | ⟨n, s₁, hbuild, ⟨cause, hins, rfl⟩ | ⟨name, g₁, hins, hrest⟩⟩
    · obtain ⟨hincomplete, hclash⟩ := hd.error s e s' hbuild
      refine ⟨fun hcont => hincomplete ?_, hclash⟩
      have hfits := (continues_cons.mp hcont).1
      exact ⟨hfits.1.fields, hfits.2⟩
    -- the action is built and refused
    · obtain ⟨fields, k, -, -, hn⟩ := d.isRead source s s₁ n hbuild
      have hfresh := build_fresh hsource hg hbuild
      refine ⟨fun hcont => ?_, insert_error hins hfresh⟩
      have hfits := (continues_cons.mp hcont).1.1
      obtain ⟨name, g₁, hok⟩ := (insert_iff_fits hw hfits.fields hn.kind hfresh).mpr hfits
      rw [hins] at hok
      cases hok
    · obtain ⟨fields, k, -, -, hn⟩ := d.isRead source s s₁ n hbuild
      have hothers := ih (fun a ha => hlist a (List.mem_cons_of_mem _ ha)) (hw.insert hins)
        (hg.insert hw hbuild hins) hrest
      rw [(hn.insert hw hins).1, Graph.insert_isRoot hins] at hothers
      exact ⟨fun hcont => hothers.1 (continues_cons.mp hcont).2, hothers.2⟩

theorem numbered_empty (source : IdSource) (s : Supply) (isRoot : Bool) :
    Numbered source s (Graph.empty isRoot source) := by
  intro m hm
  cases hm

theorem decided (hsource : Function.Injective source.spell) (d : ActionDefinition) :
    d.Decided source := by
  induction d using induct with
  | step d ih =>
    constructor
    · intro s n s' h
      obtain ⟨payload, slots, s₁, hpayload, hslots, -⟩ := build_ok h
      refine ⟨hasFields_of_payload hpayload, fun inner hinner => ?_⟩
      rw [isBuildable_iff_continues]
      -- an empty list need not be filled
      by_cases hnil : inner = []
      · subst hnil
        exact continues_nil _ _
      · obtain ⟨path, hpart⟩ := (mem_nested_iff hnil).mp hinner
        obtain ⟨s₂, g, s₃, hfill⟩ := fillParts_filled hslots hpart
        exact fill_ok_continues hsource (ih inner hinner) (Graph.empty_wellFormed false source)
          (numbered_empty source s₂ false) hfill
    · intro s e s' h
      rcases build_error h with hpayload | ⟨payload, -, hparts⟩
      · obtain ⟨hfields, hclash⟩ := not_hasFields_of_payload hpayload
        exact ⟨fun hd => hfields hd.1, hclash⟩
      · obtain ⟨path, list, s₁, hpart, hfill⟩ := fillParts_unfilled hparts
        obtain ⟨hcont, hclash⟩ := fill_error_continues hsource
          (fun a ha => ih list (nested_of_parts hpart ha) a ha) (Graph.empty_wellFormed false source)
          (numbered_empty source s₁ false) hfill
        refine ⟨fun hd => hcont ?_, hclash⟩
        have hnil : list ≠ [] := by
          rintro rfl
          exact hcont (continues_nil _ _)
        exact isBuildable_iff_continues.mp (hd.2 list ((mem_nested_iff hnil).mpr ⟨path, hpart⟩))

end Runs

end ActionDefinition

namespace FlowDefinition
open Building

/-- Every list that is built for a flow is sound. -/
def IsBuildable (d : FlowDefinition) : Prop := ActionDefinition.IsBuildable true d.actions

theorem setTriggers_exists {fs : Fields} {f : Flow} (h : (Fields.keys (f.triggers ++ fs)).Nodup) :
    ∃ f', setTriggers f fs = .ok f' := by
  induction fs generalizing f with
  | nil => exact ⟨f, rfl⟩
  | cons entry rest ih =>
    obtain ⟨name, payload⟩ := entry
    have hnew : name ∉ Fields.keys f.triggers := by
      intro hmem
      simp only [Fields.keys, List.map_append, List.map_cons, List.nodup_append] at h
      exact h.2.2 name hmem name List.mem_cons_self rfl
    have hset : f.setTrigger name payload =
        .ok { f with triggers := f.triggers ++ [(name, payload)] } := by
      simp [Flow.setTrigger, Fields.contains, Fields.get?_of_not_mem hnew]
    unfold setTriggers
    rw [hset]
    apply ih
    rwa [List.append_assoc]

/-- Triggers of distinct names are set before the actions are built, and without fail. -/
theorem build_eq_fill {d : FlowDefinition} (h : (Fields.keys d.triggers).Nodup)
    (source : IdSource) : d.build source = do
      let g ← ActionDefinition.fill source (Graph.empty true source) d.actions
      return ⟨d.triggers, g⟩ := by
  obtain ⟨f, hf⟩ := @setTriggers_exists d.triggers (Flow.empty source) h
  rw [build_eq, hf, setTriggers_ok hf]
  rfl

/-- With identities that are never repeated, exactly the definitions in which every built list is
sound can be built, and no build fails by a clash. -/
theorem build_ok_iff {source : IdSource} (hsource : Function.Injective source.spell)
    (d : FlowDefinition) (htriggers : (Fields.keys d.triggers).Nodup) (s : Supply) :
    ((∃ f s', Runs (d.build source) s (.ok f) s') ↔ d.IsBuildable) ∧
      ∀ e s', Runs (d.build source) s (.error e) s' → ¬ e.IsClash := by
  have hactions : ∀ a ∈ d.actions, a.Decided source := fun a _ => a.decided hsource
  have hw := Graph.empty_wellFormed true source
  have hg := ActionDefinition.numbered_empty source s true
  have hiff : d.IsBuildable ↔ ActionDefinition.Continues true [] d.actions :=
    ActionDefinition.isBuildable_iff_continues
  rw [build_eq_fill htriggers, hiff]
  refine ⟨⟨?_, ?_⟩, ?_⟩
  · rintro ⟨f, s', h⟩
    obtain ⟨g, s₁, hfill, -⟩ := runs_bind_ok.mp h
    exact ActionDefinition.fill_ok_continues hsource hactions hw hg hfill
  · intro hcont
    obtain ⟨r, s', hfill⟩ := runs_exists
      (ActionDefinition.fill source (Graph.empty true source) d.actions) s
    cases r with
    | error e =>
      exact absurd hcont (ActionDefinition.fill_error_continues hsource hactions hw hg hfill).1
    | ok g => exact ⟨⟨d.triggers, g⟩, s', runs_bind_ok.mpr ⟨g, s', hfill, runs_pure.mpr ⟨rfl, rfl⟩⟩⟩
  · intro e s' h
    rcases runs_bind_error.mp h with hfill | ⟨g, s₁, -, hpure⟩
    · exact (ActionDefinition.fill_error_continues hsource hactions hw hg hfill).2
    · cases (runs_pure.mp hpure).1

theorem sample_buildable : Function.Injective (IdSource.sequential 0 "id").spell ∧
    (Fields.keys sample.triggers).Nodup ∧ sample.IsBuildable := by
  have hsource := IdSource.sequential_injective 0 "id"
  have htriggers : (Fields.keys sample.triggers).Nodup := List.nodup_singleton _
  have hiff := (build_ok_iff hsource sample htriggers {}).1
  exact ⟨hsource, htriggers, hiff.mp ⟨_, _, rfl⟩⟩

end FlowDefinition

end Workflow

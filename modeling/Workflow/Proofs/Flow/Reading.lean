import Workflow.Proofs.Flow.Building
import Workflow.Proofs.Graph.Fields

/-!
# The document of a definition

What a definition says can be read off it without any graph: an entry for every listed action, in
the order of the list, under the first name that is still free. A build gives this document. The
identities are numbered in the order in which the entries are complete, an action behind all that
are nested in it.
-/

set_option autoImplicit false

namespace Workflow

/-- A reading that numbers the actions it comes to. Where a definition is incomplete it has no
result. -/
abbrev Numbering := StateT Nat Option

def Numbering.next : Numbering Nat := fun n => some (n, n + 1)

@[simp] theorem Numbering.run_next (k : Nat) : next.run k = some (k, k + 1) := rfl

namespace ActionDefinition

/-- After what an action runs that is listed behind actions with the given keys. -/
def gate (d : ActionDefinition) (earlier : List String) : Fields :=
  let states : Json := .array (d.mode.states.map fun s => .string s.name)
  if d.top then []
  else match d.after with
    | some name => [(name, states)]
    | none => (earlier.getLast?.map fun key => (key, states)).toList

/-- The fields of an entry before its body. -/
def heading (d : ActionDefinition) (id : String) (earlier : List String) : Fields :=
  [("metadata", .object [("operationMetadataId", .string id)]), ("type", .string d.kind),
    ("runAfter", .object (d.gate earlier))]

def key (d : ActionDefinition) (earlier : List String) : String :=
  firstFree (reservedName :: earlier) d.name

mutual

/-- What an action exports by its kind. -/
def body (ids : Nat → String) : ActionDefinition → Numbering Fields
  | ⟨_, kind, inputs, _, _, _, condition, items, expression, limit, actions, otherwise, raw⟩ =>
    if kind = "If" then do
      let expression ← (condition.bind fun text => (Condition.compile text).toOption : Option Json)
      let whenTrue ← entries ids [] actions
      let whenFalse ← optionalEntries ids otherwise
      return [("expression", expression), ("actions", .object whenTrue)] ++
        (whenFalse.map fun inner => ("else", .object [("actions", .object inner)])).toList
    else if kind = "Foreach" then do
      let items ← items
      let inner ← entries ids [] actions
      return [("foreach", .string items), ("actions", .object inner)]
    else if kind = "Scope" then do
      match raw with
      | some v => return [("actions", .object (Raw.ofJson v).toFields)]
      | none =>
        let inner ← entries ids [] actions
        return [("actions", .object inner)]
    else if kind = "Until" then do
      let expression ← expression
      let inner ← entries ids [] actions
      return [("actions", .object inner), ("expression", .string expression),
        ("limit", .object [("count", .int (limit.getD Node.defaultLimit)),
          ("timeout", .string Node.loopTimeout)])]
    else return (inputs.map fun v => ("inputs", v)).toList

/-- The entries of a list, behind earlier ones with the given keys. -/
def entries (ids : Nat → String) (earlier : List String) : List ActionDefinition → Numbering Fields
  | [] => return []
  | d :: rest => do
    let fields ← body ids d
    let number ← Numbering.next
    let others ← entries ids (earlier ++ [d.key earlier]) rest
    return (d.key earlier, .object (d.heading (ids number) earlier ++ fields)) :: others

def optionalEntries (ids : Nat → String) : Option (List ActionDefinition) → Numbering (Option Fields)
  | none => return none
  | some actions => some <$> entries ids [] actions

end

end ActionDefinition

namespace ActionDefinition
open Building
variable {source : IdSource} {d : ActionDefinition} {g g' : Graph} {s s' : Supply} {n : Node}

@[simp] theorem insertion_node : (d.insertion n).node = n := by
  unfold insertion
  cases d.top
  · cases d.after <;> rfl
  · rfl

/-- An action that is put in runs after what its definition says. -/
theorem placed_runAfter (h : g.WellFormed) {p : Nat}
    (hp : g.resolve? (d.insertion n).reference = some p) :
    (g.placed n ((d.insertion n).target g p) (d.insertion n).states).runAfterFields =
      d.gate g.names := by
  cases htop : d.top with
  | true => simp [insertion, gate, htop, Insertion.target, Graph.placed, Node.attach, Graph.actionAt?,
      Node.runAfterFields]
  | false =>
    cases hafter : d.after with
    | none =>
      have hlast := h.lastName
      cases hname : g.names.getLast? <;>
        simp [insertion, gate, htop, hafter, Insertion.target, Insertion.states, Graph.placed,
          Node.attach, hlast, hname, Node.runAfterFields]
    | some name =>
      simp only [insertion, htop, hafter, Insertion.reference, Graph.resolve?] at hp
      obtain ⟨hroot, m, hm, hname⟩ := (h.indexOf?_eq_some_iff name p).mp hp
      simp [insertion, gate, htop, hafter, Insertion.target, Insertion.states, Graph.placed,
        Node.attach, Graph.actionAt?, Graph.nodeAt?, hroot, hm, hname, Node.runAfterFields]

/-- A built action that is numbered `k` exports the body of its definition. -/
structure Reads (source : IdSource) (d : ActionDefinition) (k : Nat) (fields : Fields) (n : Node) :
    Prop where
  id : n.id = source.spell k
  name : n.name = d.name
  kind : n.kind = d.kind
  unreserved : n.IsUnreserved
  body : n.ownBody = fields

/-- The build of an action gives what its definition reads. -/
def IsRead (source : IdSource) (d : ActionDefinition) : Prop :=
  ∀ s s' n, Runs (d.build source) s (.ok n) s' → ∃ fields k,
    (d.body source.spell).run (s.count source.key) = some (fields, k) ∧
      s'.count source.key = k + 1 ∧ d.Reads source k fields n

theorem Reads.toFields {k : Nat} {fields : Fields} (hn : d.Reads source k fields n)
    (h : g.WellFormed) {p : Nat} (hp : g.resolve? (d.insertion n).reference = some p) :
    (g.placed n ((d.insertion n).target g p) (d.insertion n).states).toFields =
      d.heading (source.spell k) g.names ++ fields := by
  have hafter := placed_runAfter h hp
  have hunreserved : (g.placed n ((d.insertion n).target g p) (d.insertion n).states).IsUnreserved :=
    hn.unreserved
  rw [Node.toFields_eq hunreserved, Node.header, hafter]
  change [("metadata", Json.object [("operationMetadataId", .string n.id)]), ("type", .string n.kind),
    ("runAfter", .object (d.gate g.names))] ++ n.ownBody = _
  rw [hn.id, hn.kind, hn.body, heading]

theorem Reads.insert {k : Nat} {fields : Fields} {name : String} (hn : d.Reads source k fields n)
    (h : g.WellFormed) (hins : g.insert (d.insertion n) = .ok (name, g')) :
    g'.names = g.names ++ [d.key g.names] ∧
      g'.toFields = g.toFields ++
        [(d.key g.names, .object (d.heading (source.spell k) g.names ++ fields))] := by
  have hw := h.insert hins
  obtain ⟨-, -, -, p, hp, -, rfl⟩ := Graph.insert_ok_iff.mp hins
  have hname : g.freeName n.name = d.key g.names := by rw [h.freeName_eq, hn.name, key]
  rw [insertion_node] at hw ⊢
  refine ⟨by rw [h.names_link, hname], ?_⟩
  rw [hw.toFields_eq, h.toFields_eq, h.link_members, memberFields_append, memberFields,
    memberFields, Graph.placed_name, hname, hn.toFields h hp]

/-- The actions of a list are exported behind those of the graph that is filled. -/
theorem fill_reads {list : List ActionDefinition} (hlist : ∀ a ∈ list, a.IsRead source)
    (h : g.WellFormed) (hfill : Runs (fill source g list) s (.ok g') s') :
    ∃ others, (entries source.spell g.names list).run (s.count source.key) =
        some (others, s'.count source.key) ∧ g'.toFields = g.toFields ++ others := by
  -- the names in the graph are the keys of the entries so far
  induction list generalizing g s with
  | nil =>
    obtain ⟨hg, hs⟩ := runs_pure.mp hfill
    rw [Except.ok.inj hg, hs]
    exact ⟨[], rfl, (List.append_nil _).symm⟩
  | cons d rest ih =>
    obtain ⟨n, s₁, name, g₁, hbuild, hins, hrest⟩ := fill_cons_ok hfill
    obtain ⟨fields, k, hbody, hcount, hn⟩ := hlist d List.mem_cons_self s s₁ n hbuild
    obtain ⟨hnames, hfields⟩ := hn.insert h hins
    obtain ⟨others, hothers, hg'⟩ := ih (fun a ha => hlist a (List.mem_cons_of_mem _ ha))
      (h.insert hins) hrest
    rw [hnames, hcount] at hothers
    rw [hfields, List.append_assoc] at hg'
    refine ⟨_, ?_, hg'⟩
    simp [entries, hbody, hothers]

theorem fillPart_reads {list : List ActionDefinition} (hlist : ∀ a ∈ list, a.IsRead source)
    {actions : Nested Node} (h : Runs (fillPart source (.actions list)) s (.ok actions) s') :
    (entries source.spell [] list).run (s.count source.key) =
      some (nestedFields actions, s'.count source.key) := by
  obtain ⟨g, hg, rfl⟩ := fillPart_ok h
  obtain ⟨others, hothers, hfields⟩ := fill_reads hlist (Graph.empty_wellFormed false source) hg
  have hnil : g.toFields = others := hfields
  rw [← hnil] at hothers
  exact hothers

theorem fillParts_single {list : List ActionDefinition} (hlist : ∀ a ∈ list, a.IsRead source)
    {path : List String} {slots : List (Slot Node)}
    (h : Runs (fillParts source [(path, .actions list)]) s (.ok slots) s') :
    ∃ inner, (entries source.spell [] list).run (s.count source.key) =
      some (nestedFields inner, s'.count source.key) ∧ slots = [⟨path, inner⟩] := by
  obtain ⟨inner, others, s₁, hinner, hrest, rfl⟩ := fillParts_cons_ok h
  obtain ⟨hothers, rfl⟩ := runs_pure.mp hrest
  rw [Except.ok.inj hothers]
  exact ⟨inner, fillPart_reads hlist hinner, rfl⟩

theorem fillParts_nil {slots : List (Slot Node)}
    (h : Runs (fillParts source []) s (.ok slots) s') : slots = [] ∧ s' = s := by
  obtain ⟨hslots, hs⟩ := runs_pure.mp h
  exact ⟨Except.ok.inj hslots, hs⟩

theorem fillParts_raw {path : List String} {r : Raw} {slots : List (Slot Node)}
    (h : Runs (fillParts source [(path, .raw r)]) s (.ok slots) s') :
    slots = [⟨path, .raw r⟩] ∧ s' = s := by
  obtain ⟨actions, others, s₁, hraw, hrest, rfl⟩ := fillParts_cons_ok h
  obtain ⟨hactions, rfl⟩ := runs_pure.mp hraw
  obtain ⟨rfl, hs⟩ := fillParts_nil hrest
  rw [Except.ok.inj hactions]
  exact ⟨rfl, hs⟩

/-- An empty list of a branch has no part, and its place keeps the empty object of the payload. -/
theorem fillParts_branch (expression : Json) {actions : List ActionDefinition}
    {otherwise : Option (List ActionDefinition)} {slots : List (Slot Node)}
    (hlists : ∀ list ∈ actions :: otherwise.toList, ∀ a ∈ list, a.IsRead source)
    (h : Runs (fillParts source ((if actions.isEmpty then [] else [(["actions"], .actions actions)]) ++
      (otherwise.map fun list => (["else", "actions"], .actions list)).toList)) s (.ok slots) s') :
    ∃ whenTrue whenFalse k,
      (entries source.spell [] actions).run (s.count source.key) = some (whenTrue, k) ∧
      (optionalEntries source.spell otherwise).run k = some (whenFalse, s'.count source.key) ∧
      (∀ slot ∈ slots, ∀ key ∈ slot.path.head?, key ∉ reservedKeys) ∧
      insertSlots slots [("expression", expression), ("actions", .object [])] =
        [("expression", expression), ("actions", .object whenTrue)] ++
          (whenFalse.map fun inner => ("else", .object [("actions", .object inner)])).toList := by
  have hactions := hlists actions List.mem_cons_self
  cases actions with
  | nil =>
    refine ⟨[], ?_⟩
    cases otherwise with
    | none =>
      obtain ⟨rfl, rfl⟩ := fillParts_nil h
      exact ⟨none, _, rfl, rfl, by simp, rfl⟩
    | some list =>
      obtain ⟨inner, hinner, rfl⟩ := fillParts_single (hlists list (by simp)) h
      exact ⟨some (nestedFields inner), _, rfl, by simp [optionalEntries, hinner],
        by simp [reservedKeys], rfl⟩
  | cons a rest =>
    cases otherwise with
    | none =>
      obtain ⟨inner, hinner, rfl⟩ := fillParts_single hactions h
      exact ⟨_, none, _, hinner, rfl, by simp [reservedKeys], rfl⟩
    | some list =>
      obtain ⟨first, others, s₁, hfirst, hrest, rfl⟩ := fillParts_cons_ok h
      obtain ⟨inner, hinner, rfl⟩ := fillParts_single (hlists list (by simp)) hrest
      exact ⟨_, some (nestedFields inner), _, fillPart_reads hactions hfirst,
        by simp [optionalEntries, hinner], by simp [reservedKeys], rfl⟩

/-- The body is the payload with the nested entries in their places. -/
def IsBody (source : IdSource) (d : ActionDefinition) (payload : Fields) : Prop :=
  ∀ s s' slots, Runs (fillParts source d.parts) s (.ok slots) s' →
    (d.body source.spell).run (s.count source.key) =
        some (insertSlots slots (payload.filter fun (key, _) => !reservedKeys.contains key),
          s'.count source.key) ∧
      ∀ slot ∈ slots, ∀ key ∈ slot.path.head?, key ∉ reservedKeys

theorem isBody_of_branch (hkind : d.kind = "If")
    (hnested : ∀ list ∈ d.nested, ∀ a ∈ list, a.IsRead source) {payload : Fields}
    (hpayload : d.payload = .ok payload) : d.IsBody source payload := by
  intro s s' slots hslots
  obtain ⟨name, kind, inputs, after, mode, top, condition, items, expression, limit, actions,
    otherwise, raw⟩ := d
  obtain rfl : kind = "If" := hkind
  cases condition with
  | none => cases hpayload
  | some text =>
    cases hc : Condition.ofText text with
    | error e => simp [ActionDefinition.payload, hc] at hpayload
    | ok c =>
      have hown : payload = [("expression", c.lower), ("actions", .object [])] := by
        simpa [ActionDefinition.payload, hc] using hpayload.symm
      have hcompile : Condition.compile text = .ok c.lower := by
        rw [Condition.compile, hc]
        rfl
      obtain ⟨whenTrue, whenFalse, k, htrue, hfalse, hunreserved, hbody⟩ :=
        fillParts_branch c.lower hnested hslots
      refine ⟨?_, hunreserved⟩
      simp [ActionDefinition.body, hcompile, Except.toOption, htrue, hfalse, hown, hbody,
        reservedKeys]

/-- The entries of the only list stand in the payload, under one key. -/
theorem HasList.body_eq (h : d.HasList) {payload : Fields} (hpayload : d.payload = .ok payload)
    (ids : Nat → String) :
    d.body ids = do
      let inner ← entries ids [] d.actions
      return Fields.insert "actions" (.object inner)
        (payload.filter fun (key, _) => !reservedKeys.contains key) := by
  obtain ⟨name, kind, inputs, after, mode, top, condition, items, expression, limit, actions,
    otherwise, raw⟩ := d
  rcases h with hkind | hkind | ⟨hkind, hraw⟩
  · obtain rfl : kind = "Foreach" := hkind
    cases items with
    | none => cases hpayload
    | some items =>
      cases hpayload
      rfl
  · obtain rfl : kind = "Until" := hkind
    cases expression with
    | none => cases hpayload
    | some expression =>
      cases hpayload
      rfl
  · obtain rfl : kind = "Scope" := hkind
    obtain rfl : raw = none := Option.isNone_iff_eq_none.mp hraw
    cases hpayload
    rfl

theorem HasList.isBody (h : d.HasList) (hlist : ∀ a ∈ d.actions, a.IsRead source) {payload : Fields}
    (hpayload : d.payload = .ok payload) : d.IsBody source payload := by
  intro s s' slots hslots
  rw [h.parts_eq] at hslots
  obtain ⟨inner, hinner, rfl⟩ := fillParts_single hlist hslots
  rw [h.body_eq hpayload]
  simp [hinner, insertSlots, Fields.insertAt, reservedKeys]

theorem isBody_of_raw (hkind : d.kind = "Scope") {v : Json} (hraw : d.raw = some v)
    {payload : Fields} (hpayload : d.payload = .ok payload) : d.IsBody source payload := by
  intro s s' slots hslots
  obtain ⟨name, kind, inputs, after, mode, top, condition, items, expression, limit, actions,
    otherwise, raw⟩ := d
  obtain rfl : kind = "Scope" := hkind
  obtain rfl : raw = some v := hraw
  cases hpayload
  obtain ⟨rfl, rfl⟩ := fillParts_raw hslots
  simp [ActionDefinition.body, insertSlots, nestedFields, Fields.insertAt, Fields.insert,
    reservedKeys]

/-- All other kinds show their inputs, and nothing is nested in them. -/
theorem isBody_of_plain (hIf : d.kind ≠ "If") (hForeach : d.kind ≠ "Foreach")
    (hScope : d.kind ≠ "Scope") (hUntil : d.kind ≠ "Until") {payload : Fields}
    (hpayload : d.payload = .ok payload) : d.IsBody source payload := by
  intro s s' slots hslots
  obtain ⟨name, kind, inputs, after, mode, top, condition, items, expression, limit, actions,
    otherwise, raw⟩ := d
  dsimp only at hIf hForeach hScope hUntil
  simp only [ActionDefinition.payload, hIf, hForeach, hScope, hUntil, if_false] at hpayload
  simp only [ActionDefinition.parts, hIf, hForeach, hScope, hUntil, if_false] at hslots
  obtain ⟨rfl, rfl⟩ := fillParts_nil hslots
  rw [← Except.ok.inj hpayload]
  cases inputs <;>
    simp [ActionDefinition.body, hIf, hForeach, hScope, hUntil, insertSlots, reservedKeys]

theorem isBody (hnested : ∀ list ∈ d.nested, ∀ a ∈ list, a.IsRead source) {payload : Fields}
    (hpayload : d.payload = .ok payload) : d.IsBody source payload := by
  cases d.shape with
  | branch hkind => exact isBody_of_branch hkind hnested hpayload
  | list h =>
    have hlist : d.actions ∈ d.nested := by
      rw [h.nested_eq]
      exact List.mem_singleton_self _
    exact h.isBody (hnested _ hlist) hpayload
  | raw hkind hraw => exact isBody_of_raw hkind hraw hpayload
  | plain hIf hForeach hScope hUntil =>
    exact isBody_of_plain hIf hForeach hScope hUntil hpayload

theorem isRead (source : IdSource) (d : ActionDefinition) : d.IsRead source := by
  induction d using induct with
  | step d ih =>
    intro s s' n h
    obtain ⟨payload, slots, s₁, hpayload, hslots, rfl, rfl⟩ := build_ok h
    obtain ⟨hbody, hunreserved⟩ := isBody ih hpayload _ _ _ hslots
    exact ⟨_, _, hbody, Supply.count_advance _ _, ⟨rfl, rfl, rfl, hunreserved, rfl⟩⟩

end ActionDefinition

namespace FlowDefinition
open Building

theorem setTriggers_ok {fs : Fields} {f f' : Flow} (h : setTriggers f fs = .ok f') :
    f' = { f with triggers := f.triggers ++ fs } := by
  induction fs generalizing f with
  | nil =>
    rw [← Except.ok.inj h]
    simp
  | cons entry rest ih =>
    obtain ⟨name, payload⟩ := entry
    unfold setTriggers Flow.setTrigger at h
    split at h
    · cases h
    · rw [ih h, List.append_assoc]
      rfl

theorem build_eq (source : IdSource) (d : FlowDefinition) : d.build source = do
    let f ← ofResult (setTriggers (Flow.empty source) d.triggers)
    let g ← ActionDefinition.fill source f.actions d.actions
    return { f with actions := g } := by
  unfold build
  cases setTriggers (Flow.empty source) d.triggers <;> rfl

theorem build_ok {source : IdSource} {d : FlowDefinition} {s s' : Supply} {f : Flow}
    (h : Runs (d.build source) s (.ok f) s') :
    f.triggers = d.triggers ∧
      Runs (ActionDefinition.fill source (Graph.empty true source) d.actions) s (.ok f.actions) s' := by
  rw [build_eq] at h
  obtain ⟨f₀, s₀, h₀, h₁⟩ := runs_bind_ok.mp h
  obtain ⟨htriggers, rfl⟩ := runs_ofResult.mp h₀
  obtain ⟨g, s₁, hfill, h₂⟩ := runs_bind_ok.mp h₁
  obtain ⟨hf, rfl⟩ := runs_pure.mp h₂
  rw [setTriggers_ok htriggers.symm] at hfill hf
  rw [Except.ok.inj hf]
  exact ⟨rfl, hfill⟩

/-- The actions of a built flow are exported as their definitions read. -/
theorem build_entries {source : IdSource} {d : FlowDefinition} {s s' : Supply} {f : Flow}
    (h : Runs (d.build source) s (.ok f) s') :
    (ActionDefinition.entries source.spell [] d.actions).run (s.count source.key) =
      some (f.actions.toFields, s'.count source.key) := by
  obtain ⟨-, hfill⟩ := build_ok h
  obtain ⟨actions, hactions, hfields⟩ := ActionDefinition.fill_reads
    (fun a _ => a.isRead source) (Graph.empty_wellFormed true source) hfill
  have hentries : f.actions.toFields = actions := hfields
  rw [hentries]
  exact hactions

def sample : FlowDefinition where
  name := "sample"
  triggers := [("manual", .object [])]
  actions :=
    [{ name := "Step", kind := "Compose", inputs := some (.int 1) },
      { name := "Step", kind := "If", condition := some "count > 3", mode := .force,
        actions := [{ name := "Step", kind := "Terminate" }],
        otherwise := some [{ name := "root", kind := "Scope", raw := some .null }] },
      { name := "Last", kind := "Foreach", after := some "Step", items := some "@items" }]

end FlowDefinition

end Workflow

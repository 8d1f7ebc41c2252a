import Workflow.Proofs.Flow.Buildable

/-!
# What a reference is to

The action after which another one is to run is looked up among the actions before it, under the
names that they have in the graph. The one that is declared under this name has it there if the name
was free when that one was put in. Where it was taken, by an action of another name that was given a
number, the reference is to the action that took it.
-/

set_option autoImplicit false

namespace Workflow

namespace Graph
variable {g g₁ g' : Graph}

/-- What stands in the first graph stands in the second one, at the same position. -/
structure Extends (g g' : Graph) : Prop where
  node : ∀ (i : Nat) (n : Node), g.nodes[i]? = some n → g'.nodes[i]? = some n
  parent : ∀ (i p : Nat), g.parents[i]? = some p → g'.parents[i]? = some p

theorem Extends.refl (g : Graph) : g.Extends g := ⟨fun _ _ h => h, fun _ _ h => h⟩

theorem Extends.trans (h : g.Extends g₁) (h' : g₁.Extends g') : g.Extends g' where
  node i n hn := h'.node i n (h.node i n hn)
  parent i p hp := h'.parent i p (h.parent i p hp)

theorem Extends.insert {c : Insertion} {name : String} (h : g.insert c = .ok (name, g')) :
    g.Extends g' := by
  obtain ⟨-, -, -, p, -, -, rfl⟩ := insert_ok_iff.mp h
  constructor
  · intro i n hn
    exact getElem?_concat_iff.mpr (.inl hn)
  · intro i q hq
    exact getElem?_concat_iff.mpr (.inl hq)

theorem Extends.name (h : g.Extends g') {i : Nat} {name : String} (hname : g.names[i]? = some name) :
    g'.names[i]? = some name := by
  rw [names_getElem?, Option.map_eq_some_iff] at hname
  obtain ⟨n, hn, rfl⟩ := hname
  rw [names_getElem?, h.node _ n hn, Option.map_some]

/-- Counted without the sentinel, the action at `i` hangs under the one at `j` and runs after it, with
the given states. -/
structure RunsAfter (g : Graph) (i j : Nat) (states : List State) : Prop where
  parent : g.parents[i + 1]? = some (j + 1)
  gate : ∃ n m, g.nodes[i + 1]? = some n ∧ g.nodes[j + 1]? = some m ∧
    n.runAfter = [(m.name, states)]

theorem RunsAfter.extend {i j : Nat} {states : List State} (h : g.RunsAfter i j states)
    (hext : g.Extends g') : g'.RunsAfter i j states := by
  obtain ⟨hparent, n, m, hn, hm, hrun⟩ := h
  exact ⟨hext.parent _ _ hparent, n, m, hext.node _ _ hn, hext.node _ _ hm, hrun⟩

theorem RunsAfter.unique {i j k : Nat} {states states' : List State} (hj : g.RunsAfter i j states)
    (hk : g.RunsAfter i k states') : j = k := by
  have hparent := hj.parent
  rw [hk.parent] at hparent
  exact (Nat.succ.inj (Option.some.inj hparent)).symm

/-- An action that is put in by a reference runs after the one that has the name in the graph. -/
theorem WellFormed.insert_after (h : g.WellFormed) {n : Node} {x name : String} {mode : RunMode}
    (hins : g.insert (.after n x mode) = .ok (name, g')) :
    ∃ k, g.names[k]? = some x ∧ g'.RunsAfter g.size k mode.states := by
  obtain ⟨-, -, -, p, hp, -, rfl⟩ := insert_ok_iff.mp hins
  obtain ⟨hroot, m, hm, rfl⟩ := (h.indexOf?_eq_some_iff x p).mp hp
  obtain ⟨k, rfl⟩ := Nat.exists_eq_succ_of_ne_zero hroot
  have hlength := h.length_eq_size
  refine ⟨k, by rw [names_getElem?, hm, Option.map_some], ?_, g.placed n (k + 1) mode.states, m, ?_,
    ?_, ?_⟩
  · exact getElem?_concat_iff.mpr (.inr ⟨(h.length.trans hlength).symm, rfl⟩)
  · exact getElem?_concat_iff.mpr (.inr ⟨hlength.symm, rfl⟩)
  · exact getElem?_concat_iff.mpr (.inl hm)
  · simp [placed, Node.attach, actionAt?, nodeAt?, sentinel, hm]

end Graph

namespace ActionDefinition
open Building
variable {source : IdSource} {d : ActionDefinition} {list : List ActionDefinition} {g g' : Graph}
  {s s' : Supply}

theorem prefix_keys (earlier : List String) (list : List ActionDefinition) :
    earlier <+: keys earlier list := by
  induction list generalizing earlier with
  | nil => exact List.prefix_rfl
  | cons d rest ih => exact (List.prefix_append earlier _).trans (ih (earlier ++ [d.key earlier]))

/-- An action has the key that is free behind those before it. -/
theorem keys_getElem? (earlier : List String) {j : Nat} (hd : list[j]? = some d) :
    (keys earlier list)[earlier.length + j]? = some (d.key (keys earlier (list.take j))) := by
  induction list generalizing earlier j with
  | nil => cases hd
  | cons a rest ih =>
    cases j with
    | zero =>
      obtain rfl := Option.some.inj hd
      obtain ⟨others, hkeys⟩ := prefix_keys (earlier ++ [a.key earlier]) rest
      change (keys (earlier ++ [a.key earlier]) rest)[earlier.length]? = some (a.key earlier)
      rw [← hkeys, List.append_assoc, List.getElem?_append_right (Nat.le_refl _), Nat.sub_self]
      rfl
    | succ j =>
      have hrest := ih (earlier ++ [a.key earlier]) hd
      rw [List.length_append, List.length_singleton, Nat.add_assoc, Nat.add_comm 1] at hrest
      exact hrest

/-- In a list of distinct keys, an action has its declared name exactly if no action before it has
that as its key. -/
theorem keys_declared_iff (hkeys : (reservedName :: keys [] list).Nodup) {j : Nat}
    (hd : list[j]? = some d) (hname : d.name ∈ keys [] list) :
    (keys [] list)[j]? = some d.name ↔ d.name ∉ keys [] (list.take j) := by
  have hunreserved : d.name ≠ reservedName := fun h => (List.nodup_cons.mp hkeys).1 (h ▸ hname)
  have hkey := keys_getElem? [] hd
  rw [List.length_nil, Nat.zero_add] at hkey
  rw [hkey, Option.some.injEq, key, firstFree_eq_self_iff, List.mem_cons, not_or]
  exact and_iff_right hunreserved

theorem insert_names (h : g.WellFormed) {n : Node} {s₁ : Supply} {name : String}
    (hbuild : Runs (d.build source) s (.ok n) s₁)
    (hins : g.insert (d.insertion n) = .ok (name, g')) : g'.names = g.names ++ [d.key g.names] := by
  obtain ⟨fields, k, -, -, hn⟩ := d.isRead source s s₁ n hbuild
  exact (hn.insert h hins).1

theorem fill_names (h : g.WellFormed) (hfill : Runs (fill source g list) s (.ok g') s') :
    g'.WellFormed ∧ g'.names = keys g.names list := by
  induction list generalizing g s with
  | nil =>
    obtain ⟨hg, -⟩ := runs_pure.mp hfill
    rw [Except.ok.inj hg]
    exact ⟨h, rfl⟩
  | cons d rest ih =>
    obtain ⟨n, s₁, name, g₁, hbuild, hins, hrest⟩ := fill_cons_ok hfill
    obtain ⟨hw, hnames⟩ := ih (h.insert hins) hrest
    rw [insert_names h hbuild hins] at hnames
    exact ⟨hw, hnames⟩

theorem fill_extends (hfill : Runs (fill source g list) s (.ok g') s') : g.Extends g' := by
  induction list generalizing g s with
  | nil =>
    obtain ⟨hg, -⟩ := runs_pure.mp hfill
    rw [Except.ok.inj hg]
    exact .refl g
  | cons d rest ih =>
    obtain ⟨n, s₁, name, g₁, -, hins, hrest⟩ := fill_cons_ok hfill
    exact (Graph.Extends.insert hins).trans (ih hrest)

/-- The step at which an action of the list is built and put in. -/
structure PutIn (source : IdSource) (d : ActionDefinition) (g g' : Graph) : Prop where
  wellFormed : g.WellFormed
  step : ∃ n name s s', Runs (d.build source) s (.ok n) s' ∧ g.insert (d.insertion n) = .ok (name, g')

theorem fill_putIn (h : g.WellFormed) (hfill : Runs (fill source g list) s (.ok g') s') {i : Nat}
    (hd : list[i]? = some d) :
    ∃ g₁ g₂, g₁.size = g.size + i ∧ d.PutIn source g₁ g₂ ∧ g₂.Extends g' := by
  induction list generalizing g s i with
  | nil => cases hd
  | cons a rest ih =>
    obtain ⟨n, s₁, name, g₁, hbuild, hins, hrest⟩ := fill_cons_ok hfill
    cases i with
    | zero =>
      obtain rfl := Option.some.inj hd
      exact ⟨g, g₁, rfl, ⟨h, n, name, s, s₁, hbuild, hins⟩, fill_extends hrest⟩
    | succ i =>
      obtain ⟨g₂, g₃, hsize, hput, hext⟩ := ih (h.insert hins) hrest hd
      refine ⟨g₂, g₃, ?_, hput, hext⟩
      obtain ⟨-, -, -, p, -, -, rfl⟩ := Graph.insert_ok_iff.mp hins
      rw [hsize, Graph.size, h.link_members, List.length_append, List.length_singleton, Graph.size]
      omega

/-- The action to which the action at `i` refers stands before it, under this name. -/
theorem fill_resolves {isRoot : Bool}
    (hfill : Runs (fill source (Graph.empty isRoot source) list) s (.ok g) s') {i : Nat}
    (hd : list[i]? = some d) (htop : d.top = false) {x : String} (hafter : d.after = some x) :
    ∃ k, k < i ∧ g.names[k]? = some x ∧ g.RunsAfter i k d.mode.states := by
  obtain ⟨g₁, g₂, hsize, ⟨hw, n, name, s₁, s₂, -, hins⟩, hext⟩ :=
    fill_putIn (Graph.empty_wellFormed isRoot source) hfill hd
  have hinsertion : d.insertion n = .after n x d.mode := by simp [insertion, htop, hafter]
  rw [hinsertion] at hins
  obtain ⟨k, hk, hruns⟩ := hw.insert_after hins
  have hi : g₁.size = i := hsize.trans (Nat.zero_add i)
  rw [hi] at hruns
  refine ⟨k, ?_, hext.name ((Graph.Extends.insert hins).name hk), hruns.extend hext⟩
  have hlt := (List.getElem?_eq_some_iff.mp hk).1
  rw [Graph.names, List.length_map] at hlt
  exact hi ▸ hlt

/-- An action runs after the one that is declared under the name it refers to exactly if that one
was given the name. -/
theorem fill_refers_iff {isRoot : Bool}
    (hfill : Runs (fill source (Graph.empty isRoot source) list) s (.ok g) s') {i j : Nat}
    {b : ActionDefinition} (hd : list[i]? = some d) (htop : d.top = false)
    (hafter : d.after = some b.name) (hb : list[j]? = some b) :
    g.RunsAfter i j d.mode.states ↔ b.name ∉ keys [] (list.take j) := by
  obtain ⟨hw, hnames⟩ := fill_names (Graph.empty_wellFormed isRoot source) hfill
  obtain ⟨k, -, hk, hruns⟩ := fill_resolves hfill hd htop hafter
  have hnodup := hw.names_nodup
  have hkeys : g.names = keys [] list := hnames
  rw [hkeys] at hnodup hk
  rw [← keys_declared_iff hnodup hb (List.mem_of_getElem? hk)]
  constructor
  · intro hj
    rw [hj.unique hruns]
    exact hk
  · intro hj
    have hlt := (List.getElem?_eq_some_iff.mp hj).1
    rw [(List.getElem?_inj hlt (List.nodup_cons.mp hnodup).2).mp (hj.trans hk.symm)]
    exact hruns

/-- A list that is built with another one, and the graph that it fills: these themselves, or those
at one place in an action and in its definition. -/
inductive FilledWith : List ActionDefinition → Graph → List ActionDefinition → Graph → Prop
  | self (list : List ActionDefinition) (g : Graph) : FilledWith list g list g
  | nested {list inner list' : List ActionDefinition} {g h g' : Graph} {i : Nat}
    {d : ActionDefinition} {n : Node} {path : List String} :
    list[i]? = some d → g.nodes[i + 1]? = some n → (path, Part.actions inner) ∈ d.parts →
      ⟨path, .graph h⟩ ∈ n.slots → FilledWith inner h list' g' → FilledWith list g list' g'

theorem parts_nodup (d : ActionDefinition) : (d.parts.map Prod.fst).Nodup := by
  have hall : ∀ paths ∈ [[], [["actions"]], [["else", "actions"]],
      [["actions"], ["else", "actions"]]], paths.Nodup := by decide
  exact hall _ d.parts_paths

theorem fillParts_slot {parts : List (List String × Part)} (hparts : (parts.map Prod.fst).Nodup)
    {slots : List (Slot Node)} (h : Runs (fillParts source parts) s (.ok slots) s')
    {path : List String} (hpart : (path, .actions list) ∈ parts) (hslot : ⟨path, .graph g⟩ ∈ slots) :
    ∃ s₁ s₂, Runs (fill source (Graph.empty false source) list) s₁ (.ok g) s₂ := by
  induction parts generalizing s slots with
  | nil => cases hpart
  | cons entry rest ih =>
    obtain ⟨path', part⟩ := entry
    obtain ⟨hnew, hrest⟩ := List.nodup_cons.mp hparts
    obtain ⟨actions, others, s₁, hactions, hothers, rfl⟩ := fillParts_cons_ok h
    have hpaths := fillParts_paths hothers
    -- of one path, the part and the slot are both the first ones or both among the others
    rcases List.mem_cons.mp hpart with heq | hpart' <;>
      rcases List.mem_cons.mp hslot with heq' | hslot'
    · cases heq
      cases heq'
      obtain ⟨g', hg', hgraph⟩ := fillPart_ok hactions
      cases hgraph
      exact ⟨s, s₁, hg'⟩
    · cases heq
      rw [← hpaths] at hnew
      exact absurd (List.mem_map.mpr ⟨_, hslot', rfl⟩) hnew
    · cases heq'
      exact absurd (List.mem_map.mpr ⟨_, hpart', rfl⟩) hnew
    · exact ih hrest hothers hpart' hslot'

/-- Every list at whatever depth has filled its graph from the start. -/
theorem FilledWith.runs {list' : List ActionDefinition} (h : FilledWith list g list' g')
    {isRoot : Bool} (hfill : Runs (fill source (Graph.empty isRoot source) list) s (.ok g) s') :
    ∃ isRoot' s₁ s₂, Runs (fill source (Graph.empty isRoot' source) list') s₁ (.ok g') s₂ := by
  induction h generalizing isRoot s s' with
  | self => exact ⟨isRoot, s, s', hfill⟩
  | @nested list inner list' g h g' i d n path hd hn hpart hslot _ ih =>
    obtain ⟨g₁, g₂, hsize, ⟨hw, m, name, s₁, s₂, hbuild, hins⟩, hext⟩ :=
      fill_putIn (Graph.empty_wellFormed isRoot source) hfill hd
    obtain ⟨payload, slots, s₃, -, hslots, rfl, -⟩ := build_ok hbuild
    obtain ⟨-, -, -, p, -, -, rfl⟩ := Graph.insert_ok_iff.mp hins
    have hi : g₁.nodes.length = i + 1 := by
      rw [hw.length_eq_size, hsize.trans (Nat.zero_add i)]
    have hplaced := hext.node (i + 1) _ (getElem?_concat_iff.mpr (.inr ⟨hi.symm, rfl⟩))
    rw [hn, insertion_node] at hplaced
    rw [Option.some.inj hplaced] at hslot
    obtain ⟨s₄, s₅, hinner⟩ := fillParts_slot d.parts_nodup hslots hpart hslot
    exact ih hinner

/-- Where exactly one earlier action is declared under the name that an action refers to, the action
runs after that one. -/
def RefersToDeclared (list : List ActionDefinition) (g : Graph) : Prop :=
  ∀ (i j : Nat) (a b : ActionDefinition), list[i]? = some a → a.top = false →
    a.after = some b.name → j < i → list[j]? = some b →
    (∀ (k : Nat) (c : ActionDefinition), k < i → list[k]? = some c → c.name = b.name → k = j) →
    g.RunsAfter i j a.mode.states

/-- Where no name is repeated, every action is exported under its own. -/
theorem keys_of_nodup {earlier : List String}
    (h : (reservedName :: earlier ++ list.map (·.name)).Nodup) :
    keys earlier list = earlier ++ list.map (·.name) := by
  induction list generalizing earlier with
  | nil => exact (List.append_nil _).symm
  | cons d rest ih =>
    rw [List.map_cons, List.append_cons] at h
    have hrest : keys (earlier ++ [d.name]) rest = earlier ++ [d.name] ++ rest.map (·.name) := ih h
    have hfree : d.name ∉ reservedName :: earlier := by
      intro hmem
      have hbefore := (List.nodup_append.mp h).1
      exact (List.nodup_append.mp hbefore).2.2 _ hmem _ (List.mem_singleton_self _) rfl
    have hkey : d.key earlier = d.name := firstFree_eq_self_iff.mpr hfree
    rw [List.map_cons, List.append_cons, ← hrest, ← hkey]
    rfl

theorem fill_refers {isRoot : Bool}
    (hfill : Runs (fill source (Graph.empty isRoot source) list) s (.ok g) s')
    (h : (reservedName :: list.map (·.name)).Nodup) : RefersToDeclared list g := by
  intro i j a b ha htop hafter _ hb _
  rw [fill_refers_iff hfill ha htop hafter hb]
  have hname : (list.map (·.name))[j]? = some b.name := by
    rw [List.getElem?_map, hb, Option.map_some]
  have htake : (reservedName :: [] ++ (list.take j).map (·.name)).Nodup := by
    rw [List.map_take]
    exact h.sublist ((List.take_sublist j _).cons_cons _)
  rw [keys_of_nodup htake, List.nil_append, List.map_take]
  intro hmem
  obtain ⟨k, hk⟩ := List.mem_iff_getElem?.mp hmem
  rw [List.getElem?_take, Option.ite_none_right_eq_some] at hk
  have hlt := (List.getElem?_eq_some_iff.mp hk.2).1
  have hkj := (List.getElem?_inj hlt (List.nodup_cons.mp h).2).mp (hk.2.trans hname.symm)
  omega

end ActionDefinition

namespace FlowDefinition
open Building ActionDefinition
variable {source : IdSource} {d : FlowDefinition} {s s' : Supply} {f : Flow}
  {list : List ActionDefinition} {g : Graph}

/-- In every list of a built flow, at whatever depth, an action that refers to another one runs after
the action before it that has the name in the graph. An action that is declared under this name is
the one exactly if the name was free when it was put in, which the actions before it tell. -/
theorem build_references (h : Runs (d.build source) s (.ok f) s')
    (hlist : FilledWith d.actions f.actions list g) {i : Nat} {a : ActionDefinition} {x : String}
    (ha : list[i]? = some a) (htop : a.top = false) (hafter : a.after = some x) :
    g.names = keys [] list ∧
      (∃ k, k < i ∧ g.names[k]? = some x ∧ g.RunsAfter i k a.mode.states) ∧
      ∀ (j : Nat) (b : ActionDefinition), list[j]? = some b → b.name = x →
        (g.RunsAfter i j a.mode.states ↔ x ∉ keys [] (list.take j)) := by
  obtain ⟨-, hfill⟩ := build_ok h
  obtain ⟨isRoot, s₁, s₂, hfill⟩ := hlist.runs hfill
  refine ⟨(fill_names (Graph.empty_wellFormed isRoot source) hfill).2,
    fill_resolves hfill ha htop hafter, ?_⟩
  rintro j b hb rfl
  exact fill_refers_iff hfill ha htop hafter hb

/-- Two actions of one name, one of another name, and one that refers to it. -/
def steps (name : String) : List ActionDefinition :=
  [{ name := "Step", kind := "Compose" }, { name := "Step", kind := "Compose" },
    { name, kind := "Compose" },
    { name := "Last", kind := "Compose", after := some name, mode := .force }]

def grouped : FlowDefinition where
  name := "grouped"
  actions := [{ name := "Group", kind := "Scope", actions := steps "Other" }]

theorem grouped_references : ∃ f s' g, Runs (grouped.build (.sequential 0 "id")) {} (.ok f) s' ∧
    FilledWith grouped.actions f.actions (steps "Other") g ∧
    g.names = ["Step", "Step_1", "Other", "Last"] ∧ g.RunsAfter 3 2 RunMode.force.states := by
  have hbuild : ∃ f s' n g, Runs (grouped.build (.sequential 0 "id")) {} (.ok f) s' ∧
      f.actions.nodes[0 + 1]? = some n ∧ ⟨["actions"], .graph g⟩ ∈ n.slots :=
    ⟨_, _, _, _, rfl, rfl, List.mem_singleton_self _⟩
  obtain ⟨f, s', n, g, h, hn, hslot⟩ := hbuild
  have hlist : FilledWith grouped.actions f.actions (steps "Other") g :=
    .nested rfl hn (List.mem_singleton_self _) hslot (.self _ g)
  have hlast : (steps "Other")[3]? = some _ := rfl
  obtain ⟨hnames, -, hdeclared⟩ := build_references h hlist hlast rfl rfl
  exact ⟨f, s', g, h, hlist, hnames, (hdeclared 2 _ rfl rfl).mpr (by decide)⟩

def clashing : FlowDefinition where
  name := "clashing"
  actions := steps "Step_1"

/-- A reference is to another action than the one declared under the name, where a repeated name was
given a number before. -/
theorem clashing_misdirected : ∃ f s', Runs (clashing.build (.sequential 0 "id")) {} (.ok f) s' ∧
    f.actions.names = ["Step", "Step_1", "Step_1_1", "Last"] ∧
    f.actions.RunsAfter 3 1 RunMode.force.states ∧
    ¬ RefersToDeclared clashing.actions f.actions := by
  have hbuild : ∃ f s', Runs (clashing.build (.sequential 0 "id")) {} (.ok f) s' ∧
      f.actions.names = ["Step", "Step_1", "Step_1_1", "Last"] ∧
      f.actions.RunsAfter 3 1 RunMode.force.states :=
    ⟨_, _, rfl, rfl, rfl, _, _, rfl, rfl, rfl⟩
  obtain ⟨f, s', h, hnames, hfirst⟩ := hbuild
  refine ⟨f, s', h, hnames, hfirst, fun hall => ?_⟩
  have honly : ∀ (k : Nat) (c : ActionDefinition), k < 3 → (steps "Step_1")[k]? = some c →
      c.name = "Step_1" → k = 2 := by
    rintro (_ | _ | k) c hk hc hname
    · cases hc
      exact absurd hname (by decide)
    · cases hc
      exact absurd hname (by decide)
    · omega
  have hsecond := hall 3 2 _ _ rfl rfl rfl (by decide) rfl honly
  exact absurd (hfirst.unique hsecond) (by decide)

/-- Where no name is repeated in a list and none is reserved, all references are to the actions
declared under the names. -/
theorem build_refers (h : Runs (d.build source) s (.ok f) s')
    (hlist : FilledWith d.actions f.actions list g)
    (hnames : (reservedName :: list.map (·.name)).Nodup) : RefersToDeclared list g := by
  obtain ⟨-, hfill⟩ := build_ok h
  obtain ⟨isRoot, s₁, s₂, hfill⟩ := hlist.runs hfill
  exact fill_refers hfill hnames

end FlowDefinition

end Workflow

import Workflow.Proofs.Graph.Fields
import Workflow.Proofs.Graph.Merge

/-!
# Joins put together

The outline of a graph lists what its actions are and where they hang, without names and identities.
The outline of a join is the one of the first graph, followed by the one of the second graph moved
behind it. So joins can be grouped in any way, and an empty graph that is no root changes nothing.
Names are those of both graphs only if no name is in both. A well-formed graph with an outline and
with names exports what these tell.
-/

set_option autoImplicit false

namespace Workflow

/-- An action without its name and identity: the position below which it hangs, the states of its
gate if it has one, and what it is. What is nested in it is given as exported apart from
identities. -/
structure Outline where
  parent : Nat
  gate : List (List State)
  kind : String
  payload : Fields
  nested : List (List String × Fields)

def Node.outline (n : Node) (parent : Nat) : Outline :=
  ⟨parent, n.runAfter.map (·.2), n.kind, n.payload, n.anonymous.nestedExports⟩

/-- The outline behind a number of actions. What was at the top runs after the last one of them. -/
def Outline.behind (k : Nat) (x : Outline) : Outline :=
  { x with
    parent := k + x.parent
    gate := if k ≠ 0 ∧ x.parent = sentinel then [RunMode.normal.states] else x.gate }

theorem Outline.behind_zero (x : Outline) : x.behind 0 = x := by
  simp [behind]

theorem Outline.behind_behind (j k : Nat) (x : Outline) :
    (x.behind k).behind j = x.behind (j + k) := by
  by_cases hk : k = 0
  · rw [hk, behind_zero, Nat.add_zero]
  · simp [behind, hk, sentinel, Nat.add_assoc]

theorem Node.SameContent.outline {n x : Node} (h : n.SameContent x) {gate : List (List State)}
    (hgate : x.runAfter.map (·.2) = gate) (p : Nat) :
    x.outline p = { n.outline p with gate := gate } := by
  rw [Node.outline, Node.outline, h.kind, h.payload, h.nested, hgate]

namespace Graph
variable {a b m : Graph}

def outlines (g : Graph) : List Outline := g.entries.map fun e => e.node.outline e.parent

theorem outlines_getElem? {g : Graph} {i p : Nat} {n : Node} (hn : g.nodes[i + 1]? = some n)
    (hp : g.parents[i + 1]? = some p) : g.outlines[i]? = some (n.outline p) := by
  rw [outlines, List.getElem?_map, entries_getElem? hn hp]
  rfl

theorem WellFormed.outlines_length {g : Graph} (h : g.WellFormed) : g.outlines.length = g.size := by
  rw [outlines, List.length_map, h.entries_length]

theorem WellFormed.outlines_eq_nil {g : Graph} (h : g.WellFormed) (hempty : g.size = 0) :
    g.outlines = [] :=
  List.eq_nil_of_length_eq_zero (h.outlines_length.trans hempty)

namespace Joined

theorem outline_kept (h : Joined a b m) (ha : a.WellFormed) {i : Nat} (hi : i < a.size) :
    m.outlines[i]? = a.outlines[i]? := by
  have hlt : i + 1 < a.nodes.length := by
    rw [ha.length_eq_size]
    exact Nat.succ_lt_succ hi
  have hn := List.getElem?_eq_getElem hlt
  obtain ⟨p, hp⟩ := ha.exists_parent hlt
  obtain ⟨hparent, x, hx, -, hcontent, hrun⟩ := h.kept (i + 1) _ (Nat.succ_ne_zero i) hn
  rw [outlines_getElem? hn hp, outlines_getElem? hx (hparent.trans hp),
    hcontent.outline (congrArg _ hrun)]
  rfl

/-- The image hangs below the moved position, also at the top of `b`: the sentinel's image is the
last action of `a`, which stands at `a.size`. -/
theorem image_behind (h : Joined a b m) (ha : a.WellFormed) (hb : b.WellFormed) {j p : Nat}
    {n x : Node} (hj : j ≠ sentinel) (hn : b.nodes[j]? = some n) (hp : b.parents[j]? = some p)
    (hx : m.nodes[a.size + j]? = some x) :
    m.parents[a.size + j]? = some (a.size + p) ∧
      x.runAfter.map (·.2) = ((n.outline p).behind a.size).gate := by
  by_cases hroot : p = sentinel
  · subst hroot
    by_cases hempty : a.size = 0
    · obtain ⟨hparent, y, hy, hrun⟩ := h.top_empty j hj hp hempty
      obtain rfl := Option.some.inj (hx.symm.trans hy)
      obtain ⟨-, ⟨-, htop⟩ | ⟨hroot, -⟩⟩ := hb.gated j n sentinel hj hn hp
      · rw [hparent, hrun]
        simp [Outline.behind, Node.outline, hempty, htop]
      · exact absurd rfl hroot
    · obtain ⟨hparent, y, q, hy, -, hrun⟩ := h.top j hj hp hempty
      obtain rfl := Option.some.inj (hx.symm.trans hy)
      rw [hparent, ha.lastAppended_eq_size, hrun]
      simp [Outline.behind, Node.outline, hempty, sentinel, RunMode.states]
  · obtain ⟨hparent, y, q, above, states, hy, -, hbelow, hrun⟩ := h.inner j n p hj hroot hn hp
    obtain rfl := Option.some.inj (hx.symm.trans hy)
    rw [hparent, hrun]
    simp [Outline.behind, Node.outline, hroot, hbelow]

theorem outline_image (h : Joined a b m) (ha : a.WellFormed) (hb : b.WellFormed) {j : Nat}
    (hj : j < b.size) :
    m.outlines[a.size + j]? = (b.outlines.map (Outline.behind a.size))[j]? := by
  have hlt : j + 1 < b.nodes.length := by
    rw [hb.length_eq_size]
    exact Nat.succ_lt_succ hj
  have hne : j + 1 ≠ sentinel := Nat.succ_ne_zero j
  have hn := List.getElem?_eq_getElem hlt
  obtain ⟨p, hp⟩ := hb.exists_parent hlt
  obtain ⟨x, hx, hcontent, -⟩ := h.image (j + 1) _ hne hn
  obtain ⟨hparent, hgate⟩ := h.image_behind ha hb hne hn hp hx
  have himage : m.outlines[a.size + j]? = some (x.outline (a.size + p)) :=
    outlines_getElem? hx hparent
  rw [himage, List.getElem?_map, outlines_getElem? hn hp, hcontent.outline hgate]
  rfl

theorem outlines_eq (h : Joined a b m) (ha : a.WellFormed) (hb : b.WellFormed) (hm : m.WellFormed) :
    m.outlines = a.outlines ++ b.outlines.map (Outline.behind a.size) := by
  apply List.ext_getElem?
  intro i
  rw [List.getElem?_append, ha.outlines_length]
  split
  · next hi => exact h.outline_kept ha hi
  · next hi =>
    obtain ⟨j, rfl⟩ := Nat.exists_eq_add_of_le (Nat.le_of_not_lt hi)
    rw [Nat.add_sub_cancel_left]
    by_cases hj : j < b.size
    · exact h.outline_image ha hb hj
    · rw [List.getElem?_eq_none (by rw [hm.outlines_length, h.size]; omega),
        List.getElem?_eq_none (by rw [List.length_map, hb.outlines_length]; omega)]

end Joined

theorem names_eq_nil {g : Graph} (h : g.size = 0) : g.names = [] := by
  rw [names, List.eq_nil_of_length_eq_zero h, List.map_nil]

theorem Spliced.names_eq {base : Graph} {anchor : Nat} (h : Spliced base anchor b b.size m)
    (hbase : base.WellFormed) (hb : b.WellFormed) (hdisjoint : base.names.Disjoint b.names) :
    m.names = base.names ++ b.names := by
  have hnew : ∀ n ∈ b.members, n.name ∉ base.nodes.map (·.name) := by
    intro n hn hmem
    rw [hbase.nodes_eq, List.map_cons, List.mem_cons] at hmem
    rcases hmem with hroot | hmem
    · exact hb.name_ne_reserved hn hroot
    · exact hdisjoint hmem (List.mem_map_of_mem hn)
  have hsize : base.names.length = base.size := List.length_map _
  have hlength := h.length
  have hbasesize := hbase.length_eq_size
  have hbsize := hb.length_eq_size
  apply List.ext_getElem?
  intro i
  rw [List.getElem?_append, hsize]
  split
  · next hi => rw [names_getElem?, names_getElem?, h.kept (i + 1) (by omega)]
  · next hi =>
    obtain ⟨j, rfl⟩ := Nat.exists_eq_add_of_le (Nat.le_of_not_lt hi)
    rw [Nat.add_sub_cancel_left, names_getElem?, names_getElem?]
    by_cases hj : j + 1 < b.nodes.length
    · have hn := List.getElem?_eq_getElem hj
      obtain ⟨x, hx, hxn⟩ := h.name_eq hbase hb hnew (j + 1) _ (Nat.succ_ne_zero j) (by omega) hn
      rw [Nat.add_assoc, hx, hn, Option.map_some, Option.map_some, hxn]
    · rw [List.getElem?_eq_none (by omega), List.getElem?_eq_none (by omega)]

end Graph

theorem insertSlots_congr {slots slots' : List (Slot Node)}
    (h : slots'.map (fun slot => (slot.path, nestedFields slot.actions)) =
      slots.map fun slot => (slot.path, nestedFields slot.actions)) (fields : Fields) :
    insertSlots slots' fields = insertSlots slots fields := by
  induction slots generalizing slots' fields with
  | nil => rw [List.map_eq_nil_iff.mp h]
  | cons slot rest ih =>
    cases slots' with
    | nil => cases h
    | cons slot' rest' =>
      simp only [List.map_cons, List.cons.injEq, Prod.mk.injEq] at h
      rw [insertSlots, insertSlots, h.1.1, h.1.2, ih h.2]

/-- Below the same position and after the same, an action with the same outline exports the same
apart from identities. -/
theorem Node.anonymous_toFields_congr {n x : Node} {p q : Nat}
    (houtline : x.outline q = n.outline p) (hrun : x.runAfter = n.runAfter) :
    x.anonymous.toFields = n.anonymous.toFields := by
  obtain ⟨-, -, hkind, hpayload, hnested⟩ := Outline.mk.inj houtline
  have hown : x.anonymous.ownFields = n.anonymous.ownFields := by
    simp only [Node.anonymous_eq, Node.ownFields, Node.header, Node.runAfterFields, hkind, hpayload,
      hrun]
  rw [toFields_eq_insertSlots, toFields_eq_insertSlots, hown, insertSlots_congr hnested]

namespace Graph
variable {a b c g g' : Graph}

theorem WellFormed.anonymous_toFields (h : g.WellFormed) :
    g.anonymous.toFields = g.members.map fun n => (n.name, n.anonymous.toJson) := by
  have hnames : (g.members.map Node.anonymous).map (·.name) = g.names := by
    simp only [List.map_map, Function.comp_def, Node.anonymous_name, names]
  have hnodup := (List.nodup_cons.mp h.names_nodup).2
  rw [← hnames] at hnodup
  rw [toFields, anonymous, h.nodes_eq, List.map_cons, graphFields_cons hnodup, memberFields_eq,
    List.map_map]
  congr 1
  funext n
  rw [Function.comp_apply, Node.anonymous_name]

/-- The names and the states of its gate determine after what an action runs. -/
theorem WellFormed.runAfter_congr (hg : g.WellFormed) (hg' : g'.WellFormed)
    (hnames : g'.names = g.names) {i p : Nat} {n x : Node} (hi : i ≠ sentinel)
    (hn : g.nodes[i]? = some n) (hp : g.parents[i]? = some p) (hx : g'.nodes[i]? = some x)
    (hq : g'.parents[i]? = some p) (hgate : x.runAfter.map (·.2) = n.runAfter.map (·.2)) :
    x.runAfter = n.runAfter := by
  obtain ⟨-, ⟨-, hrun⟩ | ⟨hroot, above, mode, habove, hrun⟩⟩ := hg.gated i n p hi hn hp
  · rw [hrun, List.map_nil, List.map_eq_nil_iff] at hgate
    rw [hgate, hrun]
  · obtain ⟨-, ⟨htop, -⟩ | ⟨-, above', mode', habove', hrun'⟩⟩ := hg'.gated i x p hi hx hq
    · exact absurd htop hroot
    obtain ⟨j, rfl⟩ := Nat.exists_eq_succ_of_ne_zero hroot
    have hname := congrArg (fun names => names[j]?) hnames
    simp only [names_getElem?, habove, habove', Option.map_some, Option.some.injEq] at hname
    simp only [hrun, hrun', List.map_cons, List.map_nil, List.cons.injEq, and_true] at hgate
    rw [hrun, hrun', hname, hgate]

theorem WellFormed.members_congr (hg : g.WellFormed) (hg' : g'.WellFormed)
    (hnames : g'.names = g.names) (houtlines : g'.outlines = g.outlines) :
    (g'.members.map fun n => (n.name, n.runAfter, n.anonymous.toFields)) =
      g.members.map fun n => (n.name, n.runAfter, n.anonymous.toFields) := by
  have hsize : g'.size = g.size := by
    rw [← hg.outlines_length, ← hg'.outlines_length, houtlines]
  have hlength := hg.length_eq_size
  have hlength' := hg'.length_eq_size
  apply List.ext_getElem?
  intro i
  rw [members, members, List.getElem?_map, List.getElem?_map, List.getElem?_tail,
    List.getElem?_tail]
  by_cases hi : i + 1 < g.nodes.length
  · have hi' : i + 1 < g'.nodes.length := by omega
    have hn := List.getElem?_eq_getElem hi
    have hx := List.getElem?_eq_getElem hi'
    obtain ⟨p, hp⟩ := hg.exists_parent hi
    obtain ⟨q, hq⟩ := hg'.exists_parent hi'
    have houtline := congrArg (fun outlines => outlines[i]?) houtlines
    simp only [outlines_getElem? hn hp, outlines_getElem? hx hq, Option.some.injEq] at houtline
    have hname := congrArg (fun names => names[i]?) hnames
    simp only [names_getElem?, hn, hx, Option.map_some, Option.some.injEq] at hname
    obtain ⟨hparent, hgate, -, -, -⟩ := Outline.mk.inj houtline
    have hrun := hg.runAfter_congr hg' hnames (Nat.succ_ne_zero i) hn hp hx (hparent ▸ hq) hgate
    rw [hn, hx, Option.map_some, Option.map_some, hname, hrun,
      Node.anonymous_toFields_congr houtline hrun]
  · rw [List.getElem?_eq_none (by omega), List.getElem?_eq_none (by omega)]

/-- Graphs that differ in names and identities alone. -/
structure SameOutlines (g g' : Graph) : Prop where
  size : g'.size = g.size
  isRoot : g'.isRoot = g.isRoot
  lastAppended : g'.lastAppended = g.lastAppended
  outlines : g'.outlines = g.outlines

/-- Graphs that differ in identities alone. -/
structure SameNamed (g g' : Graph) : Prop extends SameOutlines g g' where
  names : g'.names = g.names
  gates : g'.members.map (·.runAfter) = g.members.map (·.runAfter)
  last? : g'.last?.map (·.name) = g.last?.map (·.name)
  exports : g'.anonymous.toFields = g.anonymous.toFields

theorem sameOutlines_of (hg : g.WellFormed) (hg' : g'.WellFormed) (hroot : g'.isRoot = g.isRoot)
    (houtlines : g'.outlines = g.outlines) : SameOutlines g g' := by
  have hsize : g'.size = g.size := by
    rw [← hg.outlines_length, ← hg'.outlines_length, houtlines]
  constructor
  case size => exact hsize
  case isRoot => exact hroot
  case lastAppended => rw [hg'.lastAppended_eq_size, hg.lastAppended_eq_size, hsize]
  case outlines => exact houtlines

theorem SameOutlines.named (h : SameOutlines g g') (hg : g.WellFormed) (hg' : g'.WellFormed)
    (hnames : g'.names = g.names) : SameNamed g g' := by
  have hmembers := hg.members_congr hg' hnames h.outlines
  constructor
  case toSameOutlines => exact h
  case names => exact hnames
  case gates =>
    simpa [Function.comp_def] using congrArg (List.map fun shown => shown.2.1) hmembers
  case last? => rw [Graph.last?, Graph.last?, hg.lastName, hg'.lastName, hnames]
  case exports =>
    rw [hg.anonymous_toFields, hg'.anonymous_toFields]
    simpa [Function.comp_def, Node.toJson] using
      congrArg (List.map fun shown => (shown.1, Json.object shown.2.2)) hmembers

/-- What a join of two graphs is, as far as outlines, names and the root tell. -/
structure Concatenated (a b m : Graph) : Prop where
  wellFormed : m.WellFormed
  size : m.size = a.size + b.size
  isRoot : m.isRoot = (a.isRoot || b.isRoot)
  outlines : m.outlines = a.outlines ++ b.outlines.map (Outline.behind a.size)
  names : a.names.Disjoint b.names → m.names = a.names ++ b.names

theorem merge_concatenated (ha : a.Reachable Node.Made) (hb : b.Reachable Node.Made) (s : Supply) :
    Concatenated a b ((a.merge b).run s).1 := by
  obtain ⟨base, hdup, h⟩ := merge_spliced ha.wellFormed hb.wellFormed s
  have hjoined := h.joined ha hdup hb
  have hbase := hdup.wellFormed.withRoot (base.isRoot || b.isRoot)
  have hbasenames : base.names = a.names := by
    simpa only [names, members, List.map_tail] using congrArg List.tail (hdup.names ha.wellFormed)
  constructor
  case wellFormed => exact h.wellFormed
  case size => exact hjoined.size
  case isRoot => exact hjoined.isRoot
  case outlines => exact hjoined.outlines_eq ha.wellFormed hb.wellFormed h.wellFormed
  case names =>
    intro hdisjoint
    rw [← hbasenames] at hdisjoint ⊢
    exact h.names_eq hbase hb.wellFormed hdisjoint

namespace Concatenated
variable {ab bc left right m z : Graph}

theorem assoc (hab : Concatenated a b ab) (hleft : Concatenated ab c left)
    (hbc : Concatenated b c bc) (hright : Concatenated a bc right) : SameOutlines right left := by
  apply sameOutlines_of hright.wellFormed hleft.wellFormed
  · rw [hleft.isRoot, hab.isRoot, hright.isRoot, hbc.isRoot, Bool.or_assoc]
  · rw [hleft.outlines, hab.outlines, hab.size, hright.outlines, hbc.outlines, List.map_append,
      List.map_map, List.append_assoc]
    congr 2
    apply List.map_congr_left
    intro x _
    exact (Outline.behind_behind a.size b.size x).symm

theorem assoc_names (hab : Concatenated a b ab) (hleft : Concatenated ab c left)
    (hbc : Concatenated b c bc) (hright : Concatenated a bc right) (hdab : a.names.Disjoint b.names)
    (hdac : a.names.Disjoint c.names) (hdbc : b.names.Disjoint c.names) :
    left.names = right.names := by
  have hdleft : ab.names.Disjoint c.names := by
    rw [hab.names hdab]
    exact List.disjoint_append_left.mpr ⟨hdac, hdbc⟩
  have hdright : a.names.Disjoint bc.names := by
    rw [hbc.names hdbc]
    exact List.disjoint_append_right.mpr ⟨hdab, hdac⟩
  rw [hleft.names hdleft, hab.names hdab, hright.names hdright, hbc.names hdbc, List.append_assoc]

theorem left_unit (h : Concatenated z a m) (ha : a.WellFormed) (hz : z.WellFormed)
    (hempty : z.size = 0) (hroot : z.isRoot = false) : SameNamed a m := by
  have houtlines : m.outlines = a.outlines := by
    rw [h.outlines, hz.outlines_eq_nil hempty, hempty, List.nil_append]
    exact (List.map_congr_left fun x _ => x.behind_zero).trans (List.map_id _)
  have hnames : z.names = [] := names_eq_nil hempty
  refine (sameOutlines_of ha h.wellFormed ?_ houtlines).named ha h.wellFormed ?_
  · rw [h.isRoot, hroot, Bool.false_or]
  · rw [h.names (hnames ▸ List.disjoint_nil_left _), hnames, List.nil_append]

theorem right_unit (h : Concatenated a z m) (ha : a.WellFormed) (hz : z.WellFormed)
    (hempty : z.size = 0) (hroot : z.isRoot = false) : SameNamed a m := by
  have houtlines : m.outlines = a.outlines := by
    rw [h.outlines, hz.outlines_eq_nil hempty, List.map_nil, List.append_nil]
  have hnames : z.names = [] := names_eq_nil hempty
  refine (sameOutlines_of ha h.wellFormed ?_ houtlines).named ha h.wellFormed ?_
  · rw [h.isRoot, hroot, Bool.or_false]
  · rw [h.names (hnames ▸ List.disjoint_nil_right _), hnames, List.append_nil]

end Concatenated

/-- Joining is associative up to names and identities, and up to identities alone where no two of
the graphs share a name. An empty graph that is no root is neutral on both sides. -/
theorem Reachable.merge_monoid {a b c z : Graph} (ha : a.Reachable Node.Made)
    (hb : b.Reachable Node.Made) (hc : c.Reachable Node.Made) (hz : z.Reachable Node.Made)
    (hempty : z.size = 0) (hroot : z.isRoot = false) (s₁ s₂ s₃ s₄ s₅ s₆ : Supply) :
    SameOutlines ((a.merge ((b.merge c).run s₁).1).run s₂).1
        ((((a.merge b).run s₃).1.merge c).run s₄).1 ∧
      (a.names.Disjoint b.names → a.names.Disjoint c.names → b.names.Disjoint c.names →
        SameNamed ((a.merge ((b.merge c).run s₁).1).run s₂).1
          ((((a.merge b).run s₃).1.merge c).run s₄).1) ∧
      SameNamed a ((z.merge a).run s₅).1 ∧ SameNamed a ((a.merge z).run s₆).1 := by
  have hbc := merge_concatenated hb hc s₁
  have hright := merge_concatenated ha (hb.merge s₁ hc) s₂
  have hab := merge_concatenated ha hb s₃
  have hleft := merge_concatenated (ha.merge s₃ hb) hc s₄
  have hassoc := hab.assoc hleft hbc hright
  refine ⟨hassoc, ?_, ?_, ?_⟩
  · intro hdab hdac hdbc
    exact hassoc.named hright.wellFormed hleft.wellFormed
      (hab.assoc_names hleft hbc hright hdab hdac hdbc)
  · exact (merge_concatenated hz ha s₅).left_unit ha.wellFormed hz.wellFormed hempty hroot
  · exact (merge_concatenated ha hz s₆).right_unit ha.wellFormed hz.wellFormed hempty hroot

def scopeAndNotice : Graph :=
  let scope := (Node.detached "scope-2" "Scope" "Scope" []).nest ["actions"] (.graph twoSteps)
  let notice := Node.detached "notice-1" "Notice" "Compose" []
  ((empty false (.sequential 2 "id")).link scope sentinel []).link notice 1
    RunMode.onlyIfFailed.states

theorem scopeAndNotice_reachable : scopeAndNotice.Reachable Node.Made := by
  have hscope := (Node.Made.fresh "scope-2" "Scope" "Scope" []).nestGraph ["actions"]
    twoSteps_reachable
  have hfirst := (Reachable.empty false (.sequential 2 "id")).insert (c := .top _) hscope rfl
  exact hfirst.insert
    (c := .append (Node.detached "notice-1" "Notice" "Compose" []) .onlyIfFailed)
    (Node.Made.fresh ..) rfl

def twoReports : Graph :=
  let daily := Node.detached "report-1" "Daily" "Compose" []
  let weekly := Node.detached "report-2" "Weekly" "Compose" []
  ((empty false (.sequential 3 "id")).link daily sentinel []).link weekly sentinel []

theorem twoReports_reachable : twoReports.Reachable Node.Made := by
  have hfirst := (Reachable.empty false (.sequential 3 "id")).insert
    (c := .top (Node.detached "report-1" "Daily" "Compose" [])) (Node.Made.fresh ..) rfl
  exact hfirst.insert (c := .top (Node.detached "report-2" "Weekly" "Compose" []))
    (Node.Made.fresh ..) rfl

theorem steps_scope_reports_grouped :
    (empty false (.sequential 4 "id")).Reachable Node.Made ∧
      ((twoSteps.merge ((scopeAndNotice.merge twoReports).run {}).1).run {}).1.names =
        ["Step", "Step_1", "Scope", "Notice", "Daily", "Weekly"] ∧
      SameNamed ((twoSteps.merge ((scopeAndNotice.merge twoReports).run {}).1).run {}).1
        ((((twoSteps.merge scopeAndNotice).run {}).1.merge twoReports).run {}).1 ∧
      SameNamed twoSteps (((empty false (.sequential 4 "id")).merge twoSteps).run {}).1 ∧
      SameNamed twoSteps ((twoSteps.merge (empty false (.sequential 4 "id"))).run {}).1 := by
  have hempty := Reachable.empty (P := Node.Made) false (.sequential 4 "id")
  obtain ⟨-, hassoc, hleft, hright⟩ := Reachable.merge_monoid twoSteps_reachable
    scopeAndNotice_reachable twoReports_reachable hempty rfl rfl {} {} {} {} {} {}
  have hdab : twoSteps.names.Disjoint scopeAndNotice.names := List.disjoint_left.mpr (by decide)
  have hdac : twoSteps.names.Disjoint twoReports.names := List.disjoint_left.mpr (by decide)
  have hdbc : scopeAndNotice.names.Disjoint twoReports.names := List.disjoint_left.mpr (by decide)
  exact ⟨hempty, by decide +kernel, hassoc hdab hdac hdbc, hleft, hright⟩

end Graph

end Workflow

import Workflow.Proofs.Flow.Refusal

/-!
# Actions listed behind the others

What is listed later has no influence on what is listed earlier: not on whether it can be built, and
not on its names, its identities or what it runs after. So a definition that cannot be built is not
mended by further actions at its end, and where it can be built, its actions are exported as they
are without them.
-/

set_option autoImplicit false

namespace Workflow

namespace ActionDefinition

/-- Later actions stand behind the keys of those before them. -/
theorem listRefusal?_append (isRoot : Bool) (earlier : List String)
    (list further : List ActionDefinition) : listRefusal? isRoot earlier (list ++ further) =
      (listRefusal? isRoot earlier list).or (listRefusal? isRoot (keys earlier list) further) := by
  induction list generalizing earlier with
  | nil => rfl
  | cons d rest ih =>
    rw [List.cons_append, listRefusal?, listRefusal?, ih, Option.or_assoc, Option.or_assoc]
    rfl

theorem entries_append (ids : Nat → String) (earlier : List String)
    (list further : List ActionDefinition) : entries ids earlier (list ++ further) = do
      let before ← entries ids earlier list
      let behind ← entries ids (keys earlier list) further
      return before ++ behind := by
  induction list generalizing earlier with
  | nil => simp [entries, keys]
  | cons d rest ih => simp [entries, ih, keys]

theorem entries_length {ids : Nat → String} {earlier : List String} {list : List ActionDefinition}
    {k k' : Nat} {fields : Fields} (h : (entries ids earlier list).run k = some (fields, k')) :
    fields.length = list.length := by
  induction list generalizing earlier k k' fields with
  | nil =>
    obtain ⟨rfl, -⟩ := Prod.mk.inj (Option.some.inj h)
    rfl
  | cons d rest ih =>
    simp only [entries, StateT.run_bind, Option.bind_eq_bind, Option.bind_eq_some_iff,
      StateT.run_pure, Prod.exists] at h
    obtain ⟨body, k₁, -, number, k₂, -, others, k₃, hothers, hfields⟩ := h
    obtain ⟨rfl, -⟩ := Prod.mk.inj (Option.some.inj hfields)
    rw [List.length_cons, List.length_cons, ih hothers]

/-- The entries of a longer list begin with those of the shorter one. -/
theorem entries_split {ids : Nat → String} {earlier : List String}
    {list further : List ActionDefinition} {k k' : Nat} {fields : Fields}
    (h : (entries ids earlier (list ++ further)).run k = some (fields, k')) :
    ∃ before k₁ behind, (entries ids earlier list).run k = some (before, k₁) ∧
      fields = before ++ behind ∧ behind.length = further.length := by
  simp only [entries_append, StateT.run_bind, Option.bind_eq_bind, Option.bind_eq_some_iff,
    StateT.run_pure, Prod.exists] at h
  obtain ⟨before, k₁, hbefore, behind, k₂, hbehind, hfields⟩ := h
  obtain ⟨rfl, -⟩ := Prod.mk.inj (Option.some.inj hfields)
  exact ⟨before, k₁, behind, hbefore, rfl, entries_length hbehind⟩

end ActionDefinition

namespace FlowDefinition
open Building

/-- The definition with further actions at its end. -/
def extend (d : FlowDefinition) (further : List ActionDefinition) : FlowDefinition :=
  { d with actions := d.actions ++ further }

theorem extend_refusal? (d : FlowDefinition) (further : List ActionDefinition) :
    (d.extend further).refusal? = d.refusal?.or
      (ActionDefinition.listRefusal? true (ActionDefinition.keys [] d.actions) further) := by
  rw [refusal?, refusal?, Option.or_assoc, extend, ActionDefinition.listRefusal?_append]

/-- Of two sources of one stem equally many identities are drawn, for example none. A definition
that cannot be built from the one is refused for the same reason with further actions at its end.
If it can be built from the other with these, it can be built without them, and its actions are
exported as they are there. -/
theorem build_extend {key key' : Nat} {stem : String} {s t : Supply}
    (hcount : s.count key = t.count key') (d : FlowDefinition) (further : List ActionDefinition) :
    (∀ e s', Runs (d.build (.sequential key stem)) s (.error e) s' →
      ∃ t', Runs ((d.extend further).build (.sequential key' stem)) t (.error e) t') ∧
    ∀ f' t', Runs ((d.extend further).build (.sequential key' stem)) t (.ok f') t' →
      ∃ f s', Runs (d.build (.sequential key stem)) s (.ok f) s' ∧ f.triggers = f'.triggers ∧
        ∃ behind, f'.actions.toFields = f.actions.toFields ++ behind ∧
          f.actions.toFields.length = d.actions.length ∧ behind.length = further.length := by
  have hsource := IdSource.sequential_injective key stem
  have hsource' := IdSource.sequential_injective key' stem
  constructor
  · intro e s' h
    rw [build_fails_iff hsource', extend_refusal?, build_refusal hsource d h]
    rfl
  · intro f' t' h'
    have hrefusal := build_refusal hsource' (d.extend further) h'
    rw [extend_refusal?] at hrefusal
    obtain ⟨f, s', h⟩ := (build_succeeds_iff hsource d s).mpr (Option.or_eq_none_iff.mp hrefusal).1
    refine ⟨f, s', h, (build_ok h).1.trans (build_ok h').1.symm, ?_⟩
    obtain ⟨before, k, behind, hbefore, hfields, hlength⟩ :=
      ActionDefinition.entries_split (build_entries h')
    have hentries : (ActionDefinition.entries (IdSource.sequential key stem).spell [] d.actions).run
        (s.count key) = some (f.actions.toFields, s'.count key) := build_entries h
    -- both sources spell their numbers in one way
    have hsame : (f.actions.toFields, s'.count key) = (before, k) := by
      rw [hcount] at hentries
      exact Option.some.inj (hentries.symm.trans hbefore)
    obtain ⟨rfl, -⟩ := Prod.mk.inj hsame
    exact ⟨behind, hfields, ActionDefinition.entries_length hentries, hlength⟩

def again : ActionDefinition := { name := "Step", kind := "Compose" }

def astray : ActionDefinition := { name := "Step", kind := "Compose", after := some "Nowhere" }

theorem sample_extend : Supply.count {} 0 = Supply.count {} 1 ∧
    (∃ t', Runs (((sample.extend [astray]).extend [again]).build (.sequential 1 "id")) {}
      (.error (.graph (.unknownReference "Nowhere"))) t') ∧
    ∃ f' t', Runs ((sample.extend [again]).build (.sequential 1 "id")) {} (.ok f') t' ∧
      f'.actions.names = ["Step", "Step_1", "Last", "Step_2"] ∧
      ∃ f s', Runs (sample.build (.sequential 0 "id")) {} (.ok f) s' ∧ f.triggers = f'.triggers ∧
        ∃ behind, f'.actions.toFields = f.actions.toFields ++ behind ∧
          f.actions.toFields.length = 3 ∧ behind.length = 1 := by
  have hcount : Supply.count {} 0 = Supply.count {} 1 := rfl
  refine ⟨hcount, (build_extend hcount (sample.extend [astray]) [again]).1 _ _ rfl, ?_⟩
  obtain ⟨r, t', h⟩ := runs_exists ((sample.extend [again]).build (.sequential 1 "id")) {}
  have hr : _ = (r, t') := h
  obtain ⟨rfl, rfl⟩ := Prod.mk.inj hr
  exact ⟨_, _, h, rfl, (build_extend hcount sample [again]).2 _ _ h⟩

end FlowDefinition

end Workflow

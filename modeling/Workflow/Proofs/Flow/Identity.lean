import Workflow.Proofs.Flow.Declarations
import Workflow.Proofs.Flow.Postorder

/-!
# Identities in a document

With a source that starts anew the actions of a flow are numbered from one on without a gap, and
every number is shown in the document at the one action that has it, at whatever depth it is.
-/

set_option autoImplicit false

namespace Workflow

namespace FlowDefinition
open Building

/-- The actions of a built flow are those of its definition, in the order of their completion. With a
sequential source that starts anew their identities are the numbers from one on, so that no two of
them have one identity, and at the site of every action the document shows its identity. -/
theorem build_numbered {key : Nat} {stem : String} {d : FlowDefinition} {s s' : Supply} {f : Flow}
    (hfresh : s.count key = 0) (h : Runs (d.build (.sequential key stem)) s (.ok f) s') :
    List.Forall₂ ActionDefinition.Yields d.postorder f.actions.postorder ∧
      f.actions.identities =
        (List.range d.postorder.length).map (fun k => stem ++ "-" ++ toString (k + 1)) ∧
      f.actions.identities.Nodup ∧
      ∀ x ∈ f.actions.sites, f.toJson.lookup ("actions" :: (x.path ++ Node.identityPath)) =
        some (.string x.action.id) := by
  obtain ⟨-, hfill⟩ := build_ok h
  obtain ⟨ns, hns, hnumbers⟩ := ActionDefinition.fill_numbered (fun a _ => a.isNumbered _)
    (Graph.empty_wellFormed true _) hfill
  obtain ⟨hreach, -⟩ := ActionDefinition.fill_plain (fun a _ => a.buildsPlain _) (.empty true _)
    (fun m hm => absurd hm List.not_mem_nil) hfill
  have hpostorder : f.actions.postorder = ns := hns
  have hyields : List.Forall₂ ActionDefinition.Yields d.postorder f.actions.postorder :=
    hpostorder ▸ hnumbers.yields
  have hidentities : f.actions.identities = (IdSource.sequential key stem).drawn s s' := by
    rw [Graph.identities, hpostorder, hnumbers.identities]
  have hlegible := ActionDefinition.isLegible_of_yields hyields
  refine ⟨hyields, ?_, ?_, ?_⟩
  · have hcount : s'.count key = d.postorder.length := by
      have := hnumbers.count
      rwa [show s.count (IdSource.sequential key stem).key = 0 from hfresh, Nat.zero_add] at this
    rw [hidentities, IdSource.drawn_of_fresh hfresh]
    change (List.range (s'.count key)).map _ = _
    rw [hcount]
    rfl
  · rw [hidentities]
    exact IdSource.drawn_nodup (IdSource.sequential_injective key stem) s s'
  · intro x hx
    have hsite := hreach.lookup_sites hlegible x hx
    have hunreserved := (hlegible x.action (List.mem_map_of_mem hx)).unreserved
    change f.actions.toJson.lookup (x.path ++ Node.identityPath) = _
    rw [Json.lookup_append, hsite, Option.bind_some, Node.lookup_identity hunreserved]

theorem sample_numbered : ∃ f s', Runs (sample.build (.sequential 0 "id")) {} (.ok f) s' ∧
    Supply.count {} 0 = 0 ∧
    sample.postorder.map (·.kind) = ["Compose", "Terminate", "Scope", "If", "Foreach"] ∧
    f.actions.identities = ["id-1", "id-2", "id-3", "id-4", "id-5"] ∧
    f.actions.identities.Nodup ∧
    ∀ x ∈ f.actions.sites, f.toJson.lookup ("actions" :: (x.path ++ Node.identityPath)) =
      some (.string x.action.id) := by
  obtain ⟨r, s', h⟩ := runs_exists (sample.build (.sequential 0 "id")) {}
  have hr : _ = (r, s') := h
  obtain ⟨rfl, rfl⟩ := Prod.mk.inj hr
  have hfresh : Supply.count {} 0 = 0 := rfl
  obtain ⟨-, hidentities, hnodup, hsites⟩ := build_numbered hfresh h
  exact ⟨_, _, h, hfresh, by decide, hidentities, hnodup, hsites⟩

end FlowDefinition

end Workflow

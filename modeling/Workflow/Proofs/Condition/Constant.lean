import Workflow.Condition.Basic
import Workflow.Proofs.Condition.Schema
import Workflow.Proofs.Condition.Spelling
import Workflow.Proofs.Condition.Surroundings

/-!
# Constants and references

A string in quotes is compiled to the text between its quotes, and a name to the reference to its
variable, unless it is a number. Both are strings in the compiled condition, and nothing but their
texts tells them apart. So a constant is taken for a variable if it spells the reference to it, and
not otherwise, wherever it stands in a condition.
-/

set_option autoImplicit false

namespace Workflow

/-- A text between quotes. -/
def quoted (text : String) : String := "\"" ++ text ++ "\""

theorem toList_quoted (text : String) : (quoted text).toList = '"' :: text.toList ++ ['"'] := by
  simp [quoted]

theorem lowerLeaf_quoted {text : String} (h : '"' ∉ text.toList) :
    lowerLeaf (quoted text) = .string text := by
  have hne : ∀ word : String, '"' ∉ word.toList → quoted text ≠ word := by
    rintro word hword rfl
    exact hword (by simp [toList_quoted])
  have hkept : (quoted text).toList.filter (· ≠ '"') = text.toList := by
    have hall : ∀ c ∈ text.toList, c ≠ '"' := fun c hc heq => h (heq ▸ hc)
    rw [toList_quoted, List.filter_append, List.filter_cons_of_neg (by simp),
      List.filter_eq_self.mpr (by simpa using hall)]
    simp
  rw [lowerLeaf, if_neg (hne "true" (by decide)), if_neg (hne "false" (by decide)),
    if_pos (by simp [toList_quoted]), hkept, String.ofList_toList]

/-- Without quotes, only a reference is compiled to a string. -/
theorem lowerLeaf_string {text s : String} (h : '"' ∉ text.toList)
    (hs : lowerLeaf text = .string s) : s = variableReference text := by
  unfold lowerLeaf at hs
  split at hs
  · cases hs
  split at hs
  · cases hs
  split at hs
  · next hquote => exact absurd (List.contains_iff_mem.mp hquote) h
  split at hs
  · cases hs
  · exact (Json.string.inj hs).symm

/-- A text in quotes is lowered to what a name is lowered to exactly if this is a reference and the
text spells it. -/
theorem lowerLeaf_quoted_eq_iff {text name : String} (htext : '"' ∉ text.toList)
    (hname : '"' ∉ name.toList) :
    lowerLeaf (quoted text) = lowerLeaf name ↔
      (∃ other, lowerLeaf name = .string (variableReference other)) ∧
        text = variableReference name := by
  rw [lowerLeaf_quoted htext]
  constructor
  · intro hvalue
    obtain rfl := lowerLeaf_string hname hvalue.symm
    exact ⟨⟨name, hvalue.symm⟩, rfl⟩
  · rintro ⟨⟨other, hother⟩, rfl⟩
    rw [hother, lowerLeaf_string hname hother]

namespace Expression

/-- What is compiled at one place of a condition can be read off the compiled condition. -/
theorem Surrounding.lower_fill_iff (tree : Surrounding) (a b : Expression) :
    (tree.fill a).lower = (tree.fill b).lower ↔ a.lower = b.lower := by
  induction tree with
  | hole => rfl
  | negation inner ih => simpa [fill, lower] using ih
  | comparisonLeft op inner right ih =>
    cases op <;> simpa [fill, lower, Comparison.schemaName?] using ih
  | comparisonRight op left inner ih =>
    cases op <;> simpa [fill, lower, Comparison.schemaName?] using ih
  | connectiveLeft op inner right ih => simpa [fill, lower] using ih
  | connectiveRight op left inner ih => simpa [fill, lower] using ih

end Expression

namespace Condition

theorem compile_of_ofText {text : String} {ts : List Token} (h : Token.ofText text = .ok ts) :
    compile text = (Expression.ofTokens ts).map Expression.lower := by
  rw [compile, ofText, Expression.parse_of_ofText h]
  cases Expression.ofTokens ts <;> rfl

theorem compile_operand {text : String} {x : Token} (hx : x.IsOperand)
    (h : Token.ofText text = .ok [x]) : compile text = .ok (lowerLeaf x.text) := by
  rw [compile_of_ofText h, (Expression.builds_operand hx).ofTokens_eq]
  rfl

/-- Texts that differ in one operand are refused for one reason, or compiled to the same but for
what is compiled of this operand. -/
theorem compile_around (before behind : List Token) :
    (∃ err, ∀ text (x : Token), x.IsOperand → Token.ofText text = .ok (before ++ x :: behind) →
      compile text = .error err) ∨
      ∃ tree : Expression.Surrounding, ∀ text (x : Token), x.IsOperand →
        Token.ofText text = .ok (before ++ x :: behind) →
        compile text = .ok (tree.fill (.leaf x.text)).lower := by
  rcases Expression.ofTokens_around before behind with ⟨err, hall⟩ | ⟨tree, hall⟩
  · refine .inl ⟨err, fun text x hx htext => ?_⟩
    have hrun := hall [x] _ (Expression.builds_operand hx)
    rw [List.singleton_append] at hrun
    rw [compile_of_ofText htext, hrun]
    rfl
  · refine .inr ⟨tree, fun text x hx htext => ?_⟩
    have hrun := hall [x] _ (Expression.builds_operand hx)
    rw [List.singleton_append] at hrun
    rw [compile_of_ofText htext, hrun]
    rfl

theorem ofText_quoted {text : String} (h : '"' ∉ text.toList) :
    Token.ofText (quoted text) = .ok [⟨.string, quoted text⟩] := by
  have hlexes := Token.Lexes.string h .nil
  have htoken : Token.ofString text.toList = ⟨.string, quoted text⟩ := by
    rw [Token.ofString, ← toList_quoted, String.ofList_toList]
  rw [htoken] at hlexes
  apply Token.lexes_iff.mp
  rw [toList_quoted]
  exact hlexes

/-- A text in quotes is compiled to the text. In the place of a name, by itself or within a longer
condition, it gives another result, unless the name is compiled to a reference and the text is the
one of this reference. -/
theorem compile_quoted {text source name : String} (htext : '"' ∉ text.toList)
    (hsource : Token.ofText source = .ok [⟨.identifier, name⟩]) :
    compile (quoted text) = .ok (.string text) ∧
      (compile (quoted text) = compile source ↔
        (∃ other, compile source = .ok (.string (variableReference other))) ∧
          text = variableReference name) ∧
      ∀ before behind constant reading,
        Token.ofText constant = .ok (before ++ ⟨.string, quoted text⟩ :: behind) →
        Token.ofText reading = .ok (before ++ ⟨.identifier, name⟩ :: behind) →
        (∃ e, compile constant = .error e ∧ compile reading = .error e) ∨
          ∃ a b, compile constant = .ok a ∧ compile reading = .ok b ∧
            (a = b ↔ (∃ other, compile source = .ok (.string (variableReference other))) ∧
              text = variableReference name) := by
  have hstring : Token.IsOperand ⟨.string, quoted text⟩ := .inr (.inr rfl)
  have hname : Token.IsOperand ⟨.identifier, name⟩ := .inr (.inl rfl)
  have hconstant := compile_operand hstring (ofText_quoted htext)
  have hreading := compile_operand hname hsource
  have hbare : '"' ∉ name.toList :=
    (((Token.lexes_iff.mpr hsource).wellSpelled _ List.mem_cons_self).bare nofun).1
  have hsame := lowerLeaf_quoted_eq_iff htext hbare
  simp only [hreading, hconstant, Except.ok.injEq]
  refine ⟨lowerLeaf_quoted htext, hsame, ?_⟩
  intro before behind constant reading hconstant hreading
  rcases compile_around before behind with ⟨err, hall⟩ | ⟨tree, hall⟩
  · exact .inl ⟨err, hall _ _ hstring hconstant, hall _ _ hname hreading⟩
  · refine .inr ⟨_, _, hall _ _ hstring hconstant, hall _ _ hname hreading, ?_⟩
    exact (tree.lower_fill_iff _ _).trans hsame

/-- A constant with the reference to one variable, in the place of another variable. -/
theorem otherReference_distinct :
    '"' ∉ "@variables('y')".toList ∧ Token.ofText "x" = .ok [⟨.identifier, "x"⟩] ∧
    compile "x" = .ok (.string (variableReference "x")) ∧
    compile (quoted "@variables('y')") = .ok (.string "@variables('y')") ∧
    compile (quoted "@variables('y')") ≠ compile "x" ∧
    ∃ a b, compile "not status == \"@variables('y')\"" = .ok a ∧
      compile "not status == x" = .ok b ∧ a ≠ b := by
  have htext : '"' ∉ "@variables('y')".toList := by decide
  have hsource : Token.ofText "x" = .ok [⟨.identifier, "x"⟩] := by decide
  have hother : "@variables('y')" ≠ variableReference "x" := by decide
  have hconstant : Token.ofText "not status == \"@variables('y')\"" =
      .ok ([Token.ofSymbol "not", ⟨.identifier, "status"⟩, Token.ofSymbol "=="] ++
        ⟨.string, quoted "@variables('y')"⟩ :: []) := by decide
  have hplaced : Token.ofText "not status == x" =
      .ok ([Token.ofSymbol "not", ⟨.identifier, "status"⟩, Token.ofSymbol "=="] ++
        ⟨.identifier, "x"⟩ :: []) := by decide
  obtain ⟨hvalue, halone, hplaces⟩ := compile_quoted htext hsource
  refine ⟨htext, hsource, rfl, hvalue, fun h => hother (halone.mp h).2, ?_⟩
  rcases hplaces _ _ _ _ hconstant hplaced with ⟨e, -, herror⟩ | ⟨a, b, ha, hb, hab⟩
  · have hok : (compile "not status == x").isOk = true := rfl
    rw [herror] at hok
    cases hok
  · exact ⟨a, b, ha, hb, fun h => hother (hab.mp h).2⟩

/-- A constant that spells the reference to a variable is compiled to what the variable is compiled
to. -/
theorem ownReference_taken :
    '"' ∉ "@variables('x')".toList ∧ Token.ofText "x" = .ok [⟨.identifier, "x"⟩] ∧
    compile "x" = .ok (.string (variableReference "x")) ∧
    compile (quoted "@variables('x')") = compile "x" ∧
    compile "\"@variables('x')\" == x" =
      .ok (.object
        [("equals", .array [.string "@variables('x')", .string "@variables('x')"])]) :=
  ⟨by decide, by decide, rfl, rfl, rfl⟩

end Condition

end Workflow

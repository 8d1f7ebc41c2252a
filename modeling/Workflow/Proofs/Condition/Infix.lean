import Workflow.Proofs.Condition.Postfix
import Workflow.Proofs.Condition.Token

/-!
# Reading conditions from left to right

A tree is read from left to right, operators between their operands and without parentheses. Of an
accepted condition that reading has the operands of the condition in their order and all of its
operators. It is the condition itself if every token stands where one may stand in an infix
expression, and no negation stands directly behind a comparison or another negation. Operators that
stand elsewhere are not always refused, and may be read in another place.
-/

set_option autoImplicit false

namespace Workflow

/-- What may stand next: an operand or its negation, an operand as it is, or an operator. -/
inductive Due where
  | operand
  | plainOperand
  | operator
  deriving DecidableEq, Repr

namespace Due

/-- What is due behind a token, if it may stand where something is due. -/
def next? (due : Due) (t : Token) : Option Due :=
  match t.kind with
  | .leftParen => if due = .operator then none else some .operand
  | .rightParen => if due = .operator then some .operator else none
  | .operator =>
    match Expression.role t with
    | .operand => none
    | .negation => if due = .operand then some .plainOperand else none
    | .comparison _ => if due = .operator then some .plainOperand else none
    | .connective _ => if due = .operator then some .operand else none
  | _ => if due = .operator then none else some .operator

def accepts (due : Due) : List Token → Bool
  | [] => due = .operator
  | t :: ts => ((due.next? t).map fun d => d.accepts ts).getD false

end Due

/-- Every token stands where it may stand in an infix expression. -/
def Token.isInfix (ts : List Token) : Bool := Due.operand.accepts ts

namespace Expression

/-- Between them the stacks of both passes hold the tokens read so far, each operator before the
operand that is to its right. `texts` are the texts of these tokens without parentheses. -/
inductive Holds : Due → List Expression → List Token → List String → Prop where
  | start : Holds .operand [] [] []
  | leftParen {due : Due} {es : List Expression} {stack : List Token} {texts : List String}
    {t : Token} : t.kind = .leftParen → due ≠ .operator → Holds due es stack texts →
    Holds .operand es (t :: stack) texts
  | negation {es : List Expression} {stack : List Token} {texts : List String} {t : Token} :
    role t = .negation → Holds .operand es stack texts →
    Holds .plainOperand es (t :: stack) (texts ++ [t.text])
  | comparison {op : Comparison} {es : List Expression} {stack : List Token} {texts : List String}
    {t : Token} : role t = .comparison op → Holds .operator es stack texts →
    Holds .plainOperand es (t :: stack) (texts ++ [t.text])
  | connective {op : Connective} {es : List Expression} {stack : List Token} {texts : List String}
    {t : Token} : role t = .connective op → Holds .operator es stack texts →
    Holds .operand es (t :: stack) (texts ++ [t.text])
  | operand {due : Due} {es : List Expression} {stack : List Token} {texts : List String}
    (e : Expression) : due ≠ .operator → Holds due es stack texts →
    Holds .operator (e :: es) stack (texts ++ e.infixTexts)

theorem precedence?_negation {t : Token} (h : role t = .negation) : t.precedence? = some 3 := by
  have hspells := role_spells t
  rw [h] at hspells
  have hkind := kind_of_role (t := t) (by simp [h])
  obtain ⟨kind, text⟩ := t
  obtain rfl : kind = .operator := hkind
  obtain rfl : text = negationKeyword := hspells
  rfl

theorem precedence?_connective {t : Token} {op : Connective} (h : role t = .connective op) :
    ∃ p, t.precedence? = some p ∧ p < 3 := by
  have hspells := role_spells t
  rw [h] at hspells
  have hkind := kind_of_role (t := t) (by simp [h])
  obtain ⟨kind, text⟩ := t
  obtain rfl : kind = .operator := hkind
  obtain rfl : text = op.keyword := hspells
  cases op
  · exact ⟨2, rfl, by decide⟩
  · exact ⟨1, rfl, by decide⟩

namespace Holds
variable {due : Due} {es : List Expression} {stack : List Token} {texts : List String} {t : Token}

/-- An operator that is taken off the stack finds its operands, and reading them together changes
nothing. -/
theorem popOperator (h : Holds .operator es (t :: stack) texts) (ht : t.kind = .operator) :
    ∃ es', Grows t es es' ∧ Holds .operator es' stack texts := by
  have hspells := role_spells t
  cases h with
  | operand e hdue h =>
    cases h with
    | leftParen hleft => rw [ht] at hleft; cases hleft
    | negation hrole h =>
      rw [hrole] at hspells
      have hnew := h.operand (.negation e) (by decide)
      rw [infixTexts, ← hspells] at hnew
      refine ⟨_, .negation hrole, ?_⟩
      rwa [List.append_assoc, List.singleton_append]
    | @comparison op _ _ _ _ hrole h =>
      rw [hrole] at hspells
      cases h with
      | operand l hdue h =>
        have hnew := h.operand (.comparison op l e) hdue
        rw [infixTexts, ← hspells] at hnew
        refine ⟨_, .comparison hrole, ?_⟩
        rwa [List.append_assoc, List.append_assoc, List.singleton_append]
    | @connective op _ _ _ _ hrole h =>
      rw [hrole] at hspells
      cases h with
      | operand l hdue h =>
        have hnew := h.operand (.connective op l e) hdue
        rw [infixTexts, ← hspells] at hnew
        refine ⟨_, .connective hrole, ?_⟩
        rwa [List.append_assoc, List.append_assoc, List.singleton_append]
    | operand => exact absurd rfl hdue

theorem popParen (h : Holds .operator es (t :: stack) texts) (ht : t.kind = .leftParen) :
    Holds .operator es stack texts := by
  have hrole : role t = .operand := role_of_kind (by simp [ht])
  cases h with
  | operand e hdue h =>
    cases h with
    | leftParen _ hbelow h => exact h.operand e hbelow
    | negation hrole' | comparison hrole' | connective hrole' => rw [hrole] at hrole'; cases hrole'
    | operand => exact absurd rfl hdue

theorem popOperators {popped : List Token} (h : Holds .operator es (popped ++ stack) texts)
    (hpopped : ∀ t ∈ popped, t.kind = .operator) :
    ∃ es', (∀ rest, assemble es (popped ++ rest) = assemble es' rest) ∧
      Holds .operator es' stack texts := by
  induction popped generalizing es with
  | nil => exact ⟨es, fun _ => rfl, h⟩
  | cons t popped ih =>
    obtain ⟨es', hgrows, h'⟩ := h.popOperator (hpopped t List.mem_cons_self)
    obtain ⟨es'', hrun, h''⟩ := ih h' fun x hx => hpopped x (List.mem_cons_of_mem t hx)
    refine ⟨es'', ?_, h''⟩
    intro rest
    rw [List.cons_append, assemble_push hgrows.push, hrun]

/-- Where a negation may stand, nothing on the stack binds as tightly as it does. -/
theorem looserThan (h : Holds .operand es stack texts) : Token.LooserThan 3 stack := by
  cases h with
  | start => exact Token.looserThan_nil 3
  | leftParen hleft => exact Token.looserThan_leftParen 3 hleft _
  | @connective op _ _ _ t hrole =>
    obtain ⟨p, hp, hlt⟩ := precedence?_connective hrole
    exact Token.looserThan_cons hp hlt _

theorem isStack (h : Holds due es stack texts) : Token.IsStack stack := by
  induction h with
  | start => exact fun _ ht => absurd ht List.not_mem_nil
  | leftParen hleft _ _ ih => exact List.forall_mem_cons.mpr ⟨.inr hleft, ih⟩
  | negation hrole _ ih | comparison hrole _ ih | connective hrole _ ih =>
    exact List.forall_mem_cons.mpr ⟨.inl (kind_of_role (by simp [hrole])), ih⟩
  | operand _ _ _ ih => exact ih

/-- An operator that may stand where it does takes off the stack what is complete, and nothing if
it is a negation. -/
theorem stepOperator {popped kept : List Token} {due' : Due}
    (h : Holds due es (popped ++ kept) texts) (ht : t.kind = .operator)
    (hnext : due.next? t = some due')
    (hpopped : ∀ x ∈ popped, Token.yieldsTo (t.precedence?.getD 0) x = true) :
    ∃ es', (∀ rest, assemble es (popped ++ rest) = assemble es' rest) ∧
      Holds due' es' (t :: kept) (texts ++ [t.text]) := by
  have hkind : ∀ x ∈ popped, x.kind = .operator :=
    fun x hx => Token.yieldsTo_operator (hpopped x hx)
  simp only [Due.next?, ht] at hnext
  cases hrole : role t with
  | operand => simp [hrole] at hnext
  | negation =>
    simp only [hrole, Option.ite_none_right_eq_some, Option.some.injEq] at hnext
    obtain ⟨rfl, rfl⟩ := hnext
    cases popped with
    | nil => exact ⟨es, fun _ => rfl, .negation hrole h⟩
    | cons x popped =>
      have hyield := hpopped x List.mem_cons_self
      rw [precedence?_negation hrole, Option.getD_some] at hyield
      cases hp : x.precedence? with
      | none => simp [Token.yieldsTo, hp] at hyield
      | some p =>
        have hlt := h.looserThan x rfl p hp
        simp only [Token.yieldsTo, hp, decide_eq_true_eq] at hyield
        omega
  | comparison op =>
    simp only [hrole, Option.ite_none_right_eq_some, Option.some.injEq] at hnext
    obtain ⟨rfl, rfl⟩ := hnext
    obtain ⟨es', hrun, h'⟩ := h.popOperators hkind
    exact ⟨es', hrun, .comparison hrole h'⟩
  | connective op =>
    simp only [hrole, Option.ite_none_right_eq_some, Option.some.injEq] at hnext
    obtain ⟨rfl, rfl⟩ := hnext
    obtain ⟨es', hrun, h'⟩ := h.popOperators hkind
    exact ⟨es', hrun, .connective hrole h'⟩

theorem step {emitted stack' : List Token} {due' : Due} (h : Holds due es stack texts)
    (hnext : due.next? t = some due') (hmove : Token.Moves stack t emitted stack') :
    ∃ es', (∀ rest, assemble es (emitted ++ rest) = assemble es' rest) ∧
      Holds due' es' stack' (texts ++ (Token.unparenthesized [t]).map (·.text)) := by
  cases hmove with
  | operator ht hsplit hpopped =>
    subst hsplit
    rw [Token.unparenthesized_cons, if_neg (Token.not_isParenthesis_of_operator ht)]
    exact h.stepOperator ht hnext hpopped
  | leftParen ht =>
    simp only [Due.next?, ht, Option.ite_none_left_eq_some, Option.some.injEq] at hnext
    obtain ⟨hdue, rfl⟩ := hnext
    rw [Token.unparenthesized_cons, if_pos (.inl ht)]
    refine ⟨es, fun _ => rfl, ?_⟩
    simpa [Token.unparenthesized] using Holds.leftParen ht hdue h
  | rightParen ht hsplit hpopped hleft =>
    subst hsplit
    simp only [Due.next?, ht, Option.ite_none_right_eq_some, Option.some.injEq] at hnext
    obtain ⟨rfl, rfl⟩ := hnext
    have hkind : ∀ x ∈ emitted, x.kind = .operator := fun x hx =>
      (h.isStack x (List.mem_append_left _ hx)).resolve_right (hpopped x hx)
    obtain ⟨es', hrun, h'⟩ := h.popOperators hkind
    rw [Token.unparenthesized_cons, if_pos (.inr ht)]
    refine ⟨es', hrun, ?_⟩
    simpa [Token.unparenthesized] using h'.popParen hleft
  | operand ht =>
    have hdue : due ≠ .operator ∧ due' = .operator := by
      unfold Due.next? at hnext
      rcases ht with ht | ht | ht <;>
      · simp only [ht, Option.ite_none_left_eq_some, Option.some.injEq] at hnext
        exact ⟨hnext.1, hnext.2.symm⟩
    obtain ⟨hdue, rfl⟩ := hdue
    have hrole : role t = .operand := role_of_kind (by rcases ht with ht | ht | ht <;> simp [ht])
    rw [Token.unparenthesized_cons, if_neg ht.not_isParenthesis]
    exact ⟨_, assemble_push (Grows.operand hrole).push, h.operand (.leaf t.text) hdue⟩

theorem run {ts out : List Token} (h : Holds due es stack texts) (hts : due.accepts ts = true)
    (hout : Token.arrange stack ts = .ok out) :
    ∃ e, assemble es out = .ok e ∧
      e.infixTexts = texts ++ (Token.unparenthesized ts).map (·.text) := by
  induction ts generalizing due es stack texts out with
  | nil =>
    obtain rfl : due = .operator := by simpa [Due.accepts] using hts
    obtain ⟨rfl, hleft⟩ := Token.arrange_nil hout
    have hkind : ∀ t ∈ out, t.kind = .operator :=
      fun t ht => (h.isStack t ht).resolve_right (hleft t ht)
    rw [← List.append_nil out] at h
    obtain ⟨es', hrun, h'⟩ := h.popOperators hkind
    -- nothing is left on the stack, so the tree on top holds all texts
    cases h' with
    | operand e hdue h' =>
      cases h' with
      | start =>
        refine ⟨e, ?_, by simp [Token.unparenthesized]⟩
        have hend := hrun []
        rwa [List.append_nil] at hend
      | operand => exact absurd rfl hdue
  | cons t ts ih =>
    cases hnext : due.next? t with
    | none => simp [Due.accepts, hnext] at hts
    | some due' =>
      have hts' : due'.accepts ts = true := by simpa [Due.accepts, hnext] using hts
      obtain ⟨emitted, stack', rest, hmove, hrest, rfl⟩ := Token.arrange_cons hout
      obtain ⟨es', hrun, h'⟩ := h.step hnext hmove
      obtain ⟨e, he, htexts⟩ := ih h' hts' hrest
      refine ⟨e, (hrun rest).trans he, ?_⟩
      rw [htexts, List.append_assoc, ← List.map_append, ← Token.unparenthesized_append,
        List.singleton_append]

end Holds

/-- Tokens of a text that are no parentheses are leaves exactly if they are operands. -/
theorem role_eq_operand_iff {t : Token} (hknown : t.IsKnown) (ht : ¬ t.IsParenthesis) :
    role t = .operand ↔ t.IsOperand := by
  constructor
  · intro hrole
    rcases t.kind_cases with hkind | hkind | hkind | hkind
    · exact absurd hrole (hknown.role_ne hkind)
    · exact absurd (.inl hkind) ht
    · exact absurd (.inr hkind) ht
    · exact hkind
  · intro hop
    exact role_of_kind fun hkind => Token.not_isOperand_of_operator hkind hop

/-- An accepted condition keeps its operands in their order and all of its operators, and nothing
else is in its tree. If all tokens stand in infix positions, reading the tree from left to right
gives the condition. -/
theorem parse_reads {text : String} {ts : List Token} {e : Expression}
    (htext : Token.ofText text = .ok ts) (hparse : parse text = .ok e) :
    e.leaves = (Token.operands ts).map (·.text) ∧
      e.infixTexts.Perm ((Token.unparenthesized ts).map (·.text)) ∧
      (Token.isInfix ts = true → e.infixTexts = (Token.unparenthesized ts).map (·.text)) := by
  obtain ⟨ts', out, htext', hout, he⟩ := parse_ok hparse
  obtain rfl := Except.ok.inj (htext'.symm.trans htext)
  obtain ⟨hperm, hoperands⟩ := Token.toPostfix_keeps hout
  have hroles : ∀ t ∈ out, role t = .operand ↔ t.IsOperand := by
    intro t ht
    have hmem := List.mem_filter.mp (hperm.mem_iff.mp ht)
    exact role_eq_operand_iff (Token.isKnown_ofText htext t hmem.1) (by simpa using hmem.2)
  obtain ⟨hleaves, htexts⟩ := assemble_keeps hroles he
  refine ⟨?_, ?_, ?_⟩
  · rw [hleaves, hoperands]
    rfl
  · rw [List.flatMap_nil, List.nil_append] at htexts
    exact htexts.trans (hperm.map Token.text)
  · intro hinfix
    obtain ⟨e', he', hreading⟩ := Holds.start.run hinfix hout
    obtain rfl := Except.ok.inj (he.symm.trans he')
    exact hreading

theorem parse_reads_sample :
    ∃ ts e, Token.ofText "not (a or b) and c == 1" = .ok ts ∧
      parse "not (a or b) and c == 1" = .ok e ∧ Token.isInfix ts = true ∧
      e.infixTexts = ["not", "a", "or", "b", "and", "c", "==", "1"] := by
  have htext : Token.ofText "not (a or b) and c == 1" = .ok Derives.sampleTokens := by decide
  have hparse : parse "not (a or b) and c == 1" = .ok Derives.sampleTree := by decide
  have hinfix : Token.isInfix Derives.sampleTokens = true := by decide
  exact ⟨_, _, htext, hparse, hinfix, (parse_reads htext hparse).2.2 hinfix⟩

/-- The text is accepted and read as something else from left to right. -/
def IsMisread (text : String) : Prop :=
  ∃ ts e, Token.ofText text = .ok ts ∧ parse text = .ok e ∧
    e.infixTexts ≠ (Token.unparenthesized ts).map (·.text)

/-- Operators behind both operands or in front of them, and negations behind a negation or a
comparison, are taken for operators that stand elsewhere. -/
theorem misread_samples :
    IsMisread "a b ==" ∧ IsMisread "and a b" ∧ IsMisread "x and not not y" ∧
      IsMisread "x and a == not b" := by
  let x : Token := ⟨.identifier, "x"⟩
  let a : Token := ⟨.identifier, "a"⟩
  let b : Token := ⟨.identifier, "b"⟩
  let y : Token := ⟨.identifier, "y"⟩
  refine ⟨?_, ?_, ?_, ?_⟩
  · exact ⟨[a, b, Token.ofComparison .equal], .comparison .equal (.leaf "a") (.leaf "b"),
      by decide, by decide, by decide⟩
  · exact ⟨[Token.ofConnective .and, a, b], .connective .and (.leaf "a") (.leaf "b"),
      by decide, by decide, by decide⟩
  · exact ⟨[x, Token.ofConnective .and, Token.ofNegation, Token.ofNegation, y],
      .connective .and (.negation (.leaf "x")) (.negation (.leaf "y")),
      by decide, by decide, by decide⟩
  · exact ⟨[x, Token.ofConnective .and, a, Token.ofComparison .equal, Token.ofNegation, b],
      .connective .and (.comparison .equal (.leaf "x") (.leaf "a")) (.negation (.leaf "b")),
      by decide, by decide, by decide⟩

end Expression

end Workflow

import Mathlib.Data.List.Perm.Basic
import Mathlib.Data.List.TakeWhile
import Workflow.Proofs.Condition.Grammar

/-!
# What postfix order keeps

Any tokens that are put into postfix order keep all tokens but the parentheses, and keep the order
of the operands; only operators are moved. Building a tree from postfix tokens uses each of them
once: the leaves of the tree are the operands in their order, and its operators are the others.
Whether the tree means what the tokens say is not looked at here.
-/

set_option autoImplicit false

namespace Workflow

theorem Except.map_eq_ok {ε α β : Type} {f : α → β} {x : Except ε α} {y : β}
    (h : x.map f = .ok y) : ∃ a, x = .ok a ∧ y = f a := by
  cases x with
  | error e => cases h
  | ok a => exact ⟨a, rfl, (Except.ok.inj h).symm⟩

theorem span_split {α : Type} (test : α → Bool) (xs : List α) :
    ∃ ys zs, xs.span test = (ys, zs) ∧ xs = ys ++ zs ∧ (∀ y ∈ ys, test y = true) ∧
      ∀ z ∈ zs.head?, test z = false := by
  refine ⟨_, _, List.span_eq_takeWhile_dropWhile test xs,
    List.takeWhile_append_dropWhile.symm, fun y hy => List.mem_takeWhile_imp hy, ?_⟩
  intro z hz
  have hnot := List.head?_dropWhile_not test xs
  rwa [Option.mem_def.mp hz] at hnot

namespace Token

def IsParenthesis (t : Token) : Prop := t.kind = .leftParen ∨ t.kind = .rightParen

instance : DecidablePred IsParenthesis :=
  fun t => inferInstanceAs (Decidable (t.kind = .leftParen ∨ t.kind = .rightParen))

instance : DecidablePred IsOperand :=
  fun t => inferInstanceAs (Decidable (t.kind = .literal ∨ t.kind = .identifier ∨ t.kind = .string))

theorem kind_cases (t : Token) :
    t.kind = .operator ∨ t.kind = .leftParen ∨ t.kind = .rightParen ∨ t.IsOperand := by
  unfold IsOperand
  cases t.kind <;> simp

theorem IsOperand.not_isParenthesis {t : Token} (h : t.IsOperand) : ¬ t.IsParenthesis := by
  rcases h with h | h | h <;> simp [IsParenthesis, h]

theorem not_isParenthesis_of_operator {t : Token} (h : t.kind = .operator) :
    ¬ t.IsParenthesis := by
  simp [IsParenthesis, h]

theorem not_isOperand_of_operator {t : Token} (h : t.kind = .operator) : ¬ t.IsOperand := by
  simp [IsOperand, h]

/-- All tokens but the parentheses. -/
def unparenthesized (ts : List Token) : List Token := ts.filter fun t => ¬ t.IsParenthesis

def operands (ts : List Token) : List Token := ts.filter fun t => t.IsOperand

theorem unparenthesized_append (ts us : List Token) :
    unparenthesized (ts ++ us) = unparenthesized ts ++ unparenthesized us :=
  List.filter_append ts us

theorem operands_append (ts us : List Token) : operands (ts ++ us) = operands ts ++ operands us :=
  List.filter_append ts us

theorem unparenthesized_cons (t : Token) (ts : List Token) :
    unparenthesized (t :: ts) =
      if t.IsParenthesis then unparenthesized ts else t :: unparenthesized ts := by
  by_cases h : t.IsParenthesis <;> simp [unparenthesized, h]

theorem operands_cons (t : Token) (ts : List Token) :
    operands (t :: ts) = if t.IsOperand then t :: operands ts else operands ts := by
  by_cases h : t.IsOperand <;> simp [operands, h]

theorem unparenthesized_of_operators {ts : List Token} (h : ∀ t ∈ ts, t.kind = .operator) :
    unparenthesized ts = ts := by
  apply List.filter_eq_self.mpr
  intro t ht
  simpa using not_isParenthesis_of_operator (h t ht)

theorem operands_of_operators {ts : List Token} (h : ∀ t ∈ ts, t.kind = .operator) :
    operands ts = [] := by
  apply List.filter_eq_nil_iff.mpr
  intro t ht
  simpa using not_isOperand_of_operator (h t ht)

/-- What one token does to the stack of the first pass: which tokens it puts out, and which stack it
leaves behind. -/
inductive Moves (stack : List Token) (t : Token) : List Token → List Token → Prop where
  | operator {popped kept : List Token} : t.kind = .operator → stack = popped ++ kept →
    (∀ x ∈ popped, yieldsTo (t.precedence?.getD 0) x = true) →
    (∀ x ∈ kept.head?, yieldsTo (t.precedence?.getD 0) x = false) →
    Moves stack t popped (t :: kept)
  | leftParen : t.kind = .leftParen → Moves stack t [] (t :: stack)
  | rightParen {popped kept : List Token} {left : Token} : t.kind = .rightParen →
    stack = popped ++ left :: kept → (∀ x ∈ popped, x.kind ≠ .leftParen) →
    left.kind = .leftParen → Moves stack t popped kept
  | operand : t.IsOperand → Moves stack t [t] stack

theorem Moves.arrange {stack emitted stack' : List Token} {t : Token}
    (h : Moves stack t emitted stack') (ts : List Token) :
    Token.arrange stack (t :: ts) = (Token.arrange stack' ts).map (emitted ++ ·) := by
  cases h with
  | operator ht hsplit hpopped hkept =>
    subst hsplit
    rw [arrange_operator _ _ _ ht, span_append hpopped hkept]
  | leftParen ht =>
    rw [arrange_leftParen _ _ _ ht]
    cases Token.arrange (t :: stack) ts <;> rfl
  | @rightParen popped kept left ht hsplit hpopped hleft =>
    subst hsplit
    have hspan : (emitted ++ left :: stack').span (·.kind ≠ .leftParen) =
        (emitted, left :: stack') := by
      apply span_append
      · simpa using hpopped
      · simpa using hleft
    rw [Token.arrange, ht]
    dsimp only
    rw [hspan]
    rfl
  | operand ht => exact arrange_operand _ _ _ ht

/-- A token moves the stack on, unless it closes what is not open. -/
theorem moves_or_stuck (stack : List Token) (t : Token) :
    (∃ emitted stack', Moves stack t emitted stack') ∨
      (t.kind = .rightParen ∧ ∀ x ∈ stack, x.kind ≠ .leftParen) := by
  rcases t.kind_cases with ht | ht | ht | ht
  · obtain ⟨popped, kept, -, hsplit, hpopped, hkept⟩ :=
      span_split (yieldsTo (t.precedence?.getD 0)) stack
    exact .inl ⟨popped, _, .operator ht hsplit hpopped hkept⟩
  · exact .inl ⟨[], _, .leftParen ht⟩
  · obtain ⟨popped, below, -, hsplit, hpopped, hbelow⟩ :=
      span_split (fun x : Token => decide (x.kind ≠ .leftParen)) stack
    cases below with
    | nil =>
      rw [List.append_nil] at hsplit
      subst hsplit
      exact .inr ⟨ht, by simpa using hpopped⟩
    | cons left kept =>
      have hleft : left.kind = .leftParen := by simpa using hbelow left rfl
      exact .inl ⟨popped, kept, .rightParen ht hsplit (by simpa using hpopped) hleft⟩
  · exact .inl ⟨[t], stack, .operand ht⟩

theorem arrange_stuck {stack : List Token} {t : Token} (ht : t.kind = .rightParen)
    (hstack : ∀ x ∈ stack, x.kind ≠ .leftParen) (ts : List Token) :
    arrange stack (t :: ts) = .error .unbalancedParenthesis := by
  have hspan : (stack ++ []).span (fun x => decide (x.kind ≠ TokenKind.leftParen)) =
      (stack, []) := by
    apply span_append
    · simpa using hstack
    · simp
  rw [List.append_nil] at hspan
  rw [arrange, ht]
  dsimp only
  rw [hspan]

theorem arrange_cons {stack ts out : List Token} {t : Token} (h : arrange stack (t :: ts) = .ok out) :
    ∃ emitted stack' rest, Moves stack t emitted stack' ∧ arrange stack' ts = .ok rest ∧
      out = emitted ++ rest := by
  rcases moves_or_stuck stack t with ⟨emitted, stack', hmove⟩ | ⟨ht, hstack⟩
  · rw [hmove.arrange] at h
    obtain ⟨rest, hrest, rfl⟩ := Except.map_eq_ok h
    exact ⟨emitted, stack', rest, hmove, hrest, rfl⟩
  · rw [arrange_stuck ht hstack] at h
    cases h

theorem arrange_nil {stack out : List Token} (h : arrange stack [] = .ok out) :
    out = stack ∧ ∀ t ∈ stack, t.kind ≠ .leftParen := by
  unfold arrange at h
  split at h
  · cases h
  · next hany =>
    refine ⟨(Except.ok.inj h).symm, ?_⟩
    intro t ht hkind
    exact hany (List.any_eq_true.mpr ⟨t, ht, by simpa using hkind⟩)

theorem arrange_nil_ok {stack : List Token} (h : ∀ t ∈ stack, t.kind ≠ .leftParen) :
    arrange stack [] = .ok stack := by
  have hany : stack.any (·.kind = .leftParen) = false := by
    rw [List.any_eq_false]
    simpa using h
  rw [arrange, hany]
  rfl

theorem yieldsTo_operator {p : Nat} {t : Token} (h : yieldsTo p t = true) : t.kind = .operator := by
  unfold yieldsTo at h
  split at h
  · next q hq => exact kind_of_precedence? hq
  · cases h

/-- The stack of the first pass only ever holds operators and left parentheses. -/
def IsStack (stack : List Token) : Prop := ∀ t ∈ stack, t.kind = .operator ∨ t.kind = .leftParen

namespace Moves
variable {stack emitted stack' : List Token} {t : Token}

theorem isStack (h : Moves stack t emitted stack') (hstack : IsStack stack) : IsStack stack' := by
  cases h with
  | operator ht hsplit =>
    subst hsplit
    intro x hx
    rcases List.mem_cons.mp hx with rfl | hx
    · exact .inl ht
    · exact hstack x (List.mem_append_right _ hx)
  | leftParen ht =>
    intro x hx
    rcases List.mem_cons.mp hx with rfl | hx
    · exact .inr ht
    · exact hstack x hx
  | rightParen ht hsplit =>
    subst hsplit
    exact fun x hx => hstack x (List.mem_append_right _ (List.mem_cons_of_mem _ hx))
  | operand => exact hstack

theorem emitted_kind (h : Moves stack t emitted stack') (hstack : IsStack stack) :
    (∀ x ∈ emitted, x.kind = .operator) ∨ (t.IsOperand ∧ emitted = [t] ∧ stack' = stack) := by
  cases h with
  | operator _ _ hpopped => exact .inl fun x hx => yieldsTo_operator (hpopped x hx)
  | leftParen => exact .inl fun x hx => absurd hx List.not_mem_nil
  | rightParen _ hsplit hpopped =>
    subst hsplit
    exact .inl fun x hx =>
      (hstack x (List.mem_append_left _ hx)).resolve_right (hpopped x hx)
  | operand ht => exact .inr ⟨ht, rfl, rfl⟩

/-- A token is put out or goes to the stack, unless it is a parenthesis. -/
theorem perm (h : Moves stack t emitted stack') (hstack : IsStack stack) (ts : List Token) :
    (emitted ++ (unparenthesized stack' ++ unparenthesized ts)).Perm
      (unparenthesized stack ++ unparenthesized (t :: ts)) := by
  have hkind := h.emitted_kind hstack
  cases h with
  | @operator popped kept ht hsplit hpopped =>
    have hout : unparenthesized emitted = emitted :=
      unparenthesized_of_operators fun x hx => yieldsTo_operator (hpopped x hx)
    have ht' := not_isParenthesis_of_operator ht
    rw [hsplit, unparenthesized_append, hout, unparenthesized_cons, unparenthesized_cons, if_neg ht',
      if_neg ht', List.append_assoc, List.cons_append]
    exact List.Perm.append_left emitted List.perm_middle.symm
  | leftParen ht =>
    have ht' : t.IsParenthesis := .inl ht
    rw [unparenthesized_cons, unparenthesized_cons, if_pos ht', if_pos ht', List.nil_append]
  | @rightParen popped kept left ht hsplit hpopped hleft =>
    have hout : unparenthesized emitted = emitted := by
      apply unparenthesized_of_operators
      rcases hkind with hkind | ⟨hop, -, -⟩
      · exact hkind
      · exact absurd (.inr ht) hop.not_isParenthesis
    have ht' : t.IsParenthesis := .inr ht
    have hleft' : left.IsParenthesis := .inl hleft
    rw [hsplit, unparenthesized_append, hout, unparenthesized_cons, unparenthesized_cons, if_pos ht',
      if_pos hleft', List.append_assoc]
  | operand ht =>
    rw [unparenthesized_cons, if_neg ht.not_isParenthesis, List.singleton_append]
    exact List.perm_middle.symm

/-- Operands are put out at once. -/
theorem operands_eq (h : Moves stack t emitted stack') (hstack : IsStack stack) (ts : List Token) :
    operands emitted ++ operands ts = operands (t :: ts) := by
  rcases h.emitted_kind hstack with hkind | ⟨ht, rfl, -⟩
  · have ht : ¬ t.IsOperand := by
      cases h with
      | operator ht => exact not_isOperand_of_operator ht
      | leftParen ht => exact fun hop => hop.not_isParenthesis (.inl ht)
      | rightParen ht => exact fun hop => hop.not_isParenthesis (.inr ht)
      | operand ht => exact absurd ht (not_isOperand_of_operator (hkind t List.mem_cons_self))
    rw [operands_of_operators hkind, operands_cons, if_neg ht, List.nil_append]
  · rw [← operands_append, List.singleton_append]

end Moves

/-- The first pass puts out all tokens but the parentheses, operands in their order. -/
theorem arrange_keeps {ts stack out : List Token} (hstack : IsStack stack)
    (h : arrange stack ts = .ok out) :
    out.Perm (unparenthesized stack ++ unparenthesized ts) ∧ operands out = operands ts := by
  induction ts generalizing stack out with
  | nil =>
    obtain ⟨rfl, hleft⟩ := arrange_nil h
    have hops : ∀ t ∈ out, t.kind = .operator := fun t ht => (hstack t ht).resolve_right (hleft t ht)
    rw [unparenthesized_of_operators hops, operands_of_operators hops]
    exact ⟨by simp [unparenthesized], rfl⟩
  | cons t ts ih =>
    obtain ⟨emitted, stack', rest, hmove, hrest, rfl⟩ := arrange_cons h
    obtain ⟨hperm, hoperands⟩ := ih (hmove.isStack hstack) hrest
    constructor
    · exact (hperm.append_left emitted).trans (hmove.perm hstack ts)
    · rw [operands_append, hoperands, hmove.operands_eq hstack]

theorem toPostfix_keeps {ts out : List Token} (h : toPostfix ts = .ok out) :
    out.Perm (unparenthesized ts) ∧ operands out = operands ts :=
  arrange_keeps (fun _ ht => absurd ht List.not_mem_nil) h

end Token

namespace Expression

def leaves : Expression → List String
  | leaf text => [text]
  | negation e => e.leaves
  | comparison _ l r => l.leaves ++ r.leaves
  | connective _ l r => l.leaves ++ r.leaves

/-- The texts of a tree from left to right, as in a condition without parentheses. -/
def infixTexts : Expression → List String
  | leaf text => [text]
  | negation e => negationKeyword :: e.infixTexts
  | comparison op l r => l.infixTexts ++ op.symbol :: r.infixTexts
  | connective op l r => l.infixTexts ++ op.keyword :: r.infixTexts

theorem symbol_of_ofSymbol? {text : String} {op : Comparison}
    (h : Comparison.ofSymbol? text = some op) : op.symbol = text := by
  unfold Comparison.ofSymbol? at h
  split at h <;> simp at h <;> subst h <;> rfl

theorem keyword_of_ofKeyword? {text : String} {op : Connective}
    (h : Connective.ofKeyword? text = some op) : op.keyword = text := by
  unfold Connective.ofKeyword? at h
  split at h <;> simp at h <;> subst h <;> rfl

theorem role_of_kind {t : Token} (h : t.kind ≠ .operator) : role t = .operand := if_neg h

theorem kind_of_role {t : Token} (h : role t ≠ .operand) : t.kind = .operator := by
  by_contra hkind
  exact h (role_of_kind hkind)

/-- What the role of a token says about its text. -/
def Role.Spells (text : String) : Role → Prop
  | .operand => True
  | .negation => text = negationKeyword
  | .comparison op => text = op.symbol
  | .connective op => text = op.keyword

theorem role_spells (t : Token) : (role t).Spells t.text := by
  unfold role
  split
  · split
    · next h => exact h
    · split
      · next h => exact (symbol_of_ofSymbol? h).symm
      · next h => exact (keyword_of_ofKeyword? h).symm
      · exact trivial
  · exact trivial

/-- What one token does to the stack of the second pass. -/
inductive Grows (t : Token) : List Expression → List Expression → Prop where
  | operand {stack : List Expression} : role t = .operand → Grows t stack (.leaf t.text :: stack)
  | negation {e : Expression} {stack : List Expression} : role t = .negation →
    Grows t (e :: stack) (.negation e :: stack)
  | comparison {op : Comparison} {l r : Expression} {stack : List Expression} :
    role t = .comparison op → Grows t (r :: l :: stack) (.comparison op l r :: stack)
  | connective {op : Connective} {l r : Expression} {stack : List Expression} :
    role t = .connective op → Grows t (r :: l :: stack) (.connective op l r :: stack)

theorem grows_of_push {t : Token} {stack stack' : List Expression}
    (h : push stack t = .ok stack') : Grows t stack stack' := by
  unfold push at h
  split at h
  · next hrole =>
    obtain rfl := Except.ok.inj h
    exact .operand hrole
  · next hrole =>
    obtain rfl := Except.ok.inj h
    exact .negation hrole
  · next hrole =>
    obtain rfl := Except.ok.inj h
    exact .comparison hrole
  · next hrole =>
    obtain rfl := Except.ok.inj h
    exact .connective hrole
  · cases h

theorem Grows.push {t : Token} {stack stack' : List Expression} (h : Grows t stack stack') :
    push stack t = .ok stack' := by
  cases h with
  | operand hrole | negation hrole | comparison hrole | connective hrole =>
    simp only [Expression.push, hrole]

theorem assemble_cons {t : Token} {ts : List Token} {stack : List Expression} {e : Expression}
    (h : assemble stack (t :: ts) = .ok e) :
    ∃ stack', Grows t stack stack' ∧ assemble stack' ts = .ok e := by
  unfold assemble at h
  cases hpush : push stack t with
  | error e =>
    rw [hpush] at h
    cases h
  | ok stack' =>
    rw [hpush] at h
    exact ⟨stack', grows_of_push hpush, h⟩

theorem assemble_nil {stack : List Expression} {e : Expression} (h : assemble stack [] = .ok e) :
    stack = [e] := by
  unfold assemble at h
  split at h
  · rw [Except.ok.inj h]
  · cases h

theorem infix_perm (text : String) (left right below : List String) :
    (left ++ text :: right ++ below).Perm (text :: (right ++ (left ++ below))) := by
  have hswap := (@List.perm_append_comm _ left (text :: right)).append_right below
  simpa only [List.append_assoc, List.cons_append] using hswap

namespace Grows
variable {t : Token} {stack stack' : List Expression}

theorem leaves_eq (h : Grows t stack stack') (ht : role t = .operand ↔ t.IsOperand) :
    stack'.reverse.flatMap leaves =
      stack.reverse.flatMap leaves ++ (Token.operands [t]).map (·.text) := by
  have hleaf : Token.operands [t] = if role t = .operand then [t] else [] := by
    simp only [Token.operands_cons, ht]
    rfl
  rw [hleaf]
  cases h with
  | operand hrole | negation hrole | comparison hrole | connective hrole => simp [hrole, leaves]

theorem texts_perm (h : Grows t stack stack') :
    (stack'.flatMap infixTexts).Perm (t.text :: stack.flatMap infixTexts) := by
  have hspells := role_spells t
  cases h with
  | operand hrole => exact List.Perm.refl _
  | negation hrole =>
    rw [hrole] at hspells
    simp only [List.flatMap_cons, infixTexts, hspells.symm, List.cons_append, List.Perm.refl]
  | comparison hrole | connective hrole =>
    rw [hrole] at hspells
    simp only [List.flatMap_cons, infixTexts, hspells.symm]
    exact infix_perm ..

end Grows

/-- The second pass uses each token once, those of leaves in their order. -/
theorem assemble_keeps {ts : List Token} {stack : List Expression} {e : Expression}
    (hts : ∀ t ∈ ts, role t = .operand ↔ t.IsOperand) (h : assemble stack ts = .ok e) :
    e.leaves = stack.reverse.flatMap leaves ++ (Token.operands ts).map (·.text) ∧
      e.infixTexts.Perm (stack.flatMap infixTexts ++ ts.map (·.text)) := by
  induction ts generalizing stack with
  | nil =>
    rw [assemble_nil h]
    simp [Token.operands]
  | cons t ts ih =>
    obtain ⟨stack', hgrows, hrest⟩ := assemble_cons h
    obtain ⟨hleaves, htexts⟩ := ih (fun x hx => hts x (List.mem_cons_of_mem t hx)) hrest
    constructor
    · rw [hleaves, hgrows.leaves_eq (hts t List.mem_cons_self), List.append_assoc, ← List.map_append,
        ← Token.operands_append, List.singleton_append]
    · have hmove := hgrows.texts_perm.append_right (ts.map (·.text))
      refine htexts.trans (hmove.trans ?_)
      rw [List.map_cons]
      exact List.perm_middle.symm

theorem parse_ok {text : String} {e : Expression} (h : parse text = .ok e) :
    ∃ ts out, Token.ofText text = .ok ts ∧ Token.toPostfix ts = .ok out ∧ ofPostfix out = .ok e := by
  unfold parse at h
  cases hts : Token.ofText text with
  | error err => rw [hts] at h; cases h
  | ok ts =>
    rw [hts] at h
    change (Token.toPostfix ts >>= ofPostfix) = .ok e at h
    cases hout : Token.toPostfix ts with
    | error err => rw [hout] at h; cases h
    | ok out =>
      rw [hout] at h
      exact ⟨ts, out, rfl, hout, h⟩

end Expression

end Workflow

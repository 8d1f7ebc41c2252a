import Workflow.Proofs.Condition.Postfix

/-!
# Tokens above a stack

Either pass works on the top of its stack, and what it does with some tokens does not depend on what
is below. The first pass stops at a token without a precedence, so a list in parentheses is put in
order as it is alone, and nothing of it is left on the stack behind the right parenthesis. The second
pass builds the tree of some tokens on top of all operands that are there before.
-/

set_option autoImplicit false

namespace Workflow

theorem Except.map_append_map {ε α : Type} (xs ys : List α) (r : Except ε (List α)) :
    (r.map (ys ++ ·)).map (xs ++ ·) = r.map (xs ++ ys ++ ·) := by
  cases r <;> simp [Except.map]

theorem Except.map_nil_append {ε α : Type} (r : Except ε (List α)) : r.map ([] ++ ·) = r := by
  cases r <;> rfl

namespace Token
variable {stack emitted stack' ts out : List Token} {t left right : Token}

theorem Moves.above (h : Moves stack t emitted stack') {below : List Token}
    (hbelow : ∀ x ∈ below.head?, x.precedence? = none) :
    Moves (stack ++ below) t emitted (stack' ++ below) := by
  cases h with
  | @operator popped kept ht hsplit hpopped hkept =>
    subst hsplit
    refine .operator ht (List.append_assoc ..) hpopped ?_
    intro x hx
    cases kept with
    | nil => simp [yieldsTo, hbelow x hx]
    | cons y kept => exact hkept x hx
  | leftParen ht => exact .leftParen ht
  | rightParen ht hsplit hpopped hleft =>
    subst hsplit
    exact .rightParen ht (List.append_assoc ..) hpopped hleft
  | operand ht => exact .operand ht

theorem precedence?_leftParen (h : left.kind = .leftParen) : left.precedence? = none := by
  simp [precedence?, h]

/-- What is open below is closed by the right parenthesis behind the tokens. -/
theorem arrange_within (hleft : left.kind = .leftParen) (hright : right.kind = .rightParen)
    (h : arrange stack ts = .ok out) (below rest : List Token) :
    arrange (stack ++ left :: below) (ts ++ right :: rest) = (arrange below rest).map (out ++ ·) := by
  induction ts generalizing stack out with
  | nil =>
    obtain ⟨rfl, hstack⟩ := arrange_nil h
    exact (Moves.rightParen hright rfl hstack hleft).arrange rest
  | cons t ts ih =>
    obtain ⟨emitted, stack', out', hmove, hout', rfl⟩ := arrange_cons h
    have hbelow : ∀ x ∈ (left :: below).head?, x.precedence? = none := by
      simpa using precedence?_leftParen hleft
    rw [List.cons_append, (hmove.above hbelow).arrange, ih hout', Except.map_append_map]

/-- A list in parentheses is put in order as it is alone. -/
theorem arrange_group (hleft : left.kind = .leftParen) (hright : right.kind = .rightParen)
    (h : toPostfix ts = .ok out) (stack rest : List Token) :
    arrange stack (left :: ts ++ right :: rest) = (arrange stack rest).map (out ++ ·) := by
  rw [List.cons_append, arrange_leftParen _ _ _ hleft]
  exact arrange_within hleft hright h stack rest

end Token

namespace Expression
variable {stack stack' : List Expression} {t : Token} {ts : List Token} {e : Expression}

theorem Grows.above (h : Grows t stack stack') (below : List Expression) :
    Grows t (stack ++ below) (stack' ++ below) := by
  cases h with
  | operand hrole => exact .operand hrole
  | negation hrole => exact .negation hrole
  | comparison hrole => exact .comparison hrole
  | connective hrole => exact .connective hrole

/-- Tokens that are built into a tree are built into it on top of any operands. -/
theorem assemble_above (h : assemble stack ts = .ok e) (below : List Expression)
    (rest : List Token) : assemble (stack ++ below) (ts ++ rest) = assemble (e :: below) rest := by
  induction ts generalizing stack with
  | nil =>
    rw [assemble_nil h]
    rfl
  | cons t ts ih =>
    obtain ⟨stack', hgrows, hrest⟩ := assemble_cons h
    rw [List.cons_append, assemble_push (hgrows.above below).push, ih hrest]

def ofTokens (ts : List Token) : Except ConditionError Expression := do
  ofPostfix (← Token.toPostfix ts)

theorem ofTokens_of_toPostfix {out : List Token} (h : Token.toPostfix ts = .ok out) :
    ofTokens ts = ofPostfix out := by
  rw [ofTokens, h]
  rfl

end Expression

end Workflow

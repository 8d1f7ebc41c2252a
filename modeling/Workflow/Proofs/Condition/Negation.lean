import Workflow.Proofs.Condition.Balance
import Workflow.Proofs.Condition.Group

/-!
# Negations in a row

A negation stands for the negation of the comparison behind it, at the beginning of a condition and
behind a connective. A negation that stands behind another one takes that one off the stack before
its operand is there. So a condition that begins with two negations is refused, and behind a
connective all negations but the last go to the operand in front of the connective.
-/

set_option autoImplicit false

namespace Workflow

namespace Token

/-- An operand, or a list in parentheses. All that matters of the list here is that the parentheses in
it match. -/
inductive IsTerm : List Token → Prop where
  | operand {t : Token} : t.IsOperand → IsTerm [t]
  | group {left right : Token} {ts : List Token} : left.kind = .leftParen →
    right.kind = .rightParen → ¬ IsUnbalanced ts → IsTerm (left :: ts ++ [right])

/-- Terms that are joined by comparisons. -/
inductive IsComparisonPhrase : List Token → Prop where
  | term {ts : List Token} : IsTerm ts → IsComparisonPhrase ts
  | compare (op : Comparison) {l r : List Token} : IsComparisonPhrase l → IsTerm r →
    IsComparisonPhrase (l ++ ofComparison op :: r)

/-- A comparison phrase behind any number of negations. -/
inductive IsNegationPhrase : List Token → Prop where
  | comparison {ts : List Token} : IsComparisonPhrase ts → IsNegationPhrase ts
  | negation {ts : List Token} : IsNegationPhrase ts → IsNegationPhrase (ofNegation :: ts)

section Arrange
variable {ts stack : List Token}

theorem arrange_push {t : Token} {p : Nat} (ht : t.precedence? = some p)
    (hstack : LooserThan p stack) (rest : List Token) :
    arrange stack (t :: rest) = arrange (t :: stack) rest :=
  (arrange_pending ht (allFrom_nil p) hstack rest).trans (Except.map_nil_append _)

theorem IsTerm.arranged (h : IsTerm ts) : ∃ out, ∀ stack rest,
    arrange stack (ts ++ rest) = (arrange stack rest).map (out ++ ·) := by
  cases h with
  | @operand t ht => exact ⟨[t], fun stack rest => arrange_operand stack t rest ht⟩
  | @group left right ts hleft hright hbalanced =>
    obtain ⟨out, hout, -⟩ := (toPostfix_outcome ts).2 hbalanced
    refine ⟨out, fun stack rest => ?_⟩
    rw [List.append_assoc]
    exact arrange_group hleft hright hout stack rest

theorem IsComparisonPhrase.arranged (h : IsComparisonPhrase ts) :
    ∃ out pending, AllFrom 4 pending ∧ ∀ stack, LooserThan 4 stack → ∀ rest,
      arrange stack (ts ++ rest) = (arrange (pending ++ stack) rest).map (out ++ ·) := by
  induction h with
  | term h =>
    obtain ⟨out, hout⟩ := h.arranged
    exact ⟨out, [], allFrom_nil 4, fun stack _ rest => hout stack rest⟩
  | @compare op l r _ hr ih =>
    obtain ⟨out, pending, hpending, hl⟩ := ih
    obtain ⟨out', hr⟩ := hr.arranged
    have hop := precedence?_ofComparison op
    -- the comparison takes out the one before it, and is the only one left on the stack
    refine ⟨out ++ pending ++ out', [ofComparison op],
      (allFrom_nil 4).concat hop (Nat.le_refl 4), ?_⟩
    intro stack hstack rest
    rw [List.append_assoc, List.cons_append, hl stack hstack, arrange_pending hop hpending hstack,
      hr, Except.map_append_map, Except.map_append_map, List.append_assoc]
    rfl

/-- A comparison phrase at the end is put in order above everything that binds less tightly. -/
theorem IsComparisonPhrase.arranged_last (h : IsComparisonPhrase ts) :
    ∃ out, toPostfix ts = .ok out ∧ ∀ stack, LooserThan 4 stack →
      (∀ x ∈ stack, x.kind ≠ .leftParen) → arrange stack ts = .ok (out ++ stack) := by
  obtain ⟨out, pending, hpending, harrange⟩ := h.arranged
  have hend : ∀ stack, LooserThan 4 stack → (∀ x ∈ stack, x.kind ≠ .leftParen) →
      arrange stack ts = .ok (out ++ pending ++ stack) := by
    intro stack hstack hopen
    have hall : ∀ x ∈ pending ++ stack, x.kind ≠ .leftParen := by
      intro x hx
      rcases List.mem_append.mp hx with hx | hx
      · obtain ⟨p, hp, -⟩ := hpending x hx
        simp [kind_of_precedence? hp]
      · exact hopen x hx
    have hrun := harrange stack hstack []
    rw [List.append_nil, arrange_nil_ok hall] at hrun
    rw [hrun, List.append_assoc]
    rfl
  refine ⟨out ++ pending, ?_, hend⟩
  have halone := hend [] (looserThan_nil 4) (by simp)
  rwa [List.append_nil] at halone

/-- Behind a negation on the stack, each negation takes out the one before it. -/
theorem arrange_negations (hstack : LooserThan 3 stack) (n : Nat) (rest : List Token) :
    arrange (ofNegation :: stack) (List.replicate n ofNegation ++ rest) =
      (arrange (ofNegation :: stack) rest).map (List.replicate n ofNegation ++ ·) := by
  have hall : AllFrom 3 [ofNegation] := (allFrom_nil 3).concat rfl (Nat.le_refl 3)
  induction n with
  | zero => exact (Except.map_nil_append _).symm
  | succ n ih =>
    have hfirst : arrange (ofNegation :: stack) (ofNegation :: _) = _ :=
      arrange_pending rfl hall hstack (List.replicate n ofNegation ++ rest)
    rw [List.replicate_succ, List.cons_append, hfirst, ih, Except.map_append_map]
    rfl

/-- Negations and a comparison phrase at the end: all but the last negation are put out at once. -/
theorem IsComparisonPhrase.negated_last (h : IsComparisonPhrase ts) :
    ∃ out, toPostfix ts = .ok out ∧ ∀ n stack, LooserThan 3 stack →
      (∀ x ∈ stack, x.kind ≠ .leftParen) →
      arrange stack (List.replicate (n + 1) ofNegation ++ ts) =
        .ok (List.replicate n ofNegation ++ (out ++ ofNegation :: stack)) := by
  obtain ⟨out, hout, hlast⟩ := h.arranged_last
  refine ⟨out, hout, ?_⟩
  intro n stack hstack hopen
  have htop : LooserThan 4 (ofNegation :: stack) := looserThan_cons (p := 3) rfl (by decide) stack
  have hopen' : ∀ x ∈ ofNegation :: stack, x.kind ≠ .leftParen :=
    List.forall_mem_cons.mpr ⟨by decide, hopen⟩
  rw [List.replicate_succ, List.cons_append, arrange_push rfl hstack, arrange_negations hstack,
    hlast _ htop hopen']
  rfl

/-- An operand is put out, and the connective behind it waits on the stack. -/
theorem arrange_connected {x : Token} (hx : x.IsOperand) (op : Connective) (rest : List Token) :
    arrange [] (x :: ofConnective op :: rest) = (arrange [ofConnective op] rest).map ([x] ++ ·) := by
  obtain ⟨p, hp⟩ : ∃ p, (ofConnective op).precedence? = some p := by cases op <;> exact ⟨_, rfl⟩
  rw [arrange_operand _ _ _ hx, arrange_push hp (looserThan_nil p)]
  rfl

theorem looserThan_ofConnective (op : Connective) : LooserThan 3 [ofConnective op] := by
  cases op with
  | and => exact looserThan_cons (p := 2) rfl (by decide) []
  | or => exact looserThan_cons (p := 1) rfl (by decide) []

end Arrange

theorem IsNegationPhrase.split {ts : List Token} (h : IsNegationPhrase ts) :
    ∃ n p, IsComparisonPhrase p ∧ ts = List.replicate n ofNegation ++ p := by
  induction h with
  | comparison hp => exact ⟨0, _, hp, rfl⟩
  | negation _ ih =>
    obtain ⟨n, p, hp, rfl⟩ := ih
    exact ⟨n + 1, p, hp, rfl⟩

end Token

namespace Expression
open Token

theorem assemble_negations (n : Nat) (e : Expression) (operands : List Expression)
    (rest : List Token) : assemble (e :: operands) (List.replicate n ofNegation ++ rest) =
      assemble (negation^[n] e :: operands) rest := by
  induction n generalizing e with
  | zero => rfl
  | succ n ih => exact ih (.negation e)

/-- If tokens and a negation behind them are built into a tree, this is the negation of the tree that
the tokens are built into. -/
theorem assemble_negation_last {stack : List Expression} {ts : List Token} {e : Expression}
    (h : assemble stack (ts ++ [ofNegation]) = .ok e) :
    ∃ t, assemble stack ts = .ok t ∧ e = .negation t := by
  induction ts generalizing stack with
  | nil =>
    obtain ⟨stack', hgrows, hend⟩ := assemble_cons h
    obtain rfl := assemble_nil hend
    cases hgrows with
    | @negation t _ _ => exact ⟨t, rfl, rfl⟩
    | operand hrole | comparison hrole | connective hrole => cases hrole
  | cons t ts ih =>
    obtain ⟨stack', hgrows, hrest⟩ := assemble_cons h
    rw [assemble_push hgrows.push]
    exact ih hrest

section Phrase
variable {p q : List Token} {s t : Expression}

theorem ofTokens_negation_iff (hp : IsComparisonPhrase p) :
    ofTokens (ofNegation :: p) = .ok s ↔ ∃ t, ofTokens p = .ok t ∧ s = .negation t := by
  obtain ⟨out, hout, hlast⟩ := hp.negated_last
  have hone : toPostfix (ofNegation :: p) = .ok (out ++ [ofNegation]) :=
    hlast 0 [] (looserThan_nil 3) (by simp)
  rw [ofTokens_of_toPostfix hone, ofTokens_of_toPostfix hout]
  constructor
  · exact assemble_negation_last
  · rintro ⟨t, ht, rfl⟩
    exact assemble_above ht [] [ofNegation]

/-- Of several negations at the beginning of a condition, the first one finds no operand. -/
theorem ofTokens_negations (hp : IsComparisonPhrase p) (n : Nat) :
    ofTokens (List.replicate (n + 2) ofNegation ++ p) =
      .error (.insufficientOperands negationKeyword) := by
  obtain ⟨out, -, hlast⟩ := hp.negated_last
  have hrow : toPostfix (List.replicate (n + 2) ofNegation ++ p) = _ :=
    hlast (n + 1) [] (looserThan_nil 3) (by simp)
  rw [ofTokens_of_toPostfix hrow]
  rfl

/-- Of several negations behind a connective, all but the last go to the operand before it. -/
theorem ofTokens_connected (hp : IsComparisonPhrase p) (ht : ofTokens p = .ok t) (n : Nat) {x : Token}
    (hx : x.IsOperand) (op : Connective) :
    ofTokens (x :: ofConnective op :: (List.replicate (n + 1) ofNegation ++ p)) =
      .ok (.connective op (negation^[n] (.leaf x.text)) (.negation t)) := by
  obtain ⟨out, hout, hlast⟩ := hp.negated_last
  rw [ofTokens_of_toPostfix hout] at ht
  have hpostfix : toPostfix (x :: ofConnective op :: (List.replicate (n + 1) ofNegation ++ p)) =
      .ok (x :: (List.replicate n ofNegation ++ (out ++ [ofNegation, ofConnective op]))) := by
    have hopen : ∀ y ∈ [ofConnective op], y.kind ≠ .leftParen := by cases op <;> decide
    rw [toPostfix, arrange_connected hx, hlast n _ (looserThan_ofConnective op) hopen]
    rfl
  have hrole : role x = .operand := role_of_kind fun hkind => not_isOperand_of_operator hkind hx
  have hpush : push [] x = .ok [.leaf x.text] := (Grows.operand hrole).push
  have hphrase : ∀ operands rest, assemble operands (out ++ rest) = assemble (t :: operands) rest :=
    assemble_above ht
  rw [ofTokens_of_toPostfix hpostfix, ofPostfix, assemble_push hpush, assemble_negations, hphrase]
  cases op <;> rfl

/-- A negation goes to the comparison phrase behind it. If another negation is behind it instead, it is
refused at the beginning, and behind an operand and a connective it goes to that operand. -/
theorem ofTokens_negation_phrase (hq : IsNegationPhrase q) (hs : ofTokens q = .ok s) :
    (IsComparisonPhrase q ∧ ofTokens (ofNegation :: q) = .ok (.negation s) ∧
      ∀ x op, x.IsOperand → ofTokens (x :: ofConnective op :: ofNegation :: q) =
        .ok (.connective op (.leaf x.text) (.negation s))) ∨
    ∃ p t, IsComparisonPhrase p ∧ q = ofNegation :: p ∧ s = .negation t ∧
      ofTokens (ofNegation :: q) = .error (.insufficientOperands negationKeyword) ∧
      ∀ x op, x.IsOperand → ofTokens (x :: ofConnective op :: ofNegation :: q) =
        .ok (.connective op (.negation (.leaf x.text)) (.negation t)) := by
  obtain ⟨n, p, hp, rfl⟩ := hq.split
  match n with
  | 0 =>
    refine .inl ⟨hp, (ofTokens_negation_iff hp).mpr ⟨s, hs, rfl⟩, ?_⟩
    intro x op hx
    exact ofTokens_connected hp hs 0 hx op
  | 1 =>
    obtain ⟨t, ht, rfl⟩ := (ofTokens_negation_iff hp).mp hs
    refine .inr ⟨p, t, hp, rfl, rfl, ofTokens_negations hp 0, ?_⟩
    intro x op hx
    exact ofTokens_connected hp ht 1 hx op
  | n + 2 =>
    rw [ofTokens_negations hp n] at hs
    cases hs

end Phrase

def groupComparison : List Token :=
  [⟨.identifier, "a"⟩, ofComparison .equal, leftParen, ⟨.identifier, "b"⟩, ofConnective .or,
    ⟨.identifier, "c"⟩, rightParen]

def groupComparisonTree : Expression :=
  .comparison .equal (.leaf "a") (.connective .or (.leaf "b") (.leaf "c"))

theorem groupComparison_phrase : IsNegationPhrase groupComparison := by
  have hbalanced : ¬ IsUnbalanced [⟨.identifier, "b"⟩, ofConnective .or, ⟨.identifier, "c"⟩] := by
    rw [isUnbalanced_iff, not_not]
    exact toPostfix_ok_iff.mp ⟨[⟨.identifier, "b"⟩, ⟨.identifier, "c"⟩, ofConnective .or], by decide⟩
  have hword : IsTerm [⟨.identifier, "a"⟩] := .operand (.inr (.inl rfl))
  have hgroup := @IsTerm.group leftParen rightParen _ rfl rfl hbalanced
  exact .comparison (.compare .equal (.term hword) hgroup)

theorem groupComparison_negated :
    IsNegationPhrase groupComparison ∧ ofTokens groupComparison = .ok groupComparisonTree ∧
      ofTokens (ofNegation :: groupComparison) = .ok (.negation groupComparisonTree) := by
  have htree : ofTokens groupComparison = .ok groupComparisonTree := by decide
  refine ⟨groupComparison_phrase, htree, ?_⟩
  rcases ofTokens_negation_phrase groupComparison_phrase htree with ⟨-, h, -⟩ | ⟨p, t, -, hq, -⟩
  · exact h
  · have hhead : (⟨.identifier, "a"⟩ : Token) = ofNegation := (List.cons.inj hq).1
    cases hhead

/-- Two negations in a row are no negation of a negation. -/
theorem twoNegations_misread :
    let x : Token := ⟨.identifier, "x"⟩
    let y : Token := ⟨.identifier, "y"⟩
    IsNegationPhrase [ofNegation, y] ∧ ofTokens [ofNegation, y] = .ok (.negation (.leaf "y")) ∧
      ofTokens [ofNegation, ofNegation, y] ≠ .ok (.negation (.negation (.leaf "y"))) ∧
      ofTokens [x, ofConnective .and, ofNegation, ofNegation, y] ≠
        .ok (.connective .and (.leaf "x") (.negation (.negation (.leaf "y")))) ∧
      parse "not not y" = .error (.insufficientOperands "not") ∧
      parse "x and not not y" =
        .ok (.connective .and (.negation (.leaf "x")) (.negation (.leaf "y"))) := by
  refine ⟨.negation (.comparison (.term (.operand (.inr (.inl rfl))))), ?_⟩
  decide

end Expression

end Workflow

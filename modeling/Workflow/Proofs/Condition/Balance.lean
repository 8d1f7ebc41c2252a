import Workflow.Proofs.Condition.Postfix

/-!
# Matching parentheses

No operator takes a left parenthesis off the stack of the first pass, so the stack holds one for each
that is open. It follows that this pass refuses exactly the tokens whose parentheses do not match,
whatever else these tokens are, and refuses them for nothing else. What it does not refuse it
reorders: all tokens but the parentheses are put out, the operands in their order.
-/

set_option autoImplicit false

namespace Workflow.Token

def opened (ts : List Token) : Nat := ts.countP (·.kind = .leftParen)

def closed (ts : List Token) : Nat := ts.countP (·.kind = .rightParen)

/-- Behind as many open parentheses as `depth`, no beginning of the tokens closes more than are open,
and all of them together leave none open. -/
structure Closes (depth : Nat) (ts : List Token) : Prop where
  bounded : ∀ us, us <+: ts → closed us ≤ depth + opened us
  total : closed ts = depth + opened ts

/-- A beginning of the tokens closes more parentheses than it opens, or all of them together open
more or fewer than they close. -/
def IsUnbalanced (ts : List Token) : Prop :=
  (∃ us, us <+: ts ∧ opened us < closed us) ∨ opened ts ≠ closed ts

theorem isUnbalanced_iff {ts : List Token} : IsUnbalanced ts ↔ ¬ Closes 0 ts := by
  constructor
  · rintro (⟨us, hprefix, hlt⟩ | hne) h
    · have hle := h.bounded us hprefix
      omega
    · have htotal := h.total
      omega
  · intro h
    by_contra hbalanced
    obtain ⟨hprefixes, htotal⟩ := not_or.mp hbalanced
    apply h
    constructor
    · intro us hprefix
      by_contra hlt
      exact hprefixes ⟨us, hprefix, by omega⟩
    · omega

section Count
variable {t : Token} {stack emitted stack' : List Token}

theorem opened_append (ts us : List Token) : opened (ts ++ us) = opened ts + opened us :=
  List.countP_append

theorem opened_cons (t : Token) (ts : List Token) : opened (t :: ts) = opened [t] + opened ts :=
  opened_append [t] ts

theorem closed_cons (t : Token) (ts : List Token) : closed (t :: ts) = closed [t] + closed ts :=
  @List.countP_append _ _ [t] ts

theorem opened_singleton (t : Token) : opened [t] = if t.kind = .leftParen then 1 else 0 := by
  simp [opened, List.countP_cons]

theorem closed_singleton (t : Token) : closed [t] = if t.kind = .rightParen then 1 else 0 := by
  simp [closed, List.countP_cons]

theorem opened_eq_zero_iff {ts : List Token} : opened ts = 0 ↔ ∀ t ∈ ts, t.kind ≠ .leftParen := by
  simp [opened, List.countP_eq_zero]

theorem closes_nil {depth : Nat} : Closes depth [] ↔ depth = 0 := by
  constructor
  · intro h
    have htotal := h.total
    simp only [closed, opened, List.countP_nil] at htotal
    omega
  · rintro rfl
    refine ⟨?_, rfl⟩
    intro us hprefix
    rw [List.prefix_nil.mp hprefix]
    exact Nat.le_refl _

/-- The first token closes no more than are open, and the others go on behind it. -/
theorem closes_cons {depth : Nat} {ts : List Token} : Closes depth (t :: ts) ↔
    closed [t] ≤ depth + opened [t] ∧ Closes (depth + opened [t] - closed [t]) ts := by
  constructor
  · intro h
    have hfirst := h.bounded [t] ⟨ts, rfl⟩
    refine ⟨hfirst, ⟨?_, ?_⟩⟩
    · intro us hprefix
      have hle := h.bounded (t :: us) (List.cons_prefix_cons.mpr ⟨rfl, hprefix⟩)
      rw [opened_cons, closed_cons] at hle
      omega
    · have htotal := h.total
      rw [opened_cons, closed_cons] at htotal
      omega
  · rintro ⟨hfirst, h⟩
    constructor
    · intro us hprefix
      rcases List.prefix_cons_iff.mp hprefix with rfl | ⟨vs, rfl, hrest⟩
      · exact Nat.zero_le _
      · have hle := h.bounded vs hrest
        rw [opened_cons, closed_cons]
        omega
    · have htotal := h.total
      rw [opened_cons, closed_cons]
      omega

/-- The stack keeps one left parenthesis for each that is open. -/
theorem Moves.opened_eq (h : Moves stack t emitted stack') :
    opened stack' + closed [t] = opened stack + opened [t] := by
  rw [opened_singleton, closed_singleton]
  cases h with
  | @operator popped kept ht hsplit hpopped =>
    have hnone : opened emitted = 0 := opened_eq_zero_iff.mpr fun x hx hleft => by
      have hkind := yieldsTo_operator (hpopped x hx)
      rw [hleft] at hkind
      cases hkind
    rw [hsplit, opened_append, opened_cons, opened_singleton, hnone]
    simp [ht]
  | leftParen ht =>
    rw [opened_cons, opened_singleton]
    simp [ht, Nat.add_comm]
  | @rightParen popped kept left ht hsplit hpopped hleft =>
    have hnone : opened emitted = 0 := opened_eq_zero_iff.mpr hpopped
    rw [hsplit, opened_append, opened_cons left, opened_singleton, hnone]
    simp [ht, hleft, Nat.add_comm]
  | operand ht =>
    rcases ht with ht | ht | ht <;> simp [ht]

/-- Behind a stack, tokens are put in order if they close what the stack holds open, and otherwise
they are refused. -/
theorem arrange_outcome (stack ts : List Token) :
    (Closes (opened stack) ts → ∃ out, arrange stack ts = .ok out) ∧
      (¬ Closes (opened stack) ts → arrange stack ts = .error .unbalancedParenthesis) := by
  induction ts generalizing stack with
  | nil =>
    rw [closes_nil, opened_eq_zero_iff]
    refine ⟨fun h => ⟨stack, arrange_nil_ok h⟩, ?_⟩
    intro h
    have hany : stack.any (·.kind = .leftParen) = true := by simpa using h
    rw [arrange, hany]
    rfl
  | cons t ts ih =>
    rcases moves_or_stuck stack t with ⟨emitted, stack', hmove⟩ | ⟨ht, hstack⟩
    · have hopened := hmove.opened_eq
      have hdepth : opened stack + opened [t] - closed [t] = opened stack' := by omega
      have hcloses : Closes (opened stack) (t :: ts) ↔ Closes (opened stack') ts := by
        rw [closes_cons, hdepth]
        exact and_iff_right (by omega)
      obtain ⟨hok, herror⟩ := ih stack'
      rw [hcloses, hmove.arrange]
      constructor
      · intro h
        obtain ⟨rest, hrest⟩ := hok h
        exact ⟨emitted ++ rest, by rw [hrest]; rfl⟩
      · intro h
        rw [herror h]
        rfl
    · have hstuck : ¬ Closes (opened stack) (t :: ts) := by
        rw [closes_cons, opened_eq_zero_iff.mpr hstack, opened_singleton, closed_singleton, ht]
        simp
      exact ⟨fun h => absurd h hstuck, fun _ => arrange_stuck ht hstack ts⟩

end Count

theorem toPostfix_ok_iff {ts : List Token} : (∃ out, toPostfix ts = .ok out) ↔ Closes 0 ts := by
  obtain ⟨hok, herror⟩ := arrange_outcome [] ts
  refine ⟨?_, hok⟩
  rintro ⟨out, hout⟩
  by_contra h
  have hrefused : toPostfix ts = .error .unbalancedParenthesis := herror h
  rw [hout] at hrefused
  cases hrefused

/-- The first pass refuses exactly the tokens whose parentheses do not match, and only reorders all
others. -/
theorem toPostfix_outcome (ts : List Token) :
    (toPostfix ts = .error .unbalancedParenthesis ↔ IsUnbalanced ts) ∧
      (¬ IsUnbalanced ts → ∃ out, toPostfix ts = .ok out ∧ out.Perm (unparenthesized ts) ∧
        operands out = operands ts) := by
  rw [isUnbalanced_iff]
  constructor
  · refine ⟨?_, (arrange_outcome [] ts).2⟩
    intro hrefused h
    obtain ⟨out, hout⟩ := toPostfix_ok_iff.mpr h
    rw [hout] at hrefused
    cases hrefused
  · intro h
    obtain ⟨out, hout⟩ := toPostfix_ok_iff.mpr (not_not.mp h)
    exact ⟨out, hout, toPostfix_keeps hout⟩

example : toPostfix [rightParen, ⟨.identifier, "a"⟩, leftParen] = .error .unbalancedParenthesis := by
  decide

example : toPostfix [⟨.identifier, "a"⟩, ofSymbol "xor", leftParen, ofSymbol "==", rightParen] =
    .ok [⟨.identifier, "a"⟩, ofSymbol "==", ofSymbol "xor"] := by
  decide

end Workflow.Token

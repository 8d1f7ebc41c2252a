import Workflow.Proofs.Condition.Postfix
import Workflow.Proofs.Condition.Token

/-!
# Trees and postfix order

The tokens of a tree in postfix order are built into that tree again. Of any tokens, whether they come
from a tree or not, the number of operands that each one takes says what becomes of them: either some
operator finds too few operands before it, and the first such operator is named, or a number of trees
is left, and they have the tokens in their order. Only a single tree is a condition.
-/

set_option autoImplicit false

namespace Workflow

namespace Token

/-- The number of operands that a token takes. What is none of the operators takes none. -/
def arity (t : Token) : Nat :=
  if t.kind = .operator ∧ t.text ∈ operatorTexts then if t.text = negationKeyword then 1 else 2
  else 0

/-- The number of trees that tokens leave behind a number of trees, or the first of the tokens that
finds fewer than it takes. -/
def depth (trees : Nat) : List Token → Except Token Nat
  | [] => .ok trees
  | t :: ts => if t.arity ≤ trees then depth (trees - t.arity + 1) ts else .error t

end Token

namespace Expression
open Token

/-- The tokens of a tree, each operator behind its operands. -/
def postorder : Expression → List Token
  | leaf text => [⟨.literal, text⟩]
  | negation e => e.postorder ++ [ofNegation]
  | comparison op l r => l.postorder ++ r.postorder ++ [ofComparison op]
  | connective op l r => l.postorder ++ r.postorder ++ [ofConnective op]

def postorderTexts (e : Expression) : List String := e.postorder.map (·.text)

theorem grows_ofComparison (op : Comparison) (l r : Expression) (stack : List Expression) :
    Grows (ofComparison op) (r :: l :: stack) (.comparison op l r :: stack) :=
  .comparison (by cases op <;> rfl)

theorem grows_ofConnective (op : Connective) (l r : Expression) (stack : List Expression) :
    Grows (ofConnective op) (r :: l :: stack) (.connective op l r :: stack) :=
  .connective (by cases op <;> rfl)

theorem assemble_postorder (e : Expression) (stack : List Expression) (rest : List Token) :
    assemble stack (e.postorder ++ rest) = assemble (e :: stack) rest := by
  induction e generalizing stack rest with
  | leaf text => rfl
  | negation e ih =>
    rw [postorder, List.append_assoc, ih]
    rfl
  | comparison op l r ihl ihr =>
    rw [postorder, List.append_assoc, List.append_assoc, ihl, ihr]
    exact assemble_push (grows_ofComparison op l r stack).push rest
  | connective op l r ihl ihr =>
    rw [postorder, List.append_assoc, List.append_assoc, ihl, ihr]
    exact assemble_push (grows_ofConnective op l r stack).push rest

def Role.arity : Role → Nat
  | .operand => 0
  | .negation => 1
  | .comparison _ => 2
  | .connective _ => 2

theorem mem_operatorTexts_of_role {t : Token} (h : role t ≠ .operand) : t.text ∈ operatorTexts := by
  have hspells := role_spells t
  cases hrole : role t with
  | operand => exact absurd hrole h
  | negation =>
    rw [hrole] at hspells
    rw [show t.text = negationKeyword from hspells]
    decide
  | comparison op =>
    rw [hrole] at hspells
    rw [show t.text = op.symbol from hspells]
    cases op <;> decide
  | connective op =>
    rw [hrole] at hspells
    rw [show t.text = op.keyword from hspells]
    cases op <;> decide

theorem arity_eq (t : Token) : t.arity = (role t).arity := by
  have hknown : ∀ text ∈ operatorTexts,
      (role ⟨.operator, text⟩).arity = if text = negationKeyword then 1 else 2 := by decide
  obtain ⟨kind, text⟩ := t
  unfold Token.arity
  split
  · next h =>
    obtain ⟨rfl, htext⟩ := h
    exact (hknown text htext).symm
  · next h =>
    have hrole : role ⟨kind, text⟩ = .operand := by
      by_contra hrole
      exact h ⟨kind_of_role hrole, mem_operatorTexts_of_role hrole⟩
    rw [hrole]
    rfl

/-- A token that finds as many operands as it takes is built into a tree with them. -/
theorem exists_grows {stack : List Expression} {t : Token} (h : t.arity ≤ stack.length) :
    ∃ stack', Grows t stack stack' := by
  rw [arity_eq] at h
  cases hrole : role t with
  | operand => exact ⟨_, .operand hrole⟩
  | negation =>
    match stack with
    | e :: stack => exact ⟨_, .negation hrole⟩
    | [] => simp [hrole, Role.arity] at h
  | comparison op =>
    match stack with
    | r :: l :: stack => exact ⟨_, .comparison hrole⟩
    | [] | [_] => simp [hrole, Role.arity] at h
  | connective op =>
    match stack with
    | r :: l :: stack => exact ⟨_, .connective hrole⟩
    | [] | [_] => simp [hrole, Role.arity] at h

theorem push_error {stack : List Expression} {t : Token} (h : stack.length < t.arity) :
    push stack t = .error (.insufficientOperands t.text) := by
  rw [arity_eq] at h
  cases hrole : role t with
  | operand => simp [hrole, Role.arity] at h
  | negation =>
    cases stack with
    | nil => simp only [push, hrole]
    | cons => simp [hrole, Role.arity] at h
  | comparison op | connective op =>
    rcases stack with _ | ⟨r, _ | ⟨l, stack⟩⟩
    · simp only [push, hrole]
    · simp only [push, hrole]
    · simp only [hrole, Role.arity, List.length_cons] at h
      omega

section Grows
variable {t : Token} {stack stack' : List Expression}

theorem Grows.length_eq (h : Grows t stack stack') :
    stack'.length = stack.length - t.arity + 1 := by
  rw [arity_eq]
  cases h with
  | operand hrole | negation hrole | comparison hrole | connective hrole => simp [hrole, Role.arity]

/-- A token comes behind the tokens of the trees on the stack. -/
theorem Grows.postorderTexts_eq (h : Grows t stack stack') :
    stack'.reverse.flatMap postorderTexts = stack.reverse.flatMap postorderTexts ++ [t.text] := by
  have hspells := role_spells t
  cases h with
  | operand hrole => simp [postorderTexts, postorder]
  | negation hrole | comparison hrole | connective hrole =>
    rw [hrole] at hspells
    simp [postorderTexts, postorder, ofNegation, ofComparison, ofConnective, ofSymbol, hspells.symm]

end Grows

theorem assemble_outcome (stack : List Expression) (ts : List Token) :
    match depth stack.length ts with
    | .error t => assemble stack ts = .error (.insufficientOperands t.text)
    | .ok n => ∃ es, es.length = n ∧ assemble stack ts = assemble es [] ∧
        es.reverse.flatMap postorderTexts =
          stack.reverse.flatMap postorderTexts ++ ts.map (·.text) := by
  induction ts generalizing stack with
  | nil => exact ⟨stack, rfl, rfl, by simp⟩
  | cons t ts ih =>
    rw [depth]
    by_cases harity : t.arity ≤ stack.length
    · obtain ⟨stack', hgrows⟩ := exists_grows harity
      have hrest := ih stack'
      rw [if_pos harity, assemble_push hgrows.push, ← hgrows.length_eq, List.map_cons]
      rw [hgrows.postorderTexts_eq] at hrest
      simpa using hrest
    · rw [if_neg harity, assemble, push_error (Nat.lt_of_not_le harity)]
      rfl

theorem assemble_malformed {stack : List Expression} (h : stack.length ≠ 1) :
    assemble stack [] = .error (.malformed stack.length) := by
  match stack with
  | [] => rfl
  | [e] => exact absurd rfl h
  | _ :: _ :: _ => rfl

/-- The tokens of a tree in postfix order are built into this tree. Any tokens are refused at the first
operator that finds too few operands, or else because they leave no tree or several, or else built into
a tree that has them in their order. -/
theorem ofPostfix_outcome :
    (∀ e : Expression, ofPostfix e.postorder = .ok e) ∧
      ∀ ts, match depth 0 ts with
        | .error t => ofPostfix ts = .error (.insufficientOperands t.text)
        | .ok 1 => ∃ e, ofPostfix ts = .ok e ∧ e.postorder.map (·.text) = ts.map (·.text)
        | .ok n => ofPostfix ts = .error (.malformed n) := by
  constructor
  · intro e
    have hrun := assemble_postorder e [] []
    rwa [List.append_nil] at hrun
  · intro ts
    have hrun := assemble_outcome [] ts
    rw [List.length_nil] at hrun
    cases hdepth : depth 0 ts with
    | error t =>
      rw [hdepth] at hrun
      exact hrun
    | ok n =>
      rw [hdepth] at hrun
      obtain ⟨es, rfl, hbuilt, htexts⟩ := hrun
      change assemble [] ts = assemble es [] at hbuilt
      split
      · next hone => cases hone
      · next hone =>
        obtain ⟨e, rfl⟩ := List.length_eq_one_iff.mp (Except.ok.inj hone)
        exact ⟨e, hbuilt, by simpa [postorderTexts] using htexts⟩
      · next n hne hn =>
        obtain rfl := Except.ok.inj hn
        exact hbuilt.trans (assemble_malformed hne)

example : ofPostfix [⟨.identifier, "a"⟩, ⟨.operator, "xor"⟩, ofSymbol "=="] =
    .ok (.comparison .equal (.leaf "a") (.leaf "xor")) := by
  decide

end Expression

end Workflow

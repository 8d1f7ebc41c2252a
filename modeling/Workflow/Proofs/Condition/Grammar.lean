import Mathlib.Data.List.TakeDrop
import Workflow.Condition.Postfix

/-!
# The grammar of conditions

Conditions have a grammar in which every kind of operator has a level of its own, disjunctions being
the loosest. What the grammar derives is put into postfix order and built into a tree without an
error, and that tree is the one of the derivation. It follows that the grammar is unambiguous. That
other token lists are refused is not claimed.
-/

set_option autoImplicit false

namespace Workflow

inductive Category where
  | disjunction
  | conjunction
  | negation
  | comparison
  | primary
  deriving DecidableEq, Repr

/-- The least precedence of the operators that a category has outside of parentheses. Primary ones
have none. -/
def Category.level : Category → Nat
  | disjunction => 1
  | conjunction => 2
  | negation => 3
  | comparison => 4
  | primary => 5

namespace Token

def ofConnective (op : Connective) : Token := ofSymbol op.keyword

def ofComparison (op : Comparison) : Token := ofSymbol op.symbol

def ofNegation : Token := ofSymbol negationKeyword

def IsOperand (t : Token) : Prop :=
  t.kind = .literal ∨ t.kind = .identifier ∨ t.kind = .string

end Token

/-- The tokens that a category derives, with the tree of the derivation. -/
inductive Derives : Category → List Token → Expression → Prop where
  | ofConjunction {ts : List Token} {e : Expression} :
    Derives .conjunction ts e → Derives .disjunction ts e
  | or {l r : List Token} {a b : Expression} :
    Derives .disjunction l a → Derives .conjunction r b →
    Derives .disjunction (l ++ Token.ofConnective .or :: r) (.connective .or a b)
  | ofNegation {ts : List Token} {e : Expression} :
    Derives .negation ts e → Derives .conjunction ts e
  | and {l r : List Token} {a b : Expression} :
    Derives .conjunction l a → Derives .negation r b →
    Derives .conjunction (l ++ Token.ofConnective .and :: r) (.connective .and a b)
  | ofComparison {ts : List Token} {e : Expression} :
    Derives .comparison ts e → Derives .negation ts e
  | not {ts : List Token} {e : Expression} :
    Derives .comparison ts e → Derives .negation (Token.ofNegation :: ts) (.negation e)
  | ofPrimary {ts : List Token} {e : Expression} :
    Derives .primary ts e → Derives .comparison ts e
  | compare (op : Comparison) {l r : List Token} {a b : Expression} :
    Derives .comparison l a → Derives .primary r b →
    Derives .comparison (l ++ Token.ofComparison op :: r) (.comparison op a b)
  | operand {t : Token} : t.IsOperand → Derives .primary [t] (.leaf t.text)
  | parens {left right : Token} {ts : List Token} {e : Expression} :
    left.kind = .leftParen → right.kind = .rightParen → Derives .disjunction ts e →
    Derives .primary (left :: ts ++ [right]) e

namespace Token

theorem precedence?_ofComparison (op : Comparison) :
    (ofComparison op).precedence? = some 4 := by
  cases op <;> rfl

theorem kind_of_precedence? {t : Token} {p : Nat} (h : t.precedence? = some p) :
    t.kind = .operator := by
  unfold precedence? at h
  split at h
  · assumption
  · cases h

/-- The operator on top of a stack, if there is one, binds less tightly than a level. -/
def LooserThan (level : Nat) (stack : List Token) : Prop :=
  ∀ t ∈ stack.head?, ∀ p, t.precedence? = some p → p < level

theorem looserThan_nil (level : Nat) : LooserThan level [] := fun _ ht => absurd ht (by simp)

theorem looserThan_cons {level p : Nat} {t : Token} (ht : t.precedence? = some p) (hp : p < level)
    (stack : List Token) : LooserThan level (t :: stack) := by
  intro x hx q hq
  obtain rfl := Option.some.inj hx
  rw [ht, Option.some.injEq] at hq
  rwa [← hq]

theorem looserThan_leftParen (level : Nat) {t : Token} (ht : t.kind = .leftParen)
    (stack : List Token) : LooserThan level (t :: stack) := by
  intro x hx q hq
  obtain rfl := Option.some.inj hx
  have hkind := kind_of_precedence? hq
  rw [ht] at hkind
  cases hkind

/-- All tokens are operators that bind at least as tightly as a level. -/
def AllFrom (level : Nat) (pending : List Token) : Prop :=
  ∀ t ∈ pending, ∃ p, t.precedence? = some p ∧ level ≤ p

theorem LooserThan.mono {i j : Nat} {stack : List Token} (h : LooserThan i stack) (hij : i ≤ j) :
    LooserThan j stack := fun t ht p hp => Nat.lt_of_lt_of_le (h t ht p hp) hij

theorem allFrom_nil (level : Nat) : AllFrom level [] := fun _ ht => absurd ht List.not_mem_nil

theorem AllFrom.mono {i j : Nat} {pending : List Token} (h : AllFrom j pending) (hij : i ≤ j) :
    AllFrom i pending := by
  intro t ht
  obtain ⟨p, hp, hj⟩ := h t ht
  exact ⟨p, hp, Nat.le_trans hij hj⟩

theorem AllFrom.concat {level p : Nat} {pending : List Token} {t : Token}
    (h : AllFrom level pending) (ht : t.precedence? = some p) (hp : level ≤ p) :
    AllFrom level (pending ++ [t]) := by
  intro x hx
  rcases List.mem_append.mp hx with hx | hx
  · exact h x hx
  · rw [List.mem_singleton.mp hx]
    exact ⟨p, ht, hp⟩

theorem span_append {α : Type} {test : α → Bool} {xs ys : List α} (hx : ∀ x ∈ xs, test x = true)
    (hy : ∀ y ∈ ys.head?, test y = false) : (xs ++ ys).span test = (xs, ys) := by
  rw [List.span_eq_takeWhile_dropWhile, List.takeWhile_append_of_pos hx,
    List.dropWhile_append_of_pos hx]
  cases ys with
  | nil => simp
  | cons y ys =>
    have hfalse := hy y rfl
    simp [hfalse]

section Arrange
variable (stack : List Token) (t : Token) (rest : List Token)

theorem arrange_operator (ht : t.kind = .operator) :
    arrange stack (t :: rest) =
      (arrange (t :: (stack.span (yieldsTo (t.precedence?.getD 0))).2) rest).map
        ((stack.span (yieldsTo (t.precedence?.getD 0))).1 ++ ·) := by
  rw [arrange, ht]
  rfl

theorem arrange_leftParen (ht : t.kind = .leftParen) :
    arrange stack (t :: rest) = arrange (t :: stack) rest := by
  rw [arrange, ht]

theorem arrange_operand (ht : t.IsOperand) :
    arrange stack (t :: rest) = (arrange stack rest).map (t :: ·) := by
  rcases ht with ht | ht | ht <;>
  · rw [arrange, ht]
    rfl

end Arrange

/-- An operator takes the pending operators off the stack that bind at least as tightly. -/
theorem arrange_pending {t : Token} {p : Nat} {pending stack : List Token}
    (ht : t.precedence? = some p) (hpending : AllFrom p pending) (hstack : LooserThan p stack)
    (rest : List Token) :
    arrange (pending ++ stack) (t :: rest) = (arrange (t :: stack) rest).map (pending ++ ·) := by
  have hyield : ∀ x ∈ pending, yieldsTo p x = true := by
    intro x hx
    obtain ⟨q, hq, hpq⟩ := hpending x hx
    simpa [yieldsTo, hq] using hpq
  have hstop : ∀ x ∈ stack.head?, yieldsTo p x = false := by
    intro x hx
    cases hq : x.precedence? with
    | none => simp [yieldsTo, hq]
    | some q => simpa [yieldsTo, hq] using hstack x hx q hq
  rw [arrange_operator _ _ _ (kind_of_precedence? ht), ht, Option.getD_some,
    span_append hyield hstop]

/-- A right parenthesis takes all pending operators off the stack, and the left one with them. -/
theorem arrange_rightParen {left right : Token} {level : Nat} {pending : List Token}
    (hleft : left.kind = .leftParen) (hright : right.kind = .rightParen)
    (hpending : AllFrom level pending) (stack rest : List Token) :
    arrange (pending ++ left :: stack) (right :: rest) =
      (arrange stack rest).map (pending ++ ·) := by
  have hspan : (pending ++ left :: stack).span (·.kind ≠ .leftParen) = (pending, left :: stack) := by
    apply span_append
    · intro x hx
      obtain ⟨q, hq, -⟩ := hpending x hx
      simp [kind_of_precedence? hq]
    · intro x hx
      obtain rfl := Option.some.inj hx
      simp [hleft]
  rw [arrange, hright]
  dsimp only
  rw [hspan]
  rfl

theorem arrange_end {level : Nat} {pending : List Token} (h : AllFrom level pending) :
    arrange pending [] = .ok pending := by
  have hany : pending.any (·.kind = .leftParen) = false := by
    rw [List.any_eq_false]
    intro x hx
    obtain ⟨p, hp, -⟩ := h x hx
    simp [kind_of_precedence? hp]
  rw [arrange, hany]
  rfl

end Token

namespace Expression

theorem assemble_push {stack stack' : List Expression} {t : Token}
    (h : push stack t = .ok stack') (rest : List Token) :
    assemble stack (t :: rest) = assemble stack' rest := by
  rw [assemble, h]
  rfl

/-- Tokens are read as a tree at a level if they put out tokens and leave operators pending, over
every stack below that level, which together leave the tree on top of any operands. -/
def ReadAs (level : Nat) (ts : List Token) (e : Expression) : Prop :=
  ∀ stack, Token.LooserThan level stack → ∃ out pending, Token.AllFrom level pending ∧
    (∀ rest, Token.arrange stack (ts ++ rest) =
      (Token.arrange (pending ++ stack) rest).map (out ++ ·)) ∧
    ∀ operands after, assemble operands (out ++ pending ++ after) = assemble (e :: operands) after

namespace ReadAs

theorem mono {i j : Nat} {ts : List Token} {e : Expression} (h : ReadAs j ts e) (hij : i ≤ j) :
    ReadAs i ts e := by
  intro stack hstack
  obtain ⟨out, pending, hpending, harrange, hassemble⟩ := h stack (hstack.mono hij)
  exact ⟨out, pending, hpending.mono hij, harrange, hassemble⟩

theorem binary {p : Nat} {l r : List Token} {t : Token} {a b e : Expression} (hl : ReadAs p l a)
    (hr : ReadAs (p + 1) r b) (ht : t.precedence? = some p)
    (hpush : ∀ operands, push (b :: a :: operands) t = .ok (e :: operands)) :
    ReadAs p (l ++ t :: r) e := by
  intro stack hstack
  have htop := Token.looserThan_cons ht (Nat.lt_succ_self p) stack
  obtain ⟨out, pending, hpending, harrange, hassemble⟩ := hl stack hstack
  obtain ⟨out', pending', hpending', harrange', hassemble'⟩ := hr (t :: stack) htop
  -- `t` takes out what `l` left pending, and what `r` leaves pending stays above `t`
  refine ⟨out ++ pending ++ out', pending' ++ [t],
    (hpending'.mono (Nat.le_succ p)).concat ht (Nat.le_refl p), ?_, ?_⟩
  · intro rest
    rw [List.append_assoc, List.cons_append, harrange, Token.arrange_pending ht hpending hstack,
      harrange', List.append_assoc pending' [t], List.singleton_append]
    cases Token.arrange (pending' ++ t :: stack) rest <;> simp [Except.map]
  · intro operands after
    have hsplit : out ++ pending ++ out' ++ (pending' ++ [t]) ++ after =
        out ++ pending ++ (out' ++ pending' ++ (t :: after)) := by simp
    rw [hsplit, hassemble, hassemble', assemble_push (hpush operands)]

theorem unary {p : Nat} {ts : List Token} {t : Token} {a e : Expression} (h : ReadAs (p + 1) ts a)
    (ht : t.precedence? = some p)
    (hpush : ∀ operands, push (a :: operands) t = .ok (e :: operands)) :
    ReadAs p (t :: ts) e := by
  intro stack hstack
  have htop := Token.looserThan_cons ht (Nat.lt_succ_self p) stack
  obtain ⟨out, pending, hpending, harrange, hassemble⟩ := h (t :: stack) htop
  refine ⟨out, pending ++ [t], (hpending.mono (Nat.le_succ p)).concat ht (Nat.le_refl p), ?_, ?_⟩
  · intro rest
    have hfirst := Token.arrange_pending ht (Token.allFrom_nil p) hstack (ts ++ rest)
    rw [List.nil_append, harrange] at hfirst
    rw [List.cons_append, hfirst, List.append_assoc, List.singleton_append]
    cases Token.arrange (pending ++ t :: stack) rest <;> simp [Except.map]
  · intro operands after
    have hsplit : out ++ (pending ++ [t]) ++ after = out ++ pending ++ (t :: after) := by simp
    rw [hsplit, hassemble, assemble_push (hpush operands)]

theorem operand (level : Nat) {t : Token} (ht : t.IsOperand) : ReadAs level [t] (.leaf t.text) := by
  intro stack _
  refine ⟨[t], [], Token.allFrom_nil level, ?_, ?_⟩
  · intro rest
    rw [List.singleton_append, Token.arrange_operand _ _ _ ht]
    rfl
  · intro operands after
    have hrole : role t = .operand := by
      rcases ht with ht | ht | ht <;> simp [role, ht]
    have hpush : push operands t = .ok (.leaf t.text :: operands) := by
      simp only [push, hrole]
    exact assemble_push hpush after

/-- Parentheses hide the operators between them from those around them. -/
theorem parens (level : Nat) {left right : Token} {ts : List Token} {e : Expression}
    (hleft : left.kind = .leftParen) (hright : right.kind = .rightParen) (h : ReadAs 1 ts e) :
    ReadAs level (left :: ts ++ [right]) e := by
  intro stack _
  have htop := Token.looserThan_leftParen 1 hleft stack
  obtain ⟨out, pending, hpending, harrange, hassemble⟩ := h (left :: stack) htop
  refine ⟨out ++ pending, [], Token.allFrom_nil level, ?_, ?_⟩
  · intro rest
    rw [List.append_assoc, List.cons_append, Token.arrange_leftParen _ _ _ hleft, harrange,
      List.singleton_append, Token.arrange_rightParen hleft hright hpending, List.nil_append]
    cases Token.arrange stack rest <;> simp [Except.map]
  · intro operands after
    rw [List.append_nil]
    exact hassemble operands after

end ReadAs

end Expression

namespace Derives
open Expression

/-- What a category derives is read as the tree of the derivation at the level of the category. -/
theorem readAs {c : Category} {ts : List Token} {e : Expression} (h : Derives c ts e) :
    ReadAs c.level ts e := by
  -- a category that is one of the next level only needs less of the stack
  induction h with
  | ofConjunction _ ih => exact ih.mono (by decide)
  | or _ _ ihl ihr => exact ihl.binary ihr rfl fun _ => rfl
  | ofNegation _ ih => exact ih.mono (by decide)
  | and _ _ ihl ihr => exact ihl.binary ihr rfl fun _ => rfl
  | ofComparison _ ih => exact ih.mono (by decide)
  | not _ ih => exact ih.unary rfl fun _ => rfl
  | ofPrimary _ ih => exact ih.mono (by decide)
  | compare op _ _ ihl ihr =>
    exact ihl.binary ihr (Token.precedence?_ofComparison op) fun _ => by cases op <;> rfl
  | operand ht => exact ReadAs.operand _ ht
  | parens hleft hright _ ih => exact ReadAs.parens _ hleft hright ih

theorem toPostfix {ts : List Token} {e : Expression} (h : Derives .disjunction ts e) :
    ∃ out, Token.toPostfix ts = .ok out ∧ ofPostfix out = .ok e := by
  obtain ⟨out, pending, hpending, harrange, hassemble⟩ := h.readAs [] (Token.looserThan_nil 1)
  refine ⟨out ++ pending, ?_, ?_⟩
  · have hrun := harrange []
    rw [List.append_nil, List.append_nil, Token.arrange_end hpending] at hrun
    exact hrun
  · have hrun := hassemble [] []
    rw [List.append_nil] at hrun
    exact hrun

/-- Tokens have at most one derivation tree. -/
theorem unique {ts : List Token} {a b : Expression} (ha : Derives .disjunction ts a)
    (hb : Derives .disjunction ts b) : a = b := by
  obtain ⟨out, hout, hbuilt⟩ := ha.toPostfix
  obtain ⟨out', hout', hbuilt'⟩ := hb.toPostfix
  obtain rfl := Except.ok.inj (hout.symm.trans hout')
  exact Except.ok.inj (hbuilt.symm.trans hbuilt')

/-- The parser realises the grammar: both passes succeed on all tokens that it derives and build the
tree of the derivation, and so does reading a text with these tokens. -/
theorem parses {ts : List Token} {e : Expression} (h : Derives .disjunction ts e) :
    (∃ out, Token.toPostfix ts = .ok out ∧ ofPostfix out = .ok e) ∧
      ∀ text, Token.ofText text = .ok ts → parse text = .ok e := by
  refine ⟨h.toPostfix, ?_⟩
  intro text htext
  obtain ⟨out, hout, hbuilt⟩ := h.toPostfix
  rw [parse, htext]
  change (Token.toPostfix ts >>= ofPostfix) = _
  rw [hout]
  exact hbuilt

def sampleTokens : List Token :=
  let a : Token := ⟨.identifier, "a"⟩
  let b : Token := ⟨.identifier, "b"⟩
  let c : Token := ⟨.identifier, "c"⟩
  let one : Token := ⟨.literal, "1"⟩
  [Token.ofNegation, Token.leftParen, a, Token.ofConnective .or, b, Token.rightParen,
    Token.ofConnective .and, c, Token.ofComparison .equal, one]

def sampleTree : Expression :=
  .connective .and (.negation (.connective .or (.leaf "a") (.leaf "b")))
    (.comparison .equal (.leaf "c") (.leaf "1"))

theorem sampleTokens_derived : Derives .disjunction sampleTokens sampleTree := by
  have hname : ∀ name, Derives .comparison [⟨.identifier, name⟩] (.leaf name) :=
    fun name => .ofPrimary (.operand (t := ⟨.identifier, name⟩) (Or.inr (Or.inl rfl)))
  have hword : ∀ name, Derives .conjunction [⟨.identifier, name⟩] (.leaf name) :=
    fun name => .ofNegation (.ofComparison (hname name))
  have hparens := @Derives.parens Token.leftParen Token.rightParen _ _ rfl rfl
    (.or (.ofConjunction (hword "a")) (hword "b"))
  have hone : Derives .primary [⟨.literal, "1"⟩] (.leaf "1") :=
    .operand (t := ⟨.literal, "1"⟩) (Or.inl rfl)
  exact .ofConjunction (.and (.ofNegation (.not (.ofPrimary hparens)))
    (.ofComparison (.compare .equal (hname "c") hone)))

theorem sampleTokens_parsed :
    Token.ofText "not (a or b) and c == 1" = .ok sampleTokens ∧
      Derives .disjunction sampleTokens sampleTree ∧
      parse "not (a or b) and c == 1" = .ok sampleTree :=
  have htext : Token.ofText "not (a or b) and c == 1" = .ok sampleTokens := by decide
  ⟨htext, sampleTokens_derived, (parses sampleTokens_derived).2 _ htext⟩

end Derives

end Workflow

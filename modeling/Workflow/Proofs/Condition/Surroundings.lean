import Workflow.Proofs.Condition.Assembly
import Workflow.Proofs.Condition.Group
import Workflow.Proofs.Condition.Printing

/-!
# One place among tokens

An operand and a list in parentheses are put out by the first pass as soon as they are read,
whatever waits on the stack, and nothing of them is left there. So what both passes do with the
tokens around one place does not depend on what stands there: either the whole is refused for one
reason, or the tree of what stands there has one place in the tree of the whole. The tokens around
the place need not be an expression, and their parentheses need not match.
-/

set_option autoImplicit false

namespace Workflow

namespace Token
variable {ts out : List Token} {x left right : Token}

/-- The first pass puts the tokens out in another order at once, and leaves the stack as it was. -/
def PutsOut (ts out : List Token) : Prop :=
  ∀ stack rest, arrange stack (ts ++ rest) = (arrange stack rest).map (out ++ ·)

theorem IsOperand.putsOut (hx : x.IsOperand) : PutsOut [x] [x] :=
  fun stack rest => arrange_operand stack x rest hx

theorem putsOut_group (hleft : left.kind = .leftParen) (hright : right.kind = .rightParen)
    (h : toPostfix ts = .ok out) : PutsOut (left :: ts ++ [right]) out := by
  intro stack rest
  rw [List.append_assoc]
  exact arrange_group hleft hright h stack rest

theorem PutsOut.toPostfix_eq (h : PutsOut ts out) : toPostfix ts = .ok out := by
  have hrun := h [] []
  rwa [List.append_nil, arrange_nil_ok (by simp), Except.map, List.append_nil] at hrun

/-- The first pass comes through some tokens with a stack, or it refuses them, whatever is behind
them. -/
theorem arrange_through (stack ts : List Token) :
    (∃ emitted stack', ∀ rest,
      arrange stack (ts ++ rest) = (arrange stack' rest).map (emitted ++ ·)) ∨
      ∃ e, ∀ rest, arrange stack (ts ++ rest) = .error e := by
  induction ts generalizing stack with
  | nil => exact .inl ⟨[], stack, fun rest => (Except.map_nil_append _).symm⟩
  | cons t ts ih =>
    rcases moves_or_stuck stack t with ⟨emitted, stack', hmove⟩ | ⟨ht, hstack⟩
    · rcases ih stack' with ⟨emitted', stack'', hrun⟩ | ⟨e, hrefused⟩
      · refine .inl ⟨emitted ++ emitted', stack'', fun rest => ?_⟩
        rw [List.cons_append, hmove.arrange, hrun, Except.map_append_map]
      · refine .inr ⟨e, fun rest => ?_⟩
        rw [List.cons_append, hmove.arrange, hrefused]
        rfl
    · exact .inr ⟨_, fun rest => arrange_stuck ht hstack (ts ++ rest)⟩

/-- Around one place the first pass does the same, whatever is put out there. -/
theorem toPostfix_around (pre post : List Token) :
    (∃ e, ∀ ts out, PutsOut ts out → toPostfix (pre ++ (ts ++ post)) = .error e) ∨
      ∃ u v, ∀ ts out, PutsOut ts out → toPostfix (pre ++ (ts ++ post)) = .ok (u ++ out ++ v) := by
  rcases arrange_through [] pre with ⟨u, stack, hpre⟩ | ⟨e, hpre⟩
  · cases hpost : arrange stack post with
    | error e =>
      refine .inl ⟨e, fun ts out h => ?_⟩
      rw [toPostfix, hpre, h, hpost]
      rfl
    | ok v =>
      refine .inr ⟨u, v, fun ts out h => ?_⟩
      rw [toPostfix, hpre, h, hpost, Except.map_append_map]
      rfl
  · exact .inl ⟨e, fun ts out _ => hpre (ts ++ post)⟩

/-- A list in parentheses is put in order like one operand in its place, wherever this is: it is
refused together with every operand there, or else the tokens of the list come, in their order,
where every operand comes. So parentheses around the whole list change nothing, nor do parentheses
around parentheses. -/
theorem toPostfix_group (h : toPostfix ts = .ok out) (hleft : left.kind = .leftParen)
    (hright : right.kind = .rightParen) (pre post : List Token) :
    ((∃ e, toPostfix (pre ++ left :: ts ++ right :: post) = .error e ∧
        ∀ x : Token, x.IsOperand → toPostfix (pre ++ x :: post) = .error e) ∨
      ∃ u v, toPostfix (pre ++ left :: ts ++ right :: post) = .ok (u ++ out ++ v) ∧
        ∀ x : Token, x.IsOperand → toPostfix (pre ++ x :: post) = .ok (u ++ x :: v)) ∧
    toPostfix (left :: ts ++ [right]) = toPostfix ts ∧
    ∀ left' right' : Token, left'.kind = .leftParen → right'.kind = .rightParen →
      toPostfix (pre ++ left' :: left :: ts ++ right :: right' :: post) =
        toPostfix (pre ++ left :: ts ++ right :: post) := by
  have hgroup := putsOut_group hleft hright h
  have hone : pre ++ left :: ts ++ right :: post =
      pre ++ ((left :: ts ++ [right]) ++ post) := by simp
  refine ⟨?_, hgroup.toPostfix_eq.trans h.symm, ?_⟩
  · rw [hone]
    rcases toPostfix_around pre post with ⟨e, hall⟩ | ⟨u, v, hall⟩
    · exact .inl ⟨e, hall _ _ hgroup, fun x hx => hall _ _ hx.putsOut⟩
    · refine .inr ⟨u, v, hall _ _ hgroup, fun x hx => ?_⟩
      have hx := hall _ _ hx.putsOut
      rwa [List.append_assoc] at hx
  · intro left' right' hleft' hright'
    have htwice := putsOut_group hleft' hright' hgroup.toPostfix_eq
    have htwo : pre ++ left' :: left :: ts ++ right :: right' :: post =
        pre ++ ((left' :: (left :: ts ++ [right]) ++ [right']) ++ post) := by simp
    rw [hone, htwo]
    rcases toPostfix_around pre post with ⟨e, hall⟩ | ⟨u, v, hall⟩
    · exact (hall _ _ htwice).trans (hall _ _ hgroup).symm
    · exact (hall _ _ htwice).trans (hall _ _ hgroup).symm

/-- The tokens of `b or not c`. -/
def choiceTokens : List Token :=
  [⟨.identifier, "b"⟩, ofSymbol "or", ofSymbol "not", ⟨.identifier, "c"⟩]

def choicePostfix : List Token :=
  [⟨.identifier, "b"⟩, ⟨.identifier, "c"⟩, ofSymbol "not", ofSymbol "or"]

/-- The list in parentheses, between `not ( a and` and `== 1 ) or d`, and behind a parenthesis that
closes nothing. -/
theorem choiceTokens_placed :
    let before := [ofSymbol "not", leftParen, ⟨.identifier, "a"⟩, ofSymbol "and"]
    let behind := [ofSymbol "==", ⟨.literal, "1"⟩, rightParen, ofSymbol "or", ⟨.identifier, "d"⟩]
    toPostfix choiceTokens = .ok choicePostfix ∧
    (∃ u v, toPostfix (before ++ leftParen :: choiceTokens ++ rightParen :: behind) =
        .ok (u ++ choicePostfix ++ v) ∧
      ∀ x : Token, x.IsOperand → toPostfix (before ++ x :: behind) = .ok (u ++ x :: v)) ∧
    (∃ e, toPostfix ([rightParen] ++ leftParen :: choiceTokens ++ rightParen :: []) = .error e ∧
      ∀ x : Token, x.IsOperand → toPostfix ([rightParen] ++ x :: []) = .error e) := by
  intro before behind
  have h : toPostfix choiceTokens = .ok choicePostfix := by decide
  have hleft : leftParen.kind = .leftParen := rfl
  have hright : rightParen.kind = .rightParen := rfl
  refine ⟨h, ?_, ?_⟩
  · obtain ⟨⟨e, herror, -⟩ | hplaced, -⟩ := toPostfix_group h hleft hright before behind
    · have hok : (toPostfix
          (before ++ leftParen :: choiceTokens ++ rightParen :: behind)).isOk := by decide
      rw [herror] at hok
      cases hok
    · exact hplaced
  · obtain ⟨hrefused | ⟨u, v, hok, -⟩, -⟩ := toPostfix_group h hleft hright [rightParen] []
    · exact hrefused
    · have herror : (toPostfix ([rightParen] ++ leftParen :: choiceTokens ++ [rightParen])).isOk =
          false := by decide
      rw [hok] at herror
      cases herror

end Token

namespace Expression

/-- A tree with one place left open. -/
inductive Surrounding where
  | hole
  | negation (inner : Surrounding)
  | comparisonLeft (op : Comparison) (inner : Surrounding) (right : Expression)
  | comparisonRight (op : Comparison) (left : Expression) (inner : Surrounding)
  | connectiveLeft (op : Connective) (inner : Surrounding) (right : Expression)
  | connectiveRight (op : Connective) (left : Expression) (inner : Surrounding)

namespace Surrounding

def fill (e : Expression) : Surrounding → Expression
  | hole => e
  | negation inner => .negation (inner.fill e)
  | comparisonLeft op inner right => .comparison op (inner.fill e) right
  | comparisonRight op left inner => .comparison op left (inner.fill e)
  | connectiveLeft op inner right => .connective op (inner.fill e) right
  | connectiveRight op left inner => .connective op left (inner.fill e)

end Surrounding

/-- What the second pass has on its stack, with one place left open in one of the trees. -/
structure OpenStack where
  above : List Expression
  tree : Surrounding
  below : List Expression

def OpenStack.fill (stack : OpenStack) (e : Expression) : List Expression :=
  stack.above ++ stack.tree.fill e :: stack.below

theorem push_around (stack : OpenStack) (t : Token) :
    (∃ stack' : OpenStack, ∀ e, Grows t (stack.fill e) (stack'.fill e)) ∨
      ∀ e, push (stack.fill e) t = .error (.insufficientOperands t.text) := by
  obtain ⟨above, tree, below⟩ := stack
  cases hrole : role t with
  | operand => exact .inl ⟨⟨.leaf t.text :: above, tree, below⟩, fun e => .operand hrole⟩
  | negation =>
    rcases above with _ | ⟨r, above⟩
    · exact .inl ⟨⟨[], .negation tree, below⟩, fun e => .negation hrole⟩
    · exact .inl ⟨⟨.negation r :: above, tree, below⟩, fun e => .negation hrole⟩
  | comparison op =>
    rcases above with _ | ⟨r, _ | ⟨l, above⟩⟩
    · rcases below with _ | ⟨l, below⟩
      · exact .inr fun e => by simp only [OpenStack.fill, List.nil_append, push, hrole]
      · exact .inl ⟨⟨[], .comparisonRight op l tree, below⟩, fun e => .comparison hrole⟩
    · exact .inl ⟨⟨[], .comparisonLeft op tree r, below⟩, fun e => .comparison hrole⟩
    · exact .inl ⟨⟨.comparison op l r :: above, tree, below⟩, fun e => .comparison hrole⟩
  | connective op =>
    rcases above with _ | ⟨r, _ | ⟨l, above⟩⟩
    · rcases below with _ | ⟨l, below⟩
      · exact .inr fun e => by simp only [OpenStack.fill, List.nil_append, push, hrole]
      · exact .inl ⟨⟨[], .connectiveRight op l tree, below⟩, fun e => .connective hrole⟩
    · exact .inl ⟨⟨[], .connectiveLeft op tree r, below⟩, fun e => .connective hrole⟩
    · exact .inl ⟨⟨.connective op l r :: above, tree, below⟩, fun e => .connective hrole⟩

theorem assemble_open (stack : OpenStack) (ts : List Token) :
    (∃ err, ∀ e, assemble (stack.fill e) ts = .error err) ∨
      ∃ tree : Surrounding, ∀ e, assemble (stack.fill e) ts = .ok (tree.fill e) := by
  induction ts generalizing stack with
  | nil =>
    obtain ⟨above, tree, below⟩ := stack
    by_cases hone : above = [] ∧ below = []
    · obtain ⟨rfl, rfl⟩ := hone
      exact .inr ⟨tree, fun e => rfl⟩
    · refine .inl ⟨.malformed (above.length + (below.length + 1)), fun e => ?_⟩
      have hlength : (OpenStack.fill ⟨above, tree, below⟩ e).length =
          above.length + (below.length + 1) := by
        simp [OpenStack.fill]
      rw [← hlength]
      apply assemble_malformed
      rw [hlength]
      intro heq
      apply hone
      exact ⟨List.length_eq_zero_iff.mp (by omega), List.length_eq_zero_iff.mp (by omega)⟩
  | cons t ts ih =>
    rcases push_around stack t with ⟨stack', hgrows⟩ | herror
    · rcases ih stack' with ⟨err, hrun⟩ | ⟨tree, hrun⟩
      · exact .inl ⟨err, fun e => (assemble_push (hgrows e).push ts).trans (hrun e)⟩
      · exact .inr ⟨tree, fun e => (assemble_push (hgrows e).push ts).trans (hrun e)⟩
    · refine .inl ⟨.insufficientOperands t.text, fun e => ?_⟩
      rw [assemble, herror]
      rfl

theorem assemble_append (stack : List Expression) (ts rest : List Token) :
    assemble stack (ts ++ rest) =
      (ts.foldlM push stack >>= fun stack' => assemble stack' rest) := by
  induction ts generalizing stack with
  | nil => rfl
  | cons t ts ih =>
    rw [List.cons_append, assemble, List.foldlM_cons, bind_assoc]
    congr 1
    funext stack'
    exact ih stack'

/-- The tokens are put out at once, and one tree is built of them. -/
def Builds (ts : List Token) (e : Expression) : Prop :=
  ∃ out, Token.PutsOut ts out ∧ ofPostfix out = .ok e

theorem builds_operand {x : Token} (hx : x.IsOperand) : Builds [x] (.leaf x.text) := by
  refine ⟨[x], hx.putsOut, ?_⟩
  have hrole : role x = .operand := role_of_kind (by rcases hx with h | h | h <;> simp [h])
  exact assemble_push (Grows.operand hrole).push []

/-- Around one place both passes do the same, whatever tree is built of the tokens there. -/
theorem ofTokens_around (pre post : List Token) :
    (∃ err, ∀ ts e, Builds ts e → ofTokens (pre ++ (ts ++ post)) = .error err) ∨
      ∃ tree : Surrounding, ∀ ts e, Builds ts e →
        ofTokens (pre ++ (ts ++ post)) = .ok (tree.fill e) := by
  rcases Token.toPostfix_around pre post with ⟨err, hfirst⟩ | ⟨u, v, hfirst⟩
  · refine .inl ⟨err, ?_⟩
    rintro ts e ⟨out, hout, -⟩
    rw [ofTokens, hfirst ts out hout]
    rfl
  · cases hstack : u.foldlM push [] with
    | error err =>
      refine .inl ⟨err, ?_⟩
      rintro ts e ⟨out, hout, -⟩
      rw [ofTokens_of_toPostfix (hfirst ts out hout), List.append_assoc, ofPostfix, assemble_append,
        hstack]
      rfl
    | ok stack =>
      have hrun : ∀ ts e, Builds ts e →
          ofTokens (pre ++ (ts ++ post)) = assemble (OpenStack.fill ⟨[], .hole, stack⟩ e) v := by
        rintro ts e ⟨out, hout, he⟩
        rw [ofTokens_of_toPostfix (hfirst ts out hout), List.append_assoc, ofPostfix,
          assemble_append, hstack]
        exact assemble_above he stack v
      rcases assemble_open ⟨[], .hole, stack⟩ v with ⟨err, hv⟩ | ⟨tree, hv⟩
      · exact .inl ⟨err, fun ts e h => (hrun ts e h).trans (hv e)⟩
      · exact .inr ⟨tree, fun ts e h => (hrun ts e h).trans (hv e)⟩

theorem Builds.ofTokens_eq {ts : List Token} {e : Expression} (h : Builds ts e) :
    ofTokens ts = .ok e := by
  obtain ⟨out, hout, he⟩ := h
  rw [ofTokens_of_toPostfix hout.toPostfix_eq, he]

theorem parse_of_ofText {text : String} {ts : List Token} (h : Token.ofText text = .ok ts) :
    parse text = ofTokens ts := by
  rw [parse, h]
  rfl

/-- A condition in parentheses is the condition. -/
theorem parse_parenthesized {text : String} {e : Expression} (h : parse text = .ok e) :
    parse (parenthesized text) = .ok e := by
  obtain ⟨ts, out, htext, hout, he⟩ := parse_ok h
  have hsplits := Token.splits_iff.mp (splits_parenthesized (Token.splits_iff.mpr htext))
  have hbuilds : Builds (Token.leftParen :: ts ++ [Token.rightParen]) e :=
    ⟨out, Token.putsOut_group rfl rfl hout, he⟩
  rw [parse_of_ofText hsplits, hbuilds.ofTokens_eq]

end Expression

end Workflow

import Workflow.Proofs.Condition.Postfix
import Workflow.Proofs.Condition.Spacing

/-!
# Conditions written out

A condition tree is written with parentheses around every operand of an operator and a blank between
any two tokens. Read again, the text gives the tree back, whatever the tree is, if every leaf is the
text of a single token. So there are texts for all trees of such leaves, also for those that no text
without parentheses has.
-/

set_option autoImplicit false

namespace Workflow

/-- A text that is one token by itself, which is an operand. -/
def Token.StandsAlone (text : String) : Prop :=
  ∃ t : Token, t.IsOperand ∧ t.text = text ∧ Token.ofText text = .ok [t]

namespace Expression

def parenthesized (text : String) : String := "(" ++ " " ++ text ++ " " ++ ")"

def print : Expression → String
  | leaf text => text
  | negation e => negationKeyword ++ " " ++ parenthesized e.print
  | comparison op l r => parenthesized l.print ++ " " ++ op.symbol ++ " " ++ parenthesized r.print
  | connective op l r => parenthesized l.print ++ " " ++ op.keyword ++ " " ++ parenthesized r.print

section Splits
open Token

theorem splits_negation : Splits negationKeyword.toList [ofNegation] := splits_iff.mpr (by decide)

theorem splits_comparison (op : Comparison) : Splits op.symbol.toList [ofComparison op] := by
  cases op <;> exact splits_iff.mpr (by decide)

theorem splits_connective (op : Connective) : Splits op.keyword.toList [ofConnective op] := by
  cases op <;> exact splits_iff.mpr (by decide)

variable {text left right op : String} {ts ls rs : List Token} {t : Token}

theorem splits_join (hl : Splits left.toList ls) (hr : Splits right.toList rs) :
    Splits (left ++ " " ++ right).toList (ls ++ rs) := by
  have hblank := hl.blank hr
  rw [String.toList_append, String.toList_append, List.append_assoc]
  exact hblank

theorem splits_parenthesized (h : Splits text.toList ts) :
    Splits (parenthesized text).toList (leftParen :: ts ++ [rightParen]) := by
  have hleft : Splits "(".toList [leftParen] := splits_iff.mpr (by decide)
  have hright : Splits ")".toList [rightParen] := splits_iff.mpr (by decide)
  exact splits_join (splits_join hleft h) hright

theorem splits_binary (hl : Splits left.toList ls) (hop : Splits op.toList [t])
    (hr : Splits right.toList rs) :
    Splits (parenthesized left ++ " " ++ op ++ " " ++ parenthesized right).toList
      (leftParen :: ls ++ [rightParen] ++ t :: (leftParen :: rs ++ [rightParen])) := by
  have hsplits := splits_join (splits_join (splits_parenthesized hl) hop) (splits_parenthesized hr)
  rwa [List.append_assoc, List.singleton_append] at hsplits

end Splits

end Expression

namespace Derives
variable {ts ls rs : List Token} {e l r : Expression}

theorem parenthesized (h : Derives .disjunction ts e) :
    Derives .comparison (Token.leftParen :: ts ++ [Token.rightParen]) e :=
  .ofPrimary (.parens rfl rfl h)

theorem connected (op : Connective) (hl : Derives .comparison ls l)
    (hr : Derives .comparison rs r) :
    Derives .disjunction (ls ++ Token.ofConnective op :: rs) (.connective op l r) := by
  have hl := Derives.ofNegation (.ofComparison hl)
  cases op with
  | and => exact .ofConjunction (.and hl (.ofComparison hr))
  | or => exact .or (.ofConjunction hl) (.ofNegation (.ofComparison hr))

end Derives

namespace Expression

theorem print_derives (e : Expression) (h : ∀ text ∈ e.leaves, Token.StandsAlone text) :
    ∃ ts, Token.Splits e.print.toList ts ∧ Derives .disjunction ts e := by
  induction e with
  | leaf text =>
    obtain ⟨t, ht, rfl, htext⟩ := h text List.mem_cons_self
    exact ⟨[t], Token.splits_iff.mpr htext,
      .ofConjunction (.ofNegation (.ofComparison (.ofPrimary (.operand ht))))⟩
  | negation e ih =>
    obtain ⟨ts, hts, he⟩ := ih h
    exact ⟨_, splits_join splits_negation (splits_parenthesized hts),
      .ofConjunction (.ofNegation (.not he.parenthesized))⟩
  | comparison op l r ihl ihr =>
    obtain ⟨ls, hls, hl⟩ := ihl fun text htext => h text (List.mem_append_left _ htext)
    obtain ⟨rs, hrs, hr⟩ := ihr fun text htext => h text (List.mem_append_right _ htext)
    exact ⟨_, splits_binary hls (splits_comparison op) hrs, .ofConjunction (.ofNegation
      (.ofComparison (.compare op hl.parenthesized (.parens rfl rfl hr))))⟩
  | connective op l r ihl ihr =>
    obtain ⟨ls, hls, hl⟩ := ihl fun text htext => h text (List.mem_append_left _ htext)
    obtain ⟨rs, hrs, hr⟩ := ihr fun text htext => h text (List.mem_append_right _ htext)
    exact ⟨_, splits_binary hls (splits_connective op) hrs,
      hl.parenthesized.connected op hr.parenthesized⟩

/-- A tree that is written out is read back. -/
theorem parse_print (e : Expression) (h : ∀ text ∈ e.leaves, Token.StandsAlone text) :
    parse e.print = .ok e := by
  obtain ⟨ts, hts, he⟩ := print_derives e h
  obtain ⟨out, hout, hbuilt⟩ := he.toPostfix
  rw [parse, Token.splits_iff.mp hts]
  change (Token.toPostfix ts >>= ofPostfix) = _
  rw [hout]
  exact hbuilt

def nestedComparisons : Expression :=
  .negation (.negation (.comparison .notEqual
    (.comparison .less (.leaf "count") (.leaf "1.5")) (.leaf "\"a ) or not\"")))

theorem nestedComparisons_parsed :
    (∀ text ∈ nestedComparisons.leaves, Token.StandsAlone text) ∧
      nestedComparisons.print =
        "not ( not ( ( ( count ) < ( 1.5 ) ) != ( \"a ) or not\" ) ) )" ∧
      parse nestedComparisons.print = .ok nestedComparisons := by
  have hleaves : ∀ text ∈ nestedComparisons.leaves, Token.StandsAlone text := by
    intro text htext
    simp only [nestedComparisons, leaves, List.cons_append, List.nil_append, List.mem_cons,
      List.not_mem_nil, or_false] at htext
    rcases htext with rfl | rfl | rfl
    · exact ⟨⟨.identifier, "count"⟩, .inr (.inl rfl), rfl, by decide⟩
    · exact ⟨⟨.literal, "1.5"⟩, .inl rfl, rfl, by decide⟩
    · exact ⟨⟨.string, "\"a ) or not\""⟩, .inr (.inr rfl), rfl, by decide⟩
  exact ⟨hleaves, by decide, parse_print nestedComparisons hleaves⟩

end Expression

end Workflow

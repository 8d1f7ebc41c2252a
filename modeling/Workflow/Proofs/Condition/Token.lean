import Workflow.Condition.Postfix

/-!
# Tokens of a text

What holds of every token that a text is split into, whatever the text is. An operator token is one
of the operators that have a place in conditions, so none is taken for a leaf.
-/

set_option autoImplicit false

namespace Workflow.Token

def operatorTexts : List String := ["==", "!=", ">=", "<=", ">", "<", "and", "or", "not"]

/-- The token is none of the operators that would be built into a tree as leaves. -/
def IsKnown (t : Token) : Prop := t.kind = .operator → t.text ∈ operatorTexts

theorem IsKnown.role_ne {t : Token} (h : t.IsKnown) (hkind : t.kind = .operator) :
    Expression.role t ≠ .operand := by
  have hall : ∀ text ∈ operatorTexts, Expression.role ⟨.operator, text⟩ ≠ .operand := by decide
  obtain ⟨kind, text⟩ := t
  obtain rfl : kind = .operator := hkind
  exact hall text (h rfl)

theorem isKnown_of_kind {t : Token} (h : t.kind ≠ .operator) : t.IsKnown :=
  fun hkind => absurd hkind h

theorem isKnown_ofSymbol {symbol : String} (h : symbol ∈ operatorTexts) :
    (ofSymbol symbol).IsKnown := fun _ => h

theorem isKnown_ofWord (word : List Char) : (ofWord word).IsKnown := by
  have hwords : ∀ w ∈ operatorWords, String.ofList w ∈ operatorTexts := by decide
  intro hkind
  by_cases hmem : word ∈ operatorWords
  · exact hwords word hmem
  · have hne : wordKind word ≠ .operator := by
      unfold wordKind
      split
      · next h => exact absurd (List.contains_iff_mem.mp h) hmem
      · split <;> decide
    exact absurd hkind hne

theorem isKnown_flush (reversed : List Char) {t : Token} (h : t ∈ flush reversed) : t.IsKnown := by
  cases reversed with
  | nil => exact absurd h List.not_mem_nil
  | cons c cs =>
    rw [List.mem_singleton.mp h]
    exact isKnown_ofWord _

theorem wideSymbol?_mem {c : Char} {next : Option Char} {symbol : String}
    (h : wideSymbol? c next = some symbol) : symbol ∈ operatorTexts := by
  have hall : ∀ symbol ∈ ["==", "!=", ">=", "<="], symbol ∈ operatorTexts := by decide
  apply hall
  simp only [wideSymbol?, Option.ite_none_right_eq_some] at h
  grind

theorem isKnown_narrowSymbol {c : Char} {t : Token} (h : narrowSymbol? c = some t) : t.IsKnown := by
  have hall : ∀ t ∈ [ofSymbol ">", ofSymbol "<", leftParen, rightParen],
      t.kind = .operator → t.text ∈ operatorTexts := by decide
  apply hall
  unfold narrowSymbol? at h
  grind

/-- What a step in a word can do, each time with what the character is. -/
inductive WordOutcome (position : Nat) (reversed : List Char) (c : Char) (next : Option Char) :
    Step → Prop where
  | blank : c = ' ' → WordOutcome position reversed c next ⟨flush reversed, .word []⟩
  | wide {symbol : String} : wideSymbol? c next = some symbol →
    WordOutcome position reversed c next ⟨flush reversed ++ [ofSymbol symbol], .half⟩
  | narrow {token : Token} : wideSymbol? c next = none → narrowSymbol? c = some token →
    WordOutcome position reversed c next ⟨flush reversed ++ [token], .word []⟩
  | quote : c = '"' →
    WordOutcome position reversed c next ⟨flush reversed, .string position [c]⟩
  | number : isNumberChar c = true →
    WordOutcome position reversed c next ⟨[], .word (c :: reversed)⟩
  | keyword : isLetterChar c = true → endsKeyword (c :: reversed) next = true →
    WordOutcome position reversed c next ⟨flush (c :: reversed), .word []⟩
  | letter : isLetterChar c = true → endsKeyword (c :: reversed) next = false →
    WordOutcome position reversed c next ⟨[], .word (c :: reversed)⟩

theorem wordStep_outcome {position : Nat} {reversed : List Char} {c : Char} {next : Option Char}
    {s : Step} (h : wordStep position reversed c next = .ok s) :
    WordOutcome position reversed c next s := by
  unfold wordStep at h
  by_cases hblank : c = ' '
  · rw [if_pos hblank] at h
    obtain rfl := Except.ok.inj h
    exact .blank hblank
  rw [if_neg hblank] at h
  cases hwide : wideSymbol? c next with
  | some symbol =>
    rw [hwide] at h
    obtain rfl := Except.ok.inj h
    exact .wide hwide
  | none =>
    rw [hwide] at h
    cases hnarrow : narrowSymbol? c with
    | some token =>
      rw [hnarrow] at h
      obtain rfl := Except.ok.inj h
      exact .narrow hwide hnarrow
    | none =>
      rw [hnarrow] at h
      dsimp only at h
      split at h
      · next hquote =>
        obtain rfl := Except.ok.inj h
        exact .quote hquote
      · split at h
        · next hnumber =>
          obtain rfl := Except.ok.inj h
          exact .number hnumber
        · split at h
          · next hletter =>
            split at h
            · next hend =>
              obtain rfl := Except.ok.inj h
              exact .keyword hletter hend
            · next hend =>
              obtain rfl := Except.ok.inj h
              exact .letter hletter (Bool.eq_false_iff.mpr hend)
          · cases h

theorem WordOutcome.isKnown {position : Nat} {reversed : List Char} {c : Char} {next : Option Char}
    {s : Step} (h : WordOutcome position reversed c next s) : ∀ t ∈ s.tokens, t.IsKnown := by
  intro t ht
  cases h with
  | blank | quote => exact isKnown_flush reversed ht
  | wide hsymbol =>
    rcases List.mem_append.mp ht with ht | ht
    · exact isKnown_flush reversed ht
    · rw [List.mem_singleton.mp ht]
      exact isKnown_ofSymbol (wideSymbol?_mem hsymbol)
  | narrow _ htoken =>
    rcases List.mem_append.mp ht with ht | ht
    · exact isKnown_flush reversed ht
    · rw [List.mem_singleton.mp ht]
      exact isKnown_narrowSymbol htoken
  | keyword => exact isKnown_flush (c :: reversed) ht
  | number | letter => exact absurd ht List.not_mem_nil

theorem isKnown_step {position : Nat} {pending : Pending} {c : Char} {next : Option Char} {s : Step}
    (h : step position pending c next = .ok s) {t : Token} (ht : t ∈ s.tokens) : t.IsKnown := by
  cases pending with
  | word reversed => exact (wordStep_outcome h).isKnown t ht
  | half =>
    obtain rfl := Except.ok.inj h
    exact absurd ht List.not_mem_nil
  | string start reversed =>
    obtain rfl := Except.ok.inj h
    unfold stringStep at ht
    split at ht
    · rw [List.mem_singleton.mp ht]
      exact isKnown_of_kind fun hkind => nomatch hkind
    · exact absurd ht List.not_mem_nil

theorem scan_cons {position : Nat} {pending : Pending} {c : Char} {cs : List Char} {ts : List Token}
    (h : scan position pending (c :: cs) = .ok ts) :
    ∃ s rest, step position pending c cs.head? = .ok s ∧
      scan (position + 1) s.pending cs = .ok rest ∧ ts = s.tokens ++ rest := by
  unfold scan at h
  cases hstep : step position pending c cs.head? with
  | error e =>
    rw [hstep] at h
    cases h
  | ok s =>
    rw [hstep] at h
    cases hscan : scan (position + 1) s.pending cs with
    | error e =>
      simp only [bind, Except.bind, hscan] at h
      cases h
    | ok rest =>
      simp only [bind, Except.bind, hscan] at h
      exact ⟨s, rest, rfl, hscan, (Except.ok.inj h).symm⟩

theorem isKnown_scan {cs : List Char} {position : Nat} {pending : Pending} {ts : List Token}
    (h : scan position pending cs = .ok ts) : ∀ t ∈ ts, t.IsKnown := by
  induction cs generalizing position pending ts with
  | nil =>
    intro t ht
    cases pending with
    | word reversed =>
      obtain rfl := Except.ok.inj h
      exact isKnown_flush reversed ht
    | half =>
      obtain rfl := Except.ok.inj h
      exact absurd ht List.not_mem_nil
    | string start reversed => cases h
  | cons c cs ih =>
    obtain ⟨s, rest, hstep, hscan, rfl⟩ := scan_cons h
    intro t ht
    rcases List.mem_append.mp ht with ht | ht
    · exact isKnown_step hstep ht
    · exact ih hscan t ht

theorem isKnown_ofText {text : String} {ts : List Token} (h : ofText text = .ok ts) :
    ∀ t ∈ ts, t.IsKnown := isKnown_scan h

end Workflow.Token

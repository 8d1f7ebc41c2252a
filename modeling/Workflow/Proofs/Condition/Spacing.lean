import Workflow.Proofs.Condition.Token

/-!
# Texts side by side

Where a text stands does not matter to the tokens it is split into, and a blank ends every token but
a string. So a text, a blank and another text are split into the tokens of the one and then those of
the other, provided that each of them can be split by itself.
-/

set_option autoImplicit false

namespace Workflow.Token

/-- The same place in a scan, a string being open from any position. -/
inductive Pending.Alike : Pending → Pending → Prop where
  | word (reversed : List Char) : Alike (.word reversed) (.word reversed)
  | half : Alike .half .half
  | string (i j : Nat) (reversed : List Char) : Alike (.string i reversed) (.string j reversed)

theorem Pending.Alike.refl (p : Pending) : p.Alike p := by
  cases p with
  | word reversed => exact .word reversed
  | half => exact .half
  | string i reversed => exact .string i i reversed

theorem wordStep_quote (i : Nat) (reversed : List Char) (next : Option Char) :
    wordStep i reversed '"' next = .ok ⟨flush reversed, .string i ['"']⟩ := by
  have hwide : wideSymbol? '"' next = none := by
    unfold wideSymbol?
    split <;> rfl
  simp [wordStep, hwide, narrowSymbol?]

/-- Only a quote keeps the position. -/
theorem wordStep_of_ne_quote {i : Nat} {reversed : List Char} {c : Char} {next : Option Char}
    {s : Step} (hc : c ≠ '"') (h : wordStep i reversed c next = .ok s) (j : Nat) :
    wordStep j reversed c next = .ok s := by
  unfold wordStep at h ⊢
  grind

theorem step_alike {i : Nat} {p q : Pending} {c : Char} {next : Option Char} {s : Step}
    (hpq : p.Alike q) (h : step i p c next = .ok s) (j : Nat) :
    ∃ s', step j q c next = .ok s' ∧ s'.tokens = s.tokens ∧ s.pending.Alike s'.pending := by
  cases hpq with
  | word reversed =>
    by_cases hc : c = '"'
    · subst hc
      rw [step, wordStep_quote] at h
      obtain rfl := Except.ok.inj h
      exact ⟨_, wordStep_quote j reversed next, rfl, .string i j _⟩
    · exact ⟨s, wordStep_of_ne_quote hc h j, rfl, .refl s.pending⟩
  | half =>
    obtain rfl := Except.ok.inj h
    exact ⟨_, rfl, rfl, .word []⟩
  | string k l reversed =>
    obtain rfl := Except.ok.inj h
    refine ⟨stringStep l reversed c, rfl, ?_⟩
    unfold stringStep
    split
    · exact ⟨rfl, .word []⟩
    · exact ⟨rfl, .string k l _⟩

theorem scan_cons_ok {i : Nat} {p : Pending} {c : Char} {cs : List Char} {s : Step}
    {ts : List Token} (hstep : step i p c cs.head? = .ok s)
    (hscan : scan (i + 1) s.pending cs = .ok ts) : scan i p (c :: cs) = .ok (s.tokens ++ ts) := by
  rw [scan, hstep]
  simp only [bind, Except.bind, hscan]
  rfl

theorem scan_alike {cs : List Char} {i : Nat} {p q : Pending} {ts : List Token} (hpq : p.Alike q)
    (h : scan i p cs = .ok ts) (j : Nat) : scan j q cs = .ok ts := by
  induction cs generalizing i j p q ts with
  | nil =>
    cases hpq with
    | word | half => exact h
    | string => cases h
  | cons c cs ih =>
    obtain ⟨s, rest, hstep, hscan, rfl⟩ := scan_cons h
    obtain ⟨s', hstep', htokens, hs⟩ := step_alike hpq hstep j
    rw [← htokens]
    exact scan_cons_ok hstep' (ih hs hscan (j + 1))

/-- What comes next is looked at only for the second half of a symbol and for the end of a keyword,
and a blank is like the end of the text there. -/
theorem step_blank (i : Nat) (p : Pending) (c : Char) :
    step i p c (some ' ') = step i p c none := by
  cases p with
  | word reversed =>
    have hwide : wideSymbol? c (some ' ') = wideSymbol? c none := rfl
    have hend : endsKeyword (c :: reversed) (some ' ') = endsKeyword (c :: reversed) none := by
      have hblank : isAlphanumeric ' ' = false := by decide
      simp [endsKeyword, hblank]
    rw [step, step, wordStep, wordStep, hwide, hend]
  | half | string => rfl

theorem step_head (i : Nat) (p : Pending) (c : Char) (cs rest : List Char) :
    step i p c (cs ++ ' ' :: rest).head? = step i p c cs.head? := by
  cases cs with
  | nil => exact step_blank i p c
  | cons d cs => rfl

/-- A text that is split into tokens wherever it begins. -/
def Splits (cs : List Char) (ts : List Token) : Prop := ∀ i, scan i (.word []) cs = .ok ts

theorem splits_iff {text : String} {ts : List Token} :
    Splits text.toList ts ↔ ofText text = .ok ts :=
  ⟨fun h => h 0, fun h i => scan_alike (.word []) h i⟩

theorem scan_append_blank {cs rest : List Char} {i : Nat} {p : Pending} {ts us : List Token}
    (h : scan i p cs = .ok ts) (hrest : Splits rest us) :
    scan i p (cs ++ ' ' :: rest) = .ok (ts ++ us) := by
  induction cs generalizing i p ts with
  | nil =>
    cases p with
    | word reversed =>
      obtain rfl := Except.ok.inj h
      have hstep : step i (.word reversed) ' ' rest.head? = .ok ⟨flush reversed, .word []⟩ := rfl
      exact scan_cons_ok hstep (hrest _)
    | half =>
      obtain rfl := Except.ok.inj h
      have hstep : step i .half ' ' rest.head? = .ok ⟨[], .word []⟩ := rfl
      exact scan_cons_ok hstep (hrest _)
    | string => cases h
  | cons c cs ih =>
    obtain ⟨s, ts', hstep, hscan, rfl⟩ := scan_cons h
    rw [List.append_assoc]
    exact scan_cons_ok ((step_head i p c cs rest).trans hstep) (ih hscan)

theorem Splits.blank {cs rest : List Char} {ts us : List Token} (h : Splits cs ts)
    (hrest : Splits rest us) : Splits (cs ++ ' ' :: rest) (ts ++ us) :=
  fun i => scan_append_blank (h i) hrest

end Workflow.Token

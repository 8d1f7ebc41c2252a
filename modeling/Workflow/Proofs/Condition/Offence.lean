import Mathlib.Algebra.Group.Nat.Even
import Workflow.Proofs.Condition.Lexeme

/-!
# Where a text is refused

A text is refused at the first character that cannot stand where it does, or else at the quote of a
string that is not closed. What stands before that place is split into tokens by itself, and for an
unknown character nothing that is written behind it mends the text, except for the second half of a
symbol. The scan is followed up to the place where it stops: what it reads before depends on the
characters there and on the next one alone.
-/

set_option autoImplicit false

namespace Workflow.Token

/-- The scan of some characters in front of a next one, from one place to another, with the tokens
that it gives meanwhile. -/
inductive Passes (next : Option Char) :
    Nat → Pending → List Char → List Token → Pending → Prop where
  | nil (i : Nat) (p : Pending) : Passes next i p [] [] p
  | cons {i : Nat} {p q : Pending} {c : Char} {cs : List Char} {s : Step} {ts : List Token} :
    step i p c (cs.head?.or next) = .ok s → Passes next (i + 1) s.pending cs ts q →
    Passes next i p (c :: cs) (s.tokens ++ ts) q

section Parts
variable {i : Nat} {p q : Pending} {xs ys reversed w : List Char} {ts : List Token} {c : Char}
  {next : Option Char} {e : ConditionError} {s : Step}

theorem Passes.scan_append (h : Passes next i p xs ts q) (hnext : ys.head? = next) :
    scan i p (xs ++ ys) = (scan (i + xs.length) q ys).map (ts ++ ·) := by
  induction h with
  | nil i p =>
    rw [List.nil_append, List.length_nil, Nat.add_zero]
    cases scan i p ys <;> rfl
  | @cons i p q c cs s ts hstep _ ih =>
    have hlength : i + (c :: cs).length = i + 1 + cs.length := by
      rw [List.length_cons]
      omega
    rw [List.cons_append, scan, List.head?_append, hnext, hstep, hlength]
    simp only [bind, Except.bind, ih]
    cases scan (i + 1 + cs.length) q ys with
    | error e => rfl
    | ok us => simp [Except.map, pure, Except.pure]

theorem scan_cons_error (h : scan i p (c :: xs) = .error e) : step i p c xs.head? = .error e ∨
    ∃ s, step i p c xs.head? = .ok s ∧ scan (i + 1) s.pending xs = .error e := by
  rw [scan] at h
  cases hstep : step i p c xs.head? with
  | error e' =>
    rw [hstep] at h
    exact .inl (congrArg _ (Except.error.inj h))
  | ok s =>
    refine .inr ⟨s, rfl, ?_⟩
    cases hscan : scan (i + 1) s.pending xs with
    | error e' =>
      simp only [hstep, bind, Except.bind, hscan] at h
      exact h
    | ok ts =>
      simp only [hstep, bind, Except.bind, hscan] at h
      cases h

/-- A scan that fails stops at a character behind a word, or at the end within a string. -/
theorem scan_error (h : scan i p xs = .error e) :
    (∃ ys c rest ts w, xs = ys ++ c :: rest ∧ Passes (some c) i p ys ts (.word w) ∧
      wordStep (i + ys.length) w c rest.head? = .error e) ∨
    ∃ ts start reversed, Passes none i p xs ts (.string start reversed) ∧
      e = .unterminatedString start := by
  induction xs generalizing i p with
  | nil =>
    cases p with
    | word | half => cases h
    | string start reversed => exact .inr ⟨[], start, reversed, .nil i _, (Except.error.inj h).symm⟩
  | cons c cs ih =>
    rcases scan_cons_error h with hstep | ⟨s, hstep, hscan⟩
    · cases p with
      | word w => exact .inl ⟨[], c, cs, [], w, rfl, .nil i _, hstep⟩
      | half | string => cases hstep
    · rcases ih hscan with ⟨ys, d, rest, ts, w, rfl, hpasses, hword⟩ |
        ⟨ts, start, reversed, hpasses, he⟩
      · rw [List.head?_append] at hstep
        refine .inl ⟨c :: ys, d, rest, _, w, rfl, .cons hstep hpasses, ?_⟩
        rwa [List.length_cons, Nat.add_comm ys.length, ← Nat.add_assoc]
      · refine .inr ⟨_, start, reversed, .cons ?_ hpasses, he⟩
        rwa [Option.or_none]

/-- A step after which the scan stands in a word is also one at the end of a text. -/
theorem step_end (h : step i p c next = .ok s) (hs : s.pending = .word w) :
    ∃ s' w', step i p c none = .ok s' ∧ s'.pending = .word w' := by
  cases p with
  | half | string => exact ⟨s, w, h, hs⟩
  | word reversed =>
    have hwordChar (hc : isWordChar c = true) :
        ∃ s' w', step i (.word reversed) c none = .ok s' ∧ s'.pending = .word w' := by
      refine ⟨_, if endsKeyword (c :: reversed) none then [] else c :: reversed,
        wordStep_of_wordChar hc i reversed none, ?_⟩
      split <;> rfl
    cases wordStep_outcome h with
    | blank hc =>
      subst hc
      exact ⟨_, [], rfl, rfl⟩
    | wide | quote => cases hs
    | @narrow t hwide hnarrow =>
      have hblank := (narrowSymbol?_plain hnarrow).2
      refine ⟨⟨flush reversed ++ [t], .word []⟩, [], ?_, rfl⟩
      have hnone : wideSymbol? c none = none := rfl
      rw [step, wordStep, if_neg hblank, hnone, hnarrow]
    | number hc => exact hwordChar (by simp [isWordChar, hc])
    | keyword hc | letter hc => exact hwordChar (by simp [isWordChar, hc])

theorem Passes.atEnd (h : Passes next i p xs ts (.word w)) :
    ∃ ts' w', Passes none i p xs ts' (.word w') := by
  generalize hq : Pending.word w = q at h
  induction h with
  | nil i p => exact ⟨[], w, hq ▸ .nil i _⟩
  | @cons i p q c cs s ts hstep hpasses ih =>
    cases cs with
    | nil =>
      cases hpasses
      obtain ⟨s', w', hstep', hs'⟩ := step_end hstep hq.symm
      exact ⟨s'.tokens ++ [], w', .cons hstep' (hs' ▸ .nil _ _)⟩
    | cons d cs =>
      obtain ⟨ts', w', hpasses'⟩ := ih hq
      exact ⟨s.tokens ++ ts', w', .cons hstep hpasses'⟩

/-- What is read before a place in a word is split by itself. -/
theorem Passes.splits (h : Passes next 0 (.word []) xs ts (.word w)) :
    ∃ us, ofText (String.ofList xs) = .ok us := by
  obtain ⟨ts', w', hpasses⟩ := h.atEnd
  have hscan : scan 0 (.word []) (xs ++ []) = _ := hpasses.scan_append rfl
  rw [List.append_nil] at hscan
  rw [ofText, String.toList_ofList, hscan]
  exact ⟨_, rfl⟩

theorem step_string {start : Nat} (h : step i p c next = .ok s)
    (hs : s.pending = .string start reversed) :
    c = '"' ∧ start = i ∧ (∃ w, p = .word w) ∨ c ≠ '"' ∧ ∃ r, p = .string start r := by
  cases p with
  | half =>
    obtain rfl := Except.ok.inj h
    cases hs
  | word w =>
    cases wordStep_outcome h with
    | quote hc =>
      cases hs
      exact .inl ⟨hc, rfl, w, rfl⟩
    | blank | wide | narrow | number | keyword | letter => cases hs
  | string start' r =>
    obtain rfl := Except.ok.inj h
    unfold stringStep at hs
    split at hs
    · cases hs
    · next hc =>
      cases hs
      exact .inr ⟨hc, r, rfl⟩

/-- Where the scan is within a string, this began there, or at the last quote that was read. -/
theorem Passes.opened {start : Nat} (h : Passes next i p xs ts (.string start reversed)) :
    ((∃ r, p = .string start r) ∧ '"' ∉ xs) ∨
      ∃ ys body us w, xs = ys ++ '"' :: body ∧ '"' ∉ body ∧ start = i + ys.length ∧
        Passes (some '"') i p ys us (.word w) := by
  generalize hq : Pending.string start reversed = q at h
  induction h with
  | nil i p => exact .inl ⟨⟨reversed, hq.symm⟩, List.not_mem_nil⟩
  | @cons i p q c cs s ts hstep _ ih =>
    rcases ih hq with ⟨⟨r, hs⟩, hcs⟩ | ⟨ys, body, us, w, rfl, hbody, rfl, hpasses⟩
    · rcases step_string hstep hs with ⟨rfl, rfl, w, rfl⟩ | ⟨hc, hp⟩
      · exact .inr ⟨[], cs, [], w, rfl, hcs, rfl, .nil _ _⟩
      · exact .inl ⟨hp, by simp [Ne.symm hc, hcs]⟩
    · rw [List.head?_append, Option.or_assoc] at hstep
      refine .inr ⟨c :: ys, body, _, w, rfl, hbody, ?_, .cons hstep hpasses⟩
      rw [List.length_cons]
      omega

/-- Exactly the characters with no place in a text are refused in a word. -/
theorem wordStep_error_iff : wordStep i w c next = .error e ↔
    (c ≠ ' ' ∧ c ≠ '"' ∧ narrowSymbol? c = none ∧ isWordChar c = false) ∧
      wideSymbol? c next = none ∧ e = .unknownCharacter c i := by
  constructor
  · intro h
    have hword : isWordChar c = false := by
      apply Bool.eq_false_iff.mpr
      intro hc
      rw [wordStep_of_wordChar hc] at h
      cases h
    have hclasses : isNumberChar c = false ∧ isLetterChar c = false := Bool.or_eq_false_iff.mp hword
    have hblank : c ≠ ' ' := by
      rintro rfl
      cases h
    have hquote : c ≠ '"' := by
      rintro rfl
      rw [wordStep_quote] at h
      cases h
    rw [wordStep, if_neg hblank] at h
    cases hwide : wideSymbol? c next with
    | some symbol => simp [hwide] at h
    | none =>
      cases hnarrow : narrowSymbol? c with
      | some t => simp [hwide, hnarrow] at h
      | none =>
        simp only [hwide, hnarrow, if_neg hquote, hclasses, Bool.false_eq_true, if_false,
          Except.error.injEq] at h
        exact ⟨⟨hblank, hquote, rfl, hword⟩, rfl, h.symm⟩
  · rintro ⟨⟨hblank, hquote, hnarrow, hword⟩, hwide, rfl⟩
    rw [isWordChar, Bool.or_eq_false_iff] at hword
    simp [wordStep, hblank, hquote, hnarrow, hwide, hword]

end Parts

/-- A character is the first of a text that cannot stand where it does. -/
structure UnknownAt (text : String) (c : Char) (p : Nat) : Prop where
  found : text.toList[p]? = some c
  character : c ∉ [' ', '.', '-', '_', '(', ')', '<', '>', '"'] ∧ c.isDigit = false ∧
    isAlphabetic c = false
  symbol : ∀ symbol ∈ ["==", "!=", ">=", "<="], ¬ symbol.toList <+: text.toList.drop p
  before : ∃ ts, ofText (String.ofList (text.toList.take p)) = .ok ts
  stays : ∀ other : String, text.toList.take (p + 1) <+: other.toList →
    ¬ ((c = '=' ∨ c = '!') ∧ other.toList[p + 1]? = some '=') →
    ofText other = .error (.unknownCharacter c p)

/-- A quote is the last of a text, and opens a string. -/
structure UnterminatedAt (text : String) (p : Nat) : Prop where
  found : text.toList[p]? = some '"'
  last : '"' ∉ text.toList.drop (p + 1)
  before : ∃ ts, ofText (String.ofList (text.toList.take p)) = .ok ts

theorem not_mem_of_refused {c : Char} (hblank : c ≠ ' ') (hquote : c ≠ '"')
    (hnarrow : narrowSymbol? c = none) (hword : isWordChar c = false) :
    c ∉ [' ', '.', '-', '_', '(', ')', '<', '>', '"'] ∧ c.isDigit = false ∧ isAlphabetic c = false := by
  have hall : ([' ', '.', '-', '_', '(', ')', '<', '>', '"'].all fun c =>
      c == ' ' || c == '"' || (narrowSymbol? c).isSome || isWordChar c) = true := by decide
  refine ⟨fun hmem => ?_, ?_, ?_⟩
  · have hplace := List.all_eq_true.mp hall c hmem
    simp [hblank, hquote, hnarrow, hword] at hplace
  all_goals simp_all [isWordChar, isNumberChar, isLetterChar]

theorem not_prefix_of_wideSymbol? {c : Char} {rest : List Char}
    (hwide : wideSymbol? c rest.head? = none) :
    ∀ symbol ∈ ["==", "!=", ">=", "<="], ¬ symbol.toList <+: c :: rest := by
  have hall : ∀ symbol ∈ ["==", "!=", ">=", "<="], symbol.toList.tail = ['='] ∧
      (symbol.toList.head?.all fun a => (wideSymbol? a (some '=')).isSome) = true := by decide
  rintro symbol hmem ⟨others, hprefix⟩
  obtain ⟨htail, hhead⟩ := hall symbol hmem
  cases htext : symbol.toList with
  | nil => simp [htext] at htail
  | cons a text =>
    rw [htext] at htail hhead hprefix
    obtain rfl : text = ['='] := htail
    obtain ⟨rfl, rfl⟩ := List.cons.inj hprefix
    have hnone : wideSymbol? a (some '=') = none := hwide
    simp [hnone] at hhead

/-- What stands before the character is split, and only a symbol that begins with it could follow. -/
theorem Passes.unknownAt {text : String} {xs rest w : List Char} {ts : List Token} {c : Char}
    {e : ConditionError} (htext : text.toList = xs ++ c :: rest)
    (hpasses : Passes (some c) 0 (.word []) xs ts (.word w))
    (hword : wordStep (0 + xs.length) w c rest.head? = .error e) :
    e = .unknownCharacter c xs.length ∧ UnknownAt text c xs.length := by
  rw [Nat.zero_add] at hword
  obtain ⟨hrefused, hwide, rfl⟩ := wordStep_error_iff.mp hword
  obtain ⟨hblank, hquote, hnarrow, hnot⟩ := hrefused
  refine ⟨rfl, ⟨by simp [htext], not_mem_of_refused hblank hquote hnarrow hnot, ?_, ?_, ?_⟩⟩
  · rw [htext, List.drop_left]
    exact not_prefix_of_wideSymbol? hwide
  · rw [htext, List.take_left]
    exact hpasses.splits
  · rintro other ⟨others, hother⟩ hexempt
    have htake : text.toList.take (xs.length + 1) = xs ++ [c] := by
      rw [htext, List.take_length_add_append, List.take_one, List.head?_cons]
      rfl
    rw [htake, List.append_assoc, List.singleton_append] at hother
    have hnext : other.toList[xs.length + 1]? = others.head? := by
      rw [← hother, List.getElem?_append_right (Nat.le_add_right _ 1), Nat.add_sub_cancel_left,
        List.getElem?_cons_succ, List.head?_eq_getElem?]
    have hwide' : wideSymbol? c others.head? = none := by
      rw [hnext] at hexempt
      unfold narrowSymbol? at hnarrow
      unfold wideSymbol?
      grind
    have hstep : wordStep xs.length w c others.head? = .error (.unknownCharacter c xs.length) :=
      wordStep_error_iff.mpr ⟨⟨hblank, hquote, hnarrow, hnot⟩, hwide', rfl⟩
    have hscan : scan 0 (.word []) (xs ++ c :: others) = _ := hpasses.scan_append rfl
    rw [Nat.zero_add, scan, step, hstep] at hscan
    rw [ofText, ← hother, hscan]
    rfl

theorem Passes.unterminatedAt {text : String} {reversed : List Char} {ts : List Token} {start : Nat}
    (h : Passes none 0 (.word []) text.toList ts (.string start reversed)) :
    UnterminatedAt text start := by
  rcases h.opened with ⟨⟨r, hword⟩, -⟩ | ⟨ys, body, us, w, htext, hbody, rfl, hpasses⟩
  · cases hword
  rw [Nat.zero_add]
  refine ⟨by simp [htext], ?_, ?_⟩
  · have hdrop : text.toList.drop (ys.length + 1) = body := by simp [htext, List.drop_append]
    rwa [hdrop]
  · rw [htext, List.take_left]
    exact hpasses.splits

/-- Quotes come in pairs, one at each end of a string. -/
theorem Lexes.even_quotes {cs : List Char} {ts : List Token} (h : Lexes cs ts) :
    Even (cs.count '"') := by
  induction h with
  | nil => exact Even.zero
  | blank _ ih => simpa using ih
  | @wide c symbol cs ts hsymbol _ ih =>
    simpa [(wideSymbol?_plain hsymbol).1] using ih
  | @narrow c t cs ts _ hnarrow _ ih =>
    simpa [(narrowSymbol?_plain hnarrow).1] using ih
  | @string body cs ts hbody _ ih =>
    have hcount : ('"' :: (body ++ '"' :: cs)).count '"' = cs.count '"' + 2 := by
      simp [List.count_eq_zero.mpr hbody]
    rw [hcount]
    exact ih.add (by decide)
  | @word w cs ts hw _ ih =>
    have hquote : '"' ∉ w := fun hmem => (hw.plain _ hmem).1 rfl
    rwa [List.count_append, List.count_eq_zero.mpr hquote, Nat.zero_add]

/-- Every text is either split, and has its quotes in pairs, or refused: at the first character that
cannot stand where it does, or at a quote that is not closed. -/
theorem ofText_outcome (text : String) :
    match ofText text with
    | .ok _ => Even (text.toList.count '"')
    | .error (.unknownCharacter c p) => UnknownAt text c p
    | .error (.unterminatedString p) => UnterminatedAt text p
    | .error _ => False := by
  cases h : ofText text with
  | ok ts => exact (lexes_iff.mpr h).even_quotes
  | error e =>
    rcases scan_error h with ⟨xs, c, rest, ts, w, htext, hpasses, hword⟩ |
      ⟨ts, start, reversed, hpasses, rfl⟩
    · obtain ⟨rfl, hat⟩ := hpasses.unknownAt htext hword
      exact hat
    · exact hpasses.unterminatedAt

example : ofText "a = \"b\"" = .error (.unknownCharacter '=' 2) := by decide

end Workflow.Token

import Workflow.Proofs.Condition.Spacing

/-!
# Texts as sequences of lexemes

A text that is split into tokens is a sequence of blanks, symbols, strings and words, and each of
these but the blanks is a token. A word ends in front of a character that does not go on with it, or
behind a keyword that ends there. A symbol of one character is none of the first halves of a symbol
of two. The scan, which reads one character after the other, splits exactly the texts that are such
sequences, and it splits them into the tokens of the sequence.
-/

set_option autoImplicit false

namespace Workflow.Token

def ofString (body : List Char) : Token := ⟨.string, String.ofList ('"' :: body ++ ['"'])⟩

/-- A character that goes on with a word. -/
def isWordChar (c : Char) : Bool := isNumberChar c || isLetterChar c

/-- What is left of a word behind a beginning of it, which is given with its last character first. -/
inductive WordRest : List Char → List Char → Option Char → Prop where
  | boundary {reversed : List Char} {next : Option Char} :
    reversed ≠ [] → (∀ c ∈ next, isWordChar c = false) → WordRest reversed [] next
  | keyword {reversed : List Char} {c : Char} {next : Option Char} :
    isLetterChar c = true → endsKeyword (c :: reversed) next = true → WordRest reversed [c] next
  | more {reversed rest : List Char} {c : Char} {next : Option Char} :
    isWordChar c = true → endsKeyword (c :: reversed) (rest.head?.or next) = false →
    WordRest (c :: reversed) rest next → WordRest reversed (c :: rest) next

/-- A sequence of lexemes with its tokens. -/
inductive Lexes : List Char → List Token → Prop where
  | nil : Lexes [] []
  | blank {cs : List Char} {ts : List Token} : Lexes cs ts → Lexes (' ' :: cs) ts
  | wide {c : Char} {symbol : String} {cs : List Char} {ts : List Token} :
    wideSymbol? c (some '=') = some symbol → Lexes cs ts →
    Lexes (c :: '=' :: cs) (ofSymbol symbol :: ts)
  | narrow {c : Char} {t : Token} {cs : List Char} {ts : List Token} :
    wideSymbol? c cs.head? = none → narrowSymbol? c = some t → Lexes cs ts →
    Lexes (c :: cs) (t :: ts)
  | string {body cs : List Char} {ts : List Token} :
    '"' ∉ body → Lexes cs ts → Lexes ('"' :: (body ++ '"' :: cs)) (ofString body :: ts)
  | word {w cs : List Char} {ts : List Token} :
    WordRest [] w cs.head? → Lexes cs ts → Lexes (w ++ cs) (ofWord w :: ts)

theorem wideSymbol?_spells {c : Char} {next : Option Char} {symbol : String}
    (h : wideSymbol? c next = some symbol) :
    next = some '=' ∧ isWordChar c = false ∧ symbol = String.ofList [c, '='] := by
  have hc : next = some '=' ∧ (c = '=' ∨ c = '!' ∨ c = '>' ∨ c = '<') := by
    unfold wideSymbol? at h
    grind
  obtain ⟨rfl, rfl | rfl | rfl | rfl⟩ := hc
  all_goals
    obtain rfl := Option.some.inj h
    exact ⟨rfl, by decide, by decide⟩

theorem narrowSymbol?_spells {c : Char} {t : Token} (h : narrowSymbol? c = some t) :
    isWordChar c = false ∧ t.text = String.ofList [c] := by
  have hc : c = '>' ∨ c = '<' ∨ c = '(' ∨ c = ')' := by
    unfold narrowSymbol? at h
    grind
  rcases hc with rfl | rfl | rfl | rfl
  all_goals
    obtain rfl := Option.some.inj h
    exact ⟨by decide, by decide⟩

theorem wideSymbol?_of_wordChar {c : Char} (h : isWordChar c = true) (next : Option Char) :
    wideSymbol? c next = none := by
  apply Option.eq_none_iff_forall_ne_some.mpr
  intro symbol hsymbol
  obtain ⟨-, hnot, -⟩ := wideSymbol?_spells hsymbol
  simp [hnot] at h

theorem narrowSymbol?_of_wordChar {c : Char} (h : isWordChar c = true) : narrowSymbol? c = none := by
  apply Option.eq_none_iff_forall_ne_some.mpr
  intro t ht
  obtain ⟨hnot, -⟩ := narrowSymbol?_spells ht
  simp [hnot] at h

theorem plain_of_wordChar {c : Char} (h : isWordChar c = true) : c ≠ '"' ∧ c ≠ ' ' := by
  constructor
  all_goals
    rintro rfl
    exact absurd h (by decide)

theorem wideSymbol?_plain {c : Char} {next : Option Char} {symbol : String}
    (h : wideSymbol? c next = some symbol) : c ≠ '"' ∧ c ≠ ' ' := by
  obtain ⟨rfl, -, -⟩ := wideSymbol?_spells h
  constructor
  all_goals
    rintro rfl
    cases h

theorem narrowSymbol?_plain {c : Char} {t : Token} (h : narrowSymbol? c = some t) :
    c ≠ '"' ∧ c ≠ ' ' := by
  constructor
  all_goals
    rintro rfl
    cases h

theorem isKeyword_iff {w : List Char} : isKeyword w = true ↔ w ∈ operatorWords ++ truthWords := by
  simp only [isKeyword, Bool.or_eq_true, List.contains_iff_mem, List.mem_append]

theorem endsKeyword_iff {reversed : List Char} {next : Option Char} :
    endsKeyword reversed next = true ↔
      isKeyword reversed.reverse = true ∧ ∀ c ∈ next, isAlphanumeric c = false := by
  unfold endsKeyword
  cases next <;> simp [and_comm]

/-- No keyword ends with a digit or a point. -/
theorem endsKeyword_of_numberChar {c : Char} (h : isNumberChar c = true) (reversed : List Char)
    (next : Option Char) : endsKeyword (c :: reversed) next = false := by
  have hall : ∀ w ∈ operatorWords ++ truthWords, w.getLast?.all (!isNumberChar ·) = true := by decide
  apply Bool.eq_false_iff.mpr
  intro hend
  obtain ⟨hkeyword, -⟩ := endsKeyword_iff.mp hend
  have hnot := hall (c :: reversed).reverse (isKeyword_iff.mp hkeyword)
  have hlast : (c :: reversed).reverse.getLast? = some c := by simp
  rw [hlast] at hnot
  simp [h] at hnot

theorem isLetterChar_of_endsKeyword {c : Char} {reversed : List Char} {next : Option Char}
    (hc : isWordChar c = true) (h : endsKeyword (c :: reversed) next = true) :
    isLetterChar c = true := by
  cases hletter : isLetterChar c with
  | true => rfl
  | false =>
    have hnumber : isNumberChar c = true := by simpa [isWordChar, hletter] using hc
    rw [endsKeyword_of_numberChar hnumber] at h
    cases h

/-- A character of a word is added to the word, which may then be a keyword that ends. -/
theorem wordStep_of_wordChar {c : Char} (h : isWordChar c = true) (position : Nat)
    (reversed : List Char) (next : Option Char) : wordStep position reversed c next =
      .ok (if endsKeyword (c :: reversed) next then ⟨flush (c :: reversed), .word []⟩
        else ⟨[], .word (c :: reversed)⟩) := by
  obtain ⟨hquote, hblank⟩ := plain_of_wordChar h
  unfold wordStep
  rw [if_neg hblank, wideSymbol?_of_wordChar h, narrowSymbol?_of_wordChar h]
  dsimp only
  rw [if_neg hquote]
  by_cases hnumber : isNumberChar c = true
  · simp [hnumber, endsKeyword_of_numberChar hnumber]
  · have hletter : isLetterChar c = true := by simpa [isWordChar, hnumber] using h
    by_cases hend : endsKeyword (c :: reversed) next = true <;> simp [hnumber, hletter, hend]

/-- Any other character ends the word. -/
theorem wordStep_of_not_wordChar {position : Nat} {c : Char} {next : Option Char} {s : Step}
    (hc : isWordChar c = false) (h : wordStep position [] c next = .ok s) (reversed : List Char) :
    wordStep position reversed c next = .ok ⟨flush reversed ++ s.tokens, s.pending⟩ := by
  have hclasses : isNumberChar c = false ∧ isLetterChar c = false := Bool.or_eq_false_iff.mp hc
  unfold wordStep at h ⊢
  split at h
  · next hblank =>
    obtain rfl := Except.ok.inj h
    rw [if_pos hblank, flush, List.append_nil]
  next hblank =>
  rw [if_neg hblank]
  split at h
  · next symbol hsymbol =>
    obtain rfl := Except.ok.inj h
    rfl
  next hwide =>
  split at h
  · next t ht =>
    obtain rfl := Except.ok.inj h
    rfl
  next hnarrow =>
  split at h
  · next hquote =>
    obtain rfl := Except.ok.inj h
    rw [if_pos hquote, flush, List.append_nil]
  · simp [hclasses] at h

namespace WordRest
variable {reversed w : List Char} {next : Option Char}

theorem wordChars (h : WordRest reversed w next) : ∀ c ∈ w, isWordChar c = true := by
  induction h with
  | boundary => simp
  | keyword hletter => simp [isWordChar, hletter]
  | more hc _ _ ih => exact List.forall_mem_cons.mpr ⟨hc, ih⟩

theorem ne_nil (h : WordRest [] w next) : w ≠ [] := by
  cases h with
  | boundary hne => exact absurd rfl hne
  | keyword | more => exact List.cons_ne_nil _ _

theorem plain (h : WordRest reversed w next) : ∀ c ∈ w, c ≠ '"' ∧ c ≠ ' ' :=
  fun c hc => plain_of_wordChar (h.wordChars c hc)

end WordRest

section Complete
variable {cs w reversed : List Char} {ts : List Token}

/-- Where the word ends, the text behind it is split as if it stood alone. -/
theorem Splits.behind_word (h : Splits cs ts) (hcs : ∀ c ∈ cs.head?, isWordChar c = false)
    (reversed : List Char) (i : Nat) : scan i (.word reversed) cs = .ok (flush reversed ++ ts) := by
  cases cs with
  | nil =>
    obtain rfl := Except.ok.inj (h i)
    rw [flush, List.append_nil, scan]
  | cons c cs =>
    obtain ⟨s, us, hstep, hscan, rfl⟩ := scan_cons (h i)
    have hstep' : step i (.word reversed) c cs.head? = _ :=
      wordStep_of_not_wordChar (hcs c rfl) hstep reversed
    rw [← List.append_assoc]
    exact scan_cons_ok hstep' hscan

theorem WordRest.scan_append (hw : WordRest reversed w cs.head?) (h : Splits cs ts) (i : Nat) :
    scan i (.word reversed) (w ++ cs) = .ok (ofWord (reversed.reverse ++ w) :: ts) := by
  generalize hnext : cs.head? = next at hw
  induction hw generalizing i with
  | @boundary reversed next hne hend =>
    obtain ⟨c, rest, rfl⟩ := List.exists_cons_of_ne_nil hne
    simpa [flush] using h.behind_word (hnext ▸ hend) (c :: rest) i
  | @keyword reversed c next hletter hkeyword =>
    have hc : isWordChar c = true := by simp [isWordChar, hletter]
    have hstep : step i (.word reversed) c cs.head? = .ok ⟨flush (c :: reversed), .word []⟩ := by
      rw [step, wordStep_of_wordChar hc, hnext, hkeyword, if_pos rfl]
    have hscan := scan_cons_ok hstep (h (i + 1))
    simpa [flush] using hscan
  | @more reversed rest c next hc hkeyword _ ih =>
    have hstep : step i (.word reversed) c (rest ++ cs).head? = .ok ⟨[], .word (c :: reversed)⟩ := by
      rw [step, wordStep_of_wordChar hc, List.head?_append, hnext, hkeyword]
      rfl
    have hscan := scan_cons_ok hstep (ih (i + 1) hnext)
    simpa using hscan

theorem scan_string {body : List Char} (hbody : '"' ∉ body) (h : Splits cs ts) (start i : Nat)
    (reversed : List Char) : scan i (.string start reversed) (body ++ '"' :: cs) =
      .ok (⟨.string, String.ofList (reversed.reverse ++ body ++ ['"'])⟩ :: ts) := by
  induction body generalizing i reversed with
  | nil =>
    have hstep : step i (.string start reversed) '"' cs.head? =
      .ok ⟨[⟨.string, String.ofList ('"' :: reversed).reverse⟩], .word []⟩ := rfl
    have hscan := scan_cons_ok hstep (h (i + 1))
    simpa using hscan
  | cons c body ih =>
    obtain ⟨hc, hbody⟩ := not_or.mp (mt List.mem_cons.mpr hbody)
    have hstep : step i (.string start reversed) c (body ++ '"' :: cs).head? =
        .ok ⟨[], .string start (c :: reversed)⟩ := by
      rw [step, stringStep, if_neg (Ne.symm hc)]
    have hscan := scan_cons_ok hstep (ih hbody (i + 1) (c :: reversed))
    simpa using hscan

theorem Lexes.splits (h : Lexes cs ts) : Splits cs ts := by
  induction h with
  | nil => exact fun _ => rfl
  | @blank cs ts _ ih =>
    intro i
    have hstep : step i (.word []) ' ' cs.head? = .ok ⟨[], .word []⟩ := rfl
    exact scan_cons_ok hstep (ih (i + 1))
  | @wide c symbol cs ts hsymbol _ ih =>
    intro i
    have hc := (wideSymbol?_plain hsymbol).2
    have hstep : step i (.word []) c (some '=') = .ok ⟨[ofSymbol symbol], .half⟩ := by
      rw [step, wordStep, if_neg hc, hsymbol]
      rfl
    have hhalf : step (i + 1) .half '=' cs.head? = .ok ⟨[], .word []⟩ := rfl
    exact scan_cons_ok hstep (scan_cons_ok hhalf (ih (i + 2)))
  | @narrow c t cs ts hwide hnarrow _ ih =>
    intro i
    have hc := (narrowSymbol?_plain hnarrow).2
    have hstep : step i (.word []) c cs.head? = .ok ⟨[t], .word []⟩ := by
      rw [step, wordStep, if_neg hc, hwide, hnarrow]
      rfl
    exact scan_cons_ok hstep (ih (i + 1))
  | @string body cs ts hbody _ ih =>
    intro i
    have hstep : step i (.word []) '"' (body ++ '"' :: cs).head? = .ok ⟨[], .string i ['"']⟩ :=
      wordStep_quote i [] _
    exact scan_cons_ok hstep (scan_string hbody ih i (i + 1) ['"'])
  | word hw _ ih => exact hw.scan_append ih

end Complete

/-- What a scan that stands at a place still reads, and the tokens it gives from there. -/
def Pending.Resumes : Pending → List Char → List Token → Prop
  | .word reversed, cs, ts =>
    (reversed = [] ∧ Lexes cs ts) ∨ ∃ w rest us, cs = w ++ rest ∧
      WordRest reversed w rest.head? ∧ Lexes rest us ∧ ts = ofWord (reversed.reverse ++ w) :: us
  | .half, cs, ts => Lexes cs.tail ts
  | .string _ reversed, cs, ts =>
    ∃ body rest us, '"' ∉ body ∧ cs = body ++ '"' :: rest ∧ Lexes rest us ∧
      ts = ⟨.string, String.ofList (reversed.reverse ++ body ++ ['"'])⟩ :: us

section Sound
variable {cs reversed : List Char} {ts : List Token}

theorem Pending.Resumes.lexes (h : (Pending.word []).Resumes cs ts) : Lexes cs ts := by
  rcases h with ⟨-, h⟩ | ⟨w, rest, us, rfl, hw, hrest, rfl⟩
  · exact h
  · exact .word hw hrest

theorem Lexes.resumes (h : Lexes cs ts) (hcs : ∀ c ∈ cs.head?, isWordChar c = false)
    (reversed : List Char) : (Pending.word reversed).Resumes cs (flush reversed ++ ts) := by
  cases reversed with
  | nil => exact .inl ⟨rfl, h⟩
  | cons c rest =>
    refine .inr ⟨[], cs, ts, rfl, .boundary (List.cons_ne_nil c rest) hcs, h, ?_⟩
    rw [List.append_nil]
    rfl

theorem WordOutcome.resumes {position : Nat} {c : Char} {s : Step}
    (h : WordOutcome position reversed c cs.head? s) (hs : s.pending.Resumes cs ts) :
    (Pending.word reversed).Resumes (c :: cs) (s.tokens ++ ts) := by
  cases h with
  | blank hc =>
    subst hc
    exact hs.lexes.blank.resumes (by simp; decide) reversed
  | wide hsymbol =>
    obtain ⟨hnext, hnot, -⟩ := wideSymbol?_spells hsymbol
    obtain ⟨rest, rfl⟩ := List.head?_eq_some_iff.mp hnext
    rw [List.append_assoc]
    exact (Lexes.wide hsymbol hs).resumes (by simpa using hnot) reversed
  | narrow hwide hnarrow =>
    obtain ⟨hnot, -⟩ := narrowSymbol?_spells hnarrow
    rw [List.append_assoc]
    exact (Lexes.narrow hwide hnarrow hs.lexes).resumes (by simpa using hnot) reversed
  | quote hc =>
    subst hc
    obtain ⟨body, rest, us, hbody, rfl, hrest, rfl⟩ := hs
    exact (Lexes.string hbody hrest).resumes (by simp; decide) reversed
  | number hc =>
    rcases hs with ⟨hnil, -⟩ | ⟨w, rest, us, rfl, hw, hrest, rfl⟩
    · cases hnil
    · refine .inr ⟨c :: w, rest, us, rfl, .more ?_ (endsKeyword_of_numberChar hc _ _) hw, hrest, ?_⟩
      · simp [isWordChar, hc]
      · simp
  | keyword hc hkeyword =>
    refine .inr ⟨[c], cs, ts, rfl, .keyword hc hkeyword, hs.lexes, ?_⟩
    simp [flush]
  | letter hc hkeyword =>
    rcases hs with ⟨hnil, -⟩ | ⟨w, rest, us, rfl, hw, hrest, rfl⟩
    · cases hnil
    · rw [List.head?_append] at hkeyword
      refine .inr ⟨c :: w, rest, us, rfl, .more ?_ hkeyword hw, hrest, ?_⟩
      · simp [isWordChar, hc]
      · simp

theorem stringStep_resumes {start : Nat} {c : Char}
    (hs : (stringStep start reversed c).pending.Resumes cs ts) :
    (Pending.string start reversed).Resumes (c :: cs) ((stringStep start reversed c).tokens ++ ts) := by
  unfold stringStep at hs ⊢
  split at hs
  · next hc =>
    subst hc
    exact ⟨[], cs, ts, List.not_mem_nil, rfl, hs.lexes, by simp⟩
  · next hc =>
    rw [if_neg hc]
    obtain ⟨body, rest, us, hbody, rfl, hrest, rfl⟩ := hs
    exact ⟨c :: body, rest, us, by simp [Ne.symm hc, hbody], rfl, hrest, by simp⟩

theorem scan_resumes {i : Nat} {pending : Pending} (h : scan i pending cs = .ok ts) :
    pending.Resumes cs ts := by
  induction cs generalizing i pending ts with
  | nil =>
    cases pending with
    | word reversed =>
      obtain rfl := Except.ok.inj h
      rw [← List.append_nil (flush reversed)]
      exact Lexes.nil.resumes (by simp) reversed
    | half =>
      obtain rfl := Except.ok.inj h
      exact .nil
    | string => cases h
  | cons c cs ih =>
    obtain ⟨s, us, hstep, hscan, rfl⟩ := scan_cons h
    have hs := ih hscan
    cases pending with
    | word reversed => exact (wordStep_outcome hstep).resumes hs
    | half =>
      obtain rfl := Except.ok.inj hstep
      exact hs.lexes
    | string start reversed =>
      obtain rfl := Except.ok.inj hstep
      exact stringStep_resumes hs

end Sound

theorem lexes_iff {text : String} {ts : List Token} :
    Lexes text.toList ts ↔ ofText text = .ok ts :=
  ⟨fun h => h.splits 0, fun h => (scan_resumes h).lexes⟩

end Workflow.Token

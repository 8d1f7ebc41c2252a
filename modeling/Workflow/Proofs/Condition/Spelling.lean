import Workflow.Proofs.Condition.Lexeme
import Workflow.Proofs.Condition.Postfix

/-!
# How tokens are spelled

The tokens of a text spell it but for the blanks outside of strings, and each kind of token has its
own spelling, which is read as this token wherever it stands between blanks. So tokens may be written
one behind the other with blanks between them, and the text is split into the same tokens again.
-/

set_option autoImplicit false

namespace Workflow.Token

/-- The spelling that a token of each kind has. -/
structure WellSpelled (t : Token) : Prop where
  nonempty : t.text ≠ ""
  quoted : t.kind = .string → ∃ body, '"' ∉ body ∧ t.text.toList = '"' :: body ++ ['"']
  bare : t.kind ≠ .string → '"' ∉ t.text.toList ∧ ' ' ∉ t.text.toList
  operator : t.kind = .operator → t.text ∈ operatorTexts
  literal : t.kind = .literal →
    t.text = "true" ∨ t.text = "false" ∨ ∀ c ∈ t.text.toList, c.isDigit = true ∨ c = '.'

theorem wellSpelled_ofSymbol {symbol : String} (h : symbol ∈ operatorTexts) :
    (ofSymbol symbol).WellSpelled := by
  have hall : ∀ symbol ∈ operatorTexts,
      symbol ≠ "" ∧ '"' ∉ symbol.toList ∧ ' ' ∉ symbol.toList := by decide
  obtain ⟨hne, hplain⟩ := hall symbol h
  exact ⟨hne, (nomatch ·), fun _ => hplain, fun _ => h, (nomatch ·)⟩

theorem wellSpelled_paren {t : Token} (h : t ∈ [leftParen, rightParen]) : t.WellSpelled := by
  have hall : ∀ t ∈ [leftParen, rightParen], t.text ≠ "" ∧ ('"' ∉ t.text.toList ∧ ' ' ∉ t.text.toList) ∧
      t.kind ≠ .string ∧ t.kind ≠ .operator ∧ t.kind ≠ .literal := by decide
  obtain ⟨hne, hplain, hstring, hoperator, hliteral⟩ := hall t h
  exact ⟨hne, fun hkind => absurd hkind hstring, fun _ => hplain,
    fun hkind => absurd hkind hoperator, fun hkind => absurd hkind hliteral⟩

theorem wellSpelled_narrowSymbol {c : Char} {t : Token} (h : narrowSymbol? c = some t) :
    t.WellSpelled := by
  have hmem : t = ofSymbol ">" ∨ t = ofSymbol "<" ∨ t ∈ [leftParen, rightParen] := by
    unfold narrowSymbol? at h
    grind
  rcases hmem with rfl | rfl | hparen
  · exact wellSpelled_ofSymbol (by decide)
  · exact wellSpelled_ofSymbol (by decide)
  · exact wellSpelled_paren hparen

theorem wellSpelled_ofString {body : List Char} (h : '"' ∉ body) : (ofString body).WellSpelled := by
  refine ⟨?_, fun _ => ⟨body, h, String.toList_ofList⟩, fun hkind => absurd rfl hkind,
    (nomatch ·), (nomatch ·)⟩
  intro hempty
  have := congrArg String.toList hempty
  simp [ofString] at this

/-- A literal is one of the truth values, or it is made of digits and points alone. -/
theorem literal_ofWord {w : List Char} (h : wordKind w = .literal) :
    w ∈ truthWords ∨ ∀ c ∈ w, isNumberChar c = true := by
  unfold wordKind at h
  split at h
  · cases h
  · split at h
    · next hliteral =>
      rw [Bool.or_eq_true, List.contains_iff_mem, List.all_eq_true] at hliteral
      exact hliteral
    · cases h

theorem wellSpelled_ofWord {w : List Char} {next : Option Char} (h : WordRest [] w next) :
    (ofWord w).WellSpelled := by
  have htext : (ofWord w).text.toList = w := String.toList_ofList
  have htruth : ∀ w ∈ truthWords, String.ofList w = "true" ∨ String.ofList w = "false" := by decide
  constructor
  case nonempty =>
    intro hempty
    rw [hempty] at htext
    exact h.ne_nil htext.symm
  case quoted =>
    intro hkind
    change wordKind w = .string at hkind
    unfold wordKind at hkind
    split at hkind
    · cases hkind
    · split at hkind <;> cases hkind
  case bare =>
    intro _
    rw [htext]
    exact ⟨fun hmem => (h.plain _ hmem).1 rfl, fun hmem => (h.plain _ hmem).2 rfl⟩
  case operator => exact isKnown_ofWord w
  case literal =>
    intro hkind
    rw [htext]
    rcases literal_ofWord hkind with hmem | hnumber
    · rcases htruth w hmem with htrue | hfalse
      · exact .inl htrue
      · exact .inr (.inl hfalse)
    · refine .inr (.inr fun c hc => ?_)
      simpa [isNumberChar] using hnumber c hc

section Lexes
variable {cs : List Char} {ts : List Token}

theorem Lexes.wellSpelled (h : Lexes cs ts) : ∀ t ∈ ts, t.WellSpelled := by
  induction h with
  | nil => simp
  | blank _ ih => exact ih
  | wide hsymbol _ ih =>
    exact List.forall_mem_cons.mpr ⟨wellSpelled_ofSymbol (wideSymbol?_mem hsymbol), ih⟩
  | narrow _ hnarrow _ ih => exact List.forall_mem_cons.mpr ⟨wellSpelled_narrowSymbol hnarrow, ih⟩
  | string hbody _ ih => exact List.forall_mem_cons.mpr ⟨wellSpelled_ofString hbody, ih⟩
  | word hw _ ih => exact List.forall_mem_cons.mpr ⟨wellSpelled_ofWord hw, ih⟩

/-- The characters of a text, of which the beginning may be within a string, without the blanks
outside of strings. -/
def unspacedFrom (quoted : Bool) : List Char → List Char
  | [] => []
  | c :: cs =>
    if c = '"' then c :: unspacedFrom (!quoted) cs
    else if c = ' ' ∧ quoted = false then unspacedFrom quoted cs
    else c :: unspacedFrom quoted cs

def unspaced (text : String) : String := String.ofList (unspacedFrom false text.toList)

theorem unspacedFrom_plain {w : List Char} (hw : ∀ c ∈ w, c ≠ '"' ∧ c ≠ ' ') (cs : List Char) :
    unspacedFrom false (w ++ cs) = w ++ unspacedFrom false cs := by
  induction w with
  | nil => rfl
  | cons c w ih =>
    obtain ⟨⟨hquote, hblank⟩, hw⟩ := List.forall_mem_cons.mp hw
    simp [unspacedFrom, hquote, hblank, ih hw]

theorem unspacedFrom_quoted {body : List Char} (hbody : '"' ∉ body) (cs : List Char) :
    unspacedFrom true (body ++ '"' :: cs) = body ++ '"' :: unspacedFrom false cs := by
  induction body with
  | nil => rfl
  | cons c body ih =>
    obtain ⟨hc, hbody⟩ := not_or.mp (mt List.mem_cons.mpr hbody)
    simp [unspacedFrom, Ne.symm hc, ih hbody]

/-- The tokens spell the text. -/
theorem Lexes.unspacedFrom_eq (h : Lexes cs ts) :
    unspacedFrom false cs = ts.flatMap fun t => t.text.toList := by
  induction h with
  | nil => rfl
  | blank _ ih => exact ih
  | @wide c symbol cs ts hsymbol _ ih =>
    have hplain : ∀ d ∈ [c, '='], d ≠ '"' ∧ d ≠ ' ' := List.forall_mem_cons.mpr
      ⟨wideSymbol?_plain hsymbol, List.forall_mem_singleton.mpr (by decide)⟩
    obtain ⟨-, -, rfl⟩ := wideSymbol?_spells hsymbol
    have hunspaced := unspacedFrom_plain hplain cs
    rw [List.flatMap_cons, ← ih, ofSymbol, String.toList_ofList, ← hunspaced]
    rfl
  | @narrow c t cs ts _ hnarrow _ ih =>
    have hunspaced := unspacedFrom_plain (List.forall_mem_singleton.mpr (narrowSymbol?_plain hnarrow)) cs
    rw [List.flatMap_cons, ← ih, (narrowSymbol?_spells hnarrow).2, String.toList_ofList, ← hunspaced]
    rfl
  | @string body cs ts hbody _ ih =>
    rw [List.flatMap_cons, ← ih]
    simp [unspacedFrom, unspacedFrom_quoted hbody, ofString]
  | @word w cs ts hw _ ih =>
    rw [List.flatMap_cons, ← ih, unspacedFrom_plain hw.plain]
    simp [ofWord]

/-- A word is the same one at the end of a text. -/
theorem WordRest.alone {reversed w : List Char} {next : Option Char}
    (h : WordRest reversed w next) : WordRest reversed w none := by
  induction h with
  | boundary hne => exact .boundary hne (by simp)
  | keyword hletter hend =>
    obtain ⟨hkeyword, -⟩ := endsKeyword_iff.mp hend
    exact .keyword hletter (endsKeyword_iff.mpr ⟨hkeyword, by simp⟩)
  | @more reversed rest c next hc hend hrest ih =>
    cases rest with
    | cons d rest => exact .more hc hend ih
    | nil =>
      -- what follows may have kept a keyword from ending
      cases halone : endsKeyword (c :: reversed) none with
      | false => exact .more hc halone ih
      | true => exact .keyword (isLetterChar_of_endsKeyword hc halone) halone

theorem Lexes.alone (h : Lexes cs ts) : ∀ t ∈ ts, Lexes t.text.toList [t] := by
  induction h with
  | nil => simp
  | blank _ ih => exact ih
  | wide hsymbol _ ih =>
    refine List.forall_mem_cons.mpr ⟨?_, ih⟩
    obtain ⟨-, -, rfl⟩ := wideSymbol?_spells hsymbol
    rw [ofSymbol, String.toList_ofList]
    exact .wide hsymbol .nil
  | narrow _ hnarrow _ ih =>
    refine List.forall_mem_cons.mpr ⟨?_, ih⟩
    rw [(narrowSymbol?_spells hnarrow).2, String.toList_ofList]
    exact .narrow rfl hnarrow .nil
  | string hbody _ ih =>
    refine List.forall_mem_cons.mpr ⟨?_, ih⟩
    rw [ofString, String.toList_ofList]
    exact .string hbody .nil
  | @word w cs ts hw _ ih =>
    refine List.forall_mem_cons.mpr ⟨?_, ih⟩
    have hword : Lexes (w ++ []) [ofWord w] := .word hw.alone .nil
    have htext : (ofWord w).text.toList = w := String.toList_ofList
    rw [List.append_nil] at hword
    rwa [htext]

end Lexes

/-- Tokens written one behind the other with a blank between any two. -/
def respaced (ts : List Token) : String := String.intercalate " " (ts.map (·.text))

theorem respaced_splits {ts : List Token} (h : ∀ t ∈ ts, ofText t.text = .ok [t]) :
    Splits (respaced ts).toList ts := by
  induction ts with
  | nil => exact splits_iff.mpr rfl
  | cons t ts ih =>
    obtain ⟨ht, hts⟩ := List.forall_mem_cons.mp h
    cases ts with
    | nil => exact splits_iff.mpr ht
    | cons u us =>
      have hjoined : respaced (t :: u :: us) = t.text ++ " " ++ respaced (u :: us) :=
        String.intercalate_cons_cons
      rw [hjoined, String.toList_append, String.toList_append, List.append_assoc]
      exact (splits_iff.mpr ht).blank (ih hts)

/-- The tokens of a text stand for themselves, and tokens that do so are read again when they are
written with blanks between them. So the spacing of a text does not change how it is read. -/
theorem ofText_respaced :
    (∀ text ts, ofText text = .ok ts → ∀ t ∈ ts, ofText t.text = .ok [t]) ∧
    (∀ ts, (∀ t ∈ ts, ofText t.text = .ok [t]) → ofText (respaced ts) = .ok ts) ∧
    ∀ text ts, ofText text = .ok ts →
      ofText (respaced ts) = .ok ts ∧ Expression.parse (respaced ts) = Expression.parse text := by
  have halone : ∀ text ts, ofText text = .ok ts → ∀ t ∈ ts, ofText t.text = .ok [t] :=
    fun text ts h t ht => lexes_iff.mp ((lexes_iff.mpr h).alone t ht)
  have hrespaced : ∀ ts, (∀ t ∈ ts, ofText t.text = .ok [t]) → ofText (respaced ts) = .ok ts :=
    fun ts h => splits_iff.mp (respaced_splits h)
  refine ⟨halone, hrespaced, fun text ts h => ?_⟩
  have hagain := hrespaced ts (halone text ts h)
  refine ⟨hagain, ?_⟩
  rw [Expression.parse, Expression.parse, hagain, h]

def denseText : String := "not(a>=1)and b2!=\"x  y\""

def denseTokens : List Token :=
  [ofSymbol "not", leftParen, ⟨.identifier, "a"⟩, ofSymbol ">=", ⟨.literal, "1"⟩, rightParen,
    ofSymbol "and", ⟨.identifier, "b2"⟩, ofSymbol "!=", ⟨.string, "\"x  y\""⟩]

theorem denseText_respaced : ofText denseText = .ok denseTokens ∧
    respaced denseTokens = "not ( a >= 1 ) and b2 != \"x  y\"" ∧
    (∀ t ∈ denseTokens, ofText t.text = .ok [t]) ∧ ofText (respaced denseTokens) = .ok denseTokens ∧
    Expression.parse (respaced denseTokens) = Expression.parse denseText := by
  have h : ofText denseText = .ok denseTokens := by decide
  obtain ⟨halone, -, hagain⟩ := ofText_respaced
  exact ⟨h, by decide, halone denseText denseTokens h, hagain denseText denseTokens h⟩

/-- The tokens of a text spell it without the blanks outside of strings, each in the way of its kind.
So all operators in it have a precedence, and none is built into a tree as a leaf. -/
theorem ofText_spelled {text : String} {ts : List Token} (h : ofText text = .ok ts) :
    String.join (ts.map (·.text)) = unspaced text ∧ (∀ t ∈ ts, t.WellSpelled) ∧
      (∀ t ∈ ts, t.kind = .operator → t.precedence?.isSome = true) ∧
      ∀ out, toPostfix ts = .ok out → ∀ t ∈ out, t.kind = .operator →
        Expression.role t ≠ .operand := by
  have hlexes := lexes_iff.mpr h
  have hspelled := hlexes.wellSpelled
  have hall : ∀ text ∈ operatorTexts, (precedence? ⟨.operator, text⟩).isSome = true := by decide
  refine ⟨?_, hspelled, ?_, ?_⟩
  · rw [← String.toList_inj, String.toList_join, unspaced, String.toList_ofList,
      hlexes.unspacedFrom_eq, List.flatMap_map]
  · rintro ⟨kind, text⟩ ht hkind
    obtain rfl : kind = .operator := hkind
    exact hall text ((hspelled _ ht).operator rfl)
  · intro out hout t ht hkind
    have hmem : t ∈ unparenthesized ts := (toPostfix_keeps hout).1.mem_iff.mp ht
    have hknown := (hspelled t (List.mem_of_mem_filter hmem)).operator
    exact IsKnown.role_ne hknown hkind

theorem denseText_spelled : ofText denseText = .ok denseTokens ∧
    String.join (denseTokens.map (·.text)) = "not(a>=1)andb2!=\"x  y\"" ∧
    (∀ t ∈ denseTokens, t.WellSpelled) ∧
    ∃ out, toPostfix denseTokens = .ok out ∧ ∀ t ∈ out, t.kind = .operator →
      Expression.role t ≠ .operand := by
  have h : ofText denseText = .ok denseTokens := by decide
  obtain ⟨htext, hspelled, -, hout⟩ := ofText_spelled h
  have hpostfix : toPostfix denseTokens = .ok [⟨.identifier, "a"⟩, ⟨.literal, "1"⟩, ofSymbol ">=",
      ofSymbol "not", ⟨.identifier, "b2"⟩, ⟨.string, "\"x  y\""⟩, ofSymbol "!=", ofSymbol "and"] := by
    decide
  exact ⟨h, htext.trans (by decide), hspelled, _, hpostfix, hout _ hpostfix⟩

end Workflow.Token

import Workflow.Proofs.Condition.Offence
import Workflow.Proofs.Condition.Spelling

/-!
# Words that begin with a keyword

Outside of strings a text has runs of characters of words, which begin and end where other characters
are. Such a run is one token, unless it begins with a keyword and goes on with a point, a hyphen or an
underscore: these go on with a word, but they are no letters or numbers, so the keyword ends before
them and is a token by itself. The rest of the run is the other token. So an identifier is a run, or
the rest of a run that is cut.
-/

set_option autoImplicit false

namespace Workflow.Token

/-- The characters of words that are no letters or numbers. -/
def marks : List Char := ['.', '-', '_']

/-- A run of characters of words that is as long as it can be between what is before and behind it. -/
structure IsRun (before run behind : List Char) : Prop where
  nonempty : run ≠ []
  wordChars : ∀ c ∈ run, isWordChar c = true
  left : ∀ c ∈ before.getLast?, isWordChar c = false
  right : ∀ c ∈ behind.head?, isWordChar c = false

/-- A run begins with a keyword and goes on with a character that is no letter or number. -/
structure IsCut (run keyword rest : List Char) : Prop where
  split : run = keyword ++ rest
  keyword : isKeyword keyword = true
  mark : ∃ c ∈ rest.head?, c ∈ marks

/-- The tokens of a run. -/
inductive RunTokens (run : List Char) : List Token → Prop where
  | whole : (∀ keyword rest, ¬ IsCut run keyword rest) → RunTokens run [ofWord run]
  | cut {keyword rest : List Char} : IsCut run keyword rest →
    RunTokens run [ofWord keyword, ofWord rest]

/-- A token is the last one of a run. The tokens before it are those before the run and those that
are cut off the run. -/
structure EndsRun (cs : List Char) (outer inner : List Token) (t : Token) (after : List Token)
    (before run behind : List Char) : Prop where
  split : cs = before ++ (run ++ behind)
  isRun : IsRun before run behind
  tokens : RunTokens run (inner ++ [t])
  lexesBefore : Lexes before outer
  lexesBehind : Lexes behind after

theorem isDigit_bounds {c : Char} (h : c.isDigit = true) : 48 ≤ c.toNat ∧ c.toNat ≤ 57 := by
  simp only [Char.isDigit, Bool.and_eq_true, decide_eq_true_eq] at h
  exact h

theorem isNumeric_of_isDigit {c : Char} (h : c.isDigit = true) : isNumeric c = true := by
  have hbounds := isDigit_bounds h
  rw [isNumeric, if_pos (by omega), h]

theorem isAlphabetic_of_isDigit {c : Char} (h : c.isDigit = true) : isAlphabetic c = false := by
  obtain ⟨hlow, hhigh⟩ := isDigit_bounds h
  have hall : (List.range' 48 10).all (fun n => !isAlphabetic (Char.ofNat n)) = true := by decide
  have hmem : c.toNat ∈ List.range' 48 10 := List.mem_range'_1.mpr ⟨hlow, by omega⟩
  have hc := List.all_eq_true.mp hall c.toNat hmem
  rw [Char.ofNat_toNat] at hc
  simpa using hc

theorem isNumberChar_of_isAlphabetic {c : Char} (h : isAlphabetic c = true) :
    isNumberChar c = false := by
  apply Bool.eq_false_iff.mpr
  intro hnumber
  rcases (Bool.or_eq_true _ _).mp hnumber with hdigit | hpoint
  · rw [isAlphabetic_of_isDigit hdigit] at h
    cases h
  · obtain rfl := eq_of_beq hpoint
    revert h
    decide

theorem mark_classes {c : Char} (h : c ∈ marks) :
    isAlphanumeric c = false ∧ isAlphabetic c = false := by
  have hall : marks.all (fun c => !isAlphanumeric c && !isAlphabetic c) = true := by decide
  have hc := List.all_eq_true.mp hall c h
  simpa using hc

theorem mark_of_wordChar {c : Char} (h : isWordChar c = true) (hnot : isAlphanumeric c = false) :
    c ∈ marks := by
  obtain ⟨halpha, hnumeric⟩ := Bool.or_eq_false_iff.mp hnot
  have hdigit : c.isDigit = false := by
    apply Bool.eq_false_iff.mpr
    intro hdigit
    rw [isNumeric_of_isDigit hdigit] at hnumeric
    cases hnumeric
  simpa [marks, isWordChar, isNumberChar, isLetterChar, halpha, hdigit] using h

theorem isAlphabetic_of_keyword {w : List Char} (h : isKeyword w = true) :
    w ≠ [] ∧ ∀ c ∈ w, isAlphabetic c = true := by
  have hall : ∀ w ∈ operatorWords ++ truthWords, w ≠ [] ∧ w.all isAlphabetic = true := by decide
  obtain ⟨hne, hletters⟩ := hall w (isKeyword_iff.mp h)
  exact ⟨hne, List.all_eq_true.mp hletters⟩

theorem wordKind_of_isKeyword {w : List Char} (h : isKeyword w = true) :
    wordKind w ≠ .identifier := by
  have hall : ∀ w ∈ operatorWords ++ truthWords, wordKind w ≠ .identifier := by decide
  exact hall w (isKeyword_iff.mp h)

theorem wordKind_of_isAlphabetic {c : Char} {w : List Char} (hc : isAlphabetic c = true)
    (hkeyword : isKeyword (c :: w) = false) : wordKind (c :: w) = .identifier := by
  obtain ⟨hoperator, htruth⟩ := Bool.or_eq_false_iff.mp hkeyword
  have hnumber : (c :: w).all isNumberChar = false := by
    rw [List.all_cons, isNumberChar_of_isAlphabetic hc, Bool.false_and]
  rw [wordKind, hoperator, htruth, hnumber]
  rfl

theorem IsCut.rest_ne {run keyword rest : List Char} (h : IsCut run keyword rest) : rest ≠ [] := by
  obtain ⟨c, hc, -⟩ := h.mark
  exact List.ne_nil_of_mem (List.mem_of_mem_head? hc)

/-- What follows the keyword lets it end. -/
theorem IsCut.next {run keyword rest : List Char} (h : IsCut run keyword rest) :
    ∀ c ∈ rest.head?, isAlphanumeric c = false := by
  obtain ⟨c, hc, hmark⟩ := h.mark
  rw [Option.mem_def.mp hc]
  rintro d ⟨⟩
  exact (mark_classes hmark).1

/-- What begins with a point, a hyphen or an underscore is not cut. -/
theorem not_isCut_of_mark {run : List Char} (h : ∃ c ∈ run.head?, c ∈ marks)
    (keyword rest : List Char) : ¬ IsCut run keyword rest := by
  intro hcut
  obtain ⟨hne, hletters⟩ := isAlphabetic_of_keyword hcut.keyword
  obtain ⟨d, keyword', rfl⟩ := List.exists_cons_of_ne_nil hne
  obtain ⟨c, hc, hmark⟩ := h
  rw [hcut.split] at hc
  obtain rfl := Option.some.inj hc
  have hletter := hletters d List.mem_cons_self
  rw [(mark_classes hmark).2] at hletter
  cases hletter

namespace WordRest
variable {reversed w : List Char} {next : Option Char}

/-- A word in front of a character that could go on with it is a keyword, and the character is no
letter or number. -/
theorem keyword_of_next (h : WordRest reversed w next) {c : Char} (hc : c ∈ next)
    (hword : isWordChar c = true) : isKeyword (reversed.reverse ++ w) = true ∧ c ∈ marks := by
  induction h with
  | boundary _ hend => simp [hend c hc] at hword
  | keyword _ hend =>
    obtain ⟨hkeyword, hnext⟩ := endsKeyword_iff.mp hend
    rw [List.reverse_cons] at hkeyword
    exact ⟨hkeyword, mark_of_wordChar hword (hnext c hc)⟩
  | more _ _ _ ih => simpa using ih hc

/-- No part of a word before its end is a keyword that ends. -/
theorem endsKeyword_inside (h : WordRest reversed w next) {u v : List Char} (hw : w = u ++ v)
    (hu : u ≠ []) (hv : v ≠ []) : endsKeyword (u.reverse ++ reversed) v.head? = false := by
  induction h generalizing u with
  | boundary => exact absurd (List.append_eq_nil_iff.mp hw.symm).1 hu
  | keyword =>
    obtain ⟨c, u, rfl⟩ := List.exists_cons_of_ne_nil hu
    have hnil := (List.append_eq_nil_iff.mp (List.cons.inj hw).2.symm).2
    exact absurd hnil hv
  | @more reversed rest d next _ hend _ ih =>
    obtain ⟨c, u, rfl⟩ := List.exists_cons_of_ne_nil hu
    obtain ⟨rfl, rfl⟩ := List.cons.inj hw
    cases u with
    | nil =>
      obtain ⟨e, v, rfl⟩ := List.exists_cons_of_ne_nil hv
      exact hend
    | cons e u =>
      have hinside := ih rfl (List.cons_ne_nil e u)
      simpa using hinside

theorem not_isCut (h : WordRest [] w next) (keyword rest : List Char) :
    ¬ IsCut w keyword rest := by
  intro hcut
  have hinside := h.endsKeyword_inside hcut.split (isAlphabetic_of_keyword hcut.keyword).1 hcut.rest_ne
  have hend : endsKeyword (keyword.reverse ++ []) rest.head? = true := by
    apply endsKeyword_iff.mpr
    rw [List.append_nil, List.reverse_reverse]
    exact ⟨hcut.keyword, hcut.next⟩
  rw [hend] at hinside
  cases hinside

end WordRest

/-- A run that is not cut is one word. -/
theorem wordRest_whole {reversed w : List Char} (hw : ∀ c ∈ w, isWordChar c = true)
    (hne : reversed.reverse ++ w ≠ [])
    (hwhole : ∀ keyword rest, ¬ IsCut (reversed.reverse ++ w) keyword rest) :
    WordRest reversed w none := by
  induction w generalizing reversed with
  | nil => exact .boundary (by simpa using hne) (by simp)
  | cons c rest ih =>
    obtain ⟨hc, hrest⟩ := List.forall_mem_cons.mp hw
    have hsame : (c :: reversed).reverse ++ rest = reversed.reverse ++ c :: rest := by simp
    rw [← hsame] at hne hwhole
    have hmore := ih hrest hne hwhole
    cases hend : endsKeyword (c :: reversed) (rest.head?.or none) with
    | false => exact .more hc hend hmore
    | true =>
      cases rest with
      | nil => exact .keyword (isLetterChar_of_endsKeyword hc hend) hend
      | cons d rest =>
        -- the run would be cut here
        obtain ⟨hkeyword, hnext⟩ := endsKeyword_iff.mp hend
        have hmark := mark_of_wordChar (List.forall_mem_cons.mp hrest).1 (hnext d rfl)
        exact absurd ⟨rfl, hkeyword, d, rfl, hmark⟩ (hwhole (c :: reversed).reverse (d :: rest))

/-- A keyword in front of a character that is no letter or number is a word. -/
theorem wordRest_keyword {reversed w : List Char} {next : Option Char} (hw : w ≠ [])
    (hletters : ∀ c ∈ w, isAlphabetic c = true) (hkeyword : isKeyword (reversed.reverse ++ w) = true)
    (hnext : ∀ c ∈ next, isAlphanumeric c = false) : WordRest reversed w next := by
  induction w generalizing reversed with
  | nil => exact absurd rfl hw
  | cons c rest ih =>
    obtain ⟨hc, hrest⟩ := List.forall_mem_cons.mp hletters
    have hletter : isLetterChar c = true := by simp [isLetterChar, hc]
    cases rest with
    | nil => exact .keyword hletter (endsKeyword_iff.mpr ⟨by simpa using hkeyword, hnext⟩)
    | cons d rest =>
      have hd : isAlphabetic d = true := hrest d List.mem_cons_self
      have hinside : endsKeyword (c :: reversed) ((d :: rest).head?.or next) = false := by
        simp [endsKeyword, isAlphanumeric, hd]
      refine .more (by simp [isWordChar, hletter]) hinside ?_
      exact ih (List.cons_ne_nil d rest) hrest (by simpa using hkeyword)

/-- A run by itself is split into its tokens. -/
theorem RunTokens.lexes {run : List Char} {ts : List Token} (h : RunTokens run ts) (hne : run ≠ [])
    (hwordChars : ∀ c ∈ run, isWordChar c = true) : Lexes run ts := by
  cases h with
  | whole hwhole =>
    have hlexes : Lexes (run ++ []) [ofWord run] :=
      .word (wordRest_whole hwordChars hne hwhole) .nil
    rwa [List.append_nil] at hlexes
  | @cut keyword rest hcut =>
    obtain ⟨hne', hletters⟩ := isAlphabetic_of_keyword hcut.keyword
    have hfirst : WordRest [] keyword rest.head? :=
      wordRest_keyword hne' hletters hcut.keyword hcut.next
    have hrest : ∀ c ∈ rest, isWordChar c = true := by
      intro c hc
      exact hwordChars c (hcut.split ▸ List.mem_append_right keyword hc)
    have hsecond : WordRest [] rest none :=
      wordRest_whole hrest hcut.rest_ne (not_isCut_of_mark hcut.mark)
    have hlexes : Lexes (rest ++ []) [ofWord rest] := .word hsecond .nil
    rw [List.append_nil] at hlexes
    rw [hcut.split]
    exact .word hfirst hlexes

namespace EndsRun
variable {cs before run behind : List Char} {outer inner after : List Token} {t : Token}

/-- What does not go on with the word behind it may be written before the text. -/
theorem prepend (h : EndsRun cs outer inner t after before run behind) (piece : List Char)
    (ts : List Token) (hpiece : ∀ c ∈ piece.getLast?, before = [] → isWordChar c = false)
    (hlexes : Lexes (piece ++ before) (ts ++ outer)) :
    EndsRun (piece ++ cs) (ts ++ outer) inner t after (piece ++ before) run behind := by
  obtain ⟨rfl, hrun, htokens, -, hbehind⟩ := h
  refine ⟨(List.append_assoc _ _ _).symm, ?_, htokens, hlexes, hbehind⟩
  refine ⟨hrun.nonempty, hrun.wordChars, ?_, hrun.right⟩
  rw [List.getLast?_append]
  cases hlast : before.getLast? with
  | none => exact fun c hc => hpiece c hc (List.getLast?_eq_none_iff.mp hlast)
  | some d => exact fun c hc => hrun.left c (hlast.trans hc)

theorem head?_eq (h : EndsRun cs outer inner t after before run behind) (hne : before ≠ []) :
    cs.head? = before.head? := by
  obtain ⟨c, rest, rfl⟩ := List.exists_cons_of_ne_nil hne
  rw [h.split]
  rfl

/-- A word with a run right behind it is a keyword that is cut off this run. -/
theorem cut (h : EndsRun cs outer inner t after [] run behind) {w : List Char}
    (hw : WordRest [] w cs.head?) :
    outer = [] ∧ inner = [] ∧ EndsRun (w ++ cs) [] [ofWord w] t after [] (w ++ run) behind := by
  obtain ⟨rfl, hrun, htokens, hbefore, hbehind⟩ := h
  obtain ⟨c, run, rfl⟩ := List.exists_cons_of_ne_nil hrun.nonempty
  obtain ⟨hkeyword, hmark⟩ := hw.keyword_of_next rfl (hrun.wordChars c List.mem_cons_self)
  have houter : outer = [] := (Except.ok.inj (hbefore.splits 0)).symm
  have hcut : IsCut (w ++ c :: run) w (c :: run) := ⟨rfl, hkeyword, c, rfl, hmark⟩
  generalize hts : inner ++ [t] = ts at htokens
  cases htokens with
  | cut hcut' => exact absurd hcut' (not_isCut_of_mark ⟨c, rfl, hmark⟩ _ _)
  | whole =>
    obtain ⟨rfl, hlast⟩ := List.append_eq_singleton_iff.mp hts |>.resolve_right (by simp)
    obtain rfl := List.singleton_inj.mp hlast
    refine ⟨houter, rfl, ?_⟩
    refine ⟨by simp, ⟨by simp, ?_, hrun.left, hrun.right⟩, .cut hcut, .nil, hbehind⟩
    intro d hd
    rcases List.mem_append.mp hd with hd | hd
    · exact hw.wordChars d hd
    · exact hrun.wordChars d hd

end EndsRun

theorem append_cons_eq_cons {before after ts : List Token} {t u : Token}
    (h : before ++ t :: after = u :: ts) (hne : t.kind ≠ u.kind) :
    ∃ before', before = u :: before' ∧ before' ++ t :: after = ts := by
  cases before with
  | nil => exact absurd (congrArg Token.kind (List.cons.inj h).1) hne
  | cons v before' =>
    obtain ⟨rfl, hrest⟩ := List.cons.inj h
    exact ⟨before', rfl, hrest⟩

theorem narrowSymbol?_kind {c : Char} {t : Token} (h : narrowSymbol? c = some t) :
    t.kind ≠ .identifier := by
  unfold narrowSymbol? at h
  grind [ofSymbol, leftParen, rightParen]

/-- An identifier is the last token of a run, by induction on the lexemes of the text. -/
theorem Lexes.endsRun {cs : List Char} {ts before after : List Token} {t : Token}
    (h : Lexes cs ts) (hts : before ++ t :: after = ts) (ht : t.kind = .identifier) :
    ∃ outer inner front run behind, before = outer ++ inner ∧
      EndsRun cs outer inner t after front run behind := by
  induction h generalizing before with
  | nil => simp at hts
  | @blank cs ts _ ih =>
    obtain ⟨outer, inner, front, run, behind, rfl, hends⟩ := ih hts
    refine ⟨outer, inner, ' ' :: front, run, behind, rfl, hends.prepend [' '] [] ?_ ?_⟩
    · rintro c ⟨⟩ -
      decide
    · exact hends.lexesBefore.blank
  | @wide c symbol cs ts hsymbol _ ih =>
    obtain ⟨before, rfl, hrest⟩ := append_cons_eq_cons hts (by rw [ht]; exact nofun)
    obtain ⟨outer, inner, front, run, behind, rfl, hends⟩ := ih hrest
    refine ⟨ofSymbol symbol :: outer, inner, c :: '=' :: front, run, behind, rfl,
      hends.prepend [c, '='] [ofSymbol symbol] ?_ ?_⟩
    · have hlast : isWordChar '=' = false := by decide
      rintro d ⟨⟩ -
      exact hlast
    · exact .wide hsymbol hends.lexesBefore
  | @narrow c u cs ts hwide hnarrow _ ih =>
    have hne : t.kind ≠ u.kind := fun heq => narrowSymbol?_kind hnarrow (heq.symm.trans ht)
    obtain ⟨before, rfl, hrest⟩ := append_cons_eq_cons hts hne
    obtain ⟨outer, inner, front, run, behind, rfl, hends⟩ := ih hrest
    refine ⟨u :: outer, inner, c :: front, run, behind, rfl, hends.prepend [c] [u] ?_ ?_⟩
    · rintro d ⟨⟩ -
      exact (narrowSymbol?_spells hnarrow).1
    · refine .narrow ?_ hnarrow hends.lexesBefore
      cases front with
      | nil => rfl
      | cons d front => rwa [hends.head?_eq (List.cons_ne_nil d front)] at hwide
  | @string body cs ts hbody _ ih =>
    obtain ⟨before, rfl, hrest⟩ := append_cons_eq_cons hts (by rw [ht]; exact nofun)
    obtain ⟨outer, inner, front, run, behind, rfl, hends⟩ := ih hrest
    have hquoted : ∀ cs, ('"' :: body ++ ['"']) ++ cs = '"' :: (body ++ '"' :: cs) := by simp
    have hlexes := Lexes.string hbody hends.lexesBefore
    rw [← hquoted] at hlexes ⊢
    refine ⟨ofString body :: outer, inner, _, run, behind, rfl,
      hends.prepend ('"' :: body ++ ['"']) [ofString body] ?_ hlexes⟩
    rw [List.getLast?_append]
    rintro c ⟨⟩ -
    decide
  | @word w cs ts hw hcs ih =>
    cases before with
    | nil =>
      obtain ⟨rfl, rfl⟩ := List.cons.inj hts
      refine ⟨[], [], [], w, cs, rfl, rfl, ⟨hw.ne_nil, hw.wordChars, by simp, ?_⟩,
        .whole hw.not_isCut, .nil, hcs⟩
      intro c hc
      apply Bool.eq_false_iff.mpr
      intro hword
      exact wordKind_of_isKeyword (hw.keyword_of_next hc hword).1 ht
    | cons u before =>
      obtain ⟨rfl, hrest⟩ := List.cons.inj hts
      obtain ⟨outer, inner, front, run, behind, rfl, hends⟩ := ih hrest
      cases front with
      | nil =>
        obtain ⟨rfl, rfl, hcut⟩ := hends.cut hw
        exact ⟨[], [ofWord w], [], w ++ run, behind, rfl, hcut⟩
      | cons c front =>
        refine ⟨ofWord w :: outer, inner, w ++ c :: front, run, behind, rfl,
          hends.prepend w [ofWord w] ?_ ?_⟩
        · rintro d - ⟨⟩
        · refine .word ?_ hends.lexesBefore
          rwa [hends.head?_eq (List.cons_ne_nil c front)] at hw

theorem isKeyword_of_notMem {w : String} (h : w ∉ ["and", "or", "not", "true", "false"]) :
    isKeyword w.toList = false := by
  have hall : ∀ cs ∈ operatorWords ++ truthWords,
      String.ofList cs ∈ ["and", "or", "not", "true", "false"] := by decide
  apply Bool.eq_false_iff.mpr
  intro hkeyword
  have hmem := hall w.toList (isKeyword_iff.mp hkeyword)
  rw [String.ofList_toList] at hmem
  exact h hmem

/-- What could be the name of a variable is an identifier as a word. -/
theorem ofWord_name {text : String} (hname : text ∉ ["and", "or", "not", "true", "false"])
    (hletter : ∃ c ∈ text.toList.head?, isAlphabetic c = true) :
    ofWord text.toList = ⟨.identifier, text⟩ := by
  obtain ⟨c, hc, halpha⟩ := hletter
  obtain ⟨rest, htext⟩ := List.head?_eq_some_iff.mp hc
  have hkind : wordKind text.toList = .identifier := by
    have hkeyword := isKeyword_of_notMem hname
    rw [htext] at hkeyword ⊢
    exact wordKind_of_isAlphabetic halpha hkeyword
  rw [ofWord, hkind, String.ofList_toList]

theorem RunTokens.ofText_eq {text : String} {ts : List Token} (h : RunTokens text.toList ts)
    (hne : text.toList ≠ []) (hwordChars : ∀ c ∈ text.toList, isWordChar c = true) :
    ofText text = .ok ts :=
  lexes_iff.mp (h.lexes hne hwordChars)

/-- A text that could be the name of a variable is an identifier, if and only if it is not cut behind
a keyword. Every identifier in a text is a run outside of strings, which is behind an even number of
quotes, or the rest of one that is cut. -/
theorem ofText_identifiers (text : String) :
    (text ∉ ["and", "or", "not", "true", "false"] →
      (∃ c ∈ text.toList.head?, isAlphabetic c = true) → (∀ c ∈ text.toList, isWordChar c = true) →
      (ofText text = .ok [⟨.identifier, text⟩] ↔ ∀ keyword rest, ¬ IsCut text.toList keyword rest) ∧
      ∀ keyword rest, IsCut text.toList keyword rest →
        ofText text = .ok [ofWord keyword, ofWord rest]) ∧
    ∀ before t after, ofText text = .ok (before ++ t :: after) → t.kind = .identifier →
      ∃ outer inner front run behind, before = outer ++ inner ∧
        text.toList = front ++ (run ++ behind) ∧ IsRun front run behind ∧ Even (front.count '"') ∧
        RunTokens run (inner ++ [t]) ∧
        ofText (String.ofList front) = .ok outer ∧ ofText (String.ofList behind) = .ok after := by
  constructor
  · intro hname hletter hwordChars
    have hword := ofWord_name hname hletter
    have hne : text.toList ≠ [] := by
      obtain ⟨c, hc, -⟩ := hletter
      exact List.ne_nil_of_mem (List.mem_of_mem_head? hc)
    have hcuts : ∀ keyword rest, IsCut text.toList keyword rest →
        ofText text = .ok [ofWord keyword, ofWord rest] :=
      fun keyword rest hcut => (RunTokens.cut hcut).ofText_eq hne hwordChars
    refine ⟨⟨?_, ?_⟩, hcuts⟩
    · intro h keyword rest hcut
      have htwo := hcuts keyword rest hcut
      rw [h] at htwo
      exact absurd (congrArg List.length (Except.ok.inj htwo)) (by simp)
    · intro hwhole
      rw [← hword]
      exact (RunTokens.whole hwhole).ofText_eq hne hwordChars
  · intro before t after h ht
    obtain ⟨outer, inner, front, run, behind, rfl, hends⟩ := (lexes_iff.mpr h).endsRun rfl ht
    refine ⟨outer, inner, front, run, behind, rfl, hends.split, hends.isRun,
      hends.lexesBefore.even_quotes, hends.tokens, ?_, ?_⟩
    · apply lexes_iff.mp
      rw [String.toList_ofList]
      exact hends.lexesBefore
    · apply lexes_iff.mp
      rw [String.toList_ofList]
      exact hends.lexesBehind

/-- The identifiers of a text with a hyphen in one name, and with a name that is cut. -/
theorem orderId_identifiers :
    ofText "order-id" = .ok [⟨.identifier, "order-id"⟩] ∧
    (∀ keyword rest, ¬ IsCut "order-id".toList keyword rest) ∧
    ofText "id==not_ready" =
      .ok [⟨.identifier, "id"⟩, ofSymbol "==", ofSymbol "not", ⟨.identifier, "_ready"⟩] ∧
    ∃ outer inner front run behind,
      [⟨.identifier, "id"⟩, ofSymbol "==", ofSymbol "not"] = outer ++ inner ∧
      "id==not_ready".toList = front ++ (run ++ behind) ∧ IsRun front run behind ∧
      Even (front.count '"') ∧ RunTokens run (inner ++ [⟨.identifier, "_ready"⟩]) ∧
      ofText (String.ofList front) = .ok outer ∧ ofText (String.ofList behind) = .ok [] := by
  have hname : ofText "order-id" = .ok [⟨.identifier, "order-id"⟩] := by decide
  have hchars : "order-id".toList.all isWordChar = true := by decide
  have hletter : ∃ c ∈ "order-id".toList.head?, isAlphabetic c = true := ⟨'o', by decide, by decide⟩
  have htext : ofText "id==not_ready" =
    .ok ([⟨.identifier, "id"⟩, ofSymbol "==", ofSymbol "not"] ++ ⟨.identifier, "_ready"⟩ :: []) := by
    decide
  obtain ⟨hiff, -⟩ := (ofText_identifiers "order-id").1 (by decide) hletter (List.all_eq_true.mp hchars)
  exact ⟨hname, hiff.mp hname, htext, (ofText_identifiers "id==not_ready").2 _ _ _ htext rfl⟩

/-- A name is cut behind a keyword, so it is read as a negation. -/
theorem notReady_cut :
    "not_ready" ∉ ["and", "or", "not", "true", "false"] ∧
    (∃ c ∈ "not_ready".toList.head?, isAlphabetic c = true) ∧
    (∀ c ∈ "not_ready".toList, isWordChar c = true) ∧
    ofText "not_ready" ≠ .ok [⟨.identifier, "not_ready"⟩] ∧
    ofText "not_ready" = .ok [ofSymbol "not", ⟨.identifier, "_ready"⟩] ∧
    Expression.parse "not_ready" = .ok (.negation (.leaf "_ready")) := by
  have hchars : "not_ready".toList.all isWordChar = true := by decide
  refine ⟨by decide, ⟨'n', by decide, by decide⟩, List.all_eq_true.mp hchars, ?_⟩
  decide

end Workflow.Token

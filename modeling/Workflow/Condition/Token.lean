import Workflow.Condition.Error
import Workflow.Text.Numeric

/-!
# Tokens of condition text

Blanks separate words. A word is made of letters, ASCII digits, points, hyphens and underscores; it
also ends after a keyword when the next character is neither a letter nor a number. Quotes enclose
strings, which have no escapes. The scan reads one character after the other and knows one more in
advance.
-/

set_option autoImplicit false

namespace Workflow

inductive TokenKind where
  | operator
  | leftParen
  | rightParen
  | literal
  | identifier
  | string
  deriving DecidableEq, Repr

structure Token where
  kind : TokenKind
  text : String
  deriving DecidableEq, Repr

namespace Token

def ofSymbol (symbol : String) : Token := ⟨.operator, symbol⟩

def leftParen : Token := ⟨.leftParen, "("⟩

def rightParen : Token := ⟨.rightParen, ")"⟩

def operatorWords : List (List Char) := [['a', 'n', 'd'], ['o', 'r'], ['n', 'o', 't']]

def truthWords : List (List Char) := [['t', 'r', 'u', 'e'], ['f', 'a', 'l', 's', 'e']]

def isKeyword (word : List Char) : Bool := operatorWords.contains word || truthWords.contains word

def isNumberChar (c : Char) : Bool := c.isDigit || c == '.'

def isLetterChar (c : Char) : Bool := isAlphabetic c || c == '-' || c == '_'

def wordKind (word : List Char) : TokenKind :=
  if operatorWords.contains word then .operator
  else if truthWords.contains word || word.all isNumberChar then .literal
  else .identifier

def ofWord (word : List Char) : Token := ⟨wordKind word, String.ofList word⟩

def wideSymbol? (c : Char) (next : Option Char) : Option String :=
  if next = some '=' then
    if c = '=' then some "=="
    else if c = '!' then some "!="
    else if c = '>' then some ">="
    else if c = '<' then some "<="
    else none
  else none

def narrowSymbol? (c : Char) : Option Token :=
  if c = '>' then some (ofSymbol ">")
  else if c = '<' then some (ofSymbol "<")
  else if c = '(' then some leftParen
  else if c = ')' then some rightParen
  else none

/-- Where a scan stands: in a word that may still be empty, before the second half of a symbol, or
in a string that began at a position. The characters read so far come last first. -/
inductive Pending where
  | word (reversed : List Char)
  | half
  | string (start : Nat) (reversed : List Char)
  deriving DecidableEq, Repr

def flush : List Char → List Token
  | [] => []
  | reversed => [ofWord reversed.reverse]

structure Step where
  tokens : List Token
  pending : Pending
  deriving DecidableEq, Repr

/-- Whether a word, given with its last character first, is a keyword that ends before the next
character. -/
def endsKeyword (reversed : List Char) (next : Option Char) : Bool :=
  (match next with
    | none => true
    | some c => !isAlphanumeric c)
  && isKeyword reversed.reverse

def wordStep (position : Nat) (reversed : List Char) (c : Char) (next : Option Char) :
    Except ConditionError Step :=
  if c = ' ' then .ok ⟨flush reversed, .word []⟩
  else match wideSymbol? c next with
  | some symbol => .ok ⟨flush reversed ++ [ofSymbol symbol], .half⟩
  | none =>
    match narrowSymbol? c with
    | some token => .ok ⟨flush reversed ++ [token], .word []⟩
    | none =>
      if c = '"' then .ok ⟨flush reversed, .string position [c]⟩
      else if isNumberChar c then .ok ⟨[], .word (c :: reversed)⟩
      else if isLetterChar c then
        if endsKeyword (c :: reversed) next then .ok ⟨flush (c :: reversed), .word []⟩
        else .ok ⟨[], .word (c :: reversed)⟩
      else .error (.unknownCharacter c position)

def stringStep (start : Nat) (reversed : List Char) (c : Char) : Step :=
  if c = '"' then ⟨[⟨.string, String.ofList (c :: reversed).reverse⟩], .word []⟩
  else ⟨[], .string start (c :: reversed)⟩

def step (position : Nat) (pending : Pending) (c : Char) (next : Option Char) :
    Except ConditionError Step :=
  match pending with
  | .word reversed => wordStep position reversed c next
  | .half => .ok ⟨[], .word []⟩
  | .string start reversed => .ok (stringStep start reversed c)

def scan (position : Nat) (pending : Pending) : List Char → Except ConditionError (List Token)
  | [] =>
    match pending with
    | .word reversed => .ok (flush reversed)
    | .half => .ok []
    | .string start _ => .error (.unterminatedString start)
  | c :: cs => do
    let s ← step position pending c cs.head?
    return s.tokens ++ (← scan (position + 1) s.pending cs)

def ofText (text : String) : Except ConditionError (List Token) :=
  scan 0 (.word []) text.toList

end Token

end Workflow

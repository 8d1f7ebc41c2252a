import Workflow.Text.Unprinted

/-!
# Quoted names in summaries

A name is shown in quotes. Quotes, backslashes and the common controls are escaped by a letter, and
every other character without a printed form of its own by its code point in braces.
-/

set_option autoImplicit false

namespace Workflow

def showChar (c : Char) : List Char :=
  if c = '"' then ['\\', '"']
  else if c = '\\' then ['\\', '\\']
  else if c = '\n' then ['\\', 'n']
  else if c = '\r' then ['\\', 'r']
  else if c = '\t' then ['\\', 't']
  else if c = '\x00' then ['\\', '0']
  else if isUnprinted c then ['\\', 'u', '{'] ++ Nat.toDigits 16 c.toNat ++ ['}']
  else [c]

def showName (s : String) : String := String.ofList ('"' :: s.toList.flatMap showChar ++ ['"'])

end Workflow

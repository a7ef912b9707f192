import VocabularyCompiler.Text.CharClass
import VocabularyCompiler.Text.EscapeTables

/-!
# Quoted strings

Two ways to write a text between double quotes. A literal of JSON escapes quotes, backslashes and
control characters and nothing else. A quotation in a message also escapes whatever shows nothing
of its own, so that the reader sees every character.
-/

namespace VocabularyCompiler.Text

/-- The digits of a number in base sixteen, in lower case. -/
def hexDigits (n : Nat) : List Char := Nat.toDigits 16 n

/-- A character inside a JSON literal. -/
def escapeJson (c : Char) : List Char :=
  if c = '"' then ['\\', '"']
  else if c = '\\' then ['\\', '\\']
  else if c = '\x08' then ['\\', 'b']
  else if c = '\x0c' then ['\\', 'f']
  else if c = '\n' then ['\\', 'n']
  else if c = '\r' then ['\\', 'r']
  else if c = '\t' then ['\\', 't']
  else if c.toNat < 16 then '\\' :: 'u' :: '0' :: '0' :: '0' :: hexDigits c.toNat
  else if c.toNat < 32 then '\\' :: 'u' :: '0' :: '0' :: hexDigits c.toNat
  else [c]

/-- The JSON literal of a text, as characters. -/
def jsonLiteralChars (s : List Char) : List Char := '"' :: (s.flatMap escapeJson ++ ['"'])

/-- The JSON literal of a text. -/
def jsonLiteral (s : String) : String := String.ofList (jsonLiteralChars s.toList)

/-- A character inside a quotation. -/
def escapeQuotation (c : Char) : List Char :=
  if c = '"' then ['\\', '"']
  else if c = '\\' then ['\\', '\\']
  else if c = '\x00' then ['\\', '0']
  else if c = '\n' then ['\\', 'n']
  else if c = '\r' then ['\\', 'r']
  else if c = '\t' then ['\\', 't']
  else if c.toNat < 32 || inRanges invisible c then
    '\\' :: 'u' :: '\x7b' :: (hexDigits c.toNat ++ ['\x7d'])
  else [c]

/-- A text quoted for a message. -/
def quotation (s : String) : String :=
  String.ofList ('"' :: (s.toList.flatMap escapeQuotation ++ ['"']))

/-- A path quoted for a message; single quotes are escaped too. -/
def pathQuotation (s : String) : String :=
  let escape (c : Char) := if c = '\x27' then ['\\', c] else escapeQuotation c
  String.ofList ('"' :: (s.toList.flatMap escape ++ ['"']))

end VocabularyCompiler.Text

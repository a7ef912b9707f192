import VocabularyCompiler.Text.Lowercase
import VocabularyCompiler.Text.Words

/-!
# Identifiers spelled out as words

A property name becomes a phrase of lower-case words: a slot marker such as `p_` is dropped,
underscores count as spaces, and a capital letter after anything but a capital letter or a space
begins a new word.
-/

namespace VocabularyCompiler.Phrase

open Text

/-- The letters that, followed by an underscore, mark a slot at the start of a name. -/
def slotLetters : List Char := ['v', 'w', 'g', 'p']

/-- A name without its slot marker. -/
def dropSlotMarker : List Char → List Char
  | c :: '_' :: rest => if c ∈ slotLetters then rest else c :: '_' :: rest
  | s => s

/-- Whether a character is an ASCII capital letter. -/
def isCapital (c : Char) : Bool := 'A' ≤ c && c ≤ 'Z'

/-- A text with a space before every capital letter that begins a new word. -/
def splitCamel : List Char → List Char
  | a :: b :: rest =>
    if !isCapital a && a != ' ' && isCapital b then a :: ' ' :: splitCamel (b :: rest)
    else a :: splitCamel (b :: rest)
  | s => s

/-- The phrase of a name, as characters. -/
def spellOutChars (name : List Char) : List Char :=
  let spaced := (dropSlotMarker name).map fun c => if c = '_' then ' ' else c
  joinSpaces (words (lowerChars (splitCamel spaced)))

/-- The phrase of a name: `worksFor` is spelled out as `works for`. -/
def spellOut (name : String) : String := String.ofList (spellOutChars name.toList)

/-- The ending that adds nothing to a phrase. -/
def valueSuffix : List Char := [' ', 'v', 'a', 'l', 'u', 'e']

/-- A phrase without a trailing ` value`, as characters. -/
def dropValueSuffixChars (phrase : List Char) : List Char :=
  (dropEnd? valueSuffix phrase).getD phrase

/-- A phrase without a trailing ` value`. -/
def dropValueSuffix (phrase : String) : String :=
  String.ofList (dropValueSuffixChars phrase.toList)

end VocabularyCompiler.Phrase

import VocabularyCompiler.Text.Words

/-!
# Plurals

The plural of a noun by its ending, with a list of irregular and of uncountable nouns, and the
plural of a phrase, which is the plural of its head noun.
-/

namespace VocabularyCompiler.Phrase

open Text

/-- Words that follow the head noun of a phrase. -/
def particles : List String :=
  ["of", "for", "in", "at", "by", "on", "to", "with", "from", "about"]

/-- Nouns without a plural of their own. -/
def uncountable : List String :=
  ["information", "equipment", "news", "data", "software", "series", "species", "media",
    "feedback", "content", "audio", "music", "furniture", "evidence", "advice", "research"]

/-- Irregular nouns with their plurals. -/
def irregular : List (String × String) :=
  [("person", "people"), ("child", "children"), ("man", "men"), ("woman", "women"),
    ("foot", "feet"), ("tooth", "teeth"), ("mouse", "mice"), ("criterion", "criteria"),
    ("datum", "data"), ("alumnus", "alumni"), ("medium", "media"), ("analysis", "analyses")]

/-- Whether a character is an ASCII digit. -/
def isDigit (c : Char) : Bool := '0' ≤ c && c ≤ '9'

/-- The plural by ending of a word that is in no list. A word in `s` counts as a plural already,
unless it ends in `ss`, `us` or `is`. -/
def pluralByEnding (word : List Char) : List Char :=
  let ends (ending : List Char) := ending.isSuffixOf word
  let without (n : Nat) := word.take (word.length - n)
  let afterVowel := ['a', 'e', 'i', 'o', 'u'].any fun v => [v].isSuffixOf (without 1)
  if ends ['s'] && !ends ['s', 's'] && !ends ['u', 's'] && !ends ['i', 's'] then word
  else if ends ['s', 's'] || ends ['u', 's'] || ends ['x'] || ends ['z'] || ends ['c', 'h']
      || ends ['s', 'h'] then word ++ ['e', 's']
  else if ends ['i', 's'] then without 2 ++ ['e', 's']
  else if ends ['y'] && !afterVowel then
    without 1 ++ ['i', 'e', 's']
  else if ends ['f', 'e'] then without 2 ++ ['v', 'e', 's']
  else word ++ ['s']

/-- The plural of a word, as characters. Numbers and the empty word have none. -/
def pluralizeWordChars (word : List Char) : List Char :=
  if word.isEmpty || String.ofList word ∈ uncountable || word.all isDigit then word
  else
    match irregular.find? fun e => e.1 = String.ofList word || e.2 = String.ofList word with
    | some (_, plural) => plural.toList
    | none => pluralByEnding word

/-- The plural of a word. -/
def pluralizeWord (word : String) : String := String.ofList (pluralizeWordChars word.toList)

/-- Applies `f` to the last element that satisfies `p`; to the very last one if none does. -/
def modifyLast {α : Type _} (p : α → Bool) (f : α → α) : List α → List α
  | [] => []
  | [a] => [f a]
  | a :: b :: rest =>
    if (b :: rest).any p || !p a then a :: modifyLast p f (b :: rest) else f a :: b :: rest

/-- The plural of a phrase, as characters: its head noun, the last word that is no particle,
takes the plural. -/
def pluralizeChars (phrase : List Char) : List Char :=
  joinSpaces
    (modifyLast (fun w => String.ofList w ∉ particles) pluralizeWordChars (splitSpaces phrase))

/-- The plural of a phrase. -/
def pluralize (phrase : String) : String := String.ofList (pluralizeChars phrase.toList)

end VocabularyCompiler.Phrase

import VocabularyCompiler.Phrase.PartOfSpeech
import VocabularyCompiler.Phrase.Plural
import VocabularyCompiler.Phrase.SpelledOut
import VocabularyCompiler.Policy.Basic

/-!
# Phrases for properties

The phrases of a property that has none by table are made from its name and its type alone, so a
property has the same phrases wherever it is declared. The name is spelled out, put in the plural
for an array, and matched against a few syntactic patterns by its parts of speech.
-/

namespace VocabularyCompiler.Phrase

open Text

/-- The part of a phrase behind its last point. -/
def lastComponent (phrase : List Char) : List Char :=
  ((splitWhere (· = '.') phrase).getLast?).getD phrase

/-- The noun phrase of a property name: its words without a trailing ` value`, in the plural if the
property holds several values. -/
def nounPhrase (name : List Char) (type : ValueType) : List Char :=
  let phrase := dropValueSuffixChars (lastComponent (spellOutChars name))
  if type.isArray then pluralizeChars phrase else phrase

/-- The phrases of how much of something there is: `sugar content` is also spoken of as sugar and
as a sugar amount, and as what something contains. -/
def nutrientContent (stem : List Char) : PhraseSet :=
  let name := String.ofList stem
  let slot := String.ofList (stem.map fun c => if c = ' ' then '_' else c)
  ((PhraseSet.new .property).set .verb ["contains #" ++ slot]).set .property
    [name ++ " content", name, name ++ " amount"]

/-- A phrase in its noun form, and its template if it follows a pattern. -/
structure Reading where
  /-- The pattern with the template. -/
  pattern : Option (PhraseTag × List Char)
  /-- The noun form. -/
  noun : List Char

/-- Whether a phrase ends in the word `of`. -/
def endsInOf (phrase : List Char) : Bool := [' ', 'o', 'f'].isSuffixOf phrase

/-- Whether the last word is a noun. -/
def lastIsNoun (tags : List PartOfSpeech) : Bool := tags.getLast?.any PartOfSpeech.isNoun

/-- Whether the first word is a participle or an adjective. -/
def firstIsParticipial (tags : List PartOfSpeech) : Bool :=
  tags.head?.any PartOfSpeech.isParticipial

/-- The reading of a phrase that began with `is`, without that word. -/
def readPredicate (rest : List Char) : Reading :=
  let tags := PartOfSpeech.tagPhraseChars rest
  if lastIsNoun tags || endsInOf rest then ⟨some (.reverseProperty, rest), rest⟩
  else if firstIsParticipial tags then ⟨some (.passiveVerb, rest), rest⟩
  else ⟨none, rest⟩

/-- The reading of a phrase that begins with neither `has` nor `is`. A verb with its object has
the object as its noun form. -/
def readPhrase (phrase : List Char) : Reading :=
  let ws := words phrase
  let tags := PartOfSpeech.tagChars ws
  match tags, ws with
  | [.vbp, object], [verb, noun] | [.vbz, object], [verb, noun] =>
    if object.isNoun then ⟨some (.verb, verb ++ ' ' :: '#' :: noun), noun⟩
    else ⟨some (.verb, phrase), phrase⟩
  | .vbp :: _, _ | .vbz :: _, _ => ⟨some (.verb, phrase), phrase⟩
  | _, _ =>
    if endsInOf phrase then ⟨some (.reverseProperty, phrase), phrase⟩
    else if firstIsParticipial tags && !lastIsNoun tags then ⟨some (.passiveVerb, phrase), phrase⟩
    else ⟨none, phrase⟩

/-- The reading of a noun phrase. -/
def reading (phrase : List Char) : Reading :=
  match dropStart? ['h', 'a', 's', ' '] phrase with
  | some rest => ⟨none, rest⟩
  | none =>
    match dropStart? ['i', 's', ' '] phrase with
    | some rest => readPredicate rest
    | none => readPhrase phrase

/-- The phrase set of a reading. -/
def Reading.toPhraseSet (r : Reading) : PhraseSet :=
  let noun := String.ofList r.noun
  let start :=
    match r.pattern with
    | some (tag, template) => (PhraseSet.new tag).set tag [String.ofList template]
    | none => PhraseSet.new .property
  (start.set .property [noun]).set .base [noun]

/-- The phrases of a property that has none by table. -/
def derive (name : String) (type : ValueType) : PhraseSet :=
  let phrase := nounPhrase name.toList type
  let stem? :=
    if type.isMeasure then dropEnd? [' ', 'c', 'o', 'n', 't', 'e', 'n', 't'] phrase else none
  match stem? with
  | some stem => nutrientContent stem
  | none => (reading phrase).toPhraseSet

/-- The phrases of a property: by table if there are any, and made from its name if not. -/
def synthesize (name : String) (type : ValueType) (policy : Policy) (manual : Bool) : PhraseSet :=
  (policy.canonicalOverride? name manual).getD (derive name type)

end VocabularyCompiler.Phrase

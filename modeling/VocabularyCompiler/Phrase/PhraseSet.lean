import VocabularyCompiler.Data.OrderedMap

/-!
# Phrase sets

The ways to speak of one property: lists of phrases, each under the syntactic pattern that it
follows. In a phrase `#` marks the place of the value.
-/

namespace VocabularyCompiler

/-- The syntactic pattern of a phrase. -/
inductive PhraseTag where
  /-- The plain name of the property. -/
  | base
  /-- A noun phrase: "restaurants with rating 5". -/
  | property
  /-- A noun phrase in front of the value: "alumni of Stanford". -/
  | reverseProperty
  /-- A passive verb phrase: "written by someone". -/
  | passiveVerb
  /-- An active verb phrase: "serves Italian food". -/
  | verb
  /-- An adjective in front of the noun. -/
  | adjective
  deriving DecidableEq, Repr

namespace PhraseTag

/-- The name of a tag. -/
def name : PhraseTag → String
  | base => "base"
  | property => "property"
  | reverseProperty => "reverse_property"
  | passiveVerb => "passive_verb"
  | verb => "verb"
  | adjective => "adjective"

/-- The names that tags are known by, legacy abbreviations included, with their tags. -/
def names : List (String × PhraseTag) :=
  [("base", base), ("npp", property), ("property", property), ("npi", reverseProperty),
    ("reverse_property", reverseProperty), ("passive_verb", passiveVerb), ("pvp", passiveVerb),
    ("avp", verb), ("verb", verb), ("adjective", adjective)]

/-- The tag with the given name, current or legacy. -/
def ofName? (name : String) : Option PhraseTag :=
  (names.find? fun e => e.1 = name).map Prod.snd

theorem ofName?_name (tag : PhraseTag) : ofName? tag.name = some tag := by
  cases tag <;> decide

/-- Two tags do not share a name. -/
theorem name_injective : Function.Injective name := fun s t h =>
  Option.some.inj (by rw [← ofName?_name s, h, ofName?_name t])

end PhraseTag

/-- The phrases for one property. -/
structure PhraseSet where
  /-- The tag whose phrases are preferred. -/
  defaultTag : PhraseTag
  /-- The phrases under each tag. -/
  phrases : OrderedMap PhraseTag (List String)
  /-- Whether the value can stand as an adjective in front of the verb. -/
  apv : Bool
  /-- Whether the property names the thing itself. -/
  implicitIdentity : Bool
  deriving DecidableEq

namespace PhraseSet

/-- The set without phrases. -/
def new (defaultTag : PhraseTag) : PhraseSet := ⟨defaultTag, ∅, false, false⟩

instance : Inhabited PhraseSet := ⟨new .base⟩

/-- The phrases under a tag. -/
def get (s : PhraseSet) (tag : PhraseTag) : List String := (s.phrases.get? tag).getD []

/-- Replaces the phrases under a tag. -/
def set (s : PhraseSet) (tag : PhraseTag) (phrases : List String) : PhraseSet :=
  { s with phrases := s.phrases.insert tag phrases }

/-- Adds a phrase at the end of those under a tag, unless it is among them already. -/
def push (s : PhraseSet) (tag : PhraseTag) (phrase : String) : PhraseSet :=
  if phrase ∈ s.get tag then s else s.set tag (s.get tag ++ [phrase])

end PhraseSet

end VocabularyCompiler

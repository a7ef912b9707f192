import VocabularyCompiler.ClassDefinition.Basic

/-!
# Sample values

Example values of an argument come from datasets that are known by keys. Several keys may lead to
the dataset of an argument; the most specific one is tried first.
-/

namespace VocabularyCompiler

/-- Where sample values come from. -/
structure SampleSource where
  /-- The file of the dataset under a key. -/
  path : String → Option String
  /-- A few values of the dataset under a key. -/
  samples : String → Option (List String)

namespace SampleSource

/-- The keys under which the dataset of an argument may be known, the most specific one first: the
one that its annotations name, the one made from its query and its name, and the kind of its
entities. -/
def lookupKeys (kind query argument : String) (f : Field) : List String :=
  f.annotations.stringValues.toList ++ [kind ++ ":" ++ query ++ "_" ++ argument]
    ++ f.type.entityKind?.toList

/-- The file of the first dataset that is known. -/
def findPath (s : SampleSource) (keys : List String) : Option String := keys.findSome? s.path

/-- The values of the first dataset that has any. -/
def findSamples (s : SampleSource) (keys : List String) : Option (List String) :=
  keys.findSome? s.samples

end SampleSource

end VocabularyCompiler

import VocabularyCompiler.Files.Path
import VocabularyCompiler.Error
import VocabularyCompiler.Samples.Source
import VocabularyCompiler.Text.Words

/-!
# Dataset indexes

An index lists datasets, one in a row, as columns with tabs between them: the type, the key and the
path of the dataset, with or without its language in front. A dataset has one value in a row, in
its first column.
-/

namespace VocabularyCompiler

open Text

/-- An index of datasets. -/
structure DatasetIndex where
  /-- The directory that the paths are relative to. -/
  root : String
  /-- The paths of datasets by their keys. -/
  paths : OrderedMap String String
  /-- How many values are taken from a dataset. -/
  maxSamples : Nat

namespace DatasetIndex

/-- How many values are taken from a dataset unless told otherwise. -/
def defaultMaxSamples : Nat := 10

/-- The columns of a row. -/
def columns (row : List Char) : List (List Char) := splitWhere (· = '\t') row

/-- The key and the path in a row of an index. Other rows count for nothing. -/
def entry? (row : List Char) : Option (String × String) :=
  if (trim row).isEmpty then none
  else
    match columns row with
    | [_, _, key, path] | [_, key, path] => some (String.ofList key, String.ofList path)
    | _ => none

/-- Reads an index. -/
def parse (root text : String) : DatasetIndex :=
  ⟨root, .ofList ((lines text.toList).filterMap entry?), defaultMaxSamples⟩

/-- The index with another number of values to take. -/
def withMaxSamples (i : DatasetIndex) (n : Nat) : DatasetIndex := { i with maxSamples := n }

/-- The path of the dataset under a key. -/
def path? (i : DatasetIndex) (key : String) : Option String :=
  (i.paths.get? key).map (Path.join i.root)

/-- The values in a dataset: what is left of the first columns without white space around them. -/
def values (text : String) : List String :=
  ((lines text.toList).map fun row => trim ((columns row).head?.getD [])).filterMap fun v =>
    if v.isEmpty then none else some (String.ofList v)

/-- The first values of the dataset under a key, if it can be read and has any. -/
def samples? (readFile : String → Except FileFault String) (i : DatasetIndex) (key : String) :
    Option (List String) := do
  let text ← (readFile (← i.path? key)).toOption
  match (values text).take i.maxSamples with
  | [] => none
  | vs => some vs

/-- The index as a source of sample values. -/
def toSource (readFile : String → Except FileFault String) (i : DatasetIndex) : SampleSource :=
  ⟨i.path?, i.samples? readFile⟩

end DatasetIndex

end VocabularyCompiler

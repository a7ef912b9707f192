import VocabularyCompiler.Policy.Basic

/-!
# Dataset keys

Texts name the dataset that their values come from, and so do entities for which the policy knows
one. The key of a dataset is put together from the names on the way to the field.
-/

namespace VocabularyCompiler

/-- The dataset for a field of the given type whose key is `key`. -/
def datasetFor? (p : Policy) (key : String) (type : ValueType) : Option String :=
  match type.element with
  | .entity _ => p.stringValueOverrides.get? key
  | .string => some ((p.stringValueOverrides.get? key).getD key)
  | _ => none

/-- Annotations with the dataset for a field, if there is one. -/
def Annotations.withDataset (p : Policy) (key : String) (type : ValueType) (a : Annotations) :
    Annotations :=
  match datasetFor? p key type with
  | some source => { a with stringValues := some source }
  | none => a

mutual

/-- A type whose compound members name their datasets. Members with a point in their name, which
no path can lead to, are left as they are. -/
def ValueType.attachDatasets (p : Policy) (key : String) : ValueType → ValueType
  | .array t => .array (t.attachDatasets p key)
  | .compound name fields => .compound name (attachDatasets p key fields)
  | t => t
termination_by structural t => t

/-- Members of a compound type that name their datasets; `stem` is the key of the type. -/
def attachDatasets (p : Policy) (stem : String) : List Field → List Field
  | [] => []
  | ⟨name, type, canonical, annotations⟩ :: rest =>
    (if '.' ∈ name.toList then ⟨name, type, canonical, annotations⟩
    else
      let key := stem ++ "_" ++ name
      ⟨name, type.attachDatasets p key, canonical, annotations.withDataset p key type⟩)
      :: attachDatasets p stem rest
termination_by structural l => l

end

/-- A field that names its datasets, under the given key. -/
def Field.attachDatasets (p : Policy) (key : String) (f : Field) : Field :=
  { f with
    type := f.type.attachDatasets p key
    annotations := f.annotations.withDataset p key f.type }

end VocabularyCompiler

import VocabularyCompiler.Phrase.PhraseSet

/-!
# Value types and fields

The types of arguments in the target language. A compound type holds fields of its own, so types
and fields are declared together.
-/

namespace VocabularyCompiler

/-- What a field is marked with, beyond its type and phrases. -/
structure Annotations where
  /-- The type that the vocabulary gives the property. -/
  orgSchemaType : Option String := none
  /-- Whether each value belongs to one record only. -/
  unique : Option Bool := none
  /-- Whether queries may filter by the field. -/
  filterable : Option Bool := none
  /-- Whether the field is left out when records are normalized. -/
  drop : Option Bool := none
  /-- The key of the dataset that the values come from. -/
  stringValues : Option String := none
  deriving DecidableEq, Inhabited

mutual

/-- A value type of the target language. -/
inductive ValueType where
  | any
  | boolean
  | number
  | string
  | date
  | time
  | location
  | currency
  /-- A quantity in a base unit. -/
  | measure (unit : String)
  /-- An entity of some kind. -/
  | entity (kind : String)
  /-- One of several words. -/
  | enum (literals : List String)
  | array (element : ValueType)
  /-- A record, named after the type that it was made from. -/
  | compound (name : String) (fields : List Field)

/-- An argument of a query or a member of a compound type. -/
structure Field where
  name : String
  type : ValueType
  canonical : Option PhraseSet
  annotations : Annotations

end

instance : Inhabited ValueType := ⟨.any⟩

instance : Inhabited Field := ⟨⟨"", .any, none, {}⟩⟩

namespace ValueType

/-- Whether a type is an array. -/
def isArray : ValueType → Bool
  | array _ => true
  | _ => false

/-- Whether a type is a measure. -/
def isMeasure : ValueType → Bool
  | measure _ => true
  | _ => false

/-- The type inside all layers of arrays. -/
def element : ValueType → ValueType
  | array t => t.element
  | t => t
termination_by structural t => t

/-- A type with the type inside all layers of arrays changed. -/
def mapElement (f : ValueType → ValueType) : ValueType → ValueType
  | array t => array (t.mapElement f)
  | t => f t
termination_by structural t => t

/-- The kind of entity inside all layers of arrays. -/
def entityKind? (t : ValueType) : Option String :=
  match t.element with
  | entity kind => some kind
  | _ => none

/-- The fields of the compound type inside all layers of arrays. -/
def members? (t : ValueType) : Option (List Field) :=
  match t.element with
  | compound _ fields => some fields
  | _ => none

/-- A type with the fields changed that it holds inside all layers of arrays. -/
def mapMembers (f : List Field → List Field) (t : ValueType) : ValueType :=
  t.mapElement fun
    | compound name fields => compound name (f fields)
    | other => other

end ValueType

end VocabularyCompiler

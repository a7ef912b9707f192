/-!
# Options of a class

A class may be made for a part of the vocabulary that has a name of its own.
-/

namespace VocabularyCompiler

/-- What a class is made with, beside the policy. -/
structure Options where
  /-- The name of the part of the vocabulary that the class covers. -/
  className : Option String := none
  /-- Whether the curated phrases for particular domains are used. -/
  manual : Bool := false

namespace Options

/-- The identifier of the class. -/
def kind (o : Options) : String :=
  match o.className with
  | some name => "org.schema." ++ name
  | none => "org.schema"

/-- What the names of the class's entities begin with. -/
def entityPrefix (o : Options) : String := o.kind ++ ":"

/-- The name of the class to show. -/
def displayName (o : Options) : String :=
  match o.className with
  | some name => name ++ " in Schema.org"
  | none => "Schema.org"

end Options

end VocabularyCompiler

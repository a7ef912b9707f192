import VocabularyCompiler.Error

/-!
# Facts

What a vocabulary says, one statement at a time: this is a class, this is a property, this is a
literal of an enumeration. Names in facts are local to the vocabulary; a namespace tells which
identifiers are.
-/

namespace VocabularyCompiler

/-- A statement of a vocabulary. -/
inductive Fact where
  /-- A class with the classes that it extends. -/
  | classFact (name : String) (parents : List String) (comment : String) (superseded : Bool)
  /-- A property of the classes `domains` with values in `ranges`. -/
  | propertyFact (name : String) (domains ranges : List String) (comment : String)
      (superseded : Bool)
  /-- A literal of an enumeration. -/
  | literalFact (name enumType : String) (superseded : Bool)
  deriving DecidableEq, Repr

namespace Fact

/-- What a fact is about. -/
def name : Fact → String
  | classFact name .. | propertyFact name .. | literalFact name .. => name

/-- Whether something newer stands in for what a fact is about. -/
def isSuperseded : Fact → Bool
  | classFact _ _ _ superseded | propertyFact _ _ _ _ superseded | literalFact _ _ superseded =>
    superseded

end Fact

/-- The prefixes of the identifiers that belong to a vocabulary. -/
structure Namespace where
  prefixes : List String

namespace Namespace

/-- The namespace of schema.org. -/
def standard : Namespace := ⟨["http://schema.org/", "https://schema.org/", "schema:"]⟩

/-- The local name of an identifier: what follows the first prefix that it begins with. -/
def strip? (ns : Namespace) (iri : String) : Option String :=
  ns.prefixes.findSome? fun p => (Text.dropStart? p.toList iri.toList).map String.ofList

/-- The local name of an identifier that has to be in the namespace. -/
def localName (ns : Namespace) (iri : String) : Except CompileError String :=
  match ns.strip? iri with
  | some name => .ok name
  | none => .error (.foreignIdentifier iri)

end Namespace

end VocabularyCompiler

import VocabularyCompiler.Text.Words

/-!
# Errors and diagnostics

A compilation yields a complete class or stops with an error. What it can go on from is noted as a
diagnostic: a warning where something was dropped or demoted, and a debug note elsewhere.
-/

namespace VocabularyCompiler

/-- Why a file could not be used. -/
inductive FileFault where
  | notFound
  | alreadyExists
  | notADirectory
  | isADirectory
  | notText
  /-- Anything else that the system says. -/
  | other (detail : String)
  deriving DecidableEq, Repr

/-- The wording of a file fault. -/
def FileFault.message : FileFault → String
  | notFound => "No such file or directory (os error 2)"
  | alreadyExists => "File exists (os error 17)"
  | notADirectory => "Not a directory (os error 20)"
  | isADirectory => "Is a directory (os error 21)"
  | notText => "stream did not contain valid UTF-8"
  | other detail => detail

/-- Why a compilation stops. -/
inductive CompileError where
  /-- A node that is neither class nor property nor enumeration literal. -/
  | unrecognizedFact (id kind : String)
  /-- An identifier that should be in the vocabulary's namespace and is not. -/
  | foreignIdentifier (iri : String)
  /-- A document that cannot be read. -/
  | malformedDocument (detail : String)
  /-- A struct type without any field left. -/
  | emptyStruct (name : String)
  /-- A type that no fact declares. -/
  | unknownType (name : String)
  | io (fault : FileFault)
  /-- A list type that is its own element type, directly or through others. -/
  | endlessList (name : String)
  deriving DecidableEq, Repr

/-- The wording of an error. -/
def CompileError.message : CompileError → String
  | unrecognizedFact id kind =>
    "don't know how to handle a fact of type `" ++ kind ++ "` (node " ++ id ++ ")"
  | foreignIdentifier iri => "identifier `" ++ iri ++ "` is outside the ontology namespace"
  | malformedDocument detail => "malformed ontology document: " ++ detail
  | emptyStruct name => "struct type " ++ name ++ " has no fields"
  | unknownType name => "type " ++ name ++ " is referenced but was never declared"
  | io fault => "IO error: " ++ fault.message
  | endlessList name => "list type " ++ name ++ " is its own element type"

/-- How much a diagnostic matters. -/
inductive Level where
  | debug
  | warning
  deriving DecidableEq, Repr

/-- Something worth knowing about a type or a property. -/
structure Diagnostic where
  level : Level
  /-- The type or property. -/
  subject : String
  message : String
  deriving DecidableEq, Repr

/-- A warning. -/
def Diagnostic.warn (subject message : String) : Diagnostic := ⟨.warning, subject, message⟩

/-- A debug note. -/
def Diagnostic.note (subject message : String) : Diagnostic := ⟨.debug, subject, message⟩

/-- A diagnostic on one line. -/
def Diagnostic.render (d : Diagnostic) : String := d.subject ++ ": " ++ d.message

/-- Diagnostics in the order of their occurrence. -/
abbrev Diagnostics := List Diagnostic

namespace Diagnostics

/-- The warnings among diagnostics. -/
def warnings (ds : Diagnostics) : Diagnostics := ds.filter fun d => d.level = .warning

/-- Whether some diagnostic about `subject` has `needle` in its message. -/
def mentions (ds : Diagnostics) (subject needle : String) : Bool :=
  ds.any fun d => d.subject = subject && Text.isInside needle.toList d.message.toList

end Diagnostics

end VocabularyCompiler

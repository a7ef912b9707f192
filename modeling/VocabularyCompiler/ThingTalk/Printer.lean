import VocabularyCompiler.ClassDefinition.Basic
import VocabularyCompiler.Text.Quoted

/-!
# ThingTalk

A class as source text of the target language. It is first laid out as a sequence of pieces, which
tells apart bare text, quoted text and line breaks, and then the pieces are written one after
another. Quoted text stays on its line whatever it holds.
-/

namespace VocabularyCompiler.ThingTalk

open Text

/-- A piece of source text. -/
inductive Piece where
  /-- Text as it stands. -/
  | bare (s : String)
  /-- A text between quotes. -/
  | quoted (s : String)
  /-- The end of a line, and the indent of the next one. -/
  | line (depth : Nat)
  deriving DecidableEq, Repr

/-- The indent of a line. -/
def indent (depth : Nat) : String := String.join (List.replicate depth "  ")

/-- A piece as text. -/
def Piece.render : Piece → String
  | bare s => s
  | quoted s => jsonLiteral s
  | line depth => "\n" ++ indent depth

/-- Pieces as text. -/
def render (pieces : List Piece) : String := String.join (pieces.map Piece.render)

/-- Groups of pieces with a separator between neighbours. -/
def separated (separator : List Piece) : List (List Piece) → List Piece
  | [] => []
  | [g] => g
  | g :: rest => g ++ separator ++ separated separator rest

/-- A truth value. -/
def truth (b : Bool) : Piece := .bare (if b then "true" else "false")

/-- A phrase set: its default, the phrases under each tag, and the flags that are set. -/
def phraseSet (s : PhraseSet) : List Piece :=
  let tag (e : PhraseTag × List String) : List Piece :=
    .bare (e.1.name ++ "=[") :: separated [.bare ","] (e.2.map fun p => [.quoted p]) ++ [.bare "]"]
  let parts : List (List Piece) :=
    [.bare "default=", .quoted s.defaultTag.name] :: s.phrases.entries.map tag
      ++ (if s.apv then [[.bare "apv=true"]] else [])
      ++ (if s.implicitIdentity then [[.bare "implicit_identity=true"]] else [])
  .bare "\x7b" :: separated [.bare ","] parts ++ [.bare "\x7d"]

/-- An annotation on a line of its own. -/
def annotation (depth : Nat) (key : String) (value : Piece) : List Piece :=
  [.line depth, .bare ("#[" ++ key ++ "="), value, .bare "]"]

/-- Annotations, each on a line of its own; those that are absent are left out. -/
def annotations (depth : Nat) (a : Annotations) : List Piece :=
  let text (key : String) (v : Option String) := v.elim [] fun s => annotation depth key (.quoted s)
  let flag (key : String) (v : Option Bool) := v.elim [] fun b => annotation depth key (truth b)
  text "org_schema_type" a.orgSchemaType ++ flag "unique" a.unique
    ++ flag "filterable" a.filterable ++ flag "drop" a.drop ++ text "string_values" a.stringValues

/-- What follows the type of a field: its phrases and its annotations. -/
def fieldTail (depth : Nat) (canonical : Option PhraseSet) (a : Annotations) : List Piece :=
  (canonical.elim [] fun s =>
    .line depth :: .bare "#_[canonical=" :: phraseSet s ++ [.bare "]"]) ++ annotations depth a

mutual

/-- A type. The members of a compound type stand on lines of their own, one level deeper. -/
def valueType (depth : Nat) : ValueType → List Piece
  | .any => [.bare "Any"]
  | .boolean => [.bare "Boolean"]
  | .number => [.bare "Number"]
  | .string => [.bare "String"]
  | .date => [.bare "Date"]
  | .time => [.bare "Time"]
  | .location => [.bare "Location"]
  | .currency => [.bare "Currency"]
  | .measure unit => [.bare ("Measure(" ++ unit ++ ")")]
  | .entity kind => [.bare ("Entity(" ++ kind ++ ")")]
  | .enum literals => [.bare ("Enum(" ++ ", ".intercalate literals ++ ")")]
  | .array t => .bare "Array(" :: valueType depth t ++ [.bare ")"]
  | .compound _ fields =>
    .bare "\x7b" :: separated [.bare ","] (members (depth + 1) fields)
      ++ [.line depth, .bare "\x7d"]
termination_by structural t => t

/-- The members of a compound type, each from its line break on. -/
def members (depth : Nat) : List Field → List (List Piece)
  | [] => []
  | ⟨name, type, canonical, a⟩ :: rest =>
    (.line depth :: .bare (name ++ ": ") :: valueType depth type ++ fieldTail depth canonical a)
      :: members depth rest
termination_by structural l => l

end

/-- An argument of a query, from its line break on. -/
def argument (depth : Nat) (f : Field) : List Piece :=
  .line depth :: .bare ("out " ++ f.name ++ ": ") :: valueType depth f.type
    ++ fieldTail depth f.canonical f.annotations

/-- The first line of a query. -/
def queryHead (q : Query) : String :=
  (if q.isMonitorable then "monitorable " else "") ++ (if q.isList then "list " else "")
    ++ "query " ++ q.name
    ++ (if q.parents.isEmpty then "" else " extends " ++ ", ".intercalate q.parents) ++ "("

/-- A query, from the line break in front of it on. -/
def query (q : Query) : List Piece :=
  [.line 0, .line 1, .bare (queryHead q)]
    ++ separated [.bare ","] (q.fields.map (argument 2))
    ++ [.line 1, .bare ")"]
    ++ [.line 1, .bare "#_[canonical=", .quoted q.canonical, .bare "]"]
    ++ [.line 1, .bare "#_[confirmation=", .quoted q.confirmation, .bare "]"]
    ++ [.line 1, .bare "#[confirm=", truth q.confirm, .bare "];"]

/-- An import on a line of its own. -/
def importLine (i : Import) : List Piece :=
  [.line 1, .bare ("import " ++ i.facet ++ " from @" ++ i.moduleName ++ "();")]

/-- A class as pieces of source text. -/
def classPieces (c : ClassDefinition) : List Piece :=
  [.bare ("class @" ++ c.kind), .line 0, .bare "#_[name=", .quoted c.name, .bare "]", .line 0,
    .bare "#_[description=", .quoted c.description, .bare "] \x7b"]
    ++ c.imports.flatMap importLine
    ++ c.queries.values.flatMap query
    ++ [.line 0, .bare "\x7d", .line 0]

end VocabularyCompiler.ThingTalk

namespace VocabularyCompiler

/-- A class as source text. -/
def ClassDefinition.toThingTalk (c : ClassDefinition) : String :=
  ThingTalk.render (ThingTalk.classPieces c)

end VocabularyCompiler

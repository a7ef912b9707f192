import VocabularyCompiler.ClassDefinition.Basic
import VocabularyCompiler.Json.Record

/-!
# Class definitions as JSON

The written form of value types, phrase sets, fields, queries and classes, and the readers of that
form. What is absent or false is left out where the reader fills it in again.
-/

namespace VocabularyCompiler

open Json

namespace PhraseTag

/-- Reads a tag by its name, current or legacy. -/
def read : Reader PhraseTag :=
  Reader.variant (names.map fun e => ⟨e.1, .unit e.2⟩)

end PhraseTag

namespace PhraseSet

/-- A set as JSON: the tags stand beside the flags, and a flag is only written if it is set. -/
def toJson (s : PhraseSet) : Value :=
  .object <|
    ("default", .string s.defaultTag.name)
      :: s.phrases.entries.map (fun e => (e.1.name, .strings e.2))
      ++ (if s.apv then [("apv", .bool true)] else [])
      ++ (if s.implicitIdentity then [("implicit_identity", .bool true)] else [])

/-- A set under construction, with the members that are neither the default nor a flag. -/
structure Draft where
  defaultTag : Option PhraseTag := none
  apv : Option Bool := none
  implicitIdentity : Option Bool := none
  others : List (String × Source) := []

/-- The fields that stand beside the tags. -/
def flags : List (FieldReader Draft) :=
  [.mandatory "default" PhraseTag.read fun d tag => { d with defaultTag := some tag },
    .optional "apv" Reader.bool fun d b => { d with apv := some b },
    .optional "implicit_identity" Reader.bool fun d b => { d with implicitIdentity := some b }]

/-- Reads the members of a set. Those under a tag are read whole now and as phrases later. -/
def readMembers (scope : Scope) (d : Draft) (seen : List String) :
    List (Key × Source) → Except ReadError Draft
  | [] => .ok d
  | (.absent fault _, _) :: _ => Reader.within .unknown (Reader.fail (.malformed fault))
  | (.flawed fault, _) :: _ => Reader.within .unknown (Reader.fail (.malformed fault))
  | (.name key, source) :: rest =>
    match flags.find? fun f => f.isNamed key with
    | some f =>
      if f.name ∈ seen then Reader.fail (.duplicateField f.name)
      else do
        let d ← Reader.atMember key (f.read d scope) source
        readMembers scope d (f.name :: seen) rest
    | none => do
      let _ ← Reader.atMember key (Reader.any scope.budget) source
      readMembers scope { d with others := d.others ++ [(key, source)] } seen rest

/-- An error without its place: the phrases of a set are at the place of the set. -/
def atSet {α : Type} (result : Except ReadError α) : Except ReadError α :=
  result.mapError fun e => { e with path := [] }

/-- Reads the phrases under tags. Of two names of one tag the later one counts. -/
def readPhrases (s : PhraseSet) : List (String × Source) → Except ReadError PhraseSet
  | [] => .ok s
  | (key, source) :: rest => do
    let scope : Scope := ⟨.memory, source.height⟩
    let tag ← atSet (PhraseTag.read scope (.string key))
    let phrases ← atSet (Reader.list Reader.string scope source)
    readPhrases (s.set tag phrases) rest

/-- Reads a set. -/
def read : Reader PhraseSet
  | scope, .object members => do
    let inner ← Reader.enter scope
    let d ← readMembers inner {} [] members
    match d.defaultTag with
    | none => Reader.fail (.missingField "default")
    | some tag =>
      readPhrases ⟨tag, ∅, d.apv.getD false, d.implicitIdentity.getD false⟩ d.others
  | _, other => Reader.mismatch "struct CanonicalPhraseSet" other

end PhraseSet

namespace Annotations

/-- Annotations as JSON; those that are absent are left out. -/
def toJson (a : Annotations) : Value :=
  let text (key : String) (v : Option String) := (v.map fun s => (key, Value.string s)).toList
  let flag (key : String) (v : Option Bool) := (v.map fun b => (key, Value.bool b)).toList
  .object <|
    text "org_schema_type" a.orgSchemaType ++ flag "unique" a.unique
      ++ flag "filterable" a.filterable ++ flag "drop" a.drop ++ text "string_values" a.stringValues

/-- Reads annotations. -/
def read : Reader Annotations :=
  Reader.record "struct Annotations"
    [.optional "org_schema_type" (.option .string) fun a v => { a with orgSchemaType := v },
      .optional "unique" (.option .bool) fun a v => { a with unique := v },
      .optional "filterable" (.option .bool) fun a v => { a with filterable := v },
      .optional "drop" (.option .bool) fun a v => { a with drop := v },
      .optional "string_values" (.option .string) fun a v => { a with stringValues := v }]
    {}

end Annotations

mutual

/-- A type as JSON: its bare name, or an object from its name to what it holds. -/
def ValueType.toJson : ValueType → Value
  | .any => .string "Any"
  | .boolean => .string "Boolean"
  | .number => .string "Number"
  | .string => .string "String"
  | .date => .string "Date"
  | .time => .string "Time"
  | .location => .string "Location"
  | .currency => .string "Currency"
  | .measure unit => .object [("Measure", .string unit)]
  | .entity kind => .object [("Entity", .string kind)]
  | .enum literals => .object [("Enum", .strings literals)]
  | .array t => .object [("Array", t.toJson)]
  | .compound name fields =>
    .object [("Compound", .object [("name", .string name), ("fields", .array (fieldsToJson fields))])]
termination_by structural t => t

/-- Fields as JSON; a field without phrases is written without them. -/
def fieldsToJson : List Field → List Value
  | [] => []
  | ⟨name, type, canonical, annotations⟩ :: rest =>
    .object
      (("name", .string name) :: ("ty", type.toJson)
        :: (canonical.map fun c => ("canonical", c.toJson)).toList
        ++ [("annotations", annotations.toJson)])
      :: fieldsToJson rest
termination_by structural l => l

end

/-- A field as JSON. -/
def Field.toJson (f : Field) : Value :=
  .object
    (("name", .string f.name) :: ("ty", f.type.toJson)
      :: (f.canonical.map fun c => ("canonical", c.toJson)).toList
      ++ [("annotations", f.annotations.toJson)])

/-- Reads a field, given a reader of its type. -/
def Field.readWith (readType : Reader ValueType) : Reader Field :=
  Reader.record "struct Field"
    [.mandatory "name" .string fun f v => { f with name := v },
      .mandatory "ty" readType fun f v => { f with type := v },
      .optional "canonical" (.option PhraseSet.read) fun f v => { f with canonical := v },
      .optional "annotations" Annotations.read fun f v => { f with annotations := v }]
    ⟨"", .any, none, {}⟩

namespace ValueType

/-- The variants of a type, given a reader of the types inside it. -/
def variants (readType : Reader ValueType) : List (Reader.Variant ValueType) :=
  [⟨"Any", .unit any⟩, ⟨"Boolean", .unit boolean⟩, ⟨"Number", .unit number⟩,
    ⟨"String", .unit string⟩, ⟨"Date", .unit date⟩, ⟨"Time", .unit time⟩,
    ⟨"Location", .unit location⟩, ⟨"Currency", .unit currency⟩,
    ⟨"Measure", .single fun scope s => (Reader.string scope s).map measure⟩,
    ⟨"Entity", .single fun scope s => (Reader.string scope s).map entity⟩,
    ⟨"Enum", .single fun scope s => (Reader.list Reader.string scope s).map enum⟩,
    ⟨"Array", .single fun scope s => (readType scope s).map array⟩,
    ⟨"Compound", .fields fun scope s =>
      (Reader.record "struct variant Ty::Compound"
        [.mandatory "name" .string fun p v => (v, p.2),
          .mandatory "fields" (.list (Field.readWith readType)) fun p v => (p.1, v)]
        ("", []) scope s).map fun p => compound p.1 p.2⟩]

/-- Reads a type with fewer than `n` types around its innermost one. -/
def readWithin : Nat → Reader ValueType
  | 0, _, _ => Reader.fail (.malformed .tooDeep)
  | n + 1, scope, source => Reader.variant (variants (readWithin n)) scope source

/-- Reads a type. Every type inside another one stands in a container of its own, so the number of
containers that may be opened bounds the depth. -/
def read : Reader ValueType := fun scope source => readWithin (scope.budget + 1) scope source

end ValueType

/-- Reads a field. -/
def Field.read : Reader Field := Field.readWith ValueType.read

namespace Query

/-- A query as JSON. -/
def toJson (q : Query) : Value :=
  .object
    [("name", .string q.name), ("extends", .strings q.parents), ("canonical", .string q.canonical),
      ("confirmation", .string q.confirmation), ("is_list", .bool q.isList),
      ("is_monitorable", .bool q.isMonitorable), ("confirm", .bool q.confirm),
      ("fields", .array (fieldsToJson q.fields))]

/-- Reads a query. -/
def read : Reader Query :=
  Reader.record "struct QueryDef"
    [.mandatory "name" .string fun q v => { q with name := v },
      .mandatory "extends" (.list .string) fun q v => { q with parents := v },
      .mandatory "canonical" .string fun q v => { q with canonical := v },
      .mandatory "confirmation" .string fun q v => { q with confirmation := v },
      .mandatory "is_list" .bool fun q v => { q with isList := v },
      .mandatory "is_monitorable" .bool fun q v => { q with isMonitorable := v },
      .mandatory "confirm" .bool fun q v => { q with confirm := v },
      .mandatory "fields" (.list Field.read) fun q v => { q with fields := v }]
    default

end Query

namespace Import

/-- An import as JSON. -/
def toJson (i : Import) : Value :=
  .object [("facet", .string i.facet), ("module", .string i.moduleName)]

/-- Reads an import. -/
def read : Reader Import :=
  Reader.record "struct Import"
    [.mandatory "facet" .string fun i v => { i with facet := v },
      .mandatory "module" .string fun i v => { i with moduleName := v }]
    default

end Import

namespace ClassDefinition

/-- A class as JSON. -/
def toJson (c : ClassDefinition) : Value :=
  .object
    [("kind", .string c.kind), ("name", .string c.name), ("description", .string c.description),
      ("imports", .array (c.imports.map Import.toJson)),
      ("queries", .object (c.queries.entries.map fun e => (e.1, e.2.toJson)))]

/-- Reads a class. -/
def read : Reader ClassDefinition :=
  Reader.record "struct ClassDef"
    [.mandatory "kind" .string fun c v => { c with kind := v },
      .mandatory "name" .string fun c v => { c with name := v },
      .mandatory "description" .string fun c v => { c with description := v },
      .mandatory "imports" (.list Import.read) fun c v => { c with imports := v },
      .mandatory "queries" (.map Query.read) fun c v => { c with queries := v }]
    default

end ClassDefinition

end VocabularyCompiler

import VocabularyCompiler.ClassDefinition.Basic
import VocabularyCompiler.Lowering.Choice
import VocabularyCompiler.Lowering.Options
import VocabularyCompiler.Lowering.StringValues
import VocabularyCompiler.Lowering.StructFields
import VocabularyCompiler.Phrase.Synthesis
import VocabularyCompiler.TypeGraph.Emission

/-!
# Lowering

An analyzed graph becomes a class: each emitted type a query, each of its properties an argument.
A range becomes a value type. Lists are unrolled down to what they are lists of, structs become
compound types with fields of their own, and everything else that is not built in or an
enumeration becomes an entity. A struct inside itself becomes an entity too, which ends the
recursion.
-/

namespace VocabularyCompiler

/-- What lowering goes by. -/
structure Lowering where
  graph : TypeGraph
  policy : Policy
  options : Options

namespace Lowering

/-- A computation that notes diagnostics and may stop with an error. -/
abbrev Step (α : Type) := StateT Diagnostics (Except CompileError) α

/-- Notes diagnostics. -/
def report (notes : Diagnostics) : Step Unit := modify (· ++ notes)

/-- Stops with an error. -/
def stop {α : Type} (e : CompileError) : Step α := throw e

/-- The entity of a type. -/
def entityOf (l : Lowering) (name : String) : ValueType :=
  .entity (l.options.entityPrefix ++ name)

/-- The argument or member that a property becomes, given how ranges are lowered; there is none if
the property is dropped. -/
def property (l : Lowering) (lowerRange : String → Step ValueType) (name : String)
    (decl : PropertyDecl) : Step (Option Field) := do
  let (choice, notes) := Choice.choose l.graph l.policy name decl
  report notes
  match choice with
  | none => return none
  | some choice =>
    let type ← match choice.shape with
      | .fixed type => pure type
      | .lower array => ValueType.wrap array <$> lowerRange choice.range
    return some
      { name := name
        type := type
        canonical := some (Phrase.synthesize name type l.policy l.options.manual)
        annotations := { orgSchemaType := some choice.range } }

/-- The annotations of a compound member that is made from the property `name`, in a query that
has a location of its own if `hasGeo` is set. -/
def memberAnnotations (p : Policy) (hasGeo : Bool) (name : String) (a : Annotations) :
    Annotations :=
  if p.noFilter.contains name then { a with filterable := some false }
  else if hasGeo && p.dropWithGeo.contains name then
    { a with filterable := some false, drop := some true }
  else a

/-- The members that properties become, given how ranges are lowered. -/
def members (l : Lowering) (hasGeo : Bool) (lowerRange : String → Step ValueType) :
    List PropertyDecl → Step (List Field)
  | [] => return []
  | decl :: rest => do
    let field? ← l.property lowerRange decl.name decl
    let fields ← l.members hasGeo lowerRange rest
    match field? with
    | none => return fields
    | some f =>
      return { f with annotations := memberAnnotations l.policy hasGeo decl.name f.annotations }
        :: fields

/-- The compound type of a struct, given how the ranges of its properties are lowered. -/
def compound (l : Lowering) (hasGeo : Bool) (lowerRange : String → Step ValueType)
    (name : String) : Step ValueType := do
  match ← l.members hasGeo lowerRange (l.graph.structProperties l.policy name) with
  | [] => stop (.emptyStruct name)
  | fields => return .compound name fields

/-- The value type of a range, given how the ranges that it comes down to are lowered. `building`
names the structs that the range stands inside, the outermost first. -/
def lowerStep (l : Lowering) (hasGeo : Bool) (lower : List String → String → Step ValueType)
    (building : List String) (range : String) : Step ValueType :=
  match l.policy.builtinTypes.get? range, l.graph.get? range with
  | some type, _ => return type
  | none, none => stop (.unknownType range)
  | none, some node =>
    if node.classification.isItemList then do
      let item := node.classification.itemType.getD l.policy.rootType
      if l.policy.isBuiltin item || l.graph.contains item then
        return .array (← lower building item)
      else do
        report [.note range
          ("list element type " ++ item ++ " is not declared, using an entity reference")]
        return .array (l.entityOf item)
    else if node.classification.isEnum then return .enum node.literals.items
    else if node.classification.representAsStruct then
      if range ∈ building then do
        report [.warn range ("recursive struct through "
          ++ " → ".intercalate building ++ ", represented as an entity")]
        return l.entityOf range
      else l.compound hasGeo (lower (building ++ [range])) range
    else return l.entityOf range

/-- The value type of a range, found in at most `n` steps down. -/
def lowerRange (l : Lowering) (hasGeo : Bool) : Nat → List String → String → Step ValueType
  | 0, _, range => stop (.endlessList range)
  | n + 1, building, range => l.lowerStep hasGeo (l.lowerRange hasGeo n) building range

/-- How many steps down a lowering can take unless it never ends. The structs around a range are
different types, and so are the lists between one struct and the next one, except on a list that
comes round to itself. -/
def depth (l : Lowering) : Nat := (l.graph.size + 1) * (l.graph.size + 2)

/-- The value type of the range of an argument. -/
def lowerArgument (l : Lowering) (hasGeo : Bool) (range : String) : Step ValueType :=
  l.lowerRange hasGeo l.depth [] range

/-- The argument that identifies a record of the type `name`. -/
def idField (l : Lowering) (name : String) : Field :=
  { name := "id"
    type := l.entityOf name
    canonical := none
    annotations := { unique := some true, filterable := some false } }

/-- The argument that names a record. -/
def nameField (l : Lowering) : Field :=
  { name := "name"
    type := .string
    canonical := none
    annotations := { orgSchemaType := some l.policy.textType, filterable := some false } }

/-- The key of the dataset of an argument. -/
def datasetKey (l : Lowering) (type argument : String) : String :=
  l.options.entityPrefix ++ type ++ "_" ++ argument

/-- The arguments that every query on the type `name` has. -/
def syntheticFields (l : Lowering) (name : String) : List Field :=
  let key := l.datasetKey name "name"
  let fields := if name = l.policy.rootType then [l.idField name] else [l.idField name, l.nameField]
  fields.map (Field.attachDatasets l.policy key)

/-- Adds the arguments that properties become. One that would take the name of an argument that is
there already is skipped. -/
def addArguments (l : Lowering) (type : String) (hasGeo : Bool) (fields : List Field) :
    List (String × PropertyDecl) → Step (List Field)
  | [] => return fields
  | (name, decl) :: rest => do
    let argument := l.policy.escapeKeyword name
    if fields.any fun f => f.name = argument then
      report [.note type ("property " ++ name ++ " shadows a synthetic field, skipped")]
      l.addArguments type hasGeo fields rest
    else
      match ← l.property (l.lowerArgument hasGeo) name decl with
      | none => l.addArguments type hasGeo fields rest
      | some f =>
        let annotations :=
          if l.policy.noFilter.contains name then { f.annotations with filterable := some false }
          else f.annotations
        let field := { f with name := argument, annotations := annotations }
        let field := field.attachDatasets l.policy (l.datasetKey type argument)
        l.addArguments type hasGeo (fields ++ [field]) rest

/-- The query of a type. -/
def query (l : Lowering) (node : TypeNode) : Step Query := do
  let hasGeo := node.properties.contains l.policy.geoProperty
  let fields ← l.addArguments node.name hasGeo (l.syntheticFields node.name) node.properties.entries
  let phrase := Phrase.spellOut node.name
  return {
    name := l.policy.escapeKeyword node.name
    parents := node.parents.map l.policy.escapeKeyword
    canonical := phrase
    confirmation := phrase
    isList := true
    isMonitorable := false
    confirm := false
    fields := fields }

/-- The queries of types, in order. -/
def queries (l : Lowering) : List Nat → Step (List Query)
  | [] => return []
  | id :: rest => do
    match l.graph.node? id with
    | none => l.queries rest
    | some node =>
      let q ← l.query node
      return q :: (← l.queries rest)

/-- The description of every generated class. -/
def classDescription : String := "Scraped data from websites that support schema.org"

/-- The class of an analyzed graph. -/
def classDefinition (l : Lowering) : Step ClassDefinition := do
  let qs ← l.queries (l.graph.emissionOrder l.policy)
  return {
    kind := l.options.kind
    name := l.options.displayName
    description := classDescription
    imports := Import.standard
    queries := .ofList (qs.map fun q => (q.name, q)) }

end Lowering

end VocabularyCompiler

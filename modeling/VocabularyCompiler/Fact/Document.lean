import VocabularyCompiler.Fact.Basic
import VocabularyCompiler.Json.Record

/-!
# Vocabulary documents

A vocabulary comes as a JSON-LD document: a graph of nodes, each with an identifier and types. The
types tell what kind of fact a node stands for. A node that is neither a class nor a property is a
literal of every enumeration among its types.
-/

namespace VocabularyCompiler

open Json

/-- A node of a document. -/
structure Node where
  id : String
  types : List String := []
  comment : Option String := none
  /-- References to the classes that a class extends. -/
  superclasses : Option (List String) := none
  /-- References to the classes that have a property. -/
  domains : Option (List String) := none
  /-- References to the types of a property's values. -/
  ranges : Option (List String) := none
  superseded : Bool := false

namespace Node

/-- The value of a member that an object has exactly once, if it is a string. -/
def onlyString? (key : String) (members : List (Key × Source)) : Option String :=
  match members.filter fun m => match m.1 with
    | .name k => k = key
    | _ => false with
  | [(_, .string s)] => some s
  | _ => none

/-- A string. -/
def string? : Source → Option String
  | .string s => some s
  | _ => none

/-- A reference: an object with an identifier, or a bare identifier. -/
def reference? : Source → Option String
  | .object members => onlyString? "@id" members
  | other => string? other

/-- One item, or an array of items. -/
def oneOrMany? (item? : Source → Option String) : Source → Option (List String)
  | .array items _ => items.mapM item?
  | other => (item? other).map fun s => [s]

mutual

/-- The text of a literal: a string, an object with a value, or the first of an array of
literals. -/
def literal? : Source → Option String
  | .string s => some s
  | .object members => onlyString? "@value" members
  | .array items _ => (literals? items).map fun texts => texts.head?.getD ""
  | _ => none
termination_by structural s => s

/-- The texts of literals. -/
def literals? : List Source → Option (List String)
  | [] => some []
  | s :: rest =>
    match literal? s, literals? rest with
    | some text, some texts => some (text :: texts)
    | _, _ => none
termination_by structural l => l

end

/-- Reads references. -/
def readReferences : Reader (Option (List String)) :=
  .option (.oneOf "OneOrMany" (oneOrMany? reference?))

/-- Reads a node. -/
def read : Reader Node :=
  Reader.record "struct RawNode"
    [.mandatory "@id" .string fun n v => { n with id := v },
      .mandatory "@type" (.oneOf "OneOrMany" (oneOrMany? string?)) fun n v => { n with types := v },
      .optional "rdfs:comment" (.option (.oneOf "Literal" literal?))
        fun n v => { n with comment := v },
      .optional "rdfs:subClassOf" readReferences fun n v => { n with superclasses := v },
      (FieldReader.optional "http://schema.org/domainIncludes" readReferences
        fun n v => { n with domains := v }).orUnder ["schema:domainIncludes"],
      (FieldReader.optional "http://schema.org/rangeIncludes" readReferences
        fun n v => { n with ranges := v }).orUnder ["schema:rangeIncludes"],
      (FieldReader.optional "http://schema.org/supersededBy" (.option .value)
        fun n v => { n with superseded := v.isSome }).orUnder ["schema:supersededBy"]]
    ⟨"", [], none, none, none, none, false⟩

/-- Reads the nodes of a document. -/
def readGraph : Reader (List Node) :=
  Reader.record "struct RawDocument" [.mandatory "@graph" (.list read) fun _ v => v] []

/-- The local names of references; those that lead out of the vocabulary are dropped. -/
def localNames (ns : Namespace) (references : Option (List String)) : List String :=
  (references.getD []).filterMap ns.strip?

/-- The facts that a node stands for. -/
def facts (ns : Namespace) (n : Node) : Except CompileError (List Fact) :=
  let comment := n.comment.getD ""
  if "rdfs:Class" ∈ n.types then do
    return [.classFact (← ns.localName n.id) (localNames ns n.superclasses) comment n.superseded]
  else if "rdf:Property" ∈ n.types then do
    return [.propertyFact (← ns.localName n.id) (localNames ns n.domains)
      (localNames ns n.ranges) comment n.superseded]
  else
    match n.types.mapM ns.strip? with
    | some (first :: rest) => do
      let name ← ns.localName n.id
      return (first :: rest).map fun enumType => .literalFact name enumType n.superseded
    | _ => .error (.unrecognizedFact n.id (", ".intercalate n.types))

end Node

namespace Fact

/-- The facts of the nodes of a document, in order. -/
def ofNodes (ns : Namespace) : List Node → Except CompileError (List Fact)
  | [] => .ok []
  | n :: rest => do
    let here ← n.facts ns
    let after ← ofNodes ns rest
    return here ++ after

/-- An error of reading as an error of compilation. -/
def malformed (e : ReadError) : CompileError := .malformedDocument e.message

/-- The facts of a document in memory. -/
def ofValue (ns : Namespace) (v : Value) : Except CompileError (List Fact) :=
  (readValue Node.readGraph v).mapError malformed >>= ofNodes ns

/-- The facts of a document as text. -/
def ofText (ns : Namespace) (text : String) : Except CompileError (List Fact) :=
  (readText Node.readGraph text).mapError malformed >>= ofNodes ns

end Fact

end VocabularyCompiler

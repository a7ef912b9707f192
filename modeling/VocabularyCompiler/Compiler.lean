import VocabularyCompiler.Fact.Document
import VocabularyCompiler.Json.Printer
import VocabularyCompiler.Lowering.Basic
import VocabularyCompiler.Policy.Json
import VocabularyCompiler.Refinement.Annotate
import VocabularyCompiler.Refinement.Merge
import VocabularyCompiler.ThingTalk.Printer
import VocabularyCompiler.TypeGraph.Analyze

/-!
# The compiler

Facts are gathered from any number of documents and compiled into a class together. A compiled
class can be refined with the answers of an oracle.
-/

namespace VocabularyCompiler

open Json

/-- A compiler with the facts that it was given so far. -/
structure Compiler where
  policy : Policy
  options : Options
  facts : List Fact := []

/-- A compiled class, the graph that it was made from, and the diagnostics on the way. -/
structure Compiled where
  definition : ClassDefinition
  graph : TypeGraph
  diagnostics : Diagnostics

namespace Compiler

/-- The namespace of the vocabulary. -/
def vocabulary (c : Compiler) : Namespace := ⟨c.policy.namespaces⟩

/-- Adds facts. -/
def observe (c : Compiler) (facts : List Fact) : Compiler := { c with facts := c.facts ++ facts }

/-- Adds the facts of a document in memory, all of them or none. -/
def observeValue (c : Compiler) (v : Value) : Except CompileError Compiler :=
  (Fact.ofValue c.vocabulary v).map c.observe

/-- Adds the facts of a document as text, all of them or none. -/
def observeText (c : Compiler) (text : String) : Except CompileError Compiler :=
  (Fact.ofText c.vocabulary text).map c.observe

/-- Compiles the facts so far. -/
def compile (c : Compiler) : Except CompileError Compiled := do
  let (graph, notes) := TypeGraph.analyze c.policy c.facts
  let (definition, notes) ← (Lowering.mk graph c.policy c.options).classDefinition.run notes
  return ⟨definition, graph, notes⟩

end Compiler

/-- An oracle answers a request for phrases, or fails to. -/
abbrev Oracle := RefinementRequest → Except CompileError RefinementResponse

/-- The oracle that has one answer to everything. -/
def Oracle.constant (r : RefinementResponse) : Oracle := fun _ => .ok r

/-- The oracle whose answer is recorded as text, if the text can be had. -/
def Oracle.recorded (text : Except FileFault String) : Oracle := fun _ =>
  match text with
  | .error fault => .error (.io fault)
  | .ok text => (readText RefinementResponse.read text).mapError Fact.malformed

namespace Compiled

/-- Annotates the class, asks the oracle once and merges its answer. If there is none, the class
stays as annotated. -/
def refine (c : Compiled) (p : Policy) (source : Option SampleSource) (oracle : Oracle) :
    Compiled × Except CompileError Unit :=
  let (annotated, request) := Refinement.annotate p source c.definition
  match oracle request with
  | .error e => ({ c with definition := annotated }, .error e)
  | .ok response =>
    let (merged, notes) := Refinement.merge response annotated
    ({ c with definition := merged, diagnostics := c.diagnostics ++ notes }, .ok ())

/-- The class as source text of the target language. -/
def toThingTalk (c : Compiled) : String := c.definition.toThingTalk

/-- The class as JSON text. -/
def toJsonText (c : Compiled) : String := c.definition.toJson.pretty

end Compiled

end VocabularyCompiler

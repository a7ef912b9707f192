import VocabularyCompiler.CommandLine.Inputs
import VocabularyCompiler.CommandLine.Outline

/-!
# Runs

A run compiles the documents of its inputs into a class and writes it as source text or as JSON. It
can also write the request for phrases that belongs to the class, and merge a recorded answer to it.
-/

namespace VocabularyCompiler.CommandLine

open Json

variable {m : Type → Type} [Monad m]

/-- What a run leaves behind, besides files. -/
structure Outcome where
  exitCode : Nat
  /-- The text at standard output. -/
  output : String
  /-- The messages at standard error, each at the beginning of a line. -/
  messages : List String
  deriving DecidableEq, Repr

/-- The policy of a run. -/
def policy (h : Host m) : Option String → ExceptT Failure m Policy
  | none => return .standard
  | some path => do
    let text ← orFail (fun fault => .policy path (.io fault)) (h.readFile path)
    ExceptT.mk (pure ((readText Policy.read text).mapError fun e => .policy path (Fact.malformed e)))

/-- The source of sample values of a run. The datasets are read before they are used. -/
def samples (h : Host m) (s : Settings) : ExceptT Failure m (Option SampleSource) := do
  match s.datasets with
  | none => return none
  | some path =>
    let text ← orFail (fun fault => .datasets path (.io fault)) (h.readFile path)
    let index := (DatasetIndex.parse (Path.parent path) text).withMaxSamples s.maxSamples
    let paths := index.paths.keys.filterMap index.path?
    let contents ← paths.mapM fun p => do return (p, ← liftM (h.readFile p))
    return some (index.toSource fun p => (List.lookup p contents).getD (.error .notFound))

/-- Writes an output, with the directory for it if that is missing. -/
def write (h : Host m) (path text : String) : ExceptT Failure m Unit := do
  let parent := Path.parent path
  if !parent.isEmpty then orFail (.directory parent) (h.makeDirectories parent)
  orFail (.output path) (h.writeFile path text)

/-- Annotates a class, writes the request for phrases and merges the recorded answer to it, as far
as settings ask for that. -/
def refine (h : Host m) (s : Settings) (p : Policy) (c : Compiled) :
    ExceptT Failure m Compiled := do
  if !s.annotate && s.refinements.isNone then return c
  let source ← samples h s
  let (annotated, request) := Refinement.annotate p source c.definition
  if let some path := s.requestOut then write h path request.toJson.pretty
  match s.refinements with
  | none => return { c with definition := annotated }
  | some path =>
    let text ← liftM (h.readFile path)
    match Oracle.recorded text request with
    | .error e => throw (.refinements path e)
    | .ok response =>
      let (merged, notes) := Refinement.merge response annotated
      return { c with definition := merged, diagnostics := c.diagnostics ++ notes }

/-- Compiles the documents of the inputs that settings name. -/
def compile (h : Host m) (s : Settings) : ExceptT Failure m Compiled := do
  let p ← policy h s.policy
  let inputs ← s.inputs.foldlM (resolve h) []
  let start : Compiler := { policy := p, options := ⟨s.className, s.manual⟩ }
  let c ← inputs.foldlM (gather h s.filter) start
  match c.compile with
  | .error e => throw (.compile e)
  | .ok compiled => refine h s p compiled

/-- The text of a class. -/
def render (target : Target) (c : Compiled) : String :=
  match target with
  | .thingTalk => c.toThingTalk
  | .json => c.toJsonText

/-- The messages on a class: its warnings, and how much there is of everything. -/
def summary (c : Compiled) : List String :=
  let warnings := c.diagnostics.warnings
  warnings.map (fun d => "warning: " ++ d.render) ++
    ["OK " ++ toString c.definition.queries.size ++ " queries, " ++ toString warnings.length
      ++ " warnings, " ++ toString (c.diagnostics.length - warnings.length) ++ " notes"]

/-- Compiles a class and writes it. -/
def produce (h : Host m) (target : Target) (s : Settings) : ExceptT Failure m Outcome := do
  let c ← compile h s
  let text := render target c
  match s.out with
  | none => return ⟨0, text ++ "\n", summary c⟩
  | some path =>
    write h path text
    return ⟨0, "", summary c⟩

/-- How the program is used. -/
def usage : String :=
  "Usage: jsonld-osi [-v] <thingtalk|json> --input <PATH>... [--jq-expr <FILTER>] "
    ++ "[--class-name <NAME>] [--manual] [--policy <FILE>] [--datasets <FILE>] "
    ++ "[--max-samples <N>] [--refinements <FILE>] [--annotate] [--request-out <FILE>] "
    ++ "[--out <FILE>] [--no-op]"

/-- Runs the program with the arguments of a command line. -/
def run (h : Host m) (arguments : List String) : m Outcome :=
  match parse arguments with
  | .error e => return ⟨2, "", ["error: " ++ e.message, usage]⟩
  | .ok .version => return ⟨0, "jsonld-osi 0.1.0\n", []⟩
  | .ok .help => return ⟨0, usage ++ "\n", []⟩
  | .ok (.compile verbosity target s) =>
    if s.noOp then return ⟨0, "", (outline verbosity target s).lines⟩
    else do
      match ← (produce h target s).run with
      | .ok outcome => return outcome
      | .error failure => return ⟨1, "", ["error: " ++ failure.message]⟩

end VocabularyCompiler.CommandLine

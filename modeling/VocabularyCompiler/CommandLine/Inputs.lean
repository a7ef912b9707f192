import VocabularyCompiler.CommandLine.Arguments
import VocabularyCompiler.CommandLine.Failure
import VocabularyCompiler.Compiler
import VocabularyCompiler.Files.Glob.Search

/-!
# Inputs of runs

Inputs are files, named by paths or by patterns for paths, and standard input. Each holds a document
as JSON, which may go through a filter and become any number of documents.
-/

namespace VocabularyCompiler.CommandLine

open Json

variable {m : Type → Type} [Monad m]

/-- Where a document comes from. -/
inductive Input where
  | standard
  | file (path : String)
  deriving DecidableEq, Repr

/-- The name of an input in messages. -/
def Input.label : Input → String
  | standard => "<stdin>"
  | file path => path

/-- The result of an operation on files in a run. -/
def orFail {α : Type} (failure : FileFault → Failure) (operation : m (Except FileFault α)) :
    ExceptT Failure m α :=
  ExceptT.mk do return (← operation).mapError failure

/-- Whether an argument is a pattern and not a path. -/
def isPattern (argument : String) : Bool := argument.toList.any "*?[\x7b".toList.contains

/-- The inputs that an argument stands for, behind those of the arguments before it. -/
def resolve (h : Host m) (before : List Input) (argument : String) :
    ExceptT Failure m (List Input) := do
  if argument = "-" then
    if before.contains .standard then throw .repeatedInput
    return before ++ [.standard]
  else if isPattern argument then
    match Glob.PathPattern.parse argument with
    | .error fault => throw (.pattern fault)
    | .ok pattern =>
      let found ← liftM (pattern.search h)
      if found.isEmpty then throw (.nothingFound argument)
      return before ++ found.map .file
  else return before ++ [.file argument]

/-- The text of an input. -/
def Input.read (h : Host m) : Input → m (Except FileFault String)
  | standard => h.readInput
  | file path => h.readFile path

/-- The documents in the text of an input. -/
def documents (filter : Option String) (label text : String) : Except Failure (List Value) := do
  let v ← (Json.parse text).mapError (.notJson label)
  match filter with
  | none => return [v]
  | some code => (Filter.documents code v).mapError (.filter label)

/-- Gives the documents of an input to a compiler. -/
def gather (h : Host m) (filter : Option String) (c : Compiler) (input : Input) :
    ExceptT Failure m Compiler := do
  let text ← orFail (.unreadable input.label) (input.read h)
  let vs ← liftExcept (documents filter input.label text)
  liftExcept (vs.foldlM (fun c v => (c.observeValue v).mapError (.document input.label)) c)
where
  /-- A result that needs no host. -/
  liftExcept {α : Type} (result : Except Failure α) : ExceptT Failure m α := ExceptT.mk (pure result)

end VocabularyCompiler.CommandLine

import VocabularyCompiler.Error
import VocabularyCompiler.Files.Glob.Pattern
import VocabularyCompiler.Filter.Run

/-!
# Failures of runs

A run fails with the cause and what it was about. The two last kinds are failures to write an
output; all others come from what a run reads.
-/

namespace VocabularyCompiler.CommandLine

/-- Why a run fails. -/
inductive Failure where
  | policy (path : String) (e : CompileError)
  | repeatedInput
  | pattern (fault : Glob.PatternFault)
  | nothingFound (argument : String)
  | unreadable (label : String) (fault : FileFault)
  | notJson (label : String) (complaint : Json.Complaint)
  | filter (label : String) (failure : Filter.Failure)
  | document (label : String) (e : CompileError)
  | compile (e : CompileError)
  | datasets (path : String) (e : CompileError)
  | refinements (path : String) (e : CompileError)
  | directory (path : String) (fault : FileFault)
  | output (path : String) (fault : FileFault)

/-- An error and what causes it in turn. -/
def chain (e : CompileError) : String :=
  match e with
  | .io fault => e.message ++ ": " ++ fault.message
  | e => e.message

/-- The wording of a failure. -/
def Failure.message : Failure → String
  | policy path e => "failed to load policy " ++ path ++ ": " ++ chain e
  | repeatedInput => "failed to resolve input file paths: stdin ('-') given more than once"
  | pattern fault => "failed to resolve input file paths: " ++ fault.message
  | nothingFound argument =>
    "failed to resolve input file paths: glob pattern matched no files: " ++ argument
  | unreadable label fault => "failed to read " ++ label ++ ": " ++ fault.message
  | notJson label complaint =>
    "failed to parse JSON source (" ++ label ++ "): " ++ complaint.message
  | filter label failure =>
    "failed to apply jq expression to " ++ label ++ ": " ++ failure.message
  | document label e => "in " ++ label ++ ": " ++ chain e
  | compile e => chain e
  | datasets path e => "failed to load dataset index " ++ path ++ ": " ++ chain e
  | refinements path e => "failed to load refinements " ++ path ++ ": " ++ chain e
  | directory path fault => "failed to create " ++ path ++ ": " ++ fault.message
  | output path fault => "failed to write " ++ path ++ ": " ++ fault.message

/-- Whether a failure is one to write an output. -/
def Failure.isOutput : Failure → Bool
  | directory .. | output .. => true
  | _ => false

end VocabularyCompiler.CommandLine

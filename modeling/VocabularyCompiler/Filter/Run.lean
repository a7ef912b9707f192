import VocabularyCompiler.Filter.Eval
import VocabularyCompiler.Filter.Library
import VocabularyCompiler.Filter.Scope

/-!
# Filtering documents

A filter is given as text. What it yields for a document are new documents, which have to be JSON.
-/

namespace VocabularyCompiler.Filter

open Json

/-- Why a filter yields no documents. -/
inductive Failure where
  /-- The text is not that of a filter. -/
  | malformed (code : String)
  /-- Names that are not in scope. -/
  | unknown (code : String) (names : List Name)
  | stopped (fault : Fault)
  /-- An output that is not JSON. -/
  | notJson (index : Nat) (complaint : Complaint)

/-- The wording of a failure. -/
def Failure.message : Failure → String
  | malformed code => "cannot parse jq pre-filter `" ++ code ++ "`"
  | unknown code names =>
    "\n".intercalate
      (names.map fun n => "jq pre-filter `" ++ code ++ "` refers to undefined " ++ n.describe)
  | stopped fault => "jq runtime error: " ++ fault.message
  | notJson index complaint =>
    "jq output #" ++ toString index ++ " is not valid JSON: " ++ complaint.message

/-- Reads the JSON texts of values again, so that what no JSON text says is gone: numbers that are
none become `null`. -/
def normalize (i : Nat) : List Value → Except Failure (List Value)
  | [] => .ok []
  | v :: rest => do
    let w ← (parse v.compact).mapError (.notJson i)
    return w :: (← normalize (i + 1) rest)

/-- The documents that a filter yields for a document. -/
def documents (code : String) (v : Value) : Except Failure (List Value) := do
  match inLibrary? code with
  | none => throw (.malformed code)
  | some t =>
    match unknownNames [] t with
    | [] =>
      let o := t.run v
      let vs ← normalize 0 o.values
      match o.fault? with
      | some fault => throw (.stopped fault)
      | none => return vs
    | names => throw (.unknown code names)

end VocabularyCompiler.Filter

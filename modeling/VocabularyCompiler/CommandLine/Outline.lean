import VocabularyCompiler.CommandLine.Arguments
import VocabularyCompiler.Text.Quoted

/-!
# Showing settings

The settings of a run as an outline: every field on a line, what belongs to it four spaces deeper,
and a comma behind each.
-/

namespace VocabularyCompiler.CommandLine

open Text

/-- Something to be shown. -/
inductive Outline where
  | atom (s : String)
  | list (items : List Outline)
  /-- Something with a name in front. -/
  | named (name : String) (content : Outline)
  | record (name : String) (fields : List (String × Outline))

namespace Outline

/-- Lines one level deeper, with something before the first and a comma behind the last. -/
def nested (label : String) (lines : List String) : List String :=
  let labelled := match lines with
    | [] => [label]
    | first :: rest => (label ++ first) :: rest
  let ended := labelled.dropLast ++ (labelled.getLast?.map fun l => l ++ ",").toList
  ended.map fun l => "    " ++ l

mutual

/-- The lines that show something. -/
def lines : Outline → List String
  | atom s => [s]
  | list items => ["["] ++ linesOfItems items ++ ["]"]
  | named name content => [name ++ "("] ++ nested "" content.lines ++ [")"]
  | record name fields => [name ++ " \x7b"] ++ linesOfFields fields ++ ["\x7d"]
termination_by structural o => o

/-- The lines that show items. -/
def linesOfItems : List Outline → List String
  | [] => []
  | o :: rest => nested "" o.lines ++ linesOfItems rest
termination_by structural l => l

/-- The lines that show fields. -/
def linesOfFields : List (String × Outline) → List String
  | [] => []
  | (name, o) :: rest => nested (name ++ ": ") o.lines ++ linesOfFields rest
termination_by structural l => l

end

/-- A truth value. -/
def bool (b : Bool) : Outline := atom (if b then "true" else "false")

/-- Something that may be missing. -/
def option (quote : String → String) : Option String → Outline
  | some s => named "Some" (atom (quote s))
  | none => atom "None"

end Outline

/-- The settings of a run and what it is to write. -/
def outline (verbosity : Nat) (target : Target) (s : Settings) : Outline :=
  let command := match target with
    | .thingTalk => "Thingtalk"
    | .json => "Json"
  .record "CommandLineInterface"
    [("verbose", .atom (toString verbosity)),
      ("cmd", .named command (.record "CompileOut"
        [("input_settings", .record "InputSettings"
          [("jq_expr", .option quotation s.filter),
            ("input", .list (s.inputs.map fun i => .atom (quotation i)))]),
        ("compile_settings", .record "CompileSettings"
          [("class_name", .option quotation s.className),
            ("manual", .bool s.manual),
            ("policy", .option pathQuotation s.policy),
            ("datasets", .option pathQuotation s.datasets),
            ("max_samples", .atom (toString s.maxSamples)),
            ("refinements", .option pathQuotation s.refinements),
            ("annotate", .bool s.annotate),
            ("request_out", .option pathQuotation s.requestOut)]),
        ("out", .option pathQuotation s.out),
        ("no_op", .bool s.noOp)]))]

end VocabularyCompiler.CommandLine

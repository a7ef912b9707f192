import VocabularyCompiler.Decimal.Shortest
import VocabularyCompiler.Json.Value
import VocabularyCompiler.Text.Quoted

/-!
# Printing JSON

Two layouts: compact, without any space, and indented, two spaces for each level, one item or
member on a line. An empty array or object takes no line of its own in either.
-/

namespace VocabularyCompiler.Json

open Text

/-- The text of a number; JSON has none for an infinity or a result that is not a number. -/
def Number.render : Number → String
  | .int n => toString n
  | .float x => if x.isFinite then Decimal.renderFloat x else "null"

mutual

/-- A value without spaces. -/
def Value.compact : Value → String
  | .null => "null"
  | .bool true => "true"
  | .bool false => "false"
  | .number n => n.render
  | .string s => jsonLiteral s
  | .array items => "[" ++ ",".intercalate (compactItems items) ++ "]"
  | .object members => "\x7b" ++ ",".intercalate (compactMembers members) ++ "\x7d"
termination_by structural v => v

/-- The items of an array, each without spaces. -/
def compactItems : List Value → List String
  | [] => []
  | v :: rest => v.compact :: compactItems rest
termination_by structural l => l

/-- The members of an object, each without spaces. -/
def compactMembers : List (String × Value) → List String
  | [] => []
  | (key, v) :: rest => (jsonLiteral key ++ ":" ++ v.compact) :: compactMembers rest
termination_by structural l => l

end

/-- Pieces on lines of their own, indented one level deeper than the brackets around them. -/
def bracketed (opening closing indent : String) (pieces : List String) : String :=
  if pieces.isEmpty then opening ++ closing
  else
    opening ++ "\n" ++ ",\n".intercalate (pieces.map fun p => indent ++ "  " ++ p)
      ++ "\n" ++ indent ++ closing

mutual

/-- A value over several lines, all but the first of which begin with `indent`. -/
def Value.indented (indent : String) : Value → String
  | .null => "null"
  | .bool true => "true"
  | .bool false => "false"
  | .number n => n.render
  | .string s => jsonLiteral s
  | .array items => bracketed "[" "]" indent (indentedItems (indent ++ "  ") items)
  | .object members => bracketed "\x7b" "\x7d" indent (indentedMembers (indent ++ "  ") members)
termination_by structural v => v

/-- The items of an array, each over several lines. -/
def indentedItems (indent : String) : List Value → List String
  | [] => []
  | v :: rest => v.indented indent :: indentedItems indent rest
termination_by structural l => l

/-- The members of an object, each over several lines. -/
def indentedMembers (indent : String) : List (String × Value) → List String
  | [] => []
  | (key, v) :: rest => (jsonLiteral key ++ ": " ++ v.indented indent) :: indentedMembers indent rest
termination_by structural l => l

end

/-- A value over several lines, two spaces for each level. -/
def Value.pretty (v : Value) : String := v.indented ""

end VocabularyCompiler.Json

import VocabularyCompiler.Json.Value

/-!
# Filters

A filter takes a value and yields any number of values. Where a filter is a path, which names parts
of its input, it can also be used to change those parts.
-/

namespace VocabularyCompiler.Filter

open Json

/-- An operator on two values that yields a third. -/
inductive Operator where
  | add
  | subtract
  | multiply
  | divide
  | remainder
  deriving DecidableEq, Repr

/-- A comparison of two values. -/
inductive Comparison where
  | less
  | lessOrEqual
  | greater
  | greaterOrEqual
  | equal
  | unequal
  deriving DecidableEq, Repr

/-- A parameter of a filter. -/
structure Parameter where
  name : String
  /-- Whether it stands for a value, as a variable, and not for a filter. -/
  isVariable : Bool
  deriving DecidableEq, Repr

/-- A filter. -/
inductive Term where
  /-- The input. -/
  | identity
  /-- The input and all parts of it. -/
  | everything
  | literal (v : Value)
  /-- An array of all that a filter yields. -/
  | array (items : Term)
  /-- An object with one member. -/
  | member (key value : Term)
  | negate (t : Term)
  /-- The second filter on all that the first yields. -/
  | pipe (first second : Term)
  /-- A filter with a variable for each value that another one yields. -/
  | bind (value : Term) (name : String) (body : Term)
  /-- All that either filter yields. -/
  | both (first second : Term)
  | operate (op : Operator) (left right : Term)
  | compare (c : Comparison) (left right : Term)
  | conjunction (left right : Term)
  | disjunction (left right : Term)
  /-- What the first filter yields besides `false` and `null`, or else what the second yields. -/
  | alternative (first second : Term)
  /-- Sets the parts that a path names. -/
  | assign (path value : Term)
  /-- Changes the parts that a path names. -/
  | update (path change : Term)
  /-- Changes parts by an operator. -/
  | operateOn (op : Operator) (path value : Term)
  /-- Sets the parts that are `false` or `null`. -/
  | setMissing (path value : Term)
  /-- What a filter yields, and at a fault what another one yields for it. -/
  | attempt (t handler : Term)
  | conditional (condition yes no : Term)
  /-- Goes through all that a filter yields with a variable, from a start on. -/
  | reduce (items : Term) (name : String) (start step : Term)
  | define (name : String) (parameters : List Parameter) (body rest : Term)
  | call (name : String) (arguments : List Term)
  | var (name : String)
  /-- The part of an array or an object under an index or a key. -/
  | index (base key : Term) (lenient : Bool)
  /-- The part of an array or a string between two positions. -/
  | slice (base start stop : Term) (lenient : Bool)
  /-- All items of an array or values of an object. -/
  | iterate (base : Term) (lenient : Bool)

namespace Term

/-- The filter for a text. -/
def text (s : String) : Term := literal (.string s)

/-- The filter that yields nothing. -/
def nothing : Term := iterate (literal (.array [])) false

end Term

end VocabularyCompiler.Filter

import VocabularyCompiler.Json.Value

/-!
# The order of values

All values stand in one order: `null`, `false`, `true`, numbers, strings, arrays, objects. Arrays
compare item by item, and objects by their sorted keys and then by the values in that order. Two
values are equal if neither comes first.
-/

namespace VocabularyCompiler.Filter

open Json

/-- The position of a kind of values in the order. -/
def rank : Value → Nat
  | .null => 0
  | .bool false => 1
  | .bool true => 2
  | .number _ => 3
  | .string _ => 4
  | .array _ => 5
  | .object _ => 6

/-- A number as a floating-point number. -/
def toFloat : Number → Float
  | .int n => Float.ofInt n
  | .float x => x

/-- The order of floating-point numbers. What is not a number comes before everything, itself
included. -/
def compareFloats (x y : Float) : Ordering :=
  if x.isNaN then .lt
  else if y.isNaN then .gt
  else if x < y then .lt
  else if y < x then .gt
  else .eq

/-- The order of numbers. -/
def compareNumbers : Number → Number → Ordering
  | .int m, .int n => compareOfLessAndEq m n
  | x, y => compareFloats (toFloat x) (toFloat y)

/-- The first of some orders that is not equality. -/
def firstDifference (orders : List Ordering) : Ordering :=
  (orders.find? (· ≠ .eq)).getD .eq

/-- The lexicographic order of texts. -/
def compareTexts (s t : String) : Ordering := compareOfLessAndEq s t

/-- The lexicographic order of lists of texts. -/
def compareTextLists : List String → List String → Ordering
  | [], [] => .eq
  | [], _ => .lt
  | _, [] => .gt
  | s :: ss, t :: ts => firstDifference [compareTexts s t, compareTextLists ss ts]

/-- The keys of members, sorted. -/
def sortedKeys (members : List (String × Value)) : List String :=
  (members.map Prod.fst).mergeSort fun s t => !(t < s)

mutual

/-- The order of values. -/
def compareValues : Value → Value → Ordering
  | .number m, .number n => compareNumbers m n
  | .string s, .string t => compareTexts s t
  | .array items, .array others => compareItems items others
  | .object members, .object others =>
    let values := compareMembers members others
    firstDifference (compareTextLists (sortedKeys members) (sortedKeys others)
      :: (sortedKeys members).filterMap fun key => List.lookup key values)
  | v, w => compareOfLessAndEq (rank v) (rank w)
termination_by structural v => v

/-- The lexicographic order of lists of values. -/
def compareItems : List Value → List Value → Ordering
  | [], [] => .eq
  | [], _ => .lt
  | _, [] => .gt
  | v :: vs, w :: ws => firstDifference [compareValues v w, compareItems vs ws]
termination_by structural l => l

/-- The orders of the values under each key of the first members. -/
def compareMembers : List (String × Value) → List (String × Value) → List (String × Ordering)
  | [], _ => []
  | (key, v) :: rest, others =>
    (key, match List.lookup key others with
      | some w => compareValues v w
      | none => .gt) :: compareMembers rest others
termination_by structural l => l

end

/-- Whether two values are equal. -/
def areEqual (v w : Value) : Bool := compareValues v w = .eq

/-- Whether a value counts as true: all but `null` and `false`. -/
def isTruthy : Value → Bool
  | .null | .bool false => false
  | _ => true

end VocabularyCompiler.Filter

import VocabularyCompiler.Data.OrderedMap
import VocabularyCompiler.Filter.Order
import VocabularyCompiler.Filter.Outputs
import VocabularyCompiler.Filter.Term

/-!
# Operators on values

Arithmetic is done on 64-bit words where a result fits one and on floating-point numbers elsewhere.
Texts, arrays and objects can be added, and `null` adds nothing.
-/

namespace VocabularyCompiler.Filter

open Json

/-- An integer as a number, as a floating-point one if it does not fit a signed word. -/
def ofInt (n : Int) : Number :=
  if -0x8000000000000000 ≤ n && n < 0x8000000000000000 then .int n else .float (Float.ofInt n)

/-- A number with an integer as a floating-point number if it does not fit a signed word. -/
def normal : Number → Number
  | .int n => ofInt n
  | x => x

/-- Applies an operator to two numbers. -/
def operateNumbers (op : Operator) (x y : Number) : Option Number :=
  match op, normal x, normal y with
  | .add, .int m, .int n => some (ofInt (m + n))
  | .subtract, .int m, .int n => some (ofInt (m - n))
  | .multiply, .int m, .int n => some (ofInt (m * n))
  | .remainder, .int m, .int n => if n = 0 then none else some (.int (m.tmod n))
  | .add, x, y => some (.float (toFloat x + toFloat y))
  | .subtract, x, y => some (.float (toFloat x - toFloat y))
  | .multiply, x, y => some (.float (toFloat x * toFloat y))
  | .divide, x, y => some (.float (toFloat x / toFloat y))
  | .remainder, _, _ => none

/-- The members of two objects; where both have a key, the second one's value counts. -/
def merge (members others : List (String × Value)) : List (String × Value) :=
  others.foldl (fun ms e => insertEntry e.1 e.2 ms) members

/-- The wording of what an operator does. -/
def Operator.use : Operator → String
  | add => "a summand"
  | subtract => "a part of a difference"
  | multiply => "a factor"
  | divide => "a part of a quotient"
  | remainder => "a part of a remainder"

/-- Applies an operator to two values. -/
def operate (op : Operator) (v w : Value) : Except Fault Value :=
  match op, v, w with
  | .add, .null, w => .ok w
  | .add, v, .null => .ok v
  | .add, .string s, .string t => .ok (.string (s ++ t))
  | .add, .array items, .array others => .ok (.array (items ++ others))
  | .add, .object members, .object others => .ok (.object (merge members others))
  | .subtract, .array items, .array others =>
    .ok (.array (items.filter fun v => !others.any (areEqual v)))
  | op, .number x, .number y =>
    match operateNumbers op x y with
    | some z => .ok (.number z)
    | none => .error (.unusable (.number y) op.use)
  | op, .number _, w => .error (.unusable w op.use)
  | op, v, _ => .error (.unusable v op.use)

/-- Whether a comparison holds. -/
def Comparison.holds (c : Comparison) (v w : Value) : Bool :=
  match c, compareValues v w with
  | .less, o => o = .lt
  | .lessOrEqual, o => o ≠ .gt
  | .greater, o => o = .gt
  | .greaterOrEqual, o => o ≠ .lt
  | .equal, o => o = .eq
  | .unequal, o => o ≠ .eq

/-- The opposite of a number. -/
def negate : Value → Except Fault Value
  | .number (.int n) => .ok (.number (ofInt (-n)))
  | .number (.float x) => .ok (.number (.float (-x)))
  | v => .error (.unusable v "a number")

end VocabularyCompiler.Filter

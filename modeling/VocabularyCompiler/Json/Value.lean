/-!
# JSON values

Values with ordered objects. A number is an integer in the range of 64-bit words, signed or not,
or else a floating-point number.
-/

namespace VocabularyCompiler.Json

/-- A JSON number. -/
inductive Number where
  /-- An integer from `-2 ^ 63` to `2 ^ 64 - 1`. -/
  | int (n : Int)
  /-- Any other number. -/
  | float (x : Float)

/-- A JSON value. The members of an object stand in order, each key once. -/
inductive Value where
  | null
  | bool (b : Bool)
  | number (n : Number)
  | string (s : String)
  | array (items : List Value)
  | object (members : List (String × Value))

instance : Inhabited Value := ⟨.null⟩

namespace Value

/-- The value of a member of an object. -/
def member? (v : Value) (key : String) : Option Value :=
  match v with
  | object members => (members.find? fun m => m.1 = key).map Prod.snd
  | _ => none

/-- A natural number as a value. -/
def nat (n : Nat) : Value := number (.int n)

/-- The array of the given texts. -/
def strings (items : List String) : Value := array (items.map string)

end Value

end VocabularyCompiler.Json

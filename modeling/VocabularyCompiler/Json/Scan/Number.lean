import VocabularyCompiler.Json.Source

/-!
# Numbers in JSON text

A number without fraction and exponent is an integer if it fits a word. Any other one is the
leading digits, as many as fit a word, scaled once by a power of ten in floating-point arithmetic.
-/

namespace VocabularyCompiler.Json.Scan

/-- What stands at the start of a text that begins like a number. -/
inductive NumberScan where
  | number (n : Number) (rest : List Char)
  /-- A well-formed number that is too large to be read. -/
  | tooLarge (rest : List Char)
  /-- Not a number; the complaints of a reader and of one who passes over it. -/
  | broken (read skip : SyntaxFault)

/-- The value of a decimal digit. -/
def digit? (c : Char) : Option Nat := if '0' ≤ c && c ≤ '9' then some (c.toNat - 48) else none

/-- The digits at the start of a text, and what follows them. -/
def takeDigits : List Char → List Nat × List Char
  | [] => ([], [])
  | c :: rest =>
    match digit? c with
    | some d => let (ds, after) := takeDigits rest; (d :: ds, after)
    | none => ([], c :: rest)

/-- The greatest unsigned word. -/
def maxWord : Nat := 0xFFFFFFFFFFFFFFFF

/-- The leading digits that fit a word, after those that make up `value`, and how many do not. -/
def leadingWord (value : Nat) : List Nat → Nat × Nat
  | [] => (value, 0)
  | d :: rest =>
    if value * 10 + d ≤ maxWord then leadingWord (value * 10 + d) rest
    else (value, rest.length + 1)

/-- The power of ten nearest to `10 ^ n`. -/
def powerOfTen (n : Nat) : Float := Float.ofScientific 1 false n

/-- Scales down by a power of ten, in steps that the largest power allows. -/
def scaleDown (x : Float) (n : Nat) : Float :=
  if n ≤ 308 then x / powerOfTen n
  else if x == 0 then x
  else scaleDown (x / powerOfTen 308) (n - 308)
termination_by n

/-- The number `significand · 10 ^ exponent`, unless it is too large. -/
def scaled? (significand : Nat) (exponent : Int) : Option Float :=
  let x := Float.ofNat significand
  if exponent < 0 then some (scaleDown x exponent.natAbs)
  else if exponent.toNat ≤ 308 then
    let y := x * powerOfTen exponent.toNat
    if y.isInf then none else some y
  else if significand = 0 then some x
  else none

/-- The greatest exponent that is still computed with. -/
def maxExponent : Nat := 0x7FFFFFFF

/-- The number with the given integral, fractional and exponent digits. -/
def assemble (negative : Bool) (integral fraction : List Nat) (exponent : Option (Bool × List Nat)) :
    Option Number :=
  let signed (x : Float) := Number.float (if negative then -x else x)
  let (word, dropped) := leadingWord 0 integral
  if fraction.isEmpty && exponent.isNone && dropped = 0 then
    if !negative then some (.int word)
    else if word = 0 || word > 0x8000000000000000 then some (.float (-Float.ofNat word))
    else some (.int (-word))
  else
    let (significand, unread) := leadingWord word fraction
    let shift : Int := dropped - ((fraction.length - unread : Nat) : Int)
    match exponent with
    | none => (scaled? significand shift).map signed
    | some (negativeExponent, ds) =>
      let e := ds.foldl (fun e d => e * 10 + d) 0
      if e > maxExponent then
        if significand = 0 || negativeExponent then some (signed 0) else none
      else
        (scaled? significand (if negativeExponent then shift - e else shift + e)).map signed

/-- Reads the exponent, if there is one. The fault is that of a reader. -/
def scanExponent : List Char → Except SyntaxFault (Option (Bool × List Nat) × List Char)
  | c :: rest =>
    if c = 'e' || c = 'E' then
      let (negative, digits) := match rest with
        | '-' :: r => (true, r)
        | '+' :: r => (false, r)
        | r => (false, r)
      match takeDigits digits with
      | ([], []) => .error .endInValue
      | ([], _) => .error .invalidNumber
      | (ds, after) => .ok (some (negative, ds), after)
    else .ok (none, c :: rest)
  | [] => .ok (none, [])

/-- Reads the digits behind the point, if there is one. The fault is that of a reader. -/
def scanFraction : List Char → Except SyntaxFault (List Nat × List Char)
  | '.' :: rest =>
    match takeDigits rest with
    | ([], []) => .error .endInValue
    | ([], _) => .error .invalidNumber
    | (ds, after) => .ok (ds, after)
  | rest => .ok ([], rest)

/-- Reads the digits before the point: a zero stands alone. The fault is that of a reader. -/
def scanIntegral (s : List Char) : Except SyntaxFault (List Nat × List Char) :=
  match takeDigits s with
  | ([], []) => .error .endInValue
  | ([], _) => .error .invalidNumber
  | (0 :: _ :: _, _) => .error .invalidNumber
  | (ds, after) => .ok (ds, after)

/-- Reads a number, after its sign. -/
def scanUnsigned (negative : Bool) (s : List Char) : NumberScan :=
  let parts : Except SyntaxFault (Option Number × List Char) := do
    let (integral, afterIntegral) ← scanIntegral s
    let (fraction, afterFraction) ← scanFraction afterIntegral
    let (exponent, rest) ← scanExponent afterFraction
    return (assemble negative integral fraction exponent, rest)
  match parts with
  | .ok (some n, rest) => .number n rest
  | .ok (none, rest) => .tooLarge rest
  | .error fault => .broken fault .invalidNumber

/-- Reads a number. -/
def scanNumber : List Char → NumberScan
  | '-' :: rest => scanUnsigned true rest
  | s => scanUnsigned false s

end VocabularyCompiler.Json.Scan

/-!
# The shortest decimal of a binary fraction

A finite floating-point number stands for all reals that round to it, an interval around its exact
value. This module finds the decimal with the fewest digits in that interval, the nearest to the
exact value among those of that length. All arithmetic is exact, on natural numbers.
-/

namespace VocabularyCompiler.Decimal

/-- The positive number `mantissa · 2 ^ exponent`, with the interval of reals that round to it. The
interval ends half a unit away, or a quarter below where the binade changes, and contains its ends
when the mantissa is even. -/
structure Binary where
  /-- The integral significand. -/
  mantissa : Nat
  /-- The power of two it is scaled by. -/
  exponent : Int
  /-- Whether the next smaller number is only half as far away as the next larger one. -/
  narrow : Bool

/-- A decimal `digits · 10 ^ exponent`. -/
structure Scientific where
  /-- The digits as a number. -/
  digits : Nat
  /-- The power of ten it is scaled by. -/
  exponent : Int
  deriving DecidableEq, Repr

/-- The positive finite number with the given bits of significand and exponent. -/
def Binary.ofBits (bits : UInt64) : Binary :=
  let fraction : Nat := bits.toNat % 0x10000000000000
  let biased : Nat := bits.toNat / 0x10000000000000 % 0x800
  if biased = 0 then ⟨fraction, -1074, false⟩
  else ⟨0x10000000000000 + fraction, (biased : Int) - 1075, fraction = 0 && biased > 1⟩

/-- A power of two or ten as a fraction: numerator and denominator. -/
def powFraction (base : Nat) (e : Int) : Nat × Nat :=
  if 0 ≤ e then (base.pow e.toNat, 1) else (1, base.pow (-e).toNat)

/-- The decimal on the grid of multiples of `10 ^ e` that lies in the interval of `b` and is the
nearest to it; of two equally near ones the one with an even last digit. -/
def onGrid? (b : Binary) (e : Int) : Option Scientific :=
  let (twoNum, twoDen) := powFraction 2 b.exponent
  let (tenNum, tenDen) := powFraction 10 e
  -- In units of a quarter of the last binary place: the value, the lower and the upper end.
  let value : Nat := 4 * b.mantissa
  let low := value - (if b.narrow then 1 else 2)
  let high := value + 2
  -- A decimal `d` on the grid compares with `q` quarters as `d * scaleD` with `q * scaleQ`.
  let scaleD := 4 * tenNum * twoDen
  let scaleQ := twoNum * tenDen
  let inside (d : Nat) : Bool :=
    if b.mantissa % 2 = 0 then low * scaleQ ≤ d * scaleD && d * scaleD ≤ high * scaleQ
    else low * scaleQ < d * scaleD && d * scaleD < high * scaleQ
  let below := value * scaleQ / scaleD
  let above := below + 1
  let toBelow := value * scaleQ - below * scaleD
  let toAbove := above * scaleD - value * scaleQ
  match inside below && below != 0, inside above with
  | true, true =>
    if toBelow < toAbove || (toBelow = toAbove && below % 2 = 0) then some ⟨below, e⟩
    else some ⟨above, e⟩
  | true, false => some ⟨below, e⟩
  | false, true => some ⟨above, e⟩
  | false, false => none

/-- The first hit on grids of falling step, from `10 ^ e` on. -/
def firstHit (b : Binary) (e : Int) : Nat → Option Scientific
  | 0 => none
  | n + 1 =>
    match onGrid? b e with
    | some d => some d
    | none => firstHit b (e - 1) n

/-- The decimal with the fewest digits that rounds to `b`. The steps fall from `10 ^ 309`, larger
than every number, to `10 ^ -325`, finer than every interval. -/
def Binary.shortest (b : Binary) : Scientific :=
  (firstHit b 309 635).getD ⟨0, 0⟩

/-- The digits of a number in base ten. -/
def digitsOf (n : Nat) : List Char := Nat.toDigits 10 n

/-- A decimal as text: positional where the point falls at most sixteen digits behind the first
digit or at most five zeros before it, and with an exponent elsewhere. -/
def Scientific.render (d : Scientific) : List Char :=
  let ds := digitsOf d.digits
  let count := ds.length
  -- The position of the point, counted from the first digit.
  let point : Int := count + d.exponent
  if 0 ≤ d.exponent && point ≤ 16 then ds ++ List.replicate d.exponent.toNat '0' ++ ['.', '0']
  else if 0 < point && point ≤ 16 then ds.take point.toNat ++ '.' :: ds.drop point.toNat
  else if -5 < point && point ≤ 0 then
    '0' :: '.' :: (List.replicate (-point).toNat '0' ++ ds)
  else
    let e := point - 1
    let power := (if e < 0 then ['-'] else []) ++ digitsOf e.natAbs
    match ds with
    | [] => []
    | [c] => c :: 'e' :: power
    | c :: rest => c :: '.' :: (rest ++ 'e' :: power)

/-- A finite floating-point number as the shortest text that reads back. -/
def renderFloat (x : Float) : String :=
  let sign := if x.toBits ≥ 0x8000000000000000 then ['-'] else []
  let magnitude := x.toBits &&& 0x7FFFFFFFFFFFFFFF
  if magnitude = 0 then String.ofList (sign ++ ['0', '.', '0'])
  else String.ofList (sign ++ (Binary.ofBits magnitude).shortest.render)

end VocabularyCompiler.Decimal

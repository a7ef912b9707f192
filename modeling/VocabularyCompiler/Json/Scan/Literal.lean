import VocabularyCompiler.Json.Source
import VocabularyCompiler.Text.Words

/-!
# String literals in JSON text

Everyone checks a literal for its end, for control characters and for the form of its escapes. A
reader also checks that the surrogates among its escapes come in pairs.
-/

namespace VocabularyCompiler.Json.Scan

open Text

/-- What stands behind the opening quote of a literal. -/
inductive LiteralScan where
  | closed (content : Except SyntaxFault (List Char)) (rest : List Char)
  | broken (read skip : SyntaxFault)

/-- The character of a one-letter escape. -/
def simpleEscape? : Char → Option Char
  | '"' => some '"'
  | '\\' => some '\\'
  | '/' => some '/'
  | 'b' => some '\x08'
  | 'f' => some '\x0c'
  | 'n' => some '\n'
  | 'r' => some '\r'
  | 't' => some '\t'
  | _ => none

/-- The value of a digit in base sixteen. -/
def hexDigit? (c : Char) : Option Nat :=
  if '0' ≤ c && c ≤ '9' then some (c.toNat - 48)
  else if 'a' ≤ c && c ≤ 'f' then some (c.toNat - 87)
  else if 'A' ≤ c && c ≤ 'F' then some (c.toNat - 55)
  else none

/-- The value of four digits in base sixteen. -/
def hexQuad? (a b c d : Char) : Option Nat := do
  let a ← hexDigit? a
  let b ← hexDigit? b
  let c ← hexDigit? c
  let d ← hexDigit? d
  return ((a * 16 + b) * 16 + c) * 16 + d

/-- Whether a code unit is the first of a surrogate pair. -/
def isHigh (n : Nat) : Bool := 0xD800 ≤ n && n ≤ 0xDBFF

/-- Whether a code unit is the second of a surrogate pair. -/
def isLow (n : Nat) : Bool := 0xDC00 ≤ n && n ≤ 0xDFFF

/-- Where a scan stands inside a literal. -/
structure LiteralState where
  /-- The characters so far, the last one first. -/
  content : List Char := []
  /-- The first half of a surrogate pair whose second half has to follow. -/
  high : Option Nat := none
  /-- The first complaint that only a reader has. -/
  soft : Option SyntaxFault := none

namespace LiteralState

/-- Notes a complaint that only a reader has; the first one stands. -/
def complain (st : LiteralState) (fault : SyntaxFault) : LiteralState :=
  { st with soft := st.soft.or (some fault), high := none }

/-- Something other than an escaped code unit follows: an open pair stays incomplete. -/
def settle (st : LiteralState) : LiteralState :=
  if st.high.isSome then st.complain .endInHexEscape else st

/-- Adds a character. -/
def push (st : LiteralState) (c : Char) : LiteralState := { st with content := c :: st.content }

/-- Adds an escaped code unit. -/
def pushUnit (st : LiteralState) (n : Nat) : LiteralState :=
  match st.high with
  | some h =>
    if isLow n then
      { st with high := none }.push (Char.ofNat ((h - 0xD800) * 0x400 + (n - 0xDC00) + 0x10000))
    else st.complain .loneSurrogate
  | none =>
    if isLow n then st.complain .loneSurrogate
    else if isHigh n then { st with high := some n }
    else st.push (Char.ofNat n)

/-- The scan cannot go on. -/
def stop (st : LiteralState) (fault : SyntaxFault) : LiteralScan :=
  .broken (st.soft.getD fault) fault

/-- The literal ends. -/
def close (st : LiteralState) (rest : List Char) : LiteralScan :=
  match st.soft with
  | some fault => .closed (.error fault) rest
  | none => .closed (.ok st.content.reverse) rest

end LiteralState

/-- Reads a literal from behind its opening quote. -/
def scanLiteral (st : LiteralState) : List Char → LiteralScan
  | [] => st.stop .endInString
  | '"' :: rest => st.settle.close rest
  | ['\\'] => st.stop .endInString
  | '\\' :: 'u' :: a :: b :: c :: d :: rest =>
    match hexQuad? a b c d with
    | some n => scanLiteral (st.pushUnit n) rest
    | none => st.stop .invalidEscape
  | '\\' :: 'u' :: rest =>
    st.stop (if byteLength rest < 4 then .endInString else .invalidEscape)
  | '\\' :: e :: rest =>
    match simpleEscape? e with
    | some c => scanLiteral (st.settle.push c) rest
    | none => st.settle.stop .invalidEscape
  | c :: rest =>
    if c.toNat < 32 then st.settle.stop .controlCharacter
    else scanLiteral (st.settle.push c) rest

end VocabularyCompiler.Json.Scan

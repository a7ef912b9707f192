import VocabularyCompiler.Text.CaseTables
import VocabularyCompiler.Text.CharClass

/-!
# Lower case

The full lower-case mapping of Unicode, without a language. Each character maps on its own, with
two exceptions: the dotted capital I becomes two characters, and a capital sigma at the end of a
word becomes the final small sigma.
-/

namespace VocabularyCompiler.Text

/-- The lower case of an ASCII letter, and any other character unchanged. -/
def lowerAscii (c : Char) : Char :=
  if 'A' ≤ c ∧ c ≤ 'Z' then Char.ofNat (c.toNat + 32) else c

/-- The lower case of a character that maps to a single one whatever stands around it. -/
def lowerChar (c : Char) : Char :=
  if c.toNat < 128 then lowerAscii c
  else
    match lowerRuns.find? fun r =>
        r.first ≤ c.toNat && c.toNat ≤ r.last && (c.toNat - r.first) % r.step == 0 with
    | some r => Char.ofNat (Int.toNat (c.toNat + r.shift))
    | none => c

/-- Whether the first character that is not case-ignorable is a letter with case. -/
def casedAhead (s : List Char) : Bool :=
  match s.dropWhile (inRanges caseIgnorable) with
  | c :: _ => inRanges casedOnly c
  | [] => false

/-- The capital letter sigma. -/
def capitalSigma : Char := 'Σ'

/-- The lower case of the characters of a text; `before` holds those already passed, the nearest
first. -/
def lowerFrom (before : List Char) : List Char → List Char
  | [] => []
  | c :: rest =>
    let here :=
      if c = capitalSigma then
        if casedAhead before && !casedAhead rest then ['ς'] else ['σ']
      else if c = 'İ' then ['i', '\u0307']
      else [lowerChar c]
    here ++ lowerFrom (c :: before) rest

/-- The lower case of the characters of a text. -/
def lowerChars (s : List Char) : List Char := lowerFrom [] s

/-- The lower case of a text. -/
def lowercase (s : String) : String := String.ofList (lowerChars s.toList)

end VocabularyCompiler.Text

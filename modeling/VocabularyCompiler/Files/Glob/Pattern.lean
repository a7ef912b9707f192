import VocabularyCompiler.Text.Words

/-!
# Patterns for file names

In a pattern `?` stands for any character, `*` for any number of them, and brackets for one of the
characters or ranges in them, or for none of those if they begin with `!`. Two stars stand for any
number of directories and have to be a whole component of a path.
-/

namespace VocabularyCompiler.Glob

/-- The characters from one to another, both included. -/
structure CharRange where
  first : Char
  last : Char
  deriving DecidableEq, Repr

/-- Whether a character is in a range. -/
def CharRange.contains (r : CharRange) (c : Char) : Bool := r.first ≤ c && c ≤ r.last

/-- A part of a pattern. -/
inductive Token where
  | char (c : Char)
  | anyChar
  | anyText
  | anyDirectories
  | oneOf (ranges : List CharRange)
  | noneOf (ranges : List CharRange)
  deriving DecidableEq, Repr

/-- A pattern for a path or a component of one. -/
abbrev Pattern := List Token

/-- What is wrong with a pattern. -/
inductive Flaw where
  /-- Three stars or more. -/
  | manyStars
  /-- Two stars that are not a whole component. -/
  | partialComponent
  /-- Brackets that are not closed. -/
  | openBracket
  deriving DecidableEq, Repr

/-- A flaw and where it is, counted in characters. -/
structure PatternFault where
  position : Nat
  flaw : Flaw
  deriving DecidableEq, Repr

/-- The wording of a flaw. -/
def Flaw.message : Flaw → String
  | manyStars => "wildcards are either regular `*` or recursive `**`"
  | partialComponent => "recursive wildcards must form a single path component"
  | openBracket => "invalid range pattern"

/-- The wording of a fault. -/
def PatternFault.message (f : PatternFault) : String :=
  "Pattern syntax error near position " ++ toString f.position ++ ": " ++ f.flaw.message

/-- The ranges between brackets: a character, or two with a hyphen between them. -/
def ranges : List Char → List CharRange
  | a :: '-' :: b :: rest => ⟨a, b⟩ :: ranges rest
  | a :: rest => ⟨a, a⟩ :: ranges rest
  | [] => []

/-- Splits the text behind an opening bracket, and behind `!` if there is one, at the closing one.
The first character is always between the two. -/
def bracket? : List Char → Option (List Char × List Char)
  | [] => none
  | c :: rest =>
    match rest.span (· ≠ ']') with
    | (inside, _ :: behind) => some (c :: inside, behind)
    | (_, []) => none

/-- How many stars a text begins with. -/
def starCount (s : List Char) : Nat := (s.takeWhile (· = '*')).length

/-- Reads a pattern from a position on, behind the given character if there is one. Every step
takes a character at least, so `n` need not be larger than the number of characters. -/
def parseFrom (position : Nat) (before : Option Char) :
    Nat → List Char → Except PatternFault Pattern
  | 0, _ => .ok []
  | _, [] => .ok []
  | n + 1, '?' :: rest => return .anyChar :: (← parseFrom (position + 1) (some '?') n rest)
  | n + 1, '*' :: rest =>
    match 1 + starCount rest, rest.dropWhile (· = '*') with
    | 1, rest => return .anyText :: (← parseFrom (position + 1) (some '*') n rest)
    | 2, rest =>
      if before.all (· = '/') then
        match rest with
        | [] => .ok [.anyDirectories]
        | '/' :: rest =>
          return .anyDirectories :: (← parseFrom (position + 3) (some '/') n rest)
        | _ => .error ⟨position + 2, .partialComponent⟩
      else .error ⟨position - 1, .partialComponent⟩
    | _, _ => .error ⟨position + 2, .manyStars⟩
  | n + 1, '[' :: rest =>
    match rest with
    | '!' :: inside =>
      match bracket? inside with
      | some (inside, rest) =>
        return .noneOf (ranges inside)
          :: (← parseFrom (position + inside.length + 3) (some ']') n rest)
      | none => .error ⟨position, .openBracket⟩
    | inside =>
      match bracket? inside with
      | some (inside, rest) =>
        return .oneOf (ranges inside)
          :: (← parseFrom (position + inside.length + 2) (some ']') n rest)
      | none => .error ⟨position, .openBracket⟩
  | n + 1, c :: rest => return .char c :: (← parseFrom (position + 1) (some c) n rest)

/-- Reads a pattern. -/
def parse (s : List Char) : Except PatternFault Pattern := parseFrom 0 none s.length s

/-- Whether a text fits a token that stands for one character. -/
def Token.fits : Token → Char → Bool
  | char c, d => c = d
  | anyChar, _ => true
  | oneOf ranges, d => ranges.any fun r => r.contains d
  | noneOf ranges, d => !ranges.any fun r => r.contains d
  | anyText, _ | anyDirectories, _ => false

/-- All that is left of a text behind a number of its characters, the most first. -/
def suffixes : List Char → List (List Char)
  | [] => [[]]
  | c :: s => (c :: s) :: suffixes s

/-- Whether a text fits a pattern as a whole. -/
def fits : Pattern → List Char → Bool
  | [], s => s.isEmpty
  | .anyText :: p, s => (suffixes s).any (fits p)
  | .anyDirectories :: p, s => (suffixes s).any (fits p)
  | t :: p, c :: s => t.fits c && fits p s
  | _ :: _, [] => false

/-- The only text that fits a pattern without wildcards. -/
def literal? (p : Pattern) : Option String :=
  (p.mapM fun t =>
    match t with
    | Token.char c => some c
    | _ => none).map String.ofList

end VocabularyCompiler.Glob

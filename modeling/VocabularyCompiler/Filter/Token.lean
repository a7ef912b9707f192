import VocabularyCompiler.Text.CharClass

/-!
# Tokens of filters

The text of a filter as tokens. White space and comments, from `#` to the end of the line, stand
between tokens. A text in quotes may have filters in parentheses in it, so it is a list of pieces.
-/

namespace VocabularyCompiler.Filter

open Text

mutual

/-- A token. -/
inductive Token where
  /-- A name or a keyword. -/
  | word (name : String)
  /-- A name behind a dollar sign. -/
  | var (name : String)
  /-- A name behind a point. -/
  | key (name : String)
  | number (digits : String)
  /-- An operator, a bracket or another sign. -/
  | symbol (s : String)
  | text (pieces : List Piece)

/-- A piece of a text. -/
inductive Piece where
  | chars (s : String)
  /-- A filter whose results stand in the text. -/
  | code (tokens : List Token)

end

/-- Whether a name can begin with a character. -/
def startsName (c : Char) : Bool := c.isAlpha || c = '_'

/-- Whether a name can go on with a character. -/
def continuesName (c : Char) : Bool := c.isAlphanum || c = '_'

/-- Whether a character is part of operators. -/
def isOperatorChar (c : Char) : Bool := "|=!<>+-*/%".toList.contains c

/-- The operators. -/
def operators : List String :=
  ["|", "=", "|=", "+=", "-=", "*=", "/=", "%=", "//=", "//", "+", "-", "*", "/", "%", "==", "!=",
    "<", "<=", ">", ">="]

/-- Drops white space and comments. -/
def skipBlank (inComment : Bool) : List Char → List Char
  | [] => []
  | c :: rest =>
    if inComment then skipBlank (c ≠ '\n') rest
    else if c = '#' then skipBlank true rest
    else if isBlank c then skipBlank false rest
    else c :: rest

/-- Splits a number off: digits, then perhaps a point and digits, then perhaps an exponent, which
has a digit at least. -/
def scanNumber? (s : List Char) : Option (List Char × List Char) :=
  let (whole, rest) := s.span Char.isDigit
  let (fraction, rest) :=
    match rest with
    | '.' :: rest =>
      let (digits, rest) := rest.span Char.isDigit
      ('.' :: digits, rest)
    | rest => ([], rest)
  match rest with
  | e :: rest =>
    if e = 'e' || e = 'E' then
      let (sign, rest) :=
        match rest with
        | '+' :: rest => (['+'], rest)
        | '-' :: rest => (['-'], rest)
        | rest => ([], rest)
      match rest.span Char.isDigit with
      | ([], _) => none
      | (digits, rest) => some (whole ++ fraction ++ e :: (sign ++ digits), rest)
    else some (whole ++ fraction, e :: rest)
  | [] => some (whole ++ fraction, [])

/-- The number that digits in base sixteen stand for. -/
def hexValue? (digits : List Char) : Option Nat :=
  digits.foldlM (fun n c =>
    if c.isDigit then some (16 * n + (c.toNat - '0'.toNat))
    else if 'a' ≤ c && c ≤ 'f' then some (16 * n + (c.toNat - 'a'.toNat + 10))
    else if 'A' ≤ c && c ≤ 'F' then some (16 * n + (c.toNat - 'A'.toNat + 10))
    else none) 0

/-- The character that the letter behind a backslash stands for. -/
def escaped? : Char → Option Char
  | '"' => some '"'
  | '\\' => some '\\'
  | '/' => some '/'
  | 'b' => some '\x08'
  | 'f' => some '\x0c'
  | 'n' => some '\n'
  | 'r' => some '\r'
  | 't' => some '\t'
  | _ => none

/-- Pieces with a character before them. -/
def consPiece (c : Char) : List Piece → List Piece
  | .chars s :: rest => .chars (String.singleton c ++ s) :: rest
  | pieces => .chars (String.singleton c) :: pieces

mutual

/-- Scans tokens to the end of the text, or to the parenthesis that ends a piece of code if one is
open; `depth` counts the parentheses that were opened in the code. Every step takes a character at
least, so `n` need not be larger than twice their number. -/
def scanTokens : Nat → Option Nat → List Char → Option (List Token × List Char)
  | 0, _, _ => none
  | n + 1, depth, s =>
    match skipBlank false s with
    | [] => if depth.isNone then some ([], []) else none
    | c :: rest =>
      let more (t : Token) (rest : List Char) :=
        (scanTokens n depth rest).map fun (ts, rest) => (t :: ts, rest)
      if startsName c then
        let (name, rest) := rest.span continuesName
        more (.word (String.ofList (c :: name))) rest
      else if c.isDigit then do
        let (digits, rest) ← scanNumber? (c :: rest)
        more (.number (String.ofList digits)) rest
      else if isOperatorChar c then
        let (op, rest) := (c :: rest).span isOperatorChar
        if operators.contains (String.ofList op) then more (.symbol (String.ofList op)) rest
        else none
      else if c = '$' then
        match rest.span continuesName with
        | (name :: letters, rest) =>
          if startsName name then more (.var (String.ofList (name :: letters))) rest else none
        | ([], _) => none
      else if c = '"' then do
        let (pieces, rest) ← scanText n rest
        more (.text pieces) rest
      else if c = '.' then
        match rest with
        | '.' :: rest => more (.symbol "..") rest
        | d :: rest =>
          if startsName d then
            let (name, rest) := rest.span continuesName
            more (.key (String.ofList (d :: name))) rest
          else more (.symbol ".") (d :: rest)
        | [] => more (.symbol ".") []
      else if c = '(' then
        (scanTokens n (depth.map (· + 1)) rest).map fun (ts, rest) => (.symbol "(" :: ts, rest)
      else if c = ')' then
        match depth with
        | some 0 => some ([], rest)
        | _ => (scanTokens n (depth.map (· - 1)) rest).map fun (ts, rest) => (.symbol ")" :: ts, rest)
      else if [':', ';', ',', '?', '[', ']', '\x7b', '\x7d'].contains c then
        more (.symbol (String.singleton c)) rest
      else none

/-- Scans a text from behind its opening quote to behind its closing one. -/
def scanText : Nat → List Char → Option (List Piece × List Char)
  | 0, _ => none
  | _, [] => none
  | n + 1, c :: rest =>
    let more (c : Char) (rest : List Char) :=
      (scanText n rest).map fun (pieces, rest) => (consPiece c pieces, rest)
    if c = '"' then some ([], rest)
    else if c = '\\' then
      match rest with
      | '(' :: rest => do
        let (tokens, rest) ← scanTokens n (some 0) rest
        let (pieces, rest) ← scanText n rest
        return (.code tokens :: pieces, rest)
      | 'u' :: rest => do
        if rest.length < 4 then none
        let code ← hexValue? (rest.take 4)
        more (Char.ofNat code) (rest.drop 4)
      | e :: rest => (escaped? e).bind fun c => more c rest
      | [] => none
    else more c rest

end

/-- The tokens of a text, if it has no others in it. -/
def tokens? (s : List Char) : Option (List Token) :=
  (scanTokens (2 * s.length + 2) none s).map Prod.fst

end VocabularyCompiler.Filter

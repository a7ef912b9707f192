import VocabularyCompiler.Json.Scan.Literal
import VocabularyCompiler.Json.Scan.Number

/-!
# From text to sources

The grammar of JSON over characters. The scan never fails: what does not follow the grammar
becomes a fault of the source, and behind a fault that stops everyone nothing more is read.
-/

namespace VocabularyCompiler.Json.Scan

/-- Whether a character may stand between tokens. -/
def isSpace (c : Char) : Bool := c = ' ' || c = '\n' || c = '\t' || c = '\r'

/-- A text without the space at its start. -/
def skipSpace (s : List Char) : List Char := s.dropWhile isSpace

/-- A scanned piece with the text behind it, which is absent if nothing can be read there. -/
abbrev Scanned (α : Type) := α × Option (List Char)

/-- A word that has to follow letter by letter. -/
def scanWord (value : Source) : List Char → List Char → Scanned Source
  | [], rest => (value, some rest)
  | _ :: _, [] => (.broken false .endInValue (some .endInValue), none)
  | e :: expected, c :: rest =>
    if c = e then scanWord value expected rest
    else (.broken false .expectedWord (some .expectedWord), none)

/-- A number as a source. -/
def scanNumberSource (s : List Char) : Scanned Source :=
  match scanNumber s with
  | .number n rest => (.number n, some rest)
  | .tooLarge rest => (.broken false .numberOutOfRange none, some rest)
  | .broken read skip => (.broken false read (some skip), none)

/-- A string literal as a source, from behind its opening quote. -/
def scanStringSource (s : List Char) : Scanned Source :=
  match scanLiteral {} s with
  | .closed (.ok content) rest => (.string (String.ofList content), some rest)
  | .closed (.error fault) rest => (.broken true fault none, some rest)
  | .broken read skip => (.broken true read (some skip), none)

/-- An array that breaks off. -/
def breach (read skip : SyntaxFault) : Option Breach := some ⟨read, skip⟩

/-- The end of the members of an object that breaks off. -/
def stop (read skip : SyntaxFault) : Key × Source := (.absent read skip, .missing)

mutual

/-- Reads a value. -/
def scanValue : Nat → List Char → Scanned Source
  | 0, _ => (.missing, none)
  | n + 1, s =>
    match skipSpace s with
    | [] => (.missing, none)
    | 'n' :: rest => scanWord .null ['u', 'l', 'l'] rest
    | 't' :: rest => scanWord (.bool true) ['r', 'u', 'e'] rest
    | 'f' :: rest => scanWord (.bool false) ['a', 'l', 's', 'e'] rest
    | '"' :: rest => scanStringSource rest
    | '[' :: rest =>
      match skipSpace rest with
      | [] => (.array [] (breach .endInList .endInList), none)
      | ']' :: after => (.array [] none, some after)
      | inside =>
        let ((items, b), after) := scanItems n inside
        (.array items b, after)
    | '\x7b' :: rest =>
      match skipSpace rest with
      | [] => (.object [stop .endInObject .endInObject], none)
      | '\x7d' :: after => (.object [], some after)
      | inside =>
        let (members, after) := scanMembers n inside
        (.object members, after)
    | c :: rest =>
      if c = '-' || (digit? c).isSome then scanNumberSource (c :: rest)
      else (.broken false .expectedValue (some .expectedValue), none)

/-- Reads the items of an array, of which at least one follows. -/
def scanItems : Nat → List Char → Scanned (List Source × Option Breach)
  | 0, _ => (([], none), none)
  | n + 1, s =>
    match scanValue n s with
    | (item, none) => (([item], none), none)
    | (item, some rest) =>
      match skipSpace rest with
      | [] => (([item], breach .endInList .endInList), none)
      | ']' :: after => (([item], none), some after)
      | ',' :: inside =>
        match skipSpace inside with
        | [] => (([item], breach .endInValue .endInValue), none)
        | ']' :: _ => (([item], breach .trailingComma .expectedValue), none)
        | next =>
          let ((items, b), after) := scanItems n next
          ((item :: items, b), after)
      | _ => (([item], breach .expectedCommaOrBracket .expectedCommaOrBracket), none)

/-- Reads the members of an object, of which at least one follows. -/
def scanMembers : Nat → List Char → Scanned (List (Key × Source))
  | 0, _ => ([], none)
  | n + 1, s =>
    match s with
    | '"' :: inside =>
      match scanLiteral {} inside with
      | .broken read skip => ([(.absent read skip, .broken true read (some skip))], none)
      | .closed content rest =>
        let key := match content with
          | .ok name => Key.name (String.ofList name)
          | .error fault => Key.flawed fault
        match skipSpace rest with
        | ':' :: afterColon =>
          match scanValue n afterColon with
          | (value, none) => ([(key, value)], none)
          | (value, some rest) =>
            match skipSpace rest with
            | [] => ([(key, value), stop .endInObject .endInObject], none)
            | '\x7d' :: after => ([(key, value)], some after)
            | ',' :: inside =>
              match skipSpace inside with
              | [] => ([(key, value), stop .endInValue .endInObject], none)
              | '\x7d' :: _ => ([(key, value), stop .trailingComma .keyNotString], none)
              | next =>
                let (members, after) := scanMembers n next
                ((key, value) :: members, after)
            | _ => ([(key, value), stop .expectedCommaOrBrace .expectedCommaOrBrace], none)
        | [] => ([(key, .unset .endInObject)], none)
        | _ => ([(key, .unset .expectedColon)], none)
    | other => ([(.absent .keyNotString .keyNotString, (scanValue n other).1)], none)

end

/-- Reads the value at the start of a text. Every call consumes a character or is followed by one
that does, so twice the length is enough. -/
def scan (s : List Char) : Scanned Source := scanValue (2 * s.length + 2) s

end VocabularyCompiler.Json.Scan

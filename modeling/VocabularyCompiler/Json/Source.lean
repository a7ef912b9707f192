import VocabularyCompiler.Json.Value

/-!
# JSON sources as far as they can be read

A reader of typed data looks at a text piece by piece and complains about the first piece that it
cannot use. What it complains about depends on what it looks for: a value that nobody asked for is
passed over with fewer checks than one that is read. So a text is first turned into a tree that
keeps its faults where they occur, each with the complaint for either case; a value in memory is
such a tree without faults.
-/

namespace VocabularyCompiler.Json

/-- What is wrong with the syntax of a text. -/
inductive SyntaxFault where
  | endInValue
  | endInObject
  | endInList
  | endInString
  | expectedValue
  | expectedWord
  | expectedColon
  | expectedCommaOrBrace
  | expectedCommaOrBracket
  | keyNotString
  | trailingComma
  | trailingCharacters
  | invalidEscape
  | invalidNumber
  | numberOutOfRange
  | endInHexEscape
  | loneSurrogate
  | controlCharacter
  | tooDeep
  deriving DecidableEq, Repr

/-- The wording of a fault. -/
def SyntaxFault.message : SyntaxFault → String
  | endInValue => "EOF while parsing a value"
  | endInObject => "EOF while parsing an object"
  | endInList => "EOF while parsing a list"
  | endInString => "EOF while parsing a string"
  | expectedValue => "expected value"
  | expectedWord => "expected ident"
  | expectedColon => "expected `:`"
  | expectedCommaOrBrace => "expected `,` or `\x7d`"
  | expectedCommaOrBracket => "expected `,` or `]`"
  | keyNotString => "key must be a string"
  | trailingComma => "trailing comma"
  | trailingCharacters => "trailing characters"
  | invalidEscape => "invalid escape"
  | invalidNumber => "invalid number"
  | numberOutOfRange => "number out of range"
  | endInHexEscape => "unexpected end of hex escape"
  | loneSurrogate => "lone leading surrogate in hex escape"
  | controlCharacter => "control character (\\u0000-\\u001F) found while parsing a string"
  | tooDeep => "recursion limit exceeded"

/-- What stands where the key of a member should stand. -/
inductive Key where
  | name (s : String)
  /-- A string that a reader complains about, and no one else. -/
  | flawed (fault : SyntaxFault)
  /-- No string: the object breaks off here. The complaints of a reader and of one who passes over
  the object; the member's value is what stands here, read as a value. -/
  | absent (read skip : SyntaxFault)

/-- Where an array breaks off: the complaints of a reader and of one who passes over it. -/
structure Breach where
  read : SyntaxFault
  skip : SyntaxFault

/-- A JSON source: a value with its faults. -/
inductive Source where
  | null
  | bool (b : Bool)
  | number (n : Number)
  | string (s : String)
  | array (items : List Source) (breach : Option Breach)
  | object (members : List (Key × Source))
  /-- The text ends where a value should stand. -/
  | missing
  /-- No colon follows the key whose value this should be. -/
  | unset (fault : SyntaxFault)
  /-- A token that cannot be read. It cannot be passed over either if `skip` holds a fault. -/
  | broken (isString : Bool) (read : SyntaxFault) (skip : Option SyntaxFault)

instance : Inhabited Source := ⟨.null⟩

namespace Source

mutual

/-- A value in memory as a source. -/
def ofValue : Value → Source
  | .null => null
  | .bool b => bool b
  | .number n => number n
  | .string s => string s
  | .array items => array (ofItems items) none
  | .object members => object (ofMembers members)
termination_by structural v => v

/-- Values in memory as sources. -/
def ofItems : List Value → List Source
  | [] => []
  | v :: rest => ofValue v :: ofItems rest
termination_by structural l => l

/-- Members in memory as members of sources. -/
def ofMembers : List (String × Value) → List (Key × Source)
  | [] => []
  | (key, v) :: rest => (.name key, ofValue v) :: ofMembers rest
termination_by structural l => l

end

mutual

/-- The number of containers around the innermost value. -/
def height : Source → Nat
  | array items _ => heightOfItems items + 1
  | object members => heightOfMembers members + 1
  | _ => 0
termination_by structural s => s

/-- The greatest height among sources. -/
def heightOfItems : List Source → Nat
  | [] => 0
  | s :: rest => max s.height (heightOfItems rest)
termination_by structural l => l

/-- The greatest height among the values of members. -/
def heightOfMembers : List (Key × Source) → Nat
  | [] => 0
  | (_, s) :: rest => max s.height (heightOfMembers rest)
termination_by structural l => l

end

mutual

/-- The first fault that passing over a source meets. -/
def skipFault? : Source → Option SyntaxFault
  | array items breach => (skipFaultOfItems? items).or (breach.map Breach.skip)
  | object members => skipFaultOfMembers? members
  | missing => some .endInValue
  | unset fault => some fault
  | broken _ _ skip => skip
  | _ => none
termination_by structural s => s

/-- The first fault that passing over sources meets. -/
def skipFaultOfItems? : List Source → Option SyntaxFault
  | [] => none
  | s :: rest => s.skipFault?.or (skipFaultOfItems? rest)
termination_by structural l => l

/-- The first fault that passing over members meets. -/
def skipFaultOfMembers? : List (Key × Source) → Option SyntaxFault
  | [] => none
  | (.absent _ skip, _) :: _ => some skip
  | (_, s) :: rest => s.skipFault?.or (skipFaultOfMembers? rest)
termination_by structural l => l

end

end Source

end VocabularyCompiler.Json

import VocabularyCompiler.Text.CharClass

/-!
# Regular expressions

A search tries the ways in which a text can fit an expression in an order of preference: the first
alternative before the second, and more repetitions before fewer or, where that is asked for, fewer
before more. It finds the first way at the first position that has one.
-/

namespace VocabularyCompiler.Text

/-- A set of characters. -/
inductive CharSet where
  | nothing
  | range (first last : Char)
  | digits
  | wordChars
  | blanks
  | union (s t : CharSet)
  | complement (s : CharSet)

/-- Whether a character is part of words. -/
def isWordChar (c : Char) : Bool := c.isAlphanum || c = '_'

/-- Whether a character is in a set. -/
def CharSet.contains : CharSet → Char → Bool
  | nothing, _ => false
  | range first last, c => first ≤ c && c ≤ last
  | digits, c => c.isDigit
  | wordChars, c => isWordChar c
  | blanks, c => isBlank c
  | union s t, c => s.contains c || t.contains c
  | complement s, c => !s.contains c

/-- The set of the ASCII letters of either case whose other case is in a set, and of the set. -/
def CharSet.containsEitherCase (s : CharSet) (c : Char) : Bool :=
  s.contains c || s.contains c.toLower || s.contains c.toUpper

/-- A regular expression. -/
inductive Regex where
  /-- The empty text. -/
  | empty
  | oneOf (s : CharSet)
  | seq (first second : Regex)
  | either (first second : Regex)
  /-- A number of repetitions: at least `least`, and at most `most` if that is given. -/
  | repetition (r : Regex) (least : Nat) (most : Option Nat) (greedy : Bool)
  /-- An expression whose text is kept under a number. -/
  | group (number : Nat) (r : Regex)
  | atStart
  | atEnd
  /-- A position where words begin or end, or one where none does. -/
  | wordEdge (present : Bool)

namespace Regex

/-- A position in a text, with the groups that were met before it. -/
structure Cursor where
  /-- The number of characters before. -/
  offset : Nat
  /-- The character before. -/
  before : Option Char
  /-- The characters behind. -/
  rest : List Char
  /-- The groups by their numbers: where they begin and what they hold, the latest first. -/
  groups : List (Nat × Nat × List Char)

/-- What a search goes on with. -/
abbrev Next := Cursor → Option Cursor

/-- One repetition after another, up to `n` of them. None may be empty. -/
def repeatUpTo (step : Cursor → Next → Option Cursor) (greedy : Bool) : Nat → Cursor → Next →
    Option Cursor
  | 0, c, next => next c
  | n + 1, c, next =>
    let more (_ : Unit) :=
      step c fun d =>
        if d.rest.length < c.rest.length then repeatUpTo step greedy n d next else none
    if greedy then (more ()).orElse fun _ => next c else (next c).orElse more

/-- A number of repetitions. -/
def repeatTimes (step : Cursor → Next → Option Cursor) : Nat → Cursor → Next → Option Cursor
  | 0, c, next => next c
  | n + 1, c, next => step c fun d => repeatTimes step n d next

/-- Whether words begin or end at a position. -/
def isWordEdge (c : Cursor) : Bool := c.before.any isWordChar != c.rest.head?.any isWordChar

/-- The first way in which the text at a position fits an expression and what follows it. -/
def fit (anyCase : Bool) : Regex → Cursor → Next → Option Cursor
  | empty, c, next => next c
  | oneOf s, c, next =>
    match c.rest with
    | [] => none
    | d :: rest =>
      if if anyCase then s.containsEitherCase d else s.contains d then
        next { c with offset := c.offset + 1, before := some d, rest := rest }
      else none
  | seq r s, c, next => fit anyCase r c fun d => fit anyCase s d next
  | either r s, c, next => (fit anyCase r c next).orElse fun _ => fit anyCase s c next
  | repetition r least most greedy, c, next =>
    repeatTimes (fit anyCase r) least c fun d =>
      repeatUpTo (fit anyCase r) greedy (most.elim d.rest.length fun m => m - least) d next
  | group number r, c, next =>
    fit anyCase r c fun d =>
      next { d with
        groups := (number, c.offset, c.rest.take (d.offset - c.offset)) :: d.groups }
  | atStart, c, next => if c.before.isNone then next c else none
  | atEnd, c, next => if c.rest.isEmpty then next c else none
  | wordEdge present, c, next => if isWordEdge c = present then next c else none

/-- A part of a text that fits an expression. -/
structure Fit where
  offset : Nat
  text : List Char
  /-- The groups by their numbers: where they begin and what they hold, the latest first. -/
  groups : List (Nat × Nat × List Char)
  /-- The position behind. -/
  behind : Cursor

/-- The first part of the text behind a position that fits an expression. A part that is empty must
not lie at `barred`. -/
def find? (anyCase : Bool) (r : Regex) (barred : Option Nat) (c : Cursor) : Option Fit :=
  go c.offset c.before c.rest
where
  /-- Goes through the positions. -/
  go (offset : Nat) (before : Option Char) : List Char → Option Fit
    | [] => fitAt? offset before []
    | d :: rest => (fitAt? offset before (d :: rest)).orElse fun _ => go (offset + 1) (some d) rest
  /-- The part at a position. -/
  fitAt? (offset : Nat) (before : Option Char) (rest : List Char) : Option Fit :=
    match fit anyCase r ⟨offset, before, rest, []⟩ some with
    | none => none
    | some d =>
      if d.offset = offset && barred = some offset then none
      else some ⟨offset, rest.take (d.offset - offset), d.groups, { d with groups := [] }⟩

/-- Parts of a text that fit an expression, from the left, each behind the one before. There is at
most one more part than there are characters, so `n` need not be larger. -/
def findFrom (anyCase : Bool) (r : Regex) : Nat → Option Nat → Cursor → List Fit
  | 0, _, _ => []
  | n + 1, barred, c =>
    match find? anyCase r barred c with
    | none => []
    | some m => m :: findFrom anyCase r n (some m.behind.offset) m.behind

/-- The parts of a text that fit an expression, from the left, without overlaps. -/
def findAll (anyCase : Bool) (r : Regex) (s : List Char) : List Fit :=
  findFrom anyCase r (s.length + 1) none ⟨0, none, s, []⟩

end Regex

end VocabularyCompiler.Text

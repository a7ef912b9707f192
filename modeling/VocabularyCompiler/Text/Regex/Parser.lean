import VocabularyCompiler.Text.Regex.Basic

/-!
# Reading regular expressions

Groups are numbered from one in the order of their opening parentheses. A group may have a name; one
that begins with `?:` has no number.
-/

namespace VocabularyCompiler.Text.Regex

/-- The names of the groups, with their numbers, and the number of the next group. -/
structure Groups where
  next : Nat
  names : List (Nat × String)

/-- A regular expression and the names of its groups. -/
structure Expression where
  regex : Regex
  names : List (Nat × String)

/-- The set of one character. -/
def only (c : Char) : CharSet := .range c c

/-- The set that a letter behind a backslash stands for, inside brackets or outside. -/
def escapedSet? (c : Char) : Option CharSet :=
  match c with
  | 'd' => some .digits
  | 'D' => some (.complement .digits)
  | 'w' => some .wordChars
  | 'W' => some (.complement .wordChars)
  | 's' => some .blanks
  | 'S' => some (.complement .blanks)
  | 'n' => some (only '\n')
  | 'r' => some (only '\r')
  | 't' => some (only '\t')
  | 'f' => some (only '\x0c')
  | 'v' => some (only '\x0b')
  | 'a' => some (only '\x07')
  | c => if c.isAlphanum || c = '<' || c = '>' || 127 < c.toNat then none else some (only c)

/-- A character at the end of a range, and the text behind it. -/
def rangeEnd? : List Char → Option (Char × List Char)
  | '\\' :: c :: rest =>
    match escapedSet? c with
    | some (.range d _) => some (d, rest)
    | _ => none
  | c :: rest => if c = '[' || c = ']' then none else some (c, rest)
  | [] => none

/-- Reads the characters between brackets up to the closing one, which does not count if it is the
`first`. -/
def set? : Nat → Bool → List Char → Option (CharSet × List Char)
  | 0, _, _ => none
  | _, _, [] => none
  | n + 1, first, c :: rest =>
    if c = ']' && !first then some (.nothing, rest)
    else if c = '[' then none
    else do
      let (item, rest) ←
        if c = '\\' then
          match rest with
          | e :: rest => (escapedSet? e).map fun s => (s, rest)
          | [] => none
        else some (only c, rest)
      let (item, rest) ←
        match item, rest with
        | .range d _, '-' :: e :: more =>
          if e = ']' then some (item, rest)
          else
            (rangeEnd? (e :: more)).bind fun (stop, rest) =>
              if stop < d then none else some (.range d stop, rest)
        | _, _ => some (item, rest)
      let (others, rest) ← set? n false rest
      return (.union item others, rest)

/-- Reads a number in braces and the text behind it. -/
def count? (s : List Char) : Option (Nat × List Char) :=
  match s.span Char.isDigit with
  | ([], _) => none
  | (digits, rest) => (String.ofList digits).toNat?.map fun n => (n, rest)

/-- Reads how often something is repeated: the least and the most. -/
def bounds? : List Char → Option ((Nat × Option Nat) × List Char)
  | '*' :: rest => some ((0, none), rest)
  | '+' :: rest => some ((1, none), rest)
  | '?' :: rest => some ((0, some 1), rest)
  | '\x7b' :: rest => do
    let (least, rest) ← count? rest
    match rest with
    | '\x7d' :: rest => return ((least, some least), rest)
    | ',' :: '\x7d' :: rest => return ((least, none), rest)
    | ',' :: rest =>
      match ← count? rest with
      | (most, '\x7d' :: rest) => if least ≤ most then return ((least, some most), rest) else none
      | _ => none
    | _ => none
  | _ => none

/-- Whether a text begins with a sign of repetition. -/
def startsBounds : List Char → Bool
  | c :: _ => c = '*' || c = '+' || c = '?' || c = '\x7b'
  | [] => false

/-- Reads the name of a group up to the sign behind it. -/
def groupName? (s : List Char) : Option (String × List Char) :=
  match s.span (· ≠ '>') with
  | (c :: name, _ :: rest) =>
    if (c.isAlpha || c = '_') && name.all isWordChar then some (String.ofList (c :: name), rest)
    else none
  | _ => none

/-- An expression that was read, the groups so far, and the text behind. -/
abbrev Parsed := Option (Regex × Groups × List Char)

mutual

/-- Reads alternatives up to a closing parenthesis or the end. Every character takes a bounded
number of steps, so a multiple of their number is enough for `n`. -/
def either? : Nat → Bool → Groups → List Char → Parsed
  | 0, _, _, _ => none
  | n + 1, dotAll, groups, s => do
    let (r, groups, rest) ← sequence? n dotAll groups s
    match rest with
    | '|' :: rest =>
      let (t, groups, rest) ← either? n dotAll groups rest
      return (.either r t, groups, rest)
    | _ => return (r, groups, rest)

/-- Reads what stands one behind another. -/
def sequence? : Nat → Bool → Groups → List Char → Parsed
  | 0, _, _, _ => none
  | _, _, groups, [] => some (.empty, groups, [])
  | n + 1, dotAll, groups, c :: rest =>
    if c = '|' || c = ')' then some (.empty, groups, c :: rest)
    else do
      let (r, groups, rest) ← atom? n dotAll groups (c :: rest)
      let (r, rest) ← repeated? n r rest
      let (t, groups, rest) ← sequence? n dotAll groups rest
      return (.seq r t, groups, rest)

/-- Reads the signs of repetition behind an expression. -/
def repeated? : Nat → Regex → List Char → Option (Regex × List Char)
  | 0, _, _ => none
  | n + 1, r, s =>
    if startsBounds s then do
      let ((least, most), rest) ← bounds? s
      match rest with
      | '?' :: rest => repeated? n (.repetition r least most false) rest
      | _ => repeated? n (.repetition r least most true) rest
    else some (r, s)

/-- Reads a set, a group or a sign. -/
def atom? : Nat → Bool → Groups → List Char → Parsed
  | 0, _, _, _ => none
  | _, _, _, [] => none
  | n + 1, dotAll, groups, c :: rest =>
    match c, rest with
    | '.', _ =>
      some (.oneOf (.complement (if dotAll then .nothing else only '\n')), groups, rest)
    | '^', _ => some (.atStart, groups, rest)
    | '$', _ => some (.atEnd, groups, rest)
    | '[', '^' :: rest => (set? n true rest).map fun (s, rest) => (.oneOf (.complement s), groups, rest)
    | '[', _ => (set? n true rest).map fun (s, rest) => (.oneOf s, groups, rest)
    | '(', '?' :: ':' :: rest => grouped? n dotAll id groups rest
    | '(', '?' :: 'P' :: '<' :: rest => named? n dotAll groups rest
    | '(', '?' :: '<' :: rest => named? n dotAll groups rest
    | '(', '?' :: _ => none
    | '(', _ => grouped? n dotAll (.group groups.next) { groups with next := groups.next + 1 } rest
    | '\\', 'b' :: rest => some (.wordEdge true, groups, rest)
    | '\\', 'B' :: rest => some (.wordEdge false, groups, rest)
    | '\\', 'A' :: rest => some (.atStart, groups, rest)
    | '\\', 'z' :: rest => some (.atEnd, groups, rest)
    | '\\', e :: rest => (escapedSet? e).map fun s => (.oneOf s, groups, rest)
    | '\\', [] => none
    | c, _ =>
      if startsBounds (c :: rest) || c = ')' then none else some (.oneOf (only c), groups, rest)

/-- Reads a group with a name. -/
def named? : Nat → Bool → Groups → List Char → Parsed
  | 0, _, _, _ => none
  | n + 1, dotAll, groups, s => do
    let (name, rest) ← groupName? s
    if groups.names.any fun e => e.2 = name then none
    let number := groups.next
    grouped? n dotAll (.group number) ⟨number + 1, groups.names ++ [(number, name)]⟩ rest

/-- Reads what stands in a group, up to the closing parenthesis. -/
def grouped? : Nat → Bool → (Regex → Regex) → Groups → List Char → Parsed
  | 0, _, _, _, _ => none
  | n + 1, dotAll, wrap, groups, s => do
    match ← either? n dotAll groups s with
    | (r, groups, ')' :: rest) => return (wrap r, groups, rest)
    | _ => none

end

/-- Reads a regular expression. A point stands for a line feed too if `dotAll` says so. -/
def parse? (dotAll : Bool) (s : List Char) : Option Expression :=
  match either? (6 * s.length + 6) dotAll ⟨1, []⟩ s with
  | some (r, groups, []) => some ⟨r, groups.names⟩
  | _ => none

end VocabularyCompiler.Text.Regex

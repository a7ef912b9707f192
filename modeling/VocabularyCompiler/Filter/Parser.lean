import VocabularyCompiler.Filter.Term
import VocabularyCompiler.Filter.Token
import VocabularyCompiler.Json.Decode

/-!
# Reading filters

Operators bind in levels, from the pipe, which binds least, over the comma, changes, alternatives,
the connectives and comparisons to arithmetic. A path is a term with parts behind it, and those
bind most.
-/

namespace VocabularyCompiler.Filter

open Json

/-- The words that name no filter. -/
def keywords : List String :=
  ["include", "import", "def", "as", "and", "or", "reduce", "foreach", "try", "catch", "if", "then",
    "elif", "else", "end", "label", "break"]

/-- How two filters become one. -/
structure Joint where
  /-- The level; operators of a higher one bind more. -/
  level : Nat
  /-- Whether of two operators of the level the second binds more. -/
  toTheRight : Bool
  combine : Term → Term → Term

/-- The operator at the beginning of tokens. A comma is one only if `commas` says so. -/
def joint? (commas : Bool) : List Token → Option (Joint × List Token)
  | .word "as" :: .var name :: .symbol "|" :: rest => some (⟨0, true, fun a b => .bind a name b⟩, rest)
  | .word "or" :: rest => some (⟨4, false, .disjunction⟩, rest)
  | .word "and" :: rest => some (⟨5, false, .conjunction⟩, rest)
  | .symbol "," :: rest => if commas then some (⟨1, false, .both⟩, rest) else none
  | .symbol s :: rest =>
    let known : Option Joint :=
      match s with
      | "|" => some ⟨0, true, .pipe⟩
      | "=" => some ⟨2, true, .assign⟩
      | "|=" => some ⟨2, true, .update⟩
      | "+=" => some ⟨2, true, .operateOn .add⟩
      | "-=" => some ⟨2, true, .operateOn .subtract⟩
      | "*=" => some ⟨2, true, .operateOn .multiply⟩
      | "/=" => some ⟨2, true, .operateOn .divide⟩
      | "%=" => some ⟨2, true, .operateOn .remainder⟩
      | "//=" => some ⟨2, true, .setMissing⟩
      | "//" => some ⟨3, true, .alternative⟩
      | "<" => some ⟨6, false, .compare .less⟩
      | "<=" => some ⟨6, false, .compare .lessOrEqual⟩
      | ">" => some ⟨6, false, .compare .greater⟩
      | ">=" => some ⟨6, false, .compare .greaterOrEqual⟩
      | "==" => some ⟨6, false, .compare .equal⟩
      | "!=" => some ⟨6, false, .compare .unequal⟩
      | "+" => some ⟨7, false, .operate .add⟩
      | "-" => some ⟨7, false, .operate .subtract⟩
      | "*" => some ⟨8, false, .operate .multiply⟩
      | "/" => some ⟨8, false, .operate .divide⟩
      | "%" => some ⟨9, false, .operate .remainder⟩
      | _ => none
    known.map fun op => (op, rest)
  | _ => none

/-- The number that digits stand for. -/
def numberOf (digits : String) : Number :=
  match digits.toNat?, parse digits with
  | some n, _ => if n < 0x8000000000000000 then .int n else .float (Float.ofNat n)
  | none, .ok (.number n) => n
  | none, _ => .float (1 / 0)

/-- Expects a sign. -/
def expect? (s : String) : List Token → Option (List Token)
  | .symbol t :: rest => if t = s then some rest else none
  | _ => none

/-- Expects a keyword. -/
def expectWord? (s : String) : List Token → Option (List Token)
  | .word t :: rest => if t = s then some rest else none
  | _ => none

/-- Reads the parameters of a definition behind its name, up to the colon. -/
def parameters? : List Token → Option (List Parameter × List Token)
  | .symbol ":" :: rest => some ([], rest)
  | .symbol "(" :: rest => go rest
  | _ => none
where
  /-- Reads at least one parameter, up to the colon. -/
  go : List Token → Option (List Parameter × List Token)
    | .word name :: .symbol ")" :: .symbol ":" :: rest => some ([⟨name, false⟩], rest)
    | .var name :: .symbol ")" :: .symbol ":" :: rest => some ([⟨name, true⟩], rest)
    | .word name :: .symbol ";" :: rest => (go rest).map fun (ps, rest) => (⟨name, false⟩ :: ps, rest)
    | .var name :: .symbol ";" :: rest => (go rest).map fun (ps, rest) => (⟨name, true⟩ :: ps, rest)
    | _ => none

/-- A filter that was read, and the tokens behind it. -/
abbrev Parsed := Option (Term × List Token)

mutual

/-- Reads a filter whose operators are at least of a level. Every token takes a bounded number of
steps, so a multiple of their number is enough for `n`. -/
def term? : Nat → Bool → Nat → List Token → Parsed
  | 0, _, _, _ => none
  | n + 1, commas, level, .word "def" :: .word name :: rest => do
    if keywords.contains name then none
    let (ps, rest) ← parameters? rest
    let (body, rest) ← term? n true 0 rest
    let rest ← expect? ";" rest
    let (t, rest) ← term? n commas level rest
    return (.define name ps body t, rest)
  | n + 1, commas, level, ts => do
    let (t, rest) ← operand? n ts
    operators? n commas level t rest

/-- Reads operators behind a filter, and what they apply to. -/
def operators? : Nat → Bool → Nat → Term → List Token → Parsed
  | 0, _, _, _, _ => none
  | n + 1, commas, level, t, ts =>
    match joint? commas ts with
    | none => some (t, ts)
    | some (op, rest) =>
      if op.level < level then some (t, ts)
      else do
        let (u, rest) ← term? n commas (if op.toTheRight then op.level else op.level + 1) rest
        operators? n commas level (op.combine t u) rest

/-- Reads a term with the parts behind it. -/
def operand? : Nat → List Token → Parsed
  | 0, _ => none
  | n + 1, ts => do
    let (t, rest) ← atom? n ts
    parts? n t rest

/-- Reads parts behind a term, and question marks, which excuse faults. -/
def parts? : Nat → Term → List Token → Parsed
  | 0, _, _ => none
  | n + 1, t, .key name :: rest => part? n (.index t (.text name)) rest
  | n + 1, t, .symbol "." :: .text pieces :: rest => do
    let key ← text? n pieces
    part? n (.index t key) rest
  | n + 1, t, .symbol "." :: .symbol "[" :: rest => bracket? n t rest
  | n + 1, t, .symbol "[" :: rest => bracket? n t rest
  | n + 1, t, .symbol "?" :: rest => parts? n (.attempt t .nothing) rest
  | _, t, ts => some (t, ts)

/-- Reads on behind a part, which is lenient if there is a question mark. -/
def part? : Nat → (Bool → Term) → List Token → Parsed
  | 0, _, _ => none
  | n + 1, t, .symbol "?" :: rest => parts? n (t true) rest
  | n + 1, t, rest => parts? n (t false) rest

/-- Reads a part behind an opening bracket. -/
def bracket? : Nat → Term → List Token → Parsed
  | 0, _, _ => none
  | n + 1, t, .symbol "]" :: rest => part? n (.iterate t) rest
  | n + 1, t, .symbol ":" :: rest => do
    let (stop, rest) ← term? n true 0 rest
    part? n (.slice t (.literal .null) stop) (← expect? "]" rest)
  | n + 1, t, ts => do
    let (key, rest) ← term? n true 0 ts
    match rest with
    | .symbol "]" :: rest => part? n (.index t key) rest
    | .symbol ":" :: .symbol "]" :: rest => part? n (.slice t key (.literal .null)) rest
    | .symbol ":" :: rest =>
      let (stop, rest) ← term? n true 0 rest
      part? n (.slice t key stop) (← expect? "]" rest)
    | _ => none

/-- Reads a term. -/
def atom? : Nat → List Token → Parsed
  | 0, _ => none
  | _, .symbol ".." :: rest => some (.everything, rest)
  | _, .number digits :: rest => some (.literal (.number (numberOf digits)), rest)
  | _, .var name :: rest => some (.var name, rest)
  | n + 1, .key name :: rest => part? n (.index .identity (.text name)) rest
  | n + 1, .symbol "." :: .text pieces :: rest => do
    let key ← text? n pieces
    part? n (.index .identity key) rest
  | _, .symbol "." :: rest => some (.identity, rest)
  | n + 1, .symbol "-" :: rest => (operand? n rest).map fun (t, rest) => (.negate t, rest)
  | n + 1, .text pieces :: rest => (text? n pieces).map fun t => (t, rest)
  | n + 1, .symbol "(" :: rest => do
    let (t, rest) ← term? n true 0 rest
    return (t, ← expect? ")" rest)
  | _, .symbol "[" :: .symbol "]" :: rest => some (.literal (.array []), rest)
  | n + 1, .symbol "[" :: rest => do
    let (t, rest) ← term? n true 0 rest
    return (.array t, ← expect? "]" rest)
  | _, .symbol "\x7b" :: .symbol "\x7d" :: rest => some (.literal (.object []), rest)
  | n + 1, .symbol "\x7b" :: rest => do
    let (first, rest) ← member? n rest
    members? n first rest
  | n + 1, .word "if" :: rest => conditional? n rest
  | n + 1, .word "try" :: rest => do
    let (t, rest) ← operand? n rest
    match rest with
    | .word "catch" :: rest => do
      let (handler, rest) ← operand? n rest
      return (.attempt t handler, rest)
    | _ => return (.attempt t .nothing, rest)
  | n + 1, .word "reduce" :: rest => do
    let (items, rest) ← operand? n rest
    match rest with
    | .word "as" :: .var name :: .symbol "(" :: rest =>
      let (start, rest) ← term? n true 0 rest
      let (step, rest) ← term? n true 0 (← expect? ";" rest)
      return (.reduce items name start step, ← expect? ")" rest)
    | _ => none
  | _, .word "null" :: rest => some (.literal .null, rest)
  | _, .word "true" :: rest => some (.literal (.bool true), rest)
  | _, .word "false" :: rest => some (.literal (.bool false), rest)
  | n + 1, .word name :: rest =>
    if keywords.contains name then none
    else
      match rest with
      | .symbol "(" :: rest => (arguments? n rest).map fun (ts, rest) => (.call name ts, rest)
      | _ => some (.call name [], rest)
  | _, _ => none

/-- Reads the arguments of a filter behind the opening parenthesis. -/
def arguments? : Nat → List Token → Option (List Term × List Token)
  | 0, _ => none
  | n + 1, ts => do
    let (t, rest) ← term? n true 0 ts
    match rest with
    | .symbol ")" :: rest => return ([t], rest)
    | .symbol ";" :: rest => (arguments? n rest).map fun (ts, rest) => (t :: ts, rest)
    | _ => none

/-- Reads what follows `if`, or `elif` within. -/
def conditional? : Nat → List Token → Parsed
  | 0, _ => none
  | n + 1, ts => do
    let (condition, rest) ← term? n true 0 ts
    let (yes, rest) ← term? n true 0 (← expectWord? "then" rest)
    match rest with
    | .word "end" :: rest => return (.conditional condition yes .identity, rest)
    | .word "else" :: rest =>
      let (no, rest) ← term? n true 0 rest
      return (.conditional condition yes no, ← expectWord? "end" rest)
    | .word "elif" :: rest =>
      let (no, rest) ← conditional? n rest
      return (.conditional condition yes no, rest)
    | _ => none

/-- Reads a member of an object. One without a value takes it from the input, or from the variable
that it names. -/
def member? : Nat → List Token → Parsed
  | 0, _ => none
  | _, .var name :: rest => some (.member (.text name) (.var name), rest)
  | n + 1, .word name :: .symbol ":" :: rest => memberValue? n (.text name) rest
  | _, .word name :: rest => some (.member (.text name) (.index .identity (.text name) false), rest)
  | n + 1, .text pieces :: rest => do
    let key ← text? n pieces
    match rest with
    | .symbol ":" :: rest => memberValue? n key rest
    | _ => return (.member key (.index .identity key false), rest)
  | n + 1, .symbol "(" :: rest => do
    let (key, rest) ← term? n true 0 rest
    memberValue? n key (← expect? ":" (← expect? ")" rest))
  | _, _ => none

/-- Reads the value of a member. -/
def memberValue? : Nat → Term → List Token → Parsed
  | 0, _, _ => none
  | n + 1, key, ts => (term? n false 0 ts).map fun (t, rest) => (.member key t, rest)

/-- Reads the other members of an object, up to the closing brace. -/
def members? : Nat → Term → List Token → Parsed
  | 0, _, _ => none
  | _, t, .symbol "\x7d" :: rest => some (t, rest)
  | n + 1, t, .symbol "," :: rest => do
    let (next, rest) ← member? n rest
    members? n (.operate .add t next) rest
  | _, _, _ => none

/-- Reads a text: its pieces one after another, filters in it as texts. -/
def text? : Nat → List Piece → Option Term
  | 0, _ => none
  | _, [] => some (.text "")
  | n + 1, piece :: rest => do
    let t ←
      match piece with
      | .chars s => some (.text s)
      | .code ts =>
        match term? n true 0 ts with
        | some (t, []) => some (.pipe t (.call "tostring" []))
        | _ => none
    if rest.isEmpty then return t else return .operate .add t (← text? n rest)

end

mutual

/-- The number of tokens, with those in the pieces of texts. -/
def weight : List Token → Nat
  | [] => 1
  | .text pieces :: rest => weightOfPieces pieces + weight rest
  | _ :: rest => 1 + weight rest

/-- The number of tokens in pieces of a text, and of the pieces. -/
def weightOfPieces : List Piece → Nat
  | [] => 1
  | .chars _ :: rest => 1 + weightOfPieces rest
  | .code ts :: rest => 1 + weight ts + weightOfPieces rest

end

/-- Reads the text of a filter. -/
def parse? (code : String) : Option Term := do
  let ts ← tokens? code.toList
  let (t, rest) ← term? (8 * weight ts) true 0 ts
  if rest.isEmpty then some t else none

end VocabularyCompiler.Filter

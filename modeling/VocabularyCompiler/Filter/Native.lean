import VocabularyCompiler.Filter.Part
import VocabularyCompiler.Text.Regex.Parser
import VocabularyCompiler.Text.Words

/-!
# Native filters

The filters that are not defined by others. Each takes its input and the values of its arguments.
-/

namespace VocabularyCompiler.Filter

open Json Text

/-- The name of the kind of a value. -/
def kindOf : Value → String
  | .null => "null"
  | .bool _ => "boolean"
  | .number _ => "number"
  | .string _ => "string"
  | .array _ => "array"
  | .object _ => "object"

/-- A text as it is, and any other value as JSON. -/
def textOf : Value → String
  | .string s => s
  | v => v.compact

/-- How many items, members or characters a value has; a number's length is its distance from
zero. -/
def lengthOf : Value → Except Fault Value
  | .null => .ok (.nat 0)
  | .number (.int n) => .ok (.number (ofInt n.natAbs))
  | .number (.float x) => .ok (.number (.float x.abs))
  | .string s => .ok (.nat s.length)
  | .array items => .ok (.nat items.length)
  | .object members => .ok (.nat members.length)
  | v => .error (.unusable v "something with a length")

/-- The keys of an object, sorted or as they stand, or the indexes of an array. -/
def keysOf (sort : Bool) : Value → Except Fault Value
  | .array items => .ok (.array ((List.range items.length).map Value.nat))
  | .object members =>
    .ok (.strings (if sort then sortedKeys members else members.map Prod.fst))
  | v => .error (.unusable v "an array or object")

/-- Whether an object has a key or an array an index. -/
def hasKey : Value → Value → Except Fault Value
  | .array items, .number (.int i) => .ok (.bool (0 ≤ i && i < items.length))
  | .object members, .string key => .ok (.bool (List.lookup key members).isSome)
  | _, key => .error (.unusable key "an index or key")

/-- Applies a function to two texts. -/
def withTexts (f : List Char → List Char → Value) : Value → Value → Except Fault Value
  | .string s, .string t => .ok (f s.toList t.toList)
  | .string _, w => .error (.unusable w "a string")
  | v, _ => .error (.unusable v "a string")

/-- How a regular expression is used. -/
structure MatchFlags where
  /-- All matches, not the first alone. -/
  everywhere : Bool
  /-- Matches that are not empty. -/
  nonEmpty : Bool
  anyCase : Bool
  /-- A point stands for a line feed too. -/
  dotAll : Bool

/-- Reads the letters for how a regular expression is used. -/
def MatchFlags.parse? (letters : List Char) : Option MatchFlags :=
  if letters.all "gnis".toList.contains then
    some ⟨letters.contains 'g', letters.contains 'n', letters.contains 'i', letters.contains 's'⟩
  else none

/-- A part of a text as a value, with its name if it has one. -/
def partOfText (offset : Nat) (text : List Char) (name : Option String) : Value :=
  .object ([("offset", .nat offset), ("length", .nat text.length),
    ("string", .string (String.ofList text))] ++ (name.map fun n => ("name", .string n)).toList)

/-- A match as a value: the whole, and then the groups that took part by their numbers. -/
def matchValue (names : List (Nat × String)) (m : Regex.Fit) : Value :=
  let groups := (m.groups.eraseDupsBy fun g h => g.1 = h.1).mergeSort fun g h => g.1 ≤ h.1
  .array (partOfText m.offset m.text none ::
    groups.map fun g => partOfText g.2.1 g.2.2 (List.lookup g.1 names))

/-- The matches of a text, and what stands between them: before each, and behind the last. -/
def matchesAndGaps (s : List Char) (names : List (Nat × String)) (start : Nat) :
    List Regex.Fit → List (Value × Bool)
  | [] => [(.string (String.ofList (s.drop start)), false)]
  | m :: rest =>
    (.string (String.ofList ((s.drop start).take (m.offset - start))), false)
      :: (matchValue names m, true) :: matchesAndGaps s names (m.offset + m.text.length) rest

/-- Matches a text with a regular expression. No match begins behind the last character. -/
def matchText (v pattern letters : Value) : Except Fault (List (Value × Bool)) :=
  match v, pattern, letters with
  | .string s, .string p, .string l =>
    match MatchFlags.parse? l.toList with
    | none => .error (.unusable letters "flags")
    | some flags =>
      match Regex.parse? flags.dotAll p.toList with
      | none => .error (.malformedPattern p)
      | some e =>
        let found := (Regex.findAll flags.anyCase e.regex s.toList).filter fun m =>
          m.offset < s.length && !(flags.nonEmpty && m.text.isEmpty)
        .ok (matchesAndGaps s.toList e.names 0 (if flags.everywhere then found else found.take 1))
  | .string _, .string _, _ => .error (.unusable letters "flags")
  | .string _, _, _ => .error (.unusable pattern "a regular expression")
  | _, _, _ => .error (.unusable v "a string")

/-- A native filter. -/
structure Native where
  name : String
  arity : Nat
  run : Value → List Value → Except Fault Value

/-- A native filter without arguments. -/
def Native.plain (name : String) (f : Value → Except Fault Value) : Native :=
  ⟨name, 0, fun v _ => f v⟩

/-- A native filter with one argument. -/
def Native.unary (name : String) (f : Value → Value → Except Fault Value) : Native :=
  ⟨name, 1, fun v ws => f v (ws.headD .null)⟩

/-- A native filter that matches with a regular expression and flags, and keeps of the matches and
what stands between them what `keep` says. -/
def Native.matching (name : String) (keep : Bool → Bool) : Native :=
  ⟨name, 2, fun v ws =>
    (matchText v (ws.headD .null) (ws.getD 1 .null)).map fun pieces =>
      .array ((pieces.filter fun p => keep p.2).map Prod.fst)⟩

/-- The native filters. -/
def natives : List Native :=
  [.plain "error" fun v => .error (.raised v),
    .plain "length" lengthOf,
    .plain "keys" (keysOf true),
    .plain "keys_unsorted" (keysOf false),
    .plain "type" fun v => .ok (.string (kindOf v)),
    .plain "tostring" fun v => .ok (.string (textOf v)),
    .plain "tojson" fun v => .ok (.string v.compact),
    .unary "has" hasKey,
    .unary "startswith" (withTexts fun s t => .bool (t.isPrefixOf s)),
    .unary "endswith" (withTexts fun s t => .bool (t.isSuffixOf s)),
    .unary "ltrimstr" (fun v w =>
      match v, w with
      | .string s, .string t =>
        .ok (.string (((dropStart? t.toList s.toList).map String.ofList).getD s))
      | v, _ => .ok v),
    .unary "rtrimstr" (fun v w =>
      match v, w with
      | .string s, .string t =>
        .ok (.string (((dropEnd? t.toList s.toList).map String.ofList).getD s))
      | v, _ => .ok v),
    .matching "matches" id,
    .matching "split" not,
    .matching "split_matches" fun _ => true]

/-- The native filter of a name and a number of arguments. -/
def native? (name : String) (arity : Nat) : Option Native :=
  natives.find? fun f => f.name = name && f.arity = arity

end VocabularyCompiler.Filter

import VocabularyCompiler.Filter.Native
import VocabularyCompiler.Filter.Parser

/-!
# Defined filters

The filters that are defined by others, in the order in which they build on each other.
-/

namespace VocabularyCompiler.Filter

/-- The texts of the defined filters. -/
def librarySource : List String :=
  ["def empty: [][] as $x | .;",
    "def error(f): f | error;",
    "def infinite: 1 / 0;",
    "def nan: 0 / 0;",
    "def not: if . then false else true end;",
    "def select(f): if f then . else empty end;",
    "def map(f): [.[] | f];",
    "def map_values(f): .[] |= f;",
    "def del(f): f |= empty;",
    "def recurse(f): def r: ., (f | r); r;",
    "def recurse: recurse(.[]?);",
    "def values: select(. != null);",
    "def nulls: select(. == null);",
    "def strings: select(type == \"string\");",
    "def numbers: select(type == \"number\");",
    "def booleans: select(type == \"boolean\");",
    "def arrays: select(type == \"array\");",
    "def objects: select(type == \"object\");",
    "def add(f): reduce f as $x (null; . + $x);",
    "def add: add(.[]);",
    "def any(f; g): reduce (f | g) as $x (false; . or $x);",
    "def any(f): any(.[]; f);",
    "def any: any(.);",
    "def all(f; g): reduce (f | g) as $x (true; . and $x);",
    "def all(f): all(.[]; f);",
    "def all: all(.);",
    "def in(xs): . as $x | xs | has($x);",
    "def first: .[0];",
    "def last: .[-1];",
    "def to_entries: [keys_unsorted[] as $k | \x7bkey: $k, value: .[$k]\x7d];",
    "def from_entries: reduce .[] as $x (\x7b\x7d; . + \x7b($x.key | tostring): $x.value\x7d);",
    "def with_entries(f): to_entries | map(f) | from_entries;",
    "def matches(re): matches(re; \"\");",
    "def test(re; flags): matches(re; flags) | length > 0;",
    "def test(re): test(re; \"\");",
    "def capture_of_match: map(select(.name) | \x7b(.name): .string\x7d) | add + \x7b\x7d;",
    "def capture(re; flags): matches(re; flags)[] | capture_of_match;",
    "def capture(re): capture(re; \"\");",
    "def sub(re; f; flags): reduce split_matches(re; flags)[] as $x (\"\";"
      ++ " . + ($x | if type == \"string\" then . else capture_of_match | f end));",
    "def sub(re; f): sub(re; f; \"\");",
    "def gsub(re; f; flags): sub(re; f; \"g\" + flags);",
    "def gsub(re; f): sub(re; f; \"g\");"]

/-- Puts a filter in the scope of the defined filters. -/
def inLibrary? (code : String) : Option Term := do
  let t ← parse? code
  librarySource.foldr (fun definition rest => do
    match ← parse? (definition ++ ".") with
    | .define name ps body _ => return .define name ps body (← rest)
    | _ => none) (some t)

end VocabularyCompiler.Filter

import VocabularyCompiler.Filter.Operate

/-!
# Parts of values

The items of arrays and the values of objects can be taken and changed. A change is a filter: its
first output takes the place of the part, and where it has none the part is removed. The value that
is removed from an object leaves its position to the last one.
-/

namespace VocabularyCompiler.Filter

open Json

/-- The position that an index stands for in a list; negative ones count from its end. -/
def position? (i : Int) (length : Nat) : Option Nat :=
  let p := if i < 0 then length + i else i
  if 0 ≤ p && p < length then some p.toNat else none

/-- The part under an index or a key. -/
def part : Value → Value → Except Fault Value
  | .array items, .number (.int i) =>
    .ok (((position? i items.length).bind fun p => items[p]?).getD .null)
  | .object members, .string key => .ok ((List.lookup key members).getD .null)
  | .array _, key => .error (.unusable key "an index")
  | .object _, key => .error (.unusable key "a key")
  | v, _ => .error (.unusable v "an array or object")

/-- All items of an array or values of an object. -/
def items : Value → Except Fault (List Value)
  | .array items => .ok items
  | .object members => .ok (members.map Prod.snd)
  | v => .error (.unusable v "an array or object")

/-- A bound of a slice as a position; `null` is no bound. -/
def bound (default length : Nat) : Value → Except Fault Nat
  | .null => .ok default
  | .number (.int i) => .ok (if i < 0 then (length + i).toNat else min i.toNat length)
  | v => .error (.unusable v "a position")

/-- The positions that bounds enclose: the first and how many. -/
def enclosed (length : Nat) (start stop : Value) : Except Fault (Nat × Nat) := do
  let first ← bound 0 length start
  let last ← bound length length stop
  return (first, last - first)

/-- The part between two positions. -/
def slice (v start stop : Value) : Except Fault Value :=
  match v with
  | .array items => do
    let (skip, take) ← enclosed items.length start stop
    return .array ((items.drop skip).take take)
  | .string s => do
    let (skip, take) ← enclosed s.toList.length start stop
    return .string (String.ofList ((s.toList.drop skip).take take))
  | v => .error (.unusable v "an array or string")

/-- Changes all items of an array, which may become more, or all values of an object. -/
def changeItems (f : Value → Outputs) : Value → Except Fault Value
  | .array items =>
    let o := Outputs.each f items
    match o.fault? with
    | some fault => .error fault
    | none => .ok (.array o.values)
  | .object members => do
    let changed ← members.mapM fun e => (f e.2).first?.map fun w => w.map fun w => (e.1, w)
    return .object (changed.filterMap id)
  | v => .error (.unusable v "an array or object")

/-- Members without the one under a key; the last one takes its position. -/
def removeMember (key : String) (members : List (String × Value)) : List (String × Value) :=
  match members.getLast? with
  | none => []
  | some last =>
    if last.1 = key then members.dropLast
    else members.dropLast.map fun e => if e.1 = key then last else e

/-- Changes the part under an index or a key. What an object lacks is changed as `null`. -/
def changePart (lenient : Bool) (f : Value → Outputs) (v key : Value) : Except Fault Value :=
  match v, key with
  | .object members, .string k => do
    match List.lookup k members, ← (f ((List.lookup k members).getD .null)).first? with
    | _, some w => return .object (insertEntry k w members)
    | some _, none => return .object (removeMember k members)
    | none, none => return v
  | .array items, .number (.int i) =>
    match position? i items.length with
    | none => if lenient then .ok v else .error (.unusable key "an index")
    | some p => do
      match ← (f (items.getD p .null)).first? with
      | some w => return .array (items.set p w)
      | none => return .array (items.eraseIdx p)
  | _, _ => if lenient then .ok v else .error (.unusable v "an array or object")

/-- Changes the part of an array between two positions, which has to become an array. -/
def changeSlice (lenient : Bool) (f : Value → Outputs) (v start stop : Value) :
    Except Fault Value :=
  match v with
  | .array items => do
    let (skip, take) ← enclosed items.length start stop
    match ← (f (.array ((items.drop skip).take take))).first? with
    | none => return .array (items.take skip ++ items.drop (skip + take))
    | some (.array others) => return .array (items.take skip ++ others ++ items.drop (skip + take))
    | some w => throw (.unusable w "an array")
  | v => if lenient then .ok v else .error (.unusable v "an array")

mutual

/-- A value and all its parts, each before its own. -/
def allParts : Value → List Value
  | .array items => .array items :: allPartsOfItems items
  | .object members => .object members :: allPartsOfMembers members
  | v => [v]
termination_by structural v => v

/-- Items and all their parts. -/
def allPartsOfItems : List Value → List Value
  | [] => []
  | v :: rest => allParts v ++ allPartsOfItems rest
termination_by structural l => l

/-- The values of members and all their parts. -/
def allPartsOfMembers : List (String × Value) → List Value
  | [] => []
  | (_, v) :: rest => allParts v ++ allPartsOfMembers rest
termination_by structural l => l

end

end VocabularyCompiler.Filter

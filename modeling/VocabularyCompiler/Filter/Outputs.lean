import VocabularyCompiler.Json.Printer

/-!
# Outputs

A filter yields values one after another, and perhaps a fault behind them.
-/

namespace VocabularyCompiler.Filter

open Json

/-- Why a filter stops. -/
inductive Fault where
  /-- The filter raises a value itself. -/
  | raised (v : Value)
  /-- A value that cannot be used as it should. -/
  | unusable (v : Value) (use : String)
  /-- A filter that should name parts of its input and does not. -/
  | notPath
  /-- A pattern that cannot be read. -/
  | malformedPattern (pattern : String)
  /-- Calls within calls, too many. -/
  | tooDeep

/-- The wording of a fault. -/
def Fault.message : Fault → String
  | raised (.string s) => s
  | raised v => v.compact
  | unusable v use => "cannot use " ++ v.compact ++ " as " ++ use
  | notPath => "invalid path expression"
  | malformedPattern pattern => "invalid regular expression `" ++ pattern ++ "`"
  | tooDeep => "too many calls within calls"

/-- What a handler gets for a fault. -/
def Fault.value : Fault → Value
  | raised v => v
  | fault => .string fault.message

/-- What a filter yields. -/
structure Outputs where
  values : List Value
  /-- What stops the filter behind the values. -/
  fault? : Option Fault

namespace Outputs

/-- No values. -/
def none : Outputs := ⟨[], .none⟩

/-- One value. -/
def one (v : Value) : Outputs := ⟨[v], .none⟩

/-- Some values. -/
def ofList (vs : List Value) : Outputs := ⟨vs, .none⟩

/-- A fault without values before it. -/
def stop (fault : Fault) : Outputs := ⟨[], some fault⟩

/-- One value or a fault. -/
def ofExcept : Except Fault Value → Outputs
  | .ok v => one v
  | .error fault => stop fault

/-- Outputs behind others, unless those end with a fault. -/
def append (o next : Outputs) : Outputs :=
  match o.fault? with
  | some _ => o
  | .none => ⟨o.values ++ next.values, next.fault?⟩

/-- What a filter yields for each of some values, up to the first fault. -/
def each (f : Value → Outputs) : List Value → Outputs
  | [] => none
  | v :: rest =>
    let o := f v
    if o.fault?.isSome then o else o.append (each f rest)

/-- What a filter yields for each value. -/
def bind (o : Outputs) (f : Value → Outputs) : Outputs := (each f o.values).append ⟨[], o.fault?⟩

/-- The values as an array. -/
def collect (o : Outputs) : Outputs :=
  match o.fault? with
  | some fault => stop fault
  | .none => one (.array o.values)

/-- The first value, if there is one before a fault. -/
def first? (o : Outputs) : Except Fault (Option Value) :=
  match o.values, o.fault? with
  | v :: _, _ => .ok (some v)
  | [], some fault => .error fault
  | [], .none => .ok .none

/-- What is left if a fault is excused. -/
def excuse (lenient : Bool) (o : Outputs) : Outputs := if lenient then ofList o.values else o

end Outputs

end VocabularyCompiler.Filter

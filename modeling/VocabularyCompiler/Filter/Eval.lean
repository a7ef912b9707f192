import VocabularyCompiler.Filter.Native

/-!
# Running filters

A filter runs on a value in a scope of variables and filters. Where it is a path, it can also be
used to change the parts of a value that it names. Calls can go on for ever, so all runs have a
depth that they must not exceed.
-/

namespace VocabularyCompiler.Filter

open Json

/-- What a name in scope stands for. -/
inductive Binding where
  | value (name : String) (v : Value)
  /-- A definition, whose scope is what comes behind it, and itself. -/
  | definition (name : String) (parameters : List Parameter) (body : Term)
  /-- An argument with the scope of the call. -/
  | argument (name : String) (t : Term) (scope : List Binding)

/-- The names in scope, the latest first. -/
abbrev Scope := List Binding

/-- The value of a variable. -/
def lookupValue? (scope : Scope) (name : String) : Option Value :=
  scope.findSome? fun
    | .value n v => if n = name then some v else none
    | _ => none

/-- Whether a call means a binding. -/
def Binding.isFilter (name : String) (arity : Nat) : Binding → Bool
  | value .. => false
  | definition n ps _ => n = name && ps.length = arity
  | argument n _ _ => n = name && arity = 0

/-- The latest binding that a call means, with the bindings before it. -/
def lookupFilter? (scope : Scope) (name : String) (arity : Nat) : Option (Binding × Scope) :=
  match scope.dropWhile fun b => !b.isFilter name arity with
  | b :: rest => some (b, rest)
  | [] => none

/-- Each way to choose a value of every argument. -/
def choices (outputs : List Outputs) (f : List Value → Outputs) : Outputs :=
  match outputs with
  | [] => f []
  | o :: rest => o.bind fun v => choices rest fun vs => f (v :: vs)

/-- Whether a filter yields something that counts as true, or stops before. -/
def Outputs.isTruthy (o : Outputs) : Bool := o.values.any Filter.isTruthy || o.fault?.isSome

/-- The outputs that count as true. -/
def Outputs.truthy (o : Outputs) : Outputs := ⟨o.values.filter Filter.isTruthy, o.fault?⟩

/-- Applies changes one after another, one for each value. -/
def changeInTurn (o : Outputs) (v : Value) (change : Value → Value → Outputs) : Outputs :=
  let changed := o.values.foldl (fun out w => Outputs.bind out (change w)) (Outputs.one v)
  changed.append ⟨[], o.fault?⟩

mutual

/-- What a filter yields for a value. -/
def eval : Nat → Scope → Term → Value → Outputs
  | 0, _, _, _ => .stop .tooDeep
  | n + 1, scope, t, v =>
    match t with
    | .identity => .one v
    | .everything => .ofList (allParts v)
    | .literal w => .one w
    | .array t => (eval n scope t v).collect
    | .member key value =>
      (eval n scope key v).bind fun k => (eval n scope value v).bind fun w =>
        match k with
        | .string s => .one (.object [(s, w)])
        | k => .stop (.unusable k "a key")
    | .negate t => (eval n scope t v).bind fun w => .ofExcept (negate w)
    | .pipe t u => (eval n scope t v).bind (eval n scope u)
    | .bind value name body =>
      (eval n scope value v).bind fun w => eval n (.value name w :: scope) body v
    | .both t u => (eval n scope t v).append (eval n scope u v)
    | .operate op t u =>
      (eval n scope t v).bind fun x => (eval n scope u v).bind fun y => .ofExcept (operate op x y)
    | .compare c t u =>
      (eval n scope t v).bind fun x => (eval n scope u v).bind fun y => .one (.bool (c.holds x y))
    | .conjunction t u =>
      (eval n scope t v).bind fun x =>
        if isTruthy x then (eval n scope u v).bind fun y => .one (.bool (isTruthy y))
        else .one (.bool false)
    | .disjunction t u =>
      (eval n scope t v).bind fun x =>
        if isTruthy x then .one (.bool true)
        else (eval n scope u v).bind fun y => .one (.bool (isTruthy y))
    | .alternative t u =>
      let o := eval n scope t v
      if o.isTruthy then o.truthy else eval n scope u v
    | .assign path value =>
      (eval n scope value v).bind fun w => change n scope path (fun _ => .one w) v
    | .update path f => change n scope path (eval n scope f) v
    | .operateOn op path value =>
      (eval n scope value v).bind fun w =>
        change n scope path (fun x => .ofExcept (operate op x w)) v
    | .setMissing path value =>
      (eval n scope value v).bind fun w =>
        change n scope path (fun x => .one (if isTruthy x then x else w)) v
    | .attempt t handler =>
      let o := eval n scope t v
      match o.fault? with
      | some .tooDeep | none => o
      | some fault => (Outputs.ofList o.values).append (eval n scope handler fault.value)
    | .conditional condition yes no =>
      (eval n scope condition v).bind fun w => eval n scope (if isTruthy w then yes else no) v
    | .reduce items name start step =>
      (eval n scope start v).bind fun w =>
        changeInTurn (eval n scope items v) w fun x => eval n (.value name x :: scope) step
    | .define name ps body rest => eval n (.definition name ps body :: scope) rest v
    | .call name ts =>
      match lookupFilter? scope name ts.length with
      | some (.argument _ t inner, _) => eval n inner t v
      | some (.definition name ps body, outer) =>
        enter n scope ts v ps (.definition name ps body :: outer) fun inner => eval n inner body v
      | _ =>
        match native? name ts.length with
        | some f => choices (ts.map fun t => eval n scope t v) fun ws => .ofExcept (f.run v ws)
        | none => .stop .notPath
    | .var name => .ofExcept (((lookupValue? scope name).map .ok).getD (.error .notPath))
    | .index base key lenient =>
      (eval n scope base v).bind fun w => (eval n scope key v).bind fun k =>
        (Outputs.ofExcept (part w k)).excuse lenient
    | .slice base start stop lenient =>
      (eval n scope base v).bind fun w => (eval n scope start v).bind fun i =>
        (eval n scope stop v).bind fun j => (Outputs.ofExcept (slice w i j)).excuse lenient
    | .iterate base lenient =>
      (eval n scope base v).bind fun w =>
        match items w with
        | .ok vs => .ofList vs
        | .error fault => (Outputs.stop fault).excuse lenient

/-- A value with the parts that a path names changed by a filter. -/
def change : Nat → Scope → Term → (Value → Outputs) → Value → Outputs
  | 0, _, _, _, _ => .stop .tooDeep
  | n + 1, scope, t, f, v =>
    match t with
    | .identity => f v
    | .pipe t u => change n scope t (change n scope u f) v
    | .both t u => (change n scope t f v).bind (change n scope u f)
    | .bind value name body =>
      changeInTurn (eval n scope value v) v fun w => change n (.value name w :: scope) body f
    | .conditional condition yes no =>
      changeInTurn (eval n scope condition v) v fun w =>
        change n scope (if isTruthy w then yes else no) f
    | .alternative t u => change n scope (if (eval n scope t v).isTruthy then t else u) f v
    | .define name ps body rest => change n (.definition name ps body :: scope) rest f v
    | .call name ts =>
      match lookupFilter? scope name ts.length with
      | some (.argument _ t inner, _) => change n inner t f v
      | some (.definition name ps body, outer) =>
        enter n scope ts v ps (.definition name ps body :: outer) fun inner =>
          change n inner body f v
      | _ => .stop .notPath
    | .index base key lenient =>
      change n scope base (fun w =>
        changeInTurn (eval n scope key v) w fun k u => .ofExcept (changePart lenient f u k)) v
    | .slice base start stop lenient =>
      change n scope base (fun w =>
        changeInTurn (eval n scope start v) w fun i u =>
          changeInTurn (eval n scope stop v) u fun j u =>
            .ofExcept (changeSlice lenient f u i j)) v
    | .iterate base lenient =>
      change n scope base (fun w =>
        match w with
        | .array _ | .object _ => .ofExcept (changeItems f w)
        | w => if lenient then .one w else .ofExcept (changeItems f w)) v
    | _ => .stop .notPath

/-- Runs the body of a definition with its parameters bound to arguments, each value of a variable
in turn. -/
def enter (n : Nat) (scope : Scope) (ts : List Term) (v : Value) (ps : List Parameter)
    (inner : Scope) (run : Scope → Outputs) : Outputs :=
  match n, ps, ts with
  | n + 1, p :: ps, t :: ts =>
    if p.isVariable then
      (eval n scope t v).bind fun w =>
        enter n scope ts v ps (.value p.name w :: .argument p.name t scope :: inner) run
    else enter n scope ts v ps (.argument p.name t scope :: inner) run
  | _, _, _ => run inner

end

/-- How deep calls may go. -/
def maxDepth : Nat := 10000

/-- What a filter yields for a value. -/
def Term.run (t : Term) (v : Value) : Outputs := eval maxDepth [] t v

end VocabularyCompiler.Filter

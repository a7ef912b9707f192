import VocabularyCompiler.Lowering.Basic

/-!
# What the lowering of a range comes down to

To lower a range takes the lowering of other ranges: of the element type of a list, and of the
ranges that were chosen for the properties of a struct, which then stand inside that struct.
`CalledFrom` is the relation between a range and those that it takes. A step of the lowering asks
for nothing else: whatever relation computations keep, two steps are related if the lowerings that
they call for are (`Congruence.lowerStep`). Computations whose values differ are compared by what is
left of them when something is forgotten (`SameUpTo`).
-/

namespace VocabularyCompiler.Lowering

/-- A relation between computations that are put together in the same way. It need not hold of a
stop at an endless list, which tells that there were too few steps. -/
structure Congruence (R : ∀ {α : Type}, Step α → Step α → Prop) : Prop where
  pure {α : Type} (a : α) : R (Pure.pure a : Step α) (Pure.pure a)
  bind {α β : Type} {x y : Step α} {f g : α → Step β} (hx : R x y) (hf : ∀ a, R (f a) (g a)) :
    R (x >>= f) (y >>= g)
  report (notes : Diagnostics) : R (report notes) (report notes)
  stop {α : Type} {e : CompileError} (he : ∀ name, e ≠ .endlessList name) :
    R (stop e : Step α) (stop e)

/-- What is made of the result makes no difference. -/
theorem Congruence.map {R : ∀ {α : Type}, Step α → Step α → Prop} (hR : Congruence R)
    {α β : Type} {x y : Step α} (f : α → β) (hx : R x y) : R (f <$> x) (f <$> y) := by
  rw [map_eq_pure_bind, map_eq_pure_bind]
  exact hR.bind hx fun a => hR.pure (f a)

/-- Two computations that do the same, and never stop at an endless list. -/
def Agree {α : Type} (x y : Step α) : Prop :=
  x = y ∧ ∀ notes name, x.run notes ≠ .error (.endlessList name)

namespace Agree

variable {α β : Type} {x y : Step α}

/-- To return a value is no stop. -/
theorem pure (a : α) : Agree (Pure.pure a : Step α) (Pure.pure a) :=
  ⟨rfl, fun _ _ h => nomatch h⟩

/-- One computation after another stops where one of them does. -/
theorem bind {f g : α → Step β} (hx : Agree x y) (hf : ∀ a, Agree (f a) (g a)) :
    Agree (x >>= f) (y >>= g) := by
  obtain ⟨rfl, hx⟩ := hx
  obtain rfl : f = g := funext fun a => (hf a).1
  refine ⟨rfl, fun notes name h => ?_⟩
  rw [StateT.run_bind] at h
  cases hrun : x.run notes with
  | error e =>
    rw [hrun] at h
    cases h
    exact hx notes name hrun
  | ok r =>
    rw [hrun] at h
    exact (hf r.1).2 r.2 name h

/-- To note something is no stop. -/
theorem report (notes : Diagnostics) : Agree (report notes) (report notes) :=
  ⟨rfl, fun _ _ h => nomatch h⟩

/-- A stop for another reason is no stop at an endless list. -/
theorem stop {e : CompileError} (he : ∀ name, e ≠ .endlessList name) :
    Agree (stop e : Step α) (stop e) := by
  refine ⟨rfl, fun notes name h => he name ?_⟩
  exact Except.error.inj h

/-- To agree is kept by whatever computations are put together from. -/
theorem congruence : Congruence Agree where
  pure := pure
  bind := bind
  report := report
  stop := stop

end Agree

/-- Two computations stop with the same error or return values that differ only in what `e` forgets,
whatever each of them noted before. -/
def SameUpTo {α γ : Type} (e : α → γ) (x y : Step α) : Prop :=
  ∀ notes notes', (x.run notes).map (fun r => e r.1) = (y.run notes').map fun r => e r.1

namespace SameUpTo

variable {α β γ δ : Type} {e : α → γ} {d : β → δ} {x y : Step α}

/-- Values may be returned that differ in what is forgotten. -/
theorem pure {a b : α} (h : e a = e b) : SameUpTo e (Pure.pure a) (Pure.pure b) :=
  fun _ _ => congrArg Except.ok h

/-- It makes no difference what is noted. -/
theorem report (notes notes' : Diagnostics) :
    SameUpTo (fun u : Unit => u) (report notes) (report notes') := fun _ _ => rfl

/-- A stop is with the given error. -/
theorem stop (error : CompileError) : SameUpTo e (stop error) (stop error) := fun _ _ => rfl

/-- What is forgotten of the first value may not matter to what follows. -/
theorem bind {f g : α → Step β} (hx : SameUpTo e x y)
    (hf : ∀ a b, e a = e b → SameUpTo d (f a) (g b)) : SameUpTo d (x >>= f) (y >>= g) := by
  intro notes notes'
  have hrun := hx notes notes'
  rw [StateT.run_bind, StateT.run_bind]
  cases hxrun : x.run notes with
  | error _ =>
    cases hyrun : y.run notes' with
    | error _ =>
      rw [hxrun, hyrun] at hrun
      cases hrun
      rfl
    | ok _ =>
      rw [hxrun, hyrun] at hrun
      cases hrun
  | ok r =>
    cases hyrun : y.run notes' with
    | error _ =>
      rw [hxrun, hyrun] at hrun
      cases hrun
    | ok s =>
      rw [hxrun, hyrun] at hrun
      exact hf r.1 s.1 (Except.ok.inj hrun) r.2 s.2

/-- What is forgotten of the result may not matter to what is made of it. -/
theorem map {f : α → β} (hx : SameUpTo e x y) (hf : ∀ a b, e a = e b → d (f a) = d (f b)) :
    SameUpTo d (f <$> x) (f <$> y) := by
  rw [map_eq_pure_bind, map_eq_pure_bind]
  exact hx.bind fun a b h => .pure (hf a b h)

end SameUpTo

/-- The range at the second place is lowered in the course of a lowering of the range at the fourth;
the lists before them are the structs that they stand inside. -/
inductive CalledFrom (l : Lowering) : List String × String → List String × String → Prop where
  /-- A list takes its element type, if that is built in or a type of the graph. -/
  | element {building : List String} {range : String} {node : TypeNode}
      (hbuiltin : l.policy.builtinTypes.get? range = none)
      (hnode : l.graph.get? range = some node) (hlist : node.classification.isItemList = true)
      (hitem : (l.policy.isBuiltin (node.classification.itemType.getD l.policy.rootType) ||
        l.graph.contains (node.classification.itemType.getD l.policy.rootType)) = true) :
      CalledFrom l (building, node.classification.itemType.getD l.policy.rootType)
        (building, range)
  /-- A struct that does not stand inside itself takes the ranges that are chosen for its
  properties. -/
  | member {building : List String} {range : String} {node : TypeNode} {decl : PropertyDecl}
      {choice : Choice} {array : Bool} (hbuiltin : l.policy.builtinTypes.get? range = none)
      (hnode : l.graph.get? range = some node)
      (hlist : node.classification.isItemList = false) (henum : node.classification.isEnum = false)
      (hstruct : node.classification.representAsStruct = true) (hnew : range ∉ building)
      (hdecl : decl ∈ l.graph.structProperties l.policy range)
      (hchoice : (Choice.choose l.graph l.policy decl.name decl).1 = some choice)
      (hshape : choice.shape = .lower array) :
      CalledFrom l (building ++ [range], choice.range) (building, range)

namespace Congruence

variable {R : ∀ {α : Type}, Step α → Step α → Prop} (hR : Congruence R) {l : Lowering}
  {hasGeo : Bool}

include hR

/-- A property takes the lowering of the range that is chosen for it. -/
theorem property {lower lower' : String → Step ValueType} {name : String} {decl : PropertyDecl}
    (h : ∀ choice array, (Choice.choose l.graph l.policy name decl).1 = some choice →
      choice.shape = .lower array → R (lower choice.range) (lower' choice.range)) :
    R (l.property lower name decl) (l.property lower' name decl) := by
  unfold Lowering.property
  generalize Choice.choose l.graph l.policy name decl = chosen at h
  obtain ⟨choice?, notes⟩ := chosen
  refine hR.bind (hR.report notes) fun _ => ?_
  cases choice? with
  | none => exact hR.pure none
  | some choice =>
    cases hshape : choice.shape with
    | fixed type =>
      simp only [hshape]
      exact hR.bind (hR.pure type) fun _ => hR.pure _
    | lower array =>
      simp only [hshape]
      exact hR.bind (hR.map _ (h choice array rfl hshape)) fun _ => hR.pure _

/-- Members take the lowering of the ranges that are chosen for them. -/
theorem members {lower lower' : String → Step ValueType} {decls : List PropertyDecl}
    (h : ∀ decl ∈ decls, ∀ choice array,
      (Choice.choose l.graph l.policy decl.name decl).1 = some choice →
        choice.shape = .lower array → R (lower choice.range) (lower' choice.range)) :
    R (l.members hasGeo lower decls) (l.members hasGeo lower' decls) := by
  induction decls with
  | nil => exact hR.pure []
  | cons decl rest ih =>
    unfold Lowering.members
    refine hR.bind (hR.property (h decl List.mem_cons_self)) fun field? => ?_
    refine hR.bind (ih fun d hd => h d (List.mem_cons_of_mem _ hd)) fun fields => ?_
    cases field? with
    | none => exact hR.pure fields
    | some f => exact hR.pure _

/-- A compound takes the lowering of the ranges that are chosen for the properties of its struct. -/
theorem compound {lower lower' : String → Step ValueType} {name : String}
    (h : ∀ decl ∈ l.graph.structProperties l.policy name, ∀ choice array,
      (Choice.choose l.graph l.policy decl.name decl).1 = some choice →
        choice.shape = .lower array → R (lower choice.range) (lower' choice.range)) :
    R (l.compound hasGeo lower name) (l.compound hasGeo lower' name) := by
  unfold Lowering.compound
  refine hR.bind (hR.members h) fun fields => ?_
  cases fields with
  | nil => exact hR.stop fun _ he => nomatch he
  | cons f rest => exact hR.pure _

/-- A step of the lowering takes the lowering of the ranges that it calls for, and nothing else. -/
theorem lowerStep {lower lower' : List String → String → Step ValueType}
    {building : List String} {range : String}
    (h : ∀ q, l.CalledFrom q (building, range) → R (lower q.1 q.2) (lower' q.1 q.2)) :
    R (l.lowerStep hasGeo lower building range) (l.lowerStep hasGeo lower' building range) := by
  unfold Lowering.lowerStep
  cases hbuiltin : l.policy.builtinTypes.get? range with
  | some type => exact hR.pure type
  | none =>
    cases hnode : l.graph.get? range with
    | none => exact hR.stop fun _ he => nomatch he
    | some node =>
      dsimp only
      by_cases hlist : node.classification.isItemList = true
      · rw [if_pos hlist, if_pos hlist]
        split
        next hitem =>
          exact hR.bind (h _ (.element hbuiltin hnode hlist hitem)) fun _ => hR.pure _
        next => exact hR.bind (hR.report _) fun _ => hR.pure _
      · rw [if_neg hlist, if_neg hlist]
        rw [Bool.not_eq_true] at hlist
        split
        next => exact hR.pure _
        next henum =>
          split
          next hstruct =>
            split
            next => exact hR.bind (hR.report _) fun _ => hR.pure _
            next hnew =>
              refine hR.compound fun decl hdecl choice array hchoice hshape => ?_
              exact h _ (.member hbuiltin hnode hlist (Bool.eq_false_iff.2 henum) hstruct hnew
                hdecl hchoice hshape)
          next => exact hR.pure _

end Congruence

end VocabularyCompiler.Lowering

import Mathlib.Logic.Relation
import VocabularyCompiler.Proofs.Lowering.Choice
import VocabularyCompiler.Proofs.Lowering.Depth
import VocabularyCompiler.TypeGraph.Analyze

/-!
# When a class cannot be made

A struct none of whose properties becomes a member cannot be written in place. The lowering of a
class fails if and only if the lowering of some argument comes down to such a struct, through the
elements of lists and the members of other structs. If the text type is built in, nothing else makes
it fail but a list without an end, for which no number of steps would do (`lowerArgument_alike`): a
range that is chosen is known, and so is an element type that is lowered.
-/

namespace VocabularyCompiler.Lowering

open Relation (ReflTransGen)

variable {l : Lowering}

/-- A struct without members: a type of the graph that is marked as a struct and is neither built in
nor a list nor an enumeration, all of whose properties, inherited ones included, are left out by the
policy or have no recognized range. -/
structure Memberless (l : Lowering) (name : String) : Prop where
  builtin : l.policy.isBuiltin name = false
  struct : ∃ node, l.graph.get? name = some node ∧ node.classification.representAsStruct = true ∧
    node.classification.isItemList = false ∧ node.classification.isEnum = false
  properties : ∀ decl ∈ l.graph.structProperties l.policy name,
    l.policy.excludedProperties.contains decl.name = true ∨
      ∀ range ∈ decl.ranges, ¬Recognized l.graph l.policy range

/-- The lowering of the range of an argument comes down to the type `name`. -/
def ComesDownTo (l : Lowering) (range name : String) : Prop :=
  ∃ building, ReflTransGen l.CalledFrom (building, name) ([], range)

/-- The lowering of the range of some argument of the class comes down to the type `name`. -/
def ClassComesDownTo (l : Lowering) (name : String) : Prop :=
  ∃ node ∈ l.emittedTypes, ∃ e ∈ l.argumentsOf node, ∃ array,
    e.2.shape = .lower array ∧ l.ComesDownTo e.2.range name

/-- A name is built in or not. -/
theorem get?_builtinTypes_eq_none_iff {name : String} :
    l.policy.builtinTypes.get? name = none ↔ l.policy.isBuiltin name = false := by
  unfold Policy.isBuiltin
  rw [OrderedMap.contains_eq_isSome_get?, Option.isSome_eq_false_iff, Option.isNone_iff_eq_none]

/-- No property becomes a member if and only if each is left out or has no recognized range. -/
theorem chosen_eq_nil_iff {decls : List PropertyDecl} : l.chosen decls = [] ↔
    ∀ decl ∈ decls, l.policy.excludedProperties.contains decl.name = true ∨
      ∀ range ∈ decl.ranges, ¬Recognized l.graph l.policy range := by
  unfold chosen
  simp only [List.filterMap_eq_nil_iff, Option.map_eq_none_iff, Choice.fst_choose_eq_none_iff]

/-- The structs without members are those that are written in place and have none chosen. -/
theorem memberless_iff {name : String} : l.Memberless name ↔
    (∃ node, l.InPlace name node) ∧ l.chosen (l.graph.structProperties l.policy name) = [] := by
  rw [chosen_eq_nil_iff]
  constructor
  · rintro ⟨hbuiltin, ⟨node, hnode, hstruct, hlist, henum⟩, hproperties⟩
    exact ⟨⟨node, ⟨get?_builtinTypes_eq_none_iff.2 hbuiltin, hnode⟩, hlist, henum, hstruct⟩,
      hproperties⟩
  · rintro ⟨⟨node, hplace⟩, hproperties⟩
    exact ⟨get?_builtinTypes_eq_none_iff.1 hplace.builtin,
      ⟨node, hplace.found, hplace.struct, hplace.list, hplace.enum⟩, hproperties⟩

/-- A chosen range is known, if the text type is built in. -/
theorem known_of_choose (htext : l.policy.isBuiltin l.policy.textType = true) {name : String}
    {decl : PropertyDecl} {choice : Choice}
    (h : (Choice.choose l.graph l.policy name decl).1 = some choice) : l.Known choice.range := by
  unfold Known
  rw [Bool.or_eq_true]
  rcases Choice.recognized_of_choose h with hrange | hknown
  · exact Or.inl (hrange ▸ htext)
  · exact hknown

/-- The type of a range is one. -/
theorem IsType.unique {range : String} {node node' : TypeNode} (h : l.IsType range node)
    (h' : l.graph.get? range = some node') : node = node' :=
  Option.some_inj.1 (h.found.symm.trans h')

/-- A list calls for its known elements. -/
theorem CalledFrom.of_list {q : List String × String} {building : List String} {range : String}
    {node : TypeNode} (hq : l.CalledFrom q (building, range)) (h : l.IsType range node)
    (hlist : node.classification.isItemList = true) :
    l.Known (l.elementOf node) ∧ q = (building, l.elementOf node) := by
  cases hq with
  | element _ hnode _ hitem =>
    obtain rfl := h.unique hnode
    exact ⟨hitem, rfl⟩
  | member _ hnode hlist' _ _ _ _ _ _ =>
    obtain rfl := h.unique hnode
    simp [hlist] at hlist'

/-- What is no list calls for the ranges that are chosen for its properties, if it is written in
place and does not stand inside itself. -/
theorem CalledFrom.of_not_list {q : List String × String} {building : List String}
    {range : String} {node : TypeNode} (hq : l.CalledFrom q (building, range))
    (h : l.IsType range node) (hlist : node.classification.isItemList = false) :
    l.InPlace range node ∧ range ∉ building ∧
      ∃ e ∈ l.chosen (l.graph.structProperties l.policy range), ∃ array,
        e.2.shape = .lower array ∧ q = (building ++ [range], e.2.range) := by
  cases hq with
  | element _ hnode hlist' _ =>
    obtain rfl := h.unique hnode
    simp [hlist] at hlist'
  | @member _ _ node' decl choice array _ hnode _ henum hstruct hnew hdecl hchoice hshape =>
    obtain rfl := h.unique hnode
    exact ⟨⟨h, hlist, henum, hstruct⟩, hnew, (decl.name, choice),
      mem_chosen_iff.2 ⟨decl, hdecl, rfl, hchoice⟩, array, hshape, rfl⟩

/-- Whatever a lowering calls for is known, if the text type is built in. -/
theorem CalledFrom.known (htext : l.policy.isBuiltin l.policy.textType = true)
    {q r : List String × String} (h : l.CalledFrom q r) : l.Known q.2 := by
  cases h with
  | element _ _ _ hitem => exact hitem
  | member _ _ _ _ _ _ _ hchoice _ => exact known_of_choose htext hchoice

/-- The structs that a range comes to stand inside have members, for it was called for by way of
one. -/
theorem chosen_ne_nil_of_mem {q r : List String × String} (h : ReflTransGen l.CalledFrom q r)
    {name : String} (hq : name ∈ q.1) :
    name ∈ r.1 ∨ l.chosen (l.graph.structProperties l.policy name) ≠ [] := by
  induction h with
  | refl => exact Or.inl hq
  | @tail s t _ hst ih =>
    rcases ih with hs | hs
    · cases hst with
      | element => exact Or.inl hs
      | @member building range node decl choice array _ _ _ _ _ _ hdecl hchoice _ =>
        rcases List.mem_append.1 hs with hs | hs
        · exact Or.inl hs
        · obtain rfl := List.mem_singleton.1 hs
          refine Or.inr (List.ne_nil_of_mem (a := (decl.name, choice)) ?_)
          exact mem_chosen_iff.2 ⟨decl, hdecl, rfl, hchoice⟩
    · exact Or.inr hs

/-- A lowering that comes down to a struct without members never enters that struct before. -/
theorem ComesDownTo.not_mem {range name : String} {building : List String}
    (h : ReflTransGen l.CalledFrom (building, name) ([], range)) (hname : l.Memberless name) :
    name ∉ building := fun hmem =>
  (chosen_ne_nil_of_mem h hmem).elim List.not_mem_nil fun hne => hne (memberless_iff.1 hname).2

/-- A lowering that is a struct without members. -/
def Stuck (l : Lowering) (q : List String × String) : Prop := l.Memberless q.2 ∧ q.2 ∉ q.1

/-- None of the lowerings that one comes down to is stuck if it is not stuck itself and the same
holds of those that it calls for. -/
theorem not_stuck_of_calls {r : List String × String} (hr : ¬l.Stuck r)
    (h : ∀ q, l.CalledFrom q r → ∀ s, ReflTransGen l.CalledFrom s q → ¬l.Stuck s)
    (s : List String × String) (hs : ReflTransGen l.CalledFrom s r) : ¬l.Stuck s := by
  rcases ReflTransGen.cases_tail hs with rfl | ⟨q, hsq, hqr⟩
  · exact hr
  · exact h q hqr s hsq

/-- A stuck type is written in place. -/
theorem Stuck.inPlace {building : List String} {range : String} {node : TypeNode}
    (hstuck : l.Stuck (building, range)) (h : l.IsType range node) : l.InPlace range node := by
  obtain ⟨node', hplace⟩ := (memberless_iff.1 hstuck.1).1
  obtain rfl := h.unique hplace.found
  exact hplace

/-- What is neither a list nor written in place comes down to nothing but itself, and so does a
struct inside itself. -/
theorem not_stuck_of_leaf {building : List String} {range : String} {node : TypeNode}
    (h : l.IsType range node) (hlist : node.classification.isItemList = false)
    (hleaf : l.InPlace range node → range ∈ building) (s : List String × String)
    (hs : ReflTransGen l.CalledFrom s (building, range)) : ¬l.Stuck s := by
  refine not_stuck_of_calls (fun hstuck => hstuck.2 (hleaf (hstuck.inPlace h)))
    (fun q hq => ?_) s hs
  obtain ⟨hplace, hnew, -⟩ := hq.of_not_list h hlist
  exact absurd (hleaf hplace) hnew

/-- A lowering returns only if nothing that it comes down to is stuck, and it stops only at a list
without an end, or where something that it comes down to is stuck. -/
theorem stuck_invariant (htext : l.policy.isBuiltin l.policy.textType = true) (hasGeo : Bool) :
    l.Invariant hasGeo
      (fun building range _ => ∀ s, ReflTransGen l.CalledFrom s (building, range) → ¬l.Stuck s)
      (fun building range e => l.Known range → (∃ name, e = .endlessList name) ∨
        ∃ s, ReflTransGen l.CalledFrom s (building, range) ∧ l.Stuck s ∧ e = .emptyStruct s.2) where
  builtin {building range type} h := by
    have hnot : l.policy.builtinTypes.get? range ≠ none := by simp [h]
    refine not_stuck_of_calls (fun hstuck => ?_) fun q hq => ?_
    · obtain ⟨node, hplace⟩ := (memberless_iff.1 hstuck.1).1
      exact hnot hplace.builtin
    · cases hq with
      | element hbuiltin => exact absurd hbuiltin hnot
      | member hbuiltin => exact absurd hbuiltin hnot
  element {building range node type} h hlist hknown htype := by
    refine not_stuck_of_calls (fun hstuck => ?_) fun q hq => ?_
    · simpa [hlist] using (hstuck.inPlace h).list
    · obtain rfl := (hq.of_list h hlist).2
      exact htype
  undeclared {building range node} h hlist hknown := by
    refine not_stuck_of_calls (fun hstuck => ?_) fun q hq => ?_
    · simpa [hlist] using (hstuck.inPlace h).list
    · exact absurd (hq.of_list h hlist).1 hknown
  enum {building range node} h hlist henum :=
    not_stuck_of_leaf h hlist fun hplace => by simpa [henum] using hplace.enum
  again {building range node} h hmem := not_stuck_of_leaf h.toIsType h.list fun _ => hmem
  compound {building range node fields} h hnew hne hfields := by
    refine not_stuck_of_calls (fun hstuck => ?_) fun q hq => ?_
    · rw [(memberless_iff.1 hstuck.1).2, List.forall₂_nil_left_iff] at hfields
      exact hne hfields
    · obtain ⟨-, -, e, he, array, hshape, rfl⟩ := hq.of_not_list h.toIsType h.list
      obtain ⟨f, -, type, htype, -⟩ := exists_of_forall₂ hfields he
      obtain ⟨name, range', shape⟩ := e
      cases hshape
      cases htype with
      | lower htype => exact htype
  entity {building range node} h hlist henum hstruct :=
    not_stuck_of_leaf h hlist fun hplace => by simpa [hstruct] using hplace.struct
  empty {building range node} h hnew hempty := by
    intro _
    exact Or.inr ⟨(building, range), .refl, ⟨memberless_iff.2 ⟨⟨node, h⟩, hempty⟩, hnew⟩, rfl⟩
  unknown {building range} hbuiltin hnode := by
    intro hknown
    rcases Bool.or_eq_true_iff.1 hknown with hbuilt | hcontains
    · simp [get?_builtinTypes_eq_none_iff.1 hbuiltin] at hbuilt
    · obtain ⟨node, hsome⟩ := TypeGraph.contains_iff.1 hcontains
      simp [hnode] at hsome
  endless {building range} := fun _ => Or.inl ⟨range, rfl⟩
  call {q r e} h he := by
    intro _
    rcases he (h.known htext) with hendless | ⟨s, hs, hstuck, rfl⟩
    · exact Or.inl hendless
    · exact Or.inr ⟨s, hs.tail h, hstuck, rfl⟩

/-- The lowering of an argument returns only if it comes down to no struct without members, and it
stops only at a list without an end, or if it comes down to a struct without members. -/
theorem lowerArgument_meets (htext : l.policy.isBuiltin l.policy.textType = true) {hasGeo : Bool}
    {range : String} (hknown : l.Known range) :
    Meets (l.lowerArgument hasGeo range)
      (fun _ => ∀ name, l.ComesDownTo range name → ¬l.Memberless name)
      (fun e => (∃ name, e = .endlessList name) ∨
        ∃ name, l.ComesDownTo range name ∧ l.Memberless name ∧ e = .emptyStruct name) := by
  refine ((stuck_invariant htext hasGeo).lowerRange_meets l.depth [] range).imp ?_
    |>.imp_error ?_
  · rintro _ hstuck name ⟨building, hname⟩ hmemberless
    exact hstuck _ hname ⟨hmemberless, ComesDownTo.not_mem hname hmemberless⟩
  · intro e he
    rcases he hknown with hendless | ⟨⟨building, name⟩, hname, hstuck, rfl⟩
    · exact Or.inl hendless
    · exact Or.inr ⟨name, ⟨building, hname⟩, hstuck.1, rfl⟩

/-- A class is made only if none of its arguments comes down to a struct without members, and it is
not made only for a list without an end, or if one of its arguments does. -/
theorem classDefinition_meets_stuck (htext : l.policy.isBuiltin l.policy.textType = true) :
    Meets l.classDefinition (fun _ => ∀ name, l.ClassComesDownTo name → ¬l.Memberless name)
      (fun e => (∃ name, e = .endlessList name) ∨
        ∃ name, l.ClassComesDownTo name ∧ l.Memberless name ∧ e = .emptyStruct name) := by
  have hquery : ∀ node ∈ l.emittedTypes, Meets (l.query node)
      (l.IsQuery (fun range _ => ∀ name, l.ComesDownTo range name → ¬l.Memberless name) node)
      (fun e => (∃ name, e = .endlessList name) ∨
        ∃ name, l.ClassComesDownTo name ∧ l.Memberless name ∧ e = .emptyStruct name) := by
    intro node hnode
    refine query_meets fun e he hasGeo array hshape => ?_
    obtain ⟨decl, -, hchoice⟩ := exists_choose_of_mem_surviving he
    refine (lowerArgument_meets htext (known_of_choose htext hchoice)).imp_error ?_
    rintro err (hendless | ⟨name, hname, hmemberless, rfl⟩)
    · exact Or.inl hendless
    · exact Or.inr ⟨name, ⟨node, hnode, e, he, array, hshape, hname⟩, hmemberless, rfl⟩
  refine (classDefinition_meets hquery).imp ?_
  rintro c ⟨qs, hqs, -⟩ name ⟨node, hnode, e, he, array, hshape, hname⟩
  obtain ⟨q, -, hq⟩ := exists_of_forall₂ hqs hnode
  obtain ⟨arguments, -, harguments⟩ := hq.fields
  obtain ⟨f, -, type, htype, -⟩ := exists_of_forall₂ harguments he
  obtain ⟨argument, range, shape⟩ := e
  cases hshape
  cases htype with
  | lower htype => exact htype name hname

/-- When the lowering of a class ends and the text type is built in, it is never for the lack of a
declaration that it fails. It fails for a struct only if that has no members, it does fail if the
lowering of some argument comes down to a struct without members, and otherwise there is a class. -/
theorem classDefinition_fails_exactly (l : Lowering)
    (htext : l.policy.isBuiltin l.policy.textType = true) (notes : Diagnostics)
    (hends : ∀ name, l.classDefinition.run notes ≠ .error (.endlessList name)) :
    (∀ name, l.classDefinition.run notes ≠ .error (.unknownType name)) ∧
      (∀ name, l.classDefinition.run notes = .error (.emptyStruct name) →
        l.Memberless name ∧ l.ClassComesDownTo name) ∧
      ((∃ name, l.Memberless name ∧ l.ClassComesDownTo name) →
        ∃ name, l.classDefinition.run notes = .error (.emptyStruct name)) ∧
      ((¬∃ name, l.Memberless name ∧ l.ClassComesDownTo name) →
        ∃ c notes', l.classDefinition.run notes = .ok (c, notes')) := by
  have hmeets := classDefinition_meets_stuck htext
  cases hrun : l.classDefinition.run notes with
  | ok r =>
    have hnone := hmeets.ok hrun
    refine ⟨fun _ h => (nomatch h), fun _ h => (nomatch h), ?_, fun _ => ⟨r.1, r.2, rfl⟩⟩
    rintro ⟨name, hmemberless, hname⟩
    exact absurd hmemberless (hnone name hname)
  | error e =>
    rcases hmeets.error hrun with ⟨name, rfl⟩ | ⟨name, hname, hmemberless, rfl⟩
    · exact absurd hrun (hends name)
    · refine ⟨fun _ h => (nomatch h), fun name' h => ?_, fun _ => ⟨name, rfl⟩, fun hnone => ?_⟩
      · cases h
        exact ⟨hmemberless, hname⟩
      · exact absurd ⟨name, hmemberless, hname⟩ hnone

/-- The lowering of a vocabulary in which a person has an address, an address has a list of contact
points, and a contact point has no properties. -/
def emptyContactPoint : Lowering :=
  ⟨(TypeGraph.analyze .standard
    [.classFact "Thing" [] "" false,
      .classFact "StructuredValue" ["Thing"] "" false,
      .classFact "ContactPoint" ["StructuredValue"] "" false,
      .classFact "ItemList" ["Thing"] "" false,
      .classFact "ContactPointList" ["ItemList"] "" false,
      .classFact "PostalAddress" ["StructuredValue"] "" false,
      .propertyFact "contacts" ["PostalAddress"] ["ContactPointList"] "" false,
      .classFact "Person" ["Thing"] "" false,
      .propertyFact "address" ["Person"] ["PostalAddress"] "" false]).1, .standard, {}⟩

/-- The class with an empty contact point in a list inside an address fails for the contact
point. -/
theorem classDefinition_fails_emptyContactPoint :
    emptyContactPoint.policy.isBuiltin emptyContactPoint.policy.textType = true ∧
      (∀ name, emptyContactPoint.classDefinition.run [] ≠ .error (.endlessList name)) ∧
      emptyContactPoint.classDefinition.run [] = .error (.emptyStruct "ContactPoint") ∧
      emptyContactPoint.Memberless "ContactPoint" ∧
      emptyContactPoint.ClassComesDownTo "ContactPoint" := by
  have htext : emptyContactPoint.policy.isBuiltin emptyContactPoint.policy.textType = true := by
    decide
  have herror : error? emptyContactPoint.classDefinition =
      some (.emptyStruct "ContactPoint") := by decide +kernel
  have hrun : emptyContactPoint.classDefinition.run [] = .error (.emptyStruct "ContactPoint") :=
    run_of_error? herror
  have hends : ∀ name, emptyContactPoint.classDefinition.run [] ≠ .error (.endlessList name) :=
    fun name h => nomatch hrun.symm.trans h
  have hfails := classDefinition_fails_exactly emptyContactPoint htext [] hends
  exact ⟨htext, hends, hrun, hfails.2.1 _ hrun⟩

end VocabularyCompiler.Lowering

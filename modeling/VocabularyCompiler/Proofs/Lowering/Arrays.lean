import VocabularyCompiler.Proofs.Lowering.Failure
import VocabularyCompiler.Proofs.Lowering.Nesting

/-!
# Arrays of single values

Lists of Booleans or of literals are not meaningful, so `wrap` leaves Booleans and enumerations as
they are. That is one of the two ways to an array. The other is a list type, which becomes the array
of whatever its element type becomes, and does so without a look at it. So the arrays of single
values inside the arguments of a class are those of the list types whose elements are lowered to a
Boolean or to an enumeration, and there are no others (`holdsSingles_iff`).
-/

namespace VocabularyCompiler

namespace ValueType

/-- Whether a type is a Boolean or an enumeration, of which there should be no arrays. -/
def staysSingle : ValueType → Bool
  | .boolean | .enum _ => true
  | _ => false

/-- Whether a type is an array of single values. -/
def isArrayOfSingles : ValueType → Bool
  | .array t => t.staysSingle
  | _ => false

/-- There is an array of single values inside a type. -/
def HoldsSingles (t : ValueType) : Prop :=
  ∃ outer u, Inside outer t u ∧ u.isArrayOfSingles = true

/-- Single values are no array. -/
theorem isArray_of_staysSingle {t : ValueType} (h : t.staysSingle = true) : t.isArray = false := by
  cases t with
  | array => cases h
  | _ => rfl

/-- What is to be an array becomes one, except for single values. -/
theorem wrap_eq (array : Bool) (t : ValueType) :
    t.wrap array = if array && !t.staysSingle then .array t else t := by
  cases t <;> cases array <;> rfl

/-- What is inside the array of a type is inside the type, but for the array itself. -/
@[simp] theorem holdsSingles_array {t : ValueType} :
    (ValueType.array t).HoldsSingles ↔ t.staysSingle = true ∨ t.HoldsSingles := by
  constructor
  · rintro ⟨outer, u, hinside, hu⟩
    cases hinside with
    | refl => exact Or.inl hu
    | array hinside => exact Or.inr ⟨outer, u, hinside, hu⟩
  · rintro (ht | ⟨outer, u, hinside, hu⟩)
    · exact ⟨[], .array t, .refl, ht⟩
    · exact ⟨outer, u, hinside.array, hu⟩

/-- What is inside a compound is inside a member of it. -/
@[simp] theorem holdsSingles_compound {name : String} {fields : List Field} :
    (ValueType.compound name fields).HoldsSingles ↔ ∃ f ∈ fields, f.type.HoldsSingles := by
  constructor
  · rintro ⟨outer, u, hinside, hu⟩
    cases hinside with
    | refl => cases hu
    | member hf hinside => exact ⟨_, hf, _, u, hinside, hu⟩
  · rintro ⟨f, hf, outer, u, hinside, hu⟩
    exact ⟨name :: outer, u, .member hf hinside, hu⟩

/-- There is no array inside what is neither an array nor a compound. -/
theorem not_holdsSingles {t : ValueType} (harray : t.isArray = false) (hflat : t.members? = none) :
    ¬t.HoldsSingles := by
  rintro ⟨outer, u, hinside, hu⟩
  cases hinside with
  | refl =>
    cases t with
    | array => cases harray
    | _ => cases hu
  | array => cases harray
  | member => cases hflat

/-- The array that a property is made to hold is none of single values. -/
@[simp] theorem holdsSingles_wrap {array : Bool} {t : ValueType} :
    (t.wrap array).HoldsSingles ↔ t.HoldsSingles := by
  rw [wrap_eq]
  split
  next hwrap =>
    rw [Bool.and_eq_true, Bool.not_eq_true'] at hwrap
    simp [hwrap.2]
  next => exact Iff.rfl

/-- To name datasets leaves single values single and others not. -/
@[simp] theorem staysSingle_attachDatasets (p : Policy) (key : String) (t : ValueType) :
    (t.attachDatasets p key).staysSingle = t.staysSingle := by
  cases t <;> rfl

mutual

/-- To name datasets changes no array. -/
theorem holdsSingles_attachDatasets (p : Policy) (key : String) : ∀ t : ValueType,
    (t.attachDatasets p key).HoldsSingles ↔ t.HoldsSingles
  | .array t => by
    rw [attachDatasets, holdsSingles_array, holdsSingles_array, staysSingle_attachDatasets,
      t.holdsSingles_attachDatasets p key]
  | .compound name fields => by
    rw [attachDatasets, holdsSingles_compound, holdsSingles_compound,
      exists_holdsSingles_attachDatasets p key fields]
  | .any | .boolean | .number | .string | .date | .time | .location | .currency | .measure _
  | .entity _ | .enum _ => Iff.rfl

/-- To name the datasets of members changes no array inside them. -/
theorem exists_holdsSingles_attachDatasets (p : Policy) (stem : String) : ∀ fields : List Field,
    (∃ f ∈ VocabularyCompiler.attachDatasets p stem fields, f.type.HoldsSingles) ↔
      ∃ f ∈ fields, f.type.HoldsSingles
  | [] => Iff.rfl
  | ⟨name, type, canonical, annotations⟩ :: rest => by
    rw [VocabularyCompiler.attachDatasets, List.exists_mem_cons_iff, List.exists_mem_cons_iff,
      exists_holdsSingles_attachDatasets p stem rest]
    refine or_congr_left ?_
    split
    · exact Iff.rfl
    · exact type.holdsSingles_attachDatasets p _

end

end ValueType

namespace Lowering

open Relation (ReflTransGen)

variable {l : Lowering}

/-- A range is lowered to a Boolean or to an enumeration: it is built in as one, or is the type of
an enumeration and no list. -/
def LowersToSingle (l : Lowering) (range : String) : Prop :=
  (∃ type, l.policy.builtinTypes.get? range = some type ∧ type.staysSingle = true) ∨
    ∃ node, l.IsType range node ∧ node.classification.isItemList = false ∧
      node.classification.isEnum = true

/-- What is built in is lowered to a single value if it is built in as one. -/
theorem lowersToSingle_of_builtin {range : String} {type : ValueType}
    (h : l.policy.builtinTypes.get? range = some type) :
    l.LowersToSingle range ↔ type.staysSingle = true := by
  constructor
  · rintro (⟨type', htype, hsingle⟩ | ⟨node, hnode, -⟩)
    · cases h.symm.trans htype
      exact hsingle
    · cases h.symm.trans hnode.builtin
  · exact fun hsingle => Or.inl ⟨type, h, hsingle⟩

/-- What is not built in is lowered to a single value if it is an enumeration and no list. -/
theorem IsType.lowersToSingle_iff {range : String} {node : TypeNode} (h : l.IsType range node) :
    l.LowersToSingle range ↔
      node.classification.isItemList = false ∧ node.classification.isEnum = true := by
  constructor
  · rintro (⟨type, htype, -⟩ | ⟨node', hnode, hlist, henum⟩)
    · cases h.builtin.symm.trans htype
    · obtain rfl := h.unique hnode.found
      exact ⟨hlist, henum⟩
  · exact fun hsingle => Or.inr ⟨node, h, hsingle⟩

/-- What is lowered to a single value is known. -/
theorem LowersToSingle.known {range : String} (h : l.LowersToSingle range) : l.Known range := by
  refine Bool.or_eq_true_iff.2 ?_
  rcases h with ⟨type, htype, -⟩ | ⟨node, hnode, -⟩
  · left
    rw [Policy.isBuiltin, OrderedMap.contains_eq_isSome_get?, htype, Option.isSome_some]
  · exact Or.inr (TypeGraph.contains_iff.2 ⟨node, hnode.found⟩)

/-- How a range is lowered, seen from outside: to a single value if it is that of one, and to an
array if it is a list. -/
structure Shaped (l : Lowering) (range : String) (t : ValueType) : Prop where
  single : t.staysSingle = true ↔ l.LowersToSingle range
  list : ∀ node, l.IsType range node → node.classification.isItemList = true → t.isArray = true

namespace Shaped

variable {range : String} {node : TypeNode} {t : ValueType}

/-- What is built in has the shape that it is built in with. -/
theorem builtin (h : l.policy.builtinTypes.get? range = some t) : l.Shaped range t where
  single := (lowersToSingle_of_builtin h).symm
  list _ hnode := nomatch h.symm.trans hnode.builtin

/-- A list becomes an array. -/
theorem array (h : l.IsType range node) (hlist : node.classification.isItemList = true) :
    l.Shaped range (.array t) where
  single := by simp [h.lowersToSingle_iff, hlist, ValueType.staysSingle]
  list _ _ _ := rfl

/-- What is no list becomes a single value if it is an enumeration. -/
theorem of_not_list (h : l.IsType range node) (hlist : node.classification.isItemList = false)
    (ht : t.staysSingle = node.classification.isEnum) : l.Shaped range t where
  single := by rw [h.lowersToSingle_iff, ht, and_iff_right hlist]
  list node' hnode' hlist' := by
    rw [← h.unique hnode'.found, hlist] at hlist'
    cases hlist'

end Shaped

/-- Every range is lowered to a type of its shape. -/
theorem shaped_invariant (l : Lowering) (hasGeo : Bool) :
    l.Invariant hasGeo (fun _ range t => l.Shaped range t) fun _ _ _ => True where
  builtin h := .builtin h
  element h hlist _ _ := .array h hlist
  undeclared h hlist _ := .array h hlist
  enum h hlist henum := .of_not_list h hlist henum.symm
  again h _ := .of_not_list h.toIsType h.list h.enum.symm
  compound h _ _ _ := .of_not_list h.toIsType h.list h.enum.symm
  entity h hlist henum _ := .of_not_list h hlist henum.symm
  empty _ _ _ := trivial
  unknown _ _ := trivial
  endless := trivial
  call _ _ := trivial

/-- A list type whose elements are lowered to Booleans or to an enumeration. -/
def ListsSingles (l : Lowering) (range : String) : Prop :=
  ∃ node, l.IsType range node ∧ node.classification.isItemList = true ∧
    l.LowersToSingle (l.elementOf node)

/-- The lowering of a range inside structs comes down to a list of single values. -/
def ListsSinglesBelow (l : Lowering) (r : List String × String) : Prop :=
  ∃ s, ReflTransGen l.CalledFrom s r ∧ l.ListsSingles s.2

/-- A lowering comes down to a list of single values at once or by way of what it calls for. -/
theorem listsSinglesBelow_iff {r : List String × String} :
    l.ListsSinglesBelow r ↔
      l.ListsSingles r.2 ∨ ∃ q, l.CalledFrom q r ∧ l.ListsSinglesBelow q := by
  constructor
  · rintro ⟨s, hs, hsingles⟩
    rcases ReflTransGen.cases_tail hs with rfl | ⟨q, hsq, hqr⟩
    · exact Or.inl hsingles
    · exact Or.inr ⟨q, hqr, s, hsq, hsingles⟩
  · rintro (hsingles | ⟨q, hqr, s, hsq, hsingles⟩)
    · exact ⟨r, .refl, hsingles⟩
    · exact ⟨s, hsq.tail hqr, hsingles⟩

/-- An argument comes down to a list of single values if its lowering does. -/
theorem listsSinglesBelow_nil_iff {range : String} :
    l.ListsSinglesBelow ([], range) ↔ ∃ name, l.ComesDownTo range name ∧ l.ListsSingles name := by
  constructor
  · rintro ⟨⟨building, name⟩, hname, hsingles⟩
    exact ⟨name, ⟨building, hname⟩, hsingles⟩
  · rintro ⟨name, ⟨building, hname⟩, hsingles⟩
    exact ⟨(building, name), hname, hsingles⟩

/-- What is no list is no list of single values. -/
theorem not_listsSingles {range : String} {node : TypeNode} (h : l.IsType range node)
    (hlist : node.classification.isItemList = false) : ¬l.ListsSingles range := by
  rintro ⟨node', hnode', hlist', -⟩
  rw [← h.unique hnode'.found, hlist] at hlist'
  cases hlist'

/-- What is built in comes down to nothing else. -/
theorem not_listsSinglesBelow_of_builtin {building : List String} {range : String}
    {type : ValueType} (h : l.policy.builtinTypes.get? range = some type) :
    ¬l.ListsSinglesBelow (building, range) := by
  rw [listsSinglesBelow_iff]
  rintro (⟨node, hnode, -⟩ | ⟨q, hq, -⟩)
  · cases h.symm.trans hnode.builtin
  · cases hq with
    | element hbuiltin => cases h.symm.trans hbuiltin
    | member hbuiltin => cases h.symm.trans hbuiltin

/-- A list comes down to a list of single values if it is one or its elements do. -/
theorem listsSinglesBelow_list {building : List String} {range : String} {node : TypeNode}
    (h : l.IsType range node) (hlist : node.classification.isItemList = true) :
    l.ListsSinglesBelow (building, range) ↔ l.Known (l.elementOf node) ∧
      (l.LowersToSingle (l.elementOf node) ∨
        l.ListsSinglesBelow (building, l.elementOf node)) := by
  rw [listsSinglesBelow_iff]
  constructor
  · rintro (⟨node', hnode', -, hsingle⟩ | ⟨q, hq, hbelow⟩)
    · rw [← h.unique hnode'.found] at hsingle
      exact ⟨hsingle.known, Or.inl hsingle⟩
    · obtain ⟨hknown, rfl⟩ := hq.of_list h hlist
      exact ⟨hknown, Or.inr hbelow⟩
  · rintro ⟨hknown, hsingle | hbelow⟩
    · exact Or.inl ⟨node, h, hlist, hsingle⟩
    · exact Or.inr ⟨_, .element h.builtin h.found hlist hknown, hbelow⟩

/-- What is neither a list nor written in place comes down to nothing else, and so does a struct
inside itself. -/
theorem not_listsSinglesBelow_of_leaf {building : List String} {range : String} {node : TypeNode}
    (h : l.IsType range node) (hlist : node.classification.isItemList = false)
    (hleaf : l.InPlace range node → range ∈ building) :
    ¬l.ListsSinglesBelow (building, range) := by
  rw [listsSinglesBelow_iff]
  rintro (hsingles | ⟨q, hq, -⟩)
  · exact not_listsSingles h hlist hsingles
  · obtain ⟨hplace, hnew, -⟩ := hq.of_not_list h hlist
    exact hnew (hleaf hplace)

/-- A struct comes down to a list of single values if the range of one of its members does. -/
theorem listsSinglesBelow_inPlace {building : List String} {range : String} {node : TypeNode}
    (h : l.InPlace range node) (hnew : range ∉ building) :
    l.ListsSinglesBelow (building, range) ↔
      ∃ e ∈ l.chosen (l.graph.structProperties l.policy range), ∃ array,
        e.2.shape = .lower array ∧ l.ListsSinglesBelow (building ++ [range], e.2.range) := by
  rw [listsSinglesBelow_iff, or_iff_right (not_listsSingles h.toIsType h.list)]
  constructor
  · rintro ⟨q, hq, hbelow⟩
    obtain ⟨-, -, e, he, array, hshape, rfl⟩ := hq.of_not_list h.toIsType h.list
    exact ⟨e, he, array, hshape, hbelow⟩
  · rintro ⟨e, he, array, hshape, hbelow⟩
    obtain ⟨decl, hdecl, -, hchoice⟩ := mem_chosen_iff.1 he
    exact ⟨_, .member h.builtin h.found h.list h.enum h.struct hnew hdecl hchoice hshape, hbelow⟩

/-- The tables of the policy hold neither compound types nor arrays. -/
structure PlainTables (p : Policy) : Prop extends FlatTables p where
  builtinArray : ∀ e ∈ p.builtinTypes.entries, e.2.isArray = false
  overrideArray : ∀ e ∈ p.typeOverrides.entries, e.2.isArray = false

/-- A type that a property has whatever its range is holds no array. -/
theorem PlainTables.not_holdsSingles_fixed (htables : PlainTables l.policy) {name range : String}
    {decl : PropertyDecl} {type : ValueType}
    (hchoice : (Choice.choose l.graph l.policy name decl).1 = some ⟨range, .fixed type⟩) :
    ¬type.HoldsSingles := by
  refine ValueType.not_holdsSingles ?_ (htables.members?_fixed hchoice)
  rcases Choice.type_of_choose hchoice with htable | rfl
  · exact htables.overrideArray _ (OrderedMap.get?_eq_some_iff.1 htable)
  · exact Choice.isArray_quantity name

/-- A property holds an array of single values if and only if its range has to be lowered and that
does. -/
theorem holdsSingles_typed (htables : PlainTables l.policy) {building : List String}
    {name : String} {decl : PropertyDecl} {choice : Choice} {type : ValueType}
    (hchoice : (Choice.choose l.graph l.policy name decl).1 = some choice)
    (htyped : Typed (fun range t => t.HoldsSingles ↔ l.ListsSinglesBelow (building, range)) choice
      type) :
    type.HoldsSingles ↔
      ∃ array, choice.shape = .lower array ∧ l.ListsSinglesBelow (building, choice.range) := by
  cases htyped with
  | fixed =>
    refine iff_of_false (htables.not_holdsSingles_fixed hchoice) ?_
    rintro ⟨array, hshape, -⟩
    cases hshape
  | lower htype => simp [htype]

/-- Every range inside structs is lowered to a type that holds an array of single values if and only
if its lowering comes down to a list of them. -/
theorem holdsSingles_invariant (htables : PlainTables l.policy) (hasGeo : Bool) :
    l.Invariant hasGeo
      (fun building range t =>
        l.Shaped range t ∧ (t.HoldsSingles ↔ l.ListsSinglesBelow (building, range)))
      fun _ _ _ => True where
  builtin {building range type} h := by
    have hmem := OrderedMap.get?_eq_some_iff.1 h
    refine ⟨.builtin h, iff_of_false ?_ (not_listsSinglesBelow_of_builtin h)⟩
    exact ValueType.not_holdsSingles (htables.builtinArray _ hmem) (htables.builtin _ hmem)
  element {building range node type} h hlist hknown htype := by
    refine ⟨.array h hlist, ?_⟩
    -- Whether the elements are single values tells their shape.
    rw [ValueType.holdsSingles_array, listsSinglesBelow_list h hlist, and_iff_right hknown,
      htype.1.single, htype.2]
  undeclared {building range node} h hlist hknown := by
    refine ⟨.array h hlist, iff_of_false ?_ fun hbelow => ?_⟩
    · rw [ValueType.holdsSingles_array]
      exact not_or.2 ⟨Bool.false_ne_true, ValueType.not_holdsSingles rfl rfl⟩
    · exact hknown ((listsSinglesBelow_list h hlist).1 hbelow).1
  enum {building range node} h hlist henum :=
    ⟨.of_not_list h hlist henum.symm, iff_of_false (ValueType.not_holdsSingles rfl rfl)
      (not_listsSinglesBelow_of_leaf h hlist fun hplace => by simpa [henum] using hplace.enum)⟩
  again {building range node} h hmem :=
    ⟨.of_not_list h.toIsType h.list h.enum.symm,
      iff_of_false (ValueType.not_holdsSingles rfl rfl)
        (not_listsSinglesBelow_of_leaf h.toIsType h.list fun _ => hmem)⟩
  compound {building range node fields} h hnew hne hfields := by
    refine ⟨.of_not_list h.toIsType h.list h.enum.symm, ?_⟩
    rw [ValueType.holdsSingles_compound, listsSinglesBelow_inPlace h hnew]
    refine (exists_mem_iff_of_forall₂ hfields ?_).symm
    rintro e he _ ⟨type, htyped, rfl⟩
    obtain ⟨decl, -, -, hchoice⟩ := mem_chosen_iff.1 he
    exact (holdsSingles_typed htables hchoice (htyped.imp fun _ _ htype => htype.2)).symm
  entity {building range node} h hlist henum hstruct :=
    ⟨.of_not_list h hlist henum.symm, iff_of_false (ValueType.not_holdsSingles rfl rfl)
      (not_listsSinglesBelow_of_leaf h hlist fun hplace => by
        simpa [hstruct] using hplace.struct)⟩
  empty _ _ _ := trivial
  unknown _ _ := trivial
  endless := trivial
  call _ _ := trivial

/-- The arguments that every query has hold no array. -/
theorem not_holdsSingles_syntheticFields {name : String} {f : Field}
    (hf : f ∈ l.syntheticFields name) : ¬f.type.HoldsSingles := by
  refine ValueType.not_holdsSingles ?_ (members?_syntheticFields hf)
  unfold syntheticFields at hf
  obtain ⟨g, hg, rfl⟩ := List.mem_map.1 hf
  split at hg
  · obtain rfl := List.mem_singleton.1 hg
    rfl
  · rcases List.mem_pair.1 hg with rfl | rfl <;> rfl

/-- A query holds an array of single values if and only if one of its arguments comes down to a list
of them. -/
theorem query_meets_holdsSingles (htables : PlainTables l.policy) (node : TypeNode) :
    Meets (l.query node)
      (fun q => q.name = l.policy.escapeKeyword node.name ∧
        ((∃ f ∈ q.fields, f.type.HoldsSingles) ↔ ∃ e ∈ l.argumentsOf node, ∃ array,
          e.2.shape = .lower array ∧ ∃ name, l.ComesDownTo e.2.range name ∧ l.ListsSingles name))
      fun _ => True := by
  refine (query_meets (T := fun range t => t.HoldsSingles ↔ l.ListsSinglesBelow ([], range))
    fun e _ hasGeo _ _ => ((holdsSingles_invariant htables hasGeo).lowerRange_meets _ _ _).imp
      fun _ htype => htype.2).imp ?_
  intro q hq
  obtain ⟨arguments, hfields, harguments⟩ := hq.fields
  have hsynthetic : ¬∃ f ∈ l.syntheticFields node.name, f.type.HoldsSingles := by
    rintro ⟨f, hf, hsingles⟩
    exact not_holdsSingles_syntheticFields hf hsingles
  have hargument : (∃ e ∈ l.argumentsOf node, ∃ array,
      e.2.shape = .lower array ∧ l.ListsSinglesBelow ([], e.2.range)) ↔
        ∃ f ∈ arguments, f.type.HoldsSingles := by
    refine exists_mem_iff_of_forall₂ harguments ?_
    rintro e he _ ⟨type, htyped, rfl⟩
    obtain ⟨decl, -, hchoice⟩ := exists_choose_of_mem_surviving he
    rw [← holdsSingles_typed htables hchoice htyped]
    exact (ValueType.holdsSingles_attachDatasets _ _ _).symm
  refine ⟨hq.name, ?_⟩
  simp only [← listsSinglesBelow_nil_iff]
  rw [hargument, hfields]
  simp only [List.mem_append, or_and_right, exists_or, or_iff_right hsynthetic]

/-- In a class, if the tables of the policy hold neither compound types nor arrays, the query of a
type holds an array of Booleans or of an enumeration, however deep, if and only if the lowering of
one of its arguments comes down to a list type whose elements are lowered to a Boolean or to an
enumeration. -/
theorem holdsSingles_iff (l : Lowering) (htables : PlainTables l.policy)
    {notes notes' : Diagnostics} {c : ClassDefinition}
    (hrun : l.classDefinition.run notes = .ok (c, notes')) {q : Query}
    (hq : q ∈ c.queries.values) :
    ∃ node ∈ l.emittedTypes, q.name = l.policy.escapeKeyword node.name ∧
      ((∃ f ∈ q.fields, f.type.HoldsSingles) ↔ ∃ e ∈ l.argumentsOf node, ∃ array,
        e.2.shape = .lower array ∧ ∃ name, l.ComesDownTo e.2.range name ∧ l.ListsSingles name) := by
  obtain ⟨qs, hqs, hqueries⟩ :=
    (classDefinition_meets fun node _ => query_meets_holdsSingles htables node).ok hrun
  obtain ⟨e, he, rfl⟩ := List.mem_map.1 hq
  rw [hqueries] at he
  obtain ⟨q, hmem, rfl⟩ := List.mem_map.1 (OrderedMap.entries_ofList_subset he)
  exact exists_of_forall₂ hqs.flip hmem

/-- Places with their opening days, a list of the days of the week. -/
def placesWithOpenDays : Lowering :=
  ⟨(TypeGraph.analyze .standard
    [.classFact "Thing" [] "" false,
      .classFact "Enumeration" ["Thing"] "" false,
      .classFact "DayOfWeek" ["Enumeration"] "" false,
      .classFact "ItemList" ["Thing"] "" false,
      .classFact "DayOfWeekList" ["ItemList"] "" false,
      .classFact "Place" ["Thing"] "" false,
      .literalFact "Monday" "DayOfWeek" false,
      .literalFact "Tuesday" "DayOfWeek" false,
      .propertyFact "openDays" ["Place"] ["DayOfWeekList"] "" false]).1, .standard, {}⟩

/-- The tables of the default policy hold neither compound types nor arrays. -/
theorem plainTables_standard : PlainTables .standard :=
  ⟨⟨by decide, by decide⟩, by decide, by decide⟩

/-- The class of places has an argument that is an array of single values. -/
theorem exists_openDays :
    ∃ c notes q f, placesWithOpenDays.classDefinition.run [] = .ok (c, notes) ∧
      q ∈ c.queries.values ∧ f ∈ q.fields ∧ q.name = "Place" ∧ f.name = "openDays" ∧
      f.type.isArrayOfSingles = true := by
  have hfound : (result? placesWithOpenDays.classDefinition).any (fun c =>
      c.queries.values.any fun q => q.fields.any fun f =>
        decide (q.name = "Place" ∧ f.name = "openDays" ∧ f.type.isArrayOfSingles = true)) =
      true := by decide +kernel
  obtain ⟨c, notes, q, f, hrun, hq, hf, hfound⟩ := exists_field_of_any hfound
  exact ⟨c, notes, q, f, hrun, hq, hf, of_decide_eq_true hfound⟩

/-- The query of places has an argument that comes down to a list of single values. -/
theorem holdsSingles_iff_openDays :
    PlainTables placesWithOpenDays.policy ∧
    ∃ c notes q, placesWithOpenDays.classDefinition.run [] = .ok (c, notes) ∧
      q ∈ c.queries.values ∧ q.name = "Place" ∧ ∃ node ∈ placesWithOpenDays.emittedTypes,
        q.name = placesWithOpenDays.policy.escapeKeyword node.name ∧
        ∃ e ∈ placesWithOpenDays.argumentsOf node, ∃ name,
          placesWithOpenDays.ComesDownTo e.2.range name ∧ placesWithOpenDays.ListsSingles name := by
  obtain ⟨c, notes, q, f, hrun, hq, hf, hname, -, hsingles⟩ := exists_openDays
  obtain ⟨node, hnode, hescaped, hiff⟩ :=
    holdsSingles_iff placesWithOpenDays plainTables_standard hrun hq
  obtain ⟨e, he, -, -, name, hcomes, hlists⟩ := hiff.1 ⟨f, hf, [], f.type, .refl, hsingles⟩
  exact ⟨plainTables_standard, c, notes, q, hrun, hq, hname, node, hnode, hescaped, e, he, name,
    hcomes, hlists⟩

/-- The opening days of places are an array of an enumeration. -/
theorem arrayOfDays :
    PlainTables placesWithOpenDays.policy ∧
    ∃ c notes q f, placesWithOpenDays.classDefinition.run [] = .ok (c, notes) ∧
      q ∈ c.queries.values ∧ f ∈ q.fields ∧ q.name = "Place" ∧ f.name = "openDays" ∧
      ¬∀ outer u, ValueType.Inside outer f.type u → u.isArrayOfSingles = false := by
  obtain ⟨c, notes, q, f, hrun, hq, hf, hname, hargument, hsingles⟩ := exists_openDays
  refine ⟨plainTables_standard, c, notes, q, f, hrun, hq, hf, hname, hargument, fun hnone => ?_⟩
  rw [hnone [] f.type .refl] at hsingles
  cases hsingles

end Lowering

end VocabularyCompiler

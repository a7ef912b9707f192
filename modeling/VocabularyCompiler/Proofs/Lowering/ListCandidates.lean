import VocabularyCompiler.Proofs.Lowering.Arrays
import VocabularyCompiler.Proofs.TypeGraph.Building
import VocabularyCompiler.Proofs.TypeGraph.Exclusion

/-!
# One more list among the ranges

A list type among the ranges of a property tells that it holds a list. If the list type itself is
chosen, it becomes an array when it is lowered, and if another range is chosen, the list type makes
an array of that. So with a list type among its ranges a property becomes an array whichever of them
is chosen, but for quantities, Booleans and enumerations, and one more list type never makes
something else of an array: it is chosen, or the choice stays as it was.
-/

namespace VocabularyCompiler

/-- Of ranges with one more among them that one is the best, or the best one is the same as
before. -/
theorem Choice.best?_insert (rank : String → RangeRank) (before : List String) (range : String)
    (after : List String) :
    best? rank (before ++ range :: after) = some range ∨
      best? rank (before ++ range :: after) = best? rank (before ++ after) := by
  induction before with
  | nil =>
    rw [List.nil_append, List.nil_append, best?]
    cases best? rank after with
    | none => exact Or.inl rfl
    | some s =>
      dsimp only
      split
      · exact Or.inr rfl
      · exact Or.inl rfl
  | cons r rest ih =>
    rw [List.cons_append, List.cons_append, best?, best?]
    rcases ih with hbest | hbest
    · have hmax := best?_spec rank (rest ++ range :: after)
      have hmax' := best?_spec rank (rest ++ after)
      rw [hbest] at hmax ⊢
      dsimp only at hmax ⊢
      split
      next => exact Or.inl rfl
      next hlt =>
        -- What does not outrank `r` leaves the place to `r`, and so do weaker ranges.
        refine Or.inr ?_
        cases hrest : best? rank (rest ++ after) with
        | none => rfl
        | some s =>
          rw [hrest] at hmax'
          have hs : s ∈ rest ++ range :: after := by
            rcases List.mem_append.1 hmax'.1 with hs | hs
            · exact List.mem_append_left _ hs
            · exact List.mem_append_right _ (List.mem_cons_of_mem _ hs)
          have hle : (rank s).strength ≤ (rank r).strength :=
            (hmax.2 s hs).trans (Nat.le_of_not_lt hlt)
          exact (if_neg (Nat.not_lt.2 hle)).symm
    · exact Or.inr (by rw [hbest])

/-- No type of an analyzed graph is built in. -/
theorem TypeGraph.isBuiltin_of_contains {p : Policy} {facts : List Fact} {name : String}
    (h : (analyze p facts).1.contains name = true) : p.isBuiltin name = false := by
  rw [contains_analyze, contains_iff] at h
  obtain ⟨n, hn⟩ := h
  have hkeeps := keepsTypes_build p facts name (mem_names_of_get? hn)
  unfold Draft.keepsType at hkeeps
  simpa using (Bool.and_eq_true_iff.1 hkeeps).1

namespace Lowering

/-- A range can become a type, in a query with or without a location, inside some structs and in
some number of steps. -/
def RangeBecomes (l : Lowering) (range : String) (type : ValueType) : Prop :=
  ∃ hasGeo n building, Returns (l.lowerRange hasGeo n building range) type

/-- A property can become a field, or none. -/
def PropertyBecomes (l : Lowering) (name : String) (decl : PropertyDecl) (field? : Option Field) :
    Prop :=
  ∃ hasGeo n building, Returns (l.property (l.lowerRange hasGeo n building) name decl) field?

/-- Two lowerings by one policy, of graphs with the same types, which may declare other
properties. -/
structure SameTypes (l l' : Lowering) : Prop where
  policy : l'.policy = l.policy
  classification : ∀ name, (l'.graph.get? name).map TypeNode.classification =
    (l.graph.get? name).map TypeNode.classification

/-- To declare a property in another way leaves the types as they are. -/
theorem sameTypes_declare (l : Lowering) {owner : String} {id : Nat}
    (hid : l.graph.id? owner = some id) (decl : PropertyDecl) :
    l.SameTypes { l with graph := l.graph.declare id decl } where
  policy := rfl
  classification name := by
    dsimp only [TypeGraph.declare]
    rw [TypeGraph.get?_modify hid]
    split
    · rw [Option.map_map]
      rfl
    · rfl

namespace SameTypes

variable {l l' : Lowering}

/-- A lowering has the types that it has. -/
theorem refl (l : Lowering) : l.SameTypes l := ⟨rfl, fun _ => rfl⟩

theorem symm (h : l.SameTypes l') : l'.SameTypes l :=
  ⟨h.policy.symm, fun name => (h.classification name).symm⟩

/-- A type has a counterpart of the same kind. -/
theorem exists_get? (h : l.SameTypes l') {name : String} {n : TypeNode}
    (hn : l.graph.get? name = some n) :
    ∃ n', l'.graph.get? name = some n' ∧ n'.classification = n.classification := by
  have hkind := h.classification name
  rw [hn] at hkind
  exact Option.map_eq_some_iff.1 hkind

/-- What is told of a type by its kind alone is the same. -/
theorem any_eq (h : l.SameTypes l') (k : Classification → Bool) (name : String) :
    ((l'.graph.get? name).any fun n => k n.classification) =
      (l.graph.get? name).any fun n => k n.classification := by
  have hany : ∀ n? : Option TypeNode,
      (n?.any fun n => k n.classification) = (n?.map TypeNode.classification).any k := by
    intro n?
    cases n? <;> rfl
  rw [hany, hany, h.classification]

/-- The list types are the same. -/
theorem isList_eq (h : l.SameTypes l') : Choice.isList l'.graph = Choice.isList l.graph :=
  funext (h.any_eq Classification.isItemList)

/-- The ranks of ranges are the same. -/
theorem rank_eq (h : l.SameTypes l') :
    RangeRank.of l'.graph l'.policy = RangeRank.of l.graph l.policy := by
  funext range
  have hkind := h.classification range
  unfold RangeRank.of
  rw [h.policy]
  cases hn : l.graph.get? range with
  | none =>
    rw [hn] at hkind
    rw [Option.map_eq_none_iff.1 hkind]
  | some n =>
    obtain ⟨n', hn', hclass⟩ := h.exists_get? hn
    simp [hn', hclass]

/-- What is lowered to a single value still is. -/
theorem lowersToSingle (h : l.SameTypes l') {range : String} (hsingle : l.LowersToSingle range) :
    l'.LowersToSingle range := by
  rcases hsingle with ⟨type, htype, hsingle⟩ | ⟨n, hn, hkind⟩
  · exact Or.inl ⟨type, h.policy ▸ htype, hsingle⟩
  · obtain ⟨n', hn', hclass⟩ := h.exists_get? hn.found
    exact Or.inr ⟨n', ⟨h.policy ▸ hn.builtin, hn'⟩, hclass ▸ hkind⟩

/-- No type is built in, if the types are those of an analyzed graph. -/
theorem isType (h : l.SameTypes l') {facts : List Fact}
    (hgraph : l.graph = (TypeGraph.analyze l.policy facts).1) {name : String} {n : TypeNode}
    (hn : l'.graph.get? name = some n) : l'.IsType name n := by
  obtain ⟨m, hm, -⟩ := h.symm.exists_get? hn
  have hcontains := TypeGraph.contains_iff.2 ⟨m, hm⟩
  rw [hgraph] at hcontains
  refine ⟨?_, hn⟩
  rw [get?_builtinTypes_eq_none_iff, h.policy]
  exact TypeGraph.isBuiltin_of_contains hcontains

end SameTypes

variable {l l' : Lowering} {name : String} {decl decl' : PropertyDecl} {choice choice' : Choice}

/-- What a range becomes has the shape of the range. -/
theorem RangeBecomes.shaped {range : String} {t : ValueType} (h : l.RangeBecomes range t) :
    l.Shaped range t := by
  obtain ⟨hasGeo, n, building, notes, notes', hrun⟩ := h
  exact ((shaped_invariant l hasGeo).lowerRange_meets n building range).ok hrun

/-- A property becomes a field if a range is chosen for it, of a type that the range can become. -/
theorem PropertyBecomes.typed {field? : Option Field} (h : l.PropertyBecomes name decl field?) :
    Option.Rel
      (fun choice f => ∃ type, Typed l.RangeBecomes choice type ∧ f = l.fieldOf name choice type)
      (Choice.choose l.graph l.policy name decl).1 field? := by
  obtain ⟨hasGeo, n, building, notes, notes', hrun⟩ := h
  refine (property_meets (Q := fun _ => True) fun choice array _ _ => ?_).ok hrun
  exact (meets_returns _).imp fun t ht => ⟨hasGeo, n, building, ht⟩

/-- A property of which a range was chosen becomes a field. -/
theorem PropertyBecomes.exists_field {field? : Option Field}
    (h : l.PropertyBecomes name decl field?)
    (hchoice : (Choice.choose l.graph l.policy name decl).1 = some choice) :
    ∃ type, Typed l.RangeBecomes choice type ∧ field? = some (l.fieldOf name choice type) := by
  have htyped := h.typed
  rw [hchoice] at htyped
  cases htyped with
  | some hf =>
    obtain ⟨type, htyped, rfl⟩ := hf
    exact ⟨type, htyped, rfl⟩

/-- Of a property that becomes a field a range was chosen. -/
theorem PropertyBecomes.exists_choice {f : Field} (h : l.PropertyBecomes name decl (some f)) :
    ∃ choice, (Choice.choose l.graph l.policy name decl).1 = some choice := by
  have htyped := h.typed
  rw [← Option.ne_none_iff_exists']
  intro hnone
  rw [hnone] at htyped
  cases htyped

/-- A list becomes no single value. -/
theorem not_lowersToSingle_of_isList (htypes : ∀ range n, l.graph.get? range = some n →
    l.IsType range n) {list : String} (hlist : Choice.isList l.graph list = true) :
    ¬l.LowersToSingle list := by
  obtain ⟨n, hn, hitem⟩ := Option.any_eq_true _ _ |>.1 hlist
  rw [(htypes list n hn).lowersToSingle_iff, hitem]
  exact fun h => Bool.noConfusion h.1

/-- A property that becomes an array is no quantity, and its range is not lowered to a single
value. -/
theorem range_of_isArray (hoverride : l.policy.typeOverrides.get? name = none)
    (hchoice : (Choice.choose l.graph l.policy name decl).1 = some choice) {type : ValueType}
    (htyped : Typed l.RangeBecomes choice type) (harray : type.isArray = true) :
    choice.range ≠ l.policy.quantitativeType ∧ ¬l.LowersToSingle choice.range := by
  have hshape := Choice.shape_of_choose hoverride hchoice
  cases htyped with
  | fixed =>
    split at hshape
    next =>
      cases hshape
      rw [Choice.isArray_quantity] at harray
      cases harray
    next => cases hshape
  | @lower range array type h =>
    split at hshape
    next => cases hshape
    next hrange =>
      refine ⟨hrange, fun hsingle => ?_⟩
      have hstays := h.shaped.single.2 hsingle
      rw [ValueType.wrap_eq, hstays, Bool.not_true, Bool.and_false, if_neg Bool.false_ne_true,
        ValueType.isArray_of_staysSingle hstays] at harray
      cases harray

/-- A range that is not lowered to a single value becomes none. -/
theorem not_exists_single {range : String} (h : ¬l.LowersToSingle range) :
    ¬∃ t, l.RangeBecomes range t ∧ t.staysSingle = true := by
  rintro ⟨t, ht, hstays⟩
  exact h (ht.shaped.single.1 hstays)

/-- A property with a list among its ranges becomes an array if and only if it is no quantity and
its range becomes no single value. -/
theorem isArray_iff_of_listed (hoverride : l.policy.typeOverrides.get? name = none)
    (hsingular : l.policy.forceSingular.contains name = false)
    (hlisted : decl.ranges.any (Choice.isList l.graph) = true)
    (htypes : ∀ range n, l.graph.get? range = some n → l.IsType range n)
    (hchoice : (Choice.choose l.graph l.policy name decl).1 = some choice) {type : ValueType}
    (htyped : Typed l.RangeBecomes choice type) :
    type.isArray = true ↔ choice.range ≠ l.policy.quantitativeType ∧
      ¬∃ t, l.RangeBecomes choice.range t ∧ t.staysSingle = true := by
  constructor
  · intro harray
    obtain ⟨hrange, hsingle⟩ := range_of_isArray hoverride hchoice htyped harray
    exact ⟨hrange, not_exists_single hsingle⟩
  rintro ⟨hrange, hnone⟩
  have hshape := Choice.shape_of_choose hoverride hchoice
  rw [if_neg hrange] at hshape
  cases htyped with
  | fixed => cases hshape
  | @lower range array type h =>
    dsimp only at hshape hnone
    cases hshape
    have hsingle : type.staysSingle = false := Bool.eq_false_iff.2 fun hs => hnone ⟨type, h, hs⟩
    rw [ValueType.wrap_eq, hsingle, Bool.not_false, Bool.and_true]
    cases hlist : Choice.isList l.graph range with
    | true =>
      -- A list that is chosen is an array by itself.
      obtain ⟨n, hn, hitem⟩ := Option.any_eq_true _ _ |>.1 hlist
      have harray := h.shaped.list n (htypes range n hn) hitem
      split
      · rfl
      · exact harray
    | false => simp [Choice.holdsSeveral, hlist, hsingular, hlisted, ValueType.isArray]

/-- With one more range that one is chosen, or the choice is as before. -/
theorem range_of_insert (hsame : l.SameTypes l') {before after : List String} {range : String}
    (hdecl : decl.ranges = before ++ after) (hdecl' : decl'.ranges = before ++ range :: after)
    (hchoice : (Choice.choose l.graph l.policy name decl).1 = some choice)
    (hchoice' : (Choice.choose l'.graph l'.policy name decl').1 = some choice') :
    choice'.range = range ∨ choice'.range = choice.range := by
  have hbest := (Choice.fst_choose_eq_some_iff.1 hchoice).2.1
  have hbest' := (Choice.fst_choose_eq_some_iff.1 hchoice').2.1
  rw [hdecl] at hbest
  rw [hsame.rank_eq, hdecl'] at hbest'
  have hinsert := Choice.best?_insert (RangeRank.of l.graph l.policy) before range after
  rw [hbest', hbest] at hinsert
  exact hinsert.imp Option.some.inj Option.some.inj

/-- One more list type of an analyzed graph among the ranges of a property, at any place, unless it
is the quantitative type: the property is kept, it becomes an array unless the chosen range is the
quantitative type or is lowered to a Boolean or to an enumeration, and it does become one if it did
before. This is so in the graph (`SameTypes.refl`), and in every graph with the same types, such as
the one in which the property is declared so (`sameTypes_declare`). -/
theorem property_with_list_candidate {facts : List Fact}
    (hgraph : l.graph = (TypeGraph.analyze l.policy facts).1) (hsame : l.SameTypes l')
    {list : String} {before after : List String} (hdecl : decl.ranges = before ++ after)
    (hdecl' : decl' = { decl with ranges := before ++ list :: after })
    (hlist : Choice.isList l.graph list = true) (hquantity : list ≠ l.policy.quantitativeType)
    (hexcluded : l.policy.excludedProperties.contains name = false)
    (hsingular : l.policy.forceSingular.contains name = false)
    (hoverride : l.policy.typeOverrides.get? name = none) :
    ∃ choice, (Choice.choose l'.graph l'.policy name decl').1 = some choice ∧
      (∀ field?, l'.PropertyBecomes name decl' field? → ∃ f, field? = some f ∧
        (f.type.isArray = true ↔ choice.range ≠ l.policy.quantitativeType ∧
          ¬∃ t, l'.RangeBecomes choice.range t ∧ t.staysSingle = true)) ∧
      ∀ f f', l.PropertyBecomes name decl (some f) → l'.PropertyBecomes name decl' (some f') →
        f.type.isArray = true → f'.type.isArray = true := by
  have hpolicy := hsame.policy
  have htypes : ∀ range n, l'.graph.get? range = some n → l'.IsType range n :=
    fun _ _ hn => hsame.isType hgraph hn
  have hlist' : Choice.isList l'.graph list = true := by rw [hsame.isList_eq, hlist]
  have hmem : list ∈ decl'.ranges := by
    rw [hdecl']
    exact List.mem_append_right _ List.mem_cons_self
  obtain ⟨choice, hchoice⟩ : ∃ choice,
      (Choice.choose l'.graph l'.policy name decl').1 = some choice := by
    obtain ⟨n, hn, -⟩ := Option.any_eq_true _ _ |>.1 hlist'
    exact Choice.exists_choose_of_recognized (hpolicy ▸ hexcluded) hmem
      (Or.inr (Or.inr (TypeGraph.contains_iff.2 ⟨n, hn⟩)))
  have harray : ∀ type, Typed l'.RangeBecomes choice type → (type.isArray = true ↔
      choice.range ≠ l'.policy.quantitativeType ∧
        ¬∃ t, l'.RangeBecomes choice.range t ∧ t.staysSingle = true) := fun type htyped =>
    isArray_iff_of_listed (hpolicy ▸ hoverride) (hpolicy ▸ hsingular)
      (List.any_eq_true.2 ⟨list, hmem, hlist'⟩) htypes hchoice htyped
  refine ⟨choice, hchoice, fun field? hfield => ?_, fun f f' hf hf' hbefore => ?_⟩
  · obtain ⟨type, htyped, rfl⟩ := hfield.exists_field hchoice
    exact ⟨_, rfl, hpolicy ▸ harray type htyped⟩
  · obtain ⟨choice₀, hchoice₀⟩ := hf.exists_choice
    obtain ⟨type, htyped, hfield⟩ := hf.exists_field hchoice₀
    obtain ⟨type', htyped', hfield'⟩ := hf'.exists_field hchoice
    obtain rfl := Option.some.inj hfield
    obtain rfl := Option.some.inj hfield'
    obtain ⟨hrange, hsingle⟩ := range_of_isArray hoverride hchoice₀ htyped hbefore
    refine (harray type' htyped').2 ?_
    -- The list type is chosen, or the same range as before.
    rcases range_of_insert hsame hdecl (by rw [hdecl']) hchoice₀ hchoice with hrange' | hrange'
    · rw [hrange', hpolicy]
      exact ⟨hquantity, not_exists_single (not_lowersToSingle_of_isList htypes hlist')⟩
    · rw [hrange', hpolicy]
      exact ⟨hrange, not_exists_single fun hs => hsingle (hsame.symm.lowersToSingle hs)⟩

/-- Places with reviews. -/
def placesWithReviews : Lowering :=
  ⟨(TypeGraph.analyze .standard
    [.classFact "Thing" [] "" false,
      .classFact "Review" ["Thing"] "" false,
      .classFact "ItemList" ["Thing"] "" false,
      .classFact "ReviewList" ["ItemList"] "" false,
      .classFact "Place" ["Thing"] "" false,
      .propertyFact "review" ["Place"] ["Review"] "A review of the place." false]).1, .standard, {}⟩

/-- The reviews of a place, with lists of reviews among their ranges. -/
def listedReviews : PropertyDecl := ⟨"review", ["ReviewList", "Review"], "A review of the place."⟩

/-- Places with reviews that are declared so. -/
def placesWithListedReviews : Lowering :=
  { placesWithReviews with graph := placesWithReviews.graph.declare 4 listedReviews }

/-- The field that a property becomes as an argument, if it passes a test. -/
theorem exists_propertyBecomes (l : Lowering) (name : String) (decl : PropertyDecl)
    (test : Field → Bool)
    (h : (result? (l.property (l.lowerArgument false) name decl)).any (Option.any test) = true) :
    ∃ f, l.PropertyBecomes name decl (some f) ∧ test f = true := by
  obtain ⟨field?, hresult, hfield⟩ := Option.any_eq_true _ _ |>.1 h
  obtain ⟨f, rfl, htest⟩ := Option.any_eq_true _ _ |>.1 hfield
  obtain ⟨notes, hrun⟩ := exists_run_of_result? hresult
  exact ⟨f, ⟨false, l.depth, [], [], notes, hrun⟩, htest⟩

/-- The reviews of a place are an array, and they are one with a list type in front of the ranges,
which is chosen then. -/
theorem property_with_list_candidate_review :
    placesWithReviews.SameTypes placesWithListedReviews ∧
    Choice.isList placesWithReviews.graph "ReviewList" = true ∧
    "ReviewList" ≠ placesWithReviews.policy.quantitativeType ∧
    placesWithReviews.policy.excludedProperties.contains "review" = false ∧
    placesWithReviews.policy.forceSingular.contains "review" = false ∧
    placesWithReviews.policy.typeOverrides.get? "review" = none ∧
    ∃ f f', placesWithReviews.PropertyBecomes "review" { listedReviews with ranges := ["Review"] }
        (some f) ∧ f.type.isArray = true ∧
      placesWithListedReviews.PropertyBecomes "review" listedReviews (some f') ∧
        f'.type.isArray = true := by
  have hid : placesWithReviews.graph.id? "Place" = some 4 := by decide +kernel
  have hlist : Choice.isList placesWithReviews.graph "ReviewList" = true := by decide +kernel
  have hsame : placesWithReviews.SameTypes placesWithListedReviews :=
    sameTypes_declare placesWithReviews hid listedReviews
  have hexcluded : placesWithReviews.policy.excludedProperties.contains "review" = false := by
    decide +kernel
  have hsingular : placesWithReviews.policy.forceSingular.contains "review" = false := by
    decide +kernel
  have hoverride : placesWithReviews.policy.typeOverrides.get? "review" = none := by
    decide +kernel
  have hquantity : "ReviewList" ≠ placesWithReviews.policy.quantitativeType := by decide
  obtain ⟨f, hf, harray⟩ := exists_propertyBecomes placesWithReviews "review"
    { listedReviews with ranges := ["Review"] } (fun f => f.type.isArray) (by decide +kernel)
  obtain ⟨f', hf', -⟩ := exists_propertyBecomes placesWithListedReviews "review" listedReviews
    (fun _ => true) (by decide +kernel)
  have hranges : { listedReviews with ranges := ["Review"] }.ranges = [] ++ ["Review"] := rfl
  obtain ⟨-, -, -, hkeeps⟩ := property_with_list_candidate rfl hsame hranges rfl hlist
    hquantity hexcluded hsingular hoverride
  exact ⟨hsame, hlist, hquantity, hexcluded, hsingular, hoverride, f, f', hf, harray, hf',
    hkeeps f f' hf hf' harray⟩

end Lowering

end VocabularyCompiler

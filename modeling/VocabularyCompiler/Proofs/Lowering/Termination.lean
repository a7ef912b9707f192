import VocabularyCompiler.Proofs.Lowering.Depth
import VocabularyCompiler.Proofs.TypeGraph.Analysis
import VocabularyCompiler.Proofs.TypeGraph.Scheduling
import VocabularyCompiler.Proofs.TypeGraph.StructProperties

/-!
# Lowering comes to an end

The lowering of a range goes down into the element types of lists and into the properties of
structs. A struct is not entered inside itself, so a step into one leaves fewer types that can be
entered. A step into a list leaves a shorter name, or the root type, which is no list. `rank` puts
both together: it gets smaller with each call and stays below the bound on the number of steps.
-/

namespace VocabularyCompiler.Lowering

/-! ## The rank of a range -/

/-- The types of the graph with names shorter than a range, and one more for the range itself if it
is not the root type: no chain of lists down from the range is longer. -/
def chainRank (l : Lowering) (range : String) : Nat :=
  if range = l.policy.rootType then 0
  else unseen l.graph.names (l.graph.names.filter (range.length ≤ ·.length)) + 1

/-- How many calls deep the lowering of a range inside some structs can be. -/
def rank (l : Lowering) (q : List String × String) : Nat :=
  unseen l.graph.names q.1 * (l.graph.size + 2) + l.chainRank q.2

/-- A chain of lists is no longer than there are types, with the root type below it. -/
theorem chainRank_le (l : Lowering) (range : String) : l.chainRank range ≤ l.graph.size + 1 := by
  have h := l.graph.unseen_names_le (l.graph.names.filter (range.length ≤ ·.length))
  unfold chainRank
  split <;> omega

/-- The bound on the number of steps is above every rank. -/
theorem rank_lt_depth (l : Lowering) (q : List String × String) : l.rank q < l.depth :=
  l.unseen_mul_lt_depth q.1 (l.chainRank_le q.2)

/-- A chain gets shorter with a step to the root type, or to a type of the graph with a shorter
name. -/
theorem chainRank_lt {l : Lowering} {range item : String} (hrange : range ≠ l.policy.rootType)
    (h : item = l.policy.rootType ∨ l.graph.contains item = true ∧ item.length < range.length) :
    l.chainRank item < l.chainRank range := by
  unfold chainRank
  rw [if_neg hrange]
  split
  next => omega
  next hitem =>
    obtain ⟨hknown, hlength⟩ := h.resolve_left hitem
    have hmem : item ∈ l.graph.names := TypeGraph.mem_names_iff.2 hknown
    -- The names shorter than the element's are shorter than the list's, and so is the element's.
    have hlt : unseen l.graph.names (l.graph.names.filter (item.length ≤ ·.length)) <
        unseen l.graph.names (l.graph.names.filter (range.length ≤ ·.length)) := by
      refine unseen_lt (fun name hname => ?_) hmem (a := item) ?_ ?_
      · simp only [List.mem_filter, decide_eq_true_eq] at hname ⊢
        exact ⟨hname.1, by omega⟩
      · simp only [List.mem_filter, decide_eq_true_eq, not_and]
        omega
      · simp [hmem]
    omega

/-- The calls of the lowering of an analyzed graph are of a smaller rank, if no suffix of lists is
empty and the root type is no list. -/
theorem rank_lt_of_calledFrom {p : Policy} {facts : List Fact} {o : Options}
    (hsuffix : "" ∉ p.listSuffixes)
    (hroot : Choice.isList (TypeGraph.analyze p facts).1 p.rootType = false)
    {q r : List String × String}
    (h : CalledFrom ⟨(TypeGraph.analyze p facts).1, p, o⟩ q r) :
    rank ⟨(TypeGraph.analyze p facts).1, p, o⟩ q <
      rank ⟨(TypeGraph.analyze p facts).1, p, o⟩ r := by
  cases h with
  | @element building range node _ hnode hlist _ =>
    -- The structs around it stay the same, so the chain of lists has to get shorter.
    refine Nat.add_lt_add_left (chainRank_lt ?_ ?_) _
    · rintro rfl
      simp [Choice.isList, hnode, hlist] at hroot
    · obtain ⟨⟨i, hi⟩, rfl⟩ := TypeGraph.get?_eq_some_iff.1 hnode
      rcases TypeGraph.itemType_analyze hi hlist with hitem | ⟨hknown, suffix, hmem, hlength⟩
      · exact Or.inl hitem
      · have hpos : suffix.length ≠ 0 :=
          fun hzero => hsuffix (String.length_eq_zero_iff.1 hzero ▸ hmem)
        exact Or.inr ⟨hknown, by dsimp only; omega⟩
  | @member building range node decl choice array _ hnode _ _ _ hnew _ _ _ =>
    exact unseen_append_mul_lt (TypeGraph.mem_names_of_get? hnode) hnew (chainRank_le _ _) _

/-! ## The lowering with enough steps -/

section Steps

variable {l : Lowering} (hrank : ∀ {q r}, l.CalledFrom q r → l.rank q < l.rank r)

include hrank

/-- No chain of calls goes on forever. -/
theorem wellFounded_calledFrom : WellFounded l.CalledFrom :=
  Subrelation.wf hrank (InvImage.wf l.rank wellFounded_lt)

/-- With more steps than the rank of a range, their number makes no difference to its lowering, and
it never stops at an endless list. -/
theorem lowerRange_agree {hasGeo : Bool} {n m : Nat} {building : List String} {range : String}
    (hn : l.rank (building, range) < n) (hm : l.rank (building, range) < m) :
    Agree (l.lowerRange hasGeo n building range) (l.lowerRange hasGeo m building range) := by
  induction n generalizing m building range with
  | zero => omega
  | succ n ih =>
    obtain ⟨m, rfl⟩ : ∃ k, m = k + 1 := ⟨m - 1, by omega⟩
    unfold lowerRange
    refine Agree.congruence.lowerStep fun q hq => ?_
    have hlt : l.rank (q.1, q.2) < l.rank (building, range) := hrank hq
    exact ih (by omega) (by omega)

/-- The lowering with the bounded number of steps is the only solution of the recursion without a
bound. -/
theorem forall_eq_lowerStep_iff {hasGeo : Bool} {lower : List String → String → Step ValueType} :
    (∀ building range, lower building range = l.lowerStep hasGeo lower building range) ↔
      lower = l.lowerRange hasGeo l.depth := by
  have hdepth := l.rank_lt_depth
  have hstep : ∀ building range, l.lowerRange hasGeo l.depth building range =
      l.lowerStep hasGeo (l.lowerRange hasGeo l.depth) building range := fun building range =>
    (lowerRange_agree hrank (hdepth _) (Nat.lt_succ_of_lt (hdepth _))).1
  constructor
  · intro hlower
    -- Both solutions take one step and then agree on all calls of that step.
    have hall : ∀ q : List String × String,
        Agree (l.lowerRange hasGeo l.depth q.1 q.2) (lower q.1 q.2) := by
      intro q
      induction q using (wellFounded_calledFrom hrank).induction with
      | h q ih =>
        rw [hstep, hlower]
        exact Agree.congruence.lowerStep ih
    exact funext fun building => funext fun range => (hall (building, range)).1.symm
  · rintro rfl
    exact hstep

/-- The lowering of a property never stops at an endless list. -/
theorem property_lowerArgument_agree (hasGeo : Bool) (name : String) (decl : PropertyDecl) :
    Agree (l.property (l.lowerArgument hasGeo) name decl)
      (l.property (l.lowerArgument hasGeo) name decl) :=
  Agree.congruence.property fun _ _ _ _ =>
    lowerRange_agree hrank (l.rank_lt_depth _) (l.rank_lt_depth _)

/-- The lowering of arguments never stops at an endless list. -/
theorem addArguments_agree (type : String) (hasGeo : Bool)
    (decls : List (String × PropertyDecl)) (fields : List Field) :
    Agree (l.addArguments type hasGeo fields decls) (l.addArguments type hasGeo fields decls) := by
  induction decls generalizing fields with
  | nil => exact .pure fields
  | cons e rest ih =>
    obtain ⟨name, decl⟩ := e
    unfold addArguments
    dsimp only
    split
    next => exact (Agree.report _).bind fun _ => ih fields
    next =>
      refine (property_lowerArgument_agree hrank hasGeo name decl).bind fun field? => ?_
      cases field? with
      | none => exact ih fields
      | some f => exact ih _

/-- The lowering of queries never stops at an endless list. -/
theorem queries_agree (ids : List Nat) : Agree (l.queries ids) (l.queries ids) := by
  induction ids with
  | nil => exact .pure []
  | cons id rest ih =>
    unfold queries
    cases l.graph.node? id with
    | none => exact ih
    | some node =>
      have hquery : Agree (l.query node) (l.query node) :=
        (addArguments_agree hrank _ _ _ _).bind fun _ => .pure _
      exact hquery.bind fun q => ih.bind fun qs => .pure _

/-- The lowering of a graph never stops at an endless list. -/
theorem classDefinition_agree : Agree l.classDefinition l.classDefinition :=
  (queries_agree hrank _).bind fun _ => .pure _

end Steps

/-- A lowering that comes to an end, whatever range it begins with: none of its bounds on the number
of steps ever cuts it off. -/
structure Ends (l : Lowering) : Prop where
  /-- No chain of calls goes on forever. -/
  calls : WellFounded l.CalledFrom
  /-- The bounded lowering of ranges is the only solution of the recursion without a bound. -/
  solution : ∀ (hasGeo : Bool) (lower : List String → String → Step ValueType),
    (∀ building range, lower building range = l.lowerStep hasGeo lower building range) ↔
      lower = l.lowerRange hasGeo l.depth
  /-- With more steps the properties of a struct are the same. -/
  properties : ∀ everything name n, l.graph.size < n →
    l.graph.collect l.policy everything n {} name =
      l.graph.collect l.policy everything (l.graph.size + 1) {} name
  /-- With more steps the schedule of types is the same. -/
  schedule : ∀ n, l.graph.size < n →
    l.graph.ids.foldl (l.graph.visit n) {} = l.graph.ids.foldl (l.graph.visit (l.graph.size + 1)) {}
  /-- The class never fails to be made for a list without an end. -/
  finished : ∀ notes name, l.classDefinition.run notes ≠ .error (.endlessList name)

/-- The lowering of an analyzed graph comes to an end, if no suffix of lists is empty and the root
type is no list. -/
theorem lowering_ends (p : Policy) (facts : List Fact) (o : Options) (hsuffix : "" ∉ p.listSuffixes)
    (hroot : Choice.isList (TypeGraph.analyze p facts).1 p.rootType = false) :
    Ends ⟨(TypeGraph.analyze p facts).1, p, o⟩ where
  calls := wellFounded_calledFrom (rank_lt_of_calledFrom hsuffix hroot)
  solution _ _ := forall_eq_lowerStep_iff (rank_lt_of_calledFrom hsuffix hroot)
  properties everything name n hn := by
    have hnames := (TypeGraph.analyze p facts).1.unseen_names_le []
    exact TypeGraph.collect_eq_of_unseen_lt (hnames.trans_lt hn) (Nat.lt_succ_of_le hnames)
  schedule n hn := by
    have hids := (TypeGraph.analyze p facts).1.unseen_ids_le []
    exact TypeGraph.visits_eq_of_unseen_lt _ (hids.trans_lt hn) (Nat.lt_succ_of_le hids)
  finished := (classDefinition_agree (rank_lt_of_calledFrom hsuffix hroot)).2

/-- Addresses that are related to other addresses, which they hold in lists. -/
def relatedAddresses : List Fact :=
  [.classFact "Thing" [] "" false,
    .classFact "StructuredValue" ["Thing"] "" false,
    .classFact "PostalAddress" ["StructuredValue"] "" false,
    .classFact "ItemList" ["Thing"] "" false,
    .classFact "PostalAddressList" ["ItemList"] "" false,
    .classFact "Place" ["Thing"] "" false,
    .propertyFact "address" ["Place"] ["PostalAddress"] "" false,
    .propertyFact "related" ["StructuredValue"] ["PostalAddressList"] "" false]

/-- The lowering comes to an end although an address inherits a list of addresses. -/
theorem lowering_ends_relatedAddresses :
    "" ∉ Policy.standard.listSuffixes ∧
      Choice.isList (TypeGraph.analyze .standard relatedAddresses).1 Policy.standard.rootType =
        false ∧
      (TypeGraph.analyze .standard relatedAddresses).1.representsAsStruct "PostalAddress" = true ∧
      Choice.isList (TypeGraph.analyze .standard relatedAddresses).1 "PostalAddressList" = true ∧
      Ends ⟨(TypeGraph.analyze .standard relatedAddresses).1, .standard, {}⟩ := by
  have hsuffix : "" ∉ Policy.standard.listSuffixes := by decide
  have hroot : Choice.isList (TypeGraph.analyze .standard relatedAddresses).1
      Policy.standard.rootType = false := by decide +kernel
  exact ⟨hsuffix, hroot, by decide +kernel, by decide +kernel,
    lowering_ends .standard relatedAddresses {} hsuffix hroot⟩

end VocabularyCompiler.Lowering

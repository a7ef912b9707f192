import VocabularyCompiler.Compiler
import VocabularyCompiler.Proofs.Lowering.Calls
import VocabularyCompiler.Proofs.Lowering.Choice
import VocabularyCompiler.Proofs.TypeGraph.Exclusion

/-!
# What the policy leaves out leaves no trace

The ranges of a property that the policy leaves out are never chosen, and no list type is among
them, so a property becomes the same argument without them. What is noted on the way may differ: a
property without a recognized range is reported with all its ranges. Main statement: facts are
compiled into the same class, or stop with the same error, once what does not count is taken out of
them (`Compiler.compile_purge`).
-/

namespace VocabularyCompiler

variable {p : Policy} {g : TypeGraph}

/-- The policy leaves out neither a type that is built in nor the text type. -/
def Policy.SparesDataTypes (p : Policy) : Prop :=
  ∀ name ∈ p.excludedTypes.items, p.isBuiltin name = false ∧ name ≠ p.textType

instance (p : Policy) : Decidable p.SparesDataTypes :=
  inferInstanceAs (Decidable (∀ name ∈ p.excludedTypes.items, _))

/-- What the policy leaves out is not recognized. -/
theorem Recognized.not_excluded (hp : p.SparesDataTypes) (hg : g.Forgets p) {range : String}
    (h : Recognized g p range) : p.excludedTypes.contains range = false := by
  rw [Bool.eq_false_iff]
  intro hout
  obtain ⟨hbuiltin, htext⟩ := hp range ((OrderedSet.contains_iff_mem _ _).1 hout)
  rcases h with h | h | h
  · exact htext h
  · cases hbuiltin.symm.trans h
  · rw [TypeGraph.contains, ← List.findIdx?_isSome] at h
    have hid : g.id? range = none := hg range hout
    rw [TypeGraph.id?] at hid
    rw [hid] at h
    cases h

/-! ## The choice of a range -/

/-- The rank of a range is the same in the narrowed graph. -/
theorem RangeRank.of_narrow (p : Policy) (g : TypeGraph) :
    RangeRank.of (g.narrow p) p = RangeRank.of g p := by
  funext range
  unfold RangeRank.of
  rw [TypeGraph.get?_narrow]
  cases g.get? range <;> rfl

namespace Choice

/-- A list type is one in the narrowed graph. -/
theorem isList_narrow (p : Policy) (g : TypeGraph) : isList (g.narrow p) = isList g := by
  funext range
  unfold isList
  rw [TypeGraph.get?_narrow]
  cases g.get? range <;> rfl

/-- The first range is the best one if none of the others has a rank. -/
theorem best?_cons_of_forall_unrecognized {rank : String → RangeRank} (r : String)
    {rest : List String} (h : ∀ s ∈ rest, rank s = .unrecognized) :
    best? rank (r :: rest) = some r := by
  have hspec := best?_spec rank rest
  rw [best?]
  cases hbest : best? rank rest with
  | none => rfl
  | some s =>
    rw [hbest] at hspec
    have hweak : (rank s).strength = 0 := RangeRank.strength_eq_zero_iff.2 (h s hspec.1)
    dsimp only
    rw [if_neg (by omega)]

/-- The first range does not count if it has no rank and another one has. -/
theorem best?_cons_of_unrecognized {rank : String → RangeRank} {r : String} {rest : List String}
    (hr : rank r = .unrecognized) (h : ∃ s ∈ rest, rank s ≠ .unrecognized) :
    best? rank (r :: rest) = best? rank rest := by
  obtain ⟨t, ht, hrank⟩ := h
  have hspec := best?_spec rank rest
  rw [best?]
  cases hbest : best? rank rest with
  | none =>
    rw [hbest] at hspec
    rw [hspec] at ht
    cases ht
  | some s =>
    rw [hbest] at hspec
    have hweak : (rank r).strength = 0 := RangeRank.strength_eq_zero_iff.2 hr
    have hpos : 0 < (rank t).strength :=
      Nat.pos_of_ne_zero fun h => hrank (RangeRank.strength_eq_zero_iff.1 h)
    have hstrong : 0 < (rank s).strength := Nat.lt_of_lt_of_le hpos (hspec.2 t ht)
    dsimp only
    rw [if_pos (by omega)]

/-- The best range is still the best if ranges without a rank are taken out, unless none has one. -/
theorem best?_filter {rank : String → RangeRank} {q : String → Bool} {ranges : List String}
    (hq : ∀ r ∈ ranges, rank r ≠ .unrecognized → q r = true)
    (hsome : ∃ r ∈ ranges, rank r ≠ .unrecognized) :
    best? rank (ranges.filter q) = best? rank ranges := by
  induction ranges with
  | nil =>
    obtain ⟨r, hr, -⟩ := hsome
    cases hr
  | cons r rest ih =>
    obtain ⟨hqr, hqrest⟩ := List.forall_mem_cons.1 hq
    rw [List.filter_cons]
    by_cases hrest : ∃ s ∈ rest, rank s ≠ .unrecognized
    · -- The first range is compared with the best of the rest, or it is taken out and did not count.
      have hbest := ih hqrest hrest
      split
      next => rw [best?, best?, hbest]
      next hout =>
        have hr : rank r = .unrecognized := by_contra fun hr => hout (hqr hr)
        rw [best?_cons_of_unrecognized hr hrest, hbest]
    · -- The first range is the only one with a rank, so it stays and is the best one.
      push Not at hrest
      have hr : rank r ≠ .unrecognized := by
        obtain ⟨s, hs, hrank⟩ := hsome
        rcases List.mem_cons.1 hs with rfl | hs
        · exact hrank
        · exact absurd (hrest s hs) hrank
      have hkept : ∀ s ∈ rest.filter q, rank s = .unrecognized := fun s hs =>
        hrest s (List.mem_filter.1 hs).1
      rw [if_pos (hqr hr), best?_cons_of_forall_unrecognized r hrest,
        best?_cons_of_forall_unrecognized r hkept]

/-- The same ranges are recognized in the narrowed graph. -/
theorem recognized_narrow_iff {range : String} :
    Recognized (g.narrow p) p range ↔ Recognized g p range := by
  unfold Recognized
  rw [TypeGraph.contains_narrow]

section

variable (hp : p.SparesDataTypes) (hg : g.Forgets p)

include hp hg

/-- A range that is recognized is kept. -/
theorem mem_keep_of_recognized {ranges : List String} {range : String} (h : range ∈ ranges)
    (hrecognized : Recognized g p range) : range ∈ p.keep ranges := by
  refine List.mem_filter.2 ⟨h, ?_⟩
  rw [hrecognized.not_excluded hp hg, Bool.not_false]

/-- The best range is kept, if any range is recognized. -/
theorem best?_keep {ranges : List String} (hsome : ∃ r ∈ ranges, Recognized g p r) :
    best? (RangeRank.of g p) (p.keep ranges) = best? (RangeRank.of g p) ranges := by
  have hranks (r : String) : RangeRank.of g p r ≠ .unrecognized ↔ Recognized g p r := by
    rw [ne_eq, RangeRank.of_eq_unrecognized_iff, not_not]
  refine best?_filter (fun r hr hrank => ?_) ?_
  · exact (List.mem_filter.1 (mem_keep_of_recognized hp hg hr ((hranks r).1 hrank))).2
  · simp only [hranks]
    exact hsome

/-- The list types among the ranges are kept. -/
theorem any_isList_keep (ranges : List String) :
    (p.keep ranges).any (isList g) = ranges.any (isList g) := by
  rw [Bool.eq_iff_iff, List.any_eq_true, List.any_eq_true]
  constructor
  · rintro ⟨r, hr, hlist⟩
    exact ⟨r, (List.mem_filter.1 hr).1, hlist⟩
  · rintro ⟨r, hr, hlist⟩
    obtain ⟨n, hn, -⟩ := (Option.any_eq_true _ _).1 hlist
    have hrecognized : Recognized g p r := .inr (.inr (TypeGraph.contains_iff.2 ⟨n, hn⟩))
    exact ⟨r, mem_keep_of_recognized hp hg hr hrecognized, hlist⟩

/-- What becomes of a range that is chosen does not depend on the ranges that are left out. -/
theorem shapeOf_narrow (name : String) (decl : PropertyDecl) :
    shapeOf (g.narrow p) p name (decl.narrow p) = shapeOf g p name decl := by
  funext range
  have hlists : (decl.narrow p).ranges.any (isList g) = decl.ranges.any (isList g) :=
    any_isList_keep hp hg decl.ranges
  have hcomment : (decl.narrow p).comment = decl.comment := rfl
  unfold shapeOf holdsSeveral
  rw [isList_narrow, hlists, hcomment]

/-- What is chosen for a property does not depend on the ranges that are left out. -/
theorem fst_choose_narrow (name : String) (decl : PropertyDecl) :
    (choose (g.narrow p) p name (decl.narrow p)).1 = (choose g p name decl).1 := by
  by_cases hsome : ∃ r ∈ decl.ranges, Recognized g p r
  · have hbest : best? (RangeRank.of g p) (decl.narrow p).ranges =
        best? (RangeRank.of g p) decl.ranges := best?_keep hp hg hsome
    refine Option.ext fun choice => ?_
    rw [fst_choose_eq_some_iff, fst_choose_eq_some_iff, RangeRank.of_narrow,
      recognized_narrow_iff, shapeOf_narrow hp hg, hbest]
  · -- No range is recognized, with or without those that are left out.
    push Not at hsome
    have hnone : (choose g p name decl).1 = none := fst_choose_eq_none_iff.2 (.inr hsome)
    rw [hnone, fst_choose_eq_none_iff]
    refine .inr fun r hr => ?_
    rw [recognized_narrow_iff]
    exact hsome r (List.mem_filter.1 hr).1

end

end Choice

/-! ## Computations that note different things -/

namespace Lowering

/-- Two computations return the same value or stop with the same error, whatever each of them noted
before and notes on the way. -/
def SameOutcome {α : Type} (x y : Step α) : Prop :=
  ∀ notes notes', (x.run notes).map Prod.fst = (y.run notes').map Prod.fst

namespace SameOutcome

variable {α β : Type} {x y : Step α}

/-- A value is returned as it is. -/
theorem pure (a : α) : SameOutcome (Pure.pure a : Step α) (Pure.pure a) := fun _ _ => rfl

/-- It makes no difference what is noted. -/
theorem report (notes notes' : Diagnostics) : SameOutcome (report notes) (report notes') :=
  fun _ _ => rfl

/-- A stop is with the given error. -/
theorem stop (e : CompileError) : SameOutcome (stop e : Step α) (stop e) := fun _ _ => rfl

/-- One computation after another has the outcome that they have together. -/
theorem bind {f f' : α → Step β} (hx : SameOutcome x y) (hf : ∀ a, SameOutcome (f a) (f' a)) :
    SameOutcome (x >>= f) (y >>= f') := by
  have hsame : SameUpTo (fun b : β => b) (x >>= f) (y >>= f') :=
    SameUpTo.bind (e := fun a : α => a) hx fun a b hab => by
      subst hab
      exact hf a
  exact hsame

/-- What is made of the result makes no difference. -/
theorem map (f : α → β) (hx : SameOutcome x y) : SameOutcome (f <$> x) (f <$> y) := by
  rw [map_eq_pure_bind, map_eq_pure_bind]
  exact hx.bind fun a => .pure (f a)

end SameOutcome

/-! ## Lowering a narrowed graph -/

variable {l : Lowering} {hasGeo : Bool}

/-- The lowering of the narrowed graph. -/
def narrow (l : Lowering) : Lowering := { l with graph := l.graph.narrow l.policy }

section

variable (hp : l.policy.SparesDataTypes) (hg : l.graph.Forgets l.policy)

include hp hg

/-- A property becomes the same if the ranges become the same. -/
theorem property_narrow {lower lower' : String → Step ValueType}
    (h : ∀ range, SameOutcome (lower' range) (lower range)) (name : String) (decl : PropertyDecl) :
    SameOutcome (l.narrow.property lower' name (decl.narrow l.policy))
      (l.property lower name decl) := by
  unfold Lowering.property
  have hchoice := Choice.fst_choose_narrow hp hg name decl
  change (Choice.choose l.narrow.graph l.narrow.policy name (decl.narrow l.policy)).1 = _ at hchoice
  generalize Choice.choose l.narrow.graph l.narrow.policy name (decl.narrow l.policy) = chosen'
    at hchoice
  generalize Choice.choose l.graph l.policy name decl = chosen at hchoice
  obtain ⟨choice', notes'⟩ := chosen'
  obtain ⟨choice, notes⟩ := chosen
  cases hchoice
  refine .bind (.report notes' notes) fun _ => ?_
  cases choice' with
  | none => exact .pure none
  | some choice =>
    cases hshape : choice.shape with
    | fixed type =>
      simp only [hshape]
      exact .bind (.pure type) fun _ => .pure _
    | lower array =>
      simp only [hshape]
      exact .bind (.map _ (h choice.range)) fun _ => .pure _

/-- Properties become the same members. -/
theorem members_narrow {lower lower' : String → Step ValueType}
    (h : ∀ range, SameOutcome (lower' range) (lower range)) (decls : List PropertyDecl) :
    SameOutcome (l.narrow.members hasGeo lower' (decls.map (PropertyDecl.narrow l.policy)))
      (l.members hasGeo lower decls) := by
  induction decls with
  | nil => exact .pure []
  | cons decl rest ih =>
    rw [List.map_cons]
    unfold Lowering.members
    refine .bind (property_narrow hp hg h decl.name decl) fun field? => ?_
    refine .bind ih fun fields => ?_
    cases field? with
    | none => exact .pure fields
    | some f => exact .pure _

/-- A struct becomes the same compound type. -/
theorem compound_narrow {lower lower' : String → Step ValueType}
    (h : ∀ range, SameOutcome (lower' range) (lower range)) (name : String) :
    SameOutcome (l.narrow.compound hasGeo lower' name) (l.compound hasGeo lower name) := by
  unfold Lowering.compound
  have hdecls : l.narrow.graph.structProperties l.narrow.policy name =
      (l.graph.structProperties l.policy name).map (PropertyDecl.narrow l.policy) :=
    TypeGraph.structProperties_narrow l.policy l.graph name
  rw [hdecls]
  refine .bind (members_narrow hp hg h _) fun fields => ?_
  cases fields with
  | nil => exact .stop _
  | cons f rest => exact .pure _

/-- A range becomes the same type if the ranges that it comes down to do. -/
theorem lowerStep_narrow {lower lower' : List String → String → Step ValueType}
    (h : ∀ building range, SameOutcome (lower' building range) (lower building range))
    (building : List String) (range : String) :
    SameOutcome (l.narrow.lowerStep hasGeo lower' building range)
      (l.lowerStep hasGeo lower building range) := by
  have hget : l.narrow.graph.get? range = (l.graph.get? range).map (TypeNode.narrow l.policy) :=
    TypeGraph.get?_narrow l.policy l.graph range
  have hcontains : l.narrow.graph.contains = l.graph.contains :=
    TypeGraph.contains_narrow l.policy l.graph
  have hpolicy : l.narrow.policy = l.policy := rfl
  unfold Lowering.lowerStep
  rw [hget, hcontains, hpolicy]
  cases l.policy.builtinTypes.get? range with
  | some type => exact .pure type
  | none =>
    cases l.graph.get? range with
    | none => exact .stop _
    | some node =>
      have hkind : (node.narrow l.policy).classification = node.classification := rfl
      have hliterals : (node.narrow l.policy).literals = node.literals := rfl
      dsimp only [Option.map_some]
      rw [hkind, hliterals]
      -- A list, an enumeration, a struct, or else a type that is referred to.
      split
      · split
        · exact .bind (h _ _) fun _ => .pure _
        · exact .bind (.report _ _) fun _ => .pure _
      split
      · exact .pure _
      split
      · split
        · exact .bind (.report _ _) fun _ => .pure _
        · exact compound_narrow hp hg (h _) range
      · exact .pure _

/-- A range becomes the same type in any number of steps. -/
theorem lowerRange_narrow (n : Nat) (building : List String) (range : String) :
    SameOutcome (l.narrow.lowerRange hasGeo n building range)
      (l.lowerRange hasGeo n building range) := by
  induction n generalizing building range with
  | zero => exact .stop _
  | succ n ih => exact lowerStep_narrow hp hg ih building range

/-- Properties become the same arguments. -/
theorem addArguments_narrow (type : String) (fields : List Field)
    (entries : List (String × PropertyDecl)) :
    SameOutcome (l.narrow.addArguments type hasGeo fields
        (entries.map fun e => (e.1, e.2.narrow l.policy)))
      (l.addArguments type hasGeo fields entries) := by
  have hdepth : l.narrow.depth = l.depth := by
    unfold depth narrow
    rw [TypeGraph.size_narrow]
  have hlower (range : String) :
      SameOutcome (l.narrow.lowerArgument hasGeo range) (l.lowerArgument hasGeo range) := by
    unfold lowerArgument
    rw [hdepth]
    exact lowerRange_narrow hp hg l.depth [] range
  induction entries generalizing fields with
  | nil => exact .pure fields
  | cons e rest ih =>
    obtain ⟨name, decl⟩ := e
    rw [List.map_cons]
    unfold Lowering.addArguments
    dsimp only
    change SameOutcome (if fields.any (fun f => f.name = l.policy.escapeKeyword name) then _ else _)
      _
    split
    · exact .bind (.report _ _) fun _ => ih fields
    · refine .bind (property_narrow hp hg hlower name decl) fun field? => ?_
      cases field? with
      | none => exact ih fields
      | some f => exact ih _

/-- A type becomes the same query. -/
theorem query_narrow (node : TypeNode) :
    SameOutcome (l.narrow.query (node.narrow l.policy)) (l.query node) := by
  have hgeo : (node.narrow l.policy).properties.contains l.policy.geoProperty =
      node.properties.contains l.policy.geoProperty :=
    OrderedMap.contains_mapWithKey _ node.properties _
  unfold Lowering.query
  -- The narrowed type has the same name and parents, and its properties under the same names.
  change SameOutcome (do
    let fields ← l.narrow.addArguments node.name
      ((node.narrow l.policy).properties.contains l.policy.geoProperty)
      (l.syntheticFields node.name)
      (node.properties.entries.map fun e => (e.1, e.2.narrow l.policy))
    _) _
  rw [hgeo]
  exact .bind (addArguments_narrow hp hg node.name _ node.properties.entries) fun _ => .pure _

/-- Types become the same queries. -/
theorem queries_narrow (ids : List Nat) :
    SameOutcome (l.narrow.queries ids) (l.queries ids) := by
  induction ids with
  | nil => exact .pure []
  | cons id rest ih =>
    unfold Lowering.queries
    have hnode : l.narrow.graph.node? id = (l.graph.node? id).map (TypeNode.narrow l.policy) :=
      TypeGraph.node?_narrow l.policy l.graph id
    rw [hnode]
    cases l.graph.node? id with
    | none => exact ih
    | some node =>
      exact .bind (query_narrow hp hg node) fun q => .bind ih fun qs => .pure (q :: qs)

/-- The class is the same. -/
theorem classDefinition_narrow : SameOutcome l.narrow.classDefinition l.classDefinition := by
  unfold Lowering.classDefinition
  have horder : l.narrow.graph.emissionOrder l.narrow.policy = l.graph.emissionOrder l.policy :=
    TypeGraph.emissionOrder_narrow l.policy l.graph
  rw [horder]
  exact .bind (queries_narrow hp hg _) fun _ => .pure _

end

end Lowering

namespace Compiler

/-- The class that is compiled is that of the analyzed graph, whatever the analysis noted. -/
theorem map_definition_compile (c : Compiler) :
    c.compile.map Compiled.definition =
      ((Lowering.mk (TypeGraph.analyze c.policy c.facts).1 c.policy c.options).classDefinition.run
        (TypeGraph.analyze c.policy c.facts).2).map Prod.fst := by
  unfold compile
  generalize TypeGraph.analyze c.policy c.facts = analyzed
  obtain ⟨graph, notes⟩ := analyzed
  dsimp only
  cases (Lowering.mk graph c.policy c.options).classDefinition.run notes <;> rfl

/-- Exclusion leaves no trace. If the policy leaves out neither a type that is built in nor the text
type, then facts are compiled into the same class, or stop with the same error, as what is left of
them without superseded facts, facts with the name of a type that is built in or left out,
properties that are left out, and mentions of types that are left out. -/
theorem compile_purge (c : Compiler) (hp : c.policy.SparesDataTypes) :
    ({ c with facts := Fact.purge c.policy c.facts } : Compiler).compile.map Compiled.definition =
      c.compile.map Compiled.definition := by
  rw [map_definition_compile, map_definition_compile]
  dsimp only
  rw [TypeGraph.fst_analyze_purge]
  -- Only the class is compared, so each run may start from the notes of its own analysis.
  exact Lowering.classDefinition_narrow (l := ⟨_, c.policy, c.options⟩) hp
    (TypeGraph.forgets_analyze c.policy c.facts) _ _

/-- Places with a size, among facts and names that do not count. -/
def clutteredPlaces : List Fact :=
  [.classFact "Thing" [] "" false,
    .classFact "BedType" ["Thing"] "" false,
    .classFact "Place" ["BedType", "Thing"] "" false,
    .classFact "Text" ["Place"] "" false,
    .classFact "Venue" ["Place"] "" true,
    .propertyFact "size" ["BedType", "Place"] ["PropertyValue", "Number"] "" false,
    .propertyFact "sameAs" ["Place"] ["URL"] "" false,
    .literalFact "PropertyValue" "Place" false]

/-- Of these facts two types and a property are left, and they are compiled into the same class. -/
theorem compile_purge_clutteredPlaces :
    Policy.standard.SparesDataTypes ∧
      Fact.purge .standard clutteredPlaces =
        [.classFact "Thing" [] "" false, .classFact "Place" ["Thing"] "" false,
          .propertyFact "size" ["Place"] ["Number"] "" false] ∧
      (Compiler.mk .standard {} (Fact.purge .standard clutteredPlaces)).compile.map
          Compiled.definition =
        (Compiler.mk .standard {} clutteredPlaces).compile.map Compiled.definition := by
  have hp : Policy.standard.SparesDataTypes := by decide
  have hpurge : Fact.purge .standard clutteredPlaces =
      [.classFact "Thing" [] "" false, .classFact "Place" ["Thing"] "" false,
        .propertyFact "size" ["Place"] ["Number"] "" false] := by decide
  exact ⟨hp, hpurge, compile_purge ⟨.standard, {}, clutteredPlaces⟩ hp⟩

end Compiler

end VocabularyCompiler

import Mathlib.Data.Nat.Find
import VocabularyCompiler.Proofs.TypeGraph.Inheritance

/-!
# The properties of a struct

A struct has the properties that are declared on the types that the walk from it may visit, each of
them once, and the walk ends by itself (`names_structProperties`). Of several declarations of a
property the leftmost one counts. That is not always the one of a closest type: it is, unless the
ways from the struct to two declarations part at some type (`structProperties_leftmost`).
-/

namespace VocabularyCompiler.TypeGraph

open Relation (ReflTransGen)

variable {g : TypeGraph} {p : Policy} {everything : Bool} {k s : String}

/-- The type `a` declares the parent `b`, lies under a struct root and is none itself. -/
def DeclaresBelowRoot (g : TypeGraph) (p : Policy) (a b : String) : Prop :=
  ∃ n, g.get? a = some n ∧ b ∈ n.parents ∧ n.classification.isStructSubtype = true ∧
    a ∉ p.structRoots

/-- The walk to the properties of the type `s` may visit the type `n`, of the name `a`. If `s` asks
for the properties of every ancestor, that is every type that `s` extends, and `s` itself. Otherwise
it is a type under a struct root, and so is every type on the way to it, none of which is a struct
root itself. -/
def Visits (g : TypeGraph) (p : Policy) (s a : String) (n : TypeNode) : Prop :=
  g.get? a = some n ∧
    if p.structIncludeRootProperties.contains s = true then ReflTransGen g.Declares s a
    else n.classification.isStructSubtype = true ∧ ReflTransGen (g.DeclaresBelowRoot p) s a

/-- A walk that takes everything climbs to every declared parent. -/
theorem climbs_true : g.Climbs p true = g.Declares := by
  funext a b
  refine propext ⟨?_, ?_⟩
  · rintro ⟨n, hn, hb, -⟩
    exact ⟨n, hn.found, hb⟩
  · rintro ⟨n, hn, hb⟩
    exact ⟨n, ⟨hn, Or.inl rfl⟩, hb, Or.inl rfl⟩

/-- Any other walk climbs from types under a struct root, but not from a struct root. -/
theorem climbs_false : g.Climbs p false = g.DeclaresBelowRoot p := by
  funext a b
  refine propext ⟨?_, ?_⟩
  · rintro ⟨n, hn, hb, hroot⟩
    exact ⟨n, hn.found, hb, by simpa using hn.struct, by simpa using hroot⟩
  · rintro ⟨n, hn, hb, hstruct, hroot⟩
    exact ⟨n, ⟨hn, Or.inr hstruct⟩, hb, Or.inr hroot⟩

/-- The walk visits what it can climb to and takes the properties of. -/
theorem visits_iff {a : String} {n : TypeNode} : g.Visits p s a n ↔
    ReflTransGen (g.Climbs p (p.structIncludeRootProperties.contains s)) s a ∧
      g.Contributes (p.structIncludeRootProperties.contains s) a n := by
  unfold Visits
  cases p.structIncludeRootProperties.contains s with
  | true =>
    rw [if_pos rfl, climbs_true]
    exact ⟨fun h => ⟨h.2, h.1, Or.inl rfl⟩, fun h => ⟨h.2.found, h.1⟩⟩
  | false =>
    rw [if_neg Bool.false_ne_true, climbs_false]
    exact ⟨fun h => ⟨h.2.2, h.1, Or.inr h.2.1⟩,
      fun h => ⟨h.2.found, h.2.struct.resolve_left Bool.false_ne_true, h.1⟩⟩

/-- To climb is to go to a declared parent. -/
theorem Climbs.declares {a b : String} (h : g.Climbs p everything a b) : g.Declares a b := by
  obtain ⟨n, hn, hb, -⟩ := h
  exact ⟨n, hn.found, hb⟩

/-- The walk climbs the leftmost way. -/
theorem Leftmost.climbs {avoid : List String} {a b : String}
    (h : g.Leftmost p everything k avoid a b) : ReflTransGen (g.Climbs p everything) a b := by
  induction h with
  | here => exact .refl
  | above _ hn _ hroot hparents _ _ ih => exact ih.head ⟨_, hn, by simp [hparents], hroot⟩

/-! ## What is collected -/

/-- A walk from a type takes the declaration where the leftmost way ends, or there is none to take,
if there are more steps than types. -/
theorem finds_collect {n : Nat} (hn : g.size < n) :
    g.Finds p everything k [] s (g.collect p everything n {} s) :=
  collect_leftmost ((g.unseen_names_le _).trans_lt hn) ⟨by simp, rfl, by simp, by simp⟩

/-- What a walk takes is declared where the leftmost way ends, if there are more steps than
types. -/
theorem get?_collect_eq_some_iff {n : Nat} (hn : g.size < n) {d : PropertyDecl} :
    (g.collect p everything n {} s).properties.get? k = some d ↔
      ∃ a, g.Leftmost p everything k [] s a ∧ g.Offers everything k a d := by
  rcases finds_collect hn with ⟨b, e, hleft, hoffers, hfound⟩ | ⟨hvain, hfruitless⟩
  · rw [hfound, Option.some_inj]
    constructor
    · rintro rfl
      exact ⟨b, hleft, hoffers⟩
    · rintro ⟨a, hleft', hoffers'⟩
      obtain rfl := hleft.unique hleft'
      exact hoffers.unique hoffers'
  · rw [hfruitless.unfound]
    constructor
    · exact fun h => nomatch h
    · rintro ⟨a, hleft, -⟩
      exact absurd hleft.leadsTo hvain

/-- There is a leftmost way if there is any. -/
theorem exists_leftmost {a : String} {d : PropertyDecl}
    (hway : ReflTransGen (g.Climbs p everything) s a) (hoffers : g.Offers everything k a d) :
    ∃ b e, g.Leftmost p everything k [] s b ∧ g.Offers everything k b e := by
  have hleads : g.LeadsTo p everything k [] s :=
    ⟨List.not_mem_nil, a, d,
      ReflTransGen.mono (fun _ _ h => ⟨h, List.not_mem_nil⟩) _ _ hway, hoffers⟩
  rcases finds_collect g.size.lt_succ_self with ⟨b, e, hleft, hoffers', -⟩ | ⟨hvain, -⟩
  · exact ⟨b, e, hleft, hoffers'⟩
  · exact absurd hleads hvain

/-- The properties of a struct are declared where the leftmost way to a declaration of each ends. -/
theorem mem_structProperties_iff (hg : g.DeclaresByName) {d : PropertyDecl} :
    d ∈ g.structProperties p s ↔
      ∃ a, g.Leftmost p (p.structIncludeRootProperties.contains s) d.name [] s a ∧
        g.Offers (p.structIncludeRootProperties.contains s) d.name a d := by
  have hkeyed := keyedByName_collect (p := p) hg (p.structIncludeRootProperties.contains s)
    (g.size + 1) {} s (by rintro e ⟨⟩)
  rw [← get?_collect_eq_some_iff g.size.lt_succ_self, structProperties, OrderedMap.mem_values_iff]
  constructor
  · rintro ⟨k, hget⟩
    have hname : d.name = k := hkeyed _ (OrderedMap.get?_eq_some_iff.1 hget)
    rwa [hname]
  · exact fun hget => ⟨d.name, hget⟩

/-- The properties of a struct are those of the types that the walk may visit. -/
theorem mem_names_structProperties_iff (hg : g.DeclaresByName) :
    k ∈ (g.structProperties p s).map PropertyDecl.name ↔
      ∃ a n, g.Visits p s a n ∧ n.properties.contains k = true := by
  rw [List.mem_map]
  constructor
  · rintro ⟨d, hd, rfl⟩
    obtain ⟨a, hleft, n, hn, hget⟩ := (mem_structProperties_iff hg).1 hd
    refine ⟨a, n, visits_iff.2 ⟨hleft.climbs, hn⟩, ?_⟩
    rw [OrderedMap.contains_eq_isSome_get?, hget, Option.isSome_some]
  · rintro ⟨a, n, hvisits, hcontains⟩
    obtain ⟨hway, hn⟩ := visits_iff.1 hvisits
    rw [OrderedMap.contains_eq_isSome_get?, Option.isSome_iff_exists] at hcontains
    obtain ⟨d, hd⟩ := hcontains
    obtain ⟨b, e, hleft, m, hm, he⟩ := exists_leftmost hway ⟨n, hn, hd⟩
    -- The property stands under its own name.
    obtain ⟨⟨i, hi⟩, -⟩ := get?_eq_some_iff.1 hm.found
    obtain rfl : e.name = k := hg i m hi _ (OrderedMap.get?_eq_some_iff.1 he)
    exact ⟨e, (mem_structProperties_iff hg).2 ⟨b, hleft, m, hm, he⟩, rfl⟩

/-! ## Demotion -/

/-- Types of one name in graphs that differ in nothing but their structs differ in nothing else. -/
theorem SameButStructs.map_get? {h : TypeGraph} (hg : g.SameButStructs h) (name : String) :
    (g.get? name).map (TypeNode.withStruct false) =
      (h.get? name).map (TypeNode.withStruct false) := by
  have hfind : ∀ f : TypeGraph, (f.get? name).map (TypeNode.withStruct false) =
      (f.nodes.map (TypeNode.withStruct false)).find? fun n => n.name = name := by
    intro f
    rw [List.find?_map]
    rfl
  rw [hfind, hfind, hg]

/-- A walk does not ask which types are written in place. -/
theorem SameButStructs.collect_eq {h : TypeGraph} (hg : g.SameButStructs h) (n : Nat) :
    g.collect p everything n = h.collect p everything n := by
  induction n with
  | zero => rfl
  | succ n ih =>
    funext c a
    have hnode := hg.map_get? a
    unfold collect
    rw [ih]
    cases hg : g.get? a with
    | none =>
      cases hh : h.get? a with
      | none => rfl
      | some m => simp [hg, hh] at hnode
    | some m =>
      cases hh : h.get? a with
      | none => simp [hg, hh] at hnode
      | some m' =>
        rw [hg, hh, Option.map_some, Option.map_some, Option.some_inj] at hnode
        rw [TypeNode.withStruct, TypeNode.withStruct, TypeNode.mk.injEq, Classification.mk.injEq]
          at hnode
        obtain ⟨-, hparents, hproperties, -, -, -, -, -, -, hkind, -⟩ := hnode
        simp only [Collection.add, hparents, hproperties, hkind]

/-- A struct keeps its properties when types are demoted. -/
theorem SameButStructs.structProperties_eq {h : TypeGraph} (hg : g.SameButStructs h) :
    g.structProperties p = h.structProperties p := by
  funext name
  rw [structProperties, structProperties, hg.size_eq, hg.collect_eq]

/-- In an analyzed graph the walk to the properties of a type ends by itself: it collects the same
however many more steps up it is allowed than there are types. It collects no property twice, and
those that are declared on the types that it may visit; and it would have collected them just so
before types were demoted for the sake of containment cycles. -/
theorem names_structProperties (p : Policy) (facts : List Fact) (s : String) :
    (∀ n, (analyze p facts).1.size < n →
      ((analyze p facts).1.collect p (p.structIncludeRootProperties.contains s) n {}
        s).properties.values = (analyze p facts).1.structProperties p s) ∧
    (((analyze p facts).1.structProperties p s).map PropertyDecl.name).Nodup ∧
    (∀ k, k ∈ ((analyze p facts).1.structProperties p s).map PropertyDecl.name ↔
      ∃ a n, (analyze p facts).1.Visits p s a n ∧ n.properties.contains k = true) ∧
    (analyze p facts).1.structProperties p s =
      ((build p facts).1.classify p).1.structProperties p s := by
  have hdeclares := declaresByName_analyze p facts
  have hsame := (((build p facts).1.classify p).1.isStruct_resolveCycles_iff p).1
  refine ⟨fun n hn => ?_, nodup_structProperties hdeclares s,
    fun k => mem_names_structProperties_iff hdeclares, ?_⟩
  · have hnames := (analyze p facts).1.unseen_names_le []
    rw [structProperties,
      collect_eq_of_unseen_lt (hnames.trans_lt hn) (Nat.lt_succ_of_le hnames)]
  · exact congrFun (SameButStructs.structProperties_eq hsame) s

/-! ## Closest declarations -/

/-- A chain of `n` declared parents leads from the type `a` up to the type `b`. -/
inductive StepsUp (g : TypeGraph) : Nat → String → String → Prop where
  | refl {a : String} : StepsUp g 0 a a
  | step {n : Nat} {a b c : String} (h : g.Declares a b) (hrest : StepsUp g n b c) :
      StepsUp g (n + 1) a c

/-- The declaration `d` is the one of a closest type: of the types that the walk from the type `s`
may visit and that declare the property, none is fewer steps up from `s`. -/
def IsClosest (g : TypeGraph) (p : Policy) (s : String) (d : PropertyDecl) : Prop :=
  ∃ a n i, g.Visits p s a n ∧ n.properties.get? d.name = some d ∧ g.StepsUp i s a ∧
    ∀ b m j, g.Visits p s b m → m.properties.contains d.name = true → g.StepsUp j s b → i ≤ j

/-- The type `a`, or one that it extends, declares the property `k` where the walk from the type `s`
may visit it. -/
def LeadsUp (g : TypeGraph) (p : Policy) (s k a : String) : Prop :=
  ∃ b n, ReflTransGen g.Declares a b ∧ g.Visits p s b n ∧ n.properties.contains k = true

/-- At some type on the walk from the type `s` the ways to declarations of the property `k` part:
two of its parents lead to one. -/
def Forks (g : TypeGraph) (p : Policy) (s k : String) : Prop :=
  ∃ a b c, b ≠ c ∧
    ReflTransGen (g.Climbs p (p.structIncludeRootProperties.contains s)) s a ∧
      g.Declares a b ∧ g.Declares a c ∧ g.LeadsUp p s k b ∧ g.LeadsUp p s k c

/-- A chain of parents has a number of steps. -/
theorem exists_stepsUp {a b : String} (h : ReflTransGen g.Declares a b) : ∃ n, g.StepsUp n a b := by
  induction h using ReflTransGen.head_induction_on with
  | refl => exact ⟨0, .refl⟩
  | head hac _ ih =>
    obtain ⟨n, hn⟩ := ih
    exact ⟨n + 1, .step hac hn⟩

/-- Steps up make a chain of parents. -/
theorem StepsUp.reflTransGen {n : Nat} {a b : String} (h : g.StepsUp n a b) :
    ReflTransGen g.Declares a b := by
  induction h with
  | refl => exact .refl
  | step h _ ih => exact ih.head h

/-- Where the ways do not part, the leftmost one ends no later than any other. -/
theorem Leftmost.exists_stepsUp_le {avoid : List String} {a b c : String} {m : TypeNode} {j : Nat}
    (h : g.Leftmost p (p.structIncludeRootProperties.contains s) k avoid a b)
    (ha : ReflTransGen (g.Climbs p (p.structIncludeRootProperties.contains s)) s a)
    (hforks : ¬g.Forks p s k) (hc : g.Visits p s c m) (hm : m.properties.contains k = true)
    (hj : g.StepsUp j a c) : ∃ i ≤ j, g.StepsUp i a b := by
  induction h generalizing j with
  | here => exact ⟨0, Nat.zero_le j, .refl⟩
  | @above avoid before after a b' b n _ hn hnone hroot hparents _ hleft ih =>
    have hclimbs : g.Climbs p (p.structIncludeRootProperties.contains s) a b' :=
      ⟨n, hn, by simp [hparents], hroot⟩
    cases hj with
    | refl =>
      obtain rfl := hn.unique hc.1
      simp [OrderedMap.contains_eq_isSome_get?, hnone] at hm
    | @step j _ x _ hax hxc =>
      -- Both the parent that the leftmost way goes into and that of the other way lead on.
      obtain ⟨d, l, hl, hd⟩ := hleft.exists_offers
      have hend : g.LeadsUp p s k b' := by
        refine ⟨b, l, ReflTransGen.mono (fun _ _ h => h.declares) _ _ hleft.climbs,
          visits_iff.2 ⟨(ha.tail hclimbs).trans hleft.climbs, hl⟩, ?_⟩
        rw [OrderedMap.contains_eq_isSome_get?, hd, Option.isSome_some]
      have hother : g.LeadsUp p s k x := ⟨c, m, hxc.reflTransGen, hc, hm⟩
      have hsame : x = b' := by
        by_contra hne
        exact hforks ⟨a, x, b', hne, ha, hax, hclimbs.declares, hother, hend⟩
      subst hsame
      obtain ⟨i, hi, hsteps⟩ := ih (ha.tail hclimbs) hxc
      exact ⟨i + 1, Nat.succ_le_succ hi, .step hclimbs.declares hsteps⟩

/-- In an analyzed graph a declaration is among the properties of a type if and only if it is the
one where the leftmost way up from that type to a declaration of its property ends. It is that of a
closest type, or else the ways to declarations of the property part at some type. -/
theorem structProperties_leftmost (p : Policy) (facts : List Fact) (s : String) (d : PropertyDecl) :
    (d ∈ (analyze p facts).1.structProperties p s ↔
      ∃ a, (analyze p facts).1.Leftmost p (p.structIncludeRootProperties.contains s) d.name [] s a ∧
        (analyze p facts).1.Offers (p.structIncludeRootProperties.contains s) d.name a d) ∧
    (d ∈ (analyze p facts).1.structProperties p s →
      (analyze p facts).1.IsClosest p s d ∨ (analyze p facts).1.Forks p s d.name) := by
  have hmem := mem_structProperties_iff (p := p) (s := s) (d := d) (declaresByName_analyze p facts)
  refine ⟨hmem, fun hd => or_iff_not_imp_right.2 fun hforks => ?_⟩
  obtain ⟨a, hleft, n, hn, hget⟩ := hmem.1 hd
  generalize (analyze p facts).1 = g at hleft hn hforks ⊢
  have hsteps := exists_stepsUp (ReflTransGen.mono (fun _ _ h => h.declares) _ _ hleft.climbs)
  classical
  refine ⟨a, n, Nat.find hsteps, visits_iff.2 ⟨hleft.climbs, hn⟩, hget, Nat.find_spec hsteps, ?_⟩
  intro b m j hb hm hj
  obtain ⟨i, hij, hi⟩ := hleft.exists_stepsUp_le .refl hforks hb hm hj
  exact (Nat.find_min' hsteps hi).trans hij

/-- Widths are lengths, and graded. Measurements, which lengths are, come with a unit in words, and
what is graded with a number for a unit. -/
def gradedWidths : List Fact :=
  [.classFact "Thing" [] "" false,
    .classFact "StructuredValue" ["Thing"] "" false,
    .classFact "Measurement" ["StructuredValue"] "" false,
    .classFact "Length" ["Measurement"] "" false,
    .classFact "Graded" ["StructuredValue"] "" false,
    .classFact "Width" ["Length", "Graded"] "" false,
    .propertyFact "unit" ["Measurement"] ["Text"] "" false,
    .propertyFact "unit" ["Graded"] ["Number"] "" false]

/-- The unit in words is not declared by the closest type: what is graded is one step up from
widths, and measurements are two. -/
theorem not_isClosest_wordedUnit :
    ¬(analyze .standard gradedWidths).1.IsClosest .standard "Width" ⟨"unit", ["Text"], ""⟩ := by
  rintro ⟨a, n, i, ⟨hn, -⟩, hdecl, hsteps, hmin⟩
  obtain ⟨width, hwidth, hparents⟩ :
      ∃ width, (analyze .standard gradedWidths).1.get? "Width" = some width ∧
        width.parents = ["Length", "Graded"] :=
    Option.map_eq_some_iff.1 (by decide +kernel)
  obtain ⟨graded, hgraded, hoffers⟩ :
      ∃ graded, (analyze .standard gradedWidths).1.get? "Graded" = some graded ∧
        (graded.classification.isStructSubtype && graded.properties.contains "unit") = true :=
    Option.any_eq_true _ _ |>.1 (by decide +kernel)
  have hup : (analyze .standard gradedWidths).1.Declares "Width" "Graded" :=
    ⟨width, hwidth, by simp [hparents]⟩
  rw [Bool.and_eq_true] at hoffers
  have hi : i ≤ 1 := by
    refine hmin "Graded" graded 1 (visits_iff.2 ⟨?_, hgraded, Or.inr hoffers.1⟩) hoffers.2
      (.step hup .refl)
    have hstruct : width.classification.isStructSubtype = true := by
      have hkind : (((analyze .standard gradedWidths).1.get? "Width").any fun n =>
        n.classification.isStructSubtype) = true := by decide +kernel
      rwa [hwidth] at hkind
    refine .single ⟨width, ⟨hwidth, Or.inr hstruct⟩, by simp [hparents], Or.inr ?_⟩
    decide
  -- Nothing but measurements declares it, and they are no parent of widths.
  have hname : a = "Measurement" := by
    have hall : ∀ n ∈ (analyze .standard gradedWidths).1.nodes,
        n.properties.get? "unit" = some ⟨"unit", ["Text"], ""⟩ → n.name = "Measurement" := by
      decide +kernel
    obtain ⟨⟨j, hj⟩, rfl⟩ := get?_eq_some_iff.1 hn
    exact hall n (List.mem_of_getElem? hj) hdecl
  cases hsteps with
  | refl => exact absurd hname (by decide)
  | @step i _ b _ hb hrest =>
    obtain rfl : i = 0 := by omega
    obtain ⟨m, hm, hmem⟩ := hb
    obtain rfl := Option.some_inj.1 (hwidth.symm.trans hm)
    cases hrest
    rw [hparents, hname] at hmem
    exact absurd hmem (by decide)

/-- Widths have the unit in words, and the ways to the two units part. -/
theorem structProperties_leftmost_gradedWidths :
    (⟨"unit", ["Text"], ""⟩ : PropertyDecl) ∈
      (analyze .standard gradedWidths).1.structProperties .standard "Width" ∧
    (analyze .standard gradedWidths).1.Forks .standard "Width" "unit" := by
  have hmem : (⟨"unit", ["Text"], ""⟩ : PropertyDecl) ∈
      (analyze .standard gradedWidths).1.structProperties .standard "Width" := by decide +kernel
  have hclosest := (structProperties_leftmost .standard gradedWidths "Width"
    ⟨"unit", ["Text"], ""⟩).2 hmem
  exact ⟨hmem, hclosest.resolve_left not_isClosest_wordedUnit⟩

/-- The struct of widths, which does not ask for the properties of every ancestor, takes a
declaration that is not that of a closest type. -/
theorem fartherUnit_taken :
    (analyze .standard gradedWidths).1.representsAsStruct "Width" = true ∧
    Policy.standard.structIncludeRootProperties.contains "Width" = false ∧
    ∃ d ∈ (analyze .standard gradedWidths).1.structProperties .standard "Width",
      ¬(analyze .standard gradedWidths).1.IsClosest .standard "Width" d := by
  refine ⟨by decide +kernel, by decide, ⟨"unit", ["Text"], ""⟩, by decide +kernel, ?_⟩
  exact not_isClosest_wordedUnit

end VocabularyCompiler.TypeGraph

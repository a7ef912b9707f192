import VocabularyCompiler.Proofs.Lowering.Choice
import VocabularyCompiler.Proofs.TypeGraph.Nodes

/-!
# What a choice depends on

Which rank a range has is told from what the range is, and of the ranges of a property the first one
of the greatest rank is chosen. So a choice depends on the ranges of each rank and on their order
among themselves, and not on how ranges of different ranks are mixed, nor on unrecognized ones
(`fst_choose_congr`). What becomes of the chosen range is told by `HasShape`: the table of types
comes before the rule for quantities, and that before the rule for lists. Of the articles only the
indefinite ones tell that there may be several values.
-/

namespace VocabularyCompiler

/-- Whether a range is the type of an enumeration. -/
def Choice.isEnumeration (g : TypeGraph) (range : String) : Bool :=
  (g.get? range).any fun n => n.classification.isEnum

namespace RangeRank

/-- Different ranks are not equally strong. -/
theorem strength_injective : Function.Injective strength := by
  intro r s h
  cases r <;> cases s <;> first | rfl | cases h

/-- What a range is that has the rank. To be an enumeration comes before everything else, and to be
the text type comes before being built in or in the graph. -/
def Describes (g : TypeGraph) (p : Policy) (range : String) : RangeRank → Prop
  | enum => Choice.isEnumeration g range = true
  | genericText => Choice.isEnumeration g range = false ∧ range = p.textType
  | builtinScalar =>
    Choice.isEnumeration g range = false ∧ range ≠ p.textType ∧ p.isBuiltin range = true
  | struct => Choice.isEnumeration g range = false ∧ range ≠ p.textType ∧
      p.isBuiltin range = false ∧ g.representsAsStruct range = true
  | otherKnown => Choice.isEnumeration g range = false ∧ range ≠ p.textType ∧
      p.isBuiltin range = false ∧ g.representsAsStruct range = false ∧ g.contains range = true
  | unrecognized => ¬Recognized g p range

/-- A range has the rank that describes it, and no other. -/
theorem of_eq_iff_describes {g : TypeGraph} {p : Policy} {range : String} {r : RangeRank} :
    of g p range = r ↔ r.Describes g p range := by
  have hcontains : g.contains range = (g.get? range).isSome := by
    rw [TypeGraph.contains, TypeGraph.get?, List.isSome_find?]
  cases r with
  | unrecognized => exact of_eq_unrecognized_iff
  | _ =>
    unfold of Describes Choice.isEnumeration TypeGraph.representsAsStruct
    rw [hcontains]
    cases g.get? range with
    | none => by_cases htext : range = p.textType <;> cases p.isBuiltin range <;> simp [htext]
    | some n =>
      by_cases htext : range = p.textType <;> cases p.isBuiltin range <;>
        cases henum : n.classification.isEnum <;>
          cases hstruct : n.classification.representAsStruct <;> simp [htext, henum, hstruct]

end RangeRank

namespace Choice

variable {g : TypeGraph} {p : Policy} {name : String} {decl : PropertyDecl}

/-- Of the ranges the given one is the first of its rank, and none has a greater rank. -/
structure IsFirstBest (rank : String → RangeRank) (ranges : List String) (range : String) :
    Prop where
  greatest : ∀ r ∈ ranges, (rank r).strength ≤ (rank range).strength
  first : (ranges.filter fun r => rank r = rank range).head? = some range

namespace IsFirstBest

variable {rank : String → RangeRank} {ranges ranges' : List String} {range range' : String}

/-- The first of the best ranges is one of the ranges. -/
theorem mem (h : IsFirstBest rank ranges range) : range ∈ ranges :=
  (List.mem_filter.1 (List.mem_of_head? h.first)).1

/-- There is one first of the best ranges. -/
theorem unique (h : IsFirstBest rank ranges range) (h' : IsFirstBest rank ranges range') :
    range = range' := by
  have hrank : rank range = rank range' := RangeRank.strength_injective
    (Nat.le_antisymm (h'.greatest _ h.mem) (h.greatest _ h'.mem))
  have hfirst := h.first
  rw [hrank, h'.first] at hfirst
  exact (Option.some.inj hfirst).symm

/-- A range behind the first one is the first of the best if it outranks that one too. -/
theorem cons_of_lt (h : IsFirstBest rank ranges range) {r : String}
    (hlt : (rank r).strength < (rank range).strength) :
    IsFirstBest rank (r :: ranges) range where
  greatest := List.forall_mem_cons.2 ⟨Nat.le_of_lt hlt, h.greatest⟩
  first := by
    have hne : rank r ≠ rank range := fun heq => Nat.ne_of_lt hlt (congrArg _ heq)
    rw [List.filter_cons_of_neg (by simpa using hne), h.first]

/-- The first range is the first of the best if none outranks it. -/
theorem cons_self {r : String} (h : ∀ s ∈ ranges, (rank s).strength ≤ (rank r).strength) :
    IsFirstBest rank (r :: ranges) r where
  greatest := List.forall_mem_cons.2 ⟨le_rfl, h⟩
  first := by
    rw [List.filter_cons_of_pos (by simp), List.head?_cons]

end IsFirstBest

/-- The best range is the first of the best. -/
theorem best?_eq_some_iff {rank : String → RangeRank} {ranges : List String} {range : String} :
    best? rank ranges = some range ↔ IsFirstBest rank ranges range := by
  have hspec : ∀ r, best? rank ranges = some r → IsFirstBest rank ranges r := by
    induction ranges with
    | nil => exact fun r h => nomatch h
    | cons s rest ih =>
      intro r hr
      have hmax := best?_spec rank rest
      rw [best?] at hr
      cases hrest : best? rank rest with
      | none =>
        rw [hrest] at hr hmax
        obtain rfl := Option.some.inj hr
        exact .cons_self fun t ht => by rw [hmax] at ht; cases ht
      | some t =>
        rw [hrest] at hr hmax
        dsimp only at hr hmax
        split at hr
        next hlt =>
          obtain rfl := Option.some.inj hr
          exact (ih t hrest).cons_of_lt hlt
        next hle =>
          obtain rfl := Option.some.inj hr
          exact .cons_self fun u hu => (hmax.2 u hu).trans (Nat.le_of_not_lt hle)
  refine ⟨hspec range, fun h => ?_⟩
  cases hbest : best? rank ranges with
  | none =>
    have hnil := best?_spec rank ranges
    rw [hbest] at hnil
    exact absurd h.mem (by rw [hnil]; exact List.not_mem_nil)
  | some r => rw [(hspec r hbest).unique h]

/-- Ranges of which those of each rank are the same, in the same order, but for unrecognized
ones. -/
def SameRanked (rank : String → RangeRank) (ranges ranges' : List String) : Prop :=
  ∀ r ≠ RangeRank.unrecognized,
    (ranges.filter fun range => rank range = r) = ranges'.filter fun range => rank range = r

namespace SameRanked

variable {rank : String → RangeRank} {ranges ranges' : List String}

theorem symm (h : SameRanked rank ranges ranges') : SameRanked rank ranges' ranges :=
  fun r hr => (h r hr).symm

/-- To take out unrecognized ranges leaves those of each rank as they are. -/
theorem filter (rank : String → RangeRank) (ranges : List String) :
    SameRanked rank (ranges.filter fun r => rank r ≠ .unrecognized) ranges := by
  intro r hr
  rw [List.filter_filter]
  refine List.filter_congr fun s _ => ?_
  by_cases hs : rank s = r <;> simp [hs, hr]

/-- A range of some rank is among both or among none. -/
theorem mem_iff (h : SameRanked rank ranges ranges') {range : String}
    (hrange : rank range ≠ .unrecognized) : range ∈ ranges ↔ range ∈ ranges' := by
  have hmem : ∀ ranges : List String,
      range ∈ ranges ↔ range ∈ ranges.filter fun r => rank r = rank range := fun ranges => by
    simp [List.mem_filter]
  rw [hmem ranges, hmem ranges', h _ hrange]

/-- The first of the best ranges is the same, if it has a rank. -/
theorem isFirstBest (h : SameRanked rank ranges ranges') {range : String}
    (hrange : rank range ≠ .unrecognized) (hbest : IsFirstBest rank ranges range) :
    IsFirstBest rank ranges' range where
  greatest r hr := by
    by_cases hrank : rank r = .unrecognized
    · rw [hrank]
      exact Nat.zero_le _
    · exact hbest.greatest r ((h.mem_iff hrank).2 hr)
  first := by rw [← h _ hrange, hbest.first]

/-- There is a list type among both or among none. -/
theorem any_isList (h : SameRanked (RangeRank.of g p) ranges ranges') :
    ranges.any (isList g) = ranges'.any (isList g) := by
  have hrank : ∀ r, isList g r = true → RangeRank.of g p r ≠ .unrecognized := by
    intro r hr hnone
    obtain ⟨n, hn, -⟩ := (Option.any_eq_true _ _).1 hr
    exact RangeRank.of_eq_unrecognized_iff.1 hnone (.inr (.inr (TypeGraph.contains_iff.2 ⟨n, hn⟩)))
  rw [Bool.eq_iff_iff, List.any_eq_true, List.any_eq_true]
  exact exists_congr fun r => and_congr_left fun hr => h.mem_iff (hrank r hr)

end SameRanked

/-- A property is treated alike with ranges of which those of each rank are the same. -/
theorem fst_choose_congr {ranges : List String}
    (h : SameRanked (RangeRank.of g p) decl.ranges ranges) :
    (choose g p name { decl with ranges := ranges }).1 = (choose g p name decl).1 := by
  ext choice
  have hrank : Recognized g p choice.range → RangeRank.of g p choice.range ≠ .unrecognized :=
    fun hrecognized hnone => RangeRank.of_eq_unrecognized_iff.1 hnone hrecognized
  have hshape : shapeOf g p name { decl with ranges := ranges } choice.range =
      shapeOf g p name decl choice.range := by
    unfold shapeOf holdsSeveral
    rw [h.any_isList]
  rw [fst_choose_eq_some_iff, fst_choose_eq_some_iff, hshape, best?_eq_some_iff, best?_eq_some_iff]
  refine and_congr_right fun _ => and_congr_left fun hright => ?_
  exact ⟨h.symm.isFirstBest (hrank hright.1), h.isFirstBest (hrank hright.1)⟩

/-- A comment begins with one of the words, in letters of either case, and a space behind it. -/
def BeginsWith (words : List String) (comment : String) : Prop :=
  ∃ word ∈ words, word.toList ++ [' '] <+: comment.toList.map Text.lowerAscii

instance (words : List String) (comment : String) : Decidable (BeginsWith words comment) :=
  inferInstanceAs (Decidable (∃ word ∈ words, _))

/-- The articles that tell that there may be several values. -/
def indefiniteArticles : List String := ["a", "an"]

/-- The first characters of a comment tell whether it begins with an indefinite article. -/
theorem startsWithArticle_iff {comment : String} :
    startsWithArticle comment = true ↔ BeginsWith indefiniteArticles comment := by
  unfold startsWithArticle BeginsWith indefiniteArticles
  simp only [Bool.or_eq_true, List.isPrefixOf_iff_prefix, List.map_take, List.prefix_take_iff,
    List.exists_mem_cons_iff]
  simp

/-- What becomes of the chosen range of a property, where the given words in front of a comment tell
that there may be several values. -/
structure HasShape (articles : List String) (g : TypeGraph) (p : Policy) (name : String)
    (decl : PropertyDecl) (choice : Choice) : Prop where
  /-- The table of types settles the type. -/
  override : ∀ type, p.typeOverrides.get? name = some type → choice.shape = .fixed type
  /-- A quantity is a number or a duration. -/
  quantity : p.typeOverrides.get? name = none → choice.range = p.quantitativeType →
    choice.shape = .fixed .number ∨ choice.shape = .fixed (.measure "ms")
  /-- Anything else is lowered, to a list or not. -/
  lowered : p.typeOverrides.get? name = none → choice.range ≠ p.quantitativeType →
    ∃ array, choice.shape = .lower array ∧ (array = true ↔
      isList g choice.range = false ∧ p.forceSingular.contains name = false ∧
        ((∃ r ∈ decl.ranges, isList g r = true) ∨ BeginsWith articles decl.comment ∨
          p.forceArray.contains name = true))

/-- A quantity is a number or a duration. -/
theorem quantity_eq_or (name : String) :
    (quantity name).1 = .number ∨ (quantity name).1 = .measure "ms" := by
  dsimp only [quantity]
  split_ifs <;> simp

/-- A choice has the shape that its range gets. -/
theorem hasShape_of_choose {choice : Choice} (h : (choose g p name decl).1 = some choice) :
    HasShape indefiniteArticles g p name decl choice := by
  have hshape := (fst_choose_eq_some_iff.1 h).2.2.2
  refine ⟨fun type htype => ?_, fun hnone hquantity => ?_, fun hnone hquantity => ?_⟩
  · rw [hshape, shapeOf, htype]
  · rw [shape_of_choose hnone h, if_pos hquantity]
    exact (quantity_eq_or name).imp (congrArg _) (congrArg _)
  · refine ⟨holdsSeveral g p name decl choice.range, ?_, ?_⟩
    · rw [shape_of_choose hnone h, if_neg hquantity]
    · simp only [holdsSeveral, Bool.and_eq_true, Bool.or_eq_true, Bool.not_eq_true',
        List.any_eq_true, startsWithArticle_iff, and_assoc, or_assoc]

/-- The choice for a property. It is dropped if and only if the policy leaves it out or none of its
ranges is an enumeration, the text type, built in or in the graph. Otherwise the first range of the
greatest rank is chosen, where an enumeration comes before a range that is built in, a struct, the
text type and any other type, in this order; the table of types settles its type, or it is a
quantity, or it is lowered, to a list if it is no list itself, the property is not forced to be
single, and one of its ranges is a list, its comment begins with an indefinite article, or it is
forced to be several. To take out the unrecognized ranges changes no choice, and neither does
another order of the ranges in which those of each rank stand as before. -/
theorem choose_exact (g : TypeGraph) (p : Policy) (name : String) (decl : PropertyDecl) :
    (∀ range r, RangeRank.of g p range = r ↔ r.Describes g p range) ∧
    ((choose g p name decl).1 = none ↔
      p.excludedProperties.contains name = true ∨ ∀ range ∈ decl.ranges,
        ¬(isEnumeration g range = true ∨ range = p.textType ∨ p.isBuiltin range = true ∨
          g.contains range = true)) ∧
    (∀ choice, (choose g p name decl).1 = some choice →
      IsFirstBest (RangeRank.of g p) decl.ranges choice.range ∧
        HasShape indefiniteArticles g p name decl choice) ∧
    (choose g p name { decl with
        ranges := decl.ranges.filter fun range => RangeRank.of g p range ≠ .unrecognized }).1 =
      (choose g p name decl).1 ∧
    ∀ ranges, (∀ r, (decl.ranges.filter fun range => RangeRank.of g p range = r) =
        ranges.filter fun range => RangeRank.of g p range = r) →
      (choose g p name { decl with ranges := ranges }).1 = (choose g p name decl).1 := by
  refine ⟨fun range r => RangeRank.of_eq_iff_describes, ?_, fun choice h => ⟨?_, ?_⟩, ?_, ?_⟩
  · rw [fst_choose_eq_none_iff]
    refine or_congr_right (forall₂_congr fun range _ => not_congr ?_)
    refine (or_iff_right_of_imp fun henum => ?_).symm
    obtain ⟨n, hn, -⟩ := (Option.any_eq_true _ _).1 henum
    exact Or.inr (Or.inr (TypeGraph.contains_iff.2 ⟨n, hn⟩))
  · exact best?_eq_some_iff.1 (fst_choose_eq_some_iff.1 h).2.1
  · exact hasShape_of_choose h
  · exact fst_choose_congr (SameRanked.filter _ _).symm
  · exact fun ranges h => fst_choose_congr fun r _ => h r

/-- A label, with ranges and a comment. -/
def label (ranges : List String) (comment : String) : PropertyDecl := ⟨"label", ranges, comment⟩

/-- Text is chosen for a label, and its comment alone tells whether there are several. -/
theorem fst_choose_label {ranges : List String} (comment : String)
    (hbest : best? (RangeRank.of ∅ .standard) ranges = some "Text")
    (hlist : ranges.any (isList ∅) = false) :
    (choose ∅ .standard "label" (label ranges comment)).1 =
      some ⟨"Text", .lower (startsWithArticle comment)⟩ := by
  have hoverride : Policy.standard.typeOverrides.get? "label" = none := by decide
  have hsingular : Policy.standard.forceSingular.contains "label" = false := by decide
  have harray : Policy.standard.forceArray.contains "label" = false := by decide
  have htext : isList ∅ "Text" = false := by decide
  have hquantity : "Text" ≠ Policy.standard.quantitativeType := by decide
  refine fst_choose_eq_some_iff.2 ⟨by decide, hbest, Or.inl rfl, ?_⟩
  rw [shapeOf, hoverride]
  dsimp only
  rw [if_neg hquantity, holdsSeveral, htext, hsingular, harray]
  simp [label, hlist]

/-- With a range that nothing declares in front or behind, a label with an indefinite article is a
list of texts. -/
theorem choose_exact_label :
    (choose ∅ .standard "label" (label ["Nowhere", "Text"] "A label of the item.")).1 =
      some ⟨"Text", .lower true⟩ ∧
    IsFirstBest (RangeRank.of ∅ .standard) ["Nowhere", "Text"] "Text" ∧
    (choose ∅ .standard "label" (label ["Text", "Nowhere"] "A label of the item.")).1 =
      some ⟨"Text", .lower true⟩ := by
  have hchoice : (choose ∅ .standard "label" (label ["Nowhere", "Text"]
      "A label of the item.")).1 = some ⟨"Text", .lower true⟩ :=
    fst_choose_label _ (by decide) (by decide)
  obtain ⟨-, -, hchosen, -, horder⟩ :=
    choose_exact ∅ .standard "label" (label ["Nowhere", "Text"] "A label of the item.")
  refine ⟨hchoice, (hchosen _ hchoice).1, ?_⟩
  rw [← hchoice]
  refine horder ["Text", "Nowhere"] fun r => ?_
  cases r <;> decide

/-- The definite article is an article too, but it does not tell that there may be several
values. -/
theorem not_hasShape_definiteArticle :
    ∃ choice, (choose ∅ .standard "label" (label ["Text"] "The label of the item.")).1 =
        some choice ∧ choice.shape = .lower false ∧
      BeginsWith ["a", "an", "the"] (label ["Text"] "The label of the item.").comment ∧
      ¬HasShape ["a", "an", "the"] ∅ .standard "label" (label ["Text"] "The label of the item.")
        choice := by
  refine ⟨⟨"Text", .lower false⟩, fst_choose_label _ (by decide) (by decide), rfl, by decide,
    fun h => ?_⟩
  obtain ⟨array, hshape, harray⟩ := h.lowered (by decide) (by decide)
  cases hshape
  exact Bool.false_ne_true (harray.2 ⟨by decide, by decide, Or.inr (Or.inl (by decide))⟩)

end Choice

end VocabularyCompiler

import Mathlib.Tactic.ByContra
import Mathlib.Tactic.SplitIfs
import VocabularyCompiler.Lowering.Choice

/-!
# Which range is chosen

A range is recognized if it is the text type, built in or a type of the graph. `choose` drops a
property if and only if the policy leaves it out or none of its ranges is recognized, and what it
chooses is recognized. A type that it settles comes from the table of types or is told from the name
of the property.
-/

namespace VocabularyCompiler

/-- A range may be chosen if it is the text type, built in or a type of the graph. -/
def Recognized (g : TypeGraph) (p : Policy) (range : String) : Prop :=
  range = p.textType ∨ p.isBuiltin range = true ∨ g.contains range = true

/-- Only an unrecognized range is as weak as an unrecognized one. -/
theorem RangeRank.strength_eq_zero_iff {r : RangeRank} : r.strength = 0 ↔ r = .unrecognized := by
  cases r <;> simp [RangeRank.strength]

/-- The ranges without a rank are those that are not recognized. -/
theorem RangeRank.of_eq_unrecognized_iff {g : TypeGraph} {p : Policy} {range : String} :
    RangeRank.of g p range = .unrecognized ↔ ¬Recognized g p range := by
  have hcontains : g.contains range = (g.get? range).isSome := by
    rw [TypeGraph.contains, TypeGraph.get?, List.isSome_find?]
  unfold RangeRank.of Recognized
  rw [hcontains]
  cases g.get? range with
  | none =>
    by_cases htext : range = p.textType
    · simp [htext]
    · by_cases hbuiltin : p.isBuiltin range = true <;> simp [htext, hbuiltin]
  | some n =>
    dsimp only
    have hrank : ∀ r : RangeRank, (r = .unrecognized ↔ ¬(range = p.textType ∨
        p.isBuiltin range = true ∨ (some n).isSome = true)) ↔ r ≠ .unrecognized :=
      fun r => by simp
    rw [hrank]
    split_ifs <;> simp

namespace Choice

variable {g : TypeGraph} {p : Policy} {name : String} {decl : PropertyDecl}

/-- Of ranges there is a best one, which none of them outranks. -/
theorem best?_spec (rank : String → RangeRank) (ranges : List String) :
    match best? rank ranges with
    | none => ranges = []
    | some r => r ∈ ranges ∧ ∀ s ∈ ranges, (rank s).strength ≤ (rank r).strength := by
  induction ranges with
  | nil => rfl
  | cons r rest ih =>
    unfold best?
    cases hbest : best? rank rest with
    | none =>
      rw [hbest] at ih
      subst ih
      simp
    | some s =>
      rw [hbest] at ih
      dsimp only at ih ⊢
      by_cases hlt : (rank r).strength < (rank s).strength
      · rw [if_pos hlt]
        refine ⟨List.mem_cons_of_mem _ ih.1, fun t ht => ?_⟩
        rcases List.mem_cons.1 ht with rfl | ht
        · exact Nat.le_of_lt hlt
        · exact ih.2 t ht
      · rw [if_neg hlt]
        refine ⟨List.mem_cons_self, fun t ht => ?_⟩
        rcases List.mem_cons.1 ht with rfl | ht
        · exact Nat.le_refl _
        · exact Nat.le_trans (ih.2 t ht) (Nat.le_of_not_lt hlt)

/-- What becomes of a range of a property once it is chosen. -/
def shapeOf (g : TypeGraph) (p : Policy) (name : String) (decl : PropertyDecl) (range : String) :
    Shape :=
  match p.typeOverrides.get? name with
  | some type => .fixed type
  | none =>
    if range = p.quantitativeType then .fixed (quantity name).1
    else .lower (holdsSeveral g p name decl range)

/-- What is chosen for a property that the policy does not leave out is its best range, if that is
recognized. -/
theorem fst_choose_eq_some_iff {choice : Choice} : (choose g p name decl).1 = some choice ↔
    p.excludedProperties.contains name = false ∧
      best? (RangeRank.of g p) decl.ranges = some choice.range ∧ Recognized g p choice.range ∧
        choice.shape = shapeOf g p name decl choice.range := by
  unfold choose
  by_cases hexcluded : p.excludedProperties.contains name = true
  · simp [hexcluded]
  rw [if_neg hexcluded]
  cases hbest : best? (RangeRank.of g p) decl.ranges with
  | none => simp
  | some best =>
    have hrank : RangeRank.of g p best = .unrecognized ↔ ¬Recognized g p best :=
      RangeRank.of_eq_unrecognized_iff
    dsimp only
    by_cases hrecognized : Recognized g p best
    · rw [if_neg fun h => hrank.1 h hrecognized]
      have hvalue : some (⟨best, shapeOf g p name decl best⟩ : Choice) = some choice ↔
          p.excludedProperties.contains name = false ∧ some best = some choice.range ∧
            Recognized g p choice.range ∧ choice.shape = shapeOf g p name decl choice.range := by
        obtain ⟨range, shape⟩ := choice
        constructor
        · intro h
          cases h
          exact ⟨Bool.eq_false_iff.2 hexcluded, rfl, hrecognized, rfl⟩
        · rintro ⟨-, hrange, -, hshape⟩
          cases hrange
          rw [← hshape]
      rw [← hvalue]
      unfold shapeOf
      cases p.typeOverrides.get? name with
      | some type => exact Iff.rfl
      | none =>
        dsimp only
        split <;> exact Iff.rfl
    · rw [if_pos (hrank.2 hrecognized)]
      simp only [reduceCtorEq, Option.some.injEq, false_iff, not_and]
      rintro - rfl hrange
      exact absurd hrange hrecognized

/-- The chosen range is recognized. -/
theorem recognized_of_choose {choice : Choice} (h : (choose g p name decl).1 = some choice) :
    Recognized g p choice.range :=
  (fst_choose_eq_some_iff.1 h).2.2.1

/-- A type that the choice settles comes from the table of types or is that of some quantity. -/
theorem type_of_choose {range : String} {type : ValueType}
    (h : (choose g p name decl).1 = some ⟨range, .fixed type⟩) :
    p.typeOverrides.get? name = some type ∨ type = (quantity name).1 := by
  have hshape := (fst_choose_eq_some_iff.1 h).2.2.2
  unfold shapeOf at hshape
  split at hshape
  next type' htype =>
    cases hshape
    exact Or.inl htype
  next =>
    split at hshape
    · cases hshape
      exact Or.inr rfl
    · cases hshape

/-- A property is dropped if and only if the policy leaves it out or none of its ranges is
recognized. -/
theorem fst_choose_eq_none_iff : (choose g p name decl).1 = none ↔
    p.excludedProperties.contains name = true ∨ ∀ r ∈ decl.ranges, ¬Recognized g p r := by
  have hspec := best?_spec (RangeRank.of g p) decl.ranges
  rw [Option.eq_none_iff_forall_ne_some]
  constructor
  · intro hnone
    by_contra hnot
    rw [not_or, Bool.not_eq_true] at hnot
    obtain ⟨hexcluded, hranges⟩ := hnot
    cases hbest : best? (RangeRank.of g p) decl.ranges with
    | none =>
      rw [hbest] at hspec
      exact hranges (by simp [hspec])
    | some best =>
      rw [hbest] at hspec
      -- A range that is recognized is outranked by the best one, which therefore is recognized too.
      refine hnone ⟨best, shapeOf g p name decl best⟩
        (fst_choose_eq_some_iff.2 ⟨hexcluded, hbest, ?_, rfl⟩)
      by_contra hbad
      refine hranges fun r hr => ?_
      rw [← RangeRank.of_eq_unrecognized_iff, ← RangeRank.strength_eq_zero_iff] at hbad ⊢
      exact Nat.le_zero.1 (hbad ▸ hspec.2 r hr)
  · intro hdropped choice hchoice
    obtain ⟨hexcluded, hbest, hrecognized, -⟩ := fst_choose_eq_some_iff.1 hchoice
    rw [hbest] at hspec
    rcases hdropped with hdropped | hdropped
    · rw [hexcluded] at hdropped
      cases hdropped
    · exact hdropped _ hspec.1 hrecognized

/-- A property that the policy does not leave out and that has a recognized range is kept. -/
theorem exists_choose_of_recognized (hexcluded : p.excludedProperties.contains name = false)
    {range : String} (hrange : range ∈ decl.ranges) (hrecognized : Recognized g p range) :
    ∃ choice, (choose g p name decl).1 = some choice := by
  rw [← Option.ne_none_iff_exists', Ne, fst_choose_eq_none_iff]
  rintro (hout | hnone)
  · rw [hexcluded] at hout
    cases hout
  · exact hnone range hrange hrecognized

/-- A property whose type the policy does not settle is a quantity, or its range is lowered. -/
theorem shape_of_choose (hoverride : p.typeOverrides.get? name = none) {choice : Choice}
    (hchoice : (choose g p name decl).1 = some choice) :
    choice.shape = if choice.range = p.quantitativeType then .fixed (quantity name).1
      else .lower (holdsSeveral g p name decl choice.range) := by
  rw [(fst_choose_eq_some_iff.1 hchoice).2.2.2, shapeOf, hoverride]

/-- A quantity is no array. -/
theorem isArray_quantity (name : String) : (quantity name).1.isArray = false := by
  dsimp only [quantity]
  split_ifs <;> rfl

end Choice

end VocabularyCompiler

import VocabularyCompiler.Proofs.FirstOccurrences
import VocabularyCompiler.Proofs.StepOrder
import VocabularyCompiler.Proofs.TypeGraph.Building

/-!
# The order of facts

Facts may come in any order, as long as no two of them that count compete: two classes of one name
would, and two properties of one name on one domain, since the later of them prevails. Without such
rivals, any order gives the same types, of the same kinds; what it decides is in which order types,
properties and literals stand (`classify_build_perm`).

Rivals apart, two facts make the same of a type in either order, so all facts make the same of each
type in any order. What a type extends is a matter of chains of declared parents, in which no order
occurs, so the kinds of types follow.
-/

namespace VocabularyCompiler

/-- Two maps have the same entries up to order if and only if they have the same values. -/
theorem OrderedMap.perm_entries_iff {κ α : Type _} [DecidableEq κ] {m n : OrderedMap κ α} :
    m.entries.Perm n.entries ↔ ∀ k, m.get? k = n.get? k := by
  rw [List.perm_ext_iff_of_nodup (.of_map _ m.nodup) (.of_map _ n.nodup), Prod.forall]
  simp only [← get?_eq_some_iff]
  exact forall_congr' fun k => Option.ext_iff.symm

/-- The members of the set that a list is made into are those of the list. -/
theorem OrderedSet.mem_items_ofList {α : Type _} [DecidableEq α] {l : List α} {a : α} :
    a ∈ (ofList l).items ↔ a ∈ l := by
  rw [items_ofList, List.mem_eraseDups]

/-- Types that differ in nothing but the order of their properties and literals. -/
structure TypeNode.SameUpToOrder (m n : TypeNode) : Prop where
  name : m.name = n.name
  parents : m.parents = n.parents
  comment : m.comment = n.comment
  properties : m.properties.entries.Perm n.properties.entries
  literals : m.literals.items.Perm n.literals.items
  classification : m.classification = n.classification

namespace TypeNode.SameUpToOrder

variable {l m n : TypeNode}

theorem refl (n : TypeNode) : n.SameUpToOrder n := ⟨rfl, rfl, rfl, .refl _, .refl _, rfl⟩

theorem trans (hl : l.SameUpToOrder m) (hm : m.SameUpToOrder n) : l.SameUpToOrder n :=
  ⟨hl.name.trans hm.name, hl.parents.trans hm.parents, hl.comment.trans hm.comment,
    hl.properties.trans hm.properties, hl.literals.trans hm.literals,
    hl.classification.trans hm.classification⟩

end TypeNode.SameUpToOrder

/-- Graphs with the same types in any order, each the same but for the order of its properties and
literals. -/
structure TypeGraph.SameUpToOrder (g h : TypeGraph) : Prop where
  names : g.names.Perm h.names
  types : ∀ name, Option.Rel TypeNode.SameUpToOrder (g.get? name) (h.get? name)

namespace Fact

/-- Two facts compete for what they say of one type: classes of one name, and properties of one name
on one domain. -/
def Rivals : Fact → Fact → Prop
  | classFact name .., classFact name' .. => name = name'
  | propertyFact name domains .., propertyFact name' domains' .. =>
    name = name' ∧ ∃ domain ∈ domains, domain ∈ domains'
  | _, _ => False

instance : DecidableRel Rivals
  | classFact name .., classFact name' .. => inferInstanceAs (Decidable (name = name'))
  | propertyFact name domains .., propertyFact name' domains' .. =>
    inferInstanceAs (Decidable (name = name' ∧ ∃ domain ∈ domains, domain ∈ domains'))
  | classFact .., propertyFact .. | classFact .., literalFact .. | propertyFact .., classFact ..
  | propertyFact .., literalFact .. | literalFact .., _ => inferInstanceAs (Decidable False)

/-- Rivals compete with each other. -/
theorem Rivals.symm {f g : Fact} (h : f.Rivals g) : g.Rivals f := by
  cases f with
  | classFact => cases g with
    | classFact => exact Eq.symm h
    | _ => exact h
  | propertyFact => cases g with
    | propertyFact =>
      obtain ⟨hname, domain, hdomain, hdomain'⟩ := h
      exact ⟨hname.symm, domain, hdomain', hdomain⟩
    | _ => exact h
  | literalFact => exact h.elim

end Fact

namespace TypeGraph

open Relation (TransGen)

variable {p : Policy} {g h : TypeGraph} {name : String}

/-! ## Facts applied to one type -/

/-- What a fact makes of types that are the same up to order is the same up to order. -/
theorem rel_applyTo {m? n? : Option TypeNode} (hrel : Option.Rel TypeNode.SameUpToOrder m? n?)
    (fact : Fact) :
    Option.Rel TypeNode.SameUpToOrder (fact.applyTo p name m?) (fact.applyTo p name n?) := by
  have hnode : (m?.getD { name := name }).SameUpToOrder (n?.getD { name := name }) := by
    cases hrel with
    | none => exact .refl _
    | some hnode => exact hnode
  unfold Fact.applyTo
  cases hchange : fact.change? p name with
  | none => exact hrel
  | some change =>
    rcases Fact.of_change?_eq_some hchange with
      ⟨parents, comment, superseded, -, rfl⟩ |
      ⟨prop, domains, ranges, comment, superseded, -, -, rfl⟩
    · exact .some ⟨hnode.name, rfl, rfl, hnode.properties, hnode.literals, hnode.classification⟩
    · refine .some ⟨hnode.name, hnode.parents, hnode.comment, ?_, hnode.literals,
        hnode.classification⟩
      rw [OrderedMap.perm_entries_iff]
      intro k
      rw [OrderedMap.get?_insert, OrderedMap.get?_insert,
        OrderedMap.perm_entries_iff.1 hnode.properties]

/-- Properties of different names can be declared in either order. -/
theorem perm_insert_insert (m : OrderedMap String PropertyDecl) {k k' : String} (hne : k ≠ k')
    (decl decl' : PropertyDecl) :
    ((m.insert k decl).insert k' decl').entries.Perm
      ((m.insert k' decl').insert k decl).entries := by
  rw [OrderedMap.perm_entries_iff]
  intro j
  simp only [OrderedMap.get?_insert]
  by_cases hk : k = j
  · subst hk
    rw [if_neg hne.symm, if_pos rfl, if_pos rfl]
  · rw [if_neg hk, if_neg hk]

/-- Two facts that are no rivals make the same of a type in either order. -/
theorem applyTo_comm {e f : Fact} (hrivals : ¬e.Rivals f) (n? : Option TypeNode) :
    Option.Rel TypeNode.SameUpToOrder (f.applyTo p name (e.applyTo p name n?))
      (e.applyTo p name (f.applyTo p name n?)) := by
  unfold Fact.applyTo
  cases he : e.change? p name with
  | none => exact optionRel_refl .refl _
  | some change =>
    cases hf : f.change? p name with
    | none => exact optionRel_refl .refl _
    | some change' =>
      -- Both facts call for the type, so they differ in what they say of it.
      rcases Fact.of_change?_eq_some he with
        ⟨_, _, _, rfl, rfl⟩ | ⟨prop, _, _, _, _, rfl, hdomain, rfl⟩ <;>
        rcases Fact.of_change?_eq_some hf with
          ⟨_, _, _, rfl, rfl⟩ | ⟨prop', _, _, _, _, rfl, hdomain', rfl⟩
      · exact absurd rfl hrivals
      · exact .some (.refl _)
      · exact .some (.refl _)
      · have hne : prop ≠ prop' := fun hprop => hrivals ⟨hprop, name, hdomain, hdomain'⟩
        exact .some ⟨rfl, rfl, rfl, perm_insert_insert _ hne _ _, .refl _, rfl⟩

/-- Facts that do not count need not be applied. -/
theorem foldl_applyTo_filter (p : Policy) (name : String) (facts : List Fact)
    (n? : Option TypeNode) :
    facts.foldl (fun n? fact => fact.applyTo p name n?) n? =
      (facts.filter fun fact => !fact.isLeftOut p).foldl
        (fun n? fact => fact.applyTo p name n?) n? := by
  rw [List.foldl_filter]
  congr 1
  funext n? fact
  unfold Fact.applyTo Fact.change?
  cases fact.isLeftOut p <;> rfl

/-! ## The built graph -/

/-- No two facts that count compete. -/
def WithoutRivals (p : Policy) (facts : List Fact) : Prop :=
  (facts.filter fun fact => !fact.isLeftOut p).Pairwise fun e f => ¬e.Rivals f

/-- Graphs are the same up to order if their types are. -/
theorem SameUpToOrder.of_types
    (htypes : ∀ name, Option.Rel TypeNode.SameUpToOrder (g.get? name) (h.get? name)) :
    g.SameUpToOrder h := by
  refine ⟨?_, htypes⟩
  have hnames : ∀ g : TypeGraph, g.names.Nodup := fun g => g.nodup
  rw [List.perm_ext_iff_of_nodup (hnames g) (hnames h)]
  intro name
  rw [mem_names_iff, mem_names_iff, contains_iff, contains_iff]
  have hrel := htypes name
  generalize g.get? name = m? at hrel ⊢
  generalize h.get? name = n? at hrel ⊢
  cases hrel <;> simp

/-- Without rivals, any order of facts builds the same graph up to order. -/
theorem build_perm {facts facts' : List Fact} (hperm : facts.Perm facts')
    (hone : WithoutRivals p facts) :
    (build p facts).1.SameUpToOrder (build p facts').1 := by
  refine .of_types fun name => ?_
  rw [get?_build, get?_build, foldl_applyTo_filter, foldl_applyTo_filter p name facts']
  -- Facts without a say are left out first, for they may be rivals.
  have hfacts := foldl_perm (f := fun n? fact => Fact.applyTo p name fact n?)
    (optionRel_refl .refl) (optionRel_trans (fun _ _ _ => .trans) _ _ _)
    Fact.Rivals.symm (fun fact hrel => rel_applyTo hrel fact) (fun n? e f h => applyTo_comm h n?)
    (hperm.filter _) hone none
  have hliterals : (OrderedSet.ofList (facts.filterMap (Fact.literalOf? p name))).items.Perm
      (OrderedSet.ofList (facts'.filterMap (Fact.literalOf? p name))).items := by
    rw [List.perm_ext_iff_of_nodup (OrderedSet.nodup _) (OrderedSet.nodup _)]
    intro literal
    rw [OrderedSet.mem_items_ofList, OrderedSet.mem_items_ofList]
    exact (hperm.filterMap _).mem_iff
  generalize List.foldl _ _ (facts.filter _) = m? at hfacts ⊢
  generalize List.foldl _ _ (facts'.filter _) = n? at hfacts ⊢
  cases hfacts with
  | none => exact .none
  | some hnode =>
    exact .some ⟨hnode.name, hnode.parents, hnode.comment, hnode.properties, hliterals,
      hnode.classification⟩

/-! ## The kinds of types -/

namespace SameUpToOrder

/-- The same names are there. -/
theorem contains_eq (hsame : g.SameUpToOrder h) : g.contains = h.contains := by
  funext name
  rw [Bool.eq_iff_iff, ← mem_names_iff, ← mem_names_iff, hsame.names.mem_iff]

/-- The same parents are declared. -/
theorem declares_eq (hsame : g.SameUpToOrder h) : g.Declares = h.Declares := by
  funext a b
  unfold Declares
  have hrel := hsame.types a
  generalize g.get? a = m? at hrel ⊢
  generalize h.get? a = n? at hrel ⊢
  cases hrel with
  | none => rfl
  | some hnode => simp [hnode.parents]

/-- The types of one name extend the same names. -/
theorem isSubclass_eq (hsame : g.SameUpToOrder h) {i j : Nat} (hi : g.id? name = some i)
    (hj : h.id? name = some j) : g.isSubclass i = h.isSubclass j := by
  funext root
  rw [Bool.eq_iff_iff, isSubclass_iff_transGen hi, isSubclass_iff_transGen hj, hsame.declares_eq]

/-- The types of one name are of the same kinds. -/
theorem fst_classifyNode_eq (hsame : g.SameUpToOrder h) {m n : TypeNode} {i j : Nat}
    (hi : g.id? name = some i) (hj : h.id? name = some j) (hnode : m.SameUpToOrder n) :
    (g.classifyNode p i m).1 = (h.classifyNode p j n).1 := by
  have hitem : g.itemType p m.name = h.itemType p n.name := by
    unfold itemType
    rw [hnode.name, hsame.contains_eq]
  unfold classifyNode
  dsimp only
  rw [hsame.isSubclass_eq hi hj, hnode.name, hnode.literals.isEmpty_eq]
  rw [hnode.name] at hitem
  rw [hitem]

/-- Graphs that are the same up to order are so after classification. -/
theorem classify (hsame : g.SameUpToOrder h) :
    (g.classify p).1.SameUpToOrder (h.classify p).1 := by
  refine .of_types fun name => ?_
  have hisSome : (g.id? name).isSome = (h.id? name).isSome := by
    rw [← contains_eq_isSome_id?, ← contains_eq_isSome_id?, hsame.contains_eq]
  have hrel := hsame.types name
  cases hi : g.id? name with
  | none =>
    rw [hi, Option.isSome_none, eq_comm, Option.isSome_eq_false_iff, Option.isNone_iff_eq_none]
      at hisSome
    rw [get?_eq_bind, get?_eq_bind, id?_classify, id?_classify, hi, hisSome]
    exact .none
  | some i =>
    -- The type may stand at another position in the other graph.
    rw [hi, Option.isSome_some, eq_comm, Option.isSome_iff_exists] at hisSome
    obtain ⟨j, hj⟩ := hisSome
    rw [get?_classify hi, get?_classify hj]
    generalize g.get? name = m? at hrel ⊢
    generalize h.get? name = n? at hrel ⊢
    cases hrel with
    | none => exact .none
    | some hnode =>
      exact .some ⟨hnode.name, hnode.parents, hnode.comment, hnode.properties, hnode.literals,
        hsame.fst_classifyNode_eq hi hj hnode⟩

end SameUpToOrder

/-- Of any two orders of the same facts, if among those that count no two are classes of one name
and no two are properties of one name on one domain, the built and classified graphs have the same
types: each with the same parents, comment, kinds and element type, and with the same properties and
literals up to order. -/
theorem classify_build_perm (p : Policy) {facts facts' : List Fact} (hperm : facts.Perm facts')
    (hone : WithoutRivals p facts) :
    ((build p facts).1.classify p).1.SameUpToOrder ((build p facts').1.classify p).1 :=
  (build_perm hperm hone).classify

/-- Facts on places and their addresses, in an order in which the types come into being with their
properties and the literals come before their enumeration. -/
def placesFromProperties : List Fact :=
  [.literalFact "Monday" "DayOfWeek" false,
    .propertyFact "address" ["Place", "Person"] ["PostalAddress"] "" false,
    .propertyFact "openOn" ["Place"] ["DayOfWeek"] "" false,
    .propertyFact "openOn" ["Place"] ["Text"] "an older one" true,
    .literalFact "Tuesday" "DayOfWeek" false,
    .classFact "Place" ["Thing"] "a place" false,
    .classFact "PlaceList" ["ItemList"] "" false,
    .classFact "DayOfWeek" ["Enumeration"] "" false,
    .classFact "PostalAddress" ["StructuredValue"] "" false,
    .classFact "Thing" [] "" false]

/-- The other way round the facts give the same types, though in another order. -/
theorem classify_build_perm_reverse :
    placesFromProperties.Perm placesFromProperties.reverse ∧
      WithoutRivals .standard placesFromProperties ∧
      ((build .standard placesFromProperties).1.classify .standard).1.SameUpToOrder
        ((build .standard placesFromProperties.reverse).1.classify .standard).1 ∧
      (build .standard placesFromProperties).1.names ≠
        (build .standard placesFromProperties.reverse).1.names := by
  have hperm := placesFromProperties.reverse_perm.symm
  have hone : WithoutRivals .standard placesFromProperties := by
    unfold WithoutRivals
    decide +kernel
  exact ⟨hperm, hone, classify_build_perm .standard hperm hone, by decide +kernel⟩

end TypeGraph

end VocabularyCompiler

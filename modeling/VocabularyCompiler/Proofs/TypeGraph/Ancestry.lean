import Mathlib.Data.List.Dedup
import Mathlib.Logic.Relation
import VocabularyCompiler.Proofs.TypeGraph.Nodes

/-!
# Ancestors are what a chain of parents leads to

`ancestors` gathers the types above a type layer by layer, for as many layers as there are types.
`mem_ancestors_iff` shows that it finds exactly the other types that some chain of parents leads
to: the number of layers is no restriction, since every layer but the last one holds a type that
was not seen before.
-/

namespace VocabularyCompiler.TypeGraph

open Relation (ReflTransGen TransGen)

/-- The type at `j` is a declared parent of the type at `i`. -/
def Extends (g : TypeGraph) (i j : Nat) : Prop := j ∈ g.parents i

/-- Parents are the types with a declared parent's name. -/
theorem extends_iff {g : TypeGraph} {i j : Nat} :
    g.Extends i j ↔ ∃ n m, g.node? i = some n ∧ g.node? j = some m ∧ m.name ∈ n.parents := by
  unfold Extends parents parentNames
  rw [List.mem_filterMap]
  constructor
  · rintro ⟨name, hname, hid⟩
    obtain ⟨m, hm, rfl⟩ := id?_eq_some_iff.1 hid
    cases hn : g.node? i with
    | none => simp [hn] at hname
    | some n => exact ⟨n, m, rfl, hm, by simpa [hn] using hname⟩
  · rintro ⟨n, m, hn, hm, hmem⟩
    exact ⟨m.name, by simpa [hn] using hmem, id?_eq_some_iff.2 ⟨m, hm, rfl⟩⟩

/-- Parents are types of the graph. -/
theorem Extends.lt_size {g : TypeGraph} {i j : Nat} (h : g.Extends i j) : j < g.size := by
  obtain ⟨-, m, -, hm, -⟩ := extends_iff.1 h
  exact lt_size_of_node? hm

/-- Whoever has parents is a type of the graph. -/
theorem Extends.lt_size_left {g : TypeGraph} {i j : Nat} (h : g.Extends i j) : i < g.size := by
  obtain ⟨n, -, hn, -⟩ := extends_iff.1 h
  exact lt_size_of_node? hn

/-- The types of the next layer are the parents of this one that were not seen before. -/
theorem mem_nextLayer {g : TypeGraph} {seen layer : List Nat} {j : Nat} :
    j ∈ ((layer.flatMap g.parents).filter (· ∉ seen)).eraseDups ↔
      (∃ i ∈ layer, g.Extends i j) ∧ j ∉ seen := by
  rw [List.mem_eraseDups, List.mem_filter, List.mem_flatMap, decide_eq_true_eq]
  rfl

/-- A chain of parents that leaves a set does so through its border, if only the types on the border
have parents outside. -/
private theorem exists_border {g : TypeGraph} {seen : List Nat} (border : List Nat) {i j : Nat}
    (hclosed : ∀ k ∈ seen, k ∉ border → ∀ m, g.Extends k m → m ∈ seen)
    (h : ReflTransGen g.Extends i j) (hi : i ∈ seen) (hj : j ∉ seen) :
    ∃ k ∈ border, ReflTransGen g.Extends k j := by
  induction h using ReflTransGen.head_induction_on with
  | refl => exact absurd hi hj
  | @head i k hik hkj ih =>
    by_cases hb : i ∈ border
    · exact ⟨i, hb, hkj.head hik⟩
    · exact ih (hclosed i hi hb k hik)

/-- The layers hold the unseen types that chains of parents lead to from the first layer, if all
parents of what was seen before that layer were seen, and if there are as many layers as unseen
types. -/
private theorem mem_layersAbove_iff {g : TypeGraph} {j : Nat} :
    ∀ {n : Nat} {seen layer : List Nat}, layer ⊆ seen →
      (∀ i ∈ seen, i ∉ layer → ∀ k, g.Extends i k → k ∈ seen) → unseen g.ids seen ≤ n →
      (j ∈ g.layersAbove n seen layer ↔
        j ∉ seen ∧ ∃ i ∈ layer, ReflTransGen g.Extends i j) := by
  intro n
  induction n with
  | zero =>
    intro seen layer hlayer hclosed hn
    simp only [layersAbove, List.not_mem_nil, false_iff, not_and, not_exists]
    intro hj i hi hij
    -- Nothing is unseen any more, but a chain would end in something unseen.
    rcases ReflTransGen.cases_tail hij with rfl | ⟨k, -, hk⟩
    · exact hj (hlayer hi)
    · have := unseen_lt (List.subset_cons_self j seen) (mem_ids.2 hk.lt_size) hj
        List.mem_cons_self
      omega
  | succ n ih =>
    intro seen layer hlayer hclosed hn
    unfold layersAbove
    split
    next hnext =>
      simp only [List.not_mem_nil, false_iff, not_and, not_exists]
      intro hj i hi hij
      -- Without a next layer, what was seen is closed under parents.
      obtain ⟨k, hk, -⟩ := exists_border [] (fun a ha _ b hab => by
        by_cases hal : a ∈ layer
        · by_contra hb
          have := mem_nextLayer.2 ⟨⟨a, hal, hab⟩, hb⟩
          rw [hnext] at this
          exact List.not_mem_nil this
        · exact hclosed a ha hal b hab) hij (hlayer hi) hj
      exact List.not_mem_nil hk
    next next hne =>
      have hmem : ∀ k, k ∈ ((layer.flatMap g.parents).filter (· ∉ seen)).eraseDups ↔
        (∃ i ∈ layer, g.Extends i k) ∧ k ∉ seen := fun k => mem_nextLayer
      generalize ((layer.flatMap g.parents).filter (· ∉ seen)).eraseDups = next at hmem hne ⊢
      have hsub : seen ⊆ seen ++ next := List.subset_append_left _ _
      have hclosed' : ∀ i ∈ seen ++ next, i ∉ next → ∀ k, g.Extends i k → k ∈ seen ++ next := by
        intro i hi hin k hik
        have his : i ∈ seen := (List.mem_append.1 hi).resolve_right hin
        by_cases hk : k ∈ seen
        · exact hsub hk
        · have hil : i ∈ layer := by
            by_contra hil
            exact hk (hclosed i his hil k hik)
          exact List.mem_append_right _ ((hmem k).2 ⟨⟨i, hil, hik⟩, hk⟩)
      obtain ⟨a, ha⟩ := List.exists_mem_of_ne_nil next hne
      obtain ⟨⟨b, -, hab⟩, has⟩ := (hmem a).1 ha
      have hlt := unseen_lt hsub (mem_ids.2 hab.lt_size) has (List.mem_append_right _ ha)
      rw [List.mem_append, ih (List.subset_append_right _ _) hclosed' (by omega)]
      constructor
      · rintro (hj | ⟨hj, i, hi, hij⟩)
        · obtain ⟨⟨i, hi, hij⟩, hjs⟩ := (hmem j).1 hj
          exact ⟨hjs, i, hi, .single hij⟩
        · obtain ⟨⟨k, hk, hki⟩, -⟩ := (hmem i).1 hi
          exact ⟨fun h => hj (hsub h), k, hk, hij.head hki⟩
      · rintro ⟨hj, i, hi, hij⟩
        by_cases hjn : j ∈ next
        · exact Or.inl hjn
        · have hj' : j ∉ seen ++ next := by simp [hj, hjn]
          exact Or.inr ⟨hj', exists_border next hclosed' hij (hsub (hlayer hi)) hj'⟩

/-- The ancestors of a type are the other types that a chain of parents leads to. -/
theorem mem_ancestors_iff {g : TypeGraph} {i j : Nat} :
    j ∈ g.ancestors i ↔ j ≠ i ∧ TransGen g.Extends i j := by
  unfold ancestors
  rw [mem_layersAbove_iff (List.Subset.refl _) (fun k hk hk' => absurd hk hk')
    (g.unseen_ids_le _)]
  simp only [List.mem_singleton, exists_eq_left]
  refine and_congr_right fun hj => ⟨fun h => ?_, TransGen.to_reflTransGen⟩
  exact (Relation.reflTransGen_iff_eq_or_transGen.1 h).resolve_left hj

/-- Where everything was seen, there are no more layers. -/
theorem layersAbove_of_unseen_eq_zero {g : TypeGraph} {seen : List Nat}
    (h : unseen g.ids seen = 0) (n : Nat) (layer : List Nat) : g.layersAbove n seen layer = [] := by
  cases n with
  | zero => rfl
  | succ n =>
    have hnext : ((layer.flatMap g.parents).filter (· ∉ seen)).eraseDups = [] := by
      rw [List.eq_nil_iff_forall_not_mem]
      intro j hj
      obtain ⟨⟨i, -, hij⟩, hjs⟩ := mem_nextLayer.1 hj
      have := unseen_lt (List.subset_cons_self j seen) (mem_ids.2 hij.lt_size) hjs
        List.mem_cons_self
      omega
    rw [layersAbove, hnext]

/-- The gathering of ancestors is never cut off: with no fewer layers than there are unseen types,
their number makes no difference. -/
theorem layersAbove_eq_of_unseen_le {g : TypeGraph} {n m : Nat} {seen layer : List Nat}
    (hn : unseen g.ids seen ≤ n) (hm : unseen g.ids seen ≤ m) :
    g.layersAbove n seen layer = g.layersAbove m seen layer := by
  induction n generalizing m seen layer with
  | zero =>
    rw [layersAbove_of_unseen_eq_zero (by omega), layersAbove_of_unseen_eq_zero (by omega)]
  | succ n ih =>
    cases m with
    | zero =>
      rw [layersAbove_of_unseen_eq_zero (by omega), layersAbove_of_unseen_eq_zero (by omega)]
    | succ m =>
      unfold layersAbove
      split
      next => rfl
      next next hne =>
        obtain ⟨j, hj⟩ := List.exists_mem_of_ne_nil _ hne
        obtain ⟨⟨i, -, hij⟩, hjs⟩ := mem_nextLayer.1 hj
        have hlt := unseen_lt (List.subset_append_left seen _) (mem_ids.2 hij.lt_size) hjs
          (List.mem_append_right _ hj)
        rw [ih (m := m) (by omega) (by omega)]

/-- An ancestor of an ancestor is an ancestor, if it is not the type itself. -/
theorem mem_ancestors_trans {g : TypeGraph} {i j k : Nat} (hj : j ∈ g.ancestors i)
    (hk : k ∈ g.ancestors j) (hne : k ≠ i) : k ∈ g.ancestors i := by
  rw [mem_ancestors_iff] at *
  exact ⟨hne, hj.2.trans hk.2⟩

/-- Graphs with the same parents of as many types have the same ancestors. -/
theorem ancestors_congr {g h : TypeGraph} (hsize : g.size = h.size)
    (hparents : g.parents = h.parents) : g.ancestors = h.ancestors := by
  funext i
  have hlayers : ∀ n seen layer, g.layersAbove n seen layer = h.layersAbove n seen layer := by
    intro n
    induction n with
    | zero => intros; rfl
    | succ n ih =>
      intro seen layer
      simp only [layersAbove, ih, hparents]
  rw [ancestors, ancestors, hlayers, hsize]

/-- Graphs with types that differ in nothing but whether they are structs have the same
ancestors. -/
theorem SameButStructs.ancestors_eq {g h : TypeGraph} (hg : g.SameButStructs h) :
    g.ancestors = h.ancestors :=
  ancestors_congr hg.size_eq hg.parents_eq

/-! ## The climb to a name -/

section Climb

variable {g : TypeGraph} {name : String}

/-- The parents that are types are those of the names of parents. -/
theorem extends_of_parentName {i j : Nat} {parent : String} (hparent : parent ∈ g.parentNames i)
    (hj : g.id? parent = some j) : g.Extends i j :=
  List.mem_filterMap.2 ⟨parent, hparent, hj⟩

/-- If the climb to some parents meets the name, then the climb to one of them does. -/
private theorem exists_of_foldlM_eq_none {β ι : Type} {step : β → ι → Option β} :
    ∀ {l : List ι} {b : β}, l.foldlM step b = none → ∃ a ∈ l, ∃ c, step c a = none := by
  intro l
  induction l with
  | nil => intro b h; cases h
  | cons a rest ih =>
    intro b h
    rw [List.foldlM_cons] at h
    cases hstep : step b a with
    | none => exact ⟨a, List.mem_cons_self, b, hstep⟩
    | some c =>
      rw [hstep] at h
      obtain ⟨a', ha', c', hc'⟩ := ih h
      exact ⟨a', List.mem_cons_of_mem _ ha', c', hc'⟩

/-- A climb that meets the name was led there by a chain of parents. -/
theorem exists_of_climb_eq_none {n : Nat} {visited : List Nat} {i : Nat}
    (h : g.climb name n visited i = none) :
    ∃ j, ReflTransGen g.Extends i j ∧ name ∈ g.parentNames j := by
  induction n generalizing visited i with
  | zero => cases h
  | succ n ih =>
    unfold climb at h
    split at h
    next => cases h
    next =>
      obtain ⟨parent, hparent, seen, hmet⟩ := exists_of_foldlM_eq_none h
      unfold climbTo at hmet
      split at hmet
      next heq => exact ⟨i, .refl, heq ▸ hparent⟩
      next =>
        cases hid : g.id? parent with
        | none => simp [hid] at hmet
        | some k =>
          rw [hid, Option.elim_some] at hmet
          obtain ⟨j, hkj, hj⟩ := ih hmet
          exact ⟨j, hkj.head (extends_of_parentName hparent hid), hj⟩

/-- Between two moments of a climb, `before` and `after`, the types that were entered do not have
the parent `name`, and those among their parents that are types are visited by now. -/
structure Climbed (g : TypeGraph) (name : String) (before after : List Nat) : Prop where
  /-- Nothing visited is forgotten. -/
  subset : before ⊆ after
  /-- What was entered is done with. -/
  closed : ∀ i ∈ after, i ∉ before → name ∉ g.parentNames i ∧ ∀ j, g.Extends i j → j ∈ after

namespace Climbed

variable {before middle after : List Nat}

theorem refl (visited : List Nat) : g.Climbed name visited visited :=
  ⟨List.Subset.refl _, fun _ hi hnew => absurd hi hnew⟩

/-- One climb after another is a climb. -/
theorem trans (h : g.Climbed name before middle) (h' : g.Climbed name middle after) :
    g.Climbed name before after where
  subset := List.Subset.trans h.subset h'.subset
  closed i hi hnew := by
    by_cases hmiddle : i ∈ middle
    · obtain ⟨hname, hup⟩ := h.closed i hmiddle hnew
      exact ⟨hname, fun j hj => h'.subset (hup j hj)⟩
    · exact h'.closed i hi hmiddle

/-- A type is done with when its parents are visited and none of them has the name. -/
theorem enter {i : Nat} (h : g.Climbed name (i :: before) after) (hname : name ∉ g.parentNames i)
    (hup : ∀ j, g.Extends i j → j ∈ after) : g.Climbed name before after where
  subset := fun j hj => h.subset (List.mem_cons_of_mem i hj)
  closed j hj hnew := by
    by_cases hji : j = i
    · exact hji ▸ ⟨hname, hup⟩
    · exact h.closed j hj (by simp [hji, hnew])

end Climbed

/-- Parents none of which leads to the name are climbed to, if that holds for the climb to one of
them. -/
private theorem climbed_of_foldlM {n : Nat} {find : List Nat → Nat → Option (List Nat)}
    (hfind : ∀ {before after : List Nat} {i : Nat}, i < g.size → unseen g.ids before < n →
      find before i = some after → g.Climbed name before after ∧ i ∈ after) :
    ∀ {parents : List String} {before after : List Nat}, unseen g.ids before < n →
      parents.foldlM (g.climbTo name find) before = some after →
        g.Climbed name before after ∧
          ∀ parent ∈ parents, parent ≠ name ∧ ∀ j, g.id? parent = some j → j ∈ after := by
  intro parents
  induction parents with
  | nil =>
    intro before after _ h
    cases h
    exact ⟨.refl _, by simp⟩
  | cons parent rest ih =>
    intro before after hn h
    rw [List.foldlM_cons, Option.bind_eq_bind, Option.bind_eq_some_iff] at h
    obtain ⟨middle, hstep, hrest⟩ := h
    -- The climb to this parent has not met the name, whether the parent is a type or not.
    have hparent : parent ≠ name ∧ g.Climbed name before middle ∧
        ∀ j, g.id? parent = some j → j ∈ middle := by
      unfold climbTo at hstep
      split at hstep
      next => cases hstep
      next hne =>
        refine ⟨hne, ?_⟩
        cases hid : g.id? parent with
        | none =>
          rw [hid] at hstep
          cases hstep
          exact ⟨.refl _, fun j hj => nomatch hj⟩
        | some i =>
          rw [hid] at hstep
          obtain ⟨hclimbed, hmem⟩ := hfind (lt_size_of_id? hid) hn hstep
          exact ⟨hclimbed, fun j hj => Option.some.inj hj ▸ hmem⟩
    obtain ⟨hne, hfirst, hmem⟩ := hparent
    obtain ⟨hlast, hparents⟩ := ih ((unseen_mono _ hfirst.subset).trans_lt hn) hrest
    refine ⟨hfirst.trans hlast, fun other hother => ?_⟩
    rcases List.mem_cons.1 hother with rfl | hother
    · exact ⟨hne, fun j hj => hlast.subset (hmem j hj)⟩
    · exact hparents other hother

/-- A climb that does not meet the name is done with everything above the type where it began. -/
theorem climbed_of_climb {n : Nat} {before after : List Nat} {i : Nat} (hi : i < g.size)
    (hn : unseen g.ids before < n) (h : g.climb name n before i = some after) :
    g.Climbed name before after ∧ i ∈ after := by
  induction n generalizing before after i with
  | zero => omega
  | succ n ih =>
    unfold climb at h
    split at h
    next hvisited =>
      cases h
      exact ⟨.refl _, hvisited⟩
    next hfresh =>
      have hlt := unseen_lt (List.subset_cons_self i before) (mem_ids.2 hi) hfresh
        List.mem_cons_self
      obtain ⟨hclimbed, hparents⟩ := climbed_of_foldlM (n := n)
        (fun hi hn hs => ih hi hn hs) (by omega) h
      refine ⟨hclimbed.enter (fun hname => (hparents name hname).1 rfl) fun j hj => ?_,
        hclimbed.subset List.mem_cons_self⟩
      obtain ⟨parent, hparent, hid⟩ := List.mem_filterMap.1 hj
      exact (hparents parent hparent).2 j hid

/-- With more steps than there are types, a climb meets the name if and only if a chain of parents
leads to a type that declares that name as a parent. -/
theorem climb_eq_none_iff {n : Nat} (hn : g.size < n) {i : Nat} :
    g.climb name n [] i = none ↔ ∃ j, ReflTransGen g.Extends i j ∧ name ∈ g.parentNames j := by
  refine ⟨exists_of_climb_eq_none, ?_⟩
  rintro ⟨j, hij, hname⟩
  have hi : i < g.size := by
    rcases ReflTransGen.cases_head hij with rfl | ⟨k, hik, -⟩
    · unfold parentNames at hname
      cases hnode : g.node? i with
      | none => simp [hnode] at hname
      | some m => exact lt_size_of_node? hnode
    · exact hik.lt_size_left
  by_contra hsome
  obtain ⟨after, hafter⟩ := Option.ne_none_iff_exists'.1 hsome
  obtain ⟨hclimbed, hmem⟩ := climbed_of_climb hi ((g.unseen_ids_le []).trans_lt hn) hafter
  -- Everything above is visited, and none of it declares the name.
  have hvisited : ∀ k, ReflTransGen g.Extends i k → k ∈ after := by
    intro k hik
    induction hik with
    | refl => exact hmem
    | tail _ hkl ih => exact (hclimbed.closed _ ih List.not_mem_nil).2 _ hkl
  exact (hclimbed.closed j (hvisited j hij) List.not_mem_nil).1 hname

/-- A type extends a name if and only if a chain of parents leads to a type that declares that name
as a parent. -/
theorem isSubclass_iff {i : Nat} :
    g.isSubclass i name = true ↔ ∃ j, ReflTransGen g.Extends i j ∧ name ∈ g.parentNames j := by
  unfold isSubclass
  rw [Option.isNone_iff_eq_none, climb_eq_none_iff g.size.lt_succ_self]

end Climb

/-- The type `a` declares the parent `b`, which need not be a type of the graph. -/
def Declares (g : TypeGraph) (a b : String) : Prop := ∃ n, g.get? a = some n ∧ b ∈ n.parents

/-- A chain of parents that ends in a type leads through types only. -/
private theorem exists_reflTransGen_extends {g : TypeGraph} {a b : String} {i : Nat} {m : TypeNode}
    (h : ReflTransGen g.Declares a b) (hi : g.id? a = some i) (hm : g.get? b = some m) :
    ∃ j, g.node? j = some m ∧ ReflTransGen g.Extends i j := by
  induction h using ReflTransGen.head_induction_on generalizing i with
  | refl =>
    obtain ⟨⟨j, hj⟩, hname⟩ := get?_eq_some_iff.1 hm
    obtain rfl := Option.some.inj (hi.symm.trans (id?_eq_some_iff.2 ⟨m, hj, hname⟩))
    exact ⟨i, hj, .refl⟩
  | @head a c hac hcb ih =>
    obtain ⟨n, hn, hc⟩ := hac
    -- The parent is a type, since it declares a parent itself or is the last one.
    have hparent : ∃ k, g.get? c = some k := by
      rcases ReflTransGen.cases_head hcb with rfl | ⟨d, ⟨k, hk, -⟩, -⟩
      · exact ⟨m, hm⟩
      · exact ⟨k, hk⟩
    obtain ⟨k, hk⟩ := hparent
    obtain ⟨⟨j, hj⟩, hname⟩ := get?_eq_some_iff.1 hk
    obtain ⟨⟨i', hi'⟩, hname'⟩ := get?_eq_some_iff.1 hn
    obtain rfl := Option.some.inj (hi.symm.trans (id?_eq_some_iff.2 ⟨n, hi', hname'⟩))
    obtain ⟨l, hl, hjl⟩ := ih (id?_eq_some_iff.2 ⟨k, hj, hname⟩)
    exact ⟨l, hl, hjl.head (extends_iff.2 ⟨n, k, hi', hj, hname ▸ hc⟩)⟩

/-- A type extends a name if and only if a chain of one or more declared parents leads to it. -/
theorem isSubclass_iff_transGen {g : TypeGraph} {a : String} {i : Nat} (hi : g.id? a = some i)
    (name : String) : g.isSubclass i name = true ↔ TransGen g.Declares a name := by
  have hdeclares : ∀ {k : Nat} {n : TypeNode} {b : String}, g.node? k = some n → b ∈ n.parents →
      g.Declares n.name b := fun hk hb => ⟨_, get?_eq_some_iff.2 ⟨⟨_, hk⟩, rfl⟩, hb⟩
  rw [isSubclass_iff, TransGen.tail'_iff]
  constructor
  · rintro ⟨j, hij, hname⟩
    obtain ⟨n, hn, rfl⟩ := id?_eq_some_iff.1 hi
    have hchain : ∀ m, g.node? j = some m → ReflTransGen g.Declares n.name m.name := by
      clear hname
      induction hij with
      | refl =>
        intro m hm
        rw [Option.some.inj (hn.symm.trans hm)]
      | tail _ hkj ih =>
        obtain ⟨k, m, hk, hm, hparent⟩ := extends_iff.1 hkj
        intro m' hm'
        obtain rfl := Option.some.inj (hm.symm.trans hm')
        exact (ih k hk).tail (hdeclares hk hparent)
    unfold parentNames at hname
    cases hm : g.node? j with
    | none => simp [hm] at hname
    | some m =>
      rw [hm] at hname
      exact ⟨m.name, hchain m hm, hdeclares hm hname⟩
  · rintro ⟨b, hab, m, hm, hname⟩
    obtain ⟨j, hj, hij⟩ := exists_reflTransGen_extends hab hi hm
    refine ⟨j, hij, ?_⟩
    unfold parentNames
    rwa [hj]

end VocabularyCompiler.TypeGraph

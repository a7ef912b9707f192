import VocabularyCompiler.Proofs.TypeGraph.Analysis
import VocabularyCompiler.Proofs.TypeGraph.Scheduling

/-!
# When an ancestor is emitted first

The order of emission is meant to put every type behind its ancestors. A visit does so along chains
of types that can all be scheduled, but it does not look beyond a type that cannot be. Of these only
enumerations stand in the way in an analyzed graph: below an action there are actions, and the
ancestors of a type that is no struct are no structs.

For a graph without cycles, `idxOf_lt_iff_neededFirst` tells exactly which of two types comes first
in the schedule. From it follows when the types that an analyzed graph emits stand behind their
ancestors, and `weekdays` is a vocabulary in which one does not.
-/

namespace VocabularyCompiler.TypeGraph

open Relation (ReflTransGen TransGen)

/-- No chain of parents leads from a type back to itself. -/
def Acyclic (g : TypeGraph) : Prop := ∀ i, ¬TransGen g.Extends i i

/-- A graph has no cycles if and only if no type is a parent of its own or an ancestor of one of its
parents. -/
theorem acyclic_iff {g : TypeGraph} :
    g.Acyclic ↔ ∀ i ∈ g.ids, ∀ j ∈ g.parents i, i ≠ j ∧ i ∉ g.ancestors j := by
  constructor
  · intro h i _ j hij
    refine ⟨fun heq => h i (.single ?_), fun hi => h i ?_⟩
    · exact heq ▸ hij
    · exact TransGen.head hij (mem_ancestors_iff.1 hi).2
  · intro h i hcycle
    obtain ⟨j, hij, hji⟩ := TransGen.head'_iff.1 hcycle
    obtain ⟨hne, hnot⟩ := h i (mem_ids.2 hij.lt_size_left) j hij
    refine hnot (mem_ancestors_iff.2 ⟨hne, ?_⟩)
    exact (Relation.reflTransGen_iff_eq_or_transGen.1 hji).resolve_left hne

instance (g : TypeGraph) : Decidable g.Acyclic := decidable_of_iff' _ acyclic_iff

/-- No parent of a type in a graph without cycles needs it. -/
theorem not_needs_of_extends {g : TypeGraph} (hacyclic : g.Acyclic) {i j : Nat}
    (h : g.Extends i j) : ¬g.Needs j i :=
  fun h' => hacyclic i (TransGen.head' h h'.reflTransGen)

/-- In a graph without cycles a parent has fewer ancestors, so no chain of parents goes on
forever. -/
theorem wellFounded_extends {g : TypeGraph} (hacyclic : g.Acyclic) :
    WellFounded fun j i => g.Extends i j := by
  have hcard : ∀ {j i}, g.Extends i j →
      (g.ancestors j).toFinset.card < (g.ancestors i).toFinset.card := by
    intro j i hij
    refine Finset.card_lt_card (Finset.ssubset_iff_subset_ne.2 ⟨fun k hk => ?_, fun heq => ?_⟩)
    · rw [List.mem_toFinset, mem_ancestors_iff] at hk ⊢
      have hik : TransGen g.Extends i k := .head hij hk.2
      exact ⟨fun hki => hacyclic i (hki ▸ hik), hik⟩
    · have hj : j ∈ (g.ancestors i).toFinset := by
        rw [List.mem_toFinset, mem_ancestors_iff]
        exact ⟨fun hji => hacyclic i (.single (hji ▸ hij)), .single hij⟩
      rw [← heq, List.mem_toFinset, mem_ancestors_iff] at hj
      exact hj.1 rfl
  exact Subrelation.wf hcard (InvImage.wf (fun i => (g.ancestors i).toFinset.card) wellFounded_lt)

/-- Of the types `b` and `a`, it is `b` that is come upon first when the types of a list are looked
through in turn: a type that needs neither is passed over, one that needs `b` alone settles the
matter, and for one that needs both, its parents are looked through. -/
inductive NeededFirst (g : TypeGraph) (b a : Nat) : List Nat → Prop where
  | now {c : Nat} {rest : List Nat} (hb : g.Needs c b) (ha : ¬g.Needs c a) :
      NeededFirst g b a (c :: rest)
  | later {c : Nat} {rest : List Nat} (hb : ¬g.Needs c b) (ha : ¬g.Needs c a)
      (h : NeededFirst g b a rest) : NeededFirst g b a (c :: rest)
  | above {c : Nat} {rest : List Nat} (hb : g.Needs c b) (ha : g.Needs c a)
      (h : NeededFirst g b a (g.parents c)) : NeededFirst g b a (c :: rest)

/-- What the first type of a list needs decides where to look on. -/
theorem neededFirst_cons_iff {g : TypeGraph} {b a c : Nat} {rest : List Nat} :
    g.NeededFirst b a (c :: rest) ↔
      (g.Needs c b ∧ ¬g.Needs c a) ∨ (¬g.Needs c b ∧ ¬g.Needs c a ∧ g.NeededFirst b a rest) ∨
        (g.Needs c b ∧ g.Needs c a ∧ g.NeededFirst b a (g.parents c)) := by
  constructor
  · intro h
    cases h with
    | now hb ha => exact Or.inl ⟨hb, ha⟩
    | later hb ha h => exact Or.inr (Or.inl ⟨hb, ha, h⟩)
    | above hb ha h => exact Or.inr (Or.inr ⟨hb, ha, h⟩)
  · rintro (⟨hb, ha⟩ | ⟨hb, ha, h⟩ | ⟨hb, ha, h⟩)
    · exact .now hb ha
    · exact .later hb ha h
    · exact .above hb ha h

/-- If no type of a list needs `a` and one needs `b`, then `b` is come upon first. -/
theorem neededFirst_of_forall_not {g : TypeGraph} {b a : Nat} {l : List Nat}
    (ha : ∀ c ∈ l, ¬g.Needs c a) (hb : ∃ c ∈ l, g.Needs c b) : g.NeededFirst b a l := by
  induction l with
  | nil => simp at hb
  | cons c rest ih =>
    by_cases hcb : g.Needs c b
    · exact .now hcb (ha c List.mem_cons_self)
    · refine .later hcb (ha c List.mem_cons_self)
        (ih (fun d hd => ha d (List.mem_cons_of_mem _ hd)) ?_)
      obtain ⟨d, hd, hdb⟩ := hb
      rcases List.mem_cons.1 hd with rfl | hd
      · exact absurd hdb hcb
      · exact ⟨d, hd, hdb⟩

/-- If some type of a list needs `a`, and each that does needs `b` first, then `b` is come upon
first. -/
theorem neededFirst_of_forall {g : TypeGraph} {b a : Nat} {l : List Nat}
    (hb : ∀ c ∈ l, g.Needs c a → g.Needs c b ∧ g.NeededFirst b a (g.parents c))
    (ha : ∃ c ∈ l, g.Needs c a) : g.NeededFirst b a l := by
  induction l with
  | nil => simp at ha
  | cons c rest ih =>
    by_cases hca : g.Needs c a
    · obtain ⟨hcb, hfirst⟩ := hb c List.mem_cons_self hca
      exact .above hcb hca hfirst
    · by_cases hcb : g.Needs c b
      · exact .now hcb hca
      · refine .later hcb hca (ih (fun d hd => hb d (List.mem_cons_of_mem _ hd)) ?_)
        obtain ⟨d, hd, hda⟩ := ha
        rcases List.mem_cons.1 hd with rfl | hd
        · exact absurd hda hca
        · exact ⟨d, hd, hda⟩

/-- In a graph without cycles, what `a` needs is come upon before `a`. -/
theorem neededFirst_of_needs {g : TypeGraph} (hacyclic : g.Acyclic) {b a : Nat} (hab : g.Needs a b)
    (hne : b ≠ a) {l : List Nat} (ha : ∃ c ∈ l, g.Needs c a) : g.NeededFirst b a l := by
  have hparents : ∀ c, g.Needs c a → g.NeededFirst b a (g.parents c) := by
    intro c
    induction c using (wellFounded_extends hacyclic).induction with
    | h c ih =>
      intro hca
      by_cases hc : c = a
      · subst hc
        have hb : ∃ d ∈ g.parents c, g.Needs d b := hab.eq_or_exists.resolve_left (Ne.symm hne)
        exact neededFirst_of_forall_not (fun d hd => not_needs_of_extends hacyclic hd) hb
      · have ha : ∃ d ∈ g.parents c, g.Needs d a := hca.eq_or_exists.resolve_left hc
        exact neededFirst_of_forall (fun d hd hda => ⟨hda.trans hab, ih d hd hda⟩) ha
  exact neededFirst_of_forall (fun c _ hca => ⟨hca.trans hab, hparents c hca⟩) ha

/-! ## Positions in a list -/

/-- What is in the first of two lists stands before what is not. -/
private theorem idxOf_append_lt {l l' : List Nat} {b a : Nat} (hb : b ∈ l) (ha : a ∉ l) :
    (l ++ l').idxOf b < (l ++ l').idxOf a := by
  rw [List.idxOf_append_of_mem hb, List.idxOf_append_of_notMem ha]
  have := List.idxOf_lt_length_of_mem hb
  omega

/-- Leaving out other members of a list does not change which of two comes first. -/
private theorem idxOf_filter_lt_iff {p : Nat → Bool} {b a : Nat} (hb : p b = true)
    (ha : p a = true) (l : List Nat) :
    (l.filter p).idxOf b < (l.filter p).idxOf a ↔ l.idxOf b < l.idxOf a := by
  induction l with
  | nil => simp
  | cons c rest ih =>
    by_cases hc : p c = true
    · rw [List.filter_cons_of_pos hc]
      simp only [List.idxOf_cons, cond_eq_ite]
      split <;> split <;> omega
    · -- What is left out is neither of the two, so it stands before both of them.
      have hcb : (c == b) = false := beq_eq_false_iff_ne.2 fun heq => hc (heq ▸ hb)
      have hca : (c == a) = false := beq_eq_false_iff_ne.2 fun heq => hc (heq ▸ ha)
      rw [List.filter_cons_of_neg hc, ih]
      simp [List.idxOf_cons, hcb, hca]

/-! ## The schedule of a graph without cycles -/

/-- A schedule that is ready for a visit of the types `starts`: what a scheduled type needs is
scheduled too, and so is whatever was visited and is needed by one of `starts`. -/
structure Ready (g : TypeGraph) (starts : List Nat) (s : Schedule) : Prop where
  closed : ∀ x ∈ s.order, ∀ y, g.Needs x y → y ∈ s.order
  apart : ∀ c ∈ starts, ∀ x ∈ s.visited, g.Needs c x → x ∈ s.order

namespace Ready

variable {g : TypeGraph} {starts added : List Nat} {s t : Schedule} {c x : Nat}

/-- A visit that a schedule is ready for schedules exactly what is needed. -/
theorem mem_order_iff (hready : g.Ready starts s) (h : g.Progress starts s t added) :
    x ∈ t.order ↔ x ∈ s.order ∨ ∃ c ∈ starts, g.Needs c x := by
  rw [h.order, List.mem_append]
  constructor
  · rintro (hx | hx)
    · exact Or.inl hx
    · exact Or.inr (h.needed x hx)
  · rintro (hx | ⟨c, hc, hcx⟩)
    · exact Or.inl hx
    have hvisited : ∀ y, g.Needs c y → y ∈ t.visited → y ∈ s.order ∨ y ∈ added := by
      intro y hcy hy
      rcases (h.visited y).1 hy with hy | hy
      · exact Or.inl (hready.apart c hc y hy hcy)
      · exact Or.inr hy
    -- Along the chain from `c`, every type is scheduled since the one before it is.
    obtain ⟨hsched, hchain⟩ := hcx
    induction hchain with
    | refl => exact hvisited c (.refl hsched) (h.started c hc hsched)
    | @tail y z hcy hyz ih =>
      rcases ih with hy | hy
      · have hyz' : g.Needs y z := ⟨Needs.isScheduled ⟨hsched, hcy⟩, .single hyz⟩
        exact Or.inl (hready.closed y hy z hyz')
      · exact hvisited z ⟨hsched, hcy.tail hyz⟩ (h.closed y hy z hyz.1 hyz.2)

/-- A schedule that is ready for a visit of several types is ready for a visit of the first. -/
theorem head {rest : List Nat} (hready : g.Ready (c :: rest) s) : g.Ready [c] s where
  closed := hready.closed
  apart d hd := hready.apart d (List.mem_singleton.1 hd ▸ List.mem_cons_self)

/-- After a visit the schedule is ready for the visits that follow. -/
theorem rest {rest : List Nat} (hready : g.Ready (c :: rest) s)
    (h : g.Progress [c] s t added) : g.Ready rest t where
  closed x hx y hxy := by
    rw [hready.head.mem_order_iff h] at hx ⊢
    rcases hx with hx | ⟨d, hd, hdx⟩
    · exact Or.inl (hready.closed x hx y hxy)
    · exact Or.inr ⟨d, hd, hdx.trans hxy⟩
  apart d hd x hx hdx := by
    rw [h.order, List.mem_append]
    rcases (h.visited x).1 hx with hx | hx
    · exact Or.inl (hready.apart d (List.mem_cons_of_mem _ hd) x hx hdx)
    · exact Or.inr hx

/-- When the turn of a type begins, the schedule is ready for the visit of its parents. -/
theorem parents (hacyclic : g.Acyclic) (hready : g.Ready (c :: starts) s)
    (hc : g.IsScheduled c) : g.Ready (g.parents c) { s with visited := c :: s.visited } where
  closed := hready.closed
  apart d hd x hx hdx := by
    -- The turn of `c` has begun and is not over, but without cycles no parent needs `c`.
    rcases List.mem_cons.1 hx with rfl | hx
    · exact absurd hdx (not_needs_of_extends hacyclic hd)
    · exact hready.apart c List.mem_cons_self x hx (.head hc hd hdx)

end Ready

/-- The turn of a type that can be scheduled and was not visited before. -/
theorem visit_of_fresh {g : TypeGraph} {n : Nat} {s : Schedule} {c : Nat} (hc : g.IsScheduled c)
    (hfresh : c ∉ s.visited) :
    g.visit (n + 1) s c =
      let t := (g.parents c).foldl (g.visit n) { s with visited := c :: s.visited }
      { t with order := t.order ++ [c] } := by
  rw [visit, if_pos (by simp [hc, hfresh])]

/-- At the turn of a type that needs both of two types, of which `b` does not need `a`, the one that
is scheduled first is the one that its parents need first, if that is so for the visit of its
parents. -/
private theorem idxOf_visit_lt_iff {g : TypeGraph} (hacyclic : g.Acyclic) {b a c n : Nat}
    {s : Schedule} (hba : ¬g.Needs b a) (hcb : g.Needs c b) (hca : g.Needs c a)
    (hfresh : c ∉ s.visited) (has : a ∉ s.order)
    (hmem : ∀ x, x ∈ ((g.parents c).foldl (g.visit n) ⟨c :: s.visited, s.order⟩).order ↔
      x ∈ s.order ∨ ∃ d ∈ g.parents c, g.Needs d x)
    (ih : (∃ d ∈ g.parents c, g.Needs d b) → (∃ d ∈ g.parents c, g.Needs d a) →
      (((g.parents c).foldl (g.visit n) ⟨c :: s.visited, s.order⟩).order.idxOf b <
        ((g.parents c).foldl (g.visit n) ⟨c :: s.visited, s.order⟩).order.idxOf a ↔
        g.NeededFirst b a (g.parents c))) :
    (g.visit (n + 1) s c).order.idxOf b < (g.visit (n + 1) s c).order.idxOf a ↔
      g.NeededFirst b a (g.parents c) := by
  rw [visit_of_fresh hcb.1 hfresh]
  dsimp only
  generalize ((g.parents c).foldl (g.visit n) ⟨c :: s.visited, s.order⟩).order = above at *
  have hne : c ≠ b := fun heq => hba (heq ▸ hca)
  have hb : ∃ d ∈ g.parents c, g.Needs d b := hcb.eq_or_exists.resolve_left hne
  have hbo : b ∈ above := (hmem b).2 (Or.inr hb)
  by_cases heq : c = a
  · -- The type itself comes last, behind everything that its parents need.
    subst heq
    have hnone : ∀ d ∈ g.parents c, ¬g.Needs d c :=
      fun d hd => not_needs_of_extends hacyclic hd
    have hao : c ∉ above := by
      rw [hmem]
      rintro (hc | ⟨d, hd, hdc⟩)
      · exact has hc
      · exact hnone d hd hdc
    exact iff_of_true (idxOf_append_lt hbo hao) (neededFirst_of_forall_not hnone hb)
  · have ha : ∃ d ∈ g.parents c, g.Needs d a := hca.eq_or_exists.resolve_left heq
    have hao : a ∈ above := (hmem a).2 (Or.inr ha)
    rw [List.idxOf_append_of_mem hbo, List.idxOf_append_of_mem hao]
    exact ih hb ha

/-- Of two types that are not yet scheduled, of which `b` does not need `a`, visits of a graph
without cycles schedule `b` first if and only if it is needed first by the types that are
visited. -/
theorem idxOf_lt_iff_neededFirst {g : TypeGraph} (hacyclic : g.Acyclic) {b a : Nat}
    (hba : ¬g.Needs b a) {n : Nat} :
    ∀ (starts : List Nat) {s : Schedule}, unseen g.ids s.visited < n → g.Ready starts s →
      b ∉ s.order → a ∉ s.order → (∃ c ∈ starts, g.Needs c b) → (∃ c ∈ starts, g.Needs c a) →
      ((starts.foldl (g.visit n) s).order.idxOf b < (starts.foldl (g.visit n) s).order.idxOf a ↔
        g.NeededFirst b a starts) := by
  induction n with
  | zero => intro _ _ hn; omega
  | succ n ihn =>
    intro starts
    induction starts with
    | nil => intro _ _ _ _ _ ⟨c, hc, _⟩; simp at hc
    | cons c rest ih =>
      intro s hn hready hbs has hb ha
      obtain ⟨added, h⟩ := exists_progress_visit (c := c) hn
      have hn' : unseen g.ids (g.visit (n + 1) s c).visited < n + 1 :=
        (unseen_mono _ h.subset).trans_lt hn
      obtain ⟨later, hlater⟩ := exists_progress_visits rest hn'
      have hmem : ∀ x, x ∈ (g.visit (n + 1) s c).order ↔ x ∈ s.order ∨ g.Needs c x := by
        intro x
        rw [hready.head.mem_order_iff h]
        simp
      have hnot : ∀ x ∉ s.order, ¬g.Needs c x → x ∉ (g.visit (n + 1) s c).order :=
        fun x hx hcx hxo => ((hmem x).1 hxo).elim hx hcx
      have htail : ∀ x, ¬g.Needs c x → (∃ d ∈ c :: rest, g.Needs d x) →
          ∃ d ∈ rest, g.Needs d x := by
        rintro x hcx ⟨d, hd, hdx⟩
        rcases List.mem_cons.1 hd with rfl | hd
        · exact absurd hdx hcx
        · exact ⟨d, hd, hdx⟩
      rw [List.foldl_cons, neededFirst_cons_iff]
      -- What is scheduled at the turn of `c` stands before what is scheduled later, so `c` settles
      -- the matter unless it needs neither of the two.
      by_cases hcb : g.Needs c b
      · have hbo : b ∈ (g.visit (n + 1) s c).order := (hmem b).2 (Or.inr hcb)
        rw [hlater.order]
        by_cases hca : g.Needs c a
        · have hao : a ∈ (g.visit (n + 1) s c).order := (hmem a).2 (Or.inr hca)
          -- Had its turn begun before, what it needs would have been scheduled.
          have hfresh : c ∉ s.visited := by
            intro hc
            have hcs := hready.apart c List.mem_cons_self c hc (.refl hcb.1)
            exact hbs (hready.closed c hcs b hcb)
          have hlt := unseen_lt (List.subset_cons_self c s.visited) (mem_ids.2 hcb.1.lt_size)
            hfresh List.mem_cons_self
          have hnp : unseen g.ids (c :: s.visited) < n := by omega
          have hparents := hready.parents hacyclic hcb.1
          obtain ⟨above, habove⟩ := exists_progress_visits (g.parents c)
            (s := ⟨c :: s.visited, s.order⟩) hnp
          rw [List.idxOf_append_of_mem hbo, List.idxOf_append_of_mem hao]
          simp only [hcb, hca, not_true_eq_false, and_false, false_and, true_and, false_or]
          exact idxOf_visit_lt_iff hacyclic hba hcb hca hfresh has
            (fun x => hparents.mem_order_iff habove) (ihn (g.parents c) hnp hparents hbs has)
        · exact iff_of_true (idxOf_append_lt hbo (hnot a has hca)) (Or.inl ⟨hcb, hca⟩)
      · by_cases hca : g.Needs c a
        · have hao : a ∈ (g.visit (n + 1) s c).order := (hmem a).2 (Or.inr hca)
          have hlt : ((g.visit (n + 1) s c).order ++ later).idxOf a <
              ((g.visit (n + 1) s c).order ++ later).idxOf b :=
            idxOf_append_lt hao (hnot b hbs hcb)
          rw [hlater.order]
          exact iff_of_false (by omega) (by simp [hcb, hca])
        · rw [ih hn' (hready.rest h) (hnot b hbs hcb) (hnot a has hca) (htail b hcb hb)
            (htail a hca ha)]
          simp [hcb, hca]

/-! ## The schedule of an analyzed graph -/

section Analyzed

variable {p : Policy} {facts : List Fact} {i j a b : Nat}

/-- A type below an action is an action. -/
theorem isAction_of_extends {n m : TypeNode} (hn : (analyze p facts).1.node? i = some n)
    (hm : (analyze p facts).1.node? j = some m) (hij : (analyze p facts).1.Extends i j)
    (h : m.classification.isAction = true) : n.classification.isAction = true := by
  obtain ⟨n', hn'⟩ := exists_builtAs hn
  obtain ⟨m', hm'⟩ := exists_builtAs hm
  rw [hm'.classification] at h
  rw [hn'.classification]
  obtain ⟨k, hjk, hroot⟩ := isSubclass_iff.1 h
  have hij' : (build p facts).1.Extends i j := by
    unfold Extends at hij ⊢
    rwa [parents_analyze] at hij
  exact isSubclass_iff.2 ⟨k, hjk.head hij', hroot⟩

/-- Above a type of an analyzed graph that can be scheduled, only enumerations cannot be. -/
theorem IsScheduled.of_extends (hi : (analyze p facts).1.IsScheduled i)
    (hij : (analyze p facts).1.Extends i j) (henum : (analyze p facts).1.isEnum j = false) :
    (analyze p facts).1.IsScheduled j := by
  obtain ⟨n, m, hn, hm, -⟩ := extends_iff.1 hij
  obtain ⟨n', hn', hsched⟩ := satisfies_iff.1 hi
  obtain rfl : n = n' := Option.some_inj.1 (hn.symm.trans hn')
  simp only [isScheduled, Bool.and_eq_true, Bool.not_eq_true'] at hsched
  obtain ⟨⟨hnaction, -⟩, hnstruct⟩ := hsched
  have haction : m.classification.isAction = false := by
    by_contra h
    rw [Bool.not_eq_false] at h
    have := isAction_of_extends hn hm hij h
    simp [hnaction] at this
  have hmenum : m.classification.isEnum = false := by
    simpa [isEnum, satisfies, hm] using henum
  -- A struct above a type that is none would have been demoted.
  have hstruct : m.classification.representAsStruct = false := by
    by_cases hji : j = i
    · subst hji
      obtain rfl : m = n := Option.some_inj.1 (hm.symm.trans hn)
      exact hnstruct
    · have hi' : ¬(analyze p facts).1.IsStruct i := by
        simp [IsStruct, isStruct, satisfies, hn, hnstruct]
      have hj := stable_resolveCycles ((build p facts).1.classify p).1 p i j hi'
        (mem_ancestors_iff.2 ⟨hji, .single hij⟩)
      change ¬(analyze p facts).1.IsStruct j at hj
      simpa [IsStruct, isStruct, satisfies, hm] using hj
  exact satisfies_iff.2 ⟨m, hm, by simp [isScheduled, haction, hmenum, hstruct]⟩

/-- A type of an analyzed graph that can be scheduled needs what a chain of parents without
enumerations leads to. -/
theorem Needs.of_chain (ha : (analyze p facts).1.IsScheduled a)
    (h : ReflTransGen (fun i j => (analyze p facts).1.Extends i j ∧
      (analyze p facts).1.isEnum j = false) a b) : (analyze p facts).1.Needs a b := by
  induction h with
  | refl => exact .refl ha
  | @tail i j _ hij ih =>
    exact ih.trans ⟨ih.isScheduled, .single ⟨hij.1, ih.isScheduled.of_extends hij.1 hij.2⟩⟩

end Analyzed

/-- The schedule of a graph: the types that can be scheduled, once each, and of two types of which
`b` does not need `a`, if the graph has no cycles, `b` first if and only if it is needed first. -/
theorem schedule_spec (g : TypeGraph) :
    let order := (g.ids.foldl (g.visit (g.size + 1)) {}).order
    order.Nodup ∧ (∀ i, i ∈ order ↔ g.IsScheduled i) ∧
      (g.Acyclic → ∀ a b, a ∈ order → b ∈ order → ¬g.Needs b a →
        (order.idxOf b < order.idxOf a ↔ g.NeededFirst b a g.ids)) := by
  have hn : unseen g.ids ({} : Schedule).visited < g.size + 1 :=
    Nat.lt_succ_of_le (g.unseen_ids_le _)
  have hready : g.Ready g.ids {} := ⟨by simp, by simp⟩
  have hstart : ∀ i, g.IsScheduled i → ∃ c ∈ g.ids, g.Needs c i :=
    fun i hi => ⟨i, mem_ids.2 hi.lt_size, .refl hi⟩
  obtain ⟨added, h⟩ := exists_progress_visits g.ids hn
  have hmem : ∀ i, i ∈ (g.ids.foldl (g.visit (g.size + 1)) {}).order ↔ g.IsScheduled i := by
    intro i
    rw [hready.mem_order_iff h]
    constructor
    · rintro (hi | ⟨c, -, hci⟩)
      · simp at hi
      · exact hci.isScheduled
    · exact fun hi => Or.inr (hstart i hi)
  refine ⟨?_, hmem, fun hacyclic a b ha hb hba => ?_⟩
  · rw [h.order]
    simpa using h.nodup
  · exact idxOf_lt_iff_neededFirst hacyclic hba g.ids hn hready (by simp) (by simp)
      (hstart b ((hmem b).1 hb)) (hstart a ((hmem a).1 ha))

/-- What an analyzed graph without cycles emits, it emits once, and an ancestor comes first if and
only if it is needed first. That is so if a chain of parents without enumerations leads to it. -/
theorem ancestor_emitted_first_iff (p : Policy) (facts : List Fact)
    (hacyclic : (analyze p facts).1.Acyclic) {a b : Nat}
    (ha : a ∈ (analyze p facts).1.emissionOrder p) (hb : b ∈ (analyze p facts).1.emissionOrder p)
    (hab : b ∈ (analyze p facts).1.ancestors a) :
    ((analyze p facts).1.emissionOrder p).Nodup ∧
      (((analyze p facts).1.emissionOrder p).idxOf b <
          ((analyze p facts).1.emissionOrder p).idxOf a ↔
        (analyze p facts).1.NeededFirst b a (analyze p facts).1.ids) ∧
      (ReflTransGen (fun i j => (analyze p facts).1.Extends i j ∧
          (analyze p facts).1.isEnum j = false) a b →
        ((analyze p facts).1.emissionOrder p).idxOf b <
          ((analyze p facts).1.emissionOrder p).idxOf a) := by
  obtain ⟨hnodup, hmem, hfirst⟩ := (analyze p facts).1.schedule_spec
  obtain ⟨hne, hchain⟩ := mem_ancestors_iff.1 hab
  obtain ⟨hao, haq⟩ := List.mem_filter.1 ha
  obtain ⟨hbo, hbq⟩ := List.mem_filter.1 hb
  have hba : ¬(analyze p facts).1.Needs b a :=
    fun h => hacyclic b (TransGen.trans_right h.reflTransGen hchain)
  have hsched : (analyze p facts).1.IsScheduled a := (hmem a).1 hao
  unfold emissionOrder
  rw [idxOf_filter_lt_iff hbq haq, hfirst hacyclic a b hao hbo hba]
  refine ⟨hnodup.filter _, Iff.rfl, fun h => ?_⟩
  exact neededFirst_of_needs hacyclic (.of_chain hsched h) hne
    ⟨a, mem_ids.2 hsched.lt_size, .refl hsched⟩

/-- A class below the days of the week, which are an enumeration. -/
def weekdays : List Fact :=
  [.classFact "Sub" ["DayOfWeek"] "" false,
    .classFact "DayOfWeek" ["Enumeration"] "" false,
    .classFact "Enumeration" ["Thing"] "" false,
    .classFact "Thing" [] "" false,
    .literalFact "Monday" "DayOfWeek" false]

/-- Where the ancestor beyond an enumeration is a class that was seen before, it comes first. -/
theorem ancestor_emitted_first_reverse :
    (analyze .standard weekdays.reverse).1.Acyclic ∧
      1 ∈ (analyze .standard weekdays.reverse).1.ancestors 3 ∧
      (analyze .standard weekdays.reverse).1.emissionOrder .standard = [0, 1, 3] ∧
      ([0, 1, 3].idxOf 1 < [0, 1, 3].idxOf 3 ↔
        (analyze .standard weekdays.reverse).1.NeededFirst 1 3 [0, 1, 2, 3]) := by
  have horder : (analyze .standard weekdays.reverse).1.emissionOrder .standard = [0, 1, 3] := by
    decide +kernel
  have hids : (analyze .standard weekdays.reverse).1.ids = [0, 1, 2, 3] := by decide +kernel
  have hacyclic : (analyze .standard weekdays.reverse).1.Acyclic := by decide +kernel
  have hab : 1 ∈ (analyze .standard weekdays.reverse).1.ancestors 3 := by decide +kernel
  have h := ancestor_emitted_first_iff .standard weekdays.reverse hacyclic (a := 3) (b := 1)
    (by rw [horder]; decide) (by rw [horder]; decide) hab
  rw [horder, hids] at h
  exact ⟨hacyclic, hab, horder, h.2.1⟩

/-- The class is emitted before the root of all enumerations, which is one of its ancestors. -/
theorem ancestor_emitted_late :
    (analyze .standard weekdays).1.Acyclic ∧
      0 ∈ (analyze .standard weekdays).1.emissionOrder .standard ∧
      2 ∈ (analyze .standard weekdays).1.emissionOrder .standard ∧
      2 ∈ (analyze .standard weekdays).1.ancestors 0 ∧
      ((analyze .standard weekdays).1.emissionOrder .standard).idxOf 0 <
        ((analyze .standard weekdays).1.emissionOrder .standard).idxOf 2 := by
  decide +kernel

end VocabularyCompiler.TypeGraph

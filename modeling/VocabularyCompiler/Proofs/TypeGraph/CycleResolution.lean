import VocabularyCompiler.Proofs.TypeGraph.CycleSearch

/-!
# Which structs survive the resolution of cycles

The first pass goes through the types in order and demotes each one that contains itself, with the
earlier demotions applied. `Surviving` says what is left of the structs after each step without
reference to the search, and `isStruct_breakCycles_iff` shows that the pass computes it. The second
pass demotes ancestors in rounds until a round changes nothing. Since the ancestors of an ancestor
are ancestors too, the first round demotes all there is to demote (`Settled`), and the round after
it changes nothing, which is where the loop stops.
-/

namespace VocabularyCompiler.TypeGraph

open Relation (TransGen)

/-- Whether the type at a position is an enumeration. -/
def isEnum (g : TypeGraph) (i : Nat) : Bool := g.satisfies (fun n => n.classification.isEnum) i

/-- The structs that are left when the first `k` types were gone through: the next one goes if it
is no enumeration and a closed walk of containment among those that are left leads through it. -/
def Surviving (g : TypeGraph) (p : Policy) : Nat → Nat → Prop
  | 0 => g.IsStruct
  | k + 1 => fun i => g.Surviving p k i ∧
    ¬(i = k ∧ g.isEnum k = false ∧ TransGen (g.Contains p (g.Surviving p k)) k k)

/-- The survivors get fewer. -/
theorem Surviving.of_le {g : TypeGraph} {p : Policy} {k m i : Nat} (hkm : k ≤ m)
    (h : g.Surviving p m i) : g.Surviving p k i := by
  induction m, hkm using Nat.le_induction with
  | base => exact h
  | succ m _ ih => exact ih h.1

/-- The candidates for demotion are the structs that are no enumerations. -/
theorem isCandidate_iff {g : TypeGraph} {i : Nat} :
    g.isCandidate i = true ↔ g.IsStruct i ∧ g.isEnum i = false := by
  unfold isCandidate IsStruct isStruct isEnum satisfies
  cases g.node? i <;> simp [and_comm]

/-- Enumerations are the same in graphs that differ in nothing but which types are structs. -/
theorem SameButStructs.isEnum_eq {g h : TypeGraph} (hg : g.SameButStructs h) (i : Nat) :
    g.isEnum i = h.isEnum i := by
  have henum := hg.map_node? (fun n => n.classification.isEnum) (fun _ => rfl) i
  have heq : ∀ f : TypeGraph,
      f.isEnum i = ((f.node? i).map fun n => n.classification.isEnum).getD false :=
    fun f => by cases hn : f.node? i <;> simp [isEnum, satisfies, hn]
  rw [heq, heq, henum]

/-! ## The first pass -/

/-- A step of the first pass on the graph alone. -/
theorem fst_breakCycle (p : Policy) (s : TypeGraph × Diagnostics) (i : Nat) :
    (breakCycle p s i).1 =
      if s.1.isCandidate i = true ∧ (s.1.cycle? p i).isSome = true then s.1.demote i else s.1 := by
  unfold breakCycle
  by_cases hc : s.1.isCandidate i = true
  · cases hp : s.1.cycle? p i <;> simp [hc, hp]
  · simp [hc]

/-- The first pass over the first `k` types leaves the survivors as the only structs and changes
nothing else. -/
theorem isStruct_breakCycles_iff (g : TypeGraph) (p : Policy) (k : Nat) :
    let s := (List.range k).foldl (breakCycle p) (g, [])
    s.1.SameButStructs g ∧ ∀ i, s.1.IsStruct i ↔ g.Surviving p k i := by
  induction k with
  | zero => exact ⟨.refl g, fun i => Iff.rfl⟩
  | succ k ih =>
    rw [List.range_succ, List.foldl_append]
    generalize (List.range k).foldl (breakCycle p) (g, []) = s at ih
    obtain ⟨hsame, hstruct⟩ := ih
    simp only [List.foldl_cons, List.foldl_nil]
    have hset : s.1.IsStruct = g.Surviving p k := funext fun i => propext (hstruct i)
    have hcond : s.1.isCandidate k = true ∧ (s.1.cycle? p k).isSome = true ↔
        g.Surviving p k k ∧ g.isEnum k = false ∧
          TransGen (g.Contains p (g.Surviving p k)) k k := by
      rw [isCandidate_iff, cycle?_isSome_iff, hsame.isEnum_eq, hsame.contains_eq, hset, and_assoc]
    rw [fst_breakCycle]
    split
    next hdemoted =>
      obtain ⟨-, henum, hwalk⟩ := hcond.1 hdemoted
      refine ⟨(s.1.sameButStructs_demote k).trans hsame, fun i => ?_⟩
      rw [isStruct_demote_iff, hstruct]
      exact and_congr_right fun _ => ⟨fun hne h => hne h.1, fun h heq => h ⟨heq, henum, hwalk⟩⟩
    next hkept =>
      refine ⟨hsame, fun i => ?_⟩
      rw [hstruct]
      refine ⟨fun hi => ⟨hi, fun h => hkept (hcond.2 ?_)⟩, fun h => h.1⟩
      obtain ⟨rfl, henum, hwalk⟩ := h
      exact ⟨hi, henum, hwalk⟩

/-! ## The second pass -/

/-- The structs that are no ancestors of any of the first `k` types that are none. -/
def Settled (g : TypeGraph) (k i : Nat) : Prop :=
  g.IsStruct i ∧ ∀ j < k, ¬g.IsStruct j → i ∉ g.ancestors j

/-- The demotion of one ancestor, on the graph alone. -/
theorem fst_demoteAncestor (name : String) (s : TypeGraph × Diagnostics) (i : Nat) :
    (demoteAncestor name s i).1.SameButStructs s.1 ∧
      ∀ j, (demoteAncestor name s i).1.IsStruct j ↔ s.1.IsStruct j ∧ j ≠ i := by
  obtain ⟨g, notes⟩ := s
  unfold demoteAncestor
  dsimp only
  split
  next => exact ⟨g.sameButStructs_demote i, g.isStruct_demote_iff i⟩
  next hstruct =>
    exact ⟨.refl _, fun j => ⟨fun hj => ⟨hj, fun heq => hstruct (heq ▸ hj)⟩, And.left⟩⟩

/-- The demotion of several ancestors leaves the other structs and changes nothing else. -/
theorem fst_foldl_demoteAncestor (name : String) (l : List Nat) (s : TypeGraph × Diagnostics) :
    (l.foldl (demoteAncestor name) s).1.SameButStructs s.1 ∧
      ∀ j, (l.foldl (demoteAncestor name) s).1.IsStruct j ↔ s.1.IsStruct j ∧ j ∉ l := by
  induction l generalizing s with
  | nil => exact ⟨.refl _, fun j => by simp⟩
  | cons i rest ih =>
    obtain ⟨hsame, hstruct⟩ := fst_demoteAncestor name s i
    obtain ⟨hsame', hstruct'⟩ := ih (demoteAncestor name s i)
    refine ⟨hsame'.trans hsame, fun j => ?_⟩
    rw [List.foldl_cons, hstruct', hstruct, List.mem_cons, not_or, and_assoc]

/-- A round over the first `k` types leaves the settled structs and changes nothing else. -/
theorem isStruct_foldl_demoteAncestors_iff (s : TypeGraph × Diagnostics) (k : Nat) :
    let t := (List.range k).foldl demoteAncestors s
    t.1.SameButStructs s.1 ∧ ∀ i, t.1.IsStruct i ↔ s.1.Settled k i := by
  induction k with
  | zero => exact ⟨.refl _, fun i => by simp [Settled]⟩
  | succ k ih =>
    rw [List.range_succ, List.foldl_append]
    generalize (List.range k).foldl demoteAncestors s = t at ih
    obtain ⟨hsame, hstruct⟩ := ih
    simp only [List.foldl_cons, List.foldl_nil]
    have hnext : ∀ i, s.1.Settled (k + 1) i ↔
        s.1.Settled k i ∧ (¬s.1.IsStruct k → i ∉ s.1.ancestors k) := by
      intro i
      unfold Settled
      rw [and_assoc]
      refine and_congr_right fun _ => ⟨fun h => ⟨fun j hj => h j (by omega), h k (by omega)⟩, ?_⟩
      rintro ⟨h, hk⟩ j hj
      rcases Nat.lt_succ_iff_lt_or_eq.1 hj with hj | rfl
      · exact h j hj
      · exact hk
    unfold demoteAncestors
    split
    next hk =>
      refine ⟨hsame, fun i => ?_⟩
      have hks : s.1.IsStruct k := ((hstruct k).1 hk).1
      rw [hstruct, hnext]
      exact ⟨fun hi => ⟨hi, fun hnk => absurd hks hnk⟩, And.left⟩
    next hk =>
      obtain ⟨hsame', hstruct'⟩ :=
        fst_foldl_demoteAncestor (t.1.nameOf k) (t.1.ancestors k) t
      refine ⟨hsame'.trans hsame, fun i => ?_⟩
      rw [hstruct', hstruct, hnext, hsame.ancestors_eq]
      refine and_congr_right fun hi => ⟨fun h _ => h, fun h hik => ?_⟩
      -- A struct that was demoted in this round is an ancestor of an earlier type, and so are
      -- its own ancestors.
      by_cases hks : s.1.IsStruct k
      · have hnk : ¬s.1.Settled k k := fun hk' => hk ((hstruct k).2 hk')
        obtain ⟨j, hj, hjs, hkj⟩ : ∃ j < k, ¬s.1.IsStruct j ∧ k ∈ s.1.ancestors j := by
          by_contra hnone
          exact hnk ⟨hks, fun j hj hjs hkj => hnone ⟨j, hj, hjs, hkj⟩⟩
        have hij : i ≠ j := fun heq => hjs (heq ▸ hi.1)
        exact hi.2 j hj hjs (mem_ancestors_trans hkj hik hij)
      · exact h hks hik

/-- The structs after a round. -/
theorem isStruct_demoteRound_iff (s : TypeGraph × Diagnostics) :
    (demoteRound s).1.SameButStructs s.1 ∧
      ∀ i, (demoteRound s).1.IsStruct i ↔ s.1.Settled s.1.size i :=
  isStruct_foldl_demoteAncestors_iff s s.1.size

/-- Graphs in which no type that is no struct has a struct among its ancestors. -/
def Stable (g : TypeGraph) : Prop := ∀ i j, ¬g.IsStruct i → j ∈ g.ancestors i → ¬g.IsStruct j

/-- One round makes a graph stable. -/
theorem stable_demoteRound (s : TypeGraph × Diagnostics) : (demoteRound s).1.Stable := by
  obtain ⟨hsame, hstruct⟩ := isStruct_demoteRound_iff s
  intro i j hi hij hj
  rw [hstruct] at hi hj
  rw [hsame.ancestors_eq] at hij
  -- Either `i` was demoted for a type below it, of which `j` is an ancestor too, or it never was a
  -- struct.
  by_cases his : s.1.IsStruct i
  · obtain ⟨k, hk, hks, hik⟩ : ∃ k < s.1.size, ¬s.1.IsStruct k ∧ i ∈ s.1.ancestors k := by
      by_contra hnone
      exact hi ⟨his, fun k hk hks hik => hnone ⟨k, hk, hks, hik⟩⟩
    have hjk : j ≠ k := fun heq => hks (heq ▸ hj.1)
    exact hj.2 k hk hks (mem_ancestors_trans hik hij hjk)
  · have hlt : i < s.1.size := by
      obtain ⟨k, hik, -⟩ := TransGen.head'_iff.1 (mem_ancestors_iff.1 hij).2
      exact hik.lt_size_left
    exact hj.2 i hlt his hij

/-- A round over a stable graph changes and notes nothing. -/
theorem demoteRound_of_stable {s : TypeGraph × Diagnostics} (h : s.1.Stable) :
    demoteRound s = s := by
  have hone : ∀ i, demoteAncestors s i = s := by
    intro i
    unfold demoteAncestors
    split
    next => rfl
    next hi =>
      have hfold : ∀ l : List Nat, (∀ j ∈ l, ¬s.1.IsStruct j) →
          l.foldl (demoteAncestor (s.1.nameOf i)) s = s := by
        intro l hl
        induction l with
        | nil => rfl
        | cons j rest ih =>
          have hj : demoteAncestor (s.1.nameOf i) s j = s := by
            unfold demoteAncestor
            exact if_neg (hl j List.mem_cons_self)
          rw [List.foldl_cons, hj]
          exact ih fun k hk => hl k (List.mem_cons_of_mem _ hk)
      exact hfold _ fun j hj => h i j hi hj
  unfold demoteRound
  induction s.1.ids with
  | nil => rfl
  | cons i rest ih => rw [List.foldl_cons, hone, ih]

/-- The loop over rounds comes to what its first round comes to. -/
theorem demoteUntilStable_eq_demoteRound (s : TypeGraph × Diagnostics) :
    demoteUntilStable s = demoteRound s := by
  have hagain : demoteRound (demoteRound s) = demoteRound s :=
    demoteRound_of_stable (stable_demoteRound s)
  rw [demoteUntilStable]
  split
  · rw [demoteUntilStable, hagain, if_neg (lt_irrefl _)]
  · rfl

/-! ## Both passes -/

/-- The resolution of cycles leaves those survivors of the first pass as structs that are no
ancestors of a type that did not survive it, and changes nothing else. -/
theorem isStruct_resolveCycles_iff (g : TypeGraph) (p : Policy) :
    (g.resolveCycles p).1.SameButStructs g ∧
      ∀ i, (g.resolveCycles p).1.IsStruct i ↔
        g.Surviving p g.size i ∧ ∀ j < g.size, ¬g.Surviving p g.size j → i ∉ g.ancestors j := by
  obtain ⟨hsame, hstruct⟩ := g.isStruct_breakCycles_iff p g.size
  have hround := isStruct_demoteRound_iff ((List.range g.size).foldl (breakCycle p) (g, []))
  unfold resolveCycles ids
  rw [demoteUntilStable_eq_demoteRound]
  -- The round works on the survivors of the first pass, with the ancestors that were there before.
  refine ⟨hround.1.trans hsame, fun i => ?_⟩
  rw [hround.2, Settled, hstruct, hsame.size_eq, hsame.ancestors_eq]
  simp only [hstruct]

/-- After the resolution of cycles no type that is no struct has a struct among its ancestors. -/
theorem stable_resolveCycles (g : TypeGraph) (p : Policy) : (g.resolveCycles p).1.Stable := by
  unfold resolveCycles
  rw [demoteUntilStable_eq_demoteRound]
  exact stable_demoteRound _

/-- The walks over a graph come to an end: to allow a search for a cycle or a gathering of
ancestors more steps than there are types makes no difference. -/
def WalksEnd (g : TypeGraph) (p : Policy) : Prop :=
  ∀ i < g.size, ∀ n, g.size < n →
    g.search p i n [] i = g.search p i (g.size + 1) [] i ∧ g.layersAbove n [i] [i] = g.ancestors i

/-- The walks over every graph come to an end. -/
theorem walksEnd (g : TypeGraph) (p : Policy) : g.WalksEnd p := by
  intro i hi n hn
  have hnil := g.unseen_ids_le []
  have hone := g.unseen_ids_le [i]
  exact ⟨search_eq_of_unseen_lt hi (by omega) (by omega),
    layersAbove_eq_of_unseen_le (by omega) (by omega)⟩

/-- What the resolution of cycles comes to. It ends: no walk over one of the graphs on the way is
cut off, and a further round of demotions would change and note nothing. Structs afterwards are the
types that survive the first pass and are no ancestors of a type that does not. So no type that is
no struct has a struct among its ancestors, no type becomes a struct, and nothing but which types
are structs changes. -/
theorem resolveCycles_exact (g : TypeGraph) (p : Policy) :
    (∀ h : TypeGraph, h.SameButStructs g → h.WalksEnd p) ∧
      demoteRound (g.resolveCycles p) = g.resolveCycles p ∧
      (∀ i, (g.resolveCycles p).1.IsStruct i ↔
        g.Surviving p g.size i ∧ ∀ j < g.size, ¬g.Surviving p g.size j → i ∉ g.ancestors j) ∧
      (∀ i j, ¬(g.resolveCycles p).1.IsStruct i → j ∈ (g.resolveCycles p).1.ancestors i →
        ¬(g.resolveCycles p).1.IsStruct j) ∧
      (∀ i, (g.resolveCycles p).1.IsStruct i → g.IsStruct i) ∧
      (g.resolveCycles p).1.SameButStructs g := by
  obtain ⟨hsame, hstruct⟩ := g.isStruct_resolveCycles_iff p
  have hstable := g.stable_resolveCycles p
  refine ⟨fun h _ => h.walksEnd p, demoteRound_of_stable hstable, hstruct, hstable, fun i hi => ?_,
    hsame⟩
  exact ((hstruct i).1 hi).1.of_le (Nat.zero_le _)

/-- After the resolution of cycles no closed walk of containment leads through a struct that is no
enumeration. -/
theorem not_transGen_resolveCycles (g : TypeGraph) (p : Policy) :
    ¬∃ i, (g.resolveCycles p).1.IsStruct i ∧ (g.resolveCycles p).1.isEnum i = false ∧
      TransGen ((g.resolveCycles p).1.Contains p (g.resolveCycles p).1.IsStruct) i i := by
  obtain ⟨hsame, hstruct⟩ := g.isStruct_resolveCycles_iff p
  generalize (g.resolveCycles p).1 = h at hsame hstruct ⊢
  have hsurvives : ∀ i, h.IsStruct i → g.Surviving p g.size i := fun i hi => ((hstruct i).1 hi).1
  rintro ⟨i, hi, henum, hwalk⟩
  obtain ⟨n, hn, -⟩ := satisfies_iff.1 hi
  have hlt : i + 1 ≤ g.size := hsame.size_eq ▸ lt_size_of_node? hn
  -- The type survived its own step, and the walk was there at that time.
  refine ((hsurvives i hi).of_le hlt).2 ⟨rfl, hsame.isEnum_eq i ▸ henum, ?_⟩
  rw [hsame.contains_eq] at hwalk
  exact TransGen.mono (g.contains_mono p fun j hj => (hsurvives j hj).of_le (by omega)) i i hwalk

/-- After the resolution of cycles the search finds no cycle from a candidate for demotion. -/
theorem cycle?_resolveCycles {g : TypeGraph} {p : Policy} {i : Nat}
    (h : (g.resolveCycles p).1.isCandidate i = true) : (g.resolveCycles p).1.cycle? p i = none := by
  obtain ⟨hstruct, henum⟩ := isCandidate_iff.1 h
  rw [← Option.not_isSome_iff_eq_none, cycle?_isSome_iff]
  exact fun hwalk => g.not_transGen_resolveCycles p ⟨i, hstruct, henum, hwalk⟩

/-- After the resolution of cycles there are no containment cycles: none is found, and no closed
walk of containment leads through a struct that is no enumeration. -/
theorem structCycles_resolveCycles (g : TypeGraph) (p : Policy) :
    (g.resolveCycles p).1.structCycles p = [] ∧
      ¬∃ i, (g.resolveCycles p).1.IsStruct i ∧ (g.resolveCycles p).1.isEnum i = false ∧
        TransGen ((g.resolveCycles p).1.Contains p (g.resolveCycles p).1.IsStruct) i i := by
  refine ⟨List.filterMap_eq_nil_iff.2 fun i hi => ?_, g.not_transGen_resolveCycles p⟩
  rw [cycle?_resolveCycles (List.mem_filter.1 hi).2]
  rfl

end VocabularyCompiler.TypeGraph

import VocabularyCompiler.Proofs.FirstOccurrences
import VocabularyCompiler.Proofs.TypeGraph.Ancestry

/-!
# Two ways up a graph

A climb goes up one parent after another, as far as each of them leads, and stops at a name.
Ancestors are gathered one layer after another, which is the order in which a queue would bring them
up (`ancestors_eq_meet`). On any graph, cyclic or not, both end and both find all that a chain of
parents leads to. A layer holds what is one step farther up than the layer before it, so ancestors
come in the order of their distance (`pairwise_layersAbove`). `ancestry_exact` puts this together.
-/

namespace VocabularyCompiler.TypeGraph

open Relation (ReflTransGen TransGen)

variable {g : TypeGraph} {name : String} {i : Nat}

/-! ## The climb is never cut off -/

/-- To go on to a parent forgets nothing that was visited, if that holds for the climb to it. -/
private theorem subset_of_climbTo {find : List Nat → Nat → Option (List Nat)}
    (hfind : ∀ {visited i after}, find visited i = some after → visited ⊆ after) {parent : String}
    {visited after : List Nat} (h : g.climbTo name find visited parent = some after) :
    visited ⊆ after := by
  unfold climbTo at h
  split at h
  next => cases h
  next =>
    cases hid : g.id? parent with
    | none =>
      rw [hid] at h
      cases h
      exact List.Subset.refl _
    | some i =>
      rw [hid] at h
      exact hfind h

/-- A climb forgets nothing that was visited. -/
theorem subset_of_climb {n : Nat} {visited after : List Nat}
    (h : g.climb name n visited i = some after) : visited ⊆ after := by
  induction n generalizing visited i after with
  | zero =>
    cases h
    exact List.Subset.refl _
  | succ n ih =>
    unfold climb at h
    split at h
    next =>
      cases h
      exact List.Subset.refl _
    next =>
      refine List.Subset.trans (List.subset_cons_self i visited) ?_
      generalize i :: visited = before, g.parentNames i = parents at h
      induction parents generalizing before with
      | nil =>
        cases h
        exact List.Subset.refl _
      | cons parent rest ihrest =>
        rw [List.foldlM_cons, Option.bind_eq_bind, Option.bind_eq_some_iff] at h
        obtain ⟨middle, hstep, hrest⟩ := h
        exact List.Subset.trans (subset_of_climbTo ih hstep) (ihrest middle hrest)

/-- Two climbs that agree while few types are unseen agree on all parents. -/
private theorem foldlM_climbTo_congr {n : Nat} {find find' : List Nat → Nat → Option (List Nat)}
    (hsubset : ∀ {visited i after}, find visited i = some after → visited ⊆ after)
    (hfind : ∀ visited i, i < g.size → unseen g.ids visited < n →
      find visited i = find' visited i) (parents : List String) {visited : List Nat}
    (hn : unseen g.ids visited < n) :
    parents.foldlM (g.climbTo name find) visited =
      parents.foldlM (g.climbTo name find') visited := by
  induction parents generalizing visited with
  | nil => rfl
  | cons parent rest ih =>
    have hstep : g.climbTo name find visited parent = g.climbTo name find' visited parent := by
      unfold climbTo
      cases hid : g.id? parent with
      | none => rfl
      | some i => rw [Option.elim_some, Option.elim_some, hfind visited i (lt_size_of_id? hid) hn]
    rw [List.foldlM_cons, List.foldlM_cons, ← hstep]
    cases hmiddle : g.climbTo name find visited parent with
    | none => rfl
    | some middle =>
      exact ih ((unseen_mono _ (subset_of_climbTo hsubset hmiddle)).trans_lt hn)

/-- With more steps than there are unseen types, their number makes no difference to a climb. -/
theorem climb_eq_of_unseen_lt {n m : Nat} {visited : List Nat} (hi : i < g.size)
    (hn : unseen g.ids visited < n) (hm : unseen g.ids visited < m) :
    g.climb name n visited i = g.climb name m visited i := by
  induction n generalizing m visited i with
  | zero => omega
  | succ n ih =>
    obtain ⟨m, rfl⟩ : ∃ k, m = k + 1 := ⟨m - 1, by omega⟩
    unfold climb
    split
    next => rfl
    next hfresh =>
      have hlt := unseen_lt (List.subset_cons_self i visited) (mem_ids.2 hi) hfresh
        List.mem_cons_self
      refine foldlM_climbTo_congr (n := min n m) subset_of_climb (fun seen j hj hseen => ?_) _
        (by omega)
      exact ih hj (by omega) (by omega)

/-! ## Layers and distances -/

/-- The type at `j` is `n` steps to a parent up from the type at `i`. -/
inductive Above (g : TypeGraph) (i : Nat) : Nat → Nat → Prop where
  | self : Above g i 0 i
  | parent {n j k : Nat} (hj : Above g i n j) (hjk : g.Extends j k) : Above g i (n + 1) k

/-- The type at `j` is `n` steps up from the type at `i`, and no fewer. -/
structure AtDistance (g : TypeGraph) (i n j : Nat) : Prop where
  above : g.Above i n j
  least : ∀ m, g.Above i m j → n ≤ m

/-- The types of the next layer: parents of this one that were not seen before. -/
def nextLayer (g : TypeGraph) (seen layer : List Nat) : List Nat :=
  ((layer.flatMap g.parents).filter (· ∉ seen)).eraseDups

/-- Nothing stands above an empty layer. -/
theorem layersAbove_nil (g : TypeGraph) (n : Nat) (seen : List Nat) :
    g.layersAbove n seen [] = [] := by
  cases n <;> rfl

/-- Above a layer stand the next one and what stands above that. -/
theorem layersAbove_succ (g : TypeGraph) (n : Nat) (seen layer : List Nat) :
    g.layersAbove (n + 1) seen layer = g.nextLayer seen layer ++
      g.layersAbove n (seen ++ g.nextLayer seen layer) (g.nextLayer seen layer) := by
  rw [layersAbove]
  split
  next hnext =>
    have hempty : g.nextLayer seen layer = [] := hnext
    rw [hempty, layersAbove_nil, List.append_nil]
  next => rfl

/-- The layers hold nothing that was seen before. -/
theorem notMem_seen_of_mem_layersAbove {n j : Nat} {seen layer : List Nat}
    (h : j ∈ g.layersAbove n seen layer) : j ∉ seen := by
  induction n generalizing seen layer with
  | zero => cases h
  | succ n ih =>
    rw [layersAbove_succ, List.mem_append] at h
    rcases h with hnext | hrest
    · exact (mem_nextLayer.1 hnext).2
    · exact fun hj => ih hrest (List.mem_append_left _ hj)

/-- The layers hold each type once. -/
theorem nodup_layersAbove (n : Nat) (seen layer : List Nat) :
    (g.layersAbove n seen layer).Nodup := by
  induction n generalizing seen layer with
  | zero => exact List.nodup_nil
  | succ n ih =>
    rw [layersAbove_succ]
    refine List.nodup_append.2 ⟨nodup_eraseDups _, ih _ _, fun a ha b hb heq => ?_⟩
    exact notMem_seen_of_mem_layersAbove hb (List.mem_append_right _ (heq ▸ ha))

/-- If a layer holds what is at one distance, and what is no farther up was seen, then the next one
holds what is one step farther. -/
theorem mem_nextLayer_iff_atDistance {d : Nat} {seen layer : List Nat}
    (hseen : ∀ j, j ∈ seen ↔ ∃ m ≤ d, g.Above i m j)
    (hlayer : ∀ j, j ∈ layer ↔ g.AtDistance i d j) (k : Nat) :
    k ∈ g.nextLayer seen layer ↔ g.AtDistance i (d + 1) k := by
  have hnot : k ∉ seen ↔ ∀ m, g.Above i m k → d + 1 ≤ m := by
    rw [hseen]
    constructor
    · exact fun h m hm => Nat.lt_of_not_le fun hle => h ⟨m, hle, hm⟩
    · rintro h ⟨m, hle, hm⟩
      exact absurd (h m hm) (by omega)
  rw [nextLayer, mem_nextLayer, hnot]
  constructor
  · rintro ⟨⟨j, hj, hjk⟩, hleast⟩
    exact ⟨.parent ((hlayer j).1 hj).above hjk, hleast⟩
  · rintro ⟨habove, hleast⟩
    refine ⟨?_, hleast⟩
    cases habove with
    | @parent _ j _ hj hjk =>
      -- A shorter way to the type below would be one to this type as well.
      refine ⟨j, (hlayer j).2 ⟨hj, fun m hm => ?_⟩, hjk⟩
      exact Nat.succ_le_succ_iff.1 (hleast _ (.parent hm hjk))

/-- What stands above a layer stands in the order of its distance. -/
theorem pairwise_layersAbove {n d : Nat} {seen layer : List Nat}
    (hseen : ∀ j, j ∈ seen ↔ ∃ m ≤ d, g.Above i m j)
    (hlayer : ∀ j, j ∈ layer ↔ g.AtDistance i d j) :
    (∀ j ∈ g.layersAbove n seen layer, ∃ a, d < a ∧ g.AtDistance i a j) ∧
      (g.layersAbove n seen layer).Pairwise fun j k =>
        ∃ a b, g.AtDistance i a j ∧ g.AtDistance i b k ∧ a ≤ b := by
  induction n generalizing d seen layer with
  | zero => exact ⟨fun j hj => absurd hj List.not_mem_nil, List.Pairwise.nil⟩
  | succ n ih =>
    have hnext := mem_nextLayer_iff_atDistance hseen hlayer
    have hseen' : ∀ j, j ∈ seen ++ g.nextLayer seen layer ↔ ∃ m ≤ d + 1, g.Above i m j := by
      intro j
      rw [List.mem_append, hnext, hseen]
      constructor
      · rintro (⟨m, hm, hj⟩ | hj)
        · exact ⟨m, by omega, hj⟩
        · exact ⟨d + 1, le_rfl, hj.above⟩
      · rintro ⟨m, hm, hj⟩
        by_cases hnear : ∃ l ≤ d, g.Above i l j
        · exact Or.inl hnear
        · have hleast : ∀ l, g.Above i l j → d + 1 ≤ l := fun l hl =>
            Nat.lt_of_not_le fun hle => hnear ⟨l, hle, hl⟩
          obtain rfl : m = d + 1 := Nat.le_antisymm hm (hleast m hj)
          exact Or.inr ⟨hj, hleast⟩
    obtain ⟨hfar, hrest⟩ := ih hseen' hnext
    rw [layersAbove_succ]
    refine ⟨fun j hj => ?_, List.pairwise_append.2 ⟨?_, hrest, fun j hj k hk => ?_⟩⟩
    · rcases List.mem_append.1 hj with hj | hj
      · exact ⟨d + 1, Nat.lt_succ_self d, (hnext j).1 hj⟩
      · obtain ⟨a, ha, hja⟩ := hfar j hj
        exact ⟨a, by omega, hja⟩
    · refine List.pairwise_of_forall_mem_list fun j hj k hk => ?_
      exact ⟨d + 1, d + 1, (hnext j).1 hj, (hnext k).1 hk, le_rfl⟩
    · obtain ⟨b, hb, hkb⟩ := hfar k hk
      exact ⟨d + 1, b, (hnext j).1 hj, hkb, hb.le⟩

/-- Ancestors stand in the order of their distance. -/
theorem pairwise_ancestors (g : TypeGraph) (i : Nat) :
    (g.ancestors i).Pairwise fun j k =>
      ∃ a b, g.AtDistance i a j ∧ g.AtDistance i b k ∧ a ≤ b := by
  have hzero : ∀ j, g.Above i 0 j ↔ j = i := fun j =>
    ⟨fun h => by cases h; rfl, fun h => h ▸ .self⟩
  refine (pairwise_layersAbove (d := 0) (fun j => ?_) fun j => ?_).2
  · simp [hzero]
  · rw [List.mem_singleton]
    exact ⟨fun h => h ▸ ⟨.self, fun m _ => Nat.zero_le m⟩, fun h => (hzero j).1 h.above⟩

/-! ## A queue brings up the same -/

/-- A parent is met: it goes to the end of the queue, unless it was met before or is the type that
the queue began with. -/
def meetParent (start : Nat) (s : List Nat × List Nat) (parent : Nat) : List Nat × List Nat :=
  if parent = start ∨ parent ∈ s.2 then s else (s.1 ++ [parent], s.2 ++ [parent])

/-- Parents that are met go to the end of the queue if they are new, each at its first
occurrence. -/
theorem foldl_meetParent (start : Nat) (parents queue met : List Nat) :
    parents.foldl (meetParent start) (queue, met) =
      (queue ++ (parents.filter (· ∉ start :: met)).eraseDups,
        met ++ (parents.filter (· ∉ start :: met)).eraseDups) := by
  -- What goes to the queue is what is met.
  have hboth : ∃ new, parents.foldl (meetParent start) (queue, met) =
      (queue ++ new, met ++ new) := by
    refine List.foldlRecOn parents _ (motive := fun s => ∃ new, s = (queue ++ new, met ++ new))
      ⟨[], by simp⟩ ?_
    rintro _ ⟨new, rfl⟩ parent -
    unfold meetParent
    split
    · exact ⟨new, rfl⟩
    · exact ⟨new ++ [parent], by simp⟩
  obtain ⟨new, hnew⟩ := hboth
  have hview := @view_foldl_addNew Nat (List Nat × List Nat) _ (meetParent start)
    (fun s => start :: s.2)
    (fun s parent => by unfold meetParent; simp only [List.mem_cons]; split <;> rfl)
    parents (queue, met)
  rw [hnew] at hview ⊢
  dsimp only at hview
  rw [List.cons_append, List.cons_inj_right, List.append_cancel_left_eq] at hview
  rw [hview]

/-- To take a type from the queue and to meet its parents leaves less to do: whatever goes to the
queue was unseen until then. -/
theorem unseen_add_length_foldl_meetParent_le (start : Nat) {parents : List Nat}
    (hparents : parents ⊆ g.ids) (s : List Nat × List Nat) :
    unseen g.ids (parents.foldl (meetParent start) s).2 +
        (parents.foldl (meetParent start) s).1.length ≤
      unseen g.ids s.2 + s.1.length := by
  refine List.foldlRecOn parents _
    (motive := fun t : List Nat × List Nat =>
      unseen g.ids t.2 + t.1.length ≤ unseen g.ids s.2 + s.1.length) le_rfl ?_
  intro t ht parent hmem
  unfold meetParent
  split
  next => exact ht
  next hnew =>
    have hlt := unseen_lt (List.subset_append_left t.2 [parent]) (hparents hmem)
      (fun h => hnew (Or.inr h)) (List.mem_append_right _ List.mem_cons_self)
    rw [List.length_append, List.length_singleton]
    dsimp only
    omega

/-- Parents are positions. -/
theorem parents_subset_ids (g : TypeGraph) (i : Nat) : g.parents i ⊆ g.ids :=
  fun _ hj => mem_ids.2 (Extends.lt_size hj)

/-- What is met besides `met` when one type after another is taken from the front of a queue and its
parents are met, until the queue is empty. -/
def meet (g : TypeGraph) (start : Nat) : List Nat → List Nat → List Nat
  | [], met => met
  | i :: queue, met =>
    g.meet start ((g.parents i).foldl (meetParent start) (queue, met)).1
      ((g.parents i).foldl (meetParent start) (queue, met)).2
termination_by queue met => unseen g.ids met + queue.length
decreasing_by
  have hle := unseen_add_length_foldl_meetParent_le start (g.parents_subset_ids i) (queue, met)
  rw [List.length_cons]
  dsimp only at hle ⊢
  omega

/-- When a whole layer is taken from the queue, the next one has gone to its end. -/
theorem meet_append (g : TypeGraph) (start : Nat) (layer later met : List Nat) :
    g.meet start (layer ++ later) met =
      g.meet start (later ++ g.nextLayer (start :: met) layer)
        (met ++ g.nextLayer (start :: met) layer) := by
  induction layer generalizing later met with
  | nil => simp [nextLayer]
  | cons i rest ih =>
    have hsplit : g.nextLayer (start :: met) (i :: rest) =
        g.nextLayer (start :: met) [i] ++
          g.nextLayer (start :: (met ++ g.nextLayer (start :: met) [i])) rest := by
      unfold nextLayer
      rw [List.flatMap_cons, eraseDups_filter_append, List.flatMap_singleton, List.cons_append]
    have hfirst : (g.parents i).foldl (meetParent start) (rest ++ later, met) =
        (rest ++ (later ++ g.nextLayer (start :: met) [i]),
          met ++ g.nextLayer (start :: met) [i]) := by
      rw [foldl_meetParent, nextLayer, List.flatMap_singleton, List.append_assoc]
    rw [List.cons_append, meet, hfirst, ih, hsplit, List.append_assoc, List.append_assoc]

/-- A queue that begins with a layer brings up the layers above it. -/
theorem meet_eq_layersAbove {start n : Nat} {layer met : List Nat}
    (hn : unseen g.ids (start :: met) ≤ n) :
    g.meet start layer met = met ++ g.layersAbove n (start :: met) layer := by
  induction n generalizing layer met with
  | zero =>
    -- Nothing is unseen, so the next layer is empty.
    have hempty := layersAbove_of_unseen_eq_zero (Nat.le_zero.1 hn) 1 layer
    rw [layersAbove_succ, List.append_eq_nil_iff] at hempty
    have hlayer := g.meet_append start layer [] met
    rw [List.append_nil, List.nil_append, hempty.1, meet] at hlayer
    exact hlayer
  | succ n ih =>
    have hlayer := g.meet_append start layer [] met
    rw [List.append_nil, List.nil_append] at hlayer
    rw [layersAbove_succ, hlayer, ← List.append_assoc]
    by_cases hnext : g.nextLayer (start :: met) layer = []
    · rw [hnext, meet, layersAbove_nil, List.append_nil, List.append_nil]
    · obtain ⟨j, hj⟩ := List.exists_mem_of_ne_nil _ hnext
      obtain ⟨⟨k, -, hkj⟩, hnew⟩ := mem_nextLayer.1 hj
      have hlt := unseen_lt (List.subset_append_left (start :: met) _) (mem_ids.2 hkj.lt_size) hnew
        (List.mem_append_right _ hj)
      exact ih (by rw [← List.cons_append]; omega)

/-- Ancestors come as a queue that begins with the type brings them up. -/
theorem ancestors_eq_meet (g : TypeGraph) (i : Nat) : g.ancestors i = g.meet i [i] [] :=
  (meet_eq_layersAbove (g.unseen_ids_le [i])).symm

/-! ## Both ways -/

/-- A type is a parent of those that declare its name. -/
theorem extends_iff_mem_parentNames {j : Nat} {m : TypeNode} (hm : g.node? j = some m) :
    g.Extends i j ↔ m.name ∈ g.parentNames i := by
  constructor
  · intro h
    obtain ⟨parent, hparent, hid⟩ := List.mem_filterMap.1 h
    obtain ⟨m', hm', rfl⟩ := id?_eq_some_iff.1 hid
    obtain rfl := Option.some_inj.1 (hm.symm.trans hm')
    exact hparent
  · exact fun h => extends_of_parentName h (id?_eq_some_iff.2 ⟨m, hm, rfl⟩)

/-- A type other than the type at `i` is an ancestor of that one if and only if that one extends its
name. -/
theorem mem_ancestors_iff_isSubclass {j : Nat} {m : TypeNode} (hm : g.node? j = some m)
    (hne : j ≠ i) : j ∈ g.ancestors i ↔ g.isSubclass i m.name = true := by
  rw [mem_ancestors_iff, isSubclass_iff, TransGen.tail'_iff, and_iff_right hne]
  exact exists_congr fun k => and_congr_right fun _ => extends_iff_mem_parentNames hm

/-- What a type extends, on any graph. The climb to a name and the gathering of ancestors end: to
allow them more steps or layers than there are types makes no difference, and ancestors come as a
queue brings them up. The climb meets a name if and only if a chain of one or more declared parents
leads to it, which goes through types of the graph only. The ancestors are the other types that a
chain of parents leads to, each once, nearer ones first. So another type is an ancestor if and only
if its name is extended. -/
theorem ancestry_exact (g : TypeGraph) {i : Nat} {n : TypeNode} (hn : g.node? i = some n) :
    (∀ k, g.size < k → ∀ name, g.climb name k [] i = g.climb name (g.size + 1) [] i) ∧
      (∀ name, g.isSubclass i name = true ↔ TransGen g.Declares n.name name) ∧
      (∀ k, g.size ≤ k → g.layersAbove k [i] [i] = g.ancestors i) ∧
      g.ancestors i = g.meet i [i] [] ∧
      (∀ j, j ∈ g.ancestors i ↔ j ≠ i ∧ TransGen g.Extends i j) ∧
      (g.ancestors i).Nodup ∧
      ((g.ancestors i).Pairwise fun j k =>
        ∃ a b, g.AtDistance i a j ∧ g.AtDistance i b k ∧ a ≤ b) ∧
      ∀ j m, g.node? j = some m → j ≠ i → (j ∈ g.ancestors i ↔ g.isSubclass i m.name = true) := by
  have hnil := g.unseen_ids_le []
  have hone := g.unseen_ids_le [i]
  refine ⟨fun k hk name => ?_, isSubclass_iff_transGen (id?_eq_some_iff.2 ⟨n, hn, rfl⟩),
    fun k hk => layersAbove_eq_of_unseen_le (hone.trans hk) hone, g.ancestors_eq_meet i,
    fun j => mem_ancestors_iff, nodup_layersAbove _ _ _, g.pairwise_ancestors i,
    fun j m hm hne => mem_ancestors_iff_isSubclass hm hne⟩
  exact climb_eq_of_unseen_lt (lt_size_of_node? hn) (hnil.trans_lt hk)
    (Nat.lt_succ_of_le hnil)

/-- Types whose parents go round in circles, and a parent that is no type. -/
def circularSites : TypeGraph where
  nodes := [{ name := "Place", parents := ["Site", "Venue"] },
    { name := "Thing" },
    { name := "Site", parents := ["Landmark", "Region", "Place"] },
    { name := "Venue", parents := ["Site", "Venue"] },
    { name := "Region", parents := ["Thing", "Venue"] }]
  nodup := by decide

/-- From the first of them, all others are reached, and so is the name that is no type. -/
theorem ancestry_exact_circularSites :
    circularSites.node? 0 = some { name := "Place", parents := ["Site", "Venue"] } ∧
      circularSites.ancestors 0 = [2, 3, 4, 1] ∧
      circularSites.meet 0 [0] [] = [2, 3, 4, 1] ∧
      TransGen circularSites.Declares "Place" "Landmark" ∧
      ∃ a b, circularSites.AtDistance 0 a 3 ∧ circularSites.AtDistance 0 b 1 ∧ a ≤ b := by
  have hnode : circularSites.node? 0 = some { name := "Place", parents := ["Site", "Venue"] } := rfl
  have hancestors : circularSites.ancestors 0 = [2, 3, 4, 1] := by decide
  obtain ⟨-, hsubclass, -, hqueue, -, -, hnearest, -⟩ := ancestry_exact circularSites hnode
  rw [hancestors] at hqueue hnearest
  refine ⟨hnode, hancestors, hqueue.symm, (hsubclass "Landmark").1 (by decide), ?_⟩
  exact (List.pairwise_cons.1 (List.pairwise_cons.1 hnearest).2).1 1 (by simp)

end VocabularyCompiler.TypeGraph

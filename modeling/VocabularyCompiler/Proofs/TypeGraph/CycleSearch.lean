import VocabularyCompiler.Proofs.TypeGraph.Ancestry

/-!
# The search for containment cycles finds them all

`search` goes along containment from type to type and shares one list of visited types among all
its branches. What it finds are the properties on a way from a type back to itself, past no type
twice (`leadsBack_of_cycle?`), and `cycle?_isSome_iff` shows that it finds one if and only if there
is a closed walk of containment through the type. A search that fails leaves a set of visited types
that is closed under containment and from which no step leads to the target (`Explored`), which is
what makes it safe never to enter a visited type again.
-/

namespace VocabularyCompiler.TypeGraph

open Relation (ReflTransGen TransGen)

/-- The type at `t` has a property with the type at `u` among its ranges, and that one is a struct
according to `S`. -/
def Contains (g : TypeGraph) (p : Policy) (S : Nat → Prop) (t u : Nat) : Prop :=
  ∃ n, g.node? t = some n ∧ ∃ decl ∈ n.properties.values, ∃ range ∈ decl.ranges,
    p.isBuiltin range = false ∧ g.id? range = some u ∧ S u

/-- What a type contains are types of the graph. -/
theorem Contains.lt_size {g : TypeGraph} {p : Policy} {S : Nat → Prop} {t u : Nat}
    (h : g.Contains p S t u) : u < g.size := by
  obtain ⟨_, _, _, _, _, _, _, hid, _⟩ := h
  exact lt_size_of_id? hid

/-- Fewer structs contain less. -/
theorem contains_mono (g : TypeGraph) (p : Policy) {S S' : Nat → Prop} (hS : S ≤ S') :
    g.Contains p S ≤ g.Contains p S' := by
  rintro t u ⟨n, hn, decl, hdecl, range, hrange, hbuiltin, hid, hu⟩
  exact ⟨n, hn, decl, hdecl, range, hrange, hbuiltin, hid, hS u hu⟩

/-- Containment depends on the structs only through the set `S`. -/
theorem SameButStructs.contains_eq {g h : TypeGraph} (hg : g.SameButStructs h) (p : Policy)
    (S : Nat → Prop) : g.Contains p S = h.Contains p S := by
  funext t u
  have hprops := hg.map_node? TypeNode.properties (fun _ => rfl) t
  have hiff : ∀ f : TypeGraph, f.Contains p S t u ↔
      ∃ m, (f.node? t).map TypeNode.properties = some m ∧ ∃ decl ∈ m.values,
        ∃ range ∈ decl.ranges, p.isBuiltin range = false ∧ f.id? range = some u ∧ S u := by
    intro f
    unfold Contains
    constructor
    · rintro ⟨n, hn, hrest⟩
      exact ⟨n.properties, by rw [hn]; rfl, hrest⟩
    · rintro ⟨m, hm, hrest⟩
      obtain ⟨n, hn, rfl⟩ := Option.map_eq_some_iff.1 hm
      exact ⟨n, hn, hrest⟩
  rw [eq_iff_iff, hiff, hiff, hprops, hg.id?_eq]

/-- The type at `t` has a property of the name `prop` with the type at `u`, which is a struct, among
its ranges. -/
def Holds (g : TypeGraph) (p : Policy) (prop : String) (t u : Nat) : Prop :=
  ∃ n, g.node? t = some n ∧ ∃ decl ∈ n.properties.values, decl.name = prop ∧
    ∃ range ∈ decl.ranges, p.isBuiltin range = false ∧ g.id? range = some u ∧ g.IsStruct u

/-- The edges that the search goes along are the properties that hold structs. -/
theorem mem_contained_iff {g : TypeGraph} {p : Policy} {prop : String} {t u : Nat} :
    (prop, u) ∈ g.contained p t ↔ g.Holds p prop t u := by
  unfold contained Holds
  simp only [List.mem_flatMap, List.mem_filterMap]
  constructor
  · rintro ⟨decl, hdecl, range, hrange, hsome⟩
    cases hn : g.node? t with
    | none => simp [hn] at hdecl
    | some n =>
      split at hsome
      next => cases hsome
      next hbuiltin =>
        obtain ⟨next, hnext, hif⟩ := Option.bind_eq_some_iff.1 hsome
        split at hif
        next hstruct =>
          cases hif
          exact ⟨n, rfl, decl, by simpa [hn] using hdecl, rfl, range, hrange,
            Bool.eq_false_iff.2 hbuiltin, hnext, hstruct⟩
        next => cases hif
  · rintro ⟨n, hn, decl, hdecl, rfl, range, hrange, hbuiltin, hid, hstruct⟩
    refine ⟨decl, by simpa [hn] using hdecl, range, hrange, ?_⟩
    rw [hbuiltin, hid, Option.bind_some, if_pos hstruct]
    rfl

/-- A type contains the structs that its properties hold. -/
theorem contains_iff_exists_holds {g : TypeGraph} {p : Policy} {t u : Nat} :
    g.Contains p g.IsStruct t u ↔ ∃ prop, g.Holds p prop t u := by
  constructor
  · rintro ⟨n, hn, decl, hdecl, hrange⟩
    exact ⟨decl.name, n, hn, decl, hdecl, rfl, hrange⟩
  · rintro ⟨prop, n, hn, decl, hdecl, -, hrange⟩
    exact ⟨n, hn, decl, hdecl, hrange⟩

/-- The edges that the search goes along are the containments between structs of the graph. -/
theorem exists_mem_contained_iff {g : TypeGraph} {p : Policy} {t u : Nat} :
    (∃ name, (name, u) ∈ g.contained p t) ↔ g.Contains p g.IsStruct t u := by
  rw [contains_iff_exists_holds]
  exact exists_congr fun _ => mem_contained_iff

/-- The properties `path` lead from one type to the next, each holding it as a struct, and in the
end to the type at `target`. On the way there they leave the types `stops` behind, one for each
property. -/
inductive Way (g : TypeGraph) (p : Policy) (target : Nat) :
    Nat → List String → List Nat → Prop where
  | here : Way g p target target [] []
  | step {prop : String} {t u : Nat} {path : List String} {stops : List Nat}
      (hheld : g.Holds p prop t u) (hrest : Way g p target u path stops) :
      Way g p target t (prop :: path) (t :: stops)

/-- A way is a walk of containment. -/
theorem Way.reflTransGen {g : TypeGraph} {p : Policy} {target t : Nat} {path : List String}
    {stops : List Nat} (h : g.Way p target t path stops) :
    ReflTransGen (g.Contains p g.IsStruct) t target := by
  induction h with
  | here => exact .refl
  | step hheld _ ih => exact ih.head (contains_iff_exists_holds.2 ⟨_, hheld⟩)

/-- The properties `path` lead from the type at `t` back to it, past no type twice. -/
def LeadsBack (g : TypeGraph) (p : Policy) (t : Nat) (path : List String) : Prop :=
  path ≠ [] ∧ ∃ stops, g.Way p t t path stops ∧ stops.Nodup

/-- A way back to a type is a closed walk of containment. -/
theorem LeadsBack.transGen {g : TypeGraph} {p : Policy} {t : Nat} {path : List String}
    (h : g.LeadsBack p t path) : TransGen (g.Contains p g.IsStruct) t t := by
  obtain ⟨hne, stops, hway, -⟩ := h
  cases hway with
  | here => exact absurd rfl hne
  | step hheld hrest =>
    exact TransGen.head' (contains_iff_exists_holds.2 ⟨_, hheld⟩) hrest.reflTransGen

section Search

variable {g : TypeGraph} {p : Policy} {target : Nat}

/-- Going along edges forgets nothing that was visited, if that holds for the search along one of
them. -/
private theorem subset_searchEdges {find : List Nat → Nat → Search}
    (hfind : ∀ visited next, visited ⊆ (find visited next).2) :
    ∀ (edges : List (String × Nat)) (visited : List Nat),
      visited ⊆ (searchEdges find visited edges).2 := by
  intro edges
  induction edges with
  | nil => exact fun visited => List.Subset.refl _
  | cons e rest ih =>
    intro visited
    have hfirst := hfind visited e.2
    unfold searchEdges
    split
    next way after hway =>
      rw [hway] at hfirst
      exact hfirst
    next after hnone =>
      rw [hnone] at hfirst
      exact List.Subset.trans hfirst (ih after)

/-- A search forgets nothing that was visited. -/
theorem subset_search (n : Nat) (visited : List Nat) (current : Nat) :
    visited ⊆ (g.search p target n visited current).2 := by
  induction n generalizing visited current with
  | zero => exact List.Subset.refl _
  | succ n ih =>
    unfold search
    split
    next => exact List.Subset.refl _
    next => exact List.Subset.trans (List.subset_cons_self _ _) (subset_searchEdges ih _ _)

/-- Edges that lead to the target begin with one whose end leads there. If the search along each one
finds ways past no type twice and past none that was visited, then the way found does so too, for
the edges before it have only visited more. -/
private theorem exists_way_of_searchEdges {find : List Nat → Nat → Search}
    (hsubset : ∀ visited next, visited ⊆ (find visited next).2)
    (hfind : ∀ {visited next path}, (find visited next).1 = some path →
      ∃ stops, g.Way p target next path stops ∧ stops.Nodup ∧ ∀ t ∈ stops, t ∉ visited) :
    ∀ {edges : List (String × Nat)} {visited : List Nat} {path : List String},
      (searchEdges find visited edges).1 = some path →
        ∃ prop next rest stops, (prop, next) ∈ edges ∧ path = prop :: rest ∧
          g.Way p target next rest stops ∧ stops.Nodup ∧ ∀ t ∈ stops, t ∉ visited := by
  intro edges
  induction edges with
  | nil => intro visited path h; cases h
  | cons e others ih =>
    intro visited path h
    have hsub := hsubset visited e.2
    unfold searchEdges at h
    split at h
    next rest after hrest =>
      obtain ⟨stops, hway, hnodup, hfresh⟩ := hfind (by rw [hrest])
      exact ⟨e.1, e.2, rest, stops, List.mem_cons_self, (Option.some.inj h).symm, hway, hnodup,
        hfresh⟩
    next after hnone =>
      rw [hnone] at hsub
      obtain ⟨prop, next, rest, stops, hmem, hpath, hway, hnodup, hfresh⟩ := ih h
      exact ⟨prop, next, rest, stops, List.mem_cons_of_mem _ hmem, hpath, hway, hnodup,
        fun t ht hvisited => hfresh t ht (hsub hvisited)⟩

/-- A search that succeeds tells the properties on a way to the target, past no type twice and past
none that was visited before. From a type that was not visited before, it takes at least one
step. -/
theorem exists_way_of_search {n : Nat} {visited : List Nat} {current : Nat} {path : List String}
    (h : (g.search p target n visited current).1 = some path) :
    (current ∉ visited → path ≠ []) ∧
      ∃ stops, g.Way p target current path stops ∧ stops.Nodup ∧ ∀ t ∈ stops, t ∉ visited := by
  induction n generalizing visited current path with
  | zero => cases h
  | succ n ih =>
    unfold search at h
    split at h
    next hvisited =>
      split at h
      next heq =>
        cases h
        exact ⟨absurd hvisited, [], heq ▸ .here, List.nodup_nil,
          fun t ht => absurd ht List.not_mem_nil⟩
      next => cases h
    next hnew =>
      obtain ⟨prop, next, rest, stops, hmem, rfl, hway, hnodup, hfresh⟩ :=
        exists_way_of_searchEdges (subset_search n) (fun hfound => (ih hfound).2) h
      -- The type is visited by now, so the way onwards does not come back to it.
      have hcurrent : current ∉ stops := fun hstop => hfresh current hstop List.mem_cons_self
      refine ⟨fun _ => List.cons_ne_nil _ _, current :: stops,
        .step (mem_contained_iff.1 hmem) hway, List.nodup_cons.2 ⟨hcurrent, hnodup⟩, fun t ht => ?_⟩
      rcases List.mem_cons.1 ht with rfl | ht
      · exact hnew
      · exact fun hvisited => hfresh t ht (List.mem_cons_of_mem _ hvisited)

/-- Between two moments of a search, `before` and `after`, all types that were entered had only
successors that are visited by now, and the target was not among these. -/
structure Explored (g : TypeGraph) (p : Policy) (target : Nat) (before after : List Nat) :
    Prop where
  /-- Nothing visited is forgotten. -/
  subset : before ⊆ after
  /-- What was entered is done with. -/
  closed : ∀ t ∈ after, t ∉ before → ∀ u, g.Contains p g.IsStruct t u → u ∈ after ∧ u ≠ target

/-- One exploration after another is an exploration. -/
theorem Explored.trans {before middle after : List Nat} (h : Explored g p target before middle)
    (h' : Explored g p target middle after) : Explored g p target before after where
  subset := List.Subset.trans h.subset h'.subset
  closed t ht hbefore u hu := by
    by_cases hmiddle : t ∈ middle
    · obtain ⟨hu, hne⟩ := h.closed t hmiddle hbefore u hu
      exact ⟨h'.subset hu, hne⟩
    · exact h'.closed t ht hmiddle u hu

/-- Edges none of which leads to the target are explored, if that holds for the search along one
of them. -/
private theorem explored_of_searchEdges {n : Nat} {find : List Nat → Nat → Search}
    (hfind : ∀ {before after : List Nat} {next : Nat}, target ∈ before → next < g.size →
      unseen g.ids before < n → find before next = (none, after) →
        Explored g p target before after ∧ next ∈ after ∧ next ≠ target) :
    ∀ {edges : List (String × Nat)} {before after : List Nat}, (∀ e ∈ edges, e.2 < g.size) →
      target ∈ before → unseen g.ids before < n → searchEdges find before edges = (none, after) →
        Explored g p target before after ∧ ∀ e ∈ edges, e.2 ∈ after ∧ e.2 ≠ target := by
  intro edges
  induction edges with
  | nil =>
    intro before after _ _ _ h
    cases h
    exact ⟨⟨List.Subset.refl _, fun t ht hbefore => absurd ht hbefore⟩, by simp⟩
  | cons e rest ih =>
    intro before after hlt htarget hn h
    unfold searchEdges at h
    split at h
    next => cases h
    next middle hmiddle =>
      obtain ⟨hfirst, hmem, hne⟩ := hfind htarget (hlt e List.mem_cons_self) hn hmiddle
      have hn' : unseen g.ids middle < n := (unseen_mono _ hfirst.subset).trans_lt hn
      obtain ⟨hrest, hedges⟩ := ih (fun e' he' => hlt e' (List.mem_cons_of_mem _ he'))
        (hfirst.subset htarget) hn' h
      refine ⟨hfirst.trans hrest, fun e' he' => ?_⟩
      rcases List.mem_cons.1 he' with rfl | he'
      · exact ⟨hrest.subset hmem, hne⟩
      · exact hedges e' he'

/-- Edges lead to types of the graph. -/
private theorem lt_size_of_mem_contained {t : Nat} {e : String × Nat}
    (he : e ∈ g.contained p t) : e.2 < g.size :=
  (exists_mem_contained_iff.1 ⟨e.1, he⟩).lt_size

/-- A search that fails was not at the target, and explored everything on from where it was. -/
theorem explored_of_search {n : Nat} {before after : List Nat} {current : Nat}
    (htarget : target ∈ before) (hcurrent : current < g.size) (hn : unseen g.ids before < n)
    (h : g.search p target n before current = (none, after)) :
    Explored g p target before after ∧ current ∈ after ∧ current ≠ target := by
  induction n generalizing before after current with
  | zero => omega
  | succ n ih =>
    unfold search at h
    split at h
    next hvisited =>
      split at h
      next => cases h
      next hne =>
        cases h
        exact ⟨⟨List.Subset.refl _, fun t ht hbefore => absurd ht hbefore⟩, hvisited, hne⟩
    next hfresh =>
      have hlt := unseen_lt (List.subset_cons_self current before) (mem_ids.2 hcurrent) hfresh
        List.mem_cons_self
      obtain ⟨hexplored, hedges⟩ := explored_of_searchEdges (fun ht hc hu hs => ih ht hc hu hs)
        (fun e he => lt_size_of_mem_contained he) (List.mem_cons_of_mem _ htarget) (by omega) h
      have hmem : current ∈ after := hexplored.subset List.mem_cons_self
      refine ⟨⟨fun t ht => hexplored.subset (List.mem_cons_of_mem _ ht),
        fun t ht hbefore u hu => ?_⟩, hmem, fun heq => hfresh (heq ▸ htarget)⟩
      by_cases htc : t = current
      · subst htc
        obtain ⟨name, hname⟩ := exists_mem_contained_iff.2 hu
        exact hedges _ hname
      · exact hexplored.closed t ht (by simp [htc, hbefore]) u hu

/-- Two searches that agree while few types are unseen agree along edges. -/
private theorem searchEdges_congr {n : Nat} {find find' : List Nat → Nat → Search}
    (hsubset : ∀ visited next, visited ⊆ (find visited next).2)
    (hfind : ∀ visited next, next < g.size → unseen g.ids visited < n →
      find visited next = find' visited next) :
    ∀ (edges : List (String × Nat)) (visited : List Nat), (∀ e ∈ edges, e.2 < g.size) →
      unseen g.ids visited < n → searchEdges find visited edges = searchEdges find' visited edges
  | [], _, _, _ => rfl
  | e :: rest, visited, hlt, hn => by
    have heq := hfind visited e.2 (hlt e List.mem_cons_self) hn
    have hsub := hsubset visited e.2
    unfold searchEdges
    rw [← heq]
    split
    next => rfl
    next after hnone =>
      rw [hnone] at hsub
      exact searchEdges_congr hsubset hfind rest after
        (fun e' he' => hlt e' (List.mem_cons_of_mem _ he')) ((unseen_mono _ hsub).trans_lt hn)

/-- A search is never cut off: with more steps than there are unseen types, their number makes no
difference. -/
theorem search_eq_of_unseen_lt {n m : Nat} {visited : List Nat} {current : Nat}
    (hcurrent : current < g.size) (hn : unseen g.ids visited < n)
    (hm : unseen g.ids visited < m) :
    g.search p target n visited current = g.search p target m visited current := by
  induction n generalizing m visited current with
  | zero => omega
  | succ n ih =>
    obtain ⟨m, rfl⟩ : ∃ k, m = k + 1 := ⟨m - 1, by omega⟩
    unfold search
    split
    next => rfl
    next hfresh =>
      have hlt := unseen_lt (List.subset_cons_self current visited) (mem_ids.2 hcurrent) hfresh
        List.mem_cons_self
      refine searchEdges_congr (n := min n m) (subset_search n)
        (fun seen next hnext hseen => ?_) _ _ (fun e he => lt_size_of_mem_contained he) (by omega)
      exact ih hnext (by omega) (by omega)

end Search

/-- What the search finds are the properties on a way from a type back to itself. -/
theorem leadsBack_of_cycle? {g : TypeGraph} {p : Policy} {i : Nat} {path : List String}
    (h : g.cycle? p i = some path) : g.LeadsBack p i path := by
  obtain ⟨hne, stops, hway, hnodup, -⟩ := exists_way_of_search h
  exact ⟨hne List.not_mem_nil, stops, hway, hnodup⟩

/-- The search finds a way from a type back to itself if and only if a closed walk of containment
leads through the type. -/
theorem cycle?_isSome_iff {g : TypeGraph} {p : Policy} {i : Nat} :
    (g.cycle? p i).isSome = true ↔ TransGen (g.Contains p g.IsStruct) i i := by
  constructor
  · intro h
    obtain ⟨path, hpath⟩ := Option.isSome_iff_exists.1 h
    exact (leadsBack_of_cycle? hpath).transGen
  · intro h
    rw [cycle?, search, if_neg List.not_mem_nil]
    by_contra hnone
    obtain ⟨j, hij, -⟩ := TransGen.head'_iff.1 h
    obtain ⟨n, hn, -⟩ := hij
    have hlt := unseen_lt (List.nil_subset [i]) (mem_ids.2 (lt_size_of_node? hn)) List.not_mem_nil
      List.mem_cons_self
    have hle := g.unseen_ids_le []
    obtain ⟨after, hafter⟩ : ∃ after,
        searchEdges (g.search p i g.size) [i] (g.contained p i) = (none, after) :=
      ⟨_, Prod.ext (Option.not_isSome_iff_eq_none.1 hnone) rfl⟩
    -- The search failed, so the visited types are closed and `i` is no successor of any of them.
    obtain ⟨hexplored, hedges⟩ := explored_of_searchEdges
      (fun ht hc hu hs => explored_of_search ht hc hu hs)
      (fun e he => lt_size_of_mem_contained he) List.mem_cons_self (by omega) hafter
    have hstep : ∀ t ∈ after, ∀ u, g.Contains p g.IsStruct t u → u ∈ after ∧ u ≠ i := by
      intro t ht u hu
      by_cases hti : t = i
      · subst hti
        obtain ⟨name, hname⟩ := exists_mem_contained_iff.2 hu
        exact hedges _ hname
      · exact hexplored.closed t ht (by simp [hti]) u hu
    have hwalk : ∀ u, TransGen (g.Contains p g.IsStruct) i u → u ∈ after ∧ u ≠ i := by
      intro u hu
      induction hu with
      | single hu => exact hstep i (hexplored.subset List.mem_cons_self) _ hu
      | tail _ hu ih => exact hstep _ ih.1 _ hu
    exact (hwalk i h).2 rfl

end VocabularyCompiler.TypeGraph

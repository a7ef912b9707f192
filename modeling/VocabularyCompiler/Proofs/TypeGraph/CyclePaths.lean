import VocabularyCompiler.Proofs.TypeGraph.Demotions

/-!
# The paths that cycles are reported with

A containment cycle is reported with the properties on a way from a type back to itself. The search
puts that way together when it returns. `trail` puts it together on the way down, on one stack that
all branches share: a property is pushed before the type that it holds is searched, and popped if
that was in vain. Both come to the same (`trail_eq_search`), for a branch that fails leaves the
stack as it found it. So what is on the stack in the end is a way back past no type twice, and there
is one whenever there is a closed walk (`structCycles_exact`).
-/

namespace VocabularyCompiler.TypeGraph

open Relation (TransGen)

/-! ## One stack for all branches -/

/-- The outcome of a search with a stack. -/
structure Trail where
  /-- Whether the target was found. -/
  found : Bool
  visited : List Nat
  /-- The properties on the way. -/
  stack : List String
  deriving DecidableEq

/-- Searches along edges one after another until one of them leads to the target. The property of an
edge is on the stack for as long as the search goes on from there. -/
def trailEdges (trail : List Nat → List String → Nat → Trail) (visited : List Nat)
    (stack : List String) : List (String × Nat) → Trail
  | [] => ⟨false, visited, stack⟩
  | (property, next) :: rest =>
    let outcome := trail visited (stack ++ [property]) next
    if outcome.found then outcome
    else trailEdges trail outcome.visited outcome.stack.dropLast rest

/-- Searches for a way from `current` to `target` with one stack, never twice from one type. -/
def trail (g : TypeGraph) (p : Policy) (target : Nat) : Nat → List Nat → List String → Nat → Trail
  | 0, visited, stack, _ => ⟨false, visited, stack⟩
  | n + 1, visited, stack, current =>
    if current ∈ visited then ⟨current = target, visited, stack⟩
    else trailEdges (g.trail p target n) (current :: visited) stack (g.contained p current)

/-- What a search finds is what the search with a stack has pushed to it. -/
def Search.toTrail (s : Search) (stack : List String) : Trail :=
  ⟨s.1.isSome, s.2, stack ++ s.1.getD []⟩

/-- A search along edges with a stack comes to what the one without comes to, if that holds along
each of them. What was pushed for an edge that leads nowhere is popped again. -/
theorem trailEdges_eq_searchEdges {find : List Nat → Nat → Search}
    {findTrail : List Nat → List String → Nat → Trail}
    (hfind : ∀ visited stack next,
      findTrail visited stack next = Search.toTrail (find visited next) stack)
    (edges : List (String × Nat)) (visited : List Nat) (stack : List String) :
    trailEdges findTrail visited stack edges =
      Search.toTrail (searchEdges find visited edges) stack := by
  induction edges generalizing visited with
  | nil => simp [trailEdges, searchEdges, Search.toTrail]
  | cons e rest ih =>
    obtain ⟨property, next⟩ := e
    have hfirst := hfind visited (stack ++ [property]) next
    unfold trailEdges searchEdges
    rw [hfirst]
    split
    next path after hpath => simp [hpath, Search.toTrail]
    next after hnone =>
      have hpop : (Search.toTrail (find visited next) (stack ++ [property])).stack.dropLast =
          stack := by simp [hnone, Search.toTrail]
      dsimp only
      rw [hpop, ← ih after]
      simp [hnone, Search.toTrail]

/-- A search with a stack comes to what the one without comes to. -/
theorem trail_eq_search (g : TypeGraph) (p : Policy) (target n : Nat) (visited : List Nat)
    (stack : List String) (current : Nat) :
    g.trail p target n visited stack current =
      Search.toTrail (g.search p target n visited current) stack := by
  induction n generalizing visited stack current with
  | zero => simp [trail, search, Search.toTrail]
  | succ n ih =>
    unfold trail search
    split
    next =>
      by_cases htarget : current = target <;> simp [htarget, Search.toTrail]
    next => exact trailEdges_eq_searchEdges ih _ _ _

/-! ## What is reported -/

/-- The cycles that are reported are those that are found from candidates for demotion. -/
theorem mem_structCycles_iff {g : TypeGraph} {p : Policy} {c : Cycle} :
    c ∈ g.structCycles p ↔
      ∃ i, g.id? c.type = some i ∧ g.isCandidate i = true ∧ g.cycle? p i = some c.path := by
  unfold structCycles
  simp only [List.mem_filterMap, List.mem_filter, Option.map_eq_some_iff]
  constructor
  · rintro ⟨i, ⟨-, hcandidate⟩, path, hpath, rfl⟩
    obtain ⟨n, hn, -⟩ := satisfies_iff.1 hcandidate
    have hname : g.nameOf i = n.name := by rw [nameOf, hn, Option.elim_some]
    exact ⟨i, id?_eq_some_iff.2 ⟨n, hn, hname.symm⟩, hcandidate, hpath⟩
  · rintro ⟨i, hid, hcandidate, hpath⟩
    obtain ⟨n, hn, hname⟩ := id?_eq_some_iff.1 hid
    refine ⟨i, ⟨mem_ids.2 (lt_size_of_node? hn), hcandidate⟩, c.path, hpath, ?_⟩
    rw [nameOf, hn, Option.elim_some, hname]

/-- Which containment cycles are reported, and how. A type is reported if and only if it is a
struct, no enumeration, and on a closed walk of containment. The path is what the search leaves on
its stack, given more steps than there are types: the properties on a way from the type back to it,
past no type twice. A warning of the resolution of cycles has such a path too, in the graph as it
was when the type was demoted. -/
theorem structCycles_exact (g : TypeGraph) (p : Policy) :
    (∀ name, (∃ c ∈ g.structCycles p, c.type = name) ↔
      ∃ i, g.id? name = some i ∧ g.IsStruct i ∧ g.isEnum i = false ∧
        TransGen (g.Contains p g.IsStruct) i i) ∧
    (∀ c ∈ g.structCycles p, ∃ i, g.id? c.type = some i ∧ g.LeadsBack p i c.path ∧
      ∀ n, g.size < n → (g.trail p i n [] [] i).found = true ∧
        (g.trail p i n [] [] i).stack = c.path) ∧
    ∀ d ∈ (g.resolveCycles p).2, d.level = .warning →
      ∃ i path, d = .warn (g.nameOf i) (cycleMessage path) ∧ g.DemotedAtTurn p i path := by
  refine ⟨fun name => ?_, fun c hc => ?_, fun d hd hlevel => ?_⟩
  · simp only [mem_structCycles_iff, ← cycle?_isSome_iff, Option.isSome_iff_exists]
    constructor
    · rintro ⟨c, ⟨i, hid, hcandidate, hpath⟩, rfl⟩
      obtain ⟨hstruct, henum⟩ := isCandidate_iff.1 hcandidate
      exact ⟨i, hid, hstruct, henum, c.path, hpath⟩
    · rintro ⟨i, hid, hstruct, henum, path, hpath⟩
      exact ⟨⟨name, path⟩, ⟨i, hid, isCandidate_iff.2 ⟨hstruct, henum⟩, hpath⟩, rfl⟩
  · obtain ⟨i, hid, -, hpath⟩ := mem_structCycles_iff.1 hc
    refine ⟨i, hid, leadsBack_of_cycle? hpath, fun n hn => ?_⟩
    -- No search is cut off, so its bound does not matter.
    have hnil := g.unseen_ids_le []
    have hsearch : (g.search p i n [] i).1 = some c.path := by
      rw [search_eq_of_unseen_lt (m := g.size + 1) (lt_size_of_id? hid) (by omega) (by omega)]
      exact hpath
    rw [trail_eq_search, Search.toTrail, hsearch]
    exact ⟨rfl, rfl⟩
  · obtain ⟨demoted, h⟩ := g.demotes_resolveCycles p
    obtain ⟨new, hnew, hall⟩ := h.noted
    rw [List.nil_append] at hnew
    have hsome : List.Forall₂ (fun d i => (∃ i, g.Reports p i d) ∧ g.Reports p i d) new demoted :=
      hall.flip.imp fun d i h => ⟨⟨i, h⟩, h⟩
    obtain ⟨i, hreports⟩ := ((List.forall₂_and_left _ _).1 hsome).1 d (hnew ▸ hd)
    cases hreports with
    | cycle hturn => exact ⟨i, _, rfl, hturn⟩
    | ancestor => cases hlevel

/-- Prices are searched by way of their units first, which is in vain and leaves no property on the
stack. When offers have their turn, prices are no structs any more and give no warning. -/
theorem structCycles_exact_pricedOffers :
    pricedOffers.structCycles .standard =
      [⟨"Price", ["offer", "price"]⟩, ⟨"Unit", ["multipleOf"]⟩, ⟨"Offer", ["price", "offer"]⟩] ∧
    pricedOffers.LeadsBack .standard 1 ["offer", "price"] ∧
    (pricedOffers.trail .standard 1 5 [] [] 1).stack = ["offer", "price"] ∧
    TransGen (pricedOffers.Contains .standard pricedOffers.IsStruct) 2 2 ∧
    ∃ i path, Diagnostic.warn "Price"
        "struct containment cycle via offer → price, represented as an entity" =
          .warn (pricedOffers.nameOf i) (cycleMessage path) ∧
      pricedOffers.DemotedAtTurn .standard i path := by
  have hcycles : pricedOffers.structCycles .standard =
      [⟨"Price", ["offer", "price"]⟩, ⟨"Unit", ["multipleOf"]⟩,
        ⟨"Offer", ["price", "offer"]⟩] := by decide +kernel
  have hprice : pricedOffers.id? "Price" = some 1 := by decide +kernel
  have hunit : pricedOffers.id? "Unit" = some 2 := by decide +kernel
  have hsize : pricedOffers.size = 4 := by decide +kernel
  obtain ⟨hnames, hpaths, hwarnings⟩ := structCycles_exact pricedOffers .standard
  obtain ⟨i, hi, hback, hstack⟩ := hpaths ⟨"Price", ["offer", "price"]⟩ (by simp [hcycles])
  obtain ⟨j, hj, -, -, hwalk⟩ :=
    (hnames "Unit").1 ⟨⟨"Unit", ["multipleOf"]⟩, by simp [hcycles], rfl⟩
  obtain rfl := Option.some_inj.1 (hprice.symm.trans hi)
  obtain rfl := Option.some_inj.1 (hunit.symm.trans hj)
  exact ⟨hcycles, hback, (hstack 5 (by omega)).2, hwalk, hwarnings _ (by decide +kernel) rfl⟩

end VocabularyCompiler.TypeGraph

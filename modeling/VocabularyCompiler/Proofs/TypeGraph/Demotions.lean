import VocabularyCompiler.Proofs.TypeGraph.CycleResolution
import VocabularyCompiler.TypeGraph.Analyze

/-!
# One diagnostic for each demotion

The resolution of cycles demotes types in two passes, and notes each demotion. `Demotes` accounts
for what happens between two states: which types are no structs any more, and that each of them has
one diagnostic among the new ones. Accounts add up, so there is one for each pass and one for both.
No type is in it twice, for a type is demoted only while it is a struct. Since the second pass
leaves a graph without cycles and without structs above a type that is none, to resolve cycles once
more does nothing (`resolveCycles_accounts`).
-/

namespace VocabularyCompiler.TypeGraph

/-- Between the states `s` and `t` the types at `demoted` ceased to be structs, in that order, and
nothing else changed. One diagnostic was added for each of them, as `report` has it. -/
structure Demotes (report : Nat → Diagnostic → Prop) (s t : TypeGraph × Diagnostics)
    (demoted : List Nat) : Prop where
  same : t.1.SameButStructs s.1
  nodup : demoted.Nodup
  /-- What is demoted was a struct. -/
  struct : ∀ i ∈ demoted, s.1.IsStruct i
  left : ∀ i, t.1.IsStruct i ↔ s.1.IsStruct i ∧ i ∉ demoted
  noted : ∃ new, t.2 = s.2 ++ new ∧ List.Forall₂ report demoted new

namespace Demotes

variable {report report' : Nat → Diagnostic → Prop} {s t u : TypeGraph × Diagnostics}
  {demoted later : List Nat}

/-- Where nothing happens, nothing is demoted. -/
theorem refl (report : Nat → Diagnostic → Prop) (s : TypeGraph × Diagnostics) :
    Demotes report s s [] where
  same := .refl _
  nodup := List.nodup_nil
  struct _ h := absurd h List.not_mem_nil
  left i := by simp
  noted := ⟨[], (List.append_nil _).symm, .nil⟩

/-- To demote a struct and to note it. -/
theorem demote {i : Nat} {d : Diagnostic} (hi : s.1.IsStruct i) (hd : report i d) :
    Demotes report s (s.1.demote i, s.2 ++ [d]) [i] where
  same := s.1.sameButStructs_demote i
  nodup := List.nodup_singleton i
  struct _ h := List.mem_singleton.1 h ▸ hi
  left j := by rw [isStruct_demote_iff, List.mem_singleton]
  noted := ⟨[d], rfl, .cons hd .nil⟩

/-- What is demoted after other types was a struct until then, so it is none of these. -/
theorem trans (h : Demotes report s t demoted) (h' : Demotes report t u later) :
    Demotes report s u (demoted ++ later) where
  same := h'.same.trans h.same
  nodup := List.nodup_append.2 ⟨h.nodup, h'.nodup, fun i hi j hj heq =>
    ((h.left j).1 (h'.struct j hj)).2 (heq ▸ hi)⟩
  struct i hi :=
    (List.mem_append.1 hi).elim (h.struct i) fun hi => ((h.left i).1 (h'.struct i hi)).1
  left i := by rw [h'.left, h.left, List.mem_append, not_or, and_assoc]
  noted := by
    obtain ⟨new, hnew, hall⟩ := h.noted
    obtain ⟨new', hnew', hall'⟩ := h'.noted
    exact ⟨new ++ new', by rw [hnew', hnew, List.append_assoc], List.rel_append hall hall'⟩

/-- Diagnostics may be described in another way, given that they are about structs. -/
theorem mono (h : Demotes report s t demoted)
    (hreport : ∀ i d, s.1.IsStruct i → report i d → report' i d) : Demotes report' s t demoted where
  same := h.same
  nodup := h.nodup
  struct := h.struct
  left := h.left
  noted := by
    obtain ⟨new, hnew, hall⟩ := h.noted
    have hall' := (List.forall₂_and_left (p := s.1.IsStruct) demoted new).2 ⟨h.struct, hall⟩
    exact ⟨new, hnew, hall'.imp fun i d hd => hreport i d hd.1 hd.2⟩

end Demotes

variable (g : TypeGraph) (p : Policy)

/-! ## The first pass -/

/-- The graph as it is when the first pass comes to the type at position `k`. -/
def atTurn (k : Nat) : TypeGraph := ((List.range k).foldl (breakCycle p) (g, [])).1

/-- The wording of the warning of a containment cycle. -/
def cycleMessage (path : List String) : String :=
  "struct containment cycle via " ++ " → ".intercalate path ++ ", represented as an entity"

/-- The first pass demotes the type at `i` at its turn, when the properties `path` lead from it back
to it. -/
structure DemotedAtTurn (i : Nat) (path : List String) : Prop where
  before : (g.atTurn p i).IsStruct i
  leadsBack : (g.atTurn p i).LeadsBack p i path
  after : ¬(g.atTurn p (i + 1)).IsStruct i

/-- A step of the first pass does nothing, or it demotes a struct from which a way leads back to it
and warns of that way. -/
theorem breakCycle_cases (s : TypeGraph × Diagnostics) (i : Nat) :
    breakCycle p s i = s ∨
      ∃ path, s.1.IsStruct i ∧ s.1.LeadsBack p i path ∧ breakCycle p s i =
        (s.1.demote i, s.2 ++ [.warn (s.1.nameOf i) (cycleMessage path)]) := by
  unfold breakCycle
  dsimp only
  split
  next hcandidate =>
    cases hpath : s.1.cycle? p i with
    | none => exact .inl rfl
    | some path =>
      exact .inr ⟨path, (isCandidate_iff.1 hcandidate).1, leadsBack_of_cycle? hpath, rfl⟩
  next => exact .inl rfl

/-- The next turn comes after the type at position `k` was tried. -/
theorem foldl_breakCycle_succ (k : Nat) :
    (List.range (k + 1)).foldl (breakCycle p) (g, []) =
      breakCycle p ((List.range k).foldl (breakCycle p) (g, [])) k := by
  rw [List.range_succ, List.foldl_append]
  rfl

/-- The first pass warns once of each type that it demotes. -/
theorem demotes_breakCycles (k : Nat) :
    ∃ demoted, Demotes
      (fun i d => ∃ path, g.DemotedAtTurn p i path ∧ d = .warn (g.nameOf i) (cycleMessage path))
      (g, []) ((List.range k).foldl (breakCycle p) (g, [])) demoted := by
  induction k with
  | zero => exact ⟨[], .refl _ _⟩
  | succ k ih =>
    obtain ⟨demoted, hbefore⟩ := ih
    have hnext := g.foldl_breakCycle_succ p k
    rcases breakCycle_cases p ((List.range k).foldl (breakCycle p) (g, [])) k with
      hnothing | ⟨path, hstruct, hback, hstep⟩
    · exact ⟨demoted, by rwa [hnext, hnothing]⟩
    · have hafter : ¬(g.atTurn p (k + 1)).IsStruct k := by
        rw [atTurn, hnext, hstep, isStruct_demote_iff]
        exact fun h => h.2 rfl
      refine ⟨demoted ++ [k], hbefore.trans ?_⟩
      rw [hnext, hstep]
      exact .demote hstruct ⟨path, ⟨hstruct, hback, hafter⟩, by rw [hbefore.same.nameOf_eq]⟩

/-! ## The second pass -/

/-- The diagnostic `d` notes that the type at `i` is an ancestor of a type that is no struct among
those of `h`. -/
def NotedAsAncestor (h : TypeGraph) (i : Nat) (d : Diagnostic) : Prop :=
  ∃ j, i ∈ g.ancestors j ∧ ¬h.IsStruct j ∧
    d = .note (g.nameOf i) ("demoted: ancestor of non-struct " ++ g.nameOf j)

variable {g}

/-- Of several ancestors of a type, those that are structs are demoted, and each is noted. -/
theorem demotes_foldl_demoteAncestor {h : TypeGraph} {j : Nat} (hj : ¬h.IsStruct j) {l : List Nat}
    (hl : l ⊆ g.ancestors j) {s : TypeGraph × Diagnostics} (hs : s.1.SameButStructs g) :
    ∃ demoted,
      Demotes (g.NotedAsAncestor h) s (l.foldl (demoteAncestor (g.nameOf j)) s) demoted := by
  induction l generalizing s with
  | nil => exact ⟨[], .refl _ _⟩
  | cons i rest ih =>
    have hrest : rest ⊆ g.ancestors j := fun k hk => hl (List.mem_cons_of_mem _ hk)
    by_cases hi : s.1.IsStruct i
    · have hstep : demoteAncestor (g.nameOf j) s i = (s.1.demote i, s.2 ++
          [.note (g.nameOf i) ("demoted: ancestor of non-struct " ++ g.nameOf j)]) := by
        unfold demoteAncestor
        rw [← hs.nameOf_eq]
        exact if_pos hi
      obtain ⟨demoted, hafter⟩ := ih hrest (s := demoteAncestor (g.nameOf j) s i)
        (by rw [hstep]; exact (s.1.sameButStructs_demote i).trans hs)
      refine ⟨[i] ++ demoted, Demotes.trans ?_ hafter⟩
      rw [hstep]
      exact .demote hi ⟨j, hl List.mem_cons_self, hj, rfl⟩
    · have hstep : demoteAncestor (g.nameOf j) s i = s := if_neg hi
      rw [List.foldl_cons, hstep]
      exact ih hrest hs

/-- A round over several types demotes ancestors of types that are no structs in the end, and notes
each of them once. -/
theorem demotes_foldl_demoteAncestors (l : List Nat) {s : TypeGraph × Diagnostics}
    (hs : s.1.SameButStructs g) :
    ∃ demoted, Demotes (g.NotedAsAncestor (l.foldl demoteAncestors s).1) s
      (l.foldl demoteAncestors s) demoted := by
  induction l generalizing s with
  | nil => exact ⟨[], .refl _ _⟩
  | cons j rest ih =>
    rw [List.foldl_cons]
    by_cases hj : s.1.IsStruct j
    · have hstep : demoteAncestors s j = s := if_pos hj
      rw [hstep]
      exact ih hs
    · have hstep : demoteAncestors s j =
          (g.ancestors j).foldl (demoteAncestor (g.nameOf j)) s := by
        unfold demoteAncestors
        rw [if_neg hj, hs.ancestors_eq, hs.nameOf_eq]
      obtain ⟨demoted, hfirst⟩ := demotes_foldl_demoteAncestor hj (List.Subset.refl _) hs
      rw [← hstep] at hfirst
      obtain ⟨later, hrest⟩ := ih (hfirst.same.trans hs)
      -- What is no struct now will be none in the end.
      have hfewer : ∀ k, (rest.foldl demoteAncestors (demoteAncestors s j)).1.IsStruct k →
          s.1.IsStruct k := fun k hk => ((hfirst.left k).1 ((hrest.left k).1 hk).1).1
      refine ⟨demoted ++ later, (hfirst.mono fun i d _ hd => ?_).trans hrest⟩
      obtain ⟨k, hik, hk, rfl⟩ := hd
      exact ⟨k, hik, fun h => hk (hfewer k h), rfl⟩

/-! ## Both passes -/

variable (g)

/-- What is noted of a type that the resolution of cycles demotes: a warning if it is demoted at its
turn, and a debug note if it is a struct after all turns and an ancestor of a type that is none in
the end. -/
inductive Reports (i : Nat) : Diagnostic → Prop where
  | cycle {path : List String} (hturn : g.DemotedAtTurn p i path) :
    Reports i (.warn (g.nameOf i) (cycleMessage path))
  | ancestor {j : Nat} (hfirst : (g.atTurn p g.size).IsStruct i) (hij : i ∈ g.ancestors j)
      (hj : ¬(g.resolveCycles p).1.IsStruct j) :
    Reports i (.note (g.nameOf i) ("demoted: ancestor of non-struct " ++ g.nameOf j))

/-- Both passes of the resolution of cycles note one diagnostic for each type that they demote. -/
theorem demotes_resolveCycles :
    ∃ demoted, Demotes (g.Reports p) (g, []) (g.resolveCycles p) demoted := by
  obtain ⟨demoted, hfirst⟩ := g.demotes_breakCycles p g.size
  obtain ⟨later, hsecond⟩ := demotes_foldl_demoteAncestors (g.atTurn p g.size).ids hfirst.same
  have hresolve : g.resolveCycles p =
      (g.atTurn p g.size).ids.foldl demoteAncestors
        ((List.range g.size).foldl (breakCycle p) (g, [])) := by
    unfold resolveCycles
    rw [demoteUntilStable_eq_demoteRound]
    rfl
  rw [← hresolve] at hsecond
  refine ⟨demoted ++ later, .trans (hfirst.mono ?_) (hsecond.mono ?_)⟩
  · rintro i _ - ⟨path, hturn, rfl⟩
    exact .cycle hturn
  · rintro i _ hi ⟨j, hij, hj, rfl⟩
    exact .ancestor hi hij hj

/-- To resolve cycles once more does nothing. -/
theorem resolveCycles_resolveCycles :
    (g.resolveCycles p).1.resolveCycles p = ((g.resolveCycles p).1, []) := by
  have hstable := g.stable_resolveCycles p
  have hfirst : ∀ l : List Nat,
      l.foldl (breakCycle p) ((g.resolveCycles p).1, []) = ((g.resolveCycles p).1, []) := by
    intro l
    induction l with
    | nil => rfl
    | cons i rest ih =>
      -- Either the type is no candidate, or the search from it finds nothing.
      have hstep : breakCycle p ((g.resolveCycles p).1, []) i = ((g.resolveCycles p).1, []) := by
        unfold breakCycle
        dsimp only
        split
        next hcandidate => rw [cycle?_resolveCycles hcandidate]
        next => rfl
      rw [List.foldl_cons, hstep, ih]
  rw [resolveCycles, hfirst, demoteUntilStable_eq_demoteRound]
  exact demoteRound_of_stable hstable

/-- The account of the resolution of cycles. The types that it demotes have one diagnostic each, of
which they are the subjects, and there are no other diagnostics: a warning of the way back to a type
that is demoted at its turn, and a debug note of one that is demoted as an ancestor. To resolve
cycles once more changes and notes nothing. -/
theorem resolveCycles_accounts :
    (∃ demoted, demoted.Nodup ∧
      (∀ i, i ∈ demoted ↔ g.IsStruct i ∧ ¬(g.resolveCycles p).1.IsStruct i) ∧
      List.Forall₂ (g.Reports p) demoted (g.resolveCycles p).2) ∧
    (g.resolveCycles p).1.resolveCycles p = ((g.resolveCycles p).1, []) := by
  obtain ⟨demoted, h⟩ := g.demotes_resolveCycles p
  obtain ⟨new, hnew, hall⟩ := h.noted
  rw [List.nil_append] at hnew
  refine ⟨⟨demoted, h.nodup, fun i => ?_, hnew ▸ hall⟩, g.resolveCycles_resolveCycles p⟩
  rw [h.left]
  constructor
  · exact fun hi => ⟨h.struct i hi, fun hleft => hleft.2 hi⟩
  · rintro ⟨hi, hleft⟩
    by_contra hnot
    exact hleft ⟨hi, hnot⟩

/-- Prices contain offers, which contain prices, and units contain units. -/
def pricedOffers : TypeGraph :=
  ((build .standard [
    .classFact "StructuredValue" ["Thing"] "" false,
    .classFact "Price" ["StructuredValue"] "" false,
    .classFact "Unit" ["StructuredValue"] "" false,
    .classFact "Offer" ["StructuredValue"] "" false,
    .propertyFact "unit" ["Price"] ["Unit"] "" false,
    .propertyFact "offer" ["Price"] ["Text", "Offer"] "" false,
    .propertyFact "multipleOf" ["Unit"] ["Unit"] "" false,
    .propertyFact "price" ["Offer"] ["Number", "Price"] "" false]).1.classify .standard).1

/-- Offers stay structs when prices are none any more. -/
example : (pricedOffers.resolveCycles .standard).2 =
    [.warn "Price" "struct containment cycle via offer → price, represented as an entity",
      .warn "Unit" "struct containment cycle via multipleOf, represented as an entity",
      .note "StructuredValue" "demoted: ancestor of non-struct Price"] := by
  decide +kernel

end VocabularyCompiler.TypeGraph

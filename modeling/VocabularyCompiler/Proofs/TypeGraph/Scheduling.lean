import VocabularyCompiler.Proofs.TypeGraph.Ancestry
import VocabularyCompiler.TypeGraph.Emission

/-!
# What a visit schedules

`visit` schedules a type behind its parents, depth first. `Progress` says what a visit of several
types in turn does to a schedule, on any graph, cyclic or not: it adds types that were not visited
before, each once, each of them needed by one of the types that the visit set out from, and each
with all its parents visited by the end.
-/

namespace VocabularyCompiler.TypeGraph

open Relation (ReflTransGen)

/-- The type at `i` can be scheduled. -/
abbrev IsScheduled (g : TypeGraph) (i : Nat) : Prop := g.satisfies isScheduled i = true

/-- What can be scheduled is a type of the graph. -/
theorem IsScheduled.lt_size {g : TypeGraph} {i : Nat} (h : g.IsScheduled i) : i < g.size := by
  obtain ⟨n, hn, -⟩ := satisfies_iff.1 h
  exact lt_size_of_node? hn

/-- A chain of parents leads from `i` to `j`, and all types on it can be scheduled, those at its
ends included. -/
def Needs (g : TypeGraph) (i j : Nat) : Prop :=
  g.IsScheduled i ∧ ReflTransGen (fun a b => g.Extends a b ∧ g.IsScheduled b) i j

namespace Needs

variable {g : TypeGraph} {i j k : Nat}

/-- A type that can be scheduled needs itself. -/
theorem refl (h : g.IsScheduled i) : g.Needs i i := ⟨h, .refl⟩

/-- What is needed by what is needed is needed. -/
theorem trans (h : g.Needs i j) (h' : g.Needs j k) : g.Needs i k := ⟨h.1, h.2.trans h'.2⟩

/-- What a parent needs is needed. -/
theorem head (h : g.IsScheduled i) (hij : g.Extends i j) (hjk : g.Needs j k) : g.Needs i k :=
  ⟨h, hjk.2.head ⟨hij, hjk.1⟩⟩

/-- What is needed can be scheduled. -/
theorem isScheduled (h : g.Needs i j) : g.IsScheduled j := by
  rcases ReflTransGen.cases_tail h.2 with heq | ⟨k, -, hk⟩
  · exact heq ▸ h.1
  · exact hk.2

/-- A type needs itself and what its parents need. -/
theorem eq_or_exists (h : g.Needs i k) : i = k ∨ ∃ j ∈ g.parents i, g.Needs j k := by
  rcases ReflTransGen.cases_head h.2 with heq | ⟨j, ⟨hij, hj⟩, hjk⟩
  · exact Or.inl heq
  · exact Or.inr ⟨j, hij, hj, hjk⟩

/-- What is needed is what a chain of parents leads to. -/
theorem reflTransGen (h : g.Needs i j) : ReflTransGen g.Extends i j :=
  ReflTransGen.mono (fun _ _ hab => hab.1) i j h.2

end Needs

/-- The schedule `t` is what the schedule `s` becomes when the types `starts` are visited in turn,
and `added` are the types that were scheduled on the way. -/
structure Progress (g : TypeGraph) (starts : List Nat) (s t : Schedule) (added : List Nat) :
    Prop where
  order : t.order = s.order ++ added
  nodup : added.Nodup
  visited : ∀ x, x ∈ t.visited ↔ x ∈ s.visited ∨ x ∈ added
  fresh : ∀ x ∈ added, x ∉ s.visited
  needed : ∀ x ∈ added, ∃ c ∈ starts, g.Needs c x
  started : ∀ c ∈ starts, g.IsScheduled c → c ∈ t.visited
  closed : ∀ x ∈ added, ∀ y, g.Extends x y → g.IsScheduled y → y ∈ t.visited

namespace Progress

variable {g : TypeGraph} {starts starts' added added' : List Nat} {s t u : Schedule}

/-- To visit nothing changes nothing. -/
theorem refl (g : TypeGraph) (s : Schedule) : g.Progress [] s s [] where
  order := by simp
  nodup := List.nodup_nil
  visited := by simp
  fresh := by simp
  needed := by simp
  started := by simp
  closed := by simp

/-- A visit forgets nothing that was visited. -/
theorem subset (h : g.Progress starts s t added) : s.visited ⊆ t.visited :=
  fun x hx => (h.visited x).2 (Or.inl hx)

/-- Visits one after another. -/
theorem trans (h : g.Progress starts s t added) (h' : g.Progress starts' t u added') :
    g.Progress (starts ++ starts') s u (added ++ added') where
  order := by rw [h'.order, h.order, List.append_assoc]
  nodup := by
    refine h.nodup.append h'.nodup fun x hx hx' => h'.fresh x hx' ?_
    exact (h.visited x).2 (Or.inr hx)
  visited x := by rw [h'.visited, h.visited, List.mem_append, or_assoc]
  fresh x hx := by
    rcases List.mem_append.1 hx with hx | hx
    · exact h.fresh x hx
    · exact fun hs => h'.fresh x hx (h.subset hs)
  needed x hx := by
    rcases List.mem_append.1 hx with hx | hx
    · obtain ⟨c, hc, hcx⟩ := h.needed x hx
      exact ⟨c, List.mem_append_left _ hc, hcx⟩
    · obtain ⟨c, hc, hcx⟩ := h'.needed x hx
      exact ⟨c, List.mem_append_right _ hc, hcx⟩
  started c hc hsched := by
    rcases List.mem_append.1 hc with hc | hc
    · exact h'.subset (h.started c hc hsched)
    · exact h'.started c hc hsched
  closed x hx y hxy hy := by
    rcases List.mem_append.1 hx with hx | hx
    · exact h'.subset (h.closed x hx y hxy hy)
    · exact h'.closed x hx y hxy hy

/-- To visit a type that cannot be scheduled, or was visited before, changes nothing. -/
theorem skip {c : Nat} (h : g.IsScheduled c → c ∈ s.visited) : g.Progress [c] s s [] where
  order := by simp
  nodup := List.nodup_nil
  visited := by simp
  fresh := by simp
  needed := by simp
  started x hx hsched := by
    rw [List.mem_singleton] at hx
    subst hx
    exact h hsched
  closed := by simp

/-- To visit a new type is to visit its parents and then to schedule it. -/
theorem visit {c : Nat} (hc : g.IsScheduled c) (hfresh : c ∉ s.visited)
    (h : g.Progress (g.parents c) { s with visited := c :: s.visited } t added) :
    g.Progress [c] s { t with order := t.order ++ [c] } (added ++ [c]) where
  order := by rw [h.order, List.append_assoc]
  nodup := by
    refine h.nodup.append (List.nodup_singleton c) fun x hx hxc => h.fresh x hx ?_
    exact List.mem_cons.2 (Or.inl (List.mem_singleton.1 hxc))
  visited x := by
    rw [h.visited, List.mem_cons, List.mem_append, List.mem_singleton]
    tauto
  fresh x hx := by
    rcases List.mem_append.1 hx with hx | hx
    · exact fun hs => h.fresh x hx (List.mem_cons_of_mem _ hs)
    · exact List.mem_singleton.1 hx ▸ hfresh
  needed x hx := by
    refine ⟨c, List.mem_singleton_self c, ?_⟩
    rcases List.mem_append.1 hx with hx | hx
    · obtain ⟨j, hj, hjx⟩ := h.needed x hx
      exact .head hc hj hjx
    · rw [List.mem_singleton] at hx
      subst hx
      exact .refl hc
  started x hx _ := by
    rw [List.mem_singleton] at hx
    subst hx
    exact h.subset List.mem_cons_self
  closed x hx y hxy hy := by
    rcases List.mem_append.1 hx with hx | hx
    · exact h.closed x hx y hxy hy
    · rw [List.mem_singleton] at hx
      subst hx
      exact h.started y hxy hy

end Progress

/-- A visit of several types in turn makes progress, if a visit of one type does. -/
private theorem exists_progress_foldl {g : TypeGraph} {n : Nat}
    (hvisit : ∀ {s : Schedule} {c : Nat}, unseen g.ids s.visited < n →
      ∃ added, g.Progress [c] s (g.visit n s c) added) :
    ∀ (starts : List Nat) {s : Schedule}, unseen g.ids s.visited < n →
      ∃ added, g.Progress starts s (starts.foldl (g.visit n) s) added := by
  intro starts
  induction starts with
  | nil => exact fun {s} _ => ⟨[], .refl g s⟩
  | cons c rest ih =>
    intro s hn
    obtain ⟨added, h⟩ := hvisit (c := c) hn
    obtain ⟨added', h'⟩ := ih ((unseen_mono _ h.subset).trans_lt hn)
    exact ⟨added ++ added', h.trans h'⟩

/-- A visit of a type makes progress, if it is allowed more steps than there are unseen types. -/
theorem exists_progress_visit {g : TypeGraph} {n : Nat} {s : Schedule} {c : Nat}
    (hn : unseen g.ids s.visited < n) : ∃ added, g.Progress [c] s (g.visit n s c) added := by
  induction n generalizing s c with
  | zero => omega
  | succ n ih =>
    unfold TypeGraph.visit
    split
    next hcond =>
      obtain ⟨hc, hfresh⟩ : g.IsScheduled c ∧ c ∉ s.visited := by simpa using hcond
      -- The visit of the parents has one step less and one unseen type less.
      have hlt := unseen_lt (List.subset_cons_self c s.visited) (mem_ids.2 hc.lt_size) hfresh
        List.mem_cons_self
      obtain ⟨added, h⟩ := exists_progress_foldl ih (g.parents c)
        (s := { s with visited := c :: s.visited }) (by dsimp only; omega)
      exact ⟨added ++ [c], .visit hc hfresh h⟩
    next hcond =>
      refine ⟨[], .skip fun hc => ?_⟩
      by_contra hfresh
      exact hcond (by simp [hc, hfresh])

/-- A visit of several types in turn makes progress, if it is allowed more steps than there are
unseen types. -/
theorem exists_progress_visits {g : TypeGraph} {n : Nat} (starts : List Nat) {s : Schedule}
    (hn : unseen g.ids s.visited < n) :
    ∃ added, g.Progress starts s (starts.foldl (g.visit n) s) added :=
  exists_progress_foldl exists_progress_visit starts hn

/-- A visit is never cut off: with more steps than there are unseen types, their number makes no
difference. -/
theorem visits_eq_of_unseen_lt {g : TypeGraph} {n m : Nat} (starts : List Nat) {s : Schedule}
    (hn : unseen g.ids s.visited < n) (hm : unseen g.ids s.visited < m) :
    starts.foldl (g.visit n) s = starts.foldl (g.visit m) s := by
  induction n generalizing m starts s with
  | zero => omega
  | succ n ihn =>
    obtain ⟨m, rfl⟩ : ∃ k, m = k + 1 := ⟨m - 1, by omega⟩
    induction starts generalizing s with
    | nil => rfl
    | cons c rest ih =>
      obtain ⟨added, h⟩ := exists_progress_visit (c := c) hn
      have hle := unseen_mono g.ids h.subset
      have hvisit : g.visit (n + 1) s c = g.visit (m + 1) s c := by
        unfold TypeGraph.visit
        split
        next hcond =>
          obtain ⟨hc, hfresh⟩ : g.IsScheduled c ∧ c ∉ s.visited := by simpa using hcond
          have hlt := unseen_lt (List.subset_cons_self c s.visited) (mem_ids.2 hc.lt_size) hfresh
            List.mem_cons_self
          rw [ihn (m := m) (g.parents c) (by dsimp only; omega) (by dsimp only; omega)]
        next => rfl
      rw [List.foldl_cons, List.foldl_cons, ← hvisit]
      exact ih (by omega) (by omega)

end VocabularyCompiler.TypeGraph

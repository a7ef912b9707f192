import VocabularyCompiler.Proofs.TypeGraph.EmissionOrder

/-!
# What is emitted, and when it leaves the order of first sight

On any graph, cyclic or not. `Visiting` is the recursion behind the schedule as it stands without a
bound on its steps: it ends, and the bounded visits compute what it comes to
(`visiting_iff_of_unseen_lt`). Types are visited in the order in which they were first seen, so when
the turn of a type is over, what is scheduled by then was needed by a type seen no later
(`exists_needs_of_sublist`). `emissionOrder_exact` puts this together with what is scheduled at all.
-/

namespace VocabularyCompiler.TypeGraph

variable {g : TypeGraph} {s t u : Schedule}

/-! ## The recursion without a bound -/

/-- To visit the types of a list in turn makes the schedule at the end of the schedule at the start.
A type that cannot be scheduled, or whose turn has begun before, is passed over; the turn of any
other begins with the visit of its parents. -/
inductive Visiting (g : TypeGraph) : Schedule → List Nat → Schedule → Prop where
  | nil {s : Schedule} : Visiting g s [] s
  | skip {s t : Schedule} {c : Nat} {rest : List Nat} (hc : g.IsScheduled c → c ∈ s.visited)
      (h : Visiting g s rest t) : Visiting g s (c :: rest) t
  | turn {s t u : Schedule} {c : Nat} {rest : List Nat} (hc : g.IsScheduled c)
      (hfresh : c ∉ s.visited)
      (hparents : Visiting g { s with visited := c :: s.visited } (g.parents c) t)
      (h : Visiting g { t with order := t.order ++ [c] } rest u) : Visiting g s (c :: rest) u

namespace Visiting

/-- The recursion comes to one end. -/
theorem unique {starts : List Nat} (h : g.Visiting s starts t) (h' : g.Visiting s starts u) :
    t = u := by
  induction h generalizing u with
  | nil =>
    cases h'
    rfl
  | skip hc _ ih =>
    cases h' with
    | skip _ h' => exact ih h'
    | turn hc' hfresh => exact absurd (hc hc') hfresh
  | turn hc hfresh _ _ ihparents ih =>
    cases h' with
    | skip hc' => exact absurd (hc' hc) hfresh
    | turn _ _ hparents h' =>
      obtain rfl := ihparents hparents
      exact ih h'

end Visiting

/-- With more steps than there are unseen types, bounded visits do what the recursion does. -/
theorem visiting_foldl {n : Nat} (starts : List Nat) (hn : unseen g.ids s.visited < n) :
    g.Visiting s starts (starts.foldl (g.visit n) s) := by
  induction n generalizing starts s with
  | zero => omega
  | succ n ihn =>
    induction starts generalizing s with
    | nil => exact .nil
    | cons c rest ih =>
      obtain ⟨added, hprogress⟩ := exists_progress_visit (c := c) hn
      have hrest := ih ((unseen_mono _ hprogress.subset).trans_lt hn)
      rw [List.foldl_cons]
      by_cases hturn : g.IsScheduled c ∧ c ∉ s.visited
      · obtain ⟨hc, hfresh⟩ := hturn
        -- The visit of the parents has one step less and one unseen type less.
        have hlt := unseen_lt (List.subset_cons_self c s.visited) (mem_ids.2 hc.lt_size) hfresh
          List.mem_cons_self
        have hparents := ihn (s := { s with visited := c :: s.visited }) (g.parents c)
          (by dsimp only; omega)
        rw [visit_of_fresh hc hfresh] at hrest ⊢
        exact .turn hc hfresh hparents hrest
      · have hskip : g.visit (n + 1) s c = s := by
          unfold visit
          exact if_neg (by simpa using hturn)
        rw [hskip] at hrest ⊢
        exact .skip (fun hc => not_not.1 fun hfresh => hturn ⟨hc, hfresh⟩) hrest

/-- With more steps than there are unseen types, the recursion comes to what bounded visits come to,
and to nothing else. -/
theorem visiting_iff_of_unseen_lt {n : Nat} {starts : List Nat}
    (hn : unseen g.ids s.visited < n) :
    g.Visiting s starts t ↔ t = starts.foldl (g.visit n) s := by
  have h := visiting_foldl starts hn
  exact ⟨fun h' => h'.unique h, fun heq => heq ▸ h⟩

/-! ## What is scheduled before an earlier type -/

/-- Of a list without repetitions, nothing beyond its first part stands before a member of that
part. -/
theorem not_pair_sublist_append {α : Type _} {first second : List α} {a b : α}
    (hnodup : (first ++ second).Nodup) (ha : a ∈ first) (hb : b ∉ first) :
    ¬[b, a].Sublist (first ++ second) := by
  intro hsub
  obtain ⟨front, back, heq, hfront, hback⟩ := List.sublist_append_iff.1 hsub
  cases front with
  | nil =>
    rw [List.nil_append] at heq
    have hmem : a ∈ second := hback.subset (heq ▸ List.mem_cons_of_mem b List.mem_cons_self)
    exact (List.nodup_append.1 hnodup).2.2 a ha a hmem rfl
  | cons b' front =>
    obtain ⟨rfl, -⟩ := List.cons_eq_cons.1 heq
    exact hb (hfront.subset List.mem_cons_self)

/-- What is scheduled before a type that was seen earlier is needed by a type that was seen no later
than that one. -/
theorem exists_needs_of_sublist {n a b : Nat} (hn : g.size < n)
    (h : [b, a].Sublist (g.ids.foldl (g.visit n) {}).order) : ∃ c ≤ a, g.Needs c b := by
  have hstart : unseen g.ids ({} : Schedule).visited < n := (g.unseen_ids_le _).trans_lt hn
  obtain ⟨all, hall⟩ := exists_progress_visits g.ids hstart
  have hscheduled : ∀ x ∈ (g.ids.foldl (g.visit n) {}).order, g.IsScheduled x := by
    intro x hx
    rw [hall.order, List.nil_append] at hx
    obtain ⟨c, -, hcx⟩ := hall.needed x hx
    exact hcx.isScheduled
  have ha : g.IsScheduled a := hscheduled a (h.subset (by simp))
  -- The types are visited up to `a` first, and then the others.
  obtain ⟨k, hk⟩ : ∃ k, g.size = a + 1 + k := Nat.exists_eq_add_of_le (Nat.succ_le_of_lt ha.lt_size)
  have hids : g.ids = List.range (a + 1) ++ (List.range k).map (a + 1 + ·) := by
    rw [ids, hk, List.range_add]
  obtain ⟨early, hearly⟩ := exists_progress_visits (List.range (a + 1)) hstart
  obtain ⟨late, hlate⟩ := exists_progress_visits ((List.range k).map (a + 1 + ·))
    ((unseen_mono _ hearly.subset).trans_lt hstart)
  rw [hids, List.foldl_append, hlate.order, hearly.order, List.nil_append] at h
  have hnodup := (hearly.trans hlate).nodup
  have hmem : a ∈ early := by
    have hvisited := hearly.started a (List.mem_range.2 (Nat.lt_succ_self a)) ha
    exact ((hearly.visited a).1 hvisited).resolve_left (List.not_mem_nil)
  have hb : b ∈ early := not_not.1 fun hb => not_pair_sublist_append hnodup hmem hb h
  obtain ⟨c, hc, hcb⟩ := hearly.needed b hb
  exact ⟨c, Nat.lt_succ_iff.1 (List.mem_range.1 hc), hcb⟩

/-! ## Emission -/

/-- The type becomes a query: it is no action, no enumeration, no struct, no list and not the root
of all lists. -/
structure BecomesQuery (p : Policy) (n : TypeNode) : Prop where
  action : n.classification.isAction = false
  enum : n.classification.isEnum = false
  struct : n.classification.representAsStruct = false
  list : n.classification.isItemList = false
  root : n.name ≠ p.listRoot

theorem becomesQuery_iff {p : Policy} {n : TypeNode} :
    BecomesQuery p n ↔ isScheduled n = true ∧ isEmitted p n = true := by
  simp only [isScheduled, isEmitted, Bool.and_eq_true, Bool.not_eq_true', decide_eq_true_eq]
  exact ⟨fun h => ⟨⟨⟨h.action, h.enum⟩, h.struct⟩, h.root, h.list⟩,
    fun h => ⟨h.1.1.1, h.1.1.2, h.1.2, h.2.2, h.2.1⟩⟩

/-- On any graph, the recursion of the schedule ends, and what is emitted is what it schedules, in
that order, but for lists. So exactly the types that become queries are emitted, each once. A type is
emitted before one that was seen earlier only if it is an ancestor of a type that was seen no later
than that one. -/
theorem emissionOrder_exact (g : TypeGraph) (p : Policy) :
    (∃ t, (∀ u, g.Visiting {} g.ids u ↔ u = t) ∧
        g.emissionOrder p = t.order.filter (g.satisfies (isEmitted p))) ∧
      (g.emissionOrder p).Nodup ∧
      (∀ i, i ∈ g.emissionOrder p ↔ ∃ n, g.node? i = some n ∧ BecomesQuery p n) ∧
      ∀ a b, a < b → [b, a].Sublist (g.emissionOrder p) → ∃ c ≤ a, b ∈ g.ancestors c := by
  obtain ⟨hnodup, hmem, -⟩ := g.schedule_spec
  refine ⟨⟨_, fun u => ?_, rfl⟩, hnodup.filter _, fun i => ?_, fun a b hab h => ?_⟩
  · exact visiting_iff_of_unseen_lt (Nat.lt_succ_of_le (g.unseen_ids_le _))
  · unfold emissionOrder
    rw [List.mem_filter, hmem, IsScheduled, satisfies_iff, satisfies_iff]
    constructor
    · rintro ⟨⟨n, hn, hscheduled⟩, n', hn', hemitted⟩
      obtain rfl := Option.some_inj.1 (hn.symm.trans hn')
      exact ⟨n, hn, becomesQuery_iff.2 ⟨hscheduled, hemitted⟩⟩
    · rintro ⟨n, hn, hquery⟩
      obtain ⟨hscheduled, hemitted⟩ := becomesQuery_iff.1 hquery
      exact ⟨⟨n, hn, hscheduled⟩, n, hn, hemitted⟩
  · obtain ⟨c, hca, hcb⟩ := exists_needs_of_sublist (Nat.lt_succ_self _)
      (h.trans List.filter_sublist)
    -- The type itself was seen later, so it is not the one that needs it.
    have hne : b ≠ c := by omega
    refine ⟨c, hca, mem_ancestors_iff.2 ⟨hne, ?_⟩⟩
    exact (Relation.reflTransGen_iff_eq_or_transGen.1 hcb.reflTransGen).resolve_left hne

end VocabularyCompiler.TypeGraph

import VocabularyCompiler.Proofs.ClassDefinition.Agreement
import VocabularyCompiler.Proofs.FirstOccurrences
import VocabularyCompiler.Proofs.Refinement.Merge

/-!
# Merging again, and in another order

To merge a response into any class is to change the phrases of its arguments one after another, each
by a change that is the same whatever stands in the class (`fst_mergeQuery`). Such a change is not
felt twice, so a response that was merged has nothing left to add. The changes for two responses
leave the same phrases in either order, but for the order of the phrases themselves, so it does not
matter which response is merged first. Names that repeat or hold points do no harm: an argument that
cannot be reached is reached by no response.
-/

namespace VocabularyCompiler

namespace PhraseSet

/-! ## Phrase sets -/

variable {s t : PhraseSet} {tag : PhraseTag} {xs ys : List (PhraseTag × String)}

theorem mem_under {x : String} : x ∈ under tag xs ↔ (tag, x) ∈ xs := by
  unfold under
  simp

/-- A tag with a phrase is there. -/
theorem mem_keys_of_mem_get {x : String} (h : x ∈ s.get tag) : tag ∈ s.phrases.keys := by
  rw [← OrderedMap.contains_iff_mem_keys, OrderedMap.contains_eq_isSome_get?]
  unfold get at h
  cases hget : s.phrases.get? tag with
  | none => simp [hget] at h
  | some phrases => rfl

/-- To replace the phrases under a tag is to have the tag. -/
theorem mem_keys_set (s : PhraseSet) (tag tag' : PhraseTag) (phrases : List String) :
    tag' ∈ (s.set tag phrases).phrases.keys ↔ tag' ∈ s.phrases.keys ∨ tag' = tag := by
  unfold set
  dsimp only
  rw [OrderedMap.keys_insert]
  split
  next hmem =>
    refine (or_iff_left_of_imp ?_).symm
    rintro rfl
    exact hmem
  next => rw [List.mem_append, List.mem_singleton]

/-- To add a phrase is to have its tag. -/
theorem mem_keys_push (s : PhraseSet) (tag tag' : PhraseTag) (x : String) :
    tag' ∈ (s.push tag x).phrases.keys ↔ tag' ∈ s.phrases.keys ∨ tag' = tag := by
  unfold push
  split
  next h =>
    refine (or_iff_left_of_imp ?_).symm
    rintro rfl
    exact mem_keys_of_mem_get h
  next => exact s.mem_keys_set tag tag' _

/-- To add phrases is to have their tags. -/
theorem mem_keys_foldl_push (xs : List (PhraseTag × String)) (s : PhraseSet) :
    tag ∈ (xs.foldl (fun s e => s.push e.1 e.2) s).phrases.keys ↔
      tag ∈ s.phrases.keys ∨ ∃ x, (tag, x) ∈ xs := by
  induction xs generalizing s with
  | nil => simp
  | cons e rest ih =>
    obtain ⟨tag', x⟩ := e
    rw [List.foldl_cons, ih, mem_keys_push]
    simp [or_assoc, exists_or]

/-- Phrases that are there already are not added. -/
theorem foldl_push_eq_self (h : ∀ e ∈ xs, e.2 ∈ s.get e.1) :
    xs.foldl (fun s e => s.push e.1 e.2) s = s := by
  induction xs with
  | nil => rfl
  | cons e rest ih =>
    rw [List.forall_mem_cons] at h
    have hpush : s.push e.1 e.2 = s := by
      unfold push
      rw [if_pos h.1]
    rw [List.foldl_cons, hpush, ih h.2]

/-- Added phrases are there. -/
theorem mem_get_foldl_push {x : String} :
    x ∈ (xs.foldl (fun s e => s.push e.1 e.2) s).get tag ↔ x ∈ s.get tag ∨ (tag, x) ∈ xs := by
  rw [get_foldl_push, List.mem_append, List.mem_eraseDups, List.mem_filter, mem_under,
    decide_eq_true_eq]
  tauto

/-- The order of the old phrases and of the new ones only matters for the order of the result. -/
theorem perm_get_foldl_push (h : (s.get tag).Perm (t.get tag))
    (hmem : ∀ x, (tag, x) ∈ xs ↔ (tag, x) ∈ ys) :
    ((xs.foldl (fun s e => s.push e.1 e.2) s).get tag).Perm
      ((ys.foldl (fun s e => s.push e.1 e.2) t).get tag) := by
  rw [get_foldl_push, get_foldl_push]
  refine h.append ((List.perm_ext_iff_of_nodup (nodup_eraseDups _) (nodup_eraseDups _)).2 ?_)
  intro x
  simp only [List.mem_eraseDups, List.mem_filter, mem_under, hmem, h.mem_iff]

/-- The sets are the same, but for the order of their tags and of the phrases under each tag. -/
structure Reordered (s t : PhraseSet) : Prop where
  defaultTag : s.defaultTag = t.defaultTag
  apv : s.apv = t.apv
  implicitIdentity : s.implicitIdentity = t.implicitIdentity
  tags : s.phrases.keys.Perm t.phrases.keys
  phrases (tag : PhraseTag) : (s.get tag).Perm (t.get tag)

namespace Reordered

variable {u : PhraseSet}

protected theorem refl (s : PhraseSet) : Reordered s s :=
  ⟨rfl, rfl, rfl, .refl _, fun _ => .refl _⟩

protected theorem trans (h : Reordered s t) (h' : Reordered t u) : Reordered s u where
  defaultTag := h.defaultTag.trans h'.defaultTag
  apv := h.apv.trans h'.apv
  implicitIdentity := h.implicitIdentity.trans h'.implicitIdentity
  tags := h.tags.trans h'.tags
  phrases tag := (h.phrases tag).trans (h'.phrases tag)

end Reordered

end PhraseSet

namespace Refinement

/-! ## Additions -/

namespace Addition

open PhraseSet

variable {a b : Addition} {s t : PhraseSet}

/-- An addition changes only phrases and the flag of implicit identity. -/
theorem exists_addTo_eq (a : Addition) (s : PhraseSet) :
    ∃ m, a.addTo s = { s with
      phrases := m
      implicitIdentity := s.implicitIdentity || a.implicitIdentity } := by
  obtain ⟨m, hm⟩ := s.exists_foldl_push_eq a.phrases
  refine ⟨m, ?_⟩
  unfold addTo
  rw [hm]

theorem implicitIdentity_addTo (a : Addition) (s : PhraseSet) :
    (a.addTo s).implicitIdentity = (s.implicitIdentity || a.implicitIdentity) := by
  obtain ⟨m, hm⟩ := a.exists_addTo_eq s
  rw [hm]

theorem get_addTo (a : Addition) (s : PhraseSet) (tag : PhraseTag) :
    (a.addTo s).get tag = (a.phrases.foldl (fun s e => s.push e.1 e.2) s).get tag := rfl

theorem mem_keys_addTo (a : Addition) (s : PhraseSet) (tag : PhraseTag) :
    tag ∈ (a.addTo s).phrases.keys ↔ tag ∈ s.phrases.keys ∨ ∃ x, (tag, x) ∈ a.phrases :=
  mem_keys_foldl_push a.phrases s

/-- Two additions are one of the phrases of both. -/
theorem get_addTo_addTo (a b : Addition) (s : PhraseSet) (tag : PhraseTag) :
    (b.addTo (a.addTo s)).get tag =
      ((a.phrases ++ b.phrases).foldl (fun s e => s.push e.1 e.2) s).get tag := by
  rw [List.foldl_append, get_addTo, get_foldl_push, get_foldl_push b.phrases, get_addTo]

/-- What was added is not added again. -/
theorem addTo_addTo_self (a : Addition) (s : PhraseSet) : a.addTo (a.addTo s) = a.addTo s := by
  have hpush : a.phrases.foldl (fun s e => s.push e.1 e.2) (a.addTo s) = a.addTo s :=
    foldl_push_eq_self fun e he => by
      rw [get_addTo, mem_get_foldl_push]
      exact Or.inr he
  have himplicit : ((a.addTo s).implicitIdentity || a.implicitIdentity) =
      (a.addTo s).implicitIdentity := by
    rw [implicitIdentity_addTo, Bool.or_assoc, Bool.or_self]
  rw [addTo, hpush, himplicit]

/-- An addition to sets that differ in order leaves them so. -/
theorem reordered_addTo (a : Addition) (h : Reordered s t) :
    Reordered (a.addTo s) (a.addTo t) := by
  obtain ⟨m, hm⟩ := a.exists_addTo_eq s
  obtain ⟨n, hn⟩ := a.exists_addTo_eq t
  refine ⟨?_, ?_, ?_, ?_, fun tag => ?_⟩
  · rw [hm, hn]
    exact h.defaultTag
  · rw [hm, hn]
    exact h.apv
  · rw [implicitIdentity_addTo, implicitIdentity_addTo, h.implicitIdentity]
  · refine (List.perm_ext_iff_of_nodup (a.addTo s).phrases.nodup (a.addTo t).phrases.nodup).2 ?_
    intro tag
    exact (mem_keys_addTo a s tag).trans
      ((or_congr_left h.tags.mem_iff).trans (mem_keys_addTo a t tag).symm)
  · exact perm_get_foldl_push (h.phrases tag) fun _ => Iff.rfl

/-- Two additions leave the same in either order, but for the order. -/
theorem reordered_addTo_addTo (a b : Addition) (s : PhraseSet) :
    Reordered (b.addTo (a.addTo s)) (a.addTo (b.addTo s)) := by
  obtain ⟨m, hm⟩ := a.exists_addTo_eq s
  obtain ⟨n, hn⟩ := b.exists_addTo_eq s
  obtain ⟨m', hm'⟩ := b.exists_addTo_eq (a.addTo s)
  obtain ⟨n', hn'⟩ := a.exists_addTo_eq (b.addTo s)
  refine ⟨?_, ?_, ?_, ?_, fun tag => ?_⟩
  · rw [hm', hn', hm, hn]
  · rw [hm', hn', hm, hn]
  · simp only [implicitIdentity_addTo, Bool.or_assoc, Bool.or_comm a.implicitIdentity]
  · refine (List.perm_ext_iff_of_nodup (b.addTo (a.addTo s)).phrases.nodup
      (a.addTo (b.addTo s)).phrases.nodup).2 fun tag => ?_
    refine (mem_keys_addTo b _ tag).trans (Iff.trans ?_ (mem_keys_addTo a _ tag).symm)
    rw [mem_keys_addTo, mem_keys_addTo, or_right_comm]
  · rw [get_addTo_addTo, get_addTo_addTo]
    refine perm_get_foldl_push (.refl _) fun x => ?_
    rw [List.mem_append, List.mem_append, or_comm]

end Addition

/-! ## Merged phrases -/

open PhraseSet

section MergedPhrases

variable {r r₁ r₂ : RefinementResponse} {query path : String}

/-- Merged phrases are not merged again. -/
theorem mergedPhrases_mergedPhrases_self (r : RefinementResponse) (query path : String)
    (s : Option PhraseSet) :
    mergedPhrases r query path (mergedPhrases r query path s) = mergedPhrases r query path s := by
  unfold mergedPhrases
  cases addition? r query path with
  | none => rfl
  | some a => exact congrArg some (a.addTo_addTo_self _)

/-- A response merged into sets that differ in order leaves them so. -/
theorem reordered_mergedPhrases (r : RefinementResponse) (query path : String)
    {s t : Option PhraseSet} (h : Option.Rel Reordered s t) :
    Option.Rel Reordered (mergedPhrases r query path s) (mergedPhrases r query path t) := by
  unfold mergedPhrases
  cases addition? r query path with
  | none => exact h
  | some a =>
    cases h with
    | none => exact .some (.refl _)
    | some h => exact .some (a.reordered_addTo h)

/-- Two responses leave the same phrases in either order, but for the order. -/
theorem reordered_mergedPhrases_mergedPhrases (r₁ r₂ : RefinementResponse) (query path : String)
    (s : Option PhraseSet) :
    Option.Rel Reordered (mergedPhrases r₂ query path (mergedPhrases r₁ query path s))
      (mergedPhrases r₁ query path (mergedPhrases r₂ query path s)) := by
  unfold mergedPhrases
  cases addition? r₁ query path with
  | none => exact optionRel_refl Reordered.refl _
  | some a =>
    cases addition? r₂ query path with
    | none => exact optionRel_refl Reordered.refl _
    | some b => exact .some (a.reordered_addTo_addTo b _)

end MergedPhrases

/-! ## Queries -/

/-- To merge a response into a query is to change the phrases of its arguments, whatever their
names. -/
theorem fst_mergeQuery (r : RefinementResponse) (name : String) (q : Query) :
    (mergeQuery r name q).1 = q.changePhrases q.arguments (mergedPhrases r name) := by
  have hargument : ∀ (state : Query × Diagnostics) path, (mergeArgument r name state path).1 =
      state.1.modifyPhrases path (mergedPhrases r name path) := by
    rintro ⟨q, notes⟩ path
    unfold mergeArgument mergedPhrases
    dsimp only
    cases addition? r name path with
    | none => exact (Query.modifyPhrases_eq_self fun _ _ => rfl).symm
    | some a =>
      dsimp only
      cases hf : q.argument? path with
      | none => exact (Query.modifyPhrases_eq_self fun f hf' => nomatch hf.symm.trans hf').symm
      | some f => rfl
  have hfoldl : ∀ (paths : List String) (state : Query × Diagnostics),
      (paths.foldl (mergeArgument r name) state).1 =
        state.1.changePhrases paths (mergedPhrases r name) := by
    intro paths
    induction paths with
    | nil => exact fun _ => rfl
    | cons path rest ih =>
      intro state
      rw [List.foldl_cons, ih, hargument]
      rfl
  exact hfoldl q.arguments (q, [])

/-- A response that was merged into a query has nothing left to add to it. -/
theorem mergeQuery_mergeQuery_self (r : RefinementResponse) (name : String) (q : Query) :
    (mergeQuery r name (mergeQuery r name q).1).1 = (mergeQuery r name q).1 := by
  rw [fst_mergeQuery, fst_mergeQuery, Query.arguments_changePhrases,
    Query.changePhrases_changePhrases (mergedPhrases_mergedPhrases_self r name)]

/-- Two responses leave the same query in either order, but for the order of phrases. -/
theorem mergeQuery_mergeQuery_comm (r₁ r₂ : RefinementResponse) (name : String) (q : Query) :
    (mergeQuery r₂ name (mergeQuery r₁ name q).1).1.AgreeUpTo (Option.Rel Reordered)
      (mergeQuery r₁ name (mergeQuery r₂ name q).1).1 := by
  have hrefl := Query.AgreeUpTo.refl (optionRel_refl Reordered.refl)
  simp only [fst_mergeQuery, Query.arguments_changePhrases]
  refine foldl_foldl_comm hrefl (Query.AgreeUpTo.trans (optionRel_trans @Reordered.trans))
    (fun path => Query.AgreeUpTo.modifyPhrases (reordered_mergedPhrases r₁ name path) path)
    (fun path => Query.AgreeUpTo.modifyPhrases (reordered_mergedPhrases r₂ name path) path) ?_ _ _ q
  intro q path path'
  by_cases hpath : path = path'
  · -- At one path the two changes are one, and the order is felt in the phrases only.
    subst hpath
    rw [Query.modifyPhrases_modifyPhrases, Query.modifyPhrases_modifyPhrases]
    refine (hrefl q).modifyPhrases (fun {s t} h => ?_) path
    exact optionRel_trans @Reordered.trans _ _ _
      (reordered_mergedPhrases_mergedPhrases r₁ r₂ name path s)
      (reordered_mergedPhrases r₁ name path (reordered_mergedPhrases r₂ name path h))
  · rw [Query.modifyPhrases_comm hpath]
    exact hrefl _

/-! ## Classes -/

/-- A merged class is the class with the merged queries. -/
theorem fst_merge (r : RefinementResponse) (c : ClassDefinition) :
    (merge r c).1 = { c with
      queries := c.queries.mapWithKey fun name q => (mergeQuery r name q).1 } := by
  unfold merge
  dsimp only
  rw [OrderedMap.mapWithKey_mapWithKey]

/-- To merge a response a second time leaves the class as the first time left it. -/
theorem merge_merge_self (r : RefinementResponse) (c : ClassDefinition) :
    (merge r (merge r c).1).1 = (merge r c).1 := by
  rw [fst_merge, fst_merge]
  dsimp only
  rw [OrderedMap.mapWithKey_mapWithKey]
  simp only [mergeQuery_mergeQuery_self]

/-- To merge two responses in either order leaves classes that agree in everything but the order of
the tags of a phrase set and of the phrases under a tag. -/
theorem merge_merge_comm (r₁ r₂ : RefinementResponse) (c : ClassDefinition) :
    (merge r₂ (merge r₁ c).1).1.AgreeUpTo (Option.Rel Reordered)
      (merge r₁ (merge r₂ c).1).1 := by
  simp only [fst_merge, OrderedMap.mapWithKey_mapWithKey]
  refine ⟨_, rfl, ?_⟩
  unfold OrderedMap.mapWithKey
  dsimp only
  rw [List.forall₂_map_left_iff, List.forall₂_map_right_iff, List.forall₂_same]
  exact fun e _ => ⟨rfl, mergeQuery_mergeQuery_comm r₁ r₂ e.1 e.2⟩

end Refinement

end VocabularyCompiler

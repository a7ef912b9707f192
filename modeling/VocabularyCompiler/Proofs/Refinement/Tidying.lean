import VocabularyCompiler.Proofs.Refinement.MergeOrder
import VocabularyCompiler.Refinement.Annotate

/-!
# What annotation comes to

Annotation changes nothing but the phrases of arguments, and each set of phrases by `tidyAs`, which
sees of its argument only the kind of entities that it alone holds in its query (`fst_annotate`).
Phrases lose the name of their query, and what is missing is added behind them (`Grown`), but the
adjectives of an argument that alone holds persons are replaced (`Possessive`). So the sets that are
left as they are, are those that lack nothing and in which no phrase begins with the name of its
query (`Tidied`), and any number of rounds of tidying up changes every other set
(`iterate_tidyAs_eq_self_iff`).
-/

namespace VocabularyCompiler

namespace PhraseSet

variable {s t u : PhraseSet} {tag : PhraseTag}

/-! ## Sets with other phrases -/

/-- The sets are the same but for the phrases in them. -/
def SameMarks (s t : PhraseSet) : Prop := t = { s with phrases := t.phrases }

namespace SameMarks

protected theorem refl (s : PhraseSet) : SameMarks s s := rfl

protected theorem trans (h : SameMarks s t) (h' : SameMarks t u) : SameMarks s u := by
  unfold SameMarks at h h' ⊢
  rw [h', h]

end SameMarks

theorem sameMarks_push (s : PhraseSet) (tag : PhraseTag) (x : String) :
    SameMarks s (s.push tag x) := by
  obtain ⟨m, hm⟩ := s.exists_push_eq tag x
  rw [hm]
  rfl

/-- Sets are the same if their tags, in order, and the phrases under each tag are. -/
theorem ext_get (hmarks : SameMarks s t) (htags : s.phrases.keys = t.phrases.keys)
    (hget : ∀ tag, s.get tag = t.get tag) : s = t := by
  have hphrases : s.phrases = t.phrases := by
    refine OrderedMap.ext_get? htags fun tag => ?_
    -- Only a tag that is absent from both can be mistaken for one without phrases.
    have hsome : (s.phrases.get? tag).isSome = (t.phrases.get? tag).isSome := by
      rw [← OrderedMap.contains_eq_isSome_get?, ← OrderedMap.contains_eq_isSome_get?,
        Bool.eq_iff_iff, OrderedMap.contains_iff_mem_keys, OrderedMap.contains_iff_mem_keys, htags]
    have htag := hget tag
    unfold get at htag
    cases hs : s.phrases.get? tag with
    | none =>
      cases ht : t.phrases.get? tag with
      | none => rfl
      | some _ => simp [hs, ht] at hsome
    | some _ =>
      cases ht : t.phrases.get? tag with
      | none => simp [hs, ht] at hsome
      | some _ => simpa [hs, ht] using htag
  unfold SameMarks at hmarks
  rw [hmarks, ← hphrases]

/-- There are no phrases under a tag that is absent. -/
theorem get_eq_nil (h : tag ∉ s.phrases.keys) : s.get tag = [] :=
  List.eq_nil_iff_forall_not_mem.2 fun _ hx => h (mem_keys_of_mem_get hx)

/-! ## Sets with more phrases -/

/-- The set `t` has the phrases of `s` and perhaps more behind them, but no more adjectives, and it
repeats none unless `s` does. -/
structure Grown (s t : PhraseSet) : Prop where
  marks : SameMarks s t
  phrases (tag : PhraseTag) : s.get tag <+: t.get tag
  adjectives : t.get .adjective = s.get .adjective
  nodup : (∀ tag, tag ≠ .adjective → (s.get tag).Nodup) →
    ∀ tag, tag ≠ .adjective → (t.get tag).Nodup

namespace Grown

protected theorem refl (s : PhraseSet) : Grown s s := ⟨rfl, fun _ => List.prefix_rfl, rfl, id⟩

protected theorem trans (h : Grown s t) (h' : Grown t u) : Grown s u where
  marks := h.marks.trans h'.marks
  phrases tag := (h.phrases tag).trans (h'.phrases tag)
  adjectives := h'.adjectives.trans h.adjectives
  nodup := h'.nodup ∘ h.nodup

/-- Phrases may be set under a tag that has none. -/
theorem set {phrases : List String} (htag : tag ≠ .adjective) (hempty : s.get tag = [])
    (hphrases : (∀ tag, tag ≠ .adjective → (s.get tag).Nodup) → phrases.Nodup) :
    Grown s (s.set tag phrases) where
  marks := rfl
  phrases tag' := by
    rw [get_set]
    split
    next h =>
      rw [← h, hempty]
      exact List.nil_prefix
    next => exact List.prefix_rfl
  adjectives := by rw [get_set, if_neg htag]
  nodup h tag' htag' := by
    rw [get_set]
    split
    · exact hphrases h
    · exact h tag' htag'

/-- A phrase may be added, but to the adjectives. -/
theorem push (htag : tag ≠ .adjective) (s : PhraseSet) (x : String) : Grown s (s.push tag x) where
  marks := s.sameMarks_push tag x
  phrases tag' := by
    rw [get_push]
    split
    · exact List.prefix_append _ _
    · exact List.prefix_rfl
  adjectives := by rw [get_push, if_neg fun h => htag h.1]
  nodup h tag' htag' := by
    rw [get_push]
    split
    next hnew => exact List.concat_eq_append ▸ (h tag' htag').concat hnew.2
    next => exact h tag' htag'

end Grown

end PhraseSet

namespace Refinement

open PhraseSet Text

/-! ## Phrases without the name of their query -/

/-- A phrase without the name of its query in front. -/
def withoutQuery (query phrase : String) : String := withoutStart (lowercase query ++ " ") phrase

section WithoutQuery

variable {query x : String}

/-- A phrase that begins with the name of its query is longer than what is left of it. -/
theorem withoutQuery_eq_or_lt (query x : String) :
    withoutQuery query x = x ∨ (withoutQuery query x).length < x.length := by
  unfold withoutQuery withoutStart dropStart?
  by_cases hstart : (lowercase query ++ " ").toList.isPrefixOf x.toList = true
  · have hle := (List.isPrefixOf_iff_prefix.1 hstart).length_le
    -- Even where the query has no name, there is a space behind it.
    have hpos : 0 < (lowercase query ++ " ").toList.length := by
      rw [String.toList_append, List.length_append]
      exact Nat.add_pos_right _ Nat.one_pos
    refine Or.inr ?_
    rw [if_pos hstart, ← String.length_toList, ← String.length_toList, String.toList_ofList,
      List.length_drop]
    omega
  · rw [if_neg hstart]
    exact Or.inl rfl

/-- A phrase of one word is left as it is. -/
theorem withoutQuery_of_notMem (query : String) (h : ' ' ∉ x.toList) :
    withoutQuery query x = x := by
  have hstart : ¬(lowercase query ++ " ").toList.isPrefixOf x.toList = true := fun hstart =>
    h ((List.isPrefixOf_iff_prefix.1 hstart).subset (by simp))
  unfold withoutQuery withoutStart dropStart?
  rw [if_neg hstart]

/-- A phrase that is the same after any number of rounds is the same after each of them. -/
theorem withoutQuery_eq_self_of_iterate {n : Nat} (h : (withoutQuery query)^[n + 1] x = x) :
    withoutQuery query x = x := by
  have hle : ∀ y, (withoutQuery query y).length ≤ y.length := fun y =>
    (withoutQuery_eq_or_lt query y).elim (fun heq => Nat.le_of_eq (by rw [heq])) Nat.le_of_lt
  have hiterate : ∀ n y, ((withoutQuery query)^[n] y).length ≤ y.length := by
    intro n
    induction n with
    | zero => exact fun _ => Nat.le_refl _
    | succ n ih => exact fun y => Nat.le_trans (ih (withoutQuery query y)) (hle y)
  refine (withoutQuery_eq_or_lt query x).resolve_right fun hlt => ?_
  -- A phrase that was shortened once stays shorter.
  have hshort := hiterate n (withoutQuery query x)
  rw [← Function.iterate_succ_apply, h] at hshort
  exact Nat.not_le.2 hlt hshort

theorem get_stripPhrases (query : String) (s : PhraseSet) (tag : PhraseTag) :
    (stripPhrases (lowercase query ++ " ") s).get tag = (s.get tag).map (withoutQuery query) := by
  unfold stripPhrases PhraseSet.get
  dsimp only
  rw [OrderedMap.get?_mapWithKey]
  cases s.phrases.get? tag <;> rfl

theorem keys_stripPhrases (start : String) (s : PhraseSet) :
    (stripPhrases start s).phrases.keys = s.phrases.keys := OrderedMap.keys_mapWithKey _ _

end WithoutQuery

/-! ## What is added -/

/-- A set with the name of a kind of entities for missing property phrases. -/
def nameProperty (name : String) (s : PhraseSet) : PhraseSet :=
  if s.phrases.contains .property then s
  else (s.set .property [Phrase.spellOut name]).set .base [Phrase.spellOut name]

/-- A set in which the bare value may stand for the property, unless a query has the name of the
kind of entities. -/
def admitBare (emitted : List String) (name : String) (s : PhraseSet) : PhraseSet :=
  if name ∈ emitted then s else s.push .property "#"

/-- A set with nothing missing. `alone` is the kind of entities that only its argument holds in its
query, if there is one. -/
def complete (emitted : List String) (alone : Option String) (s : PhraseSet) : PhraseSet :=
  alone.elim (fillProperty s) fun kind =>
    admitBare emitted (localKind kind) (nameProperty (localKind kind) (fillProperty s))

/-- Whether a kind of entities is that of persons. -/
def isPersons (kind : String) : Bool :=
  [':', 'P', 'e', 'r', 's', 'o', 'n'].isSuffixOf kind.toList

/-- The adjectives for a person. -/
def possessives : List String := ["# 's", "#"]

/-- The phrases under the tag are the adjectives of an argument that alone holds persons. -/
def Possessive (alone : Option String) (tag : PhraseTag) : Prop :=
  tag = .adjective ∧ alone.any isPersons = true

/-- A set with the adjectives for a person, where its argument alone holds persons. -/
def makePossessive (alone : Option String) (s : PhraseSet) : PhraseSet :=
  if alone.any isPersons then s.set .adjective possessives else s

/-- A set of phrases, tidied up. -/
def tidyAs (emitted : List String) (query : String) (alone : Option String) (s : PhraseSet) :
    PhraseSet :=
  makePossessive alone (complete emitted alone (stripPhrases (lowercase query ++ " ") s))

/-- What becomes of a set depends on its argument by the kind of entities that it alone holds. -/
theorem tidy_eq (c : Context) (query : String) (kinds : List String) (f : Field) (s : PhraseSet) :
    tidy c query kinds f s =
      tidyAs c.emitted query (f.type.entityKind?.filter fun kind => kinds.count kind = 1) s := by
  unfold tidy
  dsimp only
  cases f.type.entityKind? with
  | none => rfl
  | some kind =>
    by_cases hcount : kinds.count kind = 1
    · simp only [Option.filter, hcount, if_true, decide_true]
      rfl
    · simp only [Option.filter, hcount, if_false, decide_false]
      rfl

section Complete

variable {emitted : List String} {alone : Option String} {s : PhraseSet}

/-- Missing property phrases may be had from the base phrases. -/
theorem grown_fillProperty (s : PhraseSet) : Grown s (fillProperty s) := by
  unfold fillProperty
  split
  · exact .refl s
  next h =>
    rw [Bool.or_eq_true, not_or, OrderedMap.contains_iff_mem_keys] at h
    exact .set (by decide) (get_eq_nil h.1) fun hnodup => hnodup .base (by decide)

/-- Where there is no property phrase after that, there is no base phrase. -/
theorem mem_keys_fillProperty (s : PhraseSet) :
    .property ∈ (fillProperty s).phrases.keys ∨ (fillProperty s).get .base = [] := by
  unfold fillProperty
  split
  next h =>
    rw [Bool.or_eq_true, OrderedMap.contains_iff_mem_keys, List.isEmpty_iff] at h
    exact h
  next => exact Or.inl ((mem_keys_set _ _ _ _).2 (Or.inr rfl))

/-- Missing property phrases may be had from the kind of entities, if there are no base phrases. -/
theorem grown_nameProperty (name : String)
    (h : .property ∈ s.phrases.keys ∨ s.get .base = []) : Grown s (nameProperty name s) := by
  unfold nameProperty
  split
  · exact .refl s
  next hnot =>
    rw [OrderedMap.contains_iff_mem_keys] at hnot
    -- Neither list that is set had a phrase.
    have hproperty : Grown s (s.set .property [Phrase.spellOut name]) :=
      .set (by decide) (get_eq_nil hnot) fun _ => List.nodup_singleton _
    refine hproperty.trans (.set (by decide) ?_ fun _ => List.nodup_singleton _)
    rw [get_set, if_neg (by decide)]
    exact h.resolve_left hnot

theorem mem_keys_nameProperty (name : String) (s : PhraseSet) :
    .property ∈ (nameProperty name s).phrases.keys := by
  unfold nameProperty
  split
  next h => exact (OrderedMap.contains_iff_mem_keys _ _).1 h
  next => exact (mem_keys_set _ _ _ _).2 (Or.inl ((mem_keys_set _ _ _ _).2 (Or.inr rfl)))

/-- The bare value may be added. -/
theorem grown_admitBare (emitted : List String) (name : String) (s : PhraseSet) :
    Grown s (admitBare emitted name s) := by
  unfold admitBare
  split
  · exact .refl s
  · exact .push (by decide) s "#"

/-- What is missing is added behind what is there. -/
theorem grown_complete (emitted : List String) (alone : Option String) (s : PhraseSet) :
    Grown s (complete emitted alone s) := by
  cases alone with
  | none => exact grown_fillProperty s
  | some kind =>
    exact ((grown_fillProperty s).trans
      (grown_nameProperty (localKind kind) (mem_keys_fillProperty s))).trans
        (grown_admitBare emitted (localKind kind) _)

theorem mem_keys_complete (emitted : List String) (alone : Option String) (s : PhraseSet) :
    .property ∈ (complete emitted alone s).phrases.keys ∨
      alone = none ∧ (complete emitted alone s).get .base = [] := by
  cases alone with
  | none => exact (mem_keys_fillProperty s).imp_right fun h => ⟨rfl, h⟩
  | some kind =>
    refine Or.inl ?_
    have hkey := mem_keys_nameProperty (localKind kind) (fillProperty s)
    change .property ∈ (admitBare emitted (localKind kind) _).phrases.keys
    unfold admitBare
    split
    · exact hkey
    · exact (mem_keys_push _ _ _ _).2 (Or.inl hkey)

/-- The bare value may stand for the property, if no query is named like the kind of entities. -/
theorem bare_mem_complete {kind : String} (h : localKind kind ∉ emitted) (s : PhraseSet) :
    "#" ∈ (complete emitted (some kind) s).get .property := by
  change "#" ∈ (admitBare emitted (localKind kind) _).get .property
  unfold admitBare
  rw [if_neg h, get_push]
  split
  next => exact List.mem_append_right _ (List.mem_singleton_self _)
  next hold => exact by_contra fun hnew => hold ⟨rfl, hnew⟩

/-- Nothing is added where nothing is missing. -/
theorem complete_eq_self (hproperty : .property ∈ s.phrases.keys ∨ alone = none ∧ s.get .base = [])
    (hbare : ∀ kind, alone = some kind → localKind kind ∉ emitted → "#" ∈ s.get .property) :
    complete emitted alone s = s := by
  have hfill : fillProperty s = s := by
    unfold fillProperty
    refine if_pos ?_
    rw [Bool.or_eq_true, OrderedMap.contains_iff_mem_keys, List.isEmpty_iff]
    exact hproperty.imp_right And.right
  cases alone with
  | none => exact hfill
  | some kind =>
    have hkey := hproperty.resolve_right fun h => nomatch h.1
    have hname : nameProperty (localKind kind) s = s :=
      if_pos ((OrderedMap.contains_iff_mem_keys _ _).2 hkey)
    have hadmit : admitBare emitted (localKind kind) s = s := by
      unfold admitBare
      split
      next => rfl
      next h => exact if_pos (hbare kind rfl h)
    change admitBare emitted _ (nameProperty _ (fillProperty s)) = s
    rw [hfill, hname, hadmit]

end Complete

/-! ## What becomes of a set -/

section TidyAs

variable {emitted : List String} {query : String} {alone : Option String} {s : PhraseSet}
  {tag : PhraseTag}

theorem get_makePossessive (s : PhraseSet) (h : Possessive alone tag) :
    (makePossessive alone s).get tag = possessives := by
  obtain ⟨rfl, hpersons⟩ := h
  unfold makePossessive
  rw [if_pos hpersons, get_set, if_pos rfl]

/-- Only the adjectives of an argument that alone holds persons are replaced. -/
theorem get_makePossessive_of_not (s : PhraseSet) (h : ¬Possessive alone tag) :
    (makePossessive alone s).get tag = s.get tag := by
  unfold makePossessive
  split
  next hpersons => rw [get_set, if_neg fun htag => h ⟨htag.symm, hpersons⟩]
  next => rfl

theorem sameMarks_makePossessive (alone : Option String) (s : PhraseSet) :
    SameMarks s (makePossessive alone s) := by
  unfold makePossessive
  split <;> rfl

/-- Only phrases change. -/
theorem sameMarks_tidyAs (emitted : List String) (query : String) (alone : Option String)
    (s : PhraseSet) : SameMarks s (tidyAs emitted query alone s) :=
  SameMarks.trans (t := stripPhrases (lowercase query ++ " ") s) rfl
    ((grown_complete emitted alone _).marks.trans (sameMarks_makePossessive alone _))

theorem get_tidyAs_of_possessive (emitted : List String) (query : String) (s : PhraseSet)
    (h : Possessive alone tag) : (tidyAs emitted query alone s).get tag = possessives :=
  get_makePossessive _ h

/-- Other phrases are still there, without the name of their query, in front of what is added. -/
theorem prefix_get_tidyAs (emitted : List String) (query : String) (s : PhraseSet)
    (h : ¬Possessive alone tag) :
    (s.get tag).map (withoutQuery query) <+: (tidyAs emitted query alone s).get tag := by
  unfold tidyAs
  rw [get_makePossessive_of_not _ h, ← get_stripPhrases]
  exact (grown_complete emitted alone _).phrases tag

/-- No phrase stands there twice, unless two became one without the name of their query. -/
theorem nodup_get_tidyAs (emitted : List String)
    (h : ∀ tag, ¬Possessive alone tag → ((s.get tag).map (withoutQuery query)).Nodup)
    (tag : PhraseTag) : ((tidyAs emitted query alone s).get tag).Nodup := by
  have hgrown := grown_complete emitted alone (stripPhrases (lowercase query ++ " ") s)
  by_cases hpossessive : Possessive alone tag
  · rw [get_tidyAs_of_possessive emitted query s hpossessive]
    decide
  · unfold tidyAs
    rw [get_makePossessive_of_not _ hpossessive]
    by_cases htag : tag = .adjective
    · -- Adjectives are not added to, so those of any other argument only lose the name.
      subst htag
      rw [hgrown.adjectives, get_stripPhrases]
      exact h _ hpossessive
    · refine hgrown.nodup (fun tag htag => ?_) tag htag
      rw [get_stripPhrases]
      exact h tag fun hpossessive => htag hpossessive.1

/-- Nothing is missing from the set that tidying up adds. -/
structure Completed (emitted : List String) (alone : Option String) (s : PhraseSet) : Prop where
  property : .property ∈ s.phrases.keys ∨ alone = none ∧ s.get .base = []
  bare (kind : String) : alone = some kind → localKind kind ∉ emitted → "#" ∈ s.get .property
  possessive (tag : PhraseTag) : Possessive alone tag → s.get tag = possessives

/-- Nothing is missing from the set, and no phrase of it begins with the name of its query. -/
structure Tidied (emitted : List String) (query : String) (alone : Option String)
    (s : PhraseSet) : Prop extends Completed emitted alone s where
  stripped (tag : PhraseTag) : ¬Possessive alone tag → ∀ x ∈ s.get tag, withoutQuery query x = x

theorem completed_tidyAs (emitted : List String) (query : String) (alone : Option String)
    (s : PhraseSet) : Completed emitted alone (tidyAs emitted query alone s) := by
  -- The adjectives come last, and neither property nor base phrases change with them.
  have hother : ∀ {tag : PhraseTag}, tag ≠ .adjective → ¬Possessive alone tag :=
    fun htag h => htag h.1
  refine ⟨?_, fun kind hkind hemitted => ?_, fun _ h => get_makePossessive _ h⟩
  · refine (mem_keys_complete emitted alone (stripPhrases (lowercase query ++ " ") s)).imp
      (fun h => ?_) (And.imp_right fun h => ?_)
    · unfold tidyAs makePossessive
      split
      · exact (mem_keys_set _ _ _ _).2 (Or.inl h)
      · exact h
    · unfold tidyAs
      rw [get_makePossessive_of_not _ (hother (by decide)), h]
  · subst hkind
    unfold tidyAs
    rw [get_makePossessive_of_not _ (hother (by decide))]
    exact bare_mem_complete hemitted _

/-- Where nothing is missing, phrases lose the name of their query and no more. -/
theorem tidyAs_of_completed (query : String) (h : Completed emitted alone s) :
    tidyAs emitted query alone s =
      makePossessive alone (stripPhrases (lowercase query ++ " ") s) := by
  unfold tidyAs
  rw [complete_eq_self]
  · rw [keys_stripPhrases, get_stripPhrases, List.map_eq_nil_iff]
    exact h.property
  · intro kind hkind hemitted
    rw [get_stripPhrases]
    exact List.mem_map.2
      ⟨"#", h.bare kind hkind hemitted, withoutQuery_of_notMem query (by decide)⟩

/-- A tidied set is left as it is. -/
theorem tidyAs_eq_self (h : Tidied emitted query alone s) : tidyAs emitted query alone s = s := by
  refine (ext_get (sameMarks_tidyAs emitted query alone s) ?_ fun tag => ?_).symm
  · rw [tidyAs_of_completed query h.toCompleted]
    unfold makePossessive
    split
    next hpersons =>
      -- The adjectives are there already, so they are replaced in their place.
      have hkey : .adjective ∈ (stripPhrases (lowercase query ++ " ") s).phrases.keys := by
        rw [keys_stripPhrases]
        refine mem_keys_of_mem_get (x := "#") ?_
        rw [h.possessive .adjective ⟨rfl, hpersons⟩]
        decide
      unfold PhraseSet.set
      dsimp only
      rw [OrderedMap.keys_insert, if_pos hkey, keys_stripPhrases]
    next => exact (keys_stripPhrases _ s).symm
  · by_cases hpossessive : Possessive alone tag
    · rw [get_tidyAs_of_possessive emitted query s hpossessive, h.possessive tag hpossessive]
    · rw [tidyAs_of_completed query h.toCompleted, get_makePossessive_of_not _ hpossessive,
        get_stripPhrases]
      exact ((List.map_congr_left (h.stripped tag hpossessive)).trans (List.map_id _)).symm

/-- The sets that any number of rounds of tidying up leaves as they are, are the tidied ones. -/
theorem iterate_tidyAs_eq_self_iff (n : Nat) :
    (tidyAs emitted query alone)^[n + 1] s = s ↔ Tidied emitted query alone s := by
  refine ⟨fun h => ?_, fun h => Function.iterate_fixed (tidyAs_eq_self h) (n + 1)⟩
  have hcompleted : Completed emitted alone s := by
    rw [← h, Function.iterate_succ_apply']
    exact completed_tidyAs emitted query alone _
  -- Nothing is missing at any time, so phrases lose the name of their query in each round.
  have hiterate : ∀ m, Completed emitted alone ((tidyAs emitted query alone)^[m] s) ∧
      ∀ tag, ¬Possessive alone tag → ((tidyAs emitted query alone)^[m] s).get tag =
        (s.get tag).map (withoutQuery query)^[m] := by
    intro m
    induction m with
    | zero => exact ⟨hcompleted, fun tag _ => (List.map_id _).symm⟩
    | succ m ih =>
      rw [Function.iterate_succ_apply']
      refine ⟨completed_tidyAs emitted query alone _, fun tag htag => ?_⟩
      rw [tidyAs_of_completed query ih.1, get_makePossessive_of_not _ htag, get_stripPhrases,
        ih.2 tag htag, List.map_map, ← Function.iterate_succ']
  refine ⟨hcompleted, fun tag htag x hx => withoutQuery_eq_self_of_iterate (n := n) ?_⟩
  have hmap := (hiterate (n + 1)).2 tag htag
  rw [h] at hmap
  exact List.map_eq_map_iff.1 (hmap.symm.trans (List.map_id _).symm) x hx

end TidyAs

/-! ## Queries and classes -/

/-- The kind of entities that the argument at a path holds and no other argument of the query. -/
def alone? (q : Query) (path : String) : Option String :=
  (q.argument? path).bind fun f =>
    f.type.entityKind?.filter fun kind => (entityKinds q).count kind = 1

/-- The phrases of an argument after annotation. -/
def tidied (p : Policy) (emitted : List String) (name : String) (q : Query) (path : String)
    (s : PhraseSet) : PhraseSet :=
  if isCurated p path then s else tidyAs emitted name (alone? q path) s

/-- The arguments of two queries hold the same kinds of entities. -/
def SameKinds (q q' : Query) : Prop :=
  ∀ path, ((q'.argument? path).map fun f => f.type.entityKind?) =
    (q.argument? path).map fun f => f.type.entityKind?

section Tidied

variable {p : Policy} {emitted : List String} {name path : String} {q q' : Query}
  {s : PhraseSet}

theorem tidied_of_isCurated (h : isCurated p path = true) : tidied p emitted name q path s = s :=
  if_pos h

theorem tidied_of_not (h : isCurated p path = false) :
    tidied p emitted name q path s = tidyAs emitted name (alone? q path) s := by
  unfold tidied
  rw [h, if_neg Bool.false_ne_true]

/-- Only phrases change. -/
theorem sameMarks_tidied (p : Policy) (emitted : List String) (name : String) (q : Query)
    (path : String) (s : PhraseSet) : SameMarks s (tidied p emitted name q path s) := by
  unfold tidied
  split
  · exact .refl s
  · exact sameMarks_tidyAs emitted name (alone? q path) s

/-- The sets that any number of annotations leaves as they are, are the curated and the tidied
ones. -/
theorem iterate_tidied_eq_self_iff (n : Nat) : (tidied p emitted name q path)^[n + 1] s = s ↔
    (isCurated p path = false → Tidied emitted name (alone? q path) s) := by
  cases hcurated : isCurated p path with
  | true =>
    have hid : tidied p emitted name q path = id := funext fun s => tidied_of_isCurated hcurated
    rw [hid, Function.iterate_id]
    exact iff_of_true rfl fun h => Bool.noConfusion h
  | false =>
    have htidy : tidied p emitted name q path = tidyAs emitted name (alone? q path) :=
      funext fun s => tidied_of_not hcurated
    rw [htidy, iterate_tidyAs_eq_self_iff, forall_prop_of_true rfl]

/-- The kind of entities that an argument alone holds may be told from a query that was changed
elsewhere. -/
theorem SameKinds.alone?_eq (h : SameKinds q q') {f : Field} (hf : q'.argument? path = some f) :
    alone? q path = f.type.entityKind?.filter fun kind => (entityKinds q).count kind = 1 := by
  have hkind := h path
  rw [hf, Option.map_some] at hkind
  obtain ⟨f₀, hf₀, hkind⟩ := Option.map_eq_some_iff.1 hkind.symm
  rw [alone?, hf₀, Option.bind_some, hkind]

/-- To annotate an argument is to tidy up its phrases, whatever is done with others before. -/
theorem fst_annotateArgument {c : Context} {requests : OrderedMap String ArgumentRequest}
    (h : SameKinds q q') (path : String) :
    (annotateArgument c name (entityKinds q) (q', requests) path).1 =
      q'.modifyPhrases path (Option.map (tidied c.policy c.emitted name q path)) := by
  unfold annotateArgument
  dsimp only
  cases hcurated : isCurated c.policy path with
  | true =>
    refine (Query.modifyPhrases_eq_self fun f _ => ?_).symm
    cases f.canonical with
    | none => rfl
    | some s => rw [Option.map_some, tidied_of_isCurated hcurated]
  | false =>
    rw [if_neg Bool.false_ne_true]
    cases hf : q'.argument? path with
    | none => exact (Query.modifyPhrases_eq_self fun f hf' => nomatch hf.symm.trans hf').symm
    | some f =>
      dsimp only
      cases hs : f.canonical with
      | none =>
        refine (Query.modifyPhrases_eq_self fun f' hf' => ?_).symm
        obtain rfl := Option.some_inj.1 (hf.symm.trans hf')
        rw [hs, Option.map_none]
      | some s =>
        have hchange : (q'.modifyArgument path fun f' =>
            { f' with canonical := some (tidy c name (entityKinds q) f s) }) =
              q'.modifyPhrases path (Option.map (tidied c.policy c.emitted name q path)) := by
          refine Query.modifyArgument_eq_modifyPhrases fun f' hf' => ?_
          obtain rfl := Option.some_inj.1 (hf.symm.trans hf')
          rw [hs, Option.map_some, tidied_of_not hcurated, tidy_eq, h.alone?_eq hf]
        -- Samples are for the request only.
        dsimp only
        split <;> exact hchange

/-- To annotate a query is to tidy up the phrases of its arguments, whatever their names. -/
theorem fst_annotateQuery (c : Context) (name : String) (q : Query) :
    (annotateQuery c name q).1 = q.changePhrases q.arguments fun path =>
      Option.map (tidied c.policy c.emitted name q path) := by
  -- The kinds of entities are those of the query as it was, however many arguments are done.
  have hfoldl : ∀ (paths : List String) (state : Query × OrderedMap String ArgumentRequest),
      SameKinds q state.1 →
        (paths.foldl (annotateArgument c name (entityKinds q)) state).1 =
          state.1.changePhrases paths fun path =>
            Option.map (tidied c.policy c.emitted name q path) := by
    intro paths
    induction paths with
    | nil => exact fun _ _ => rfl
    | cons path rest ih =>
      rintro ⟨q', requests⟩ hkinds
      have hstep : (annotateArgument c name (entityKinds q) (q', requests) path).1 =
          q'.modifyPhrases path (Option.map (tidied c.policy c.emitted name q path)) :=
        fst_annotateArgument hkinds path
      rw [List.foldl_cons, ih, hstep]
      · rfl
      · intro path'
        rw [hstep, Query.map_entityKind?_modifyPhrases]
        exact hkinds path'
  exact hfoldl q.arguments (q, ∅) fun _ => rfl

end Tidied

/-- To annotate a class is to tidy up the phrases of its arguments. Samples are asked for, but they
change nothing. -/
theorem fst_annotate (p : Policy) (source : Option SampleSource) (c : ClassDefinition) :
    (annotate p source c).1 = { c with
      queries := c.queries.mapWithKey fun name q => q.changePhrases q.arguments fun path =>
        Option.map (tidied p c.queries.keys name q path) } := by
  unfold annotate
  dsimp only
  rw [OrderedMap.mapWithKey_mapWithKey]
  simp only [fst_annotateQuery]

section Annotate

variable (p : Policy) (source : Option SampleSource) (c : ClassDefinition)

/-- Annotation changes nothing but phrases, and no mark of a set of them. -/
theorem agreeUpTo_annotate :
    c.AgreeUpTo (Option.Rel SameMarks) (annotate p source c).1 := by
  have hmarks : ∀ name q path s,
      Option.Rel SameMarks s (s.map (tidied p c.queries.keys name q path)) := by
    intro name q path s
    cases s with
    | none => exact .none
    | some s => exact .some (sameMarks_tidied p c.queries.keys name q path s)
  rw [fst_annotate]
  refine ⟨_, rfl, ?_⟩
  unfold OrderedMap.mapWithKey
  dsimp only
  rw [List.forall₂_map_right_iff, List.forall₂_same]
  exact fun e _ => ⟨rfl, Query.AgreeUpTo.changePhrases (optionRel_refl SameMarks.refl)
    (optionRel_trans @SameMarks.trans) (hmarks e.1 e.2) e.2 _⟩

/-- Curated phrases are left as they are. -/
theorem phrases?_annotate_of_isCurated (name : String) {path : String}
    (h : isCurated p path = true) :
    (annotate p source c).1.phrases? name path = c.phrases? name path := by
  rw [fst_annotate]
  unfold ClassDefinition.phrases?
  dsimp only
  rw [OrderedMap.get?_mapWithKey, Option.bind_map]
  refine Option.bind_congr fun q _ => ?_
  have hid : Option.map (tidied p c.queries.keys name q path) = id := by
    rw [show tidied p c.queries.keys name q path = id from funext fun _ => tidied_of_isCurated h,
      Option.map_id]
  rw [Function.comp_apply, Query.phrases?_changePhrases, hid, Function.iterate_id]
  rfl

/-- Annotation leaves a class as it is if and only if all phrases in it are curated or tidied. -/
theorem annotate_eq_self_iff : (annotate p source c).1 = c ↔
    ∀ name q path s, c.queries.get? name = some q → q.phrases? path = some s →
      isCurated p path = false → Tidied c.queries.keys name (alone? q path) s := by
  have hqueries : ∀ m, { c with queries := m } = c ↔ m = c.queries := fun m =>
    ⟨congrArg ClassDefinition.queries, fun h => by rw [h]⟩
  have hset : ∀ name q path s, tidied p c.queries.keys name q path s = s ↔
      (isCurated p path = false → Tidied c.queries.keys name (alone? q path) s) :=
    fun _ _ _ _ => iterate_tidied_eq_self_iff 0
  -- A set that a first annotation changes does not come back.
  have hquery : ∀ name q, (q.changePhrases q.arguments fun path =>
      Option.map (tidied p c.queries.keys name q path)) = q ↔
        ∀ path s, q.phrases? path = some s → tidied p c.queries.keys name q path s = s :=
    fun name q => Query.changePhrases_arguments_eq_self_iff fun path s n h =>
      (hset name q path s).2 ((iterate_tidied_eq_self_iff n).1 h)
  rw [fst_annotate, hqueries, OrderedMap.mapWithKey_eq_self_iff]
  simp only [hquery, hset]
  exact forall₂_congr fun name q =>
    ⟨fun h path s hq hs => h hq path s hs, fun h hq path s hs => h path s hq hs⟩

end Annotate

end Refinement

end VocabularyCompiler

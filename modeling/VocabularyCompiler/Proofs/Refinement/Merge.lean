import VocabularyCompiler.Proofs.ClassDefinition.Arguments
import VocabularyCompiler.Proofs.FirstOccurrences
import VocabularyCompiler.Refinement.Merge

/-!
# What a merge comes to

A merge changes nothing but phrases, and of those only what the response says: under each tag of an
addressed argument the offered phrases that are new stand behind the old ones, in the order in which
they are offered. Every argument is addressed by its path, so one pass over the paths is one change
of phrases along the ways to the fields (`mergeQuery_eq`). What is in the response beyond that is
named in a warning.
-/

namespace VocabularyCompiler

/-! ## Adding phrases -/

namespace PhraseSet

/-- To replace the phrases under a tag leaves those under the others. -/
theorem get_set (s : PhraseSet) (tag tag' : PhraseTag) (phrases : List String) :
    (s.set tag phrases).get tag' = if tag = tag' then phrases else s.get tag' := by
  unfold get set
  dsimp only
  rw [OrderedMap.get?_insert]
  split <;> rfl

/-- A new phrase goes to the end of those under its tag. -/
theorem get_push (s : PhraseSet) (tag tag' : PhraseTag) (phrase : String) :
    (s.push tag phrase).get tag' =
      if tag = tag' ∧ phrase ∉ s.get tag' then s.get tag' ++ [phrase] else s.get tag' := by
  unfold push
  by_cases htag : tag = tag'
  · subst htag
    by_cases hmem : phrase ∈ s.get tag
    · simp [hmem]
    · simp [hmem, get_set]
  · simp only [htag, false_and, if_false]
    split
    · rfl
    · rw [get_set, if_neg htag]

/-- To add a phrase changes nothing but phrases. -/
theorem exists_push_eq (s : PhraseSet) (tag : PhraseTag) (phrase : String) :
    ∃ m, s.push tag phrase = { s with phrases := m } := by
  unfold push
  split
  · exact ⟨s.phrases, rfl⟩
  · exact ⟨_, rfl⟩

/-- To add phrases changes nothing but phrases. -/
theorem exists_foldl_push_eq (phrases : List (PhraseTag × String)) (s : PhraseSet) :
    ∃ m, phrases.foldl (fun s e => s.push e.1 e.2) s = { s with phrases := m } := by
  induction phrases generalizing s with
  | nil => exact ⟨s.phrases, rfl⟩
  | cons e rest ih =>
    obtain ⟨m, hm⟩ := s.exists_push_eq e.1 e.2
    obtain ⟨m', hm'⟩ := ih (s.push e.1 e.2)
    exact ⟨m', by rw [List.foldl_cons, hm', hm]⟩

/-- The phrases under a tag, of phrases each with its tag. -/
def under (tag : PhraseTag) (phrases : List (PhraseTag × String)) : List String :=
  (phrases.filter fun e => e.1 = tag).map Prod.snd

theorem under_append (tag : PhraseTag) (xs ys : List (PhraseTag × String)) :
    under tag (xs ++ ys) = under tag xs ++ under tag ys := by
  unfold under
  rw [List.filter_append, List.map_append]

/-- Phrases that are added one after another stand behind the old ones if they are new, each where
it is added first. -/
theorem get_foldl_push (phrases : List (PhraseTag × String)) (s : PhraseSet) (tag : PhraseTag) :
    (phrases.foldl (fun s e => s.push e.1 e.2) s).get tag =
      s.get tag ++ ((under tag phrases).filter fun x => x ∉ s.get tag).eraseDups := by
  have hfold : ∀ s : PhraseSet, (phrases.foldl (fun s e => s.push e.1 e.2) s).get tag =
      (under tag phrases).foldl (fun l x => if x ∈ l then l else l ++ [x]) (s.get tag) := by
    induction phrases with
    | nil => exact fun s => rfl
    | cons e rest ih =>
      intro s
      rw [List.foldl_cons, ih, get_push]
      by_cases htag : e.1 = tag
      · by_cases hmem : e.2 ∈ s.get tag <;> simp [under, htag, hmem]
      · simp [under, htag]
  rw [hfold, foldl_addNew]

end PhraseSet

namespace Refinement

/-! ## What a response says about an argument -/

/-- The phrases for an argument, under the names of tags. -/
def candidates? (r : RefinementResponse) (query path : String) :
    Option (OrderedMap String (List String)) :=
  (r.synonyms.get? query).bind fun arguments => arguments.get? path

/-- A response addresses an argument if it holds anything for it. -/
def Addressed (r : RefinementResponse) (query path : String) : Prop :=
  query ++ "." ++ path ∈ r.adjectives ∨ query ++ "." ++ path ∈ r.implicitIdentity ∨
    (candidates? r query path).isSome = true

/-- The phrases that a response offers for an argument under a tag, in order: the bare value where
it can stand as an adjective or name the result, and the phrases under each name of the tag. -/
def offered (r : RefinementResponse) (query path : String) (tag : PhraseTag) : List String :=
  (if query ++ "." ++ path ∈ r.adjectives ∧ tag = .adjective then ["#"] else []) ++
    (if query ++ "." ++ path ∈ r.implicitIdentity ∧ tag = .reverseProperty then ["#"] else []) ++
    ((candidates? r query path).elim [] OrderedMap.entries).flatMap fun e =>
      if PhraseTag.ofName? e.1 = some tag then e.2 else []

/-- The set `s'` is `s` with what a response offers for an argument. -/
structure Extends (r : RefinementResponse) (query path : String) (s s' : PhraseSet) : Prop where
  defaultTag : s'.defaultTag = s.defaultTag
  apv : s'.apv = s.apv
  implicitIdentity : s'.implicitIdentity = true ↔
    s.implicitIdentity = true ∨ query ++ "." ++ path ∈ r.implicitIdentity
  /-- The new phrases stand behind the old ones, each where it is offered first. -/
  phrases (tag : PhraseTag) : s'.get tag =
    s.get tag ++ ((offered r query path tag).filter fun x => x ∉ s.get tag).eraseDups

/-- What becomes of the phrases of an argument. -/
inductive Merged (r : RefinementResponse) (query path : String) :
    Option PhraseSet → Option PhraseSet → Prop where
  | kept {s : Option PhraseSet} (h : path = "id" ∨ ¬Addressed r query path) :
      Merged r query path s s
  | extended {s : Option PhraseSet} {s' : PhraseSet} (hid : path ≠ "id")
      (haddressed : Addressed r query path)
      (h : Extends r query path (s.getD (.new .property)) s') : Merged r query path s (some s')

/-- What is added to an argument is what the response says about it. -/
theorem addition?_eq_some_iff {r : RefinementResponse} {query path : String} {a : Addition} :
    addition? r query path = some a ↔ path ≠ "id" ∧ Addressed r query path ∧
      a = ⟨decide (query ++ "." ++ path ∈ r.adjectives),
        decide (query ++ "." ++ path ∈ r.implicitIdentity), candidates? r query path⟩ := by
  have hcandidates : ((r.synonyms.get? query).bind fun arguments => arguments.get? path) =
      candidates? r query path := rfl
  have hnot : (!decide (query ++ "." ++ path ∈ r.adjectives) &&
      !decide (query ++ "." ++ path ∈ r.implicitIdentity) &&
        (candidates? r query path).isNone) = true ↔ ¬Addressed r query path := by
    unfold Addressed
    cases candidates? r query path <;> simp
  unfold addition?
  dsimp only
  rw [hcandidates]
  simp only [Bool.or_eq_true, decide_eq_true_eq]
  by_cases hid : path = "id"
  · simp [hid]
  by_cases haddressed : Addressed r query path
  · rw [if_neg (not_or.2 ⟨hid, fun h => hnot.1 h haddressed⟩), Option.some_inj, eq_comm,
      and_iff_right hid, and_iff_right haddressed]
  · rw [if_pos (Or.inr (hnot.2 haddressed))]
    simp [haddressed]

/-- What is added to an argument under a tag is what the response offers. -/
theorem Addition.under_phrases {r : RefinementResponse} {query path : String} {a : Addition}
    (h : addition? r query path = some a) (tag : PhraseTag) :
    PhraseSet.under tag a.phrases = offered r query path tag := by
  obtain ⟨-, -, rfl⟩ := addition?_eq_some_iff.1 h
  unfold Addition.phrases offered
  dsimp only
  rw [PhraseSet.under_append, PhraseSet.under_append]
  congr 2
  · by_cases hadj : query ++ "." ++ path ∈ r.adjectives <;> by_cases htag : tag = .adjective <;>
      simp [hadj, htag, PhraseSet.under, eq_comm]
  · by_cases himp : query ++ "." ++ path ∈ r.implicitIdentity <;>
      by_cases htag : tag = .reverseProperty <;>
      simp [himp, htag, PhraseSet.under, eq_comm]
  · unfold PhraseSet.under
    rw [List.filter_flatMap, List.map_flatMap]
    refine List.flatMap_congr fun e _ => ?_
    cases PhraseTag.ofName? e.1 with
    | none => rfl
    | some tag' => by_cases htag : tag' = tag <;> simp [htag, List.filter_map, Function.comp_def]

/-- A set with an addition is one with what the response offers. -/
theorem Addition.extends_addTo {r : RefinementResponse} {query path : String} {a : Addition}
    (h : addition? r query path = some a) (s : PhraseSet) :
    Extends r query path s (a.addTo s) := by
  obtain ⟨m, hm⟩ := s.exists_foldl_push_eq a.phrases
  have hget := s.get_foldl_push a.phrases
  rw [hm] at hget
  unfold Addition.addTo
  rw [hm]
  refine ⟨rfl, rfl, ?_, fun tag => ?_⟩
  · obtain ⟨-, -, rfl⟩ := addition?_eq_some_iff.1 h
    simp
  · rw [← Addition.under_phrases h]
    exact hget tag

/-- The phrases of an argument after a merge. -/
def mergedPhrases (r : RefinementResponse) (query path : String) (s : Option PhraseSet) :
    Option PhraseSet :=
  match addition? r query path with
  | none => s
  | some a => some (a.addTo (s.getD (.new .property)))

/-- The phrases of an argument after a merge are what becomes of them. -/
theorem merged_mergedPhrases (r : RefinementResponse) (query path : String)
    (s : Option PhraseSet) : Merged r query path s (mergedPhrases r query path s) := by
  unfold mergedPhrases
  cases hadd : addition? r query path with
  | none =>
    refine .kept (or_iff_not_imp_left.2 fun hid haddressed => ?_)
    cases hadd.symm.trans (addition?_eq_some_iff.2 ⟨hid, haddressed, rfl⟩)
  | some a =>
    obtain ⟨hid, haddressed, -⟩ := addition?_eq_some_iff.1 hadd
    exact .extended hid haddressed (Addition.extends_addTo hadd _)

/-- The warnings about tags that a response names for an argument and that are none. -/
def tagNotes (r : RefinementResponse) (query path : String) : Diagnostics :=
  (addition? r query path).elim [] fun a => a.notes (query ++ "." ++ path)

/-- What is warned about is the name of a tag that is none, for an argument that is merged into. -/
theorem mem_tagNotes_iff {r : RefinementResponse} {query path : String} {d : Diagnostic} :
    d ∈ tagNotes r query path ↔ path ≠ "id" ∧ ∃ tags, candidates? r query path = some tags ∧
      ∃ tag ∈ tags.keys, PhraseTag.ofName? tag = none ∧
        d = .warn (query ++ "." ++ path) ("unknown phrase tag `" ++ tag ++ "`, ignored") := by
  unfold tagNotes
  cases hadd : addition? r query path with
  | none =>
    refine iff_of_false List.not_mem_nil ?_
    rintro ⟨hid, tags, htags, -⟩
    have haddressed : Addressed r query path := Or.inr (Or.inr (by rw [htags]; rfl))
    cases hadd.symm.trans (addition?_eq_some_iff.2 ⟨hid, haddressed, rfl⟩)
  | some a =>
    obtain ⟨hid, -, rfl⟩ := addition?_eq_some_iff.1 hadd
    rw [and_iff_right hid, Option.elim_some]
    unfold Addition.notes
    rw [List.mem_filterMap]
    cases candidates? r query path with
    | none => simp
    | some tags =>
      simp only [Option.some.injEq, exists_eq_left', Option.elim_some]
      refine exists_congr fun tag => and_congr_right fun _ => ?_
      cases PhraseTag.ofName? tag <;> simp [eq_comm]

/-! ## From one argument to all of them -/

section Arguments

variable {r : RefinementResponse} {name : String} {q : Query} {notes : Diagnostics}

/-- To merge into the argument at the end of a way is to change the phrases of that field. -/
theorem mergeArgument_eq (hq : WellNamed q.fields) {way : List String}
    (hway : way ∈ fieldWays q.fields) :
    mergeArgument r name (q, notes) (".".intercalate way) =
      ({ q with
          fields := mapPhrases
            (fun way' s => if way' = way then mergedPhrases r name (".".intercalate way) s else s)
            q.fields },
        notes ++ tagNotes r name (".".intercalate way)) := by
  have hsplit := hq.splitPath_intercalate hway
  unfold mergeArgument mergedPhrases tagNotes
  dsimp only
  cases hadd : addition? r name (".".intercalate way) with
  | none =>
    simp only [ite_self, mapPhrases_id, Option.elim_none, List.append_nil]
  | some a =>
    -- The argument is there, for its path is one of a field.
    have hfound := hq.isSome_findArgument?_iff.2 hway
    rw [Query.argument?, hsplit]
    cases hf : findArgument? q.fields way with
    | none =>
      rw [hf] at hfound
      cases hfound
    | some f =>
      dsimp only [Query.modifyArgument, Option.elim_some]
      rw [hsplit]
      rw [hq.modifyArgument_eq_mapPhrases (fun s => some (a.addTo (s.getD (.new .property)))) way]

/-- To merge into the arguments at the ends of ways is to change the phrases of those fields. -/
theorem foldl_mergeArgument {ways : List (List String)} (hnodup : ways.Nodup)
    (hq : WellNamed q.fields) (hways : ∀ way ∈ ways, way ∈ fieldWays q.fields) :
    (ways.map fun way => ".".intercalate way).foldl (mergeArgument r name) (q, notes) =
      ({ q with
          fields := mapPhrases
            (fun way s => if way ∈ ways then mergedPhrases r name (".".intercalate way) s else s)
            q.fields },
        notes ++ ways.flatMap fun way => tagNotes r name (".".intercalate way)) := by
  induction ways generalizing q notes with
  | nil => simp [mapPhrases_id]
  | cons way rest ih =>
    rw [List.nodup_cons] at hnodup
    rw [List.forall_mem_cons] at hways
    rw [List.map_cons, List.foldl_cons, mergeArgument_eq hq hways.1,
      ih hnodup.2 (hq.mapPhrases _) (by rw [fieldWays_mapPhrases]; exact hways.2),
      mapPhrases_mapPhrases, List.flatMap_cons, List.append_assoc]
    congr 3
    funext way' s
    -- The first field is not changed again.
    by_cases heq : way' = way
    · subst heq
      simp [hnodup.1]
    · simp [heq]

/-- To merge into a query is to change the phrases of its arguments. -/
theorem mergeQuery_eq (hq : WellNamed q.fields) : mergeQuery r name q =
    ({ q with
        fields := mapPhrases (fun way => mergedPhrases r name (".".intercalate way)) q.fields },
      (fieldWays q.fields).flatMap fun way => tagNotes r name (".".intercalate way)) := by
  unfold mergeQuery
  rw [q.arguments_eq_map, foldl_mergeArgument hq.nodup_fieldWays hq fun _ hway => hway,
    List.nil_append]
  congr 2
  -- The paths are those of all fields, so no field is left out.
  exact mapPhrases_congr _ fun way hway s => if_pos hway

end Arguments

/-! ## Classes -/

/-- What a response holds for something that the class does not have, with the warning about it. -/
inductive Ignored (r : RefinementResponse) (c : ClassDefinition) : Diagnostic → Prop where
  | query {name : String} {arguments : OrderedMap String (OrderedMap String (List String))}
      (h : r.synonyms.get? name = some arguments) (hquery : c.queries.get? name = none) :
      Ignored r c (.warn name "refinements for an unknown query, ignored")
  | argument {name path : String} {arguments : OrderedMap String (OrderedMap String (List String))}
      {q : Query} (h : r.synonyms.get? name = some arguments) (hpath : path ∈ arguments.keys)
      (hquery : c.queries.get? name = some q) (hargument : q.argument? path = none) :
      Ignored r c (.warn (name ++ "." ++ path) "refinements for an unknown argument, ignored")
  | tag {name path tag : String} {q : Query} {tags : OrderedMap String (List String)}
      (h : candidates? r name path = some tags) (htag : tag ∈ tags.keys)
      (hquery : c.queries.get? name = some q) (hargument : (q.argument? path).isSome = true)
      (hid : path ≠ "id") (hnone : PhraseTag.ofName? tag = none) :
      Ignored r c (.warn (name ++ "." ++ path) ("unknown phrase tag `" ++ tag ++ "`, ignored"))

/-- The queries of a merged class are the merged queries. -/
theorem get?_queries_merge (r : RefinementResponse) (c : ClassDefinition) (name : String) :
    (merge r c).1.queries.get? name =
      (c.queries.get? name).map fun q => (mergeQuery r name q).1 := by
  unfold merge
  dsimp only
  rw [OrderedMap.get?_mapWithKey, OrderedMap.get?_mapWithKey, Option.map_map]
  rfl

/-- The warnings about queries and arguments are those about what the class does not have. -/
theorem mem_unknownTargets_iff {r : RefinementResponse} {c : ClassDefinition} {d : Diagnostic} :
    d ∈ unknownTargets c r ↔ ∃ name arguments, r.synonyms.get? name = some arguments ∧
      ((c.queries.get? name = none ∧
          d = .warn name "refinements for an unknown query, ignored") ∨
        ∃ q, c.queries.get? name = some q ∧ ∃ path ∈ arguments.keys, q.argument? path = none ∧
          d = .warn (name ++ "." ++ path) "refinements for an unknown argument, ignored") := by
  unfold unknownTargets
  rw [List.mem_flatMap, Prod.exists]
  refine exists_congr fun name => exists_congr fun arguments => ?_
  rw [← OrderedMap.get?_eq_some_iff]
  refine and_congr_right fun _ => ?_
  dsimp only
  cases c.queries.get? name with
  | none =>
    simp only [List.mem_singleton, true_and, reduceCtorEq, false_and, exists_const, or_false]
  | some q =>
    simp only [List.mem_map, List.mem_filter, Option.isNone_iff_eq_none, and_assoc, reduceCtorEq,
      false_and, false_or, Option.some.injEq, exists_eq_left', eq_comm (a := d)]

/-- The warnings of a merge are those about what is ignored. -/
theorem mem_notes_merge_iff {r : RefinementResponse} {c : ClassDefinition}
    (hc : ∀ q ∈ c.queries.values, WellNamed q.fields) {d : Diagnostic} :
    d ∈ (merge r c).2 ↔ Ignored r c d := by
  -- The warnings about unknown targets come first, and then those of each query.
  have hnotes : (merge r c).2 =
      unknownTargets c r ++ c.queries.entries.flatMap fun e => (mergeQuery r e.1 e.2).2 := by
    unfold merge OrderedMap.values OrderedMap.mapWithKey
    dsimp only
    rw [List.map_map, List.flatMap_map]
    rfl
  have hquery : ∀ {name : String} {q : Query}, c.queries.get? name = some q →
      WellNamed q.fields := fun h =>
    hc _ (List.mem_map.2 ⟨_, OrderedMap.get?_eq_some_iff.1 h, rfl⟩)
  rw [hnotes, List.mem_append, mem_unknownTargets_iff, List.mem_flatMap, Prod.exists]
  constructor
  · rintro (⟨name, arguments, h, ⟨hnone, rfl⟩ | ⟨q, hq, path, hpath, hnone, rfl⟩⟩ |
      ⟨name, q, hmem, hd⟩)
    · exact .query h hnone
    · exact .argument h hpath hq hnone
    · have hq := OrderedMap.get?_eq_some_iff.2 hmem
      rw [mergeQuery_eq (hquery hq)] at hd
      obtain ⟨way, hway, hd⟩ := List.mem_flatMap.1 hd
      obtain ⟨hid, tags, htags, tag, htag, hnone, rfl⟩ := mem_tagNotes_iff.1 hd
      refine .tag htags htag hq ?_ hid hnone
      rw [Query.argument?, (hquery hq).splitPath_intercalate hway]
      exact (hquery hq).isSome_findArgument?_iff.2 hway
  · rintro (⟨h, hnone⟩ | ⟨h, hpath, hq, hnone⟩ | ⟨htags, htag, hq, hargument, hid, hnone⟩)
    · exact Or.inl ⟨_, _, h, Or.inl ⟨hnone, rfl⟩⟩
    · exact Or.inl ⟨_, _, h, Or.inr ⟨_, hq, _, hpath, hnone, rfl⟩⟩
    · refine Or.inr ⟨_, _, OrderedMap.get?_eq_some_iff.1 hq, ?_⟩
      rw [mergeQuery_eq (hquery hq)]
      refine List.mem_flatMap.2 ⟨_, (hquery hq).isSome_findArgument?_iff.1 hargument, ?_⟩
      rw [intercalate_splitPath, mem_tagNotes_iff]
      exact ⟨hid, _, htags, _, htag, hnone, rfl⟩

/-- A merge changes nothing but phrases. -/
theorem withoutPhrases_merge {r : RefinementResponse} {c : ClassDefinition}
    (hc : ∀ q ∈ c.queries.values, WellNamed q.fields) :
    (merge r c).1.withoutPhrases = c.withoutPhrases := by
  unfold merge ClassDefinition.withoutPhrases
  dsimp only
  congr 1
  refine OrderedMap.ext ?_
  unfold OrderedMap.mapWithKey
  dsimp only
  rw [List.map_map, List.map_map]
  refine List.map_congr_left fun e he => congrArg (Prod.mk e.1) ?_
  dsimp only [Function.comp_apply, Query.withoutPhrases]
  rw [mergeQuery_eq (hc e.2 (List.mem_map.2 ⟨e, he, rfl⟩)), mapPhrases_mapPhrases]

/-- To merge a response into a class changes nothing but phrases. The arguments of each query are
those that are found at their paths, and the phrases of each become what the response makes of them.
The warnings are those about what the response holds and the class does not have. The names of the
fields have to hold no points, and those in one list to be different. -/
theorem merge_exact (r : RefinementResponse) (c : ClassDefinition)
    (hc : ∀ q ∈ c.queries.values, WellNamed q.fields) :
    (merge r c).1.withoutPhrases = c.withoutPhrases ∧
      (∀ name q, c.queries.get? name = some q →
        ∃ q', (merge r c).1.queries.get? name = some q' ∧
          ∀ path, (path ∈ q.arguments ↔ (q.argument? path).isSome = true) ∧
            Option.Rel (fun f f' => Merged r name path f.canonical f'.canonical)
              (q.argument? path) (q'.argument? path)) ∧
      ∀ d, d ∈ (merge r c).2 ↔ Ignored r c d := by
  refine ⟨withoutPhrases_merge hc, fun name q hq => ?_, fun d => mem_notes_merge_iff hc⟩
  have hwell : WellNamed q.fields :=
    hc _ (List.mem_map.2 ⟨_, OrderedMap.get?_eq_some_iff.1 hq, rfl⟩)
  refine ⟨(mergeQuery r name q).1, by rw [get?_queries_merge, hq, Option.map_some], fun path => ?_⟩
  refine ⟨Query.mem_arguments_iff hwell, ?_⟩
  rw [mergeQuery_eq hwell]
  unfold Query.argument?
  rw [findArgument?_mapPhrases]
  cases findArgument? q.fields (splitPath path) with
  | none => exact .none
  | some f =>
    refine .some ?_
    dsimp only
    rw [intercalate_splitPath]
    exact merged_mergedPhrases r name path f.canonical

/-- The phrases of a street. -/
def streetPhrases : PhraseSet := ⟨.property, .ofList [(.property, ["street"])], false, false⟩

/-- Places with any number of addresses, and nothing in an address but its street. -/
def places : Query :=
  { (default : Query) with
    name := "Place"
    fields := [⟨"id", .entity "org.schema:Place", none, {}⟩,
      ⟨"address", .array (.compound "PostalAddress" [⟨"street", .string, some streetPhrases, {}⟩]),
        none, {}⟩] }

/-- A class of nothing but places. -/
def placeClass : ClassDefinition :=
  { (default : ClassDefinition) with queries := .ofList [("Place", places)] }

/-- The names of what a place has hold no points, and no two in one list are the same. -/
theorem wellNamed_placeClass : ∀ q ∈ placeClass.queries.values, WellNamed q.fields := by
  intro q hq
  obtain rfl : q = places := List.mem_singleton.1 hq
  refine .intro (by decide) (by decide) fun f hf members hmembers => ?_
  rcases List.mem_pair.1 hf with rfl | rfl
  · cases hmembers
  · cases hmembers
    refine .intro (by decide) (by decide) fun f hf members hmembers => ?_
    obtain rfl := List.mem_singleton.1 hf
    cases hmembers

/-- Phrases for the street of a place, some of them under an old name of the tag. -/
def streetResponse : RefinementResponse where
  synonyms := .ofList [("Place", .ofList [("address.street",
    .ofList [("npp", ["road", "street", "road"]), ("property", ["lane"]), ("noun", ["way"])])])]
  adjectives := ["Place.address.street"]

/-- The new phrases for the street of a place stand behind the old one, whatever they are named
under, and a tag that is none is named in a warning. -/
theorem merge_exact_placeClass :
    (∀ q ∈ placeClass.queries.values, WellNamed q.fields) ∧
      (∃ q f s, (merge streetResponse placeClass).1.queries.get? "Place" = some q ∧
        q.argument? "address.street" = some f ∧ f.canonical = some s ∧
        s.get .property = ["street", "road", "lane"] ∧ s.get .adjective = ["#"]) ∧
      .warn "Place.address.street" "unknown phrase tag `noun`, ignored" ∈
        (merge streetResponse placeClass).2 := by
  have hc := wellNamed_placeClass
  obtain ⟨-, hqueries, hnotes⟩ := merge_exact streetResponse placeClass hc
  obtain ⟨q, hq, harguments⟩ := hqueries "Place" places rfl
  have hstreet : places.argument? "address.street" =
      some ⟨"street", .string, some streetPhrases, {}⟩ := rfl
  have hrel := (harguments "address.street").2
  rw [hstreet] at hrel
  have hignored : Ignored streetResponse placeClass
      (.warn "Place.address.street" "unknown phrase tag `noun`, ignored") :=
    @Ignored.tag streetResponse placeClass "Place" "address.street" "noun" places _ rfl
      (by decide +kernel) rfl rfl (by decide) (by decide)
  refine ⟨hc, ?_, (hnotes _).2 hignored⟩
  generalize hfound : q.argument? "address.street" = found at hrel
  cases hrel with
  | @some _ f hmerged =>
    generalize hs : f.canonical = canonical at hmerged
    cases hmerged with
    | kept h =>
      have haddressed : Addressed streetResponse "Place" "address.street" :=
        Or.inl (by decide +kernel)
      exact absurd haddressed (h.resolve_left (by decide))
    | @extended s _ _ h =>
      refine ⟨q, f, s, hq, hfound, hs, ?_, ?_⟩
      · rw [h.phrases]
        decide +kernel
      · rw [h.phrases]
        decide +kernel

end Refinement

end VocabularyCompiler

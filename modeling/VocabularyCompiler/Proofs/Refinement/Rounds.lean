import VocabularyCompiler.Compiler
import VocabularyCompiler.Proofs.Refinement.Tidying

/-!
# Rounds of refinement

A round annotates a class, asks an oracle and merges its answer. Where the oracle fails, nothing is
merged and no diagnostic is noted, but the class was annotated before, so it is as it was only if
its phrases were tidied up already. Over a sequence of rounds phrases can be repeated and lost: the
name of a query in front may be all that two phrases differ in, and the adjectives of an argument
that alone holds persons are replaced by each annotation. Where names are different and hold no
points, these are the only ways: what a round must find for nothing to be repeated or lost is
`Round.Harmless`, and a round leaves names and phrases as the next one needs them.
-/

namespace VocabularyCompiler

open Refinement PhraseSet

/-! ## A round without an answer -/

namespace Compiled

variable {c : Compiled} {p : Policy} {source : Option SampleSource} {oracle : Oracle}

/-- Where the oracle fails, the class stays as annotated. -/
theorem fst_refine_of_error {e : CompileError} (h : (c.refine p source oracle).2 = .error e) :
    (c.refine p source oracle).1 =
      { c with definition := (annotate p source c.definition).1 } := by
  unfold refine at h ⊢
  dsimp only at h ⊢
  cases horacle : oracle (annotate p source c.definition).2 with
  | error e' => rfl
  | ok response =>
    rw [horacle] at h
    cases h

/-- Where the oracle fails, the diagnostics and the graph are as they were, and the class is what
annotation makes of it, whatever was asked: only the phrases of arguments may be others, and none
that are curated. The class is as it was if and only if all phrases in it are curated or tidied. -/
theorem refine_error {e : CompileError} (h : (c.refine p source oracle).2 = .error e) :
    (c.refine p source oracle).1.diagnostics = c.diagnostics ∧
      (c.refine p source oracle).1.graph = c.graph ∧
      (c.refine p source oracle).1.definition = (annotate p source c.definition).1 ∧
      c.definition.AgreeUpTo (Option.Rel SameMarks) (c.refine p source oracle).1.definition ∧
      (∀ name path, isCurated p path = true →
        (c.refine p source oracle).1.definition.phrases? name path =
          c.definition.phrases? name path) ∧
      ((c.refine p source oracle).1.definition = c.definition ↔
        ∀ name q path s, c.definition.queries.get? name = some q → q.phrases? path = some s →
          isCurated p path = false →
            Tidied c.definition.queries.keys name (alone? q path) s) := by
  rw [fst_refine_of_error h]
  exact ⟨rfl, rfl, rfl, agreeUpTo_annotate p source c.definition,
    fun name _ hcurated => phrases?_annotate_of_isCurated p source c.definition name hcurated,
    annotate_eq_self_iff p source c.definition⟩

end Compiled

/-- An argument of a review with some phrases for a property. -/
def reviewArgument (name : String) (type : ValueType) (phrases : List String) : Field :=
  ⟨name, type, some ⟨.property, .ofList [(.property, phrases)], false, false⟩, {}⟩

/-- A class of nothing but reviews with the given arguments. -/
def reviewClass (arguments : List Field) : Compiled where
  definition := { (default : ClassDefinition) with
    queries := .ofList
      [("Review", { (default : Query) with name := "Review", fields := arguments })] }
  graph := ∅
  diagnostics := []

/-- Reviews with some phrases for what they are about. -/
def aspectClass (phrases : List String) : Compiled :=
  reviewClass [reviewArgument "aspect" .string phrases]

/-- There are no other phrases. -/
theorem eq_of_phrases?_aspectClass {phrases : List String} {name path : String} {q : Query}
    {s : PhraseSet} (hq : (aspectClass phrases).definition.queries.get? name = some q)
    (hs : q.phrases? path = some s) : name = "Review" ∧ path = "aspect" ∧
      alone? q path = none ∧ s = ⟨.property, .ofList [(.property, phrases)], false, false⟩ := by
  obtain ⟨rfl, rfl⟩ := Prod.mk.inj (List.mem_singleton.1 (OrderedMap.get?_eq_some_iff.1 hq))
  obtain ⟨f, hf, -⟩ := Option.bind_eq_some_iff.1 hs
  obtain rfl := List.mem_singleton.1 (Query.mem_arguments_of_argument? hf)
  exact ⟨rfl, rfl, rfl, (Option.some_inj.1 hs).symm⟩

/-- A class with tidied phrases is as it was after an oracle that could not be read. -/
theorem refine_error_aspectClass :
    ((aspectClass ["aspect"]).refine .standard none (.recorded (.error .notFound))).2 =
        .error (.io .notFound) ∧
      ((aspectClass ["aspect"]).refine .standard none
        (.recorded (.error .notFound))).1.definition = (aspectClass ["aspect"]).definition := by
  have hfails : ((aspectClass ["aspect"]).refine .standard none
      (.recorded (.error .notFound))).2 = .error (.io .notFound) := rfl
  obtain ⟨-, -, -, -, -, hsame⟩ := Compiled.refine_error hfails
  refine ⟨hfails, hsame.2 fun name q path s hq hs _ => ?_⟩
  obtain ⟨rfl, rfl, halone, rfl⟩ := eq_of_phrases?_aspectClass hq hs
  rw [halone]
  refine ⟨⟨Or.inl (by decide), nofun, fun _ h => nomatch h.2⟩, fun tag _ => ?_⟩
  cases tag <;> decide +kernel

/-- A phrase loses the name of its query even though the oracle could not be read. -/
theorem refine_error_reviewAspect :
    ((aspectClass ["review aspect"]).refine .standard none (.recorded (.error .notFound))).2 =
        .error (.io .notFound) ∧
      ((aspectClass ["review aspect"]).refine .standard none
        (.recorded (.error .notFound))).1.definition ≠
          (aspectClass ["review aspect"]).definition := by
  refine ⟨rfl, fun h => ?_⟩
  have hphrases := congrArg (fun c => c.phrases? "Review" "aspect") h
  revert hphrases
  decide +kernel

/-! ## What a merge adds -/

namespace Refinement

variable {r : RefinementResponse} {query path : String} {s : Option PhraseSet} {t : PhraseSet}
  {tag : PhraseTag}

/-- The phrases that a response has for an argument under a tag, unless it is an identifier. -/
def additions (r : RefinementResponse) (query path : String) (tag : PhraseTag) : List String :=
  if path = "id" then [] else offered r query path tag

/-- A response that does not address an argument has nothing for it. -/
theorem offered_eq_nil (h : ¬Addressed r query path) : offered r query path tag = [] := by
  unfold Addressed at h
  rw [not_or, not_or, Bool.not_eq_true, Option.isSome_eq_false_iff, Option.isNone_iff_eq_none] at h
  unfold offered
  rw [if_neg fun hadjective => h.1 hadjective.1, if_neg fun himplicit => h.2.1 himplicit.1, h.2.2]
  rfl

/-- The new ones among the phrases of a response stand behind the old ones. -/
theorem get_mergedPhrases (h : mergedPhrases r query path s = some t) (tag : PhraseTag) :
    t.get tag = (s.getD (.new .property)).get tag ++
      ((additions r query path tag).filter fun x =>
        x ∉ (s.getD (.new .property)).get tag).eraseDups := by
  have hmerged := merged_mergedPhrases r query path s
  rw [h] at hmerged
  unfold additions
  cases hmerged with
  | kept hkept =>
    have hnil : (if path = "id" then [] else offered r query path tag) = [] := by
      split
      next => rfl
      next hid => exact offered_eq_nil (hkept.resolve_left hid)
    rw [hnil]
    exact (List.append_nil _).symm
  | extended hid _ hextends => rw [if_neg hid, hextends.phrases]

/-- A set that is merged into is still there. -/
theorem exists_mergedPhrases (r : RefinementResponse) (query path : String) (s : PhraseSet) :
    ∃ t, mergedPhrases r query path (some s) = some t := by
  unfold mergedPhrases
  cases addition? r query path <;> exact ⟨_, rfl⟩

/-- Nothing comes of a merge where there is nothing in the response. -/
theorem mergedPhrases_empty (query path : String) (s : Option PhraseSet) :
    mergedPhrases {} query path s = s := by
  have hmerged := merged_mergedPhrases {} query path s
  generalize mergedPhrases {} query path s = t at hmerged
  cases hmerged with
  | kept => rfl
  | extended _ haddressed => rcases haddressed with h | h | h <;> cases h

/-- Nothing comes of a merge where there is nothing in the response. -/
theorem fst_merge_empty (c : ClassDefinition) : (merge {} c).1 = c := by
  have hqueries : (c.queries.mapWithKey fun name q => (mergeQuery {} name q).1) = c.queries := by
    refine OrderedMap.mapWithKey_eq_self_iff.2 fun name q _ => ?_
    rw [fst_mergeQuery]
    exact Query.changePhrases_eq_self fun path f _ => mergedPhrases_empty name path f.canonical
  rw [fst_merge, hqueries]

/-- New phrases are no repetition of old ones or of each other. -/
theorem nodup_append_new {l news : List String} :
    (l ++ (news.filter fun x => x ∉ l).eraseDups).Nodup ↔ l.Nodup := by
  refine ⟨fun h => h.of_append_left, fun h => h.append (nodup_eraseDups _) fun x hx hnew => ?_⟩
  have hnot := (List.mem_filter.1 (List.mem_eraseDups.1 hnew)).2
  exact of_decide_eq_true hnot hx

theorem mem_append_new {l news : List String} {x : String} :
    x ∈ l ++ (news.filter fun x => x ∉ l).eraseDups ↔ x ∈ l ∨ x ∈ news := by
  rw [List.mem_append, List.mem_eraseDups, List.mem_filter, decide_eq_true_eq]
  tauto

end Refinement

/-! ## What a round leaves -/

/-- A round of refinement: what annotation goes by, and who is asked. -/
structure Round where
  policy : Policy
  source : Option SampleSource
  oracle : Oracle

namespace Round

/-- A compiled class after a round. -/
def apply (r : Round) (c : Compiled) : Compiled := (c.refine r.policy r.source r.oracle).1

/-- The answer in a round. Where the oracle fails, there is nothing in it. -/
def answer (r : Round) (c : ClassDefinition) : RefinementResponse :=
  (r.oracle (annotate r.policy r.source c).2).toOption.getD {}

variable (r : Round) (c : Compiled)

/-- A round is a merge after an annotation. -/
theorem definition_apply : (r.apply c).definition =
    (merge (r.answer c.definition) (annotate r.policy r.source c.definition).1).1 := by
  unfold apply Compiled.refine answer
  dsimp only
  cases r.oracle (annotate r.policy r.source c.definition).2 with
  | error e => exact (fst_merge_empty _).symm
  | ok response => rfl

/-- A query after a round. -/
theorem get?_queries_apply (name : String) : (r.apply c).definition.queries.get? name =
    (c.definition.queries.get? name).map fun q =>
      (q.changePhrases q.arguments fun path =>
        Option.map (tidied r.policy c.definition.queries.keys name q path)).changePhrases
          q.arguments (mergedPhrases (r.answer c.definition) name) := by
  rw [definition_apply, get?_queries_merge, fst_annotate, OrderedMap.get?_mapWithKey,
    Option.map_map]
  refine congrArg (Option.map · _) (funext fun q => ?_)
  rw [Function.comp_apply, fst_mergeQuery, Query.arguments_changePhrases]

variable {r c} {name path : String}

/-- Names are different and hold no points after a round. -/
theorem wellNamed_apply (hc : ∀ q ∈ c.definition.queries.values, WellNamed q.fields) :
    ∀ q ∈ (r.apply c).definition.queries.values, WellNamed q.fields := by
  intro q' hq'
  obtain ⟨name, hname⟩ := OrderedMap.mem_values_iff.1 hq'
  rw [get?_queries_apply, Option.map_eq_some_iff] at hname
  obtain ⟨q, hq, rfl⟩ := hname
  have hwell := hc q (OrderedMap.mem_values_iff.2 ⟨name, hq⟩)
  exact Query.wellNamed_changePhrases (Query.wellNamed_changePhrases hwell _ _) _ _

/-- The phrases of an argument are tidied up in a round, and then the answer is merged into them. -/
theorem phrases?_apply (hc : ∀ q ∈ c.definition.queries.values, WellNamed q.fields)
    (name path : String) : (r.apply c).definition.phrases? name path =
      (c.definition.queries.get? name).bind fun q => (q.argument? path).bind fun f =>
        mergedPhrases (r.answer c.definition) name path
          (f.canonical.map (tidied r.policy c.definition.queries.keys name q path)) := by
  unfold ClassDefinition.phrases?
  rw [get?_queries_apply, Option.bind_map]
  refine Option.bind_congr fun q hq => ?_
  have hwell := hc q (OrderedMap.mem_values_iff.2 ⟨name, hq⟩)
  exact Query.phrases?_changePhrases_changePhrases hwell _ _ path

/-- Phrases that are there before a round are there after it, tidied up and with the answer. -/
theorem phrases?_apply_of_phrases? (hc : ∀ q ∈ c.definition.queries.values, WellNamed q.fields)
    {q : Query} {s : PhraseSet} (hq : c.definition.queries.get? name = some q)
    (hs : q.phrases? path = some s) : ∃ t, (r.apply c).definition.phrases? name path = some t ∧
      ∀ tag, t.get tag = (tidied r.policy c.definition.queries.keys name q path s).get tag ++
        ((additions (r.answer c.definition) name path tag).filter fun x =>
          x ∉ (tidied r.policy c.definition.queries.keys name q path s).get tag).eraseDups := by
  obtain ⟨f, hf, hcanonical⟩ := Option.bind_eq_some_iff.1 hs
  obtain ⟨t, ht⟩ := exists_mergedPhrases (r.answer c.definition) name path
    (tidied r.policy c.definition.queries.keys name q path s)
  refine ⟨t, ?_, get_mergedPhrases ht⟩
  rw [phrases?_apply hc, hq, Option.bind_some, hf, Option.bind_some, hcanonical, Option.map_some,
    ht]

end Round

/-! ## What is repeated and what is lost -/

/-- No phrase stands twice under a tag of an argument. -/
def ClassDefinition.NoRepeats (c : ClassDefinition) : Prop :=
  ∀ name path s, c.phrases? name path = some s → ∀ tag, (s.get tag).Nodup

/-- The phrase is there, but perhaps without the name of its query in front. -/
def Kept (query : String) (l : List String) (x : String) : Prop :=
  x ∈ l ∨ withoutQuery query x ∈ l

/-- Every phrase of an argument of `c` is one of that argument in `c'` under the same tag, but
perhaps without the name of its query in front. -/
def ClassDefinition.KeptIn (c c' : ClassDefinition) : Prop :=
  ∀ name path s, c.phrases? name path = some s → ∃ s', c'.phrases? name path = some s' ∧
    ∀ tag, ∀ x ∈ s.get tag, Kept name (s'.get tag) x

/-- What is kept is so among more phrases. -/
theorem Kept.mono {query x : String} {l m : List String} (h : Kept query l x) (hlm : l ⊆ m) :
    Kept query m x := h.imp (fun hx => hlm hx) fun hx => hlm hx

namespace Refinement

/-- A tidied set repeats nothing and loses nothing that is not offered, if and only if no two
phrases of the set become one without the name of their query, and the adjectives that are replaced
are among the new ones or offered. -/
theorem tidyAs_safe_iff (emitted : List String) {query : String} {alone : Option String}
    {s : PhraseSet} (hnodup : ∀ tag, (s.get tag).Nodup) (news : PhraseTag → List String) :
    ((∀ tag, ((tidyAs emitted query alone s).get tag).Nodup) ∧
      ∀ tag, ∀ x ∈ s.get tag, Kept query ((tidyAs emitted query alone s).get tag ++ news tag) x) ↔
    (∀ tag, ¬Possessive alone tag → ∀ x ∈ s.get tag, ∀ y ∈ s.get tag,
      withoutQuery query x = withoutQuery query y → x = y) ∧
    ∀ tag, Possessive alone tag → ∀ x ∈ s.get tag, Kept query (possessives ++ news tag) x := by
  constructor
  · rintro ⟨hsafe, hkept⟩
    refine ⟨fun tag htag x hx y hy heq => ?_, fun tag htag x hx => ?_⟩
    · -- All that is left of the phrases stands in front, so it is not repeated either.
      have hmap : ((s.get tag).map (withoutQuery query)).Nodup :=
        (hsafe tag).sublist (prefix_get_tidyAs emitted query s htag).sublist
      exact List.inj_on_of_nodup_map hmap hx hy heq
    · rw [← get_tidyAs_of_possessive emitted query s htag]
      exact hkept tag x hx
  · rintro ⟨hdistinct, hpossessive⟩
    refine ⟨nodup_get_tidyAs emitted fun tag htag => ?_, fun tag x hx => ?_⟩
    · exact (hnodup tag).map_on fun x hx y hy heq => hdistinct tag htag x hx y hy heq
    · by_cases htag : Possessive alone tag
      · rw [get_tidyAs_of_possessive emitted query s htag]
        exact hpossessive tag htag x hx
      · have hmem := (prefix_get_tidyAs emitted query s htag).subset (List.mem_map_of_mem hx)
        exact Or.inr (List.mem_append_left _ hmem)

end Refinement

namespace Round

/-- No phrase is repeated after the round, and none is lost in it. -/
def Safe (c : Compiled) (r : Round) : Prop :=
  (r.apply c).definition.NoRepeats ∧ c.definition.KeptIn (r.apply c).definition

/-- No two phrases under a tag become one without the name of their query, and the adjectives that
are replaced are among the new ones or offered by the answer. Curated phrases may be anything. -/
def Harmless (c : Compiled) (r : Round) : Prop :=
  ∀ name q path s, c.definition.queries.get? name = some q → q.phrases? path = some s →
    isCurated r.policy path = false →
      (∀ tag, ¬Possessive (alone? q path) tag → ∀ x ∈ s.get tag, ∀ y ∈ s.get tag,
        withoutQuery name x = withoutQuery name y → x = y) ∧
      ∀ tag, Possessive (alone? q path) tag → ∀ x ∈ s.get tag,
        Kept name (possessives ++ additions (r.answer c.definition) name path tag) x

variable {c : Compiled} {r : Round}

/-- What is repeated after a round is so in a set that was tidied up. -/
theorem noRepeats_apply_iff (hc : ∀ q ∈ c.definition.queries.values, WellNamed q.fields) :
    (r.apply c).definition.NoRepeats ↔
      ∀ name q path s, c.definition.queries.get? name = some q → q.phrases? path = some s →
        ∀ tag, ((tidied r.policy c.definition.queries.keys name q path s).get tag).Nodup := by
  constructor
  · intro h name q path s hq hs tag
    obtain ⟨t, ht, hget⟩ := phrases?_apply_of_phrases? (r := r) hc hq hs
    have htag := h name path t ht tag
    rw [hget] at htag
    exact nodup_append_new.1 htag
  · intro h name path t ht tag
    rw [phrases?_apply hc] at ht
    obtain ⟨q, hq, ht⟩ := Option.bind_eq_some_iff.1 ht
    obtain ⟨f, hf, ht⟩ := Option.bind_eq_some_iff.1 ht
    rw [get_mergedPhrases ht, nodup_append_new]
    cases hs : f.canonical with
    | none =>
      -- An argument without phrases has only new ones.
      exact List.nodup_nil
    | some s =>
      exact h name q path s hq (by rw [Query.phrases?, hf, Option.bind_some, hs]) tag

/-- What is lost in a round is neither in the set that was tidied up nor in the answer. -/
theorem keptIn_apply_iff (hc : ∀ q ∈ c.definition.queries.values, WellNamed q.fields) :
    c.definition.KeptIn (r.apply c).definition ↔
      ∀ name q path s, c.definition.queries.get? name = some q → q.phrases? path = some s →
        ∀ tag, ∀ x ∈ s.get tag,
          Kept name ((tidied r.policy c.definition.queries.keys name q path s).get tag ++
            additions (r.answer c.definition) name path tag) x := by
  constructor
  · intro h name q path s hq hs tag x hx
    obtain ⟨t, ht, hget⟩ := phrases?_apply_of_phrases? (r := r) hc hq hs
    obtain ⟨t', ht', hkept⟩ := h name path s (by
      rw [ClassDefinition.phrases?, hq, Option.bind_some, hs])
    obtain rfl := Option.some_inj.1 (ht.symm.trans ht')
    refine (hkept tag x hx).mono fun y hy => ?_
    rw [hget, mem_append_new] at hy
    exact List.mem_append.2 hy
  · intro h name path s hs
    obtain ⟨q, hq, hs⟩ := Option.bind_eq_some_iff.1 hs
    obtain ⟨t, ht, hget⟩ := phrases?_apply_of_phrases? (r := r) hc hq hs
    refine ⟨t, ht, fun tag x hx => (h name q path s hq hs tag x hx).mono fun y hy => ?_⟩
    rw [hget, mem_append_new]
    exact List.mem_append.1 hy

/-- A round is safe if and only if it is harmless, where nothing is repeated before. -/
theorem safe_iff_harmless (hc : ∀ q ∈ c.definition.queries.values, WellNamed q.fields)
    (hnodup : c.definition.NoRepeats) : Safe c r ↔ Harmless c r := by
  unfold Safe Harmless
  rw [noRepeats_apply_iff hc, keptIn_apply_iff hc]
  simp only [← forall_and]
  refine forall₄_congr fun name q path s => forall₂_congr fun hq hs => ?_
  have hset := hnodup name path s (by rw [ClassDefinition.phrases?, hq, Option.bind_some, hs])
  cases hcurated : isCurated r.policy path with
  | true =>
    -- A curated set is as it was, so it has what it had and no more.
    rw [tidied_of_isCurated hcurated]
    refine iff_of_true (fun tag => ⟨hset tag, fun x hx => ?_⟩) fun h => Bool.noConfusion h
    exact Or.inl (List.mem_append_left _ hx)
  | false =>
    rw [tidied_of_not hcurated, forall_prop_of_true rfl, forall_and, forall_and]
    exact tidyAs_safe_iff c.definition.queries.keys hset _

end Round

/-! ## Sequences of rounds -/

/-- Each round of a sequence has a property, with the class that it starts from. -/
def EachRound (P : Compiled → Round → Prop) : Compiled → List Round → Prop
  | _, [] => True
  | c, r :: rest => P c r ∧ EachRound P (r.apply c) rest

/-- Where names are different and hold no points and no phrase is repeated, no round of a sequence
repeats a phrase or loses one if and only if each round is harmless to the class that it starts
from. -/
theorem eachRound_safe_iff {c : Compiled}
    (hc : ∀ q ∈ c.definition.queries.values, WellNamed q.fields)
    (hnodup : c.definition.NoRepeats) (rounds : List Round) :
    EachRound Round.Safe c rounds ↔ EachRound Round.Harmless c rounds := by
  induction rounds generalizing c with
  | nil => exact Iff.rfl
  | cons r rest ih =>
    -- After a safe round the names and the phrases are as they have to be for the next one.
    rw [EachRound, EachRound, Round.safe_iff_harmless hc hnodup]
    refine and_congr_right fun hharmless => ih (Round.wellNamed_apply hc) ?_
    exact ((Round.safe_iff_harmless hc hnodup).2 hharmless).1

/-- A round with the given answer. -/
def Round.answered (response : RefinementResponse) : Round :=
  ⟨.standard, none, .constant response⟩

/-- A round with another phrase for what a review is about. -/
def offersSubject : Round :=
  .answered { synonyms := .ofList [("Review", .ofList [("aspect",
    .ofList [("property", ["subject"])])])] }

/-- The other phrase is added in a first round, and in a second one it is there already. -/
theorem eachRound_safe_offersSubject :
    (∀ q ∈ (aspectClass ["aspect"]).definition.queries.values, WellNamed q.fields) ∧
      (aspectClass ["aspect"]).definition.NoRepeats ∧
      EachRound Round.Safe (aspectClass ["aspect"]) [offersSubject, offersSubject] := by
  have hc : ∀ q ∈ (aspectClass ["aspect"]).definition.queries.values, WellNamed q.fields := by
    intro q hq
    obtain rfl := List.mem_singleton.1 hq
    refine .intro (by decide) (by decide) fun f hf members hmembers => ?_
    obtain rfl := List.mem_singleton.1 hf
    cases hmembers
  have hnodup : (aspectClass ["aspect"]).definition.NoRepeats := by
    intro name path s hs tag
    obtain ⟨q, hq, hs⟩ := Option.bind_eq_some_iff.1 hs
    obtain ⟨-, -, -, rfl⟩ := eq_of_phrases?_aspectClass hq hs
    cases tag <;> decide
  have hharmless : ∀ phrases, phrases = ["aspect"] ∨ phrases = ["aspect", "subject"] →
      Round.Harmless (aspectClass phrases) offersSubject := by
    intro phrases hphrases name q path s hq hs _
    obtain ⟨rfl, rfl, halone, rfl⟩ := eq_of_phrases?_aspectClass hq hs
    rw [halone]
    refine ⟨fun tag _ => ?_, fun _ h => nomatch h.2⟩
    rcases hphrases with rfl | rfl <;> cases tag <;> decide +kernel
  have hnext : offersSubject.apply (aspectClass ["aspect"]) =
      aspectClass ["aspect", "subject"] := rfl
  refine ⟨hc, hnodup, (eachRound_safe_iff hc hnodup [offersSubject, offersSubject]).2 ?_⟩
  refine ⟨hharmless _ (Or.inl rfl), ?_, trivial⟩
  rw [hnext]
  exact hharmless _ (Or.inr rfl)

/-- Reviews with what they are about and the one person who edits them. -/
def editedClass : Compiled :=
  reviewClass [reviewArgument "aspect" .string ["aspect"],
    reviewArgument "editor" (.entity "org.schema:Person") ["editor"]]

/-- A round with more phrases for both arguments of an edited review. -/
def offersEdited : Round :=
  .answered { synonyms := .ofList [("Review", .ofList [
    ("aspect", .ofList [("property", ["review aspect"])]),
    ("editor", .ofList [("adjective", ["# edited"])])])] }

/-- A second round, in which nothing is offered, makes one phrase the same as another and takes an
adjective away. -/
theorem not_eachRound_safe_offersEdited :
    (∀ q ∈ editedClass.definition.queries.values, WellNamed q.fields) ∧
      editedClass.definition.NoRepeats ∧
      ¬((Round.answered {}).apply (offersEdited.apply editedClass)).definition.NoRepeats ∧
      ¬(offersEdited.apply editedClass).definition.KeptIn
        ((Round.answered {}).apply (offersEdited.apply editedClass)).definition ∧
      ¬EachRound Round.Safe editedClass [offersEdited, .answered {}] := by
  have hrepeats :
      ¬((Round.answered {}).apply (offersEdited.apply editedClass)).definition.NoRepeats := by
    intro h
    have haspect := h "Review" "aspect" _ rfl .property
    revert haspect
    decide +kernel
  have hloses : ¬(offersEdited.apply editedClass).definition.KeptIn
      ((Round.answered {}).apply (offersEdited.apply editedClass)).definition := by
    intro h
    obtain ⟨s', hs', hkept⟩ := h "Review" "editor" _ rfl
    have hedited := hkept .adjective "# edited" (by decide +kernel)
    obtain rfl := Option.some_inj.1 hs'
    revert hedited
    unfold Kept
    decide +kernel
  refine ⟨fun q hq => ?_, fun name path s hs tag => ?_, hrepeats, hloses,
    fun h => hrepeats h.2.1.1⟩
  · obtain rfl := List.mem_singleton.1 hq
    refine .intro (by decide) (by decide) fun f hf members hmembers => ?_
    rcases List.mem_pair.1 hf with rfl | rfl <;> cases hmembers
  · obtain ⟨q, f, hq, hf, hs⟩ := ClassDefinition.phrases?_eq_some_iff.1 hs
    obtain ⟨rfl, rfl⟩ := Prod.mk.inj (List.mem_singleton.1 (OrderedMap.get?_eq_some_iff.1 hq))
    rcases List.mem_pair.1 (Query.mem_arguments_of_argument? hf) with rfl | rfl
    · obtain rfl := Option.some_inj.1 hf
      obtain rfl := Option.some_inj.1 hs
      cases tag <;> decide
    · obtain rfl := Option.some_inj.1 hf
      obtain rfl := Option.some_inj.1 hs
      cases tag <;> decide

end VocabularyCompiler

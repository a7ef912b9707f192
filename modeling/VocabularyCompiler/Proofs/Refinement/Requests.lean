import VocabularyCompiler.Proofs.Refinement.Tidying

/-!
# What is asked about a class

The request is gathered while the phrases are tidied up, argument by argument. To tidy up the
phrases at one path changes nothing that is read at another (`map_surface_modifyPhrases`), so what
is asked about an argument may be told from the query as it was before (`requestAbout`), and the
requests about the arguments of a query stand in the order of its arguments
(`entries_annotateQuery`). The phrases in a request are those that the argument keeps (`Asks`), and
what the request holds depends on the source of samples, but no phrase does (`annotate_exact`).
-/

namespace VocabularyCompiler

namespace Refinement

open PhraseSet

/-! ## What annotation reads of an argument -/

/-- What annotation reads of an argument. -/
def surface (f : Field) : Option PhraseSet × Annotations × Option String :=
  (f.canonical, f.annotations, f.type.entityKind?)

/-- What is read at one path does not change with the phrases at another. -/
theorem map_surface_modifyPhrases {path path' : String} (hne : path ≠ path') (q : Query)
    (g : Option PhraseSet → Option PhraseSet) :
    ((q.modifyPhrases path g).argument? path').map surface = (q.argument? path').map surface := by
  have hview : ∀ (f : Field) F, surface { f with type := f.type.mapMembers F } = surface f := by
    intro f F
    unfold surface
    rw [f.type.entityKind?_mapMembers F]
  exact findArgument?_modifyArgument_of_ne (KeepsShape.canonical g) hview
    (splitPath_injective.ne hne) q.fields

/-- The keys of an argument that has the same surface are the same. -/
theorem lookupKeys_eq {f f' : Field} (h : surface f = surface f') (kind name path : String) :
    SampleSource.lookupKeys kind name path f = SampleSource.lookupKeys kind name path f' := by
  unfold surface at h
  simp only [Prod.mk.injEq] at h
  unfold SampleSource.lookupKeys
  rw [h.2.1, h.2.2]

/-! ## The request about an argument -/

section Request

variable {c : Context} {name path : String} {q q' : Query}

/-- What is asked about an argument that is not curated: the first dataset that is known and, if
there are phrases, the first values and with them the phrases, tidied up. -/
def requestOn (c : Context) (name : String) (kinds : List String) (path : String) (f : Field) :
    ArgumentRequest :=
  let keys := SampleSource.lookupKeys c.kind name path f
  let values := f.canonical.bind fun _ => c.source.bind fun s => s.findSamples keys
  { path := c.source.bind fun s => s.findPath keys
    canonicals := values.bind fun _ => f.canonical.map (tidy c name kinds f)
    values := values }

/-- What is asked about the argument at a path of a query. -/
def requestAbout (c : Context) (name : String) (q : Query) (path : String) : ArgumentRequest :=
  if isCurated c.policy path then {}
  else (q.argument? path).elim {} (requestOn c name (entityKinds q) path)

/-- What is asked depends on the surface of an argument only. -/
theorem requestOn_eq {f f' : Field} (h : surface f = surface f') (kinds : List String) :
    requestOn c name kinds path f = requestOn c name kinds path f' := by
  have hkeys := lookupKeys_eq h c.kind name path
  unfold surface at h
  simp only [Prod.mk.injEq] at h
  have htidy : tidy c name kinds f = tidy c name kinds f' := by
    funext s
    rw [tidy_eq, tidy_eq, h.2.2]
  unfold requestOn
  rw [hkeys, htidy, h.1]

/-- To annotate an argument is to ask about it, whatever was done with others before. -/
theorem snd_annotateArgument {requests : OrderedMap String ArgumentRequest}
    (hnew : requests.get? path = none)
    (hseen : (q'.argument? path).map surface = (q.argument? path).map surface) :
    (annotateArgument c name (entityKinds q) (q', requests) path).2 =
      requests.insert path (requestAbout c name q path) := by
  unfold annotateArgument requestAbout
  dsimp only
  rw [hnew, Option.getD_none]
  split
  · rfl
  · cases hf' : q'.argument? path with
    | none =>
      rw [hf', Option.map_none, eq_comm, Option.map_eq_none_iff] at hseen
      rw [hseen, Option.elim_none]
    | some f' =>
      rw [hf', Option.map_some, eq_comm] at hseen
      obtain ⟨f, hf, hsurface⟩ := Option.map_eq_some_iff.1 hseen
      rw [hf, Option.elim_some, requestOn_eq hsurface]
      unfold requestOn
      dsimp only
      -- Without phrases there are no values, and without values no phrases are sent.
      cases f'.canonical with
      | none => rfl
      | some s =>
        rw [Option.bind_some]
        dsimp only
        split
        next h =>
          rw [h]
          rfl
        next values h =>
          rw [h]
          rfl

/-- What is asked about the arguments of a query is what is asked about each, in order. -/
theorem entries_annotateQuery (c : Context) (name : String) (h : WellNamed q.fields) :
    (annotateQuery c name q).2.arguments.entries =
      q.arguments.map fun path => (path, requestAbout c name q path) := by
  -- The arguments that are still to be asked about are new, and look as they did at first.
  have hfoldl : ∀ (paths : List String) (q' : Query) (requests : OrderedMap String ArgumentRequest),
      SameKinds q q' → paths.Nodup → (∀ path ∈ paths, path ∉ requests.keys) →
      (∀ path ∈ paths, (q'.argument? path).map surface = (q.argument? path).map surface) →
        (paths.foldl (annotateArgument c name (entityKinds q)) (q', requests)).2.entries =
          requests.entries ++ paths.map fun path => (path, requestAbout c name q path) := by
    intro paths
    induction paths with
    | nil => exact fun _ requests _ _ _ _ => (List.append_nil requests.entries).symm
    | cons path rest ih =>
      intro q' requests hkinds hnodup hnew hseen
      rw [List.nodup_cons] at hnodup
      rw [List.forall_mem_cons] at hnew hseen
      have hget : requests.get? path = none := by
        rw [← Option.not_isSome_iff_eq_none, ← OrderedMap.contains_eq_isSome_get?,
          OrderedMap.contains_iff_mem_keys]
        exact hnew.1
      have hstep : annotateArgument c name (entityKinds q) (q', requests) path =
          (q'.modifyPhrases path (Option.map (tidied c.policy c.emitted name q path)),
            requests.insert path (requestAbout c name q path)) :=
        Prod.ext (fst_annotateArgument hkinds path) (snd_annotateArgument hget hseen.1)
      rw [List.foldl_cons, hstep, ih]
      · change insertEntry path _ requests.entries ++ _ = _
        rw [insertEntry_of_notMem hnew.1, List.append_assoc]
        rfl
      · intro path'
        rw [Query.map_entityKind?_modifyPhrases]
        exact hkinds path'
      · exact hnodup.2
      · intro path' hpath'
        rw [OrderedMap.keys_insert, if_neg hnew.1, List.mem_append, List.mem_singleton, not_or]
        exact ⟨hnew.2 path' hpath', ne_of_mem_of_not_mem hpath' hnodup.1⟩
      · intro path' hpath'
        rw [map_surface_modifyPhrases (ne_of_mem_of_not_mem hpath' hnodup.1).symm]
        exact hseen.2 path' hpath'
  exact hfoldl q.arguments q ∅ (fun _ => rfl) h.nodup_arguments (fun _ _ => List.not_mem_nil)
    fun _ _ => rfl

/-- There is something asked about each argument of a query. -/
theorem keys_annotateQuery (c : Context) (name : String) (h : WellNamed q.fields) :
    (annotateQuery c name q).2.arguments.keys = q.arguments := by
  unfold OrderedMap.keys
  rw [entries_annotateQuery c name h, List.map_map]
  exact List.map_id _

/-- What is asked about an argument is found at its path. -/
theorem get?_annotateQuery (c : Context) (name : String) (h : WellNamed q.fields) {f : Field}
    (hf : q.argument? path = some f) : (annotateQuery c name q).2.arguments.get? path =
      some (requestAbout c name q path) := by
  rw [OrderedMap.get?_eq_some_iff, entries_annotateQuery c name h]
  exact List.mem_map.2 ⟨path, Query.mem_arguments_of_argument? hf, rfl⟩

end Request

/-! ## The request about a class -/

/-- What is asked about an argument of a query, with the phrases that the argument has afterwards:
nothing if it is curated, and else the first dataset that is known and, for an argument with
phrases, the first values. Phrases are sent along with values, and they are those of afterwards. -/
structure Asks (p : Policy) (source : Option SampleSource) (keys : List String) (path : String)
    (before after : Option PhraseSet) (r : ArgumentRequest) : Prop where
  curated : isCurated p path = true → r = {}
  dataset : isCurated p path = false → r.path = source.bind fun s => s.findPath keys
  values : isCurated p path = false →
    r.values = before.bind fun _ => source.bind fun s => s.findSamples keys
  canonicals : r.canonicals.isSome = r.values.isSome
  phrases (s : PhraseSet) : r.canonicals = some s → after = some s

section Annotate

variable {p : Policy} {source : Option SampleSource} {c : ClassDefinition} {name path : String}
  {q : Query} {f : Field}

/-- The phrases of an argument are tidied up once. -/
theorem phrases?_annotate (h : WellNamed q.fields) (hq : c.queries.get? name = some q) :
    (annotate p source c).1.phrases? name path =
      (q.phrases? path).map (tidied p c.queries.keys name q path) := by
  have hget : (annotate p source c).1.queries.get? name =
      some (q.changePhrases q.arguments fun path =>
        Option.map (tidied p c.queries.keys name q path)) := by
    rw [fst_annotate]
    dsimp only
    rw [OrderedMap.get?_mapWithKey, hq, Option.map_some]
  have hphrases := Query.phrases?_of_map_canonical
    (Query.map_canonical_changePhrases_arguments h
      (fun path => Option.map (tidied p c.queries.keys name q path)) path)
  rw [ClassDefinition.phrases?, hget, Option.bind_some, hphrases]
  unfold Query.phrases?
  cases q.argument? path <;> rfl

/-- The request about a query is gathered from its arguments. -/
theorem get?_snd_annotate (p : Policy) (source : Option SampleSource)
    (hq : c.queries.get? name = some q) : (annotate p source c).2.get? name =
      some (annotateQuery ⟨p, c.kind, c.queries.keys, source⟩ name q).2 := by
  unfold annotate
  dsimp only
  rw [OrderedMap.get?_mapWithKey, OrderedMap.get?_mapWithKey, hq, Option.map_some, Option.map_some]

/-- What is asked about an argument is what there is to be asked. -/
theorem asks_requestAbout (p : Policy) (source : Option SampleSource) (h : WellNamed q.fields)
    (hq : c.queries.get? name = some q) (hf : q.argument? path = some f) :
    Asks p source (SampleSource.lookupKeys c.kind name path f) path f.canonical
      ((annotate p source c).1.phrases? name path)
      (requestAbout ⟨p, c.kind, c.queries.keys, source⟩ name q path) := by
  rw [phrases?_annotate h hq, Query.phrases?, hf, Option.bind_some]
  unfold requestAbout
  dsimp only
  cases hcurated : isCurated p path with
  | true =>
    have hnot : isCurated p path ≠ false := fun h => Bool.noConfusion (hcurated.symm.trans h)
    refine ⟨fun _ => rfl, fun h => absurd h hnot, fun h => absurd h hnot, rfl, fun s hs => ?_⟩
    cases hs
  | false =>
    have hnot : isCurated p path ≠ true := Bool.eq_false_iff.1 hcurated
    rw [if_neg Bool.false_ne_true, hf, Option.elim_some]
    refine ⟨fun h => absurd h hnot, fun _ => rfl, fun _ => rfl, ?_, fun s hs => ?_⟩
    · unfold requestOn
      dsimp only
      cases f.canonical with
      | none => rfl
      | some s =>
        rw [Option.bind_some]
        cases source.bind fun s => s.findSamples _ <;> rfl
    · -- The phrases that are sent are tidied up by what the query held before.
      have htidy : tidy ⟨p, c.kind, c.queries.keys, source⟩ name (entityKinds q) f =
          tidied p c.queries.keys name q path := by
        funext s
        rw [tidy_eq, tidied_of_not hcurated, alone?, hf, Option.bind_some]
      obtain ⟨_, -, hs⟩ := Option.bind_eq_some_iff.1 hs
      rw [← htidy]
      exact hs

/-- Annotation changes nothing but the phrases in the sets that arguments have, and those do not
depend on the source of samples. There is a request about each query, and in it one about each
argument, in order, with the phrases that the argument has afterwards wherever there are values. The
names of the fields have to hold no points, and those in one list to be different. -/
theorem annotate_exact (p : Policy) (source : Option SampleSource)
    (hc : ∀ q ∈ c.queries.values, WellNamed q.fields) :
    c.AgreeUpTo (Option.Rel SameMarks) (annotate p source c).1 ∧
      (∀ other, (annotate p other c).1 = (annotate p source c).1) ∧
      (annotate p source c).2.keys = c.queries.keys ∧
      ∀ name q, c.queries.get? name = some q →
        ∃ r, (annotate p source c).2.get? name = some r ∧ r.canonical = q.canonical ∧
          r.arguments.keys = q.arguments ∧
          ∀ path f, q.argument? path = some f → ∃ a, r.arguments.get? path = some a ∧
            Asks p source (SampleSource.lookupKeys c.kind name path f) path f.canonical
              ((annotate p source c).1.phrases? name path) a := by
  refine ⟨agreeUpTo_annotate p source c, fun other => ?_, ?_, fun name q hq => ?_⟩
  · rw [fst_annotate, fst_annotate]
  · unfold annotate
    dsimp only
    rw [OrderedMap.keys_mapWithKey, OrderedMap.keys_mapWithKey]
  · have hwell : WellNamed q.fields := hc q (OrderedMap.mem_values_iff.2 ⟨name, hq⟩)
    exact ⟨_, get?_snd_annotate p source hq, rfl, keys_annotateQuery _ name hwell, fun path f hf =>
      ⟨_, get?_annotateQuery _ name hwell hf, asks_requestAbout p source hwell hq hf⟩⟩

/-- A source with a dataset of the streets of places and no other. -/
def streetSamples : SampleSource where
  path key := if key = ":Place_address.street" then some "streets.tsv" else none
  samples key := if key = ":Place_address.street" then some ["High Street"] else none

/-- What is sent about the street of a place is what is known of streets, with the phrases that it
keeps. -/
theorem annotate_exact_placeClass :
    (∀ q ∈ placeClass.queries.values, WellNamed q.fields) ∧
      ∃ r a s, (annotate .standard (some streetSamples) placeClass).2.get? "Place" = some r ∧
        r.arguments.keys = ["id", "address", "address.street"] ∧
        r.arguments.get? "address.street" = some a ∧ a.path = some "streets.tsv" ∧
        a.values = some ["High Street"] ∧ a.canonicals = some s ∧
        (annotate .standard (some streetSamples) placeClass).1.phrases? "Place" "address.street" =
          some s := by
  have hc := wellNamed_placeClass
  obtain ⟨-, -, -, hqueries⟩ := annotate_exact .standard (some streetSamples) hc
  obtain ⟨r, hr, -, hkeys, harguments⟩ := hqueries "Place" places rfl
  have hstreet : places.argument? "address.street" =
      some ⟨"street", .string, some streetPhrases, {}⟩ := rfl
  obtain ⟨a, ha, hasks⟩ := harguments "address.street" _ hstreet
  have hcurated : isCurated .standard "address.street" = false := by decide +kernel
  have hvalues : a.values = some ["High Street"] := (hasks.values hcurated).trans rfl
  -- Where there are values, the phrases are sent with them.
  have hcanonicals := hasks.canonicals
  rw [hvalues, Option.isSome_some] at hcanonicals
  obtain ⟨s, hs⟩ := Option.isSome_iff_exists.1 hcanonicals
  exact ⟨hc, r, a, s, hr, hkeys.trans rfl, ha, (hasks.dataset hcurated).trans rfl, hvalues, hs,
    hasks.phrases s hs⟩

end Annotate

end Refinement

end VocabularyCompiler

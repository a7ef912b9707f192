import VocabularyCompiler.Proofs.Refinement.Requests

/-!
# Which curated phrases annotation leaves alone

Curated phrases belong to a name, and a property has them at whatever depth it is declared. To
annotate is to look in the table for the whole path of an argument, or for what is left of it
without its first name (`isCurated_intercalate_iff`). So an argument whose own name is in the table
is left alone if it is one of the query or a member right inside one. Farther in it is treated as if
it were not curated, unless the table holds the longer path (`curated_leftAlone_iff`).
-/

namespace VocabularyCompiler

namespace Refinement

/-! ## Looking up a path -/

section Table

variable {p : Policy} {name own : String} {way rest : List String}

/-- What stands behind the first point of a path is the path without its first name. -/
theorem drop_dropWhile_intercalate (hname : '.' ∉ name.toList) (hrest : rest ≠ []) :
    ((".".intercalate (name :: rest)).toList.dropWhile (· ≠ '.')).drop 1 =
      (".".intercalate rest).toList := by
  have hbefore : ∀ ch ∈ name.toList, decide (ch ≠ '.') = true := fun ch hch =>
    decide_eq_true (ne_of_mem_of_not_mem hch hname)
  rw [String.intercalate_cons_of_ne_nil hrest, String.append_assoc, String.toList_append,
    List.dropWhile_append_of_pos hbefore, String.toList_append]
  rfl

/-- A path is curated if the table holds it, or what is left of it without its first name. -/
theorem isCurated_intercalate_iff (hname : '.' ∉ name.toList) :
    isCurated p (".".intercalate (name :: rest)) = true ↔
      p.manualCanonicalOverrides.contains (".".intercalate (name :: rest)) = true ∨
        rest ≠ [] ∧ p.manualCanonicalOverrides.contains (".".intercalate rest) = true := by
  unfold isCurated
  dsimp only
  rw [Bool.or_eq_true, Bool.and_eq_true, decide_eq_true_eq]
  refine or_congr_right ?_
  by_cases hrest : rest = []
  · subst hrest
    rw [String.intercalate_singleton]
    exact iff_of_false (fun h => hname h.1) fun h => h.1 rfl
  · have hpoint : '.' ∈ (".".intercalate (name :: rest)).toList := by
      rw [String.intercalate_cons_of_ne_nil hrest, String.toList_append, String.toList_append]
      exact List.mem_append_left _ (List.mem_append_right _ (List.mem_singleton_self '.'))
    rw [drop_dropWhile_intercalate hname hrest, String.ofList_toList]
    exact and_congr_left fun _ => iff_of_true hpoint hrest

/-- The way to an argument is that of a query's own, or of a member right inside one, or the table
holds more of the way than its last name. -/
def WithinReach (p : Policy) (way : List String) : Prop :=
  way.length ≤ 2 ∨ p.manualCanonicalOverrides.contains (".".intercalate way) = true ∨
    p.manualCanonicalOverrides.contains (".".intercalate way.tail) = true

/-- Where the last name on a way is in the table, its path is curated if it is within reach. -/
theorem isCurated_iff_withinReach (hnames : ∀ name ∈ way, '.' ∉ name.toList)
    (hown : way.getLast? = some own) (htable : p.manualCanonicalOverrides.contains own = true) :
    isCurated p (".".intercalate way) = true ↔ WithinReach p way := by
  unfold WithinReach
  match way with
  | [] => cases hown
  | [name] =>
    obtain rfl := Option.some_inj.1 hown
    rw [isCurated_intercalate_iff (hnames _ (List.mem_cons_self ..)), String.intercalate_singleton]
    exact iff_of_true (Or.inl htable) (Or.inl (by simp))
  | [first, name] =>
    obtain rfl := Option.some_inj.1 hown
    rw [isCurated_intercalate_iff (hnames _ (List.mem_cons_self ..)), String.intercalate_singleton]
    exact iff_of_true (Or.inr ⟨List.cons_ne_nil _ _, htable⟩) (Or.inl (by simp))
  | first :: second :: third :: rest =>
    -- The last name alone is never looked up.
    rw [isCurated_intercalate_iff (hnames _ (List.mem_cons_self ..)),
      and_iff_right (List.cons_ne_nil _ _), List.tail_cons]
    exact (or_iff_right (by simp)).symm

end Table

/-! ## Arguments that are left alone -/

/-- Annotation leaves the phrases at a path as they are, and asks nothing about them. -/
def LeftAlone (p : Policy) (source : Option SampleSource) (c : ClassDefinition)
    (name path : String) : Prop :=
  (annotate p source c).1.phrases? name path = c.phrases? name path ∧
    ∃ r, (annotate p source c).2.get? name = some r ∧ r.arguments.get? path = some {}

section LeftAlone

variable {p : Policy} {c : ClassDefinition} {name path own : String} {q : Query}
  {way : List String} {f : Field}

/-- A source that has a dataset under any key. -/
def anyDataset : SampleSource where
  path _ := some ""
  samples _ := none

theorem findPath_anyDataset (kind name path : String) (f : Field) :
    anyDataset.findPath (SampleSource.lookupKeys kind name path f) = some "" := by
  unfold SampleSource.lookupKeys
  cases f.annotations.stringValues <;> rfl

/-- An argument is left alone, whatever is known of its values, if and only if it is curated. -/
theorem leftAlone_iff_isCurated (h : WellNamed q.fields) (hq : c.queries.get? name = some q)
    (hf : q.argument? path = some f) :
    (∀ source, LeftAlone p source c name path) ↔ isCurated p path = true := by
  have hentry : ∀ source r a, (annotate p source c).2.get? name = some r →
      r.arguments.get? path = some a →
        Asks p source (SampleSource.lookupKeys c.kind name path f) path f.canonical
          ((annotate p source c).1.phrases? name path) a := by
    intro source r a hr ha
    obtain rfl := Option.some_inj.1 ((get?_snd_annotate p source hq).symm.trans hr)
    obtain rfl := Option.some_inj.1 ((get?_annotateQuery _ name h hf).symm.trans ha)
    exact asks_requestAbout p source h hq hf
  constructor
  · intro hleft
    obtain ⟨-, r, hr, hentry'⟩ := hleft (some anyDataset)
    by_contra hnot
    -- A dataset that is known is asked about, so the entry is not empty.
    have hdataset := (hentry _ r _ hr hentry').dataset (Bool.eq_false_iff.2 hnot)
    rw [Option.bind_some, findPath_anyDataset] at hdataset
    cases hdataset
  · intro hcurated source
    refine ⟨phrases?_annotate_of_isCurated p source c name hcurated, _,
      get?_snd_annotate p source hq, ?_⟩
    have hget := get?_annotateQuery ⟨p, c.kind, c.queries.keys, source⟩ name h hf
    rwa [(hentry source _ _ (get?_snd_annotate p source hq) hget).curated hcurated] at hget

/-- An argument whose own name has curated phrases is left alone, whatever is known of its values, if
and only if it is within reach, and else its phrases are tidied up like any others. The names of the
fields have to hold no points, and those in one list to be different. -/
theorem curated_leftAlone_iff (h : WellNamed q.fields) (hq : c.queries.get? name = some q)
    (hway : way ∈ fieldWays q.fields) (hown : way.getLast? = some own)
    (htable : p.manualCanonicalOverrides.contains own = true) :
    ((∀ source, LeftAlone p source c name (".".intercalate way)) ↔ WithinReach p way) ∧
      (¬WithinReach p way → ∀ source,
        (annotate p source c).1.phrases? name (".".intercalate way) =
          (c.phrases? name (".".intercalate way)).map
            (tidyAs c.queries.keys name (alone? q (".".intercalate way)))) := by
  have hreach := isCurated_iff_withinReach (h.notMem_of_mem_fieldWays hway) hown htable
  have hfound := h.isSome_findArgument?_iff.2 hway
  rw [← h.splitPath_intercalate hway] at hfound
  obtain ⟨f, hf⟩ := Option.isSome_iff_exists.1 hfound
  refine ⟨(leftAlone_iff_isCurated h hq hf).trans hreach, fun hnot source => ?_⟩
  have hcurated : isCurated p (".".intercalate way) = false :=
    Bool.eq_false_iff.2 fun hcurated => hnot (hreach.1 hcurated)
  have htidied : tidied p c.queries.keys name q (".".intercalate way) =
      tidyAs c.queries.keys name (alone? q (".".intercalate way)) :=
    funext fun s => tidied_of_not hcurated
  rw [phrases?_annotate h hq, htidied, ClassDefinition.phrases?, hq, Option.bind_some]

/-- A telephone number with its curated phrases. -/
def telephone : Field :=
  ⟨"telephone", .entity "tt:phone_number",
    some ⟨.property, .ofList [(.base, ["telephone", "phone number"])], false, false⟩, {}⟩

/-- Places with a way to contact them, which has a telephone number of its own and an address with
another one. -/
def contacts : Query :=
  { (default : Query) with
    name := "Place"
    fields := [⟨"contact", .compound "ContactPoint"
      [⟨"address", .compound "PostalAddress" [telephone], none, {}⟩, telephone], none, {}⟩] }

/-- A class of places that can be contacted. -/
def contactClass : ClassDefinition :=
  { (default : ClassDefinition) with queries := .ofList [("Place", contacts)] }

/-- The names of what a place has hold no points, and no two in one list are the same. -/
theorem wellNamed_contacts : WellNamed contacts.fields := by
  have htelephone : ∀ members, telephone.type.members? ≠ some members := fun _ h => nomatch h
  refine .intro (by decide) (by decide) fun f hf members hmembers => ?_
  obtain rfl := List.mem_singleton.1 hf
  obtain rfl := Option.some_inj.1 hmembers
  refine .intro (by decide) (by decide) fun f hf members hmembers => ?_
  rcases List.mem_pair.1 hf with rfl | rfl
  · obtain rfl := Option.some_inj.1 hmembers
    refine .intro (by decide) (by decide) fun f hf members hmembers => ?_
    obtain rfl := List.mem_singleton.1 hf
    exact absurd hmembers (htelephone members)
  · exact absurd hmembers (htelephone members)

/-- The telephone number of the contact is left alone, and that of its address is not. -/
theorem curated_leftAlone_iff_contacts :
    Phrase.manual.contains "telephone" = true ∧
      (∀ source, LeftAlone .standard source contactClass "Place" "contact.telephone") ∧
      ¬∀ source, LeftAlone .standard source contactClass "Place" "contact.address.telephone" := by
  have htable : Policy.standard.manualCanonicalOverrides.contains "telephone" = true := by
    decide +kernel
  have hmember := @curated_leftAlone_iff .standard contactClass "Place" "telephone" contacts
    ["contact", "telephone"] wellNamed_contacts rfl (by decide) rfl htable
  have hdeeper := @curated_leftAlone_iff .standard contactClass "Place" "telephone" contacts
    ["contact", "address", "telephone"] wellNamed_contacts rfl (by decide) rfl htable
  have hfar : ¬WithinReach .standard ["contact", "address", "telephone"] := by
    unfold WithinReach
    decide +kernel
  exact ⟨htable, hmember.1.2 (Or.inl (by decide)), fun hleft => hfar (hdeeper.1.1 hleft)⟩

/-- The telephone number of the address has a curated name, but its phrases are changed, even where
there are no samples. -/
theorem not_leftAlone_telephone_of_address :
    (∀ q ∈ contactClass.queries.values, WellNamed q.fields) ∧
      "contact.address.telephone" ∈ contacts.arguments ∧
      (splitPath "contact.address.telephone").getLast? = some "telephone" ∧
      Policy.standard.manualCanonicalOverrides.contains "telephone" = true ∧
      ¬LeftAlone .standard none contactClass "Place" "contact.address.telephone" := by
  refine ⟨fun q hq => ?_, by decide +kernel, by decide +kernel, by decide +kernel, fun hleft => ?_⟩
  · obtain rfl : q = contacts := List.mem_singleton.1 hq
    exact wellNamed_contacts
  · have hchanged : (annotate .standard none contactClass).1.phrases? "Place"
        "contact.address.telephone" ≠
          contactClass.phrases? "Place" "contact.address.telephone" := by
      decide +kernel
    exact hchanged hleft.1

end LeftAlone

end Refinement

end VocabularyCompiler

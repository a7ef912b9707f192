import Mathlib.Data.List.Forall2
import VocabularyCompiler.Proofs.ClassDefinition.Changes

/-!
# Agreement up to phrases

Two types, lists of fields, queries or classes agree up to a relation on phrase sets if they are the
same in everything but the phrases of fields, and the phrase sets in the same places are so related.
The places are those of the fields themselves, so this speaks of fields that share a name as well.
Changes that keep a relation on phrase sets, made at the same paths on both sides, keep the
agreement (`Query.AgreeUpTo.modifyPhrases`).
-/

namespace VocabularyCompiler

variable {R : Option PhraseSet → Option PhraseSet → Prop}

/-! ## Types and fields -/

mutual

/-- The types are the same, but for the phrases of the fields inside them, which `R` relates. -/
def ValueType.AgreeUpTo (R : Option PhraseSet → Option PhraseSet → Prop) :
    ValueType → ValueType → Prop
  | .array t, u => ∃ u', u = .array u' ∧ t.AgreeUpTo R u'
  | .compound name fields, u => ∃ fields', u = .compound name fields' ∧ AgreeUpTo R fields fields'
  | t, u => u = t
termination_by structural t => t

/-- The fields are the same, but for their phrases and those of the members inside them, which `R`
relates. -/
def AgreeUpTo (R : Option PhraseSet → Option PhraseSet → Prop) : List Field → List Field → Prop
  | [], l => l = []
  | ⟨name, type, canonical, annotations⟩ :: rest, l =>
    ∃ type' canonical' rest', l = ⟨name, type', canonical', annotations⟩ :: rest' ∧
      type.AgreeUpTo R type' ∧ R canonical canonical' ∧ AgreeUpTo R rest rest'
termination_by structural l => l

end

/-- The field is the same, but for its phrases and those of the members inside it, which `R`
relates. -/
def Field.AgreeUpTo (R : Option PhraseSet → Option PhraseSet → Prop) (f f' : Field) : Prop :=
  ∃ type' canonical', f' = { f with type := type', canonical := canonical' } ∧
    f.type.AgreeUpTo R type' ∧ R f.canonical canonical'

/-- Lists of fields agree if they do one by one. -/
theorem agreeUpTo_iff_forall₂ {fields fields' : List Field} :
    AgreeUpTo R fields fields' ↔ List.Forall₂ (Field.AgreeUpTo R) fields fields' := by
  induction fields generalizing fields' with
  | nil => rw [AgreeUpTo, List.forall₂_nil_left_iff]
  | cons f rest ih =>
    obtain ⟨name, type, canonical, annotations⟩ := f
    rw [AgreeUpTo, List.forall₂_cons_left_iff]
    simp only [ih, Field.AgreeUpTo]
    constructor
    · rintro ⟨type', canonical', rest', rfl, htype, hcanonical, hrest⟩
      exact ⟨_, rest', ⟨type', canonical', rfl, htype, hcanonical⟩, hrest, rfl⟩
    · rintro ⟨_, rest', ⟨type', canonical', rfl, htype, hcanonical⟩, hrest, rfl⟩
      exact ⟨type', canonical', rest', rfl, htype, hcanonical, hrest⟩

mutual

/-- A type agrees with itself. -/
theorem ValueType.AgreeUpTo.refl (hR : ∀ s, R s s) : ∀ t : ValueType, t.AgreeUpTo R t
  | .array t => ⟨t, rfl, ValueType.AgreeUpTo.refl hR t⟩
  | .compound _ fields => ⟨fields, rfl, AgreeUpTo.refl hR fields⟩
  | .any | .boolean | .number | .string | .date | .time | .location | .currency | .measure _
  | .entity _ | .enum _ => rfl

/-- Fields agree with themselves. -/
theorem AgreeUpTo.refl (hR : ∀ s, R s s) : ∀ fields : List Field, AgreeUpTo R fields fields
  | [] => rfl
  | ⟨_, type, canonical, _⟩ :: rest =>
    ⟨type, canonical, rest, rfl, ValueType.AgreeUpTo.refl hR type, hR canonical,
      AgreeUpTo.refl hR rest⟩

end

mutual

/-- Types that agree with a third in turn agree with it. -/
theorem ValueType.AgreeUpTo.trans (hR : ∀ s t u, R s t → R t u → R s u) :
    ∀ {t u v : ValueType}, t.AgreeUpTo R u → u.AgreeUpTo R v → t.AgreeUpTo R v
  | .array _, _, _, ⟨_, rfl, h⟩, ⟨w, rfl, h'⟩ => ⟨w, rfl, ValueType.AgreeUpTo.trans hR h h'⟩
  | .compound _ _, _, _, ⟨_, rfl, h⟩, ⟨fields, rfl, h'⟩ => ⟨fields, rfl, AgreeUpTo.trans hR h h'⟩
  | .any, _, _, rfl, h | .boolean, _, _, rfl, h | .number, _, _, rfl, h | .string, _, _, rfl, h
  | .date, _, _, rfl, h | .time, _, _, rfl, h | .location, _, _, rfl, h | .currency, _, _, rfl, h
  | .measure _, _, _, rfl, h | .entity _, _, _, rfl, h | .enum _, _, _, rfl, h => h

/-- Fields that agree with a third list in turn agree with it. -/
theorem AgreeUpTo.trans (hR : ∀ s t u, R s t → R t u → R s u) :
    ∀ {l m n : List Field}, AgreeUpTo R l m → AgreeUpTo R m n → AgreeUpTo R l n
  | [], _, _, rfl, h => h
  | ⟨_, _, _, _⟩ :: _, _, _, ⟨_, _, _, rfl, htype, hcanonical, hrest⟩,
    ⟨type, canonical, rest, rfl, htype', hcanonical', hrest'⟩ =>
    ⟨type, canonical, rest, rfl, ValueType.AgreeUpTo.trans hR htype htype',
      hR _ _ _ hcanonical hcanonical', AgreeUpTo.trans hR hrest hrest'⟩

end

/-- Types agree after changes of their members that keep agreement. -/
theorem ValueType.AgreeUpTo.mapMembers {F G : List Field → List Field}
    (hFG : ∀ {l m}, VocabularyCompiler.AgreeUpTo R l m →
      VocabularyCompiler.AgreeUpTo R (F l) (G m)) :
    ∀ {t u : ValueType}, t.AgreeUpTo R u → (t.mapMembers F).AgreeUpTo R (u.mapMembers G)
  | .array _, _, ⟨_, rfl, h⟩ => ⟨_, rfl, mapMembers hFG h⟩
  | .compound _ _, _, ⟨_, rfl, h⟩ => ⟨_, rfl, hFG h⟩
  | .any, _, rfl | .boolean, _, rfl | .number, _, rfl | .string, _, rfl | .date, _, rfl
  | .time, _, rfl | .location, _, rfl | .currency, _, rfl | .measure _, _, rfl
  | .entity _, _, rfl | .enum _, _, rfl => rfl

/-- Lists that are related one by one are so after related changes of the first elements of a
kind. -/
theorem forall₂_modifyFirst {α : Type _} {S : α → α → Prop} {p : α → Bool} {f g : α → α}
    (hp : ∀ {a b}, S a b → p a = p b) (hfg : ∀ {a b}, S a b → S (f a) (g b)) {l m : List α}
    (h : List.Forall₂ S l m) : List.Forall₂ S (modifyFirst p f l) (modifyFirst p g m) := by
  induction h with
  | nil => exact .nil
  | @cons a b l m hab hrest ih =>
    rw [modifyFirst, modifyFirst, hp hab]
    split
    · exact .cons (hfg hab) hrest
    · exact .cons hab ih

/-- Fields agree after related changes of the phrases at the end of a way. -/
theorem AgreeUpTo.modifyArgument {g h : Option PhraseSet → Option PhraseSet}
    (hgh : ∀ {s t}, R s t → R (g s) (h t)) (way : List String) {fields fields' : List Field}
    (hfields : AgreeUpTo R fields fields') :
    AgreeUpTo R
      (VocabularyCompiler.modifyArgument (fun f => { f with canonical := g f.canonical }) way
        fields)
      (VocabularyCompiler.modifyArgument (fun f => { f with canonical := h f.canonical }) way
        fields') := by
  induction way generalizing fields fields' with
  | nil => exact hfields
  | cons name rest ih =>
    rw [modifyArgument_cons, modifyArgument_cons, agreeUpTo_iff_forall₂]
    refine forall₂_modifyFirst ?_ ?_ (agreeUpTo_iff_forall₂.1 hfields)
    · rintro f _ ⟨type', canonical', rfl, -⟩
      rfl
    · rintro f _ ⟨type', canonical', rfl, htype, hcanonical⟩
      cases rest with
      | nil => exact ⟨type', h canonical', rfl, htype, hgh hcanonical⟩
      | cons next rest => exact ⟨_, canonical', rfl, htype.mapMembers ih, hcanonical⟩

/-! ## Queries and classes -/

/-- The query is the same, but for the phrases of its arguments, which `R` relates. -/
def Query.AgreeUpTo (R : Option PhraseSet → Option PhraseSet → Prop) (q q' : Query) : Prop :=
  ∃ fields, q' = { q with fields := fields } ∧ VocabularyCompiler.AgreeUpTo R q.fields fields

namespace Query.AgreeUpTo

variable {q q' q'' : Query}

/-- A query agrees with itself. -/
theorem refl (hR : ∀ s, R s s) (q : Query) : q.AgreeUpTo R q :=
  ⟨q.fields, rfl, VocabularyCompiler.AgreeUpTo.refl hR q.fields⟩

/-- Queries that agree with a third in turn agree with it. -/
theorem trans (hR : ∀ s t u, R s t → R t u → R s u) (h : q.AgreeUpTo R q')
    (h' : q'.AgreeUpTo R q'') : q.AgreeUpTo R q'' := by
  obtain ⟨fields, rfl, h⟩ := h
  obtain ⟨fields', rfl, h'⟩ := h'
  exact ⟨fields', rfl, VocabularyCompiler.AgreeUpTo.trans hR h h'⟩

/-- Queries agree after related changes of the phrases at a path. -/
theorem modifyPhrases {g h : Option PhraseSet → Option PhraseSet}
    (hgh : ∀ {s t}, R s t → R (g s) (h t)) (path : String) (hq : q.AgreeUpTo R q') :
    (q.modifyPhrases path g).AgreeUpTo R (q'.modifyPhrases path h) := by
  obtain ⟨fields, rfl, hfields⟩ := hq
  exact ⟨_, rfl, hfields.modifyArgument hgh (splitPath path)⟩

/-- A query agrees with what changes that keep to the relation make of its phrases. -/
theorem changePhrases {g : String → Option PhraseSet → Option PhraseSet} (hrefl : ∀ s, R s s)
    (htrans : ∀ s t u, R s t → R t u → R s u) (hg : ∀ path s, R s (g path s)) (q : Query)
    (paths : List String) : q.AgreeUpTo R (q.changePhrases paths g) := by
  unfold Query.changePhrases
  refine List.foldlRecOn paths _ (motive := fun q' => q.AgreeUpTo R q') (refl hrefl q) ?_
  intro q' hq' path _
  have hkept : q.modifyPhrases path (fun s => s) = q := Query.modifyPhrases_eq_self fun _ _ => rfl
  have hstep := hq'.modifyPhrases (fun {s t} h => htrans s t _ h (hg path t)) path
  rwa [hkept] at hstep

end Query.AgreeUpTo

/-- The class is the same, but for the phrases of arguments, which `R` relates. -/
def ClassDefinition.AgreeUpTo (R : Option PhraseSet → Option PhraseSet → Prop)
    (c c' : ClassDefinition) : Prop :=
  ∃ queries, c' = { c with queries := queries } ∧
    List.Forall₂ (fun e e' => e.1 = e'.1 ∧ e.2.AgreeUpTo R e'.2) c.queries.entries queries.entries

end VocabularyCompiler

import VocabularyCompiler.Proofs.ThingTalk.Legible
import VocabularyCompiler.ThingTalk.Printer

/-!
# Phrases and annotations are legible

The smaller parts of a printed class, as characters: phrases under their tags, the flags of a phrase
set, and the annotations of a field. Each can be told from what comes behind it. Annotations stand
on lines of their own, and any of them may be missing, so what is read is the list of those that are
there (`present`).
-/

namespace VocabularyCompiler

namespace ThingTalk

open Text

/-! ## Pieces as characters -/

/-- The characters of pieces. -/
def chars (pieces : List Piece) : List Char := pieces.flatMap fun p => p.render.toList

/-- The characters that end a line and indent the next one. -/
def newline (depth : Nat) : List Char := '\n' :: List.replicate (2 * depth) ' '

/-- Pieces as text have the characters of the pieces. -/
theorem toList_render (pieces : List Piece) : (render pieces).toList = chars pieces := by
  rw [render, String.toList_join, List.flatMap_map]
  rfl

theorem toList_render_line (depth : Nat) : (Piece.line depth).render.toList = newline depth := by
  have hindent : ∀ n, (indent n).toList = List.replicate (2 * n) ' ' := by
    intro n
    unfold indent
    rw [String.toList_join]
    induction n with
    | zero => rfl
    | succ n ih =>
      rw [List.replicate_succ, List.flatMap_cons, ih, Nat.mul_succ, Nat.add_comm,
        List.replicate_add]
      rfl
  rw [Piece.render, String.toList_append, hindent]
  rfl

@[simp]
theorem chars_nil : chars [] = [] := rfl

@[simp]
theorem chars_bare (s : String) (rest : List Piece) :
    chars (.bare s :: rest) = s.toList ++ chars rest := rfl

@[simp]
theorem chars_quoted (s : String) (rest : List Piece) :
    chars (.quoted s :: rest) = (jsonLiteral s).toList ++ chars rest := rfl

@[simp]
theorem chars_line (depth : Nat) (rest : List Piece) :
    chars (.line depth :: rest) = newline depth ++ chars rest := by
  rw [← toList_render_line]
  rfl

@[simp]
theorem chars_append (pieces rest : List Piece) :
    chars (pieces ++ rest) = chars pieces ++ chars rest := List.flatMap_append

/-- The next deeper line is indented more. -/
theorem newline_succ (depth : Nat) : newline (depth + 1) = newline depth ++ [' ', ' '] := by
  unfold newline
  rw [Nat.mul_succ, List.replicate_add]
  rfl

/-- Groups of pieces are separated as their characters are. -/
theorem chars_separated (separator : List Piece) (groups : List (List Piece)) :
    chars (separated separator groups) = writeSeparated (chars separator) chars groups := by
  fun_induction separated separator groups with
  | case1 => rfl
  | case2 g => rw [writeSeparated, List.flatMap_nil, List.append_nil]
  | case3 g rest hrest ih =>
    obtain ⟨h, rest, rfl⟩ := List.exists_cons_of_ne_nil hrest
    rw [chars_append, chars_append, ih, writeSeparated, writeSeparated, List.flatMap_cons]
    simp only [List.append_assoc]

/-- What is written for each part may be made of the part first. -/
theorem writeSeparated_map {α β : Type} (separator : List Char) (write : β → List Char) (f : α → β)
    (parts : List α) : writeSeparated separator write (parts.map f) =
      writeSeparated separator (fun a => write (f a)) parts := by
  cases parts with
  | nil => rfl
  | cons a rest => rw [List.map_cons, writeSeparated, writeSeparated, List.flatMap_map]

/-! ## Phrases -/

/-- Phrases are legible before the bracket that closes them. -/
theorem phrases_inj {phrases phrases' : List String} {s t : List Char}
    (heq : writeSeparated [','] (fun p => (jsonLiteral p).toList) phrases ++ ']' :: s =
      writeSeparated [','] (fun p => (jsonLiteral p).toList) phrases' ++ ']' :: t) :
    phrases = phrases' ∧ s = t := by
  have hlegible := Legible.separated [','] (fun s => ['"'] <+: s)
    (fun p (_ : p ∈ phrases) => legible_jsonLiteral p)
    (fun p _ s => ⟨_, by rw [jsonLiteral, String.toList_ofList]; rfl⟩) (fun _ _ => trivial)
  obtain ⟨hphrases, hrest⟩ := hlegible (fun _ _ => trivial) phrases' (fun _ _ => trivial) _ _
    ⟨trivial, by simp, by simp⟩ ⟨trivial, by simp, by simp⟩ heq
  rw [List.map_id, List.map_id] at hphrases
  exact ⟨hphrases, (List.cons.inj hrest).2⟩

/-- What stands for a tag and the phrases under it. -/
def tagChars (e : PhraseTag × List String) : List Char :=
  e.1.name.toList ++ "=[".toList ++
    (writeSeparated [','] (fun p => (jsonLiteral p).toList) e.2 ++ [']'])

/-- Tags with their phrases are legible, whatever comes behind them. -/
theorem legible_tagChars (e : PhraseTag × List String) :
    Legible tagChars id (fun _ => True) (fun _ => True) e := by
  have hname : ∀ tag : PhraseTag, (tag.name.toList.all fun c => decide (c ≠ '=')) = true := by
    intro tag
    cases tag <;> decide
  have hequals : ∀ s : List Char, ∀ c ∈ ("=[".toList ++ s).head?, decide (c ≠ '=') = false := by
    rintro s c ⟨⟩
    rfl
  intro _ f _ s t _ _ heq
  obtain ⟨tag, phrases⟩ := e
  obtain ⟨tag', phrases'⟩ := f
  unfold tagChars at heq
  simp only [List.append_assoc] at heq
  obtain ⟨htag, heq⟩ := append_inj_of_ends (hname tag) (hname tag') (hequals _) (hequals _) heq
  obtain ⟨hphrases, hrest⟩ := phrases_inj (List.append_cancel_left heq)
  rw [PhraseTag.name_injective (String.toList_injective htag), hphrases]
  exact ⟨rfl, hrest⟩

/-- What stands for the flags of a phrase set. -/
def flagChars (s : PhraseSet) : List Char :=
  (if s.apv then ",apv=true".toList else []) ++
    (if s.implicitIdentity then ",implicit_identity=true".toList else [])

/-- The characters of a phrase set. -/
theorem chars_phraseSet (s : PhraseSet) : chars (phraseSet s) =
    "\x7bdefault=".toList ++ ((jsonLiteral s.defaultTag.name).toList ++
      ((s.phrases.entries.flatMap fun e => [','] ++ tagChars e) ++ (flagChars s ++ ['\x7d']))) := by
  have htag : ∀ e : PhraseTag × List String, chars (.bare (e.1.name ++ "=[") ::
      separated [.bare ","] (e.2.map fun p => [.quoted p]) ++ [.bare "]"]) = tagChars e := by
    intro e
    rw [List.cons_append, chars_bare, chars_append, chars_separated, writeSeparated_map,
      String.toList_append]
    simp [tagChars]
  unfold phraseSet
  dsimp only
  rw [List.cons_append, chars_bare, chars_append, chars_separated, List.cons_append,
    List.cons_append, writeSeparated, List.flatMap_append, List.flatMap_append, List.flatMap_map]
  simp only [htag]
  unfold flagChars
  cases s.apv <;> cases s.implicitIdentity <;> simp

/-- The text begins with a tag among the parts of a phrase set. -/
def StartsTag (s : List Char) : Prop := ∃ tag : PhraseTag, ',' :: tag.name.toList ++ ['='] <+: s

/-- Flags are no tags. -/
theorem not_startsTag_flagChars (s : PhraseSet) (t : List Char) :
    ¬StartsTag (flagChars s ++ '\x7d' :: t) := by
  unfold StartsTag flagChars
  rw [not_exists]
  intro tag
  cases tag <;> cases s.apv <;> cases s.implicitIdentity <;> simp [PhraseTag.name]

/-- Phrase sets are legible, whatever comes behind them. -/
theorem legible_phraseSet (s : PhraseSet) :
    Legible (fun s => chars (phraseSet s)) id (fun _ => True) (fun _ => True) s := by
  intro _ s' _ t t' _ _ heq
  dsimp only at heq
  rw [chars_phraseSet, chars_phraseSet] at heq
  simp only [List.append_assoc, List.append_cancel_left_eq] at heq
  obtain ⟨hdefault, heq⟩ := jsonLiteral_inj heq
  -- Tags and flags both come after a comma, so tags end where a comma has no tag behind it.
  obtain ⟨hentries, heq⟩ := Legible.flatMap StartsTag
    (fun e (_ : e ∈ s.phrases.entries) => (legible_tagChars e).append_left [','])
    (fun e _ t => ⟨e.1, by simp [tagChars]⟩) (fun _ _ => trivial) (fun _ _ => trivial)
    s'.phrases.entries (fun _ _ => trivial) _ _ ⟨trivial, not_startsTag_flagChars s t⟩
    ⟨trivial, not_startsTag_flagChars s' t'⟩ heq
  rw [List.map_id, List.map_id] at hentries
  obtain ⟨defaultTag, phrases, apv, implicitIdentity⟩ := s
  obtain ⟨defaultTag', phrases', apv', implicitIdentity'⟩ := s'
  obtain rfl := PhraseTag.name_injective hdefault
  obtain rfl := OrderedMap.ext hentries
  unfold flagChars at heq
  cases apv <;> cases apv' <;> cases implicitIdentity <;> cases implicitIdentity' <;>
    simp at heq <;> exact ⟨rfl, heq⟩

/-! ## Annotations -/

/-- The annotations that are there, each with its key. -/
def present (a : Annotations) : List (String × Piece) :=
  (a.orgSchemaType.map fun s => ("org_schema_type", Piece.quoted s)).toList ++
    (a.unique.map fun b => ("unique", truth b)).toList ++
    (a.filterable.map fun b => ("filterable", truth b)).toList ++
    (a.drop.map fun b => ("drop", truth b)).toList ++
    (a.stringValues.map fun s => ("string_values", Piece.quoted s)).toList

/-- What is printed are the annotations that are there. -/
theorem annotations_eq (depth : Nat) (a : Annotations) :
    annotations depth a = (present a).flatMap fun e => annotation depth e.1 e.2 := by
  obtain ⟨orgSchemaType, unique, filterable, drop, stringValues⟩ := a
  cases orgSchemaType <;> cases unique <;> cases filterable <;> cases drop <;>
    cases stringValues <;> rfl

/-- What an annotation may say: a text or a truth value. -/
def IsValue (p : Piece) : Prop := (∃ s, p = .quoted s) ∨ ∃ b, p = truth b

/-- No two truth values are printed alike. -/
theorem truth_injective : Function.Injective truth := by
  intro b c h
  cases b <;> cases c <;> first | rfl | exact absurd h (by decide)

/-- Values are legible, whatever comes behind them. -/
theorem legible_value (p : Piece) :
    Legible (fun p => p.render.toList) id IsValue (fun _ => True) p := by
  -- A text begins with a quote, and a truth value does not.
  have hquote : ∀ (r : String) (b : Bool) (s t : List Char),
      (jsonLiteral r).toList ++ s ≠ (truth b).render.toList ++ t := by
    intro r b s t
    rw [jsonLiteral, String.toList_ofList]
    cases b <;> simp [truth, Piece.render, jsonLiteralChars]
  rintro (⟨r, rfl⟩ | ⟨b, rfl⟩) p' (⟨r', rfl⟩ | ⟨b', rfl⟩) s t - - heq
  · obtain ⟨htext, heq⟩ := jsonLiteral_inj heq
    exact ⟨congrArg Piece.quoted htext, heq⟩
  · exact absurd heq (hquote r b' s t)
  · exact absurd heq.symm (hquote r' b t s)
  · cases b <;> cases b' <;> simp [truth, Piece.render] at heq <;> exact ⟨rfl, heq⟩

/-- The key of an annotation ends at its equals sign, and its value is one. -/
structure WellKeyed (e : String × Piece) : Prop where
  key : (e.1.toList.all fun c => decide (c ≠ '=')) = true
  value : IsValue e.2

/-- The annotations that are there are such. -/
theorem wellKeyed_of_mem_present {a : Annotations} {e : String × Piece} (he : e ∈ present a) :
    WellKeyed e := by
  unfold present at he
  simp only [List.mem_append, Option.mem_toList, Option.map_eq_some_iff] at he
  have hkey : ∀ key ∈ ["org_schema_type", "unique", "filterable", "drop", "string_values"],
      (key.toList.all fun c => decide (c ≠ '=')) = true := by decide
  rcases he with (((⟨v, -, rfl⟩ | ⟨v, -, rfl⟩) | ⟨v, -, rfl⟩) | ⟨v, -, rfl⟩) | ⟨v, -, rfl⟩
  · exact ⟨hkey _ (by simp), Or.inl ⟨v, rfl⟩⟩
  · exact ⟨hkey _ (by simp), Or.inr ⟨v, rfl⟩⟩
  · exact ⟨hkey _ (by simp), Or.inr ⟨v, rfl⟩⟩
  · exact ⟨hkey _ (by simp), Or.inr ⟨v, rfl⟩⟩
  · exact ⟨hkey _ (by simp), Or.inl ⟨v, rfl⟩⟩

/-- The annotations that are there are found under their keys. -/
theorem lookup_present (a : Annotations) :
    (present a).lookup "org_schema_type" = a.orgSchemaType.map .quoted ∧
    (present a).lookup "unique" = a.unique.map truth ∧
    (present a).lookup "filterable" = a.filterable.map truth ∧
    (present a).lookup "drop" = a.drop.map truth ∧
    (present a).lookup "string_values" = a.stringValues.map .quoted := by
  obtain ⟨orgSchemaType, unique, filterable, drop, stringValues⟩ := a
  cases orgSchemaType <;> cases unique <;> cases filterable <;> cases drop <;>
    cases stringValues <;> simp [present, List.lookup_cons]

/-- Annotations are those that are there. -/
theorem present_injective : Function.Injective present := by
  intro a b h
  have hquoted : Function.Injective Piece.quoted := fun _ _ h => Piece.quoted.inj h
  obtain ⟨ha₁, ha₂, ha₃, ha₄, ha₅⟩ := lookup_present a
  obtain ⟨hb₁, hb₂, hb₃, hb₄, hb₅⟩ := lookup_present b
  rw [h] at ha₁ ha₂ ha₃ ha₄ ha₅
  obtain ⟨o, u, f, d, s⟩ := a
  obtain rfl := Option.map_injective hquoted (ha₁.symm.trans hb₁)
  obtain rfl := Option.map_injective truth_injective (ha₂.symm.trans hb₂)
  obtain rfl := Option.map_injective truth_injective (ha₃.symm.trans hb₃)
  obtain rfl := Option.map_injective truth_injective (ha₄.symm.trans hb₄)
  obtain rfl := Option.map_injective hquoted (ha₅.symm.trans hb₅)
  rfl

/-- The characters of an annotation, from its line break on. -/
def annotationChars (depth : Nat) (e : String × Piece) : List Char :=
  newline depth ++ ("#[".toList ++ (e.1.toList ++ ('=' :: (e.2.render.toList ++ [']']))))

/-- The characters of annotations. -/
theorem chars_annotations (depth : Nat) (a : Annotations) :
    chars (annotations depth a) = (present a).flatMap (annotationChars depth) := by
  have hline : ∀ e : String × Piece,
      chars ( annotation depth e.1 e.2) = annotationChars depth e := by
    intro e
    have hvalue : ∀ rest, chars (e.2 :: rest) = e.2.render.toList ++ chars rest := fun _ => rfl
    unfold annotation annotationChars
    rw [chars_line, chars_bare, hvalue]
    simp
  rw [annotations_eq, ← funext hline]
  exact List.flatMap_assoc

/-- Annotations are legible, whatever comes behind them. -/
theorem legible_annotationChars (depth : Nat) (e : String × Piece) :
    Legible (annotationChars depth) id WellKeyed (fun _ => True) e := by
  intro he e' he' s t _ _ heq
  unfold annotationChars at heq
  simp only [List.append_assoc, List.append_cancel_left_eq, List.cons_append] at heq
  obtain ⟨hkey, heq⟩ := append_inj_of_ends he.key he'.key
    (fun c hc => by cases hc; rfl) (fun c hc => by cases hc; rfl) heq
  obtain ⟨hvalue, heq⟩ := (legible_value _).inj he.value he'.value (List.cons.inj heq).2
  exact ⟨Prod.ext (String.toList_injective hkey) hvalue, (List.cons.inj heq).2⟩

/-! ## What follows the type of a field -/

/-- No more annotations of a field follow. -/
def PastAnnotations (depth : Nat) (s : List Char) : Prop := ¬newline depth ++ ['#'] <+: s

/-- Annotations and phrases both are annotations. -/
theorem PastAnnotations.not_prefix {depth : Nat} {s : List Char} (hs : PastAnnotations depth s)
    (c : Char) : ¬newline depth ++ ['#', c] <+: s := by
  intro hprefix
  refine hs (List.IsPrefix.trans ?_ hprefix)
  exact ⟨[c], by simp⟩

/-- The annotations of a field are legible, if no more come behind them. -/
theorem legible_present (depth : Nat) (a : Annotations) :
    Legible (fun a => (present a).flatMap (annotationChars depth)) id (fun _ => True)
      (PastAnnotations depth) a := by
  intro _ b _ s t hs ht heq
  obtain ⟨hpresent, heq⟩ := Legible.flatMap (fun s => newline depth ++ ['#', '['] <+: s)
    (fun e (_ : e ∈ present a) => legible_annotationChars depth e)
    (fun e _ s => by simp [annotationChars]) (fun _ _ => trivial)
    (fun _ he => wellKeyed_of_mem_present he) (present b)
    (fun _ he => wellKeyed_of_mem_present he) s t ⟨trivial, hs.not_prefix '['⟩
    ⟨trivial, ht.not_prefix '['⟩ heq
  rw [List.map_id, List.map_id] at hpresent
  exact ⟨present_injective hpresent, heq⟩

/-- The characters of the phrases of a field, from their line break on. -/
def canonicalChars (depth : Nat) (s : PhraseSet) : List Char :=
  newline depth ++ "#_[canonical=".toList ++ (chars (phraseSet s) ++ [']'])

/-- The phrases of a field are legible, whatever comes behind them. -/
theorem legible_canonicalChars (depth : Nat) (s : PhraseSet) :
    Legible (canonicalChars depth) id (fun _ => True) (fun _ => True) s := by
  refine Legible.append_left ?_ (newline depth ++ "#_[canonical=".toList)
  intro _ s' _ t t' _ _ heq
  rw [List.append_assoc, List.append_assoc] at heq
  obtain ⟨hphrases, heq⟩ := (legible_phraseSet s).inj trivial trivial heq
  exact ⟨hphrases, List.append_cancel_left heq⟩

/-- The characters of what follows the type of a field. -/
theorem chars_fieldTail (depth : Nat) (canonical : Option PhraseSet) (a : Annotations) :
    chars (fieldTail depth canonical a) =
      canonical.toList.flatMap (canonicalChars depth) ++
        (present a).flatMap (annotationChars depth) := by
  unfold fieldTail
  rw [chars_append, chars_annotations]
  cases canonical <;> simp [canonicalChars]

/-- What follows the type of a field is legible, if no more annotations come behind it. -/
theorem legible_fieldTail (depth : Nat) (e : Option PhraseSet × Annotations) :
    Legible (fun e : Option PhraseSet × Annotations => chars (fieldTail depth e.1 e.2)) id
      (fun _ => True) (PastAnnotations depth) e := by
  -- Annotations are no phrases, and neither is what comes behind them.
  have hnot : ∀ (a : Annotations) (s : List Char), PastAnnotations depth s →
      ¬newline depth ++ ['#', '_'] <+: (present a).flatMap (annotationChars depth) ++ s := by
    intro a s hs
    cases present a with
    | nil => exact hs.not_prefix '_'
    | cons e rest =>
      rw [List.flatMap_cons, annotationChars, List.append_assoc, List.append_assoc,
        List.prefix_append_right_inj]
      simp
  intro _ e' _ s t hs ht heq
  dsimp only at heq
  rw [chars_fieldTail, chars_fieldTail, List.append_assoc, List.append_assoc] at heq
  obtain ⟨hcanonical, heq⟩ := Legible.flatMap (fun s => newline depth ++ ['#', '_'] <+: s)
    (fun set (_ : set ∈ e.1.toList) => legible_canonicalChars depth set)
    (fun set _ s => by simp [canonicalChars]) (fun _ _ => trivial) (fun _ _ => trivial) e'.1.toList
    (fun _ _ => trivial) _ _ ⟨trivial, hnot e.2 s hs⟩ ⟨trivial, hnot e'.2 t ht⟩ heq
  obtain ⟨hannotations, heq⟩ := legible_present depth e.2 trivial e'.2 trivial s t hs ht heq
  rw [List.map_id, List.map_id] at hcanonical
  have hphrases := congrArg List.head? hcanonical
  rw [Option.head?_toList, Option.head?_toList] at hphrases
  exact ⟨Prod.ext hphrases hannotations, heq⟩

end ThingTalk

end VocabularyCompiler

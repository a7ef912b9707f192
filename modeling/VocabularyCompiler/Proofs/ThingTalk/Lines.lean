import Mathlib.Data.List.Forall2
import VocabularyCompiler.Proofs.ThingTalk.UniqueReading
import VocabularyCompiler.Text.Words

/-!
# Quoted texts stay on their lines

Where the literals are erased, the lines of a printed class tell nothing of the texts that are
quoted in it (`lines_toThingTalk_alike`): whatever characters a phrase, a description or the key of
a dataset holds, no line begins or ends with it, and none is indented otherwise. The class is
compared with itself without quoted texts (`unquoted`). A line with quoted texts holds no names, so
a quotation mark in a name opens a literal on its own line at most, and the line break behind it is
what makes the parts of a class independent of each other (`Alike`). Between the quoted texts of one
line nothing is quoted (`AlikeInLine`).
-/

namespace VocabularyCompiler

open Text

/-! ## Erasing literals -/

/-- A line without its literals. `opened` is what was read behind a quotation mark, the last
character first: it is part of a literal if the mark that closes it follows, and stands for itself
if the line ends first. -/
def eraseFrom : Option (List Char) → List Char → List Char
  | none, [] => []
  | some opened, [] => opened.reverse
  | none, c :: rest => if c = '"' then eraseFrom (some ['"']) rest else c :: eraseFrom none rest
  | some opened, '\\' :: c :: rest => eraseFrom (some (c :: '\\' :: opened)) rest
  | some opened, c :: rest =>
    if c = '"' then eraseFrom none rest else eraseFrom (some (c :: opened)) rest

/-- A line without its literals. -/
def eraseLiterals (line : List Char) : List Char := eraseFrom none line

/-- The lines of a text, without their literals. -/
def erasedLines (s : List Char) : List (List Char) :=
  (splitWhere (· = '\n') s).map eraseLiterals

/-- Text without quotation marks stays. -/
theorem eraseLiterals_append_of_notMem {w : List Char} (h : '"' ∉ w) (rest : List Char) :
    eraseLiterals (w ++ rest) = w ++ eraseLiterals rest := by
  unfold eraseLiterals
  induction w with
  | nil => rfl
  | cons c w ih =>
    rw [List.mem_cons, not_or] at h
    rw [List.cons_append, eraseFrom, if_neg (Ne.symm h.1), ih h.2]
    rfl

/-- What a character is escaped with is a backslash, any character, and nothing that is special
inside a literal. -/
theorem exists_escapeJson_eq {c : Char} (hc : c ∈ escaped) : ∃ d rest,
    escapeJson c = '\\' :: d :: rest ∧ ∀ e ∈ rest, e ≠ '"' ∧ e ≠ '\\' := by
  have hall : (escaped.all fun c =>
      escapeJson c = '\\' :: (escapeJson c).tail.headD 'u' :: (escapeJson c).drop 2 &&
        ((escapeJson c).drop 2).all fun e => e ≠ '"' ∧ e ≠ '\\') = true := by decide
  obtain ⟨heq, hrest⟩ := Bool.and_eq_true_iff.1 (List.all_eq_true.1 hall c hc)
  exact ⟨_, _, of_decide_eq_true heq,
    fun e he => of_decide_eq_true (List.all_eq_true.1 hrest e he)⟩

/-- The mark that no backslash stands before closes a literal. -/
theorem eraseFrom_some_quote (opened rest : List Char) :
    eraseFrom (some opened) ('"' :: rest) = eraseFrom none rest := by
  simp [eraseFrom]

/-- A character that is not special is part of the literal. -/
theorem eraseFrom_some_cons {c : Char} (hquote : c ≠ '"') (hbackslash : c ≠ '\\')
    (opened rest : List Char) :
    eraseFrom (some opened) (c :: rest) = eraseFrom (some (c :: opened)) rest := by
  rw [eraseFrom.eq_def]
  split <;> simp_all

/-- Inside a literal nothing that is not special leads out of it. -/
theorem exists_eraseFrom_append {w : List Char} (h : ∀ e ∈ w, e ≠ '"' ∧ e ≠ '\\')
    (opened : List Char) :
    ∃ opened', ∀ rest, eraseFrom (some opened) (w ++ rest) = eraseFrom (some opened') rest := by
  induction w generalizing opened with
  | nil => exact ⟨opened, fun _ => rfl⟩
  | cons c w ih =>
    obtain ⟨⟨hquote, hbackslash⟩, hw⟩ := List.forall_mem_cons.1 h
    obtain ⟨opened', heq⟩ := ih hw (c :: opened)
    exact ⟨opened', fun rest =>
      (eraseFrom_some_cons hquote hbackslash opened (w ++ rest)).trans (heq rest)⟩

/-- An escaped character does not lead out of a literal. -/
theorem exists_eraseFrom_escapeJson (c : Char) (opened : List Char) : ∃ opened', ∀ rest,
    eraseFrom (some opened) (escapeJson c ++ rest) = eraseFrom (some opened') rest := by
  by_cases hc : c ∈ escaped
  · obtain ⟨d, w, heq, hw⟩ := exists_escapeJson_eq hc
    obtain ⟨opened', herase⟩ := exists_eraseFrom_append hw (d :: '\\' :: opened)
    refine ⟨opened', fun rest => ?_⟩
    rw [heq, List.cons_append, List.cons_append, eraseFrom, herase]
  · have hne : ∀ d ∈ escaped, c ≠ d := fun d hd hcd => hc (hcd ▸ hd)
    rw [escapeJson_of_notMem hc]
    exact exists_eraseFrom_append
      (List.forall_mem_singleton.2 ⟨hne _ (by decide), hne _ (by decide)⟩) opened

/-- A literal is erased, whatever it quotes. -/
theorem eraseLiterals_jsonLiteral (s : String) (rest : List Char) :
    eraseLiterals ((jsonLiteral s).toList ++ rest) = eraseLiterals rest := by
  have hinside : ∀ (s opened : List Char), eraseFrom (some opened)
      (s.flatMap escapeJson ++ ('"' :: rest)) = eraseFrom none rest := by
    intro s
    -- What was read behind the mark grows with each character and is gone when the literal ends.
    induction s with
    | nil => exact fun opened => eraseFrom_some_quote opened rest
    | cons c s ih =>
      intro opened
      obtain ⟨opened', herase⟩ := exists_eraseFrom_escapeJson c opened
      rw [List.flatMap_cons, List.append_assoc, herase, ih]
  rw [jsonLiteral, String.toList_ofList, jsonLiteralChars, List.cons_append, List.append_assoc]
  exact hinside s.toList ['"']

/-! ## Lines -/

/-- A line break ends a line whatever stands before it. -/
theorem erasedLines_append_newline (s rest : List Char) :
    erasedLines (s ++ '\n' :: rest) = erasedLines s ++ erasedLines rest := by
  unfold erasedLines
  simp only [splitWhere_eq_splitOnP]
  rw [List.splitOnP_append_cons _ _ (by decide), List.map_append]

/-- What holds no line break stands on the first line, before what follows. -/
theorem splitWhere_append_of_notMem {w : List Char} (h : '\n' ∉ w) (rest : List Char) :
    ∃ line lines, splitWhere (· = '\n') rest = line :: lines ∧
      splitWhere (· = '\n') (w ++ rest) = (w ++ line) :: lines := by
  obtain ⟨line, lines, hrest⟩ := List.exists_cons_of_ne_nil
    (splitWhere_eq_splitOnP (· = '\n') rest ▸ List.splitOnP_ne_nil _ rest)
  refine ⟨line, lines, hrest, ?_⟩
  induction w with
  | nil => exact hrest
  | cons c w ih =>
    rw [List.mem_cons, not_or] at h
    rw [List.cons_append, splitWhere, if_neg (by simpa using Ne.symm h.1), ih h.2]
    rfl

/-- A literal holds no line break: it is escaped. -/
theorem newline_notMem_jsonLiteral (s : String) : '\n' ∉ (jsonLiteral s).toList := by
  have hescape : ∀ c, '\n' ∉ escapeJson c := by
    intro c
    by_cases hc : c ∈ escaped
    · have hall : (escaped.all fun c => decide ('\n' ∉ escapeJson c)) = true := by decide
      exact of_decide_eq_true (List.all_eq_true.1 hall c hc)
    · rw [escapeJson_of_notMem hc, List.mem_singleton]
      rintro rfl
      exact hc (by decide)
  rw [jsonLiteral, String.toList_ofList, jsonLiteralChars, List.mem_cons, List.mem_append,
    List.mem_flatMap]
  rintro (h | ⟨c, -, hc⟩ | h)
  · exact absurd h (by decide)
  · exact hescape c hc
  · exact absurd h (by decide)

namespace ThingTalk

/-! ## Parts that may stand for each other -/

/-- Two texts may stand for each other in a line, outside of literals. -/
def AlikeInLine (s t : List Char) : Prop :=
  ∀ rest rest', erasedLines rest = erasedLines rest' →
    erasedLines (s ++ rest) = erasedLines (t ++ rest')

/-- Two texts may stand for each other anywhere. -/
def Alike (s t : List Char) : Prop :=
  ∀ start rest, erasedLines (start ++ s ++ rest) = erasedLines (start ++ t ++ rest)

/-- Parts may be exchanged one by one. -/
structure Exchangeable (R : List Char → List Char → Prop) : Prop where
  nil : R [] []
  append : ∀ {s t s' t'}, R s t → R s' t' → R (s ++ s') (t ++ t')

namespace Exchangeable

variable {R : List Char → List Char → Prop} {α : Type} {write write' : α → List Char}
  {separator : List Char} {parts : List α}

/-- What is written for each element may be exchanged. -/
theorem flatMap (hR : Exchangeable R) (h : ∀ a ∈ parts, R (write a) (write' a)) :
    R (parts.flatMap write) (parts.flatMap write') := by
  induction parts with
  | nil => exact hR.nil
  | cons a rest ih =>
    obtain ⟨ha, hrest⟩ := List.forall_mem_cons.1 h
    rw [List.flatMap_cons, List.flatMap_cons]
    exact hR.append ha (ih hrest)

/-- What stands between separators may be exchanged. -/
theorem writeSeparated (hR : Exchangeable R) (hseparator : R separator separator)
    (h : ∀ a ∈ parts, R (write a) (write' a)) :
    R (writeSeparated separator write parts) (writeSeparated separator write' parts) := by
  cases parts with
  | nil => exact hR.nil
  | cons a rest =>
    obtain ⟨ha, hrest⟩ := List.forall_mem_cons.1 h
    exact hR.append ha (hR.flatMap fun b hb => hR.append hseparator (hrest b hb))

end Exchangeable

/-- The parts of a line may be exchanged one by one. -/
theorem exchangeable_alikeInLine : Exchangeable AlikeInLine where
  nil _ _ h := h
  append h h' rest rest' hrest := by
    rw [List.append_assoc, List.append_assoc]
    exact h _ _ (h' rest rest' hrest)

namespace AlikeInLine

/-- Bare text is itself. -/
theorem bare {w : List Char} (h : '"' ∉ w ∧ '\n' ∉ w) : AlikeInLine w w := by
  intro rest rest' hrest
  obtain ⟨line, lines, hsplit, heq⟩ := splitWhere_append_of_notMem h.2 rest
  obtain ⟨line', lines', hsplit', heq'⟩ := splitWhere_append_of_notMem h.2 rest'
  unfold erasedLines at hrest ⊢
  rw [hsplit, hsplit', List.map_cons, List.map_cons, List.cons.injEq] at hrest
  rw [heq, heq', List.map_cons, List.map_cons, eraseLiterals_append_of_notMem h.1,
    eraseLiterals_append_of_notMem h.1, hrest.1, hrest.2]

/-- One literal may stand for another. -/
theorem literal (a b : String) : AlikeInLine (jsonLiteral a).toList (jsonLiteral b).toList := by
  have herase : ∀ (a : String) (rest : List Char),
      erasedLines ((jsonLiteral a).toList ++ rest) = erasedLines rest := by
    intro a rest
    obtain ⟨line, lines, hsplit, heq⟩ :=
      splitWhere_append_of_notMem (newline_notMem_jsonLiteral a) rest
    unfold erasedLines
    rw [hsplit, heq, List.map_cons, List.map_cons, eraseLiterals_jsonLiteral]
  intro rest rest' hrest
  rw [herase, herase, hrest]

/-- Behind a line break it makes no difference what stands before it. -/
theorem behind_newline {s t : List Char} (h : AlikeInLine s t) (depth : Nat) :
    Alike (newline depth ++ s) (newline depth ++ t) := by
  have hindent : AlikeInLine (List.replicate (2 * depth) ' ') (List.replicate (2 * depth) ' ') :=
    bare (by simp [List.mem_replicate])
  intro start rest
  rw [newline, List.cons_append, List.cons_append, List.append_assoc, List.append_assoc,
    List.cons_append, List.cons_append, erasedLines_append_newline, erasedLines_append_newline,
    exchangeable_alikeInLine.append hindent h rest rest rfl]

end AlikeInLine

namespace Alike

/-- A part may stand for itself. -/
theorem refl (s : List Char) : Alike s s := fun _ _ => rfl

/-- The parts of a text may be exchanged one by one. -/
theorem append {s t s' t' : List Char} (h : Alike s t) (h' : Alike s' t') :
    Alike (s ++ s') (t ++ t') := by
  intro start rest
  have hfirst := h start (s' ++ rest)
  have hsecond := h' (start ++ t) rest
  simp only [List.append_assoc] at hfirst hsecond ⊢
  exact hfirst.trans hsecond

end Alike

/-- The parts of a text may be exchanged one by one. -/
theorem exchangeable_alike : Exchangeable Alike := ⟨Alike.refl [], Alike.append⟩

/-- A line that begins with bare text may go on with one literal or another. -/
theorem Alike.quotedLine {w : List Char} (hw : '"' ∉ w ∧ '\n' ∉ w) (depth : Nat) (a b : String)
    {s t : List Char} (h : Alike s t) :
    Alike (newline depth ++ (w ++ ((jsonLiteral a).toList ++ s)))
      (newline depth ++ (w ++ ((jsonLiteral b).toList ++ t))) := by
  have hline := AlikeInLine.behind_newline
    (exchangeable_alikeInLine.append (AlikeInLine.bare hw) (AlikeInLine.literal a b)) depth
  have hwhole := hline.append h
  simp only [List.append_assoc] at hwhole
  exact hwhole

end ThingTalk

/-! ## Classes without quoted texts -/

/-- Phrases with nothing in them. -/
def PhraseSet.unquoted (s : PhraseSet) : PhraseSet :=
  { s with phrases := s.phrases.mapWithKey fun _ phrases => phrases.map fun _ => "" }

/-- Annotations with nothing in their texts. -/
def Annotations.unquoted (a : Annotations) : Annotations :=
  { a with
    orgSchemaType := a.orgSchemaType.map fun _ => ""
    stringValues := a.stringValues.map fun _ => "" }

mutual

/-- A type with nothing in the texts of its members. -/
def ValueType.unquoted : ValueType → ValueType
  | .array t => .array t.unquoted
  | .compound name fields => .compound name (unquotedFields fields)
  | t => t
termination_by structural t => t

/-- Fields with nothing in their texts. -/
def unquotedFields : List Field → List Field
  | [] => []
  | ⟨name, type, canonical, annotations⟩ :: rest =>
    ⟨name, type.unquoted, canonical.map PhraseSet.unquoted, annotations.unquoted⟩
      :: unquotedFields rest
termination_by structural fields => fields

end

/-- A field with nothing in its texts. -/
def Field.unquoted (f : Field) : Field :=
  ⟨f.name, f.type.unquoted, f.canonical.map PhraseSet.unquoted, f.annotations.unquoted⟩

/-- A query with nothing in its texts. -/
def Query.unquoted (q : Query) : Query :=
  { q with canonical := "", confirmation := "", fields := unquotedFields q.fields }

/-- A class with nothing in the texts that are printed between quotes. -/
def ClassDefinition.unquoted (c : ClassDefinition) : ClassDefinition :=
  { c with
    name := ""
    description := ""
    queries := c.queries.mapWithKey fun _ q => q.unquoted }

/-- Fields with nothing in their texts are each without them. -/
theorem unquotedFields_eq_map (fields : List Field) :
    unquotedFields fields = fields.map Field.unquoted := by
  induction fields with
  | nil => rfl
  | cons f rest ih =>
    obtain ⟨name, type, canonical, annotations⟩ := f
    rw [unquotedFields, ih]
    rfl

namespace ThingTalk

/-! ## From phrases up to classes -/

/-- In the line of a phrase set it makes no difference what the phrases are. -/
theorem alikeInLine_phraseSet (s : PhraseSet) :
    AlikeInLine (chars (phraseSet s)) (chars (phraseSet s.unquoted)) := by
  have htag : ∀ e : PhraseTag × List String,
      AlikeInLine (tagChars e) (tagChars (e.1, e.2.map fun _ => "")) := by
    intro e
    have hname : '"' ∉ e.1.name.toList ∧ '\n' ∉ e.1.name.toList := by
      cases e.1 <;> decide
    unfold tagChars
    rw [writeSeparated_map]
    refine exchangeable_alikeInLine.append (exchangeable_alikeInLine.append (.bare hname)
      (.bare (by decide))) (exchangeable_alikeInLine.append ?_ (.bare (by decide)))
    exact exchangeable_alikeInLine.writeSeparated (.bare (by decide))
      fun p _ => AlikeInLine.literal p ""
  have hflags : '"' ∉ flagChars s ∧ '\n' ∉ flagChars s := by
    unfold flagChars
    cases s.apv <;> cases s.implicitIdentity <;> decide
  rw [chars_phraseSet, chars_phraseSet]
  refine exchangeable_alikeInLine.append (.bare (by decide)) (exchangeable_alikeInLine.append
    (.literal _ _) (exchangeable_alikeInLine.append ?_
      (exchangeable_alikeInLine.append (.bare hflags) (.bare (by decide)))))
  unfold PhraseSet.unquoted OrderedMap.mapWithKey
  rw [List.flatMap_map]
  exact exchangeable_alikeInLine.flatMap fun e _ =>
    exchangeable_alikeInLine.append (.bare (by decide)) (htag e)

/-- It makes no difference what the texts of annotations are. -/
theorem alike_annotations (depth : Nat) (a : Annotations) :
    Alike (chars (annotations depth a)) (chars (annotations depth a.unquoted)) := by
  have htext : ∀ (key : String) (v : Option String), '"' ∉ key.toList ∧ '\n' ∉ key.toList →
      Alike ((v.map fun s => (key, Piece.quoted s)).toList.flatMap (annotationChars depth))
        (((v.map fun _ => "").map fun s => (key, Piece.quoted s)).toList.flatMap
          (annotationChars depth)) := by
    intro key v hkey
    cases v with
    | none => exact Alike.refl []
    | some s =>
      have hline := Alike.quotedLine (w := "#[".toList ++ (key.toList ++ ['=']))
        (by simpa using hkey) depth s "" (Alike.refl [']'])
      simpa [annotationChars, Piece.render] using hline
  rw [chars_annotations, chars_annotations]
  unfold present
  simp only [List.flatMap_append]
  exact (((htext _ _ (by decide)).append (.refl _)).append (.refl _)).append (.refl _)
    |>.append (htext _ _ (by decide))

/-- It makes no difference what the texts behind the type of a field are. -/
theorem alike_fieldTail (depth : Nat) (canonical : Option PhraseSet) (a : Annotations) :
    Alike (chars (fieldTail depth canonical a))
      (chars (fieldTail depth (canonical.map PhraseSet.unquoted) a.unquoted)) := by
  unfold fieldTail
  rw [chars_append, chars_append]
  refine Alike.append ?_ (alike_annotations depth a)
  cases canonical with
  | none => exact .refl []
  | some s =>
    have hline := AlikeInLine.behind_newline (exchangeable_alikeInLine.append
      (.bare (w := "#_[canonical=".toList) (by decide))
      (exchangeable_alikeInLine.append (alikeInLine_phraseSet s)
        (.bare (w := [']']) (by decide)))) depth
    simpa using hline

/-- It makes no difference what the texts in a field are, if it makes none in its type. -/
theorem alike_fieldChars {depth : Nat} {f : Field}
    (htype : Alike (chars (valueType depth f.type)) (chars (valueType depth f.type.unquoted))) :
    Alike (fieldChars depth f) (fieldChars depth f.unquoted) :=
  (Alike.refl _).append
    ((Alike.refl [' ']).append (htype.append (alike_fieldTail depth f.canonical f.annotations)))

mutual

/-- It makes no difference what the texts in a type are. -/
theorem alike_valueType : ∀ (t : ValueType) (depth : Nat),
    Alike (chars (valueType depth t)) (chars (valueType depth t.unquoted))
  | .array t, depth => by
    rw [ValueType.unquoted, chars_valueType, chars_valueType]
    exact (Alike.refl _).append ((alike_valueType t depth).append (.refl _))
  | .compound _ fields, depth => by
    rw [ValueType.unquoted, chars_valueType, chars_valueType, bodyChars, bodyChars,
      unquotedFields_eq_map, writeSeparated_map]
    refine (Alike.refl _).append (Alike.append ?_ (.refl _))
    exact exchangeable_alike.writeSeparated (.refl _) fun f hf =>
      (Alike.refl _).append (alike_fieldChars (alike_types fields f hf (depth + 1)))
  | .any, _ | .boolean, _ | .number, _ | .string, _ | .date, _ | .time, _ | .location, _
  | .currency, _ | .measure _, _ | .entity _, _ | .enum _, _ => .refl _
termination_by structural t => t

/-- It makes no difference what the texts in the types of fields are. -/
theorem alike_types : ∀ (fields : List Field), ∀ f ∈ fields, ∀ depth,
    Alike (chars (valueType depth f.type)) (chars (valueType depth f.type.unquoted))
  | [], _, hf, _ => absurd hf List.not_mem_nil
  | ⟨_, type, _, _⟩ :: rest, f, hf, depth => by
    obtain rfl | hrest := List.mem_cons.1 hf
    · exact alike_valueType type depth
    · exact alike_types rest f hrest depth
termination_by structural fields => fields

end

/-- It makes no difference what the texts in a query are. -/
theorem alike_query (q : Query) : Alike (chars (query q)) (chars (query q.unquoted)) := by
  rw [chars_query, chars_query]
  unfold Query.unquoted
  dsimp only
  rw [unquotedFields_eq_map, writeSeparated_map]
  refine (Alike.refl _).append ((Alike.refl _).append (Alike.append ?_ ((Alike.refl _).append
    ((Alike.refl _).append (Alike.quotedLine (by decide) 1 _ _ ((Alike.refl _).append
      (Alike.quotedLine (by decide) 1 _ _ (.refl _))))))))
  exact exchangeable_alike.writeSeparated (.refl _) fun f _ =>
    (Alike.refl _).append (alike_fieldChars (alike_valueType f.type 2))

/-- It makes no difference what the texts in a class are. -/
theorem alike_classPieces (c : ClassDefinition) :
    Alike (chars (classPieces c)) (chars (classPieces c.unquoted)) := by
  rw [chars_classPieces, chars_classPieces]
  unfold ClassDefinition.unquoted OrderedMap.mapWithKey OrderedMap.values
  dsimp only
  rw [List.map_map, List.flatMap_map, List.flatMap_map]
  refine (Alike.refl _).append ((Alike.refl _).append (Alike.quotedLine (by decide) 0 _ _
    ((Alike.refl _).append (Alike.quotedLine (by decide) 0 _ _ ((Alike.refl _).append
      ((Alike.refl _).append (Alike.append ?_ (.refl _))))))))
  exact exchangeable_alike.flatMap fun e _ => alike_query e.2

end ThingTalk

/-- Two classes that differ in nothing but quoted texts are printed on as many lines, and line by
line alike once the literals are erased. -/
theorem ClassDefinition.lines_toThingTalk_alike {c d : ClassDefinition}
    (h : c.unquoted = d.unquoted) :
    List.Forall₂ (fun l m => eraseLiterals l = eraseLiterals m)
      (splitWhere (· = '\n') c.toThingTalk.toList)
      (splitWhere (· = '\n') d.toThingTalk.toList) := by
  have herased : ∀ c : ClassDefinition, erasedLines c.toThingTalk.toList =
      erasedLines (ThingTalk.chars (ThingTalk.classPieces c.unquoted)) := by
    intro c
    unfold toThingTalk
    rw [ThingTalk.toList_render]
    simpa using ThingTalk.alike_classPieces c [] []
  have hlines : erasedLines c.toThingTalk.toList = erasedLines d.toThingTalk.toList := by
    rw [herased, herased, h]
  refine List.forall₂_map_left_iff.1 (List.forall₂_map_right_iff.1 ?_)
  rw [List.forall₂_eq_eq_eq]
  exact hlines

/-- A class of cafes with a compound in an array; the texts are those that come from outside. -/
def cafeClass (label phrase dataset : String) : ClassDefinition where
  kind := "org.schema"
  name := label
  description := label
  imports := Import.standard
  queries := .ofList [("Cafe",
    { name := "Cafe"
      parents := ["Place"]
      canonical := phrase
      confirmation := phrase
      isList := true
      isMonitorable := false
      confirm := false
      fields := [⟨"menu", .array (.compound "Menu"
        [⟨"dish", .string, some ((PhraseSet.new .verb).set .verb [phrase, label]),
          { stringValues := some dataset }⟩]),
        none, { unique := some true }⟩] })]

/-- Marks of annotations, line breaks, quotation marks and backslashes in texts do not show. -/
theorem ClassDefinition.lines_toThingTalk_alike_cafeClass :
    (cafeClass "Cafes" "cafe" "cafes").unquoted =
      (cafeClass "\"\n\x7d\n" "\\\"]\n  #[unique=true]" "\\").unquoted ∧
    List.Forall₂ (fun l m => eraseLiterals l = eraseLiterals m)
      (splitWhere (· = '\n') (cafeClass "Cafes" "cafe" "cafes").toThingTalk.toList)
      (splitWhere (· = '\n')
        (cafeClass "\"\n\x7d\n" "\\\"]\n  #[unique=true]" "\\").toThingTalk.toList) :=
  ⟨rfl, lines_toThingTalk_alike rfl⟩

end VocabularyCompiler

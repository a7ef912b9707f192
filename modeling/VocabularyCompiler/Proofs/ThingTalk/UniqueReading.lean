import VocabularyCompiler.Proofs.ThingTalk.Annotations

/-!
# A printed class can be read in one way only

Two classes whose bare names are words are printed alike only if they are the same, but for the
names of compounds and the keys of queries, which are not printed (`toThingTalk_eq_iff`). The proof
goes through the printer from the phrases up: each part is legible, which says that where it ends
can be told from the text. Types and members hold each other, so theirs is an induction on the type;
the other parts are legible since their own parts are.
-/

namespace VocabularyCompiler

/-! ## What is not printed, and what is printed bare -/

mutual

/-- A type without the names of its compounds. -/
def ValueType.anonymous : ValueType → ValueType
  | .array t => .array t.anonymous
  | .compound _ fields => .compound "" (anonymousFields fields)
  | t => t
termination_by structural t => t

/-- Fields without the names of the compounds inside them. -/
def anonymousFields : List Field → List Field
  | [] => []
  | ⟨name, type, canonical, annotations⟩ :: rest =>
    ⟨name, type.anonymous, canonical, annotations⟩ :: anonymousFields rest
termination_by structural fields => fields

end

mutual

/-- The names in a type that are printed bare are words: units, kinds of entities, literals, and the
names of members. -/
def ValueType.isWorded : ValueType → Bool
  | .measure unit => isWord unit
  | .entity kind => isWord kind
  | .enum literals => literals.all isWord
  | .array t => t.isWorded
  | .compound _ fields => areWorded fields
  | _ => true
termination_by structural t => t

/-- The names in fields that are printed bare are words. -/
def areWorded : List Field → Bool
  | [] => true
  | ⟨name, type, _, _⟩ :: rest => isWord name && type.isWorded && areWorded rest
termination_by structural fields => fields

end

/-- A field without the names of the compounds inside it. -/
def Field.anonymous (f : Field) : Field := { f with type := f.type.anonymous }

/-- A query without the names of the compounds inside it. -/
def Query.anonymous (q : Query) : Query := { q with fields := anonymousFields q.fields }

/-- The name of a field and the bare names inside it are words. -/
def Field.isWorded (f : Field) : Bool := isWord f.name && f.type.isWorded

/-- The names of a query and of its parents and the bare names inside it are words. -/
def Query.isWorded (q : Query) : Bool :=
  isWord q.name && q.parents.all isWord && areWorded q.fields

/-- The names of an import are words. -/
def Import.isWorded (i : Import) : Bool := isWord i.facet && isWord i.moduleName

/-- The bare names in a class are words. -/
def ClassDefinition.isWorded (c : ClassDefinition) : Bool :=
  isWord c.kind && c.imports.all Import.isWorded && c.queries.values.all Query.isWorded

/-- Classes that differ in nothing but the names of compounds and the keys of queries. -/
structure ClassDefinition.SameButNames (c d : ClassDefinition) : Prop where
  kind : c.kind = d.kind
  name : c.name = d.name
  description : c.description = d.description
  imports : c.imports = d.imports
  queries : c.queries.values.map Query.anonymous = d.queries.values.map Query.anonymous

/-- Fields without names of compounds are each without them. -/
theorem anonymousFields_eq_map (fields : List Field) :
    anonymousFields fields = fields.map Field.anonymous := by
  induction fields with
  | nil => rfl
  | cons f rest ih =>
    obtain ⟨name, type, canonical, annotations⟩ := f
    rw [anonymousFields, ih]
    rfl

/-- The bare names in fields are words if and only if they are in each field. -/
theorem areWorded_iff {fields : List Field} :
    areWorded fields = true ↔ ∀ f ∈ fields, f.isWorded = true := by
  induction fields with
  | nil => simp [areWorded]
  | cons f rest ih =>
    obtain ⟨name, type, canonical, annotations⟩ := f
    rw [areWorded, Bool.and_eq_true, ih, List.forall_mem_cons]
    rfl

namespace ThingTalk

open Text

/-! ## Types and fields -/

/-- What a type is printed with first. -/
def keyword : ValueType → String
  | .any => "Any"
  | .boolean => "Boolean"
  | .number => "Number"
  | .string => "String"
  | .date => "Date"
  | .time => "Time"
  | .location => "Location"
  | .currency => "Currency"
  | .measure _ => "Measure("
  | .entity _ => "Entity("
  | .enum _ => "Enum("
  | .array _ => "Array("
  | .compound _ _ => "\x7b"

/-- What types are printed with first. -/
def keywords : List String :=
  ["Any", "Boolean", "Number", "String", "Date", "Time", "Location", "Currency", "Measure(",
    "Entity(", "Enum(", "Array(", "\x7b"]

/-- No keyword begins with another one. -/
theorem keywords_prefix_inj :
    ∀ v ∈ keywords, ∀ w ∈ keywords, v.toList <+: w.toList → v = w := by
  decide +kernel

theorem keyword_mem_keywords (t : ValueType) : keyword t ∈ keywords := by
  cases t <;> simp [keyword, keywords]

/-- The keyword of a type is legible, whatever comes behind it. -/
theorem keyword_inj {t u : ValueType} {s s' : List Char}
    (heq : (keyword t).toList ++ s = (keyword u).toList ++ s') :
    keyword t = keyword u ∧ s = s' := by
  have hkeyword : keyword t = keyword u := by
    have ht := keyword_mem_keywords t
    have hu := keyword_mem_keywords u
    rcases List.prefix_or_prefix_of_prefix (List.prefix_append (keyword t).toList s)
      (heq ▸ List.prefix_append (keyword u).toList s') with hprefix | hprefix
    · exact keywords_prefix_inj _ ht _ hu hprefix
    · exact (keywords_prefix_inj _ hu _ ht hprefix).symm
  rw [hkeyword] at heq
  exact ⟨hkeyword, List.append_cancel_left heq⟩

/-- A type that is printed as its keyword. -/
def isPlain : ValueType → Bool
  | .any | .boolean | .number | .string | .date | .time | .location | .currency => true
  | _ => false

/-- A type that is printed as its keyword is told by it. -/
theorem eq_of_keyword_eq {t u : ValueType} (ht : isPlain t = true) (h : keyword t = keyword u) :
    t = u := by
  cases t <;> cases u <;> first
    | rfl
    | exact absurd ht Bool.false_ne_true
    | simp [keyword] at h

/-- A field from its name on. -/
def fieldChars (depth : Nat) (f : Field) : List Char :=
  (f.name ++ ":").toList ++ (' ' :: (chars (valueType depth f.type) ++
    chars (fieldTail depth f.canonical f.annotations)))

/-- A member of a compound type, from its line break on. -/
def member (depth : Nat) (f : Field) : List Piece :=
  .line depth :: .bare (f.name ++ ": ") :: valueType depth f.type
    ++ fieldTail depth f.canonical f.annotations

/-- Members are printed each by itself. -/
theorem members_eq_map (depth : Nat) (fields : List Field) :
    members depth fields = fields.map (member depth) := by
  induction fields with
  | nil => rfl
  | cons f rest ih =>
    obtain ⟨name, type, canonical, annotations⟩ := f
    rw [members, ih]
    rfl

/-- The characters of a member. -/
theorem chars_member (depth : Nat) (f : Field) :
    chars (member depth f) = newline depth ++ fieldChars depth f := by
  simp [member, fieldChars]

/-- An argument of a query. -/
def argumentChars (f : Field) : List Char := newline 2 ++ "out ".toList ++ fieldChars 2 f

/-- The characters of an argument. -/
theorem chars_argument (f : Field) : chars (argument 2 f) = argumentChars f := by
  simp [argument, argumentChars, fieldChars]

/-- A type from its keyword on. -/
def bodyChars (depth : Nat) : ValueType → List Char
  | .measure unit => unit.toList ++ [')']
  | .entity kind => kind.toList ++ [')']
  | .enum literals => (", ".intercalate literals).toList ++ [')']
  | .array t => chars (valueType depth t) ++ [')']
  | .compound _ fields =>
    writeSeparated [','] (fun f => newline (depth + 1) ++ fieldChars (depth + 1) f) fields ++
      (newline depth ++ ['\x7d'])
  | _ => []

/-- The characters of a type. -/
theorem chars_valueType (depth : Nat) (t : ValueType) :
    chars (valueType depth t) = (keyword t).toList ++ bodyChars depth t := by
  cases t with
  | compound name fields =>
    rw [valueType, List.cons_append, chars_bare, chars_append, chars_separated, members_eq_map,
      writeSeparated_map]
    simp [keyword, bodyChars, chars_member]
  | _ => simp [valueType, keyword, bodyChars]

/-- Types that are printed alike have the same keyword, and are alike from there on. -/
theorem body_inj {depth : Nat} {t u : ValueType} {s s' : List Char}
    (heq : chars (valueType depth t) ++ s = chars (valueType depth u) ++ s') :
    keyword t = keyword u ∧ bodyChars depth t ++ s = bodyChars depth u ++ s' := by
  rw [chars_valueType, chars_valueType, List.append_assoc, List.append_assoc] at heq
  exact keyword_inj heq

/-- The printed type is legible, whatever comes behind it. -/
abbrev LegibleType (depth : Nat) (t : ValueType) : Prop :=
  Legible (fun t => chars (valueType depth t)) ValueType.anonymous (fun t => t.isWorded = true)
    (fun _ => True) t

/-- A word with a colon is a word. -/
theorem isWord_label {name : String} (h : isWord name = true) : isWord (name ++ ":") = true := by
  unfold isWord at h ⊢
  rw [Bool.and_eq_true] at h
  rw [String.toList_append, List.all_append, h.2]
  simp
  decide

/-- A field is legible from its name on, if no more annotations come behind it and its type is
legible. -/
theorem legible_fieldChars {depth : Nat} {f : Field} (htype : LegibleType depth f.type) :
    Legible (fieldChars depth) Field.anonymous (fun f => f.isWorded = true)
      (PastAnnotations depth) f := by
  intro hf g hg s t hs ht heq
  unfold Field.isWorded at hf hg
  rw [Bool.and_eq_true] at hf hg
  unfold fieldChars at heq
  simp only [List.append_assoc, List.cons_append] at heq
  have hspace : ∀ s, EndsWord (' ' :: s) := by
    rintro s c ⟨⟩
    rfl
  -- A colon may be part of a name, so what ends the name is the space behind its colon.
  obtain ⟨hname, heq⟩ := legible_word _ (isWord_label hf.1) _ (isWord_label hg.1) _ _ (hspace _)
    (hspace _) heq
  obtain ⟨htype, heq⟩ := htype.inj hf.2 hg.2 (List.cons.inj heq).2
  obtain ⟨htail, heq⟩ := legible_fieldTail depth (f.canonical, f.annotations) trivial
    (g.canonical, g.annotations) trivial _ _ hs ht heq
  obtain ⟨hcanonical, hannotations⟩ := Prod.mk.inj htail
  refine ⟨?_, heq⟩
  unfold Field.anonymous
  rw [htype, String.append_left_inj ":" |>.1 hname, hcanonical, hannotations]

/-- The characters of words with commas between them. -/
theorem toList_intercalate_words (words : List String) :
    (", ".intercalate words).toList = writeSeparated ", ".toList String.toList words := by
  rw [String.toList_intercalate]
  cases words with
  | nil => rfl
  | cons w rest =>
    rw [writeSeparated]
    induction rest generalizing w with
    | nil => simp [List.intercalate]
    | cons v rest ih =>
      rw [List.map_cons, List.map_cons, List.intercalate_cons_cons, ← List.map_cons, ih,
        List.flatMap_cons]
      simp only [List.append_assoc]

/-- The text begins with a parenthesis. -/
def StartsParenthesis (s : List Char) : Prop := ∃ c ∈ s.head?, c = '(' ∨ c = ')'

/-- Words with commas between them are legible before a parenthesis. -/
theorem legible_words (words : List String) :
    Legible (fun words => (", ".intercalate words).toList) id
      (fun words => words.all isWord = true) StartsParenthesis words := by
  intro hwords words' hwords' s t hs ht heq
  dsimp only at heq
  rw [toList_intercalate_words, toList_intercalate_words] at heq
  have hends : ∀ {s : List Char}, StartsParenthesis s →
      EndsWord s ∧ ¬", ".toList <+: s ∧ ¬StartsWord s := by
    rintro (_ | ⟨c, s⟩) ⟨c, ⟨⟩, rfl | rfl⟩ <;> simp [EndsWord, StartsWord, isDelimiter]
  obtain ⟨hwords, heq⟩ := Legible.separated ", ".toList StartsWord (fun w _ => legible_word w)
    (fun w hw s => startsWord_append hw s)
    (fun s hs => by obtain ⟨r, rfl⟩ := hs; rintro c ⟨⟩; rfl) (List.all_eq_true.1 hwords) words'
    (List.all_eq_true.1 hwords') s t (hends hs) (hends ht) heq
  rw [List.map_id, List.map_id] at hwords
  exact ⟨hwords, heq⟩

/-- A type that is printed as its keyword is legible. -/
theorem legible_plain {depth : Nat} {t : ValueType} (hplain : isPlain t = true) :
    LegibleType depth t := by
  intro _ u _ s s' _ _ heq
  obtain ⟨hkeyword, heq⟩ := body_inj heq
  obtain rfl := eq_of_keyword_eq hplain hkeyword
  exact ⟨rfl, List.append_cancel_left heq⟩

/-- A parenthesis ends a word. -/
theorem endsWord_parenthesis (s : List Char) : EndsWord ([')'] ++ s) := by
  rintro c ⟨⟩
  rfl

/-- A compound type is legible if the types of its members are. -/
theorem legible_compound {depth : Nat} {name : String} {fields : List Field}
    (hfields : ∀ f ∈ fields, LegibleType (depth + 1) f.type) :
    LegibleType depth (.compound name fields) := by
  intro ht u hu s s' _ _ heq
  obtain ⟨hkeyword, heq⟩ := body_inj heq
  cases u with
  | compound name' fields' =>
    -- The closing brace stands on a line that is indented less than the members.
    have hends : ∀ s : List Char, PastAnnotations (depth + 1) (newline depth ++ (['\x7d'] ++ s)) ∧
        ¬[','] <+: newline depth ++ (['\x7d'] ++ s) ∧
        ¬newline (depth + 1) <+: newline depth ++ (['\x7d'] ++ s) := by
      intro s
      unfold PastAnnotations
      rw [newline_succ, List.append_assoc, List.prefix_append_right_inj,
        List.prefix_append_right_inj]
      simp [newline]
    have hlegible := Legible.separated [','] (fun s => newline (depth + 1) <+: s)
      (fun f hf => (legible_fieldChars (hfields f hf)).append_left (newline (depth + 1)))
      (fun f _ s => by simp) (fun s hs => by
        obtain ⟨r, rfl⟩ := hs
        simp [PastAnnotations, newline])
    simp only [bodyChars, List.append_assoc] at heq
    obtain ⟨hfields, heq⟩ := hlegible (areWorded_iff.1 ht) fields' (areWorded_iff.1 hu) _ _
      (hends s) (hends s') heq
    replace heq := List.append_cancel_left heq
    refine ⟨?_, List.append_cancel_left heq⟩
    rw [ValueType.anonymous, ValueType.anonymous, anonymousFields_eq_map, anonymousFields_eq_map,
      hfields]
  | _ => simp [keyword] at hkeyword

/-- A type that is printed as its keyword, a part and a parenthesis is legible if the part is so
before the parenthesis. -/
theorem legible_enclosed {α β : Type} {write : α → List Char} {view : α → β} {Valid : α → Prop}
    {Ends : List Char → Prop} {depth : Nat} (enclose : α → ValueType) (seen : β → ValueType)
    (hbody : ∀ a, bodyChars depth (enclose a) = write a ++ [')'])
    (hseen : ∀ a, (enclose a).anonymous = seen (view a))
    (hvalid : ∀ a, (enclose a).isWorded = true → Valid a) (hends : ∀ s, Ends ([')'] ++ s)) {a : α}
    (hkeyword : ∀ u, keyword (enclose a) = keyword u → ∃ b, u = enclose b)
    (h : Legible write view Valid Ends a) : LegibleType depth (enclose a) := by
  intro ha u hu s s' _ _ heq
  obtain ⟨hu', heq⟩ := body_inj heq
  obtain ⟨b, rfl⟩ := hkeyword u hu'
  rw [hbody, hbody, List.append_assoc, List.append_assoc] at heq
  obtain ⟨hview, heq⟩ := h (hvalid a ha) b (hvalid b hu) _ _ (hends s) (hends s') heq
  rw [hseen, hseen, hview]
  exact ⟨rfl, List.append_cancel_left heq⟩

mutual

/-- Types are legible, whatever comes behind them. -/
theorem legible_valueType : ∀ (t : ValueType) (depth : Nat), LegibleType depth t
  | .measure unit, _ => by
    refine legible_enclosed ValueType.measure ValueType.measure (fun _ => rfl) (fun _ => rfl)
      (fun _ h => h) endsWord_parenthesis ?_ (legible_word unit)
    intro u h
    cases u <;> simp [keyword] at h ⊢
  | .entity kind, _ => by
    refine legible_enclosed ValueType.entity ValueType.entity (fun _ => rfl) (fun _ => rfl)
      (fun _ h => h) endsWord_parenthesis ?_ (legible_word kind)
    intro u h
    cases u <;> simp [keyword] at h ⊢
  | .enum literals, _ => by
    refine legible_enclosed ValueType.enum ValueType.enum (fun _ => rfl) (fun _ => rfl)
      (fun _ h => h) (fun s => ⟨')', rfl, Or.inr rfl⟩) ?_ (legible_words literals)
    intro u h
    cases u <;> simp [keyword] at h ⊢
  | .array t, depth => by
    refine legible_enclosed ValueType.array ValueType.array (fun _ => rfl) (fun _ => rfl)
      (fun _ h => h) (fun _ => trivial) ?_ (legible_valueType t depth)
    intro u h
    cases u <;> simp [keyword] at h ⊢
  | .compound _ fields, depth => legible_compound fun f hf => legible_types fields f hf (depth + 1)
  | .any, _ | .boolean, _ | .number, _ | .string, _ | .date, _ | .time, _ | .location, _
  | .currency, _ => legible_plain rfl
termination_by structural t => t

/-- The types of fields are legible, whatever comes behind them. -/
theorem legible_types : ∀ (fields : List Field), ∀ f ∈ fields, ∀ depth, LegibleType depth f.type
  | [], _, hf, _ => nomatch hf
  | ⟨name, type, canonical, annotations⟩ :: rest, f, hf, depth => by
    rcases List.mem_cons.1 hf with rfl | hf
    · exact legible_valueType type depth
    · exact legible_types rest f hf depth
termination_by structural fields => fields

end

/-! ## Queries -/

/-- What stands for the parents of a query. -/
def parentChars (parents : List String) : List Char :=
  if parents.isEmpty then [] else " extends ".toList ++ (", ".intercalate parents).toList

/-- The characters of the first line of a query. -/
theorem toList_queryHead (q : Query) : (queryHead q).toList =
    (if q.isMonitorable then "monitorable ".toList else []) ++
      ((if q.isList then "list ".toList else []) ++
        ("query ".toList ++ (q.name.toList ++ (parentChars q.parents ++ ['('])))) := by
  unfold queryHead parentChars
  cases q.isMonitorable <;> cases q.isList <;> cases q.parents.isEmpty <;> simp

/-- Which optional words there are can be told before the word that is always there. -/
theorem optionalWords_inj {m m' l l' : Bool} {s t : List Char}
    (heq : (if m then "monitorable ".toList else []) ++
        ((if l then "list ".toList else []) ++ ("query ".toList ++ s)) =
      (if m' then "monitorable ".toList else []) ++
        ((if l' then "list ".toList else []) ++ ("query ".toList ++ t))) :
    m = m' ∧ l = l' ∧ s = t := by
  cases m <;> cases m' <;> cases l <;> cases l' <;> simp at heq <;> exact ⟨rfl, rfl, heq⟩

/-- Parents are legible before the parenthesis that opens the arguments. -/
theorem legible_parentChars (parents : List String) :
    Legible parentChars id (fun parents => parents.all isWord = true) (fun s => ['('] <+: s)
      parents := by
  intro hparents parents' hparents' s t hs ht heq
  obtain ⟨s, rfl⟩ := hs
  obtain ⟨t, rfl⟩ := ht
  unfold parentChars at heq
  cases parents with
  | nil =>
    cases parents' with
    | nil => exact ⟨rfl, heq⟩
    | cons p rest => simp at heq
  | cons p rest =>
    cases parents' with
    | nil => simp at heq
    | cons p' rest' =>
      rw [if_neg (by simp), if_neg (by simp), List.append_assoc, List.append_assoc,
        List.append_cancel_left_eq] at heq
      exact legible_words _ hparents _ hparents' _ _ ⟨'(', rfl, Or.inl rfl⟩ ⟨'(', rfl, Or.inl rfl⟩
        heq

/-- The first line of a query is legible, whatever comes behind it. -/
theorem legible_queryHead (q : Query) :
    Legible (fun q => (queryHead q).toList)
      (fun q : Query => (q.isMonitorable, q.isList, q.name, q.parents))
      (fun q => isWord q.name = true ∧ q.parents.all isWord = true) (fun _ => True) q := by
  intro hq r hr s t _ _ heq
  dsimp only at heq
  rw [toList_queryHead, toList_queryHead] at heq
  simp only [List.append_assoc] at heq
  obtain ⟨hmonitorable, hlist, heq⟩ := optionalWords_inj heq
  have hends : ∀ (parents : List String) (s : List Char),
      EndsWord (parentChars parents ++ (['('] ++ s)) := by
    intro parents s
    unfold parentChars
    cases parents <;> simp [EndsWord, isDelimiter]
  obtain ⟨hname, heq⟩ := legible_word _ hq.1 _ hr.1 _ _ (hends _ _) (hends _ _) heq
  obtain ⟨hparents, heq⟩ := legible_parentChars _ hq.2 _ hr.2 _ _ (List.prefix_append _ _)
    (List.prefix_append _ _) heq
  refine ⟨?_, List.append_cancel_left heq⟩
  dsimp only
  rw [hmonitorable, hlist]
  exact congrArg₂ (fun name parents => (r.isMonitorable, r.isList, name, parents)) hname hparents

/-- The characters of a query. -/
theorem chars_query (q : Query) : chars (query q) =
    newline 0 ++ newline 1 ++ ((queryHead q).toList ++
      (writeSeparated [','] argumentChars q.fields ++
        (newline 1 ++ (")".toList ++ (newline 1 ++ ("#_[canonical=".toList ++
          ((jsonLiteral q.canonical).toList ++ ("]".toList ++ (newline 1 ++
            ("#_[confirmation=".toList ++ ((jsonLiteral q.confirmation).toList ++ ("]".toList ++
              (newline 1 ++ ("#[confirm=".toList ++ ((truth q.confirm).render.toList ++
                "];".toList))))))))))))))) := by
  have harguments : chars (separated [.bare ","] (q.fields.map (argument 2))) =
      writeSeparated [','] argumentChars q.fields := by
    rw [chars_separated, writeSeparated_map]
    simp only [chars_argument]
    rfl
  have htruth : ∀ rest, chars (truth q.confirm :: rest) =
      (truth q.confirm).render.toList ++ chars rest := fun _ => rfl
  unfold query
  simp only [chars_append, chars_line, chars_bare, chars_quoted, chars_nil, harguments, htruth,
    List.append_assoc, List.append_nil]

/-- Arguments are legible before the line that closes them. -/
theorem legible_arguments (fields : List Field) :
    Legible (writeSeparated [','] argumentChars) anonymousFields
      (fun fields => areWorded fields = true) (fun s => newline 1 ++ ")".toList <+: s) fields := by
  intro hfields fields' hfields' s t hs ht heq
  have hends : ∀ {s : List Char}, newline 1 ++ ")".toList <+: s →
      PastAnnotations 2 s ∧ ¬[','] <+: s ∧ ¬newline 2 <+: s := by
    rintro _ ⟨s, rfl⟩
    simp [PastAnnotations, newline]
  have hargument : ∀ f ∈ fields, Legible argumentChars Field.anonymous
      (fun f => f.isWorded = true) (PastAnnotations 2) f := fun f hf =>
    (legible_fieldChars (legible_types fields f hf 2)).append_left (newline 2 ++ "out ".toList)
  obtain ⟨hfields, heq⟩ := Legible.separated [','] (fun s => newline 2 <+: s) hargument
    (fun f _ s => by simp [argumentChars]) (fun s hs => by
      obtain ⟨r, rfl⟩ := hs
      simp [PastAnnotations, newline])
    (areWorded_iff.1 hfields) fields' (areWorded_iff.1 hfields') s t (hends hs) (hends ht) heq
  rw [anonymousFields_eq_map, anonymousFields_eq_map]
  exact ⟨hfields, heq⟩

/-- Queries are legible, whatever comes behind them. -/
theorem legible_query (q : Query) :
    Legible (fun q => chars (query q)) Query.anonymous (fun q => q.isWorded = true)
      (fun _ => True) q := by
  intro hq r hr s t _ _ heq
  unfold Query.isWorded at hq hr
  rw [Bool.and_eq_true, Bool.and_eq_true] at hq hr
  dsimp only at heq
  rw [chars_query, chars_query] at heq
  simp only [List.append_assoc, List.append_cancel_left_eq] at heq
  have hclose : ∀ s, newline 1 ++ ")".toList <+: newline 1 ++ (")".toList ++ s) := fun s =>
    (List.prefix_append_right_inj _).2 (List.prefix_append _ s)
  -- Only the head and the arguments need to be followed by something particular.
  obtain ⟨hhead, heq⟩ := (legible_queryHead q).inj hq.1 hr.1 heq
  obtain ⟨hfields, heq⟩ := legible_arguments _ hq.2 _ hr.2 _ _ (hclose _) (hclose _) heq
  simp only [List.append_cancel_left_eq] at heq
  obtain ⟨hcanonical, heq⟩ := jsonLiteral_inj heq
  simp only [List.append_cancel_left_eq] at heq
  obtain ⟨hconfirmation, heq⟩ := jsonLiteral_inj heq
  simp only [List.append_cancel_left_eq] at heq
  obtain ⟨hconfirm, heq⟩ := (legible_value _).inj (Or.inr ⟨_, rfl⟩) (Or.inr ⟨_, rfl⟩) heq
  refine ⟨?_, List.append_cancel_left heq⟩
  simp only [Prod.mk.injEq] at hhead
  obtain ⟨hmonitorable, hlist, hname, hparents⟩ := hhead
  unfold Query.anonymous
  rw [hmonitorable, hlist, hname, hparents, hfields, truth_injective hconfirm]
  exact congrArg₂ (fun canonical confirmation => Query.mk r.name r.parents canonical confirmation
    r.isList r.isMonitorable r.confirm (anonymousFields r.fields)) hcanonical hconfirmation

/-! ## Classes -/

/-- An import from its line break on. -/
def importChars (i : Import) : List Char :=
  newline 1 ++ "import ".toList ++
    (i.facet.toList ++ (" from @".toList ++ (i.moduleName.toList ++ "();".toList)))

/-- Imports are legible, whatever comes behind them. -/
theorem legible_importChars (i : Import) :
    Legible importChars id (fun i => i.isWorded = true) (fun _ => True) i := by
  intro hi j hj s t _ _ heq
  unfold Import.isWorded at hi hj
  rw [Bool.and_eq_true] at hi hj
  unfold importChars at heq
  simp only [List.append_assoc, List.append_cancel_left_eq] at heq
  have hends : ∀ (c : Char) (word : List Char) (s : List Char), isDelimiter c = true →
      EndsWord (c :: word ++ s) := by
    rintro c word s hc d ⟨⟩
    exact hc
  obtain ⟨hfacet, heq⟩ := legible_word _ hi.1 _ hj.1 _ _ (hends ' ' _ _ rfl) (hends ' ' _ _ rfl) heq
  obtain ⟨hmodule, heq⟩ := legible_word _ hi.2 _ hj.2 _ _ (hends '(' _ _ rfl) (hends '(' _ _ rfl)
    (List.append_cancel_left heq)
  exact ⟨congrArg₂ Import.mk hfacet hmodule, List.append_cancel_left heq⟩

/-- The characters of a class. -/
theorem chars_classPieces (c : ClassDefinition) : chars (classPieces c) =
    "class @".toList ++ (c.kind.toList ++ (newline 0 ++ ("#_[name=".toList ++
      ((jsonLiteral c.name).toList ++ ("]".toList ++ (newline 0 ++ ("#_[description=".toList ++
        ((jsonLiteral c.description).toList ++ ("] \x7b".toList ++
          (c.imports.flatMap importChars ++
            ((c.queries.values.flatMap fun q => chars (query q)) ++
              (newline 0 ++ ("\x7d".toList ++ newline 0))))))))))))) := by
  have himports : chars (c.imports.flatMap importLine) = c.imports.flatMap importChars := by
    have himport : ∀ i : Import, chars (importLine i) = importChars i := by
      intro i
      simp [importLine, importChars]
    rw [← funext himport]
    exact List.flatMap_assoc
  have hqueries : chars (c.queries.values.flatMap query) =
      c.queries.values.flatMap fun q => chars (query q) := List.flatMap_assoc
  unfold classPieces
  rw [chars_append, chars_append, chars_append, himports, hqueries]
  simp

/-- A query begins with an empty line. -/
def StartsQuery (s : List Char) : Prop := newline 0 ++ newline 1 <+: s

/-- The text begins with the line of an import. -/
def StartsImport (s : List Char) : Prop := newline 1 ++ "import ".toList <+: s

/-- What comes behind the imports of a class begins with no import. -/
theorem not_startsImport (queries : List Query) (s : List Char) :
    ¬StartsImport
      ((queries.flatMap fun q => chars (query q)) ++ (newline 0 ++ ("\x7d".toList ++ s))) := by
  unfold StartsImport
  cases queries with
  | nil => simp [newline]
  | cons q rest =>
    rw [List.flatMap_cons, chars_query]
    simp [newline]

/-- Classes that are printed alike differ in nothing but what is not printed. -/
theorem sameButNames_of_chars_eq {c d : ClassDefinition} (hc : c.isWorded = true)
    (hd : d.isWorded = true) (heq : chars (classPieces c) = chars (classPieces d)) :
    c.SameButNames d := by
  unfold ClassDefinition.isWorded at hc hd
  rw [Bool.and_eq_true, Bool.and_eq_true] at hc hd
  rw [chars_classPieces, chars_classPieces] at heq
  replace heq := List.append_cancel_left heq
  have hline : ∀ s, EndsWord (newline 0 ++ s) := by
    rintro s c ⟨⟩
    rfl
  obtain ⟨hkind, heq⟩ := legible_word _ hc.1.1 _ hd.1.1 _ _ (hline _) (hline _) heq
  simp only [List.append_cancel_left_eq] at heq
  obtain ⟨hname, heq⟩ := jsonLiteral_inj heq
  simp only [List.append_cancel_left_eq] at heq
  obtain ⟨hdescription, heq⟩ := jsonLiteral_inj heq
  simp only [List.append_cancel_left_eq] at heq
  -- Imports end where a query or the closing brace begins, and queries at that brace.
  obtain ⟨himports, heq⟩ := Legible.flatMap StartsImport
    (fun i _ => legible_importChars i)
    (fun i _ s => by
      unfold StartsImport importChars
      simp)
    (fun _ _ => trivial) (List.all_eq_true.1 hc.1.2) d.imports (List.all_eq_true.1 hd.1.2) _ _
    ⟨trivial, not_startsImport c.queries.values _⟩ ⟨trivial, not_startsImport d.queries.values _⟩
    heq
  have hend : ¬StartsQuery (newline 0 ++ ("\x7d".toList ++ newline 0)) := by
    unfold StartsQuery
    simp [newline]
  obtain ⟨hqueries, -⟩ := Legible.flatMap StartsQuery
    (fun q _ => legible_query q)
    (fun q _ s => by
      unfold StartsQuery
      rw [chars_query]
      simp)
    (fun _ _ => trivial) (List.all_eq_true.1 hc.2) d.queries.values (List.all_eq_true.1 hd.2) _ _
    ⟨trivial, hend⟩ ⟨trivial, hend⟩ heq
  rw [List.map_id, List.map_id] at himports
  exact ⟨hkind, hname, hdescription, himports, hqueries⟩

mutual

/-- The names of compounds are not printed. -/
theorem valueType_anonymous : ∀ (t : ValueType) (depth : Nat),
    valueType depth t.anonymous = valueType depth t
  | .array t, depth => by
    rw [ValueType.anonymous, valueType, valueType, valueType_anonymous t depth]
  | .compound _ fields, depth => by
    rw [ValueType.anonymous, valueType, valueType, members_anonymousFields fields (depth + 1)]
  | .any, _ | .boolean, _ | .number, _ | .string, _ | .date, _ | .time, _ | .location, _
  | .currency, _ | .measure _, _ | .entity _, _ | .enum _, _ => rfl
termination_by structural t => t

/-- The names of compounds inside members are not printed. -/
theorem members_anonymousFields : ∀ (fields : List Field) (depth : Nat),
    members depth (anonymousFields fields) = members depth fields
  | [], _ => rfl
  | ⟨_, type, _, _⟩ :: rest, depth => by
    rw [anonymousFields, members, members, valueType_anonymous type depth,
      members_anonymousFields rest depth]
termination_by structural fields => fields

end

/-- The names of compounds inside a query are not printed. -/
theorem query_anonymous (q : Query) : query q.anonymous = query q := by
  have hargument : ∀ f : Field, argument 2 f.anonymous = argument 2 f := by
    intro f
    unfold argument Field.anonymous
    rw [valueType_anonymous]
  have harguments : (anonymousFields q.fields).map (argument 2) = q.fields.map (argument 2) := by
    rw [anonymousFields_eq_map, List.map_map]
    exact List.map_congr_left fun f _ => hargument f
  unfold query Query.anonymous
  dsimp only
  rw [harguments]
  rfl

/-- Classes that differ in nothing but what is not printed are printed alike. -/
theorem classPieces_eq {c d : ClassDefinition} (h : c.SameButNames d) :
    classPieces c = classPieces d := by
  have hqueries : ∀ c : ClassDefinition,
      c.queries.values.flatMap query = (c.queries.values.map Query.anonymous).flatMap query := by
    intro c
    rw [List.flatMap_map]
    simp only [query_anonymous]
  unfold classPieces
  rw [h.kind, h.name, h.description, h.imports, hqueries c, hqueries d, h.queries]

end ThingTalk

/-- Two classes whose bare names are words are printed alike if and only if they are the same but
for the names of compounds and the keys of queries. So nothing else is lost in printing, and nothing
else is taken for something that it is not. -/
theorem ClassDefinition.toThingTalk_eq_iff {c d : ClassDefinition} (hc : c.isWorded = true)
    (hd : d.isWorded = true) : c.toThingTalk = d.toThingTalk ↔ c.SameButNames d := by
  constructor
  · intro h
    have hchars := congrArg String.toList h
    unfold toThingTalk at hchars
    rw [ThingTalk.toList_render, ThingTalk.toList_render] at hchars
    exact ThingTalk.sameButNames_of_chars_eq hc hd hchars
  · intro h
    unfold toThingTalk
    rw [ThingTalk.classPieces_eq h]

/-- A class of places with addresses, under some key and name. -/
def placeClass (key address : String) (unique : Option Bool) : ClassDefinition where
  kind := "org.schema"
  name := "Schema.org"
  description := "places \"and\" addresses"
  imports := Import.standard
  queries := .ofList [(key,
    { name := "Place"
      parents := ["Thing"]
      canonical := "place"
      confirmation := "place"
      isList := true
      isMonitorable := false
      confirm := false
      fields := [⟨"address", .array (.compound address
        [⟨"country", .entity "org.schema:Country", some (.new .base), {}⟩,
          ⟨"kind", .enum ["home", "work"], none, { filterable := some false }⟩]),
        none, { unique := unique }⟩] })]

/-- Under another key and name the class is printed alike, and with another mark it is not. -/
theorem ClassDefinition.toThingTalk_eq_iff_placeClass :
    (placeClass "Place" "PostalAddress" none).isWorded = true ∧
    (placeClass "place" "Address" none).isWorded = true ∧
    (placeClass "Place" "PostalAddress" (some true)).isWorded = true ∧
    (placeClass "Place" "PostalAddress" none).toThingTalk =
      (placeClass "place" "Address" none).toThingTalk ∧
    (placeClass "Place" "PostalAddress" none).toThingTalk ≠
      (placeClass "Place" "PostalAddress" (some true)).toThingTalk := by
  have hplace : (placeClass "Place" "PostalAddress" none).isWorded = true := by decide +kernel
  have hother : (placeClass "place" "Address" none).isWorded = true := by decide +kernel
  have hunique : (placeClass "Place" "PostalAddress" (some true)).isWorded = true := by
    decide +kernel
  refine ⟨hplace, hother, hunique, ?_, fun h => ?_⟩
  · exact (toThingTalk_eq_iff hplace hother).2 ⟨rfl, rfl, rfl, rfl, rfl⟩
  · have hqueries := ((toThingTalk_eq_iff hplace hunique).1 h).queries
    have hmarks := congrArg
      (List.map fun q : Query => q.fields.map fun f => f.annotations.unique) hqueries
    exact absurd hmarks (by decide +kernel)

end VocabularyCompiler

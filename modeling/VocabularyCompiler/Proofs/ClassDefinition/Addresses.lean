import VocabularyCompiler.Proofs.ClassDefinition.Changes

/-!
# The paths of arguments are addresses

A query lists the paths of its arguments, finds an argument by its path and changes the argument at
a path, and goes through its fields anew for each of these. Where the names in every list of fields
are different and hold no points, all three mean the same field by a path
(`arguments_address_fields`): the one that the names in the path lead to (`LiesAt`), which stands
among all fields where the path stands among the paths (`everyField`). To give that field other
phrases and annotations is felt at its path and at no other.
-/

namespace VocabularyCompiler

/-! ## Every field -/

mutual

/-- The fields inside a type, each right before its members. -/
def ValueType.innerFields : ValueType → List Field
  | .array t => t.innerFields
  | .compound _ fields => everyField fields
  | _ => []
termination_by structural t => t

/-- Fields and those inside their types, each right before its members. -/
def everyField : List Field → List Field
  | [] => []
  | ⟨name, type, canonical, annotations⟩ :: rest =>
    ⟨name, type, canonical, annotations⟩ :: (type.innerFields ++ everyField rest)
termination_by structural fields => fields

end

/-- Every field is one of those that stand at the top, or inside the type of one of them. -/
theorem everyField_eq_flatMap (fields : List Field) :
    everyField fields = fields.flatMap fun f => f :: f.type.innerFields := by
  induction fields with
  | nil => rfl
  | cons f rest ih =>
    obtain ⟨name, type, canonical, annotations⟩ := f
    rw [everyField, ih]
    rfl

/-- The fields inside a type are those of its compound. -/
theorem ValueType.innerFields_eq (t : ValueType) :
    t.innerFields = (t.members?.map everyField).getD [] := by
  induction t using ValueType.induction_array with
  | array t ih => exact ih
  | element t h =>
    cases t with
    | array t => cases h
    | _ => rfl

/-- A type has members if it is a compound within some layers of arrays. -/
theorem ValueType.members?_iterate_array (layers : Nat) (name : String) (members : List Field) :
    (ValueType.array^[layers] (.compound name members)).members? = some members := by
  induction layers with
  | zero => rfl
  | succ n ih =>
    rw [Function.iterate_succ_apply']
    exact ih

/-! ## Where a field is found -/

/-- A field is found on the way to it. -/
theorem WellNamed.findArgument?_eq_some_iff {fields : List Field} (h : WellNamed fields)
    {way : List String} {f : Field} :
    findArgument? fields way = some f ↔ LiesAt fields way f := by
  constructor
  · intro hfound
    induction way generalizing fields with
    | nil => cases hfound
    | cons name rest ih =>
      rw [findArgument?_cons, Option.bind_eq_some_iff] at hfound
      obtain ⟨g, hg, hfollow⟩ := hfound
      obtain rfl : g.name = name := by simpa using List.find?_some hg
      have hmem := List.mem_of_find?_eq_some hg
      cases rest with
      | nil =>
        obtain rfl := Option.some.inj hfollow
        exact .here hmem
      | cons next rest =>
        obtain ⟨members, hmembers, hfound⟩ := Option.bind_eq_some_iff.1 hfollow
        exact .inside hmem hmembers (ih (h.members hmem hmembers) hfound)
  · intro hlies
    induction hlies with
    | here hf => exact h.find?_name hf
    | @inside _ members g f way hg hmembers hlies ih =>
      have hway : way ≠ [] := by cases hlies <;> exact List.cons_ne_nil _ _
      obtain ⟨next, rest, rfl⟩ := List.exists_cons_of_ne_nil hway
      rw [findArgument?_cons, h.find?_name hg, Option.bind_some, followWay, hmembers,
        Option.bind_some]
      exact ih (h.members hg hmembers)

/-- The ways lead to every field, in order. -/
theorem WellNamed.map_findArgument? {fields : List Field} (h : WellNamed fields) :
    (fieldWays fields).map (findArgument? fields) = (everyField fields).map some := by
  induction h with
  | @intro fields names points hmembers ih =>
    rw [fieldWays_eq_flatMap, everyField_eq_flatMap, List.map_flatMap, List.map_flatMap]
    refine List.flatMap_congr fun f hf => ?_
    have hfind := (WellNamed.intro names points hmembers).find?_name hf
    -- What is found through the field is found among its members.
    have hinner : (f.type.memberWays.map (f.name :: ·)).map (findArgument? fields) =
        f.type.innerFields.map some := by
      rw [List.map_map, f.type.memberWays_eq, f.type.innerFields_eq]
      cases hm : f.type.members? with
      | none => rfl
      | some members =>
        refine (List.map_congr_left fun way hway => ?_).trans (ih f hf members hm)
        obtain ⟨next, rest, rfl⟩ := List.exists_cons_of_ne_nil (ne_nil_of_mem_fieldWays hway)
        rw [Function.comp_apply, findArgument?_cons, hfind, Option.bind_some, followWay, hm,
          Option.bind_some]
    rw [Field.ways, List.map_cons, List.map_cons, hinner]
    exact congrArg (· :: _) hfind

/-- The way to a field stands right before the ways to its members. -/
theorem LiesAt.exists_fieldWays_eq {fields : List Field} {way : List String} {f : Field}
    (h : LiesAt fields way f) : ∃ before after,
      fieldWays fields = before ++ way :: (f.type.memberWays.map (way ++ ·) ++ after) := by
  have hsplit : ∀ {fields : List Field} {f : Field}, f ∈ fields → ∃ before after,
      fieldWays fields = before ++ (f.ways ++ after) := by
    intro fields f hf
    obtain ⟨before, after, rfl⟩ := List.append_of_mem hf
    refine ⟨before.flatMap Field.ways, after.flatMap Field.ways, ?_⟩
    rw [fieldWays_eq_flatMap, List.flatMap_append, List.flatMap_cons]
  induction h with
  | here hf =>
    obtain ⟨before, after, heq⟩ := hsplit hf
    exact ⟨before, after, heq⟩
  | @inside _ members g f way hg hmembers _ ih =>
    obtain ⟨before, after, heq⟩ := hsplit hg
    obtain ⟨before', after', heq'⟩ := ih
    refine ⟨before ++ [g.name] :: before'.map (g.name :: ·), after'.map (g.name :: ·) ++ after, ?_⟩
    rw [heq, Field.ways, g.type.memberWays_eq, hmembers, Option.map_some, Option.getD_some, heq']
    simp [Function.comp_def]

/-! ## Other phrases and annotations -/

namespace Field

/-- What there is to a field besides its type. -/
def label (f : Field) : String × Option PhraseSet × Annotations :=
  (f.name, f.canonical, f.annotations)

/-- A field with other phrases and annotations. -/
def relabel (phrases : Option PhraseSet → Option PhraseSet) (marks : Annotations → Annotations)
    (f : Field) : Field :=
  { f with
    canonical := phrases f.canonical
    annotations := marks f.annotations }

/-- Phrases and annotations do not make the shape of a field. -/
theorem keepsShape_relabel (phrases : Option PhraseSet → Option PhraseSet)
    (marks : Annotations → Annotations) : KeepsShape (relabel phrases marks) :=
  ⟨fun _ => rfl, fun _ _ => rfl⟩

end Field

/-- The paths of the arguments of a query, without repetition, are those of all its fields, each
right before the paths of its members, however many layers of arrays hold them. An argument is found
at the listed paths and at no other: the field that the names in the path lead to, which is the one
at the position of the path. If the argument at a path gets other phrases and annotations, then it
is found with these, the paths are the same, and no other argument has another name, other phrases
or other annotations; at a path that is not listed, nothing changes. -/
theorem Query.arguments_address_fields {q : Query} (h : WellNamed q.fields) :
    (q.arguments.Nodup ∧
      ∀ path f layers name members, q.argument? path = some f →
        f.type = ValueType.array^[layers] (.compound name members) →
          ∃ before after, q.arguments =
            before ++ path :: (argumentPaths (path ++ ".") members ++ after)) ∧
    (q.arguments.map q.argument? = (everyField q.fields).map some ∧
      ∀ path, (path ∈ q.arguments ↔ (q.argument? path).isSome = true) ∧
        ∀ f, q.argument? path = some f ↔ LiesAt q.fields (splitPath path) f) ∧
    ∀ path phrases marks,
      (q.modifyArgument path (Field.relabel phrases marks)).arguments = q.arguments ∧
      (q.modifyArgument path (Field.relabel phrases marks)).argument? path =
        (q.argument? path).map (Field.relabel phrases marks) ∧
      (∀ other, other ≠ path →
        ((q.modifyArgument path (Field.relabel phrases marks)).argument? other).map Field.label =
          (q.argument? other).map Field.label) ∧
      (path ∉ q.arguments → q.modifyArgument path (Field.relabel phrases marks) = q) := by
  refine ⟨⟨h.nodup_arguments, ?_⟩, ⟨?_, fun path => ⟨mem_arguments_iff h, fun f =>
    h.findArgument?_eq_some_iff⟩⟩, fun path phrases marks => ⟨?_, ?_, ?_, ?_⟩⟩
  · -- The way to a field stands right before the ways to its members, and so do their paths.
    intro path f layers name members hf htype
    have hlies := h.findArgument?_eq_some_iff.1 hf
    obtain ⟨before, after, heq⟩ := hlies.exists_fieldWays_eq
    have hway := ne_nil_of_mem_fieldWays (heq ▸ List.mem_append_right before List.mem_cons_self)
    rw [f.type.memberWays_eq, htype, ValueType.members?_iterate_array, Option.map_some,
      Option.getD_some] at heq
    have hmembers : (fieldWays members).map (fun way => ".".intercalate (splitPath path ++ way)) =
        argumentPaths (path ++ ".") members := by
      rw [argumentPaths_eq_map]
      refine List.map_congr_left fun way hmem => ?_
      rw [String.intercalate_append_of_ne_nil hway (ne_nil_of_mem_fieldWays hmem),
        intercalate_splitPath]
    refine ⟨before.map (".".intercalate ·), after.map (".".intercalate ·), ?_⟩
    rw [q.arguments_eq_map, heq, ← hmembers, List.map_append, List.map_cons, List.map_append,
      List.map_map, intercalate_splitPath]
    rfl
  · rw [q.arguments_eq_map, List.map_map, ← h.map_findArgument?]
    refine List.map_congr_left fun way hway => ?_
    rw [Function.comp_apply, argument?, h.splitPath_intercalate hway]
  · rw [arguments_eq_map, arguments_eq_map, modifyArgument,
      fieldWays_modifyArgument (Field.keepsShape_relabel phrases marks)]
  · exact findArgument?_modifyArgument_self (Field.keepsShape_relabel phrases marks) _ _
  · -- What is found at another path may have a changed type, but only in its members.
    intro other hother
    exact findArgument?_modifyArgument_of_ne (Field.keepsShape_relabel phrases marks)
      (fun _ _ => rfl) (splitPath_injective.ne hother.symm) _
  · intro hpath
    have hnone : ∀ f, q.argument? path ≠ some f := fun f hf =>
      hpath (mem_arguments_of_argument? hf)
    rw [modifyArgument, modifyArgument_eq_self fun f hf => absurd hf (hnone f)]

/-- Shops with rows of shelves, each with a mark and any number of goods. -/
def shops : Query :=
  { (default : Query) with
    name := "Shop"
    fields := [⟨"id", .entity "org.schema:Shop", none, {}⟩,
      ⟨"shelves", .array (.array (.compound "Shelf"
        [⟨"mark", .string, none, {}⟩,
          ⟨"goods", .array (.compound "Product" [⟨"price", .currency, none, {}⟩]), none, {}⟩])),
        none, {}⟩] }

/-- The names of what a shop has hold no points, and no two in one list are the same. -/
theorem wellNamed_shops : WellNamed shops.fields := by
  have hgoods : WellNamed [⟨"price", .currency, none, {}⟩] := by
    refine .intro (by decide) (by decide) fun f hf members hmembers => ?_
    obtain rfl := List.mem_singleton.1 hf
    cases hmembers
  have hshelf : WellNamed [⟨"mark", .string, none, {}⟩,
      ⟨"goods", .array (.compound "Product" [⟨"price", .currency, none, {}⟩]), none, {}⟩] := by
    refine .intro (by decide) (by decide) fun f hf members hmembers => ?_
    rcases List.mem_pair.1 hf with rfl | rfl
    · cases hmembers
    · cases hmembers
      exact hgoods
  refine .intro (by decide) (by decide) fun f hf members hmembers => ?_
  rcases List.mem_pair.1 hf with rfl | rfl
  · cases hmembers
  · cases hmembers
    exact hshelf

/-- The price of the goods on the shelves of a shop is found behind two and one layers of arrays,
and to mark it does not mark the goods. -/
theorem Query.arguments_address_fields_shops :
    WellNamed shops.fields ∧
      shops.arguments = ["id", "shelves", "shelves.mark", "shelves.goods", "shelves.goods.price"] ∧
      LiesAt shops.fields ["shelves", "goods", "price"] ⟨"price", .currency, none, {}⟩ ∧
      ((shops.modifyArgument "shelves.goods.price" (Field.relabel id fun a =>
        { a with drop := some true })).argument? "shelves.goods").map Field.label =
        some ("goods", none, {}) := by
  obtain ⟨-, ⟨-, hfound⟩, hchange⟩ := arguments_address_fields wellNamed_shops
  obtain ⟨-, -, hother, -⟩ := hchange "shelves.goods.price" id fun a => { a with drop := some true }
  have hgoods := hother "shelves.goods" (by decide)
  have hprice := ((hfound "shelves.goods.price").2 ⟨"price", .currency, none, {}⟩).1 rfl
  exact ⟨wellNamed_shops, rfl, hprice, hgoods.trans rfl⟩

end VocabularyCompiler

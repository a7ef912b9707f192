import Mathlib.Logic.Function.Iterate
import VocabularyCompiler.Proofs.ClassDefinition.Arguments
import VocabularyCompiler.Proofs.StepOrder

/-!
# Changing one argument after another

What a change of the argument at a path does where names may repeat or hold points: the change
reaches one field, or none. Changes at the same path are one change
(`modifyArgument_modifyArgument`), changes at different paths reach different fields and can be made
in either order (`modifyArgument_comm`), and neither the ways nor what is seen at another path
changes. So a change at each of a list of paths changes the phrases at a path as often as the path
is listed (`map_canonical_changePhrases`), whatever stands between, and a change that is not felt
twice can be made again without effect (`changePhrases_changePhrases`). Where names are different
and hold no points, each argument is listed once.
-/

namespace VocabularyCompiler

/-! ## Changing the first of a kind -/

section ModifyFirst

variable {α β : Type _} {p q : α → Bool} {f g : α → α}

/-- Only what happens to the first element that satisfies `p` matters. -/
theorem modifyFirst_congr {l : List α} (h : ∀ a, l.find? p = some a → f a = g a) :
    modifyFirst p f l = modifyFirst p g l := by
  induction l with
  | nil => rfl
  | cons a rest ih =>
    rw [modifyFirst, modifyFirst]
    by_cases ha : p a = true
    · rw [if_pos ha, if_pos ha, h a (List.find?_cons_of_pos ha)]
    · rw [if_neg ha, if_neg ha, ih fun b hb => h b (by rwa [List.find?_cons_of_neg ha])]

/-- A change that changes nothing leaves the list as it is. -/
theorem modifyFirst_id (l : List α) : modifyFirst p (fun a => a) l = l := by
  induction l with
  | nil => rfl
  | cons a rest ih => rw [modifyFirst, ih, ite_self]

/-- Two changes of the first element that satisfies `p` are one. -/
theorem modifyFirst_modifyFirst (hp : ∀ a, p (f a) = p a) (l : List α) :
    modifyFirst p g (modifyFirst p f l) = modifyFirst p (fun a => g (f a)) l := by
  induction l with
  | nil => rfl
  | cons a rest ih =>
    by_cases ha : p a = true
    · simp only [modifyFirst, if_pos ha, hp a]
    · simp only [modifyFirst, if_neg ha, ih]

/-- Changes of two elements that are never the same can be made in either order. -/
theorem modifyFirst_comm (hpq : ∀ a, p a = true → ¬q a = true) (hq : ∀ a, q (f a) = q a)
    (hp : ∀ a, p (g a) = p a) (l : List α) :
    modifyFirst q g (modifyFirst p f l) = modifyFirst p f (modifyFirst q g l) := by
  induction l with
  | nil => rfl
  | cons a rest ih =>
    by_cases ha : p a = true
    · simp only [modifyFirst, if_pos ha, hq a, if_neg (hpq a ha)]
    · by_cases hb : q a = true
      · simp only [modifyFirst, if_neg ha, if_pos hb, hp a]
      · simp only [modifyFirst, if_neg ha, if_neg hb, ih]

/-- The first element that satisfies `p` is found changed. -/
theorem find?_modifyFirst_self (hp : ∀ a, p (f a) = p a) (l : List α) :
    (modifyFirst p f l).find? p = (l.find? p).map f := by
  induction l with
  | nil => rfl
  | cons a rest ih =>
    by_cases ha : p a = true
    · rw [modifyFirst, if_pos ha, List.find?_cons_of_pos ((hp a).trans ha),
        List.find?_cons_of_pos ha, Option.map_some]
    · rw [modifyFirst, if_neg ha, List.find?_cons_of_neg ha, List.find?_cons_of_neg ha, ih]

/-- Another element is found as it was. -/
theorem find?_modifyFirst_of_disjoint (hpq : ∀ a, p a = true → ¬q a = true)
    (hq : ∀ a, q (f a) = q a) (l : List α) : (modifyFirst p f l).find? q = l.find? q := by
  induction l with
  | nil => rfl
  | cons a rest ih =>
    by_cases ha : p a = true
    · have hfa : ¬q (f a) = true := by rw [hq a]; exact hpq a ha
      rw [modifyFirst, if_pos ha, List.find?_cons_of_neg hfa, List.find?_cons_of_neg (hpq a ha)]
    · rw [modifyFirst, if_neg ha, List.find?_cons, List.find?_cons, ih]

/-- What the change leaves as it is, is as it was all over the list. -/
theorem map_modifyFirst {view : α → β} (h : ∀ a, view (f a) = view a) (l : List α) :
    (modifyFirst p f l).map view = l.map view := by
  induction l with
  | nil => rfl
  | cons a rest ih =>
    rw [modifyFirst]
    split
    · rw [List.map_cons, List.map_cons, h a]
    · rw [List.map_cons, List.map_cons, ih]

end ModifyFirst

/-! ## Changing the members of a type -/

namespace ValueType

/-- Two changes of the members of a type are one. -/
theorem mapMembers_mapMembers (F G : List Field → List Field) (t : ValueType) :
    (t.mapMembers F).mapMembers G = t.mapMembers fun members => G (F members) := by
  induction t using ValueType.induction_array with
  | array t ih => exact congrArg ValueType.array ih
  | element t h =>
    cases t with
    | array t => cases h
    | _ => rfl

/-- Only what happens to the members matters. -/
theorem mapMembers_congr {F G : List Field → List Field} {t : ValueType}
    (h : ∀ members, t.members? = some members → F members = G members) :
    t.mapMembers F = t.mapMembers G := by
  induction t using ValueType.induction_array with
  | array t ih => exact congrArg ValueType.array (ih h)
  | element t hnot =>
    cases t with
    | array t => cases hnot
    | compound name fields => exact congrArg (ValueType.compound name) (h fields rfl)
    | _ => rfl

/-- A change that changes nothing leaves a type as it is. -/
theorem mapMembers_id (t : ValueType) : t.mapMembers (fun members => members) = t := by
  induction t using ValueType.induction_array with
  | array t ih => exact congrArg ValueType.array ih
  | element t h =>
    cases t with
    | array t => cases h
    | _ => rfl

/-- The members of a changed type are the changed members of the type. -/
theorem members?_mapMembers (F : List Field → List Field) (t : ValueType) :
    (t.mapMembers F).members? = t.members?.map F := by
  induction t using ValueType.induction_array with
  | array t ih => exact ih
  | element t h =>
    cases t with
    | array t => cases h
    | _ => rfl

/-- Entities have no members. -/
theorem entityKind?_mapMembers (F : List Field → List Field) (t : ValueType) :
    (t.mapMembers F).entityKind? = t.entityKind? := by
  induction t using ValueType.induction_array with
  | array t ih => exact ih
  | element t h =>
    cases t with
    | array t => cases h
    | _ => rfl

end ValueType

/-! ## Changing the argument at the end of a way -/

/-- A change that leaves the name and the type of a field and does not depend on the type. -/
structure KeepsShape (change : Field → Field) : Prop where
  name : ∀ f, (change f).name = f.name
  withType : ∀ f t, change { f with type := t } = { change f with type := t }

namespace KeepsShape

/-- The type is left as it is. -/
theorem type {change : Field → Field} (h : KeepsShape change) (f : Field) :
    (change f).type = f.type := by
  obtain ⟨name, type, canonical, annotations⟩ := f
  exact (congrArg Field.type (h.withType ⟨name, type, canonical, annotations⟩ type) :)

/-- A change of the phrases alone. -/
theorem canonical (g : Option PhraseSet → Option PhraseSet) :
    KeepsShape fun f => { f with canonical := g f.canonical } := ⟨fun _ => rfl, fun _ _ => rfl⟩

end KeepsShape

/-- A change of the argument at the end of a way, as a change of the field before that way. -/
def changeAlong (change : Field → Field) : List String → Field → Field
  | [], f => change f
  | next :: rest, f => { f with type := f.type.mapMembers (modifyArgument change (next :: rest)) }

/-- The argument at the end of a way that begins at a field. -/
def followWay : List String → Field → Option Field
  | [], f => some f
  | next :: rest, f => f.type.members?.bind fun members => findArgument? members (next :: rest)

theorem modifyArgument_cons (change : Field → Field) (name : String) (rest : List String)
    (fields : List Field) : modifyArgument change (name :: rest) fields =
      modifyFirst (fun f => f.name = name) (changeAlong change rest) fields := by
  cases rest <;> rfl

theorem findArgument?_cons (fields : List Field) (name : String) (rest : List String) :
    findArgument? fields (name :: rest) =
      (fields.find? fun f => f.name = name).bind (followWay rest) := by
  cases rest with
  | nil => exact (Option.bind_fun_some _).symm
  | cons next rest => rfl

section ModifyArgument

variable {change change' : Field → Field}

/-- A field keeps its name. -/
theorem name_changeAlong (h : KeepsShape change) (rest : List String) (f : Field) :
    (changeAlong change rest f).name = f.name := by
  cases rest with
  | nil => exact h.name f
  | cons next rest => rfl

/-- Only what happens to the argument at the end of the way matters. -/
theorem modifyArgument_congr {way : List String} {fields : List Field}
    (h : ∀ f, findArgument? fields way = some f → change f = change' f) :
    modifyArgument change way fields = modifyArgument change' way fields := by
  induction way generalizing fields with
  | nil => rfl
  | cons name rest ih =>
    rw [modifyArgument_cons, modifyArgument_cons]
    refine modifyFirst_congr fun f hf => ?_
    rw [findArgument?_cons, hf, Option.bind_some] at h
    cases rest with
    | nil => exact h f rfl
    | cons next rest =>
      have hmembers : f.type.mapMembers (modifyArgument change (next :: rest)) =
          f.type.mapMembers (modifyArgument change' (next :: rest)) := by
        refine ValueType.mapMembers_congr fun members hmembers => ih fun f' hf' => h f' ?_
        rw [followWay, hmembers]
        exact hf'
      rw [changeAlong, changeAlong, hmembers]

/-- A change that changes nothing leaves fields as they are. -/
theorem modifyArgument_id (way : List String) (fields : List Field) :
    modifyArgument (fun f => f) way fields = fields := by
  induction way generalizing fields with
  | nil => rfl
  | cons name rest ih =>
    have hid : changeAlong (fun f => f) rest = fun f => f := by
      cases rest with
      | nil => rfl
      | cons next rest =>
        funext ⟨name, type, canonical, annotations⟩
        rw [changeAlong, funext ih, ValueType.mapMembers_id]
    rw [modifyArgument_cons, hid, modifyFirst_id]

/-- A change that leaves the argument at the end of the way leaves all fields as they are. -/
theorem modifyArgument_eq_self {way : List String} {fields : List Field}
    (h : ∀ f, findArgument? fields way = some f → change f = f) :
    modifyArgument change way fields = fields :=
  (modifyArgument_congr h).trans (modifyArgument_id way fields)

/-- Two changes of one argument are one. -/
theorem modifyArgument_modifyArgument (h : KeepsShape change) (way : List String)
    (fields : List Field) : modifyArgument change' way (modifyArgument change way fields) =
      modifyArgument (fun f => change' (change f)) way fields := by
  induction way generalizing fields with
  | nil => rfl
  | cons name rest ih =>
    rw [modifyArgument_cons, modifyArgument_cons, modifyArgument_cons,
      modifyFirst_modifyFirst fun f => by rw [name_changeAlong h]]
    congr 1
    funext f
    cases rest with
    | nil => rfl
    | cons next rest =>
      simp only [changeAlong]
      rw [ValueType.mapMembers_mapMembers, funext ih]

/-- Changes of two arguments can be made in either order. -/
theorem modifyArgument_comm (h : KeepsShape change) (h' : KeepsShape change')
    {way way' : List String} (hne : way ≠ way') (fields : List Field) :
    modifyArgument change' way' (modifyArgument change way fields) =
      modifyArgument change way (modifyArgument change' way' fields) := by
  induction way generalizing way' fields with
  | nil => rfl
  | cons name rest ih =>
    cases way' with
    | nil => rfl
    | cons name' rest' =>
      simp only [modifyArgument_cons]
      by_cases hname : name = name'
      · -- Both ways lead through one field: the ends differ, or one is above the other.
        subst hname
        have hrest : rest ≠ rest' := fun heq => hne (by rw [heq])
        rw [modifyFirst_modifyFirst fun f => by rw [name_changeAlong h],
          modifyFirst_modifyFirst fun f => by rw [name_changeAlong h']]
        congr 1
        funext f
        cases rest with
        | nil =>
          cases rest' with
          | nil => exact absurd rfl hrest
          | cons next' rest' =>
            simp only [changeAlong]
            rw [h.withType, h.type]
        | cons next rest =>
          cases rest' with
          | nil =>
            simp only [changeAlong]
            rw [h'.withType, h'.type]
          | cons next' rest' =>
            simp only [changeAlong]
            rw [ValueType.mapMembers_mapMembers, ValueType.mapMembers_mapMembers,
              funext fun members => ih hrest members]
      · refine modifyFirst_comm (fun f hf hf' => hname ?_) (fun f => ?_) (fun f => ?_) fields
        · exact (of_decide_eq_true hf).symm.trans (of_decide_eq_true hf')
        · rw [name_changeAlong h]
        · rw [name_changeAlong h']

/-- The argument is found changed. -/
theorem findArgument?_modifyArgument_self (h : KeepsShape change) (way : List String)
    (fields : List Field) : findArgument? (modifyArgument change way fields) way =
      (findArgument? fields way).map change := by
  induction way generalizing fields with
  | nil => rfl
  | cons name rest ih =>
    rw [modifyArgument_cons, findArgument?_cons, findArgument?_cons,
      find?_modifyFirst_self fun f => by rw [name_changeAlong h]]
    cases fields.find? fun f => f.name = name with
    | none => rfl
    | some f =>
      cases rest with
      | nil => rfl
      | cons next rest =>
        simp only [Option.map_some, Option.bind_some, followWay, changeAlong,
          ValueType.members?_mapMembers]
        cases f.type.members? with
        | none => rfl
        | some members => exact ih members

/-- What does not depend on the members of a field is found at another way as it was. -/
theorem findArgument?_modifyArgument_of_ne {β : Type _} (h : KeepsShape change)
    {view : Field → β}
    (hview : ∀ (f : Field) F, view { f with type := f.type.mapMembers F } = view f)
    {way way' : List String} (hne : way ≠ way') (fields : List Field) :
    (findArgument? (modifyArgument change way fields) way').map view =
      (findArgument? fields way').map view := by
  induction way generalizing way' fields with
  | nil => rfl
  | cons name rest ih =>
    cases way' with
    | nil => rfl
    | cons name' rest' =>
      rw [modifyArgument_cons, findArgument?_cons, findArgument?_cons]
      by_cases hname : name = name'
      · subst hname
        have hrest : rest ≠ rest' := fun heq => hne (by rw [heq])
        rw [find?_modifyFirst_self fun f => by rw [name_changeAlong h]]
        cases fields.find? fun f => f.name = name with
        | none => rfl
        | some f =>
          rw [Option.map_some, Option.bind_some, Option.bind_some]
          cases rest with
          | nil =>
            cases rest' with
            | nil => exact absurd rfl hrest
            | cons next' rest' =>
              rw [changeAlong, followWay, followWay, h.type]
          | cons next rest =>
            cases rest' with
            | nil => exact congrArg some (hview f _)
            | cons next' rest' =>
              simp only [changeAlong, followWay, ValueType.members?_mapMembers]
              cases f.type.members? with
              | none => rfl
              | some members => exact ih hrest members
      · rw [find?_modifyFirst_of_disjoint fun f hf hf' => hname ?_]
        · exact fun f => by rw [name_changeAlong h]
        · exact (of_decide_eq_true hf).symm.trans (of_decide_eq_true hf')

/-- The ways to the fields are the same after a change. -/
theorem fieldWays_modifyArgument (h : KeepsShape change) (way : List String)
    (fields : List Field) : fieldWays (modifyArgument change way fields) = fieldWays fields := by
  induction way generalizing fields with
  | nil => rfl
  | cons name rest ih =>
    have hways : ∀ f, (changeAlong change rest f).ways = f.ways := by
      intro f
      unfold Field.ways
      rw [name_changeAlong h]
      cases rest with
      | nil =>
        rw [changeAlong, h.type]
      | cons next rest =>
        simp only [changeAlong]
        rw [ValueType.memberWays_eq, ValueType.memberWays_eq, ValueType.members?_mapMembers,
          Option.map_map, Function.comp_def, funext ih]
    rw [modifyArgument_cons, fieldWays_eq_flatMap, fieldWays_eq_flatMap, List.flatMap_def,
      List.flatMap_def, map_modifyFirst hways]

end ModifyArgument

/-! ## Where arguments are found -/

/-- A field that is found on a way is one that the ways lead to. -/
theorem mem_fieldWays_of_findArgument? {way : List String} {fields : List Field} {f : Field}
    (h : findArgument? fields way = some f) : way ∈ fieldWays fields := by
  induction way generalizing fields with
  | nil => cases h
  | cons name rest ih =>
    rw [findArgument?_cons] at h
    obtain ⟨f', hf', hfound⟩ := Option.bind_eq_some_iff.1 h
    have hname : f'.name = name := by simpa using List.find?_some hf'
    refine mem_fieldWays_iff.2 ⟨f', List.mem_of_find?_eq_some hf', rest, by rw [hname], ?_⟩
    cases rest with
    | nil => exact Or.inl rfl
    | cons next rest =>
      obtain ⟨members, hmembers, hfound⟩ := Option.bind_eq_some_iff.1 hfound
      exact Or.inr (ValueType.mem_memberWays_iff.2 ⟨members, hmembers, ih hfound⟩)

/-- The path of an argument that is found is listed. -/
theorem Query.mem_arguments_of_argument? {q : Query} {path : String} {f : Field}
    (h : q.argument? path = some f) : path ∈ q.arguments := by
  rw [q.arguments_eq_map]
  exact List.mem_map.2 ⟨_, mem_fieldWays_of_findArgument? h, intercalate_splitPath path⟩

/-- Where names are different and hold no points, no path is listed twice. -/
theorem WellNamed.nodup_arguments {q : Query} (h : WellNamed q.fields) : q.arguments.Nodup := by
  rw [q.arguments_eq_map]
  refine h.nodup_fieldWays.map_on fun way hway way' hway' heq => ?_
  rw [← h.splitPath_intercalate hway, heq, h.splitPath_intercalate hway']

/-! ## Changing the phrases of arguments -/

/-- A path gives its way, so different paths give different ways. -/
theorem splitPath_injective : Function.Injective splitPath :=
  Function.LeftInverse.injective intercalate_splitPath

namespace Query

/-- The phrases of the argument at a path, if there are any. -/
def phrases? (q : Query) (path : String) : Option PhraseSet :=
  (q.argument? path).bind Field.canonical

/-- A query with the phrases of the argument at a path changed. -/
def modifyPhrases (q : Query) (path : String) (g : Option PhraseSet → Option PhraseSet) : Query :=
  q.modifyArgument path fun f => { f with canonical := g f.canonical }

/-- A query with the phrases of the arguments at some paths changed, one after another. -/
def changePhrases (q : Query) (paths : List String)
    (g : String → Option PhraseSet → Option PhraseSet) : Query :=
  paths.foldl (fun q path => q.modifyPhrases path (g path)) q

variable {q : Query} {g h : Option PhraseSet → Option PhraseSet} {path path' : String}

/-- Only what happens to the argument at the path matters. -/
theorem modifyArgument_eq_modifyPhrases {change : Field → Field}
    (hchange : ∀ f, q.argument? path = some f → change f = { f with canonical := g f.canonical }) :
    q.modifyArgument path change = q.modifyPhrases path g := by
  unfold modifyPhrases modifyArgument
  rw [modifyArgument_congr hchange]

/-- A change that leaves the phrases at a path leaves the query as it is. -/
theorem modifyPhrases_eq_self (hg : ∀ f, q.argument? path = some f → g f.canonical = f.canonical) :
    q.modifyPhrases path g = q := by
  unfold modifyPhrases modifyArgument
  rw [modifyArgument_eq_self]
  rintro ⟨name, type, canonical, annotations⟩ hf
  rw [hg _ hf]

/-- Two changes at one path are one. -/
theorem modifyPhrases_modifyPhrases (q : Query) (path : String)
    (g h : Option PhraseSet → Option PhraseSet) :
    (q.modifyPhrases path g).modifyPhrases path h = q.modifyPhrases path fun s => h (g s) := by
  unfold modifyPhrases modifyArgument
  dsimp only
  rw [modifyArgument_modifyArgument (KeepsShape.canonical g)]

/-- Changes at two paths can be made in either order. -/
theorem modifyPhrases_comm (hne : path ≠ path') :
    (q.modifyPhrases path g).modifyPhrases path' h =
      (q.modifyPhrases path' h).modifyPhrases path g := by
  unfold modifyPhrases modifyArgument
  dsimp only
  rw [modifyArgument_comm (KeepsShape.canonical g) (KeepsShape.canonical h)
    (splitPath_injective.ne hne)]

@[simp]
theorem arguments_modifyPhrases (q : Query) (path : String)
    (g : Option PhraseSet → Option PhraseSet) :
    (q.modifyPhrases path g).arguments = q.arguments := by
  rw [arguments_eq_map, arguments_eq_map]
  unfold modifyPhrases modifyArgument
  dsimp only
  rw [fieldWays_modifyArgument (KeepsShape.canonical g)]

/-- The phrases at a path change with a change at that path only. -/
theorem map_canonical_modifyPhrases (q : Query) (path path' : String)
    (g : Option PhraseSet → Option PhraseSet) :
    ((q.modifyPhrases path g).argument? path').map Field.canonical =
      (q.argument? path').map fun f => if path = path' then g f.canonical else f.canonical := by
  unfold modifyPhrases modifyArgument argument?
  dsimp only
  by_cases hpath : path = path'
  · subst hpath
    rw [findArgument?_modifyArgument_self (KeepsShape.canonical g), Option.map_map]
    simp only [if_true, Function.comp_def]
  · rw [findArgument?_modifyArgument_of_ne (KeepsShape.canonical g) (fun _ _ => rfl)
      (splitPath_injective.ne hpath)]
    simp only [if_neg hpath]

/-- The kind of entities that an argument holds does not change. -/
theorem map_entityKind?_modifyPhrases (q : Query) (path path' : String)
    (g : Option PhraseSet → Option PhraseSet) :
    ((q.modifyPhrases path g).argument? path').map (fun f => f.type.entityKind?) =
      (q.argument? path').map fun f => f.type.entityKind? := by
  unfold modifyPhrases modifyArgument argument?
  dsimp only
  by_cases hpath : path = path'
  · subst hpath
    rw [findArgument?_modifyArgument_self (KeepsShape.canonical g), Option.map_map]
    rfl
  · exact findArgument?_modifyArgument_of_ne (KeepsShape.canonical g)
      (fun f F => f.type.entityKind?_mapMembers F) (splitPath_injective.ne hpath) q.fields

/-- The phrases that a query has at a path are told from those of the argument there. -/
theorem phrases?_of_map_canonical {q q' : Query} {path : String} {g : Field → Option PhraseSet}
    (h : (q'.argument? path).map Field.canonical = (q.argument? path).map g) :
    q'.phrases? path = (q.argument? path).bind g := by
  have hjoin := congrArg (Option.bind · id) h
  rwa [Option.bind_map, Option.bind_map, Function.id_comp, Function.id_comp] at hjoin

section ChangePhrases

variable {paths : List String} {g : String → Option PhraseSet → Option PhraseSet}

@[simp]
theorem arguments_changePhrases (q : Query) (paths : List String)
    (g : String → Option PhraseSet → Option PhraseSet) :
    (q.changePhrases paths g).arguments = q.arguments := by
  unfold changePhrases
  induction paths generalizing q with
  | nil => rfl
  | cons path rest ih => rw [List.foldl_cons, ih, arguments_modifyPhrases]

/-- The phrases at a path are changed as often as the path is listed. -/
theorem map_canonical_changePhrases (q : Query) (paths : List String)
    (g : String → Option PhraseSet → Option PhraseSet) (path : String) :
    ((q.changePhrases paths g).argument? path).map Field.canonical =
      (q.argument? path).map fun f => (g path)^[paths.count path] f.canonical := by
  unfold changePhrases
  induction paths generalizing q with
  | nil => rfl
  | cons next rest ih =>
    have hnext := map_canonical_modifyPhrases q next path (g next)
    rw [List.foldl_cons, ih, List.count_cons]
    -- What follows depends on the phrases that the first change leaves.
    have hmap := congrArg (Option.map ((g path)^[rest.count path])) hnext
    rw [Option.map_map, Option.map_map] at hmap
    refine hmap.trans (congrArg (fun F => (q.argument? path).map F) (funext fun f => ?_))
    by_cases hpath : next = path
    · subst hpath
      simp [Function.iterate_succ_apply]
    · simp [hpath]

/-- The phrases that a query has at a path are changed as often as the path is listed. -/
theorem phrases?_changePhrases (q : Query) (paths : List String)
    (g : String → Option PhraseSet → Option PhraseSet) (path : String) :
    (q.changePhrases paths g).phrases? path =
      (q.argument? path).bind fun f => (g path)^[paths.count path] f.canonical :=
  phrases?_of_map_canonical (map_canonical_changePhrases q paths g path)

/-- Where names are different and hold no points, a change at the path of every argument changes
the phrases of each argument once. -/
theorem map_canonical_changePhrases_arguments (h : WellNamed q.fields)
    (g : String → Option PhraseSet → Option PhraseSet) (path : String) :
    ((q.changePhrases q.arguments g).argument? path).map Field.canonical =
      (q.argument? path).map fun f => g path f.canonical := by
  rw [map_canonical_changePhrases]
  cases hf : q.argument? path with
  | none => rfl
  | some f =>
    have hcount := List.count_eq_one_of_mem h.nodup_arguments (mem_arguments_of_argument? hf)
    rw [hcount, Function.iterate_one]

/-- Names are different and hold no points after a change of phrases. -/
theorem wellNamed_changePhrases (h : WellNamed q.fields) (paths : List String)
    (g : String → Option PhraseSet → Option PhraseSet) :
    WellNamed (q.changePhrases paths g).fields := by
  unfold changePhrases
  refine List.foldlRecOn paths _ (motive := fun q : Query => WellNamed q.fields) h ?_
  intro q hq path _
  unfold modifyPhrases modifyArgument
  dsimp only
  rw [hq.modifyArgument_eq_mapPhrases]
  exact hq.mapPhrases _

/-- Two passes over all arguments change the phrases of each by one change and then by the other. -/
theorem phrases?_changePhrases_changePhrases (hq : WellNamed q.fields)
    (g h : String → Option PhraseSet → Option PhraseSet) (path : String) :
    ((q.changePhrases q.arguments g).changePhrases q.arguments h).phrases? path =
      (q.argument? path).bind fun f => h path (g path f.canonical) := by
  have hfirst := congrArg (Option.map (h path)) (map_canonical_changePhrases_arguments hq g path)
  have hsecond := map_canonical_changePhrases_arguments
    (wellNamed_changePhrases hq q.arguments g) h path
  rw [Option.map_map, Option.map_map] at hfirst
  rw [arguments_changePhrases] at hsecond
  exact phrases?_of_map_canonical (hsecond.trans hfirst)

/-- A change that leaves the phrases of every argument leaves the query as it is. -/
theorem changePhrases_eq_self
    (hg : ∀ path f, q.argument? path = some f → g path f.canonical = f.canonical) :
    q.changePhrases paths g = q := by
  unfold changePhrases
  refine List.foldlRecOn paths _ (motive := fun q' => q' = q) rfl fun q' hq' path _ => ?_
  rw [hq', modifyPhrases_eq_self (hg path)]

/-- Where no set that is changed comes back after further changes, a query is left as it is if and
only if every set of phrases in it is. -/
theorem changePhrases_arguments_eq_self_iff {change : String → PhraseSet → PhraseSet}
    (hchange : ∀ path s n, (change path)^[n + 1] s = s → change path s = s) :
    q.changePhrases q.arguments (fun path => Option.map (change path)) = q ↔
      ∀ path s, q.phrases? path = some s → change path s = s := by
  constructor
  · intro h path s hs
    obtain ⟨f, hf, hcanonical⟩ := Option.bind_eq_some_iff.1 hs
    -- The path is listed, so the set is changed at least once.
    obtain ⟨n, hn⟩ := Nat.exists_eq_succ_of_ne_zero
      (Nat.ne_of_gt (List.count_pos_iff.2 (mem_arguments_of_argument? hf)))
    have hiterate : (Option.map (change path))^[n + 1] (some s) =
        some ((change path)^[n + 1] s) := by
      have hsome : Function.Semiconj some (change path) (Option.map (change path)) := fun _ => rfl
      exact ((hsome.iterate_right (n + 1)) s).symm
    have hphrases := phrases?_changePhrases q q.arguments
      (fun path => Option.map (change path)) path
    rw [h, hs, hf, Option.bind_some, hcanonical, hn, hiterate] at hphrases
    exact hchange path s n (Option.some_inj.1 hphrases).symm
  · intro h
    refine changePhrases_eq_self fun path f hf => ?_
    cases hs : f.canonical with
    | none => rfl
    | some s =>
      have hphrases : q.phrases? path = some s := by rw [phrases?, hf, Option.bind_some, hs]
      rw [Option.map_some, h path s hphrases]

/-- A change of phrases that is not felt twice can be made again without effect. -/
theorem changePhrases_changePhrases (hg : ∀ path s, g path (g path s) = g path s) (q : Query) :
    (q.changePhrases paths g).changePhrases paths g = q.changePhrases paths g := by
  let step (q : Query) (path : String) : Query := q.modifyPhrases path (g path)
  have hself : ∀ q path, step (step q path) path = step q path := by
    intro q path
    simp only [step, modifyPhrases_modifyPhrases, hg]
  have hcomm : ∀ q path path', step (step q path) path' = step (step q path') path := by
    intro q path path'
    by_cases hpath : path = path'
    · rw [hpath]
    · exact modifyPhrases_comm hpath
  change paths.foldl step (paths.foldl step q) = paths.foldl step q
  induction paths generalizing q with
  | nil => rfl
  | cons path rest ih =>
    -- The second change at the first path may be made right after the first one.
    have hfirst : rest.foldl step (step (step q path) path) =
        step (rest.foldl step (step q path)) path :=
      foldl_step_comm (fun _ => rfl) Eq.trans (fun b h => congrArg (step · b) h) hcomm path rest _
    rw [List.foldl_cons, List.foldl_cons, ← hfirst, hself, ih]

end ChangePhrases

end Query

/-- The phrases of the argument at a path of a query, if there are any. -/
def ClassDefinition.phrases? (c : ClassDefinition) (name path : String) : Option PhraseSet :=
  (c.queries.get? name).bind fun q => q.phrases? path

/-- The phrases at a path are those of the argument that is found there. -/
theorem ClassDefinition.phrases?_eq_some_iff {c : ClassDefinition} {name path : String}
    {s : PhraseSet} : c.phrases? name path = some s ↔
      ∃ q f, c.queries.get? name = some q ∧ q.argument? path = some f ∧ f.canonical = some s := by
  simp only [ClassDefinition.phrases?, Query.phrases?, Option.bind_eq_some_iff, exists_and_left]

end VocabularyCompiler

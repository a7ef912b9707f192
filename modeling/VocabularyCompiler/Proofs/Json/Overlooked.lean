import VocabularyCompiler.Proofs.Json.Texts

/-!
# What a reader overlooks

A reader of a record passes over the members under keys that are not its own, and it does so with
fewer checks than a reader of any value makes. So a text may be taken as a record although it is not
a value as a whole (`Source.Faultless`): the two differ by what stands under other keys and by
nothing else, if each field of the record reads all that is given to it
(`Taken.faultless_iff_of_readsAll`).
-/

namespace VocabularyCompiler.Json

open Reader

namespace Source

/-- A source can be read as a value where so many containers may be opened, one inside the other. -/
def Faultless (budget : Nat) (s : Source) : Prop := ∃ v, any budget s = .ok v

/-- An array is faultless if it does not break off and its items are faultless. -/
theorem faultless_array_iff {n : Nat} {items : List Source} {breach : Option Breach} :
    (array items breach).Faultless (n + 1) ↔ breach = none ∧ ∀ s ∈ items, s.Faultless n := by
  have hitems : ∀ i, (∃ vs, anyItems n i items = .ok vs) ↔ ∀ s ∈ items, s.Faultless n := by
    induction items with
    | nil => exact fun i => ⟨fun _ => List.forall_mem_nil _, fun _ => ⟨[], rfl⟩⟩
    | cons s rest ih =>
      intro i
      rw [List.forall_mem_cons, ← ih (i + 1)]
      constructor
      · rintro ⟨vs, hvs⟩
        obtain ⟨v, hv, hvs⟩ := bind_eq_ok_iff.1 hvs
        obtain ⟨rest', hrest, -⟩ := bind_eq_ok_iff.1 hvs
        exact ⟨⟨v, within_eq_ok_iff.1 hv⟩, rest', hrest⟩
      · rintro ⟨⟨v, hv⟩, vs, hvs⟩
        exact ⟨v :: vs, bind_eq_ok_iff.2 ⟨v, within_eq_ok_iff.2 hv,
          bind_eq_ok_iff.2 ⟨vs, hvs, rfl⟩⟩⟩
  rw [← hitems 0]
  constructor
  · rintro ⟨v, hv⟩
    obtain ⟨vs, hvs, hend⟩ := bind_eq_ok_iff.1 hv
    cases breach with
    | none => exact ⟨rfl, vs, hvs⟩
    | some b => cases hend
  · rintro ⟨rfl, vs, hvs⟩
    exact ⟨.array vs, bind_eq_ok_iff.2 ⟨vs, hvs, rfl⟩⟩

/-- An object is faultless if each member has a key and a faultless value. -/
theorem faultless_object_iff {n : Nat} {members : List (Key × Source)} :
    (object members).Faultless (n + 1) ↔
      ∀ m ∈ members, (∃ key, m.1 = .name key) ∧ m.2.Faultless n := by
  have hmembers : (∃ ms, anyMembers n members = .ok ms) ↔
      ∀ m ∈ members, (∃ key, m.1 = .name key) ∧ m.2.Faultless n := by
    induction members with
    | nil => exact ⟨fun _ => List.forall_mem_nil _, fun _ => ⟨[], rfl⟩⟩
    | cons m rest ih =>
      obtain ⟨key, s⟩ := m
      rw [List.forall_mem_cons, ← ih]
      cases key with
      | absent read skip =>
        exact ⟨fun ⟨_, h⟩ => (nomatch h), fun ⟨⟨⟨_, h⟩, _⟩, _⟩ => (nomatch h)⟩
      | flawed fault => exact ⟨fun ⟨_, h⟩ => (nomatch h), fun ⟨⟨⟨_, h⟩, _⟩, _⟩ => (nomatch h)⟩
      | name key =>
        simp only [anyMembers_cons_eq_ok_iff]
        constructor
        · rintro ⟨_, v, vs, hv, hvs, -⟩
          exact ⟨⟨⟨key, rfl⟩, v, hv⟩, vs, hvs⟩
        · rintro ⟨⟨-, v, hv⟩, vs, hvs⟩
          exact ⟨_, v, vs, hv, hvs, rfl⟩
  rw [← hmembers]
  constructor
  · rintro ⟨v, hv⟩
    obtain ⟨ms, hms, -⟩ := bind_eq_ok_iff.1 hv
    exact ⟨ms, hms⟩
  · rintro ⟨ms, hms⟩
    exact ⟨_, bind_eq_ok_iff.2 ⟨ms, hms, rfl⟩⟩

/-- The items of an array. -/
def items : Source → List Source
  | array items _ => items
  | _ => []

/-- What stands in a record under some keys. An array holds the fields of a record without keys. -/
def under (keys : List String) : Source → List Source
  | object members => members.filterMap fun m => match m.1 with
    | .name key => if key ∈ keys then some m.2 else none
    | _ => none
  | array items _ => items
  | _ => []

/-- What stands in a record under other keys than some. -/
def otherThan (keys : List String) : Source → List Source
  | object members => members.filterMap fun m => match m.1 with
    | .name key => if key ∈ keys then none else some m.2
    | _ => none
  | _ => []

/-- What stands in an object under some keys are the values of the members with such a key. -/
theorem mem_under_iff {keys : List String} {members : List (Key × Source)} {s : Source} :
    s ∈ (object members).under keys ↔ ∃ key ∈ keys, (.name key, s) ∈ members := by
  simp only [under, List.mem_filterMap]
  constructor
  · rintro ⟨⟨key, t⟩, hm, hs⟩
    cases key with
    | name key =>
      obtain ⟨hkey, hs⟩ := Option.ite_none_right_eq_some.1 hs
      cases hs
      exact ⟨key, hkey, hm⟩
    | absent read skip => cases hs
    | flawed fault => cases hs
  · rintro ⟨key, hkey, hm⟩
    exact ⟨_, hm, if_pos hkey⟩

/-- What stands in an object under other keys are the values of the members with such a key. -/
theorem mem_otherThan_iff {keys : List String} {members : List (Key × Source)} {s : Source} :
    s ∈ (object members).otherThan keys ↔ ∃ key, key ∉ keys ∧ (.name key, s) ∈ members := by
  simp only [otherThan, List.mem_filterMap]
  constructor
  · rintro ⟨⟨key, t⟩, hm, hs⟩
    cases key with
    | name key =>
      obtain ⟨hkey, hs⟩ := Option.ite_none_left_eq_some.1 hs
      cases hs
      exact ⟨key, hkey, hm⟩
    | absent read skip => cases hs
    | flawed fault => cases hs
  · rintro ⟨key, hkey, hm⟩
    exact ⟨_, hm, if_neg hkey⟩

end Source

namespace Reader

variable {α β σ : Type}

/-- A reader takes nothing from a text but what is a value as a whole. -/
def ReadsAll (read : Reader α) : Prop :=
  ∀ (b : Nat) (s : Source) (a : α), read ⟨.text, b⟩ s = .ok a → s.Faultless b

/-- A string is a value. -/
theorem readsAll_string : Reader.string.ReadsAll := by
  intro b s a h
  cases s with
  | string text => exact ⟨.string text, rfl⟩
  | null | bool _ | number _ | array _ _ | object _ | missing | unset _ | broken _ _ _ => cases h

/-- Any value is a value. -/
theorem readsAll_value : Reader.value.ReadsAll := fun _ _ v h => ⟨v, h⟩

/-- The whole of a value is read before its form is looked at. -/
theorem readsAll_oneOf (type : String) (fit : Source → Option α) : (oneOf type fit).ReadsAll := by
  intro b s a h
  obtain ⟨v, hv, -⟩ := bind_eq_ok_iff.1 h
  exact ⟨v, hv⟩

/-- What is made of a value does not change what is read. -/
theorem ReadsAll.map {read : Reader α} (h : read.ReadsAll) (f : α → β) :
    ReadsAll fun scope source => (read scope source).map f := by
  intro b s c hc
  obtain ⟨a, ha, -⟩ := map_eq_ok_iff.1 hc
  exact h b s a ha

/-- What may be left out is read if it is there. -/
theorem ReadsAll.option {read : Reader α} (h : read.ReadsAll) : (option read).ReadsAll := by
  intro b s a? ha
  cases s with
  | null => exact ⟨.null, rfl⟩
  | bool _ | number _ | string _ | array _ _ | object _ | missing | unset _ | broken _ _ _ =>
    exact h.map some b _ a? ha

/-- There is a result for each item if there is one for all of them. -/
theorem forall_of_items_eq_ok {read : Source → Except ReadError α} {i : Nat} {items : List Source}
    {as : List α} (h : Reader.items read i items = .ok as) : ∀ s ∈ items, ∃ a, read s = .ok a := by
  have hread := items_eq_ok_iff.1 h
  clear h
  induction hread with
  | nil => exact List.forall_mem_nil _
  | cons hhead _ ih => exact List.forall_mem_cons.2 ⟨⟨_, hhead⟩, ih⟩

/-- The items of an array that is read are read. -/
theorem exists_of_list_eq_ok {read : Reader α} {b : Nat} {s : Source} {as : List α}
    (h : list read ⟨.text, b⟩ s = .ok as) : ∃ n items, b = n + 1 ∧ s = .array items none ∧
      ∀ t ∈ items, ∃ a, read ⟨.text, n⟩ t = .ok a := by
  cases s with
  | array items breach =>
    obtain ⟨n, rfl, hinner⟩ := exists_of_enter_bind_eq_ok h
    obtain ⟨as', hitems, hend⟩ := bind_eq_ok_iff.1 hinner
    cases breach with
    | some b => cases hend
    | none =>
      exact ⟨n, items, rfl, rfl, forall_of_items_eq_ok hitems⟩
  | null | bool _ | number _ | string _ | object _ | missing | unset _ | broken _ _ _ => cases h

/-! ## Records -/

section Records

variable {fields : List (FieldReader σ)} {n : Nat}

/-- A field of a record has read something. -/
def ReadByField (fields : List (FieldReader σ)) (n : Nat) (s : Source) (f : FieldReader σ) : Prop :=
  f ∈ fields ∧ ∃ st st', f.read st ⟨.text, n⟩ s = .ok st'

/-- A source is taken as a record: as an object whose members are read by the fields that they
belong to, or passed over, or as an array whose items are all read by fields. -/
inductive Taken (fields : List (FieldReader σ)) (n : Nat) : Source → Prop
  | object {members : List (Key × Source)}
      (h : ∀ m ∈ members, ∃ key, m.1 = .name key ∧
        (key ∈ fields.flatMap FieldReader.keys → ∃ f, ReadByField fields n m.2 f)) :
      Taken fields n (.object members)
  | array {items : List Source} (h : ∀ s ∈ items, ∃ f, ReadByField fields n s f) :
      Taken fields n (.array items none)

/-- The members of an object that is read have keys, and those under the key of a field are read by
one. -/
theorem readByField_of_recordMembers {st : σ} {seen : List String} {members : List (Key × Source)}
    {result : σ × List String}
    (h : recordMembers fields ⟨.text, n⟩ st seen members = .ok result) :
    ∀ m ∈ members, ∃ key, m.1 = .name key ∧
      (key ∈ fields.flatMap FieldReader.keys → ∃ f, ReadByField fields n m.2 f) := by
  induction members generalizing st seen with
  | nil => exact List.forall_mem_nil _
  | cons m rest ih =>
    obtain ⟨key, s⟩ := m
    cases key with
    | absent read skip => cases h
    | flawed fault => cases h
    | name key =>
      rw [recordMembers] at h
      rw [List.forall_mem_cons]
      cases hfind : fields.find? fun f => f.isNamed key with
      | none =>
        simp only [hfind] at h
        obtain ⟨_, -, hrest⟩ := bind_eq_ok_iff.1 h
        refine ⟨⟨key, rfl, fun hkey => ?_⟩, ih hrest⟩
        obtain ⟨f, hf, hkey⟩ := List.mem_flatMap.1 hkey
        exact absurd (FieldReader.isNamed_iff.2 hkey) (List.find?_eq_none.1 hfind f hf)
      | some f =>
        simp only [hfind] at h
        split at h
        next => cases h
        next =>
          obtain ⟨st', hread, hrest⟩ := bind_eq_ok_iff.1 h
          exact ⟨⟨key, rfl, fun _ => ⟨f, List.mem_of_find?_eq_some hfind, st, st',
            (atMember_eq_ok_iff.1 hread).2⟩⟩, ih hrest⟩

/-- The items of an array that are not left over are read by fields. -/
theorem readByField_of_recordItems {expected : String} {breach : Option Breach} {i : Nat} {st : σ}
    {items : List Source} {result : σ × List Source}
    (h : recordItems expected ⟨.text, n⟩ breach i st fields items = .ok result) :
    ∀ s ∈ items, s ∈ result.2 ∨ ∃ f, ReadByField fields n s f := by
  induction fields generalizing i st items with
  | nil =>
    cases h
    exact fun s hs => .inl hs
  | cons f fields ih =>
    cases items with
    | nil => exact List.forall_mem_nil _
    | cons s items =>
      obtain ⟨st', hread, hrest⟩ := bind_eq_ok_iff.1 h
      refine List.forall_mem_cons.2 ⟨.inr ⟨f, List.mem_cons_self, st, st',
        within_eq_ok_iff.1 hread⟩, fun t ht => ?_⟩
      refine (ih hrest t ht).imp_right ?_
      rintro ⟨g, hg, hread⟩
      exact ⟨g, List.mem_cons_of_mem _ hg, hread⟩

/-- What is read as a record is taken as one. -/
theorem exists_taken_of_record {expected : String} {start a : σ} {b : Nat} {s : Source}
    (h : record expected fields start ⟨.text, b⟩ s = .ok a) :
    ∃ n, b = n + 1 ∧ Taken fields n s := by
  cases s with
  | object members =>
    obtain ⟨n, rfl, hinner⟩ := exists_of_enter_bind_eq_ok h
    obtain ⟨result, hread, -⟩ := bind_eq_ok_iff.1 hinner
    exact ⟨n, rfl, .object (readByField_of_recordMembers hread)⟩
  | array items breach =>
    obtain ⟨n, rfl, hinner⟩ := exists_of_enter_bind_eq_ok h
    obtain ⟨⟨st, rest⟩, hread, h⟩ := bind_eq_ok_iff.1 hinner
    obtain ⟨_, hsurplus, -⟩ := bind_eq_ok_iff.1 h
    -- In a text an array that is too long or breaks off is never taken.
    cases rest with
    | cons s rest => cases hsurplus
    | nil =>
      cases breach with
      | some b =>
        dsimp only [surplus] at hsurplus
        split at hsurplus <;> cases hsurplus
      | none =>
        refine ⟨n, rfl, .array fun s hs => ?_⟩
        exact (readByField_of_recordItems hread s hs).resolve_left List.not_mem_nil
  | null | bool _ | number _ | string _ | missing | unset _ | broken _ _ _ => cases h

/-- What stands in a record under the keys of fields is read by a field. -/
theorem Taken.readByField {s : Source} (hs : Taken fields n s) :
    ∀ t ∈ s.under (fields.flatMap FieldReader.keys), ∃ f, ReadByField fields n t f := by
  cases hs with
  | array hitems => exact hitems
  | object hmembers =>
    intro t ht
    obtain ⟨key, hkey, hm⟩ := Source.mem_under_iff.1 ht
    obtain ⟨key', hname, hread⟩ := hmembers _ hm
    cases hname
    exact hread hkey

/-- What is taken as a record is faultless if its parts are, those that are read by a field and
those that stand under other keys. -/
theorem Taken.faultless_iff {s : Source} (hs : Taken fields n s) : s.Faultless (n + 1) ↔
    (∀ t ∈ s.under (fields.flatMap FieldReader.keys), t.Faultless n) ∧
      ∀ t ∈ s.otherThan (fields.flatMap FieldReader.keys), t.Faultless n := by
  cases hs with
  | array hitems =>
    rw [Source.faultless_array_iff, and_iff_right rfl]
    exact (and_iff_left (List.forall_mem_nil _)).symm
  | object hmembers =>
    rw [Source.faultless_object_iff]
    constructor
    · refine fun hall => ⟨fun t ht => ?_, fun t ht => ?_⟩
      · obtain ⟨key, -, hm⟩ := Source.mem_under_iff.1 ht
        exact (hall _ hm).2
      · obtain ⟨key, -, hm⟩ := Source.mem_otherThan_iff.1 ht
        exact (hall _ hm).2
    · rintro ⟨hunder, hother⟩ ⟨key, t⟩ hm
      obtain ⟨key, rfl, -⟩ := hmembers _ hm
      refine ⟨⟨key, rfl⟩, ?_⟩
      by_cases hkey : key ∈ fields.flatMap FieldReader.keys
      · exact hunder t (Source.mem_under_iff.2 ⟨key, hkey, hm⟩)
      · exact hother t (Source.mem_otherThan_iff.2 ⟨key, hkey, hm⟩)

/-- What is taken as a record whose fields read all that is given to them is faultless if what
stands under other keys is. -/
theorem Taken.faultless_iff_of_readsAll (h : ∀ f ∈ fields, ∀ st, (f.read st).ReadsAll) {s : Source}
    (hs : Taken fields n s) : s.Faultless (n + 1) ↔
      ∀ t ∈ s.otherThan (fields.flatMap FieldReader.keys), t.Faultless n := by
  rw [hs.faultless_iff]
  refine and_iff_right fun t ht => ?_
  obtain ⟨f, hf, st, st', hread⟩ := hs.readByField t ht
  exact h f hf st n t st' hread

end Records

end Reader

end VocabularyCompiler.Json

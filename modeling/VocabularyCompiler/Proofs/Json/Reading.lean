import Mathlib.Data.List.Forall2
import Mathlib.Data.List.Nodup
import Mathlib.Data.List.Pairwise
import VocabularyCompiler.Json.Record

/-!
# Reading values in memory

`Reads read v a` says that a reader makes `a` of the value `v`, at whatever depth `v` stands. There
is one lemma for each way to put a reader together. The one for records (`reads_record`) takes the
members of the object in any order: each field is given once, under one of its keys, or left out,
and members under other keys do not matter.
-/

namespace VocabularyCompiler.Json

/-! ## Values as sources -/

namespace Source

/-- The items of an array stand in order. -/
theorem ofItems_eq_map (items : List Value) : ofItems items = items.map ofValue := by
  induction items with
  | nil => rfl
  | cons v rest ih => rw [ofItems, ih, List.map_cons]

/-- The members of an object stand in order, each under its key. -/
theorem ofMembers_eq_map (members : List (String × Value)) :
    ofMembers members = members.map fun m => (.name m.1, ofValue m.2) := by
  induction members with
  | nil => rfl
  | cons m rest ih => rw [ofMembers, ih, List.map_cons]

/-- Items together are no higher than some number if each of them is not. -/
theorem heightOfItems_le_iff {items : List Source} {n : Nat} :
    heightOfItems items ≤ n ↔ ∀ s ∈ items, s.height ≤ n := by
  induction items with
  | nil => simp [heightOfItems]
  | cons s rest ih => rw [heightOfItems, Nat.max_le, ih, List.forall_mem_cons]

/-- Members together are no higher than some number if the value of each is not. -/
theorem heightOfMembers_le_iff {members : List (Key × Source)} {n : Nat} :
    heightOfMembers members ≤ n ↔ ∀ m ∈ members, m.2.height ≤ n := by
  induction members with
  | nil => simp [heightOfMembers]
  | cons m rest ih => rw [heightOfMembers, Nat.max_le, ih, List.forall_mem_cons]

/-- A value in memory does not lack the colon before it. -/
theorem ofValue_ne_unset (v : Value) (fault : SyntaxFault) : ofValue v ≠ .unset fault := by
  cases v <;> exact Source.noConfusion

mutual

/-- Nothing stops one who passes over a value in memory. -/
theorem skipFault?_ofValue : ∀ v : Value, (ofValue v).skipFault? = none
  | .null | .bool _ | .number _ | .string _ => rfl
  | .array items => by
    rw [ofValue, skipFault?, skipFaultOfItems?_ofItems items]
    rfl
  | .object members => by
    rw [ofValue, skipFault?]
    exact skipFaultOfMembers?_ofMembers members
termination_by structural v => v

/-- Nothing stops one who passes over items in memory. -/
theorem skipFaultOfItems?_ofItems : ∀ items : List Value,
    skipFaultOfItems? (ofItems items) = none
  | [] => rfl
  | v :: rest => by
    rw [ofItems, skipFaultOfItems?, skipFault?_ofValue v, skipFaultOfItems?_ofItems rest]
    rfl
termination_by structural items => items

/-- Nothing stops one who passes over members in memory. -/
theorem skipFaultOfMembers?_ofMembers : ∀ members : List (String × Value),
    skipFaultOfMembers? (ofMembers members) = none
  | [] => rfl
  | (key, v) :: rest => by
    rw [ofMembers, skipFaultOfMembers?, skipFault?_ofValue v, skipFaultOfMembers?_ofMembers rest]
    · rfl
    · rintro _ _ ⟨⟩
termination_by structural members => members

end

end Source

/-- Every object has each of its keys once, at every depth. -/
inductive Value.WellFormed : Value → Prop
  | null : WellFormed .null
  | bool (b : Bool) : WellFormed (.bool b)
  | number (n : Number) : WellFormed (.number n)
  | string (s : String) : WellFormed (.string s)
  | array {items : List Value} (h : ∀ v ∈ items, WellFormed v) : WellFormed (.array items)
  | object {members : List (String × Value)} (hkeys : (members.map Prod.fst).Nodup)
      (h : ∀ m ∈ members, WellFormed m.2) : WellFormed (.object members)

/-- An object with one member has each key once. -/
theorem Value.WellFormed.singleton {key : String} {v : Value} (h : v.WellFormed) :
    (Value.object [(key, v)]).WellFormed :=
  .object (List.nodup_singleton key) (List.forall_mem_singleton.2 h)

/-- The values that members have under some keys, in order. -/
def valuesUnder (keys : List String) (members : List (String × Value)) : List Value :=
  (members.filter fun m => m.1 ∈ keys).map Prod.snd

/-- A value is under some keys if it is that of a member with one of them. -/
theorem mem_valuesUnder_iff {keys : List String} {members : List (String × Value)} {v : Value} :
    v ∈ valuesUnder keys members ↔ ∃ key ∈ keys, (key, v) ∈ members := by
  simp only [valuesUnder, List.mem_map, List.mem_filter, decide_eq_true_eq, Prod.exists,
    exists_eq_right]
  exact ⟨fun ⟨key, h, hkey⟩ => ⟨key, hkey, h⟩, fun ⟨key, hkey, h⟩ => ⟨key, h, hkey⟩⟩

/-- No member is under any key. -/
@[simp]
theorem valuesUnder_nil (keys : List String) : valuesUnder keys [] = [] := rfl

/-- The first member counts if it has one of the keys. -/
@[simp]
theorem valuesUnder_cons (keys : List String) (m : String × Value)
    (members : List (String × Value)) : valuesUnder keys (m :: members) =
      if m.1 ∈ keys then m.2 :: valuesUnder keys members else valuesUnder keys members := by
  rw [valuesUnder, List.filter_cons]
  by_cases h : m.1 ∈ keys
  · rw [if_pos (decide_eq_true h), if_pos h]
    rfl
  · rw [if_neg (fun h' => h (of_decide_eq_true h')), if_neg h]
    rfl

/-- The members of both lists count. -/
@[simp]
theorem valuesUnder_append (keys : List String) (members more : List (String × Value)) :
    valuesUnder keys (members ++ more) = valuesUnder keys members ++ valuesUnder keys more := by
  rw [valuesUnder, List.filter_append, List.map_append]
  rfl

/-- A member that may be left out counts if it is there and has one of the keys. -/
@[simp]
theorem valuesUnder_option {α : Type} (keys : List String) (key : String) (f : α → Value)
    (a? : Option α) : valuesUnder keys (a?.map fun a => (key, f a)).toList =
      if key ∈ keys then (a?.map f).toList else [] := by
  cases a? with
  | none => simp
  | some a => simp

/-- Where no key occurs twice, a member's value is all that stands under its key. -/
theorem valuesUnder_eq_singleton {members : List (String × Value)}
    (h : (members.map Prod.fst).Nodup) {key : String} {v : Value} (hm : (key, v) ∈ members) :
    valuesUnder [key] members = [v] := by
  induction members with
  | nil => cases hm
  | cons m rest ih =>
    obtain ⟨hnew, hrest⟩ := List.nodup_cons.1 h
    rw [valuesUnder_cons]
    rcases List.mem_cons.1 hm with rfl | hm
    · have hnone : valuesUnder [key] rest = [] := by
        refine List.eq_nil_iff_forall_not_mem.2 fun w hw => hnew ?_
        obtain ⟨_, hkey, hmem⟩ := mem_valuesUnder_iff.1 hw
        rw [List.mem_singleton.1 hkey] at hmem
        exact List.mem_map.2 ⟨_, hmem, rfl⟩
      rw [if_pos (List.mem_singleton_self key), hnone]
    · have hne : m.1 ∉ [key] := fun hkey => by
        rw [List.mem_singleton.1 hkey] at hnew
        exact hnew (List.mem_map.2 ⟨_, hm, rfl⟩)
      rw [if_neg hne, ih hrest hm]

namespace Reader

variable {α β σ : Type}

/-- A reader makes `a` of the value `v` in memory, if as many containers may be opened as there are
in `v`, one inside the other. -/
def Reads (read : Reader α) (v : Value) (a : α) : Prop :=
  ∀ budget, (Source.ofValue v).height ≤ budget →
    read ⟨.memory, budget⟩ (.ofValue v) = .ok a

/-- What a reader makes of a value wherever it stands, it makes of the value alone. -/
theorem Reads.readValue {read : Reader α} {v : Value} {a : α} (h : read.Reads v a) :
    readValue read v = .ok a := h _ (Nat.le_refl _)

/-- A string is read as it is. -/
theorem reads_string (s : String) : Reader.string.Reads (.string s) s := fun _ _ => rfl

/-- A Boolean is read as it is. -/
theorem reads_bool (b : Bool) : Reader.bool.Reads (.bool b) b := fun _ _ => rfl

/-- What is made of the result is made of what is read. -/
theorem Reads.map {read : Reader α} {v : Value} {a : α} (h : read.Reads v a) (f : α → β) :
    Reader.Reads (fun scope source => (read scope source).map f) v (f a) := by
  intro budget hbudget
  exact congrArg (Except.map f) (h budget hbudget)

/-- Nothing is made of `null`. -/
theorem reads_option_null (read : Reader α) : (option read).Reads .null none := fun _ _ => rfl

/-- A value other than `null` is read as it is without the option of leaving it out. -/
theorem Reads.option {read : Reader α} {v : Value} {a : α} (h : read.Reads v a)
    (hv : v ≠ .null) : (option read).Reads v (some a) := by
  intro budget hbudget
  have hread := h budget hbudget
  cases v with
  | null => exact absurd rfl hv
  | bool _ | number _ | string _ | array _ | object _ =>
    unfold Reader.option
    exact congrArg (Except.map some) hread

/-- Opening a container takes one from the budget. -/
theorem enter_succ (origin : Origin) (n : Nat) : enter ⟨origin, n + 1⟩ = .ok ⟨origin, n⟩ := rfl

/-- Items are read one by one, as often as there is a result for each. -/
theorem items_eq_ok_iff {read : Source → Except ReadError α} {i : Nat} {sources : List Source}
    {as : List α} :
    items read i sources = .ok as ↔ List.Forall₂ (fun s a => read s = .ok a) sources as := by
  induction sources generalizing i as with
  | nil =>
    rw [List.forall₂_nil_left_iff, items, Except.ok.injEq, eq_comm]
  | cons s rest ih =>
    rw [items]
    cases hs : read s with
    | error e =>
      refine ⟨fun h => (nomatch h), fun h => ?_⟩
      cases h with
      | cons hhead _ => cases hs.symm.trans hhead
    | ok a =>
      cases hrest : items read (i + 1) rest with
      | error e =>
        refine ⟨fun h => (nomatch h), fun h => ?_⟩
        cases h with
        | cons _ htail => cases hrest.symm.trans (ih.2 htail)
      | ok as' =>
        constructor
        · intro h
          cases h
          exact .cons hs (ih.1 hrest)
        · intro h
          cases h with
          | cons hhead htail =>
            cases hs.symm.trans hhead
            cases hrest.symm.trans (ih.2 htail)
            rfl

/-- The items of an array are read with a budget that is enough for each of them. -/
theorem exists_sequence_eq (expected : String) (read : Reader α) {vs : List Value} {b : Nat}
    (h : (Source.ofValue (.array vs)).height ≤ b) :
    ∃ n, (∀ v ∈ vs, (Source.ofValue v).height ≤ n) ∧
      sequence expected read ⟨.memory, b⟩ (.ofValue (.array vs)) =
        items (read ⟨.memory, n⟩) 0 (vs.map Source.ofValue) := by
  rw [Source.ofValue, Source.height, Source.ofItems_eq_map] at h
  obtain ⟨n, rfl⟩ : ∃ n, b = n + 1 := ⟨b - 1, by omega⟩
  have hheight := Source.heightOfItems_le_iff.1 (Nat.le_of_succ_le_succ h)
  refine ⟨n, List.forall_mem_map.1 hheight, ?_⟩
  rw [Source.ofValue, sequence, enter_succ, Source.ofItems_eq_map]
  change (items (read ⟨.memory, n⟩) 0 (vs.map Source.ofValue) >>= fun as => pure as) = _
  exact bind_pure _

/-- An array is read item by item. -/
theorem reads_sequence {expected : String} {read : Reader α} {vs : List Value} {as : List α}
    (h : List.Forall₂ read.Reads vs as) : (sequence expected read).Reads (.array vs) as := by
  intro budget hbudget
  obtain ⟨n, hn, heq⟩ := exists_sequence_eq expected read hbudget
  rw [heq, items_eq_ok_iff, List.forall₂_map_left_iff]
  exact ((List.forall₂_and_left _ _).2 ⟨hn, h⟩).imp fun v a hva => hva.2 n hva.1

/-- A member in memory is read under its key. -/
theorem atMember_ofValue (name : String) (read : Source → Except ReadError α) (v : Value) :
    atMember name read (.ofValue v) = within (.key name) (read (.ofValue v)) := by
  cases v <;> rfl

/-- The result for a member is the result for its value. -/
theorem atMember_eq_ok (name : String) {read : Source → Except ReadError α} {v : Value} {a : α}
    (h : read (.ofValue v) = .ok a) : atMember name read (.ofValue v) = .ok a := by
  rw [atMember_ofValue, h]
  rfl

/-- An object is read member by member. -/
theorem reads_map {read : Reader α} {ms : List (String × Value)} {as : List (String × α)}
    (h : List.Forall₂ (fun m a => m.1 = a.1 ∧ read.Reads m.2 a.2) ms as) :
    (map read).Reads (.object ms) (.ofList as) := by
  intro budget hbudget
  rw [Source.ofValue, Source.height] at hbudget
  obtain ⟨n, rfl⟩ : ∃ n, budget = n + 1 := ⟨budget - 1, by omega⟩
  have hmembers : members (read ⟨.memory, n⟩) (Source.ofMembers ms) = .ok as := by
    have hn : Source.heightOfMembers (Source.ofMembers ms) ≤ n := by omega
    clear hbudget
    induction h with
    | nil => rfl
    | @cons m a rest as' hhead _ ih =>
      rw [Source.ofMembers, Source.heightOfMembers, Nat.max_le] at hn
      have ha := atMember_eq_ok m.1 (hhead.2 n hn.1)
      rw [Source.ofMembers, members, ha, hhead.1]
      change (members (read ⟨.memory, n⟩) (Source.ofMembers rest) >>= _) = _
      rw [ih hn.2]
      rfl
  rw [Source.ofValue, map, enter_succ]
  change (members (read ⟨.memory, n⟩) (Source.ofMembers ms) >>= _) = _
  rw [hmembers]
  rfl

end Reader

/-! ## Records -/

namespace FieldReader

variable {σ α : Type}

/-- The keys that a field may be written under. -/
def keys (f : FieldReader σ) : List String := f.name :: f.aliases

@[simp]
theorem keys_mandatory (name : String) (read : Reader α) (put : σ → α → σ) :
    (mandatory name read put).keys = [name] := rfl

@[simp]
theorem keys_optional (name : String) (read : Reader α) (put : σ → α → σ) :
    (optional name read put).keys = [name] := rfl

@[simp]
theorem keys_orUnder (f : FieldReader σ) (aliases : List String) :
    (f.orUnder aliases).keys = f.name :: aliases := rfl

@[simp]
theorem name_mandatory (name : String) (read : Reader α) (put : σ → α → σ) :
    (mandatory name read put).name = name := rfl

@[simp]
theorem name_optional (name : String) (read : Reader α) (put : σ → α → σ) :
    (optional name read put).name = name := rfl

@[simp]
theorem name_orUnder (f : FieldReader σ) (aliases : List String) :
    (f.orUnder aliases).name = f.name := rfl

/-- A key names a field if it is one of those that the field may be written under. -/
theorem isNamed_iff {f : FieldReader σ} {key : String} : f.isNamed key = true ↔ key ∈ f.keys := by
  rw [isNamed, keys, Bool.or_eq_true, decide_eq_true_eq, decide_eq_true_eq, List.mem_cons,
    eq_comm (a := key)]

/-- A field fits the members of an object in which it is left out, if it may be, or given once with
a value that can be read. `upTo` is the record with the fields of some names read. -/
def Fits (f : FieldReader σ) (upTo : List String → σ) (ms : List (String × Value)) : Prop :=
  (f.required = false ∧ valuesUnder f.keys ms = []) ∨
    ∃ v, valuesUnder f.keys ms = [v] ∧
      ∀ seen, (f.read (upTo seen)).Reads v (upTo (f.name :: seen))

variable {upTo : List String → σ} {ms : List (String × Value)} {read : Reader α}

/-- A member under a key of a field that fits can be read. -/
theorem Fits.reads_of_mem {f : FieldReader σ} (h : f.Fits upTo ms) {m : String × Value}
    (hm : m ∈ ms) (hkey : m.1 ∈ f.keys) (seen : List String) :
    (f.read (upTo seen)).Reads m.2 (upTo (f.name :: seen)) := by
  have hmem : m.2 ∈ valuesUnder f.keys ms := mem_valuesUnder_iff.2 ⟨m.1, hkey, hm⟩
  rcases h with ⟨-, hnone⟩ | ⟨v, hone, hread⟩
  · rw [hnone] at hmem
    cases hmem
  · rw [hone, List.mem_singleton] at hmem
    rw [hmem]
    exact hread seen

/-- A field that fits is given at most once. -/
theorem Fits.length_le_one {f : FieldReader σ} (h : f.Fits upTo ms) :
    (valuesUnder f.keys ms).length ≤ 1 := by
  rcases h with ⟨-, hnone⟩ | ⟨v, hone, -⟩
  · rw [hnone]
    exact Nat.zero_le 1
  · rw [hone]
    exact Nat.le_refl 1

/-- A field that fits is given if it must be. -/
theorem Fits.ne_nil_of_required {f : FieldReader σ} (h : f.Fits upTo ms)
    (hrequired : f.required = true) : valuesUnder f.keys ms ≠ [] := by
  rcases h with ⟨hoptional, -⟩ | ⟨v, hone, -⟩
  · cases hrequired.symm.trans hoptional
  · rw [hone]
    exact List.cons_ne_nil _ _

/-- A field fits where its value is given once and can be read. -/
theorem Fits.of_value {f : FieldReader σ} {put : σ → α → σ} {v : Value} {a : α}
    (hf : ∀ st, f.read st = fun scope source => (read scope source).map (put st))
    (hv : valuesUnder f.keys ms = [v]) (hread : read.Reads v a)
    (hput : ∀ seen, put (upTo seen) a = upTo (f.name :: seen)) : f.Fits upTo ms := by
  refine Or.inr ⟨v, hv, fun seen => ?_⟩
  rw [hf, ← hput]
  exact hread.map _

/-- A field for something that may be absent fits where it is written if and only if it is there. -/
theorem Fits.of_option {name : String} {put : σ → Option α → σ} {write : α → Value} (a? : Option α)
    (hv : valuesUnder [name] ms = (a?.map write).toList)
    (hread : ∀ a ∈ a?, read.Reads (write a) a ∧ write a ≠ .null)
    (hput : ∀ seen, put (upTo seen) a? = upTo (name :: seen)) :
    (optional name (Reader.option read) put).Fits upTo ms := by
  cases a? with
  | none => exact Or.inl ⟨rfl, hv⟩
  | some a => exact Fits.of_value (fun _ => rfl) hv ((hread a rfl).1.option (hread a rfl).2) hput

/-- What stands under the keys of a field is read as `a`, or nothing stands there and `a` is what a
record without the field has. -/
def Given (read : Reader α) (absent a : α) (vs : List Value) : Prop :=
  (vs = [] ∧ a = absent) ∨ ∃ v, vs = [v] ∧ read.Reads v a

/-- A field that may be left out fits where what is given can be read. -/
theorem Fits.of_given {f : FieldReader σ} {put : σ → α → σ} {absent a : α}
    (hf : ∀ st, f.read st = fun scope source => (read scope source).map (put st))
    (hoptional : f.required = false) (h : Given read absent a (valuesUnder f.keys ms))
    (hput : ∀ seen, put (upTo seen) a = upTo (f.name :: seen)) : f.Fits upTo ms := by
  rcases h with ⟨hnone, -⟩ | ⟨v, hv, hread⟩
  · exact Or.inl ⟨hoptional, hnone⟩
  · exact Fits.of_value hf hv hread hput

/-- What a record has of a field that was given is what was read. -/
theorem Given.ite_eq {absent a : α} {vs : List Value} {p : Prop} [Decidable p]
    (h : Given read absent a vs) (hp : p ↔ vs ≠ []) : (if p then a else absent) = a := by
  rcases h with ⟨-, rfl⟩ | ⟨v, rfl, -⟩
  · exact ite_self a
  · exact if_pos (hp.2 (List.cons_ne_nil _ _))

end FieldReader

namespace Reader

variable {σ : Type} {fields : List (FieldReader σ)} {upTo : List String → σ}
  {ms : List (String × Value)}

/-- The names of the fields that members belong to, in order. -/
def namedFields (fields : List (FieldReader σ)) (ms : List (String × Value)) : List String :=
  ms.filterMap fun m => (fields.find? fun f => f.isNamed m.1).map FieldReader.name

/-- The members of an object fill the fields that they belong to, if there is none twice. -/
theorem recordMembers_eq {n : Nat} (seen : List String)
    (hheight : Source.heightOfMembers (Source.ofMembers ms) ≤ n)
    (hreads : ∀ m ∈ ms, ∀ f ∈ fields, m.1 ∈ f.keys →
      ∀ seen, (f.read (upTo seen)).Reads m.2 (upTo (f.name :: seen)))
    (honce : (namedFields fields ms ++ seen).Nodup) :
    recordMembers fields ⟨.memory, n⟩ (upTo seen) seen (Source.ofMembers ms) =
      .ok (upTo ((namedFields fields ms).reverse ++ seen),
        (namedFields fields ms).reverse ++ seen) := by
  induction ms generalizing seen with
  | nil => rfl
  | cons m rest ih =>
    obtain ⟨key, v⟩ := m
    rw [Source.ofMembers, Source.heightOfMembers, Nat.max_le] at hheight
    have hrest : ∀ m ∈ rest, ∀ f ∈ fields, m.1 ∈ f.keys →
        ∀ seen, (f.read (upTo seen)).Reads m.2 (upTo (f.name :: seen)) :=
      fun m hm => hreads m (List.mem_cons_of_mem _ hm)
    rw [Source.ofMembers, recordMembers]
    cases hfind : fields.find? fun f => f.isNamed key with
    | none =>
      -- The member belongs to no field and is passed over.
      have hnamed : namedFields fields ((key, v) :: rest) = namedFields fields rest := by
        rw [namedFields, List.filterMap_cons, hfind]
        rfl
      rw [hnamed] at honce ⊢
      dsimp only
      rw [atMember_ofValue, Source.skipFault?_ofValue]
      exact ih _ hheight.2 hrest honce
    | some f =>
      have hf : f ∈ fields := List.mem_of_find?_eq_some hfind
      have hnames : f.isNamed key = true := by simpa using List.find?_some hfind
      have hkey : key ∈ f.keys := FieldReader.isNamed_iff.1 hnames
      have hnamed : namedFields fields ((key, v) :: rest) =
          f.name :: namedFields fields rest := by
        rw [namedFields, List.filterMap_cons, hfind]
        rfl
      rw [hnamed] at honce ⊢
      have hnew : f.name ∉ seen := fun hmem => by
        rw [List.cons_append, List.nodup_cons] at honce
        exact honce.1 (List.mem_append_right _ hmem)
      have honce' : (namedFields fields rest ++ f.name :: seen).Nodup :=
        (List.perm_middle.nodup_iff).2 honce
      have hread := atMember_eq_ok key
        (hreads (key, v) List.mem_cons_self f hf hkey seen n hheight.1)
      dsimp only
      rw [if_neg hnew, hread, List.reverse_cons, List.append_assoc]
      exact ih _ hheight.2 hrest honce'

/-- No two fields share a key. -/
theorem eq_of_mem_keys (hkeys : (fields.flatMap FieldReader.keys).Nodup) {f g : FieldReader σ}
    (hf : f ∈ fields) (hg : g ∈ fields) {key : String} (hkf : key ∈ f.keys) (hkg : key ∈ g.keys) :
    f = g := by
  by_contra hne
  have : Std.Symm (Function.onFun List.Disjoint (@FieldReader.keys σ)) :=
    ⟨fun _ _ h _ hb ha => h ha hb⟩
  exact (List.nodup_flatMap.1 hkeys).2.forall hf hg hne hkf hkg

/-- A member belongs to the field that its key is one of. -/
theorem find?_isNamed (hkeys : (fields.flatMap FieldReader.keys).Nodup) {f : FieldReader σ}
    (hf : f ∈ fields) {key : String} (hkey : key ∈ f.keys) :
    (fields.find? fun f => f.isNamed key) = some f := by
  cases hfind : fields.find? fun f => f.isNamed key with
  | none =>
    have hnot := List.find?_eq_none.1 hfind f hf
    exact absurd (FieldReader.isNamed_iff.2 hkey) hnot
  | some g =>
    have hnames : g.isNamed key = true := by simpa using List.find?_some hfind
    rw [eq_of_mem_keys hkeys (List.mem_of_find?_eq_some hfind) hf
      (FieldReader.isNamed_iff.1 hnames) hkey]

/-- The fields that members belong to are those with a value. -/
theorem mem_namedFields_iff (hkeys : (fields.flatMap FieldReader.keys).Nodup)
    {f : FieldReader σ} (hf : f ∈ fields) :
    f.name ∈ namedFields fields ms ↔ valuesUnder f.keys ms ≠ [] := by
  have hname : ∀ g : FieldReader σ, g.name ∈ g.keys := fun g => List.mem_cons_self
  rw [namedFields, List.mem_filterMap]
  constructor
  · rintro ⟨⟨key, v⟩, hm, hnamed⟩
    obtain ⟨g, hfind, hg⟩ := Option.map_eq_some_iff.1 hnamed
    have hnames : g.isNamed key = true := by simpa using List.find?_some hfind
    obtain rfl : g = f := eq_of_mem_keys hkeys (List.mem_of_find?_eq_some hfind) hf (hname g)
      (hg ▸ hname f)
    exact List.ne_nil_of_mem
      (mem_valuesUnder_iff.2 ⟨key, FieldReader.isNamed_iff.1 hnames, hm⟩)
  · intro hvalues
    obtain ⟨v, hv⟩ := List.exists_mem_of_ne_nil _ hvalues
    obtain ⟨key, hkey, hm⟩ := mem_valuesUnder_iff.1 hv
    exact ⟨(key, v), hm, by rw [find?_isNamed hkeys hf hkey, Option.map_some]⟩

/-- No two members belong to one field if no field has two values. -/
theorem nodup_namedFields (hkeys : (fields.flatMap FieldReader.keys).Nodup)
    (honce : ∀ f ∈ fields, (valuesUnder f.keys ms).length ≤ 1) :
    (namedFields fields ms).Nodup := by
  refine List.nodup_iff_count_le_one.2 fun name => ?_
  by_cases hname : name ∈ fields.map FieldReader.name
  · obtain ⟨f, hf, rfl⟩ := List.mem_map.1 hname
    -- The members that belong to the field have a key of it.
    have hcount : (namedFields fields ms).count f.name ≤ (valuesUnder f.keys ms).length := by
      rw [namedFields, List.count_filterMap, valuesUnder, List.length_map,
        ← List.countP_eq_length_filter]
      refine List.countP_mono_left fun m _ hm => decide_eq_true ?_
      obtain ⟨g, hfind, hg⟩ := Option.map_eq_some_iff.1 (eq_of_beq hm)
      have hnames : g.isNamed m.1 = true := by simpa using List.find?_some hfind
      obtain rfl : g = f := eq_of_mem_keys hkeys (List.mem_of_find?_eq_some hfind) hf
        List.mem_cons_self (hg ▸ List.mem_cons_self)
      exact FieldReader.isNamed_iff.1 hnames
    exact Nat.le_trans hcount (honce f hf)
  · rw [List.count_eq_zero_of_not_mem]
    · exact Nat.zero_le 1
    · intro hmem
      obtain ⟨m, -, hnamed⟩ := List.mem_filterMap.1 hmem
      obtain ⟨g, hfind, rfl⟩ := Option.map_eq_some_iff.1 hnamed
      exact hname (List.mem_map_of_mem (List.mem_of_find?_eq_some hfind))

/-- A record is read from an object that each of its fields fits, whatever the order of the members
and whatever stands under other keys. -/
theorem reads_record {expected : String} {start a : σ} (upTo : List String → σ)
    (hstart : upTo [] = start) (hkeys : (fields.flatMap FieldReader.keys).Nodup)
    (hfits : ∀ f ∈ fields, f.Fits upTo ms)
    (hend : ∀ seen, (∀ f ∈ fields, f.name ∈ seen ↔ valuesUnder f.keys ms ≠ []) → upTo seen = a) :
    (record expected fields start).Reads (.object ms) a := by
  intro budget hbudget
  rw [Source.ofValue, Source.height] at hbudget
  obtain ⟨n, rfl⟩ : ∃ n, budget = n + 1 := ⟨budget - 1, by omega⟩
  have honce : (namedFields fields ms).Nodup :=
    nodup_namedFields hkeys fun f hf => (hfits f hf).length_le_one
  have hheight : Source.heightOfMembers (Source.ofMembers ms) ≤ n := by omega
  have hmembers := recordMembers_eq [] hheight
    (fun m hm f hf hkey => (hfits f hf).reads_of_mem hm hkey) (by simpa using honce)
  rw [List.append_nil, hstart] at hmembers
  have hgiven : ∀ f ∈ fields,
      f.name ∈ (namedFields fields ms).reverse ↔ valuesUnder f.keys ms ≠ [] := fun f hf =>
    List.mem_reverse.trans (mem_namedFields_iff hkeys hf)
  have hmissing : (fields.find? fun f =>
      f.required && f.name ∉ (namedFields fields ms).reverse) = none := by
    refine List.find?_eq_none.2 fun f hf hmiss => ?_
    simp only [Bool.and_eq_true, decide_eq_true_eq, hgiven f hf, not_not] at hmiss
    exact (hfits f hf).ne_nil_of_required hmiss.1 hmiss.2
  rw [Source.ofValue, record, recordObject, enter_succ]
  dsimp only [bind, Except.bind]
  rw [hmembers]
  dsimp only
  rw [hmissing, ← hend _ hgiven]
  rfl

/-! ## Variants -/

variable {α : Type} {variants : List (Variant α)} {name : String}

/-- A variant that holds nothing is read from its name. -/
theorem reads_variant_unit {a : α}
    (h : (variants.find? fun v => v.name = name) = some ⟨name, .unit a⟩) :
    (variant variants).Reads (.string name) a := by
  intro budget _
  change bareVariant variants name = .ok a
  rw [bareVariant, variant?, h]
  rfl

/-- A variant with content is read from an object with its name as the only key. -/
theorem reads_variant_content {v : Value} {a : α} {content : Content α}
    (h : (variants.find? fun v => v.name = name) = some ⟨name, content⟩)
    (hread : Reads (variantContent ⟨name, content⟩) v a) :
    (variant variants).Reads (.object [(name, v)]) a := by
  intro budget hbudget
  have hheight : max (Source.ofValue v).height 0 + 1 ≤ budget := hbudget
  obtain ⟨n, rfl⟩ : ∃ n, budget = n + 1 := ⟨budget - 1, by omega⟩
  change (variant? variants name >>= fun w =>
    within (.key w.name) (variantContent w ⟨.memory, n⟩ (.ofValue v))) = _
  rw [variant?, h]
  change within (.key name) (variantContent ⟨name, content⟩ ⟨.memory, n⟩ (.ofValue v)) = _
  rw [hread n (by omega)]
  rfl

/-- A single value is read as the content of a variant. -/
theorem Reads.contentSingle {read : Reader α} {v : Value} {a : α} (h : read.Reads v a) :
    Reads (variantContent ⟨name, .single read⟩) v a := h

/-- A record is read as the content of a variant. -/
theorem Reads.contentFields {read : Reader α} {ms : List (String × Value)} {a : α}
    (h : read.Reads (.object ms) a) :
    Reads (variantContent ⟨name, .fields read⟩) (.object ms) a := h

/-! ## Values of several forms -/

mutual

/-- Any value in memory can be read. -/
theorem exists_any_ofValue : ∀ (v : Value) {n : Nat}, (Source.ofValue v).height ≤ n →
    ∃ w, any n (.ofValue v) = .ok w
  | .null, _, _ => ⟨.null, rfl⟩
  | .bool b, _, _ => ⟨.bool b, rfl⟩
  | .number x, _, _ => ⟨.number x, rfl⟩
  | .string s, _, _ => ⟨.string s, rfl⟩
  | .array items, 0, h => absurd h (Nat.not_succ_le_zero _)
  | .array items, n + 1, h => by
    obtain ⟨ws, hws⟩ := exists_anyItems_ofItems items 0 (Nat.le_of_succ_le_succ h)
    refine ⟨.array ws, ?_⟩
    change (anyItems n 0 (Source.ofItems items) >>= fun values => pure (Value.array values)) = _
    rw [hws]
    rfl
  | .object members, 0, h => absurd h (Nat.not_succ_le_zero _)
  | .object members, n + 1, h => by
    obtain ⟨ws, hws⟩ := exists_anyMembers_ofMembers members (Nat.le_of_succ_le_succ h)
    refine ⟨.object (OrderedMap.ofList ws).entries, ?_⟩
    change (anyMembers n (Source.ofMembers members) >>= fun ws =>
      pure (Value.object (OrderedMap.ofList ws).entries)) = _
    rw [hws]
    rfl
termination_by structural v => v

/-- Any items in memory can be read. -/
theorem exists_anyItems_ofItems : ∀ (items : List Value) {n : Nat} (i : Nat),
    Source.heightOfItems (Source.ofItems items) ≤ n →
      ∃ ws, anyItems n i (Source.ofItems items) = .ok ws
  | [], _, _, _ => ⟨[], rfl⟩
  | v :: rest, n, i, h => by
    obtain ⟨hv, hrest⟩ := Nat.max_le.1 h
    obtain ⟨w, hw⟩ := exists_any_ofValue v hv
    obtain ⟨ws, hws⟩ := exists_anyItems_ofItems rest (i + 1) hrest
    refine ⟨w :: ws, ?_⟩
    rw [Source.ofItems, anyItems, hw, hws]
    rfl
termination_by structural items => items

/-- Any members in memory can be read. -/
theorem exists_anyMembers_ofMembers : ∀ (members : List (String × Value)) {n : Nat},
    Source.heightOfMembers (Source.ofMembers members) ≤ n →
      ∃ ws, anyMembers n (Source.ofMembers members) = .ok ws
  | [], _, _ => ⟨[], rfl⟩
  | (key, v) :: rest, n, h => by
    obtain ⟨hv, hrest⟩ := Nat.max_le.1 h
    obtain ⟨w, hw⟩ := exists_any_ofValue v hv
    obtain ⟨ws, hws⟩ := exists_anyMembers_ofMembers rest hrest
    refine ⟨(key, w) :: ws, ?_⟩
    rw [Source.ofMembers, anyMembers, hw, hws]
    · rfl
    · exact Source.ofValue_ne_unset v
termination_by structural members => members

end

/-- A value is read if it has one of the forms that are allowed. -/
theorem reads_oneOf {type : String} {fit : Source → Option α} {v : Value} {a : α}
    (h : fit (.ofValue v) = some a) : (oneOf type fit).Reads v a := by
  intro budget hbudget
  obtain ⟨w, hw⟩ := exists_any_ofValue v hbudget
  rw [oneOf, hw]
  dsimp only [bind, Except.bind]
  rw [h]
  rfl

end Reader

end VocabularyCompiler.Json

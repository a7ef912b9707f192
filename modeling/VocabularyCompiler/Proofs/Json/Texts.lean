import Mathlib.Data.List.TakeWhile
import VocabularyCompiler.Proofs.Json.Reading

/-!
# Texts and the values in them

A text that holds one value and nothing else, in which no object has a key twice, is the same to a
reader as the value in memory: the source that is scanned from it is that of the value
(`eq_ofValue_of_parse`). A reader of typed data may still tell the two apart, as what it says of a
fault depends on where the value comes from. Where it makes something of the value in one place it
makes the same of it in the other, as long as each of its parts does (`Reader.Carries`). Variants
are carried in one direction only: in a text their content may be written in more ways.
-/

namespace VocabularyCompiler.Json

/-! ## Results -/

section Results

variable {ε α β : Type}

/-- One step after another has a result if both have. -/
theorem bind_eq_ok_iff {x : Except ε α} {f : α → Except ε β} {b : β} :
    (x >>= f) = .ok b ↔ ∃ a, x = .ok a ∧ f a = .ok b := by
  cases x with
  | error e => exact ⟨nofun, nofun⟩
  | ok a => exact ⟨fun h => ⟨a, rfl, h⟩, fun ⟨_, ha, h⟩ => Except.ok.inj ha ▸ h⟩

/-- What is made of a result is there if the result is. -/
theorem map_eq_ok_iff {x : Except ε α} {f : α → β} {b : β} :
    x.map f = .ok b ↔ ∃ a, x = .ok a ∧ f a = b := by
  cases x with
  | error e => exact ⟨nofun, nofun⟩
  | ok a => exact ⟨fun h => ⟨a, rfl, Except.ok.inj h⟩,
      fun ⟨_, ha, h⟩ => congrArg Except.ok ((congrArg f (Except.ok.inj ha)).trans h)⟩

/-- The place of a part does not matter to its result. -/
theorem Reader.within_eq_ok_iff {segment : Segment} {x : Except ReadError α} {a : α} :
    Reader.within segment x = .ok a ↔ x = .ok a := by
  cases x with
  | error e => exact ⟨nofun, nofun⟩
  | ok a' => exact Iff.rfl

end Results

/-! ## Sources without repeated keys -/

/-- The names under which members stand. -/
def memberNames (members : List (Key × Source)) : List String :=
  members.filterMap fun m => match m.1 with
    | .name name => some name
    | _ => none

/-- The members of a value stand under their keys. -/
theorem memberNames_ofMembers (ms : List (String × Value)) :
    memberNames (Source.ofMembers ms) = ms.map Prod.fst := by
  rw [memberNames, Source.ofMembers_eq_map, List.filterMap_map, ← List.filterMap_eq_map]
  rfl

/-- No object in a source has two members with one name, at any depth. -/
inductive Source.DistinctKeys : Source → Prop
  | null : DistinctKeys .null
  | bool (b : Bool) : DistinctKeys (.bool b)
  | number (n : Number) : DistinctKeys (.number n)
  | string (s : String) : DistinctKeys (.string s)
  | array {items : List Source} {breach : Option Breach} (h : ∀ s ∈ items, DistinctKeys s) :
      DistinctKeys (.array items breach)
  | object {members : List (Key × Source)} (hnames : (memberNames members).Nodup)
      (h : ∀ m ∈ members, DistinctKeys m.2) : DistinctKeys (.object members)
  | missing : DistinctKeys .missing
  | unset (fault : SyntaxFault) : DistinctKeys (.unset fault)
  | broken (isString : Bool) (read : SyntaxFault) (skip : Option SyntaxFault) :
      DistinctKeys (.broken isString read skip)

mutual

/-- A value in which no object has a key twice is a source in which none has. -/
theorem distinctKeys_ofValue : ∀ v : Value, v.WellFormed → (Source.ofValue v).DistinctKeys
  | .null, _ => .null
  | .bool b, _ => .bool b
  | .number n, _ => .number n
  | .string s, _ => .string s
  | .array items, .array h => .array (distinctKeys_ofItems items h)
  | .object members, .object hkeys h => by
    refine .object ?_ (distinctKeys_ofMembers members h)
    rw [memberNames_ofMembers]
    exact hkeys
termination_by structural v => v

/-- Values in which no object has a key twice are sources in which none has. -/
theorem distinctKeys_ofItems : ∀ items : List Value, (∀ v ∈ items, v.WellFormed) →
    ∀ s ∈ Source.ofItems items, s.DistinctKeys
  | [], _ => List.forall_mem_nil _
  | v :: rest, h =>
    List.forall_mem_cons.2 ⟨distinctKeys_ofValue v (List.forall_mem_cons.1 h).1,
      distinctKeys_ofItems rest (List.forall_mem_cons.1 h).2⟩
termination_by structural items => items

/-- Members in which no object has a key twice are members of sources in which none has. -/
theorem distinctKeys_ofMembers : ∀ members : List (String × Value),
    (∀ m ∈ members, m.2.WellFormed) → ∀ m ∈ Source.ofMembers members, m.2.DistinctKeys
  | [], _ => List.forall_mem_nil _
  | (_, v) :: rest, h =>
    List.forall_mem_cons.2 ⟨distinctKeys_ofValue v (List.forall_mem_cons.1 h).1,
      distinctKeys_ofMembers rest (List.forall_mem_cons.1 h).2⟩
termination_by structural members => members

end

namespace Reader

variable {α β σ : Type}

/-- A member is read if a colon stands before its value and the value is read. -/
theorem atMember_eq_ok_iff {name : String} {read : Source → Except ReadError α} {s : Source}
    {a : α} : atMember name read s = .ok a ↔ (∀ fault, s ≠ .unset fault) ∧ read s = .ok a := by
  cases s with
  | unset fault => exact ⟨nofun, fun h => absurd rfl (h.1 fault)⟩
  | _ => simp [atMember, within_eq_ok_iff]

/-- Where something is read inside a container, one more container may be opened. -/
theorem exists_of_enter_bind_eq_ok {o : Origin} {b : Nat} {f : Scope → Except ReadError α} {a : α}
    (h : (enter ⟨o, b⟩ >>= f) = .ok a) : ∃ n, b = n + 1 ∧ f ⟨o, n⟩ = .ok a := by
  cases b with
  | zero => cases h
  | succ n => exact ⟨n, rfl, h⟩

/-- Members are read as values one after another. -/
theorem anyMembers_cons_eq_ok_iff {b : Nat} {name : String} {s : Source}
    {rest : List (Key × Source)} {ms : List (String × Value)} :
    anyMembers b ((.name name, s) :: rest) = .ok ms ↔
      ∃ v vs, any b s = .ok v ∧ anyMembers b rest = .ok vs ∧ (name, v) :: vs = ms := by
  have hmember : anyMembers b ((.name name, s) :: rest) =
      (atMember name (any b) s >>= fun v =>
        anyMembers b rest >>= fun vs => .ok ((name, v) :: vs)) := by
    cases s <;> rfl
  have hany : ∀ v, atMember name (any b) s = .ok v ↔ any b s = .ok v := by
    intro v
    refine atMember_eq_ok_iff.trans (and_iff_right_of_imp ?_)
    rintro h fault rfl
    cases h
  rw [hmember]
  simp only [bind_eq_ok_iff, hany, Except.ok.injEq, exists_and_left]

mutual

/-- A source that is read as a value is that of the value, if no object has a key twice. -/
theorem eq_ofValue_of_any : ∀ (s : Source) {b : Nat} {v : Value}, s.DistinctKeys →
    any b s = .ok v → s = .ofValue v ∧ s.height ≤ b
  | .null, _, _, _, h | .bool _, _, _, _, h | .number _, _, _, _, h | .string _, _, _, _, h => by
    cases h
    exact ⟨rfl, Nat.zero_le _⟩
  | .missing, _, _, _, h | .unset _, _, _, _, h | .broken .., _, _, _, h => nomatch h
  | .array _ _, 0, _, _, h | .object _, 0, _, _, h => nomatch h
  | .array items breach, b + 1, v, .array hdistinct, h => by
    obtain ⟨values, hitems, hend⟩ := bind_eq_ok_iff.1 h
    obtain ⟨heq, hheight⟩ := eq_ofItems_of_anyItems items hdistinct hitems
    cases breach with
    | some breach => cases hend
    | none =>
      cases hend
      exact ⟨congrArg (Source.array · none) heq, Nat.succ_le_succ hheight⟩
  | .object members, b + 1, v, .object hnames hdistinct, h => by
    obtain ⟨ms, hmembers, hend⟩ := bind_eq_ok_iff.1 h
    obtain ⟨heq, hheight⟩ := eq_ofMembers_of_anyMembers members hdistinct hmembers
    cases hend
    rw [heq, memberNames_ofMembers] at hnames
    rw [OrderedMap.entries_ofList_eq_iff.2 hnames]
    exact ⟨congrArg Source.object heq, Nat.succ_le_succ hheight⟩
termination_by structural s => s

/-- Items that are read as values are those of the values. -/
theorem eq_ofItems_of_anyItems : ∀ (items : List Source) {b i : Nat} {vs : List Value},
    (∀ s ∈ items, s.DistinctKeys) → anyItems b i items = .ok vs →
      items = Source.ofItems vs ∧ Source.heightOfItems items ≤ b
  | [], _, _, _, _, h => by
    cases h
    exact ⟨rfl, Nat.zero_le _⟩
  | s :: rest, b, i, vs, hdistinct, h => by
    obtain ⟨v, hv, h⟩ := bind_eq_ok_iff.1 h
    obtain ⟨values, hvalues, h⟩ := bind_eq_ok_iff.1 h
    cases h
    obtain ⟨hs, hrest⟩ := List.forall_mem_cons.1 hdistinct
    obtain ⟨heq, hheight⟩ := eq_ofValue_of_any s hs (within_eq_ok_iff.1 hv)
    obtain ⟨heqs, hheights⟩ := eq_ofItems_of_anyItems rest hrest hvalues
    exact ⟨congrArg₂ List.cons heq heqs, Nat.max_le.2 ⟨hheight, hheights⟩⟩
termination_by structural items => items

/-- Members that are read as values are those of the values. -/
theorem eq_ofMembers_of_anyMembers : ∀ (members : List (Key × Source)) {b : Nat}
    {ms : List (String × Value)}, (∀ m ∈ members, m.2.DistinctKeys) →
      anyMembers b members = .ok ms →
        members = Source.ofMembers ms ∧ Source.heightOfMembers members ≤ b
  | [], _, _, _, h => by
    cases h
    exact ⟨rfl, Nat.zero_le _⟩
  | (.absent .., _) :: _, _, _, _, h | (.flawed _, _) :: _, _, _, _, h => nomatch h
  | (.name name, s) :: rest, b, ms, hdistinct, h => by
    obtain ⟨v, values, hv, hvalues, rfl⟩ := anyMembers_cons_eq_ok_iff.1 h
    obtain ⟨hs, hrest⟩ := List.forall_mem_cons.1 hdistinct
    obtain ⟨heq, hheight⟩ := eq_ofValue_of_any s hs hv
    obtain ⟨heqs, hheights⟩ := eq_ofMembers_of_anyMembers rest hrest hvalues
    exact ⟨congrArg₂ List.cons (congrArg (Prod.mk _) heq) heqs, Nat.max_le.2 ⟨hheight, hheights⟩⟩
termination_by structural members => members

end

end Reader

/-- A text is one value if a value can be read at its start and nothing but space stands behind. -/
theorem parse_eq_ok_iff {text : String} {v : Value} : parse text = .ok v ↔
    Reader.any maxDepth (Scan.scan text.toList).1 = .ok v ∧
      ∀ behind ∈ (Scan.scan text.toList).2, ∀ c ∈ behind, Scan.isSpace c = true := by
  unfold parse
  generalize Scan.scan text.toList = scanned
  obtain ⟨source, rest⟩ := scanned
  dsimp only
  cases Reader.any maxDepth source with
  | error e => exact ⟨nofun, fun h => nomatch h.1⟩
  | ok w =>
    cases rest with
    | none => simp
    | some behind =>
      rw [Option.map_some, Scan.skipSpace]
      cases hspace : behind.dropWhile Scan.isSpace with
      | nil =>
        have hall := List.dropWhile_eq_nil_iff.1 hspace
        simpa using fun _ => hall
      | cons c rest =>
        refine ⟨nofun, fun h => ?_⟩
        rw [List.dropWhile_eq_nil_iff.2 (h.2 behind rfl)] at hspace
        cases hspace

/-- The source of a text that is one value is that of the value, if no object has a key twice. -/
theorem eq_ofValue_of_parse {text : String} {v : Value}
    (hdistinct : (Scan.scan text.toList).1.DistinctKeys) (h : parse text = .ok v) :
    (Scan.scan text.toList).1 = .ofValue v ∧ (Source.ofValue v).height ≤ maxDepth := by
  obtain ⟨heq, hheight⟩ := Reader.eq_ofValue_of_any _ hdistinct (parse_eq_ok_iff.1 h).1
  exact ⟨heq, heq ▸ hheight⟩

/-! ## From one place to another -/

namespace Reader

variable {α β σ : Type} {o o' : Origin}

/-- What a reader makes of a value that comes from one place, it makes of the value from another. -/
def Carries (o o' : Origin) (read : Reader α) : Prop :=
  ∀ (v : Value) (b : Nat) (a : α), read ⟨o, b⟩ (.ofValue v) = .ok a →
    read ⟨o', b⟩ (.ofValue v) = .ok a

/-- Strings are carried. -/
theorem carries_string : Reader.string.Carries o o' := fun v _ _ h => by cases v <;> exact h

/-- Booleans are carried. -/
theorem carries_bool : Reader.bool.Carries o o' := fun v _ _ h => by cases v <;> exact h

/-- Any values are carried. -/
theorem carries_value : Reader.value.Carries o o' := fun _ _ _ h => h

/-- Values of several forms are carried. -/
theorem carries_oneOf (type : String) (fit : Source → Option α) : (oneOf type fit).Carries o o' :=
  fun _ _ _ h => h

/-- What is made of the result is carried. -/
theorem Carries.map {read : Reader α} (h : read.Carries o o') (f : α → β) :
    Carries o o' fun scope source => (read scope source).map f := by
  intro v b c hc
  obtain ⟨a, ha, rfl⟩ := map_eq_ok_iff.1 hc
  exact map_eq_ok_iff.2 ⟨a, h v b a ha, rfl⟩

/-- What may be left out is carried. -/
theorem Carries.option {read : Reader α} (h : read.Carries o o') :
    (option read).Carries o o' := by
  intro v b a? ha
  cases v with
  | null => exact ha
  | bool _ | number _ | string _ | array _ | object _ => exact h.map some _ b a? ha

/-- Arrays are carried if their items are. -/
theorem Carries.sequence {read : Reader α} (h : read.Carries o o') (expected : String) :
    (sequence expected read).Carries o o' := by
  intro v b as has
  cases v with
  | array items =>
    obtain ⟨n, rfl, hinner⟩ := exists_of_enter_bind_eq_ok has
    obtain ⟨as', hitems, hend⟩ := bind_eq_ok_iff.1 hinner
    refine bind_eq_ok_iff.2 ⟨_, enter_succ o' n, bind_eq_ok_iff.2 ⟨as', ?_, hend⟩⟩
    rw [items_eq_ok_iff, Source.ofItems_eq_map, List.forall₂_map_left_iff] at hitems ⊢
    exact hitems.imp fun v a ha => h v n a ha
  | null | bool _ | number _ | string _ | object _ => cases has

/-- Lists are carried if their items are. -/
theorem Carries.list {read : Reader α} (h : read.Carries o o') : (list read).Carries o o' :=
  h.sequence _

/-- Sets are carried. -/
theorem carries_set : Reader.set.Carries o o' := (carries_string.sequence _).map _

/-- Maps are carried if their values are. -/
theorem Carries.mapOf {read : Reader α} (h : read.Carries o o') :
    (Reader.map read).Carries o o' := by
  have hmembers : ∀ (ms : List (String × Value)) (n : Nat) (as : List (String × α)),
      members (read ⟨o, n⟩) (Source.ofMembers ms) = .ok as →
        members (read ⟨o', n⟩) (Source.ofMembers ms) = .ok as := by
    intro ms n
    induction ms with
    | nil => exact fun as has => has
    | cons m rest ih =>
      intro as has
      obtain ⟨a, ha, has⟩ := bind_eq_ok_iff.1 has
      obtain ⟨as', has', hend⟩ := bind_eq_ok_iff.1 has
      rw [atMember_eq_ok_iff] at ha
      exact bind_eq_ok_iff.2 ⟨a, atMember_eq_ok_iff.2 ⟨ha.1, h m.2 n a ha.2⟩,
        bind_eq_ok_iff.2 ⟨as', ih as' has', hend⟩⟩
  intro v b as has
  cases v with
  | object ms =>
    obtain ⟨n, rfl, hinner⟩ := exists_of_enter_bind_eq_ok has
    obtain ⟨as', hms, hend⟩ := bind_eq_ok_iff.1 hinner
    exact bind_eq_ok_iff.2 ⟨_, enter_succ o' n, bind_eq_ok_iff.2 ⟨as', hmembers ms n as' hms, hend⟩⟩
  | null | bool _ | number _ | string _ | array _ => cases has

/-! ### Records -/

section Records

variable {fields : List (FieldReader σ)}

/-- The members of a record are carried if its fields are. -/
theorem recordMembers_carries (h : ∀ f ∈ fields, ∀ st, (f.read st).Carries o o') {n : Nat}
    (ms : List (String × Value)) (st : σ) (seen : List String) {result : σ × List String}
    (hms : recordMembers fields ⟨o, n⟩ st seen (Source.ofMembers ms) = .ok result) :
    recordMembers fields ⟨o', n⟩ st seen (Source.ofMembers ms) = .ok result := by
  induction ms generalizing st seen with
  | nil => exact hms
  | cons m rest ih =>
    obtain ⟨key, v⟩ := m
    rw [Source.ofMembers, recordMembers] at hms ⊢
    cases hfind : fields.find? fun f => f.isNamed key with
    | none =>
      simp only [hfind] at hms ⊢
      obtain ⟨_, hskip, hrest⟩ := bind_eq_ok_iff.1 hms
      exact bind_eq_ok_iff.2 ⟨_, hskip, ih st seen hrest⟩
    | some f =>
      simp only [hfind] at hms ⊢
      split at hms
      next => cases hms
      next hnew =>
        rw [if_neg hnew]
        obtain ⟨st', hread, hrest⟩ := bind_eq_ok_iff.1 hms
        rw [atMember_eq_ok_iff] at hread
        exact bind_eq_ok_iff.2 ⟨st', atMember_eq_ok_iff.2 ⟨hread.1,
          h f (List.mem_of_find?_eq_some hfind) st v n st' hread.2⟩, ih st' _ hrest⟩

/-- The items of a record are carried if its fields are. -/
theorem recordItems_carries (expected : String) (h : ∀ f ∈ fields, ∀ st, (f.read st).Carries o o')
    {n : Nat} (i : Nat) (st : σ) (vs : List Value) {result : σ × List Source}
    (hvs : recordItems expected ⟨o, n⟩ none i st fields (Source.ofItems vs) = .ok result) :
    recordItems expected ⟨o', n⟩ none i st fields (Source.ofItems vs) = .ok result := by
  induction fields generalizing i st vs with
  | nil => exact hvs
  | cons f fields ih =>
    obtain ⟨hf, hfields⟩ := List.forall_mem_cons.1 h
    cases vs with
    | nil =>
      rw [Source.ofItems, recordItems] at hvs ⊢
      split at hvs
      next => cases hvs
      next hrequired =>
        rw [if_neg hrequired]
        exact ih hfields (i + 1) st [] hvs
    | cons v vs =>
      obtain ⟨st', hread, hrest⟩ := bind_eq_ok_iff.1 hvs
      exact bind_eq_ok_iff.2 ⟨st', within_eq_ok_iff.2 (hf st v n st' (within_eq_ok_iff.1 hread)),
        ih hfields (i + 1) st' vs hrest⟩

/-- Records are carried if their fields are. -/
theorem carries_record (h : ∀ f ∈ fields, ∀ st, (f.read st).Carries o o') (expected : String)
    (start : σ) : (record expected fields start).Carries o o' := by
  intro v b a ha
  cases v with
  | null | bool _ | number _ | string _ => cases ha
  | object ms =>
    obtain ⟨n, rfl, hinner⟩ := exists_of_enter_bind_eq_ok ha
    obtain ⟨result, hread, hend⟩ := bind_eq_ok_iff.1 hinner
    exact bind_eq_ok_iff.2 ⟨_, enter_succ o' n,
      bind_eq_ok_iff.2 ⟨result, recordMembers_carries h ms start [] hread, hend⟩⟩
  | array vs =>
    obtain ⟨n, rfl, hinner⟩ := exists_of_enter_bind_eq_ok ha
    obtain ⟨⟨st, rest⟩, hread, hend⟩ := bind_eq_ok_iff.1 hinner
    obtain ⟨u, hsurplus, hend⟩ := bind_eq_ok_iff.1 hend
    refine bind_eq_ok_iff.2 ⟨_, enter_succ o' n, bind_eq_ok_iff.2 ⟨(st, rest),
      recordItems_carries _ h 0 start vs hread, bind_eq_ok_iff.2 ⟨u, ?_, hend⟩⟩⟩
    -- Where no item is left there is no complaint, whatever the place.
    cases rest with
    | nil => exact hsurplus
    | cons s rest => cases o <;> cases hsurplus

end Records

/-! ### Variants -/

/-- The content of a variant is carried. -/
def Content.Carries : Content α → Prop
  | .unit _ => True
  | .single read => Reader.Carries .memory .text read
  | .fields read => Reader.Carries .memory .text read

/-- The content of a variant is carried from memory into a text if it is so by itself. -/
theorem Content.Carries.variantContent {w : Variant α} (h : w.content.Carries) :
    Reader.Carries .memory .text (variantContent w) := by
  intro v b a ha
  obtain ⟨name, content⟩ := w
  cases content with
  | unit a' => cases v <;> exact ha
  | single read => exact h v b a ha
  | fields read =>
    cases v with
    | object ms => exact h (.object ms) b a ha
    | null | bool _ | number _ | string _ | array _ => cases ha

/-- Variants are carried from memory into a text if what they hold is. -/
theorem carries_variant {variants : List (Variant α)} (h : ∀ w ∈ variants, w.content.Carries) :
    (variant variants).Carries .memory .text := by
  intro v b a ha
  cases v with
  | null | bool _ | number _ | array _ => cases ha
  | string name => exact ha
  | object ms =>
    obtain ⟨n, rfl, hinner⟩ := exists_of_enter_bind_eq_ok ha
    refine bind_eq_ok_iff.2 ⟨_, enter_succ .text n, ?_⟩
    -- In memory the name of the variant is the only key, so nothing is left behind its content.
    match ms, hinner with
    | [], hinner => cases hinner
    | _ :: _ :: _, hinner => cases hinner
    | [(name, v)], hinner =>
      obtain ⟨w, hw, hcontent⟩ := bind_eq_ok_iff.1 hinner
      have hmem : w ∈ variants := by
        unfold variant? at hw
        split at hw
        next hfind =>
          cases hw
          exact List.mem_of_find?_eq_some hfind
        next => cases hw
      have htext := (h w hmem).variantContent v n a (within_eq_ok_iff.1 hcontent)
      exact bind_eq_ok_iff.2 ⟨w, hw, bind_eq_ok_iff.2
        ⟨a, atMember_eq_ok_iff.2 ⟨Source.ofValue_ne_unset v, htext⟩, rfl⟩⟩

end Reader

/-- What a reader makes of a value in memory, it makes of a text that is the value, if no object in
the text has a key twice. -/
theorem readText_eq_ok {α : Type} {read : Reader α} {text : String} {v : Value} {a : α}
    (hread : read.Reads v a) (hcarries : read.Carries .memory .text)
    (hdistinct : (Scan.scan text.toList).1.DistinctKeys) (hparse : parse text = .ok v) :
    readText read text = .ok a := by
  obtain ⟨heq, hheight⟩ := eq_ofValue_of_parse hdistinct hparse
  rw [readText, heq]
  exact hcarries v maxDepth a (hread maxDepth hheight)

end VocabularyCompiler.Json

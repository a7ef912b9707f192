import VocabularyCompiler.Proofs.TypeGraph.Declarations

/-!
# What a struct inherits

The walk to the properties of a struct goes up one parent after another and as high as it may before
it turns to the next one, and the first declaration of a property that it meets is the one that
counts. `Leftmost` says which type that is, without a walk: at each type on the way it is in the
first parent from which some way around the types below leads to a declaration. `collect` finds it
(`collect_leftmost`), because a type that it has left for good leads to no declaration around the
types that it still stands in (`Fruitless.not_leadsTo`).
-/

namespace VocabularyCompiler.TypeGraph

open Relation (ReflTransGen)

variable {g : TypeGraph} {p : Policy} {everything : Bool} {k : String}

/-! ## Ways of a walk -/

/-- A walk that comes to the type `a` takes the declaration `d` of the property `k` there, if it
has none yet. -/
def Offers (g : TypeGraph) (everything : Bool) (k a : String) (d : PropertyDecl) : Prop :=
  ∃ n, g.Contributes everything a n ∧ n.properties.get? k = some d

/-- Some way up from the type `a`, around the types in `avoid`, leads to a declaration of the
property `k`. -/
def LeadsTo (g : TypeGraph) (p : Policy) (everything : Bool) (k : String) (avoid : List String)
    (a : String) : Prop :=
  a ∉ avoid ∧ ∃ b d, ReflTransGen (fun x y => g.Climbs p everything x y ∧ y ∉ avoid) a b ∧
    g.Offers everything k b d

/-- The type `b` is where the leftmost way up from the type `a`, around the types in `avoid`, comes
to a declaration of the property `k`: it goes into the first parent from which some way leads to
one, around the types that it has come through. -/
inductive Leftmost (g : TypeGraph) (p : Policy) (everything : Bool) (k : String) :
    List String → String → String → Prop where
  | here {avoid : List String} {a : String} {d : PropertyDecl} (hnew : a ∉ avoid)
      (hoffers : g.Offers everything k a d) : Leftmost g p everything k avoid a a
  | above {avoid before after : List String} {a b c : String} {n : TypeNode} (hnew : a ∉ avoid)
      (hn : g.Contributes everything a n) (hnone : n.properties.get? k = none)
      (hroot : everything = true ∨ a ∉ p.structRoots) (hparents : n.parents = before ++ b :: after)
      (hbefore : ∀ x ∈ before, ¬g.LeadsTo p everything k (a :: avoid) x)
      (h : Leftmost g p everything k (a :: avoid) b c) : Leftmost g p everything k avoid a c

/-- A type offers no more than one declaration of a property. -/
theorem Offers.unique {a : String} {d e : PropertyDecl} (hd : g.Offers everything k a d)
    (he : g.Offers everything k a e) : d = e := by
  obtain ⟨n, hn, hd⟩ := hd
  obtain ⟨m, hm, he⟩ := he
  obtain rfl := hm.unique hn.found
  exact Option.some_inj.1 (hd.symm.trans he)

/-- A way from a type to a declaration begins in a type of the graph. -/
theorem contains_of_way {R : String → String → Prop} (hR : ∀ x y, R x y → g.Climbs p everything x y)
    {a b : String} {d : PropertyDecl} (hway : ReflTransGen R a b)
    (hoffers : g.Offers everything k b d) : g.contains a = true := by
  rcases ReflTransGen.cases_head hway with rfl | ⟨c, hac, -⟩
  · obtain ⟨n, hn, -⟩ := hoffers
    exact contains_iff.2 ⟨n, hn.found⟩
  · obtain ⟨n, hn, -⟩ := hR _ _ hac
    exact contains_iff.2 ⟨n, hn.found⟩

/-- What leads to a declaration offers one, or one of its parents leads to one without it. -/
theorem LeadsTo.cases {avoid : List String} {a : String} (h : g.LeadsTo p everything k avoid a) :
    (∃ d, g.Offers everything k a d) ∨
      ∃ b, g.Climbs p everything a b ∧ g.LeadsTo p everything k (a :: avoid) b := by
  obtain ⟨hnew, b, d, hway, hoffers⟩ := h
  -- Of the types on the way, those behind the last `a` are on a way around it.
  have hall : ∀ x, ReflTransGen (fun x y => g.Climbs p everything x y ∧ y ∉ avoid) x b →
      x ∉ avoid → g.LeadsTo p everything k (a :: avoid) x ∨ (∃ d, g.Offers everything k a d) ∨
        ∃ y, g.Climbs p everything a y ∧ g.LeadsTo p everything k (a :: avoid) y := by
    intro x hx
    induction hx using ReflTransGen.head_induction_on with
    | refl =>
      intro hb
      by_cases hba : b = a
      · exact Or.inr (Or.inl ⟨d, hba ▸ hoffers⟩)
      · exact Or.inl ⟨List.not_mem_cons_of_ne_of_not_mem hba hb, b, d, .refl, hoffers⟩
    | @head x y hxy _ ih =>
      intro hx
      rcases ih hxy.2 with hy | hdone
      · by_cases hxa : x = a
        · exact Or.inr (Or.inr ⟨y, hxa ▸ hxy.1, hy⟩)
        · obtain ⟨hynew, c, e, hyc, hc⟩ := hy
          have hxnew := List.not_mem_cons_of_ne_of_not_mem hxa hx
          exact Or.inl ⟨hxnew, c, e, hyc.head ⟨hxy.1, hynew⟩, hc⟩
      · exact Or.inr hdone
  rcases hall a hway hnew with hself | hdone
  · exact absurd List.mem_cons_self hself.1
  · exact hdone

/-- The leftmost way leads to a declaration. -/
theorem Leftmost.leadsTo {avoid : List String} {a b : String}
    (h : g.Leftmost p everything k avoid a b) : g.LeadsTo p everything k avoid a := by
  induction h with
  | @here avoid a d hnew hoffers => exact ⟨hnew, a, d, .refl, hoffers⟩
  | @above avoid before after a b c n hnew hn _ hroot hparents _ _ ih =>
    obtain ⟨hbnew, x, d, hway, hoffers⟩ := ih
    have hclimbs : g.Climbs p everything a b := ⟨n, hn, by simp [hparents], hroot⟩
    refine ⟨hnew, x, d, .head ⟨hclimbs, List.not_mem_of_not_mem_cons hbnew⟩ ?_, hoffers⟩
    exact ReflTransGen.mono (fun _ _ hxy => ⟨hxy.1, List.not_mem_of_not_mem_cons hxy.2⟩) _ _ hway

/-- The leftmost way ends where a declaration is. -/
theorem Leftmost.exists_offers {avoid : List String} {a b : String}
    (h : g.Leftmost p everything k avoid a b) : ∃ d, g.Offers everything k b d := by
  induction h with
  | here _ hoffers => exact ⟨_, hoffers⟩
  | above _ _ _ _ _ _ _ ih => exact ih

/-- The first member of a list with a property is the same however the list is taken apart. -/
private theorem eq_of_append_cons_eq {α : Type _} {P : α → Prop}
    {before before' after after' : List α} {a b : α}
    (h : before ++ a :: after = before' ++ b :: after') (ha : P a) (hb : P b)
    (hbefore : ∀ x ∈ before, ¬P x) (hbefore' : ∀ x ∈ before', ¬P x) : a = b := by
  rcases List.append_eq_append_iff.1 h with ⟨l, hl, hrest⟩ | ⟨l, hl, hrest⟩
  · cases l with
    | nil => exact (List.cons.inj hrest).1
    | cons c l =>
      obtain ⟨rfl, -⟩ := List.cons.inj hrest
      exact absurd ha (hbefore' a (by simp [hl]))
  · cases l with
    | nil => exact (List.cons.inj hrest).1.symm
    | cons c l =>
      obtain ⟨rfl, -⟩ := List.cons.inj hrest
      exact absurd hb (hbefore b (by simp [hl]))

/-- There is no more than one leftmost way. -/
theorem Leftmost.unique {avoid : List String} {a b c : String}
    (hb : g.Leftmost p everything k avoid a b) (hc : g.Leftmost p everything k avoid a c) :
    b = c := by
  induction hb with
  | here _ hoffers =>
    cases hc with
    | here => rfl
    | above _ hn hnone =>
      obtain ⟨m, hm, hd⟩ := hoffers
      obtain rfl := hm.unique hn.found
      simp [hnone] at hd
  | above _ hn hnone _ hparents hbefore h ih =>
    cases hc with
    | here _ hoffers =>
      obtain ⟨m, hm, hd⟩ := hoffers
      obtain rfl := hm.unique hn.found
      simp [hnone] at hd
    | above _ hn' _ _ hparents' hbefore' h' =>
      obtain rfl := hn'.unique hn.found
      obtain rfl := eq_of_append_cons_eq (hparents.symm.trans hparents') h.leadsTo h'.leadsTo
        hbefore hbefore'
      exact ih h'

/-! ## The walk -/

/-- Of two declarations of a property, the collection keeps the one that it has. -/
theorem get?_add (c : Collection) (n : TypeNode) (k : String) :
    (c.add n).properties.get? k = (c.properties.get? k).or (n.properties.get? k) := by
  have hfold : ∀ (l : List (String × PropertyDecl)) (m : OrderedMap String PropertyDecl),
      (l.foldl (fun m e => if m.contains e.1 then m else m.insert e.1 e.2) m).get? k =
        (m.get? k).or ((l.find? fun e => e.1 = k).map Prod.snd) := by
    intro l
    induction l with
    | nil => simp
    | cons e rest ih =>
      intro m
      rw [List.foldl_cons, ih, List.find?_cons]
      by_cases hk : e.1 = k
      · subst hk
        rw [OrderedMap.contains_eq_isSome_get?]
        cases hget : m.get? e.1 with
        | none => simp [OrderedMap.get?_insert]
        | some d => simp [hget]
      · simp only [hk, decide_false]
        split
        · rfl
        · rw [OrderedMap.get?_insert, if_neg hk]
  exact hfold n.properties.entries c.properties

/-- A declaration that was taken stays. -/
theorem get?_collect_of_some {d : PropertyDecl} (n : Nat) (c : Collection) (a : String)
    (h : c.properties.get? k = some d) :
    (g.collect p everything n c a).properties.get? k = some d := by
  induction n generalizing c a with
  | zero => exact h
  | succ n ih =>
    have hadd : ∀ node, ((c.visit a).add node).properties.get? k = some d := by
      intro node
      rw [get?_add, Collection.visit, h, Option.some_or]
    have hwalk := g.walks_collect p everything n c a
    generalize g.collect p everything (n + 1) c a = c' at hwalk ⊢
    cases hwalk with
    | unknown | again | pass => exact h
    | stop => exact hadd _
    | @climb node =>
      exact List.foldlRecOn node.parents _ (motive := fun c => c.properties.get? k = some d)
        (hadd node) fun c hc parent _ => ih c parent hc

/-- A walk comes across the type that it begins in. -/
theorem mem_visited_collect {n : Nat} (c : Collection) {a : String} (h : g.contains a = true) :
    a ∈ (g.collect p everything (n + 1) c a).visited := by
  have hwalk := g.walks_collect p everything n c a
  generalize g.collect p everything (n + 1) c a = c' at hwalk ⊢
  cases hwalk with
  | unknown hnode =>
    obtain ⟨node, hnode'⟩ := contains_iff.1 h
    cases hnode.symm.trans hnode'
  | again hold => exact hold
  | pass | stop => exact List.mem_cons_self
  | @climb node =>
    have hnode : a ∈ ((c.visit a).add node).visited := List.mem_cons_self
    exact List.foldlRecOn node.parents _ (motive := fun c => a ∈ c.visited) hnode
      fun c hc parent _ => subset_collect n c parent hc

/-- A walk that has taken no declaration of the property `k` so far. It stands in the types in
`path`; all parents that it could climb to from the others that it came across it came across too,
and none of these types offers a declaration. -/
structure Fruitless (g : TypeGraph) (p : Policy) (everything : Bool) (k : String)
    (path : List String) (c : Collection) : Prop where
  entered : path ⊆ c.visited
  unfound : c.properties.get? k = none
  barren : ∀ a ∈ c.visited, ∀ d, ¬g.Offers everything k a d
  closed : ∀ a ∈ c.visited, a ∉ path → ∀ b, g.Climbs p everything a b → g.contains b = true →
    b ∈ c.visited

namespace Fruitless

variable {path : List String} {c : Collection} {a : String}

/-- What was come across without finding a declaration leads to none around the types that the walk
still stands in. -/
theorem not_leadsTo (h : g.Fruitless p everything k path c) (ha : a ∈ c.visited) :
    ¬g.LeadsTo p everything k path a := by
  rintro ⟨hnew, b, d, hway, hoffers⟩
  induction hway using ReflTransGen.head_induction_on with
  | refl => exact h.barren b ha d hoffers
  | @head a x hax hxb ih =>
    have hx : g.contains x = true := contains_of_way (fun _ _ hxy => hxy.1) hxb hoffers
    exact ih (h.closed a ha hnew x hax.1 hx) hax.2

/-- A type from which the walk does not go on is left at once. -/
theorem skip {c' : Collection} (h : g.Fruitless p everything k path c)
    (hvisited : c'.visited = a :: c.visited) (hnone : c'.properties.get? k = none)
    (hoffers : ∀ d, ¬g.Offers everything k a d) (hclimbs : ∀ b, ¬g.Climbs p everything a b) :
    ¬g.LeadsTo p everything k path a ∧ g.Fruitless p everything k path c' := by
  constructor
  · intro hleads
    rcases hleads.cases with ⟨d, hd⟩ | ⟨b, hb, -⟩
    · exact hoffers d hd
    · exact hclimbs b hb
  · refine ⟨?_, hnone, ?_, ?_⟩ <;> rw [hvisited]
    · exact fun x hx => List.mem_cons_of_mem _ (h.entered hx)
    · exact List.forall_mem_cons.2 ⟨hoffers, h.barren⟩
    · refine List.forall_mem_cons.2 ⟨fun _ b hb => absurd hb (hclimbs b), ?_⟩
      exact fun x hx hnew b hb hknown => List.mem_cons_of_mem _ (h.closed x hx hnew b hb hknown)

/-- The walk enters a type that offers no declaration. -/
theorem enter {c' : Collection} (h : g.Fruitless p everything k path c)
    (hvisited : c'.visited = a :: c.visited) (hnone : c'.properties.get? k = none)
    (hoffers : ∀ d, ¬g.Offers everything k a d) :
    g.Fruitless p everything k (a :: path) c' := by
  refine ⟨?_, hnone, ?_, ?_⟩ <;> rw [hvisited]
  · exact List.cons_subset_cons a h.entered
  · exact List.forall_mem_cons.2 ⟨hoffers, h.barren⟩
  · intro x hx hnew b hb hknown
    have hold : x ∈ c.visited := (List.mem_cons.1 hx).resolve_left (List.ne_of_not_mem_cons hnew)
    exact List.mem_cons_of_mem _
      (h.closed x hold (List.not_mem_of_not_mem_cons hnew) b hb hknown)

/-- The walk leaves a type when it has come across all parents that it could climb to. -/
theorem leave (h : g.Fruitless p everything k (a :: path) c)
    (hparents : ∀ b, g.Climbs p everything a b → g.contains b = true → b ∈ c.visited) :
    g.Fruitless p everything k path c := by
  refine ⟨fun x hx => h.entered (List.mem_cons_of_mem _ hx), h.unfound, h.barren, ?_⟩
  intro x hx hnew b hb hknown
  by_cases hxa : x = a
  · exact hparents b (hxa ▸ hb) hknown
  · exact h.closed x hx (List.not_mem_cons_of_ne_of_not_mem hxa hnew) b hb hknown

end Fruitless

/-- A walk from `a` with the outcome `c'` has taken the declaration where the leftmost way ends, or
nothing leads to one and it has come across `a` in vain. -/
def Finds (g : TypeGraph) (p : Policy) (everything : Bool) (k : String) (path : List String)
    (a : String) (c' : Collection) : Prop :=
  (∃ b d, g.Leftmost p everything k path a b ∧ g.Offers everything k b d ∧
    c'.properties.get? k = some d) ∨
  ¬g.LeadsTo p everything k path a ∧ g.Fruitless p everything k path c'

/-- Walks from several types one after another take the declaration to which the first of them
leads, if a walk from each of them does. -/
private theorem foldl_collect_leftmost {path : List String} {m : Nat}
    (hwalk : ∀ c b, unseen g.names c.visited < m + 1 → g.Fruitless p everything k path c →
      g.Finds p everything k path b (g.collect p everything (m + 1) c b))
    (names : List String) (c : Collection) (hm : unseen g.names c.visited < m + 1)
    (h : g.Fruitless p everything k path c) :
    (∃ before b after x d, names = before ++ b :: after ∧
      (∀ y ∈ before, ¬g.LeadsTo p everything k path y) ∧ g.Leftmost p everything k path b x ∧
      g.Offers everything k x d ∧
      (names.foldl (g.collect p everything (m + 1)) c).properties.get? k = some d) ∨
    (∀ y ∈ names, ¬g.LeadsTo p everything k path y) ∧
      (∀ y ∈ names, g.contains y = true →
        y ∈ (names.foldl (g.collect p everything (m + 1)) c).visited) ∧
      g.Fruitless p everything k path (names.foldl (g.collect p everything (m + 1)) c) := by
  induction names generalizing c with
  | nil => exact Or.inr ⟨by simp, by simp, h⟩
  | cons b rest ih =>
    rw [List.foldl_cons]
    rcases hwalk c b hm h with ⟨x, d, hleft, hoffers, hget⟩ | ⟨hb, hfruitless⟩
    · refine Or.inl ⟨[], b, rest, x, d, rfl, by simp, hleft, hoffers, ?_⟩
      exact List.foldlRecOn rest _ (motive := fun c => c.properties.get? k = some d) hget
        fun c hc y _ => get?_collect_of_some _ c y hc
    · have hsub : c.visited ⊆ (g.collect p everything (m + 1) c b).visited :=
        subset_collect (m + 1) c b
      have hunseen := unseen_mono g.names hsub
      rcases ih _ (by omega) hfruitless with
        ⟨before, b', after, x, d, rfl, hbefore, hfound⟩ | ⟨hrest, hvisited, hdone⟩
      · exact Or.inl ⟨b :: before, b', after, x, d, rfl, List.forall_mem_cons.2 ⟨hb, hbefore⟩,
          hfound⟩
      · refine Or.inr ⟨List.forall_mem_cons.2 ⟨hb, hrest⟩, ?_, hdone⟩
        refine List.forall_mem_cons.2 ⟨fun hknown => ?_, hvisited⟩
        exact List.foldlRecOn rest _ (motive := fun c => b ∈ c.visited)
          (mem_visited_collect c hknown) fun c hc y _ => subset_collect _ c y hc

/-- The walk takes the declaration of a type, or there is none and it has none as before. -/
theorem Fruitless.add {path : List String} {c : Collection} {a : String} {node : TypeNode}
    (h : g.Fruitless p everything k path c) (hnode : g.Contributes everything a node) :
    (∃ d, g.Offers everything k a d ∧ ((c.visit a).add node).properties.get? k = some d) ∨
      node.properties.get? k = none ∧ ((c.visit a).add node).properties.get? k = none ∧
        ∀ d, ¬g.Offers everything k a d := by
  have hget : ((c.visit a).add node).properties.get? k = node.properties.get? k := by
    rw [get?_add, Collection.visit, h.unfound, Option.none_or]
  cases hdecl : node.properties.get? k with
  | some d => exact Or.inl ⟨d, ⟨node, hnode, hdecl⟩, hget.trans hdecl⟩
  | none =>
    refine Or.inr ⟨rfl, hget.trans hdecl, ?_⟩
    rintro d ⟨m, hm, hd⟩
    obtain rfl := hm.unique hnode.found
    cases hdecl.symm.trans hd

/-- A walk takes the declaration where the leftmost way ends, if it is allowed more steps than there
are types to come across. -/
theorem collect_leftmost {n : Nat} {c : Collection} {path : List String} {a : String}
    (hn : unseen g.names c.visited < n) (h : g.Fruitless p everything k path c) :
    g.Finds p everything k path a (g.collect p everything n c a) := by
  induction n generalizing c path a with
  | zero => omega
  | succ n ih =>
    have hwalk := g.walks_collect p everything n c a
    generalize g.collect p everything (n + 1) c a = c' at hwalk ⊢
    cases hwalk with
    | unknown hnode =>
      -- There is no such type, so no way begins here.
      refine Or.inr ⟨fun hleads => ?_, h⟩
      obtain ⟨-, b, d, hway, hoffers⟩ := hleads
      obtain ⟨node, hnode'⟩ := contains_iff.1 (contains_of_way (fun _ _ hxy => hxy.1) hway hoffers)
      cases hnode.symm.trans hnode'
    | again hold => exact Or.inr ⟨h.not_leadsTo hold, h⟩
    | pass hnew hout =>
      exact Or.inr (h.skip rfl h.unfound (fun d ⟨m, hm, _⟩ => hout m hm)
        fun b ⟨m, hm, _⟩ => hout m hm)
    | @stop node hnew hnode hroot =>
      rcases h.add hnode with ⟨d, hoffers, hget⟩ | ⟨-, hget, hoffers⟩
      · exact Or.inl ⟨a, d, .here (fun hmem => hnew (h.entered hmem)) hoffers, hoffers, hget⟩
      · exact Or.inr (h.skip rfl hget hoffers hroot)
    | @climb node hnew hnode hon =>
      have hpath : a ∉ path := fun hmem => hnew (h.entered hmem)
      rcases h.add hnode with ⟨d, hoffers, hget⟩ | ⟨hdecl, hget, hoffers⟩
      · -- What is collected above changes nothing about the declaration that is here.
        refine Or.inl ⟨a, d, .here hpath hoffers, hoffers, ?_⟩
        exact List.foldlRecOn node.parents _ (motive := fun c => c.properties.get? k = some d)
          hget fun c hc parent _ => get?_collect_of_some n c parent hc
      have hlt := unseen_lt (List.subset_cons_self a c.visited)
        (mem_names_of_get? hnode.found) hnew List.mem_cons_self
      obtain ⟨m, rfl⟩ : ∃ m, n = m + 1 := ⟨n - 1, by omega⟩
      rcases foldl_collect_leftmost (fun c b hc hfruitless => ih hc hfruitless)
          node.parents _ (hlt.trans_le (Nat.le_of_lt_succ hn)) (h.enter rfl hget hoffers)
        with ⟨before, b, after, x, d, hparents, hbefore, hleft, hfound⟩ |
          ⟨hvain, hvisited, hfruitless⟩
      · exact Or.inl ⟨x, d, .above hpath hnode hdecl hon hparents hbefore hleft, hfound⟩
      · have hclimbs : ∀ b, g.Climbs p everything a b → b ∈ node.parents := by
          rintro b ⟨m, hm, hb, -⟩
          obtain rfl := hm.unique hnode.found
          exact hb
        refine Or.inr ⟨fun hleads => ?_, hfruitless.leave fun b hb hknown =>
          hvisited b (hclimbs b hb) hknown⟩
        rcases hleads.cases with ⟨d, hd⟩ | ⟨b, hb, hbleads⟩
        · exact hoffers d hd
        · exact hvain b (hclimbs b hb) hbleads

end VocabularyCompiler.TypeGraph

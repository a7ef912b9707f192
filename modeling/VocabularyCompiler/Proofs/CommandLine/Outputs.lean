import VocabularyCompiler.CommandLine.Run

/-!
# What a failed run leaves behind

All that a run reads it reads before it writes the class, so a run that fails leaves the files as
they were, unless what fails is the writing of an output. One output is written earlier: the request
for phrases, before the recorded answer to it is read. `files_of_failed_run` says for every command
line and every host what a run that fails leaves behind; the request is all that it can be.

Hosts are those on a state of which some part, the files, is not changed by reading. What they
write, and whether that succeeds, is left open.
-/

namespace VocabularyCompiler

/-! ## Computations that change no files -/

section Keeps

variable {σ φ α β : Type} {files : σ → φ}

/-- A computation leaves the files of the state as they are. -/
def Keeps (files : σ → φ) (x : StateM σ α) : Prop := ∀ s, files (x.run s).2 = files s

/-- To read from a host changes no files. -/
structure Host.ReadsOnly (h : Host (StateM σ)) (files : σ → φ) : Prop where
  readInput : Keeps files h.readInput
  readFile (path : String) : Keeps files (h.readFile path)
  kind? (path : String) : Keeps files (h.kind? path)
  names (path : String) : Keeps files (h.names path)

/-- The host with files that are a value changes them only when it writes. -/
theorem Machine.host_readsOnly : Machine.host.ReadsOnly Machine.tree where
  readInput _ := rfl
  readFile _ _ := rfl
  kind? _ _ := rfl
  names _ _ := rfl

namespace Keeps

variable {x : StateM σ α}

theorem pure (a : α) : Keeps files (Pure.pure a : StateM σ α) := fun _ => rfl

theorem bind {f : α → StateM σ β} (hx : Keeps files x) (hf : ∀ a, Keeps files (f a)) :
    Keeps files (x >>= f) := fun s => (hf (x.run s).1 (x.run s).2).trans (hx s)

theorem map {f : α → β} (hx : Keeps files x) : Keeps files (f <$> x) := fun s => hx s

theorem mapM {ι : Type} {f : ι → StateM σ α} (hf : ∀ i, Keeps files (f i)) (l : List ι) :
    Keeps files (l.mapM f) := by
  induction l with
  | nil => exact pure []
  | cons i rest ih =>
    rw [List.mapM_cons]
    exact (hf i).bind fun _ => ih.bind fun _ => pure _

theorem flatMapM {ι : Type} {f : ι → StateM σ (List α)} (hf : ∀ i, Keeps files (f i))
    (l : List ι) : Keeps files (l.flatMapM f) := by
  induction l with
  | nil => exact pure []
  | cons i rest ih =>
    rw [List.flatMapM_cons]
    exact (hf i).bind fun _ => ih.bind fun _ => pure _

theorem filterM {p : α → StateM σ Bool} (hp : ∀ a, Keeps files (p a)) (l : List α) :
    Keeps files (l.filterM p) := by
  -- What was found so far is carried along, so the induction is for any of it.
  have haux : ∀ found, Keeps files (l.filterAuxM p found) := by
    induction l with
    | nil => exact fun found => pure found
    | cons a rest ih => exact fun found => (hp a).bind fun _ => ih _
  exact (haux []).bind fun _ => pure _

end Keeps

end Keeps

/-! ## The search for files -/

namespace Glob

variable {σ φ : Type} {files : σ → φ} {h : Host (StateM σ)} (hread : h.ReadsOnly files)

include hread

theorem isDirectory_keeps (path : String) : Keeps files (isDirectory h path) :=
  (hread.kind? path).bind fun _ => .pure _

theorem children_keeps (directory : String) : Keeps files (children h directory) :=
  (hread.names directory).bind fun _ => .pure _

theorem descendants_keeps (n : Nat) (directory : String) :
    Keeps files (descendants h n directory) := by
  induction n generalizing directory with
  | zero => exact .pure []
  | succ n ih =>
    refine (children_keeps hread directory).bind fun found => .flatMapM (fun child => ?_) found
    refine (isDirectory_keeps hread child).bind fun directory? => ?_
    cases directory? with
    | true => exact (ih child).bind fun _ => .pure _
    | false => exact .pure _

mutual

/-- To search for what fits a pattern changes no files. -/
theorem expand_keeps (directoriesOnly : Bool) :
    ∀ (ps : List Pattern) (path : String), Keeps files (expand h directoriesOnly ps path)
  | [], path => by
    unfold expand
    refine (isDirectory_keeps hread path).bind fun directory? => ?_
    split <;> exact .pure _
  | p :: ps, path => by
    have hrest (child : String) : Keeps files (expand h directoriesOnly ps child) :=
      expand_keeps directoriesOnly ps child
    unfold expand
    split
    -- A name without wildcards is looked up, anything else is searched for.
    next name _ =>
      have hnext (found : Bool) : Keeps files
          (if found = true then expand h directoriesOnly ps (within path name) else pure []) := by
        split
        · exact hrest _
        · exact .pure _
      dsimp only
      split
      · exact (isDirectory_keeps hread path).bind hnext
      · exact (hread.kind? _).bind fun kind? => hnext kind?.isSome
    next =>
      refine (isDirectory_keeps hread path).bind fun directory? => ?_
      split
      · exact .pure _
      split
      · exact expandBelow_keeps directoriesOnly ps path
      · refine (Keeps.flatMapM hrest _).bind fun special => ?_
        refine (children_keeps hread path).bind fun found => ?_
        refine (Keeps.flatMapM (fun child => ?_) found).bind fun _ => .pure _
        split
        · exact hrest child
        · exact .pure _
termination_by structural ps => ps

/-- To search below a directory changes no files. -/
theorem expandBelow_keeps (directoriesOnly : Bool) :
    ∀ (ps : List Pattern) (path : String), Keeps files (expandBelow h directoriesOnly ps path)
  | [], path => by
    unfold expandBelow
    exact (descendants_keeps hread maxDepth path).bind fun found =>
      .filterM (isDirectory_keeps hread) found
  | q :: rest, path => by
    unfold expandBelow
    split
    · refine (isDirectory_keeps hread path).bind fun directory? => ?_
      split
      · exact .pure _
      · exact expandBelow_keeps directoriesOnly rest path
    · refine (descendants_keeps hread maxDepth path).bind fun found => ?_
      refine .flatMapM (fun child => ?_) found
      split
      · exact expand_keeps directoriesOnly rest child
      · exact .pure _
termination_by structural ps => ps

end

end Glob

namespace CommandLine

variable {σ φ α β : Type} {files : σ → φ} {h : Host (StateM σ)}

/-! ## Stages that only read -/

/-- Whether a failure is one to have the recorded answer to the request for phrases. -/
def Failure.isRefinements : Failure → Bool
  | refinements .. => true
  | _ => false

/-- A result is no failure to have the recorded answer. -/
def Unrelated (r : Except Failure α) : Prop :=
  ∀ failure, r = .error failure → failure.isRefinements = false

namespace Unrelated

/-- An error keeps its kind when it is put into its context. -/
theorem mapError {ε : Type} {context : ε → Failure} (hc : ∀ e, (context e).isRefinements = false)
    (r : Except ε α) : Unrelated (r.mapError context) := by
  rintro failure hr
  cases r with
  | ok a => cases hr
  | error e =>
    cases hr
    exact hc e

theorem bind {r : Except Failure α} {f : α → Except Failure β} (hr : Unrelated r)
    (hf : ∀ a, Unrelated (f a)) : Unrelated (r >>= f) := by
  cases r with
  | ok a => exact hf a
  | error e => exact fun failure he => hr failure (congrArg _ (Except.error.inj he))

theorem foldlM {ι : Type} {f : α → ι → Except Failure α} (hf : ∀ a i, Unrelated (f a i))
    (l : List ι) (a : α) : Unrelated (l.foldlM f a) := by
  induction l generalizing a with
  | nil => exact fun _ he => nomatch he
  | cons i rest ih =>
    rw [List.foldlM_cons]
    exact (hf a i).bind fun a => ih a

end Unrelated

/-- One stage of a run after another ends where one of them fails. -/
theorem run_bind (x : ExceptT Failure (StateM σ) α) (f : α → ExceptT Failure (StateM σ) β)
    (s : σ) : (x >>= f).run.run s =
      match x.run.run s with
      | (.ok a, t) => (f a).run.run t
      | (.error failure, t) => (.error failure, t) := by
  rw [ExceptT.run_bind, StateT.run_bind]
  rcases x.run.run s with ⟨_ | _, t⟩ <;> rfl

/-- A stage of a run leaves the files as they are, and it does not fail for the recorded answer. -/
def Reads (files : σ → φ) (x : ExceptT Failure (StateM σ) α) : Prop :=
  ∀ s, files (x.run.run s).2 = files s ∧ Unrelated (x.run.run s).1

namespace Reads

variable {x : ExceptT Failure (StateM σ) α}

theorem pure (a : α) : Reads files (Pure.pure a : ExceptT Failure (StateM σ) α) := fun _ =>
  ⟨rfl, fun _ hf => nomatch hf⟩

/-- A failure is no change. -/
theorem fail {failure : Failure} (hf : failure.isRefinements = false) :
    Reads files (throw failure : ExceptT Failure (StateM σ) α) := fun _ =>
  ⟨rfl, fun _ he => Except.error.inj he ▸ hf⟩

/-- What needs no host is no change. -/
theorem result {r : Except Failure α} (hr : Unrelated r) :
    Reads files (ExceptT.mk (Pure.pure r) : ExceptT Failure (StateM σ) α) := fun _ => ⟨rfl, hr⟩

theorem bind {f : α → ExceptT Failure (StateM σ) β} (hx : Reads files x)
    (hf : ∀ a, Reads files (f a)) : Reads files (x >>= f) := by
  intro s
  obtain ⟨hkeeps, hfails⟩ := hx s
  rw [run_bind]
  generalize x.run.run s = r at hkeeps hfails
  obtain ⟨_ | a, t⟩ := r
  · exact ⟨hkeeps, fun failure he => hfails failure (by rw [Except.error.inj he])⟩
  · exact ⟨((hf a) t).1.trans hkeeps, ((hf a) t).2⟩

/-- To read from a host is no failure. -/
theorem lift {x : StateM σ α} (hx : Keeps files x) :
    Reads files (liftM x : ExceptT Failure (StateM σ) α) := fun s =>
  ⟨hx s, fun _ he => nomatch he⟩

theorem orFail {failure : FileFault → Failure} {x : StateM σ (Except FileFault α)}
    (hx : Keeps files x) (hf : ∀ fault, (failure fault).isRefinements = false) :
    Reads files (CommandLine.orFail failure x) := by
  exact fun s => ⟨hx s, .mapError hf (x.run s).1⟩

theorem foldlM {ι : Type} {f : α → ι → ExceptT Failure (StateM σ) α}
    (hf : ∀ a i, Reads files (f a i)) (l : List ι) (a : α) : Reads files (l.foldlM f a) := by
  induction l generalizing a with
  | nil => exact pure a
  | cons i rest ih =>
    rw [List.foldlM_cons]
    exact (hf a i).bind fun a => ih a

theorem mapM {ι : Type} {f : ι → ExceptT Failure (StateM σ) α} (hf : ∀ i, Reads files (f i))
    (l : List ι) : Reads files (l.mapM f) := by
  induction l with
  | nil => exact pure []
  | cons i rest ih =>
    rw [List.mapM_cons]
    exact (hf i).bind fun _ => ih.bind fun _ => pure _

end Reads

theorem documents_unrelated (filter : Option String) (label text : String) :
    Unrelated (documents filter label text) := by
  unfold documents
  refine (Unrelated.mapError (fun _ => rfl) _).bind fun v => ?_
  cases filter with
  | none => exact fun _ he => nomatch he
  | some code => exact .mapError (fun _ => rfl) _

section Stages

variable (hread : h.ReadsOnly files)

include hread

theorem policy_reads (path? : Option String) : Reads files (policy h path?) := by
  unfold policy
  cases path? with
  | none => exact .pure _
  | some path =>
    refine (Reads.orFail (hread.readFile path) fun _ => rfl).bind fun text => ?_
    exact .result (.mapError (fun _ => rfl) _)

theorem resolve_reads (before : List Input) (argument : String) :
    Reads files (resolve h before argument) := by
  unfold resolve
  split
  · split
    · exact (Reads.fail rfl).bind fun _ => .pure _
    · exact .pure _
  split
  · split
    next fault _ => exact .fail rfl
    next pattern _ =>
      refine (Reads.lift (Glob.expand_keeps hread _ _ _)).bind fun found => ?_
      split
      · exact .fail rfl
      · exact .pure _
  · exact .pure _

theorem gather_reads (filter : Option String) (c : Compiler) (input : Input) :
    Reads files (gather h filter c input) := by
  have htext : Keeps files (input.read h) := by
    cases input with
    | standard => exact hread.readInput
    | file path => exact hread.readFile path
  unfold gather
  refine (Reads.orFail htext fun _ => rfl).bind fun text => ?_
  refine (Reads.result (documents_unrelated _ _ _)).bind fun vs => .result ?_
  exact .foldlM (fun c v => .mapError (fun _ => rfl) _) vs c

theorem samples_reads (settings : Settings) : Reads files (samples h settings) := by
  unfold samples
  cases settings.datasets with
  | none => exact .pure _
  | some path =>
    refine (Reads.orFail (hread.readFile path) fun _ => rfl).bind fun text => ?_
    dsimp only
    refine (Reads.mapM (fun p => ?_) _).bind fun contents => .pure _
    exact (Reads.lift (hread.readFile p)).bind fun content => .pure _

end Stages

/-! ## Stages that write -/

/-- What a stage of a run fails with is a failure to write an output. -/
theorem isOutput_of_write {path text : String} {failure : Failure} {s t : σ}
    (hrun : (write h path text).run.run s = (.error failure, t)) : failure.isOutput = true := by
  have hfail {make : FileFault → Failure} (hmake : ∀ fault, (make fault).isOutput = true)
      {x : StateM σ (Except FileFault Unit)} {s t : σ} {failure : Failure}
      (hx : (orFail make x).run.run s = (.error failure, t)) : failure.isOutput = true := by
    obtain ⟨hr, -⟩ := Prod.mk.inj hx
    change (x.run s).1.mapError make = .error failure at hr
    cases hx : (x.run s).1 with
    | ok a => rw [hx] at hr; cases hr
    | error fault => rw [hx] at hr; cases hr; exact hmake fault
  unfold write at hrun
  dsimp only at hrun
  split at hrun
  · rw [run_bind] at hrun
    split at hrun
    next => exact hfail (fun _ => rfl) hrun
    next hx =>
      cases hrun
      exact hfail (fun _ => rfl) hx
  · exact hfail (fun _ => rfl) hrun

/-- The files at `t` are those at `s`, but for some request for phrases that was written to
`path`. -/
def WritesRequest (h : Host (StateM σ)) (files : σ → φ) (path : String) (s t : σ) : Prop :=
  ∃ (request : RefinementRequest) (s' t' : σ), files s' = files s ∧
    (write h path request.toJson.pretty).run.run s' = (.ok (), t') ∧ files t = files t'

/-- What a failure leaves behind: the request for phrases, if one was to be written and what fails
is to have the recorded answer to it, and nothing else. -/
def LeftBehind (h : Host (StateM σ)) (files : σ → φ) (settings : Settings) (failure : Failure)
    (s t : σ) : Prop :=
  match settings.requestOut with
  | some path => if failure.isRefinements then WritesRequest h files path s t else files t = files s
  | none => files t = files s

/-- Unless a stage of a run fails to write an output, it leaves behind what is said above. -/
def FailsCleanly (h : Host (StateM σ)) (files : σ → φ) (settings : Settings)
    (x : ExceptT Failure (StateM σ) α) : Prop :=
  ∀ s failure t, x.run.run s = (.error failure, t) → failure.isOutput = false →
    LeftBehind h files settings failure s t

section Cleanly

variable {settings : Settings}

/-- What leaves the files as they are leaves nothing behind. -/
theorem LeftBehind.of_eq {failure : Failure} {s t : σ} (hf : failure.isRefinements = false)
    (heq : files t = files s) : LeftBehind h files settings failure s t := by
  unfold LeftBehind
  split
  · rw [hf]
    exact heq
  · exact heq

/-- Nothing is left behind but for the recorded answer. -/
theorem LeftBehind.eq_of_unrelated {failure : Failure} {s t : σ}
    (hleft : LeftBehind h files settings failure s t) (hf : failure.isRefinements = false) :
    files t = files s := by
  unfold LeftBehind at hleft
  split at hleft
  · rwa [hf] at hleft
  · exact hleft

/-- What was read before makes no difference. -/
theorem LeftBehind.of_keeps {failure : Failure} {r s t : σ} (heq : files s = files r)
    (hleft : LeftBehind h files settings failure s t) :
    LeftBehind h files settings failure r t := by
  unfold LeftBehind WritesRequest at hleft ⊢
  rwa [heq] at hleft

/-- A stage that only reads may come first. -/
theorem FailsCleanly.after_reads {x : ExceptT Failure (StateM σ) α}
    {f : α → ExceptT Failure (StateM σ) β} (hx : Reads files x)
    (hf : ∀ a, FailsCleanly h files settings (f a)) :
    FailsCleanly h files settings (x >>= f) := by
  intro s failure t hrun hout
  obtain ⟨hkeeps, hunrelated⟩ := hx s
  rw [run_bind] at hrun
  generalize x.run.run s = r at hkeeps hunrelated hrun
  obtain ⟨_ | a, s'⟩ := r
  · cases hrun
    exact .of_eq (hunrelated failure rfl) hkeeps
  · exact .of_keeps hkeeps (hf a s' failure t hrun hout)

/-- A stage that fails only to write an output may come last. -/
theorem FailsCleanly.before_write {x : ExceptT Failure (StateM σ) α}
    {f : α → ExceptT Failure (StateM σ) β} (hx : FailsCleanly h files settings x)
    (hf : ∀ a s failure t, (f a).run.run s = (.error failure, t) → failure.isOutput = true) :
    FailsCleanly h files settings (x >>= f) := by
  intro s failure t hrun hout
  rw [run_bind] at hrun
  split at hrun
  next a s' hx' => exact absurd (hf a s' failure t hrun) (by simp [hout])
  next failure' s' hx' =>
    cases hrun
    exact hx s failure t hx' hout

/-- A stage that cannot fail leaves nothing behind. -/
theorem FailsCleanly.pure (a : α) :
    FailsCleanly h files settings (Pure.pure a : ExceptT Failure (StateM σ) α) :=
  fun _ _ _ hrun => nomatch hrun

/-- The last stage of a refinement: the recorded answer to the request is read and merged. -/
def answer (h : Host (StateM σ)) (settings : Settings) (c : Compiled) (annotated : ClassDefinition)
    (request : RefinementRequest) : ExceptT Failure (StateM σ) Compiled := do
  match settings.refinements with
  | none => return { c with definition := annotated }
  | some path =>
    let text ← liftM (h.readFile path)
    match Oracle.recorded text request with
    | .error e => throw (.refinements path e)
    | .ok response =>
      let (merged, notes) := Refinement.merge response annotated
      return { c with definition := merged, diagnostics := c.diagnostics ++ notes }

/-- A class is annotated, then the request for phrases is written, then the answer is read. -/
theorem refine_eq (p : Policy) (c : Compiled) : refine h settings p c =
    if (!settings.annotate && settings.refinements.isNone) = true then Pure.pure c
    else samples h settings >>= fun source =>
      let annotated := Refinement.annotate p source c.definition
      match settings.requestOut with
      | some path => write h path annotated.2.toJson.pretty >>= fun _ =>
        answer h settings c annotated.1 annotated.2
      | none => answer h settings c annotated.1 annotated.2 := by
  unfold refine
  split
  · rfl
  refine congrArg (samples h settings >>= ·) (funext fun source => ?_)
  dsimp only
  cases settings.requestOut <;> rfl

variable (hread : h.ReadsOnly files)

include hread

/-- Only the recorded answer can be missing in the last stage, and the files stay as they are. -/
theorem answer_fails {c : Compiled} {annotated : ClassDefinition} {request : RefinementRequest}
    {s t : σ} {failure : Failure}
    (hrun : (answer h settings c annotated request).run.run s = (.error failure, t)) :
    failure.isRefinements = true ∧ files t = files s := by
  unfold answer at hrun
  split at hrun
  next => cases hrun
  next path _ =>
    have hread' : (liftM (h.readFile path) : ExceptT Failure (StateM σ) _).run.run s =
        (.ok ((h.readFile path).run s).1, ((h.readFile path).run s).2) := rfl
    rw [run_bind, hread'] at hrun
    dsimp only at hrun
    split at hrun
    next =>
      cases hrun
      exact ⟨rfl, hread.readFile path s⟩
    next => cases hrun

/-- Once the request for phrases is written, nothing but the recorded answer can be missing. -/
theorem refine_failsCleanly (p : Policy) (c : Compiled) :
    FailsCleanly h files settings (refine h settings p c) := by
  rw [refine_eq]
  split
  · exact .pure _
  refine .after_reads (samples_reads hread settings) fun source s failure t hrun hout => ?_
  generalize Refinement.annotate p source c.definition = annotated at hrun
  unfold LeftBehind
  dsimp only at hrun
  split at hrun
  next path _ =>
    -- The request is written first, so it is there when the answer turns out to be missing.
    rw [run_bind] at hrun
    split at hrun
    next s' hwrite =>
      obtain ⟨hrefinements, heq⟩ := answer_fails hread hrun
      rw [if_pos hrefinements]
      exact ⟨annotated.2, s, s', rfl, hwrite, heq⟩
    next failure' s' hwrite =>
      cases hrun
      exact absurd (isOutput_of_write hwrite) (by simp [hout])
  next => exact (answer_fails hread hrun).2

/-- The class is compiled from what was read, and then refined. -/
theorem compile_failsCleanly : FailsCleanly h files settings (compile h settings) := by
  unfold compile
  refine .after_reads (policy_reads hread _) fun p => ?_
  refine .after_reads (.foldlM (resolve_reads hread) _ _) fun inputs => ?_
  refine .after_reads (.foldlM (gather_reads hread _) _ _) fun c => ?_
  split
  -- To compile what was read needs no host.
  next e _ =>
    intro s failure t hrun _
    cases hrun
    exact .of_eq rfl rfl
  next compiled _ => exact refine_failsCleanly hread p compiled

/-- The class is written last. -/
theorem produce_failsCleanly (target : Target) :
    FailsCleanly h files settings (produce h target settings) := by
  unfold produce
  refine .before_write (compile_failsCleanly hread) fun c s failure t hrun => ?_
  split at hrun
  next => cases hrun
  next path _ =>
    rw [run_bind] at hrun
    split at hrun
    next => cases hrun
    next hwrite =>
      cases hrun
      exact isOutput_of_write hwrite

end Cleanly

/-! ## Runs -/

/-- A class that is made and written is no failure. -/
theorem exitCode_of_produce {target : Target} {settings : Settings} {s t : σ} {outcome : Outcome}
    (hrun : (produce h target settings).run.run s = (.ok outcome, t)) : outcome.exitCode = 0 := by
  unfold produce at hrun
  rw [run_bind] at hrun
  split at hrun
  next c s' hcompile =>
    split at hrun
    next => cases hrun; rfl
    next path _ =>
      rw [run_bind] at hrun
      split at hrun
      next => cases hrun; rfl
      next => cases hrun
  next => cases hrun

/-- What a run comes to when its stages have this result. -/
def concluded : Except Failure Outcome → Outcome
  | .ok outcome => outcome
  | .error failure => ⟨1, "", ["error: " ++ failure.message]⟩

/-- A run with settings for a class is one of its stages. -/
theorem run_of_compile {arguments : List String} {verbosity : Nat} {target : Target}
    {settings : Settings} (hparse : parse arguments = .ok (.compile verbosity target settings))
    (hop : settings.noOp = false) (s : σ) :
    (run h arguments).run s = (concluded ((produce h target settings).run.run s).1,
      ((produce h target settings).run.run s).2) := by
  unfold run
  rw [hparse]
  dsimp only
  rw [if_neg (by simp [hop]), StateT.run_bind]
  rcases (produce h target settings).run.run s with ⟨_ | _, t⟩ <;> rfl

/-- A run with the given settings ends in a failure. -/
def Fails (h : Host (StateM σ)) (arguments : List String) (settings : Settings) (failure : Failure)
    (s t : σ) : Prop :=
  ∃ verbosity target, parse arguments = .ok (.compile verbosity target settings) ∧
    settings.noOp = false ∧ (produce h target settings).run.run s = (.error failure, t)

/-- Settings under which everything is asked for: a class, the request for phrases, and the merging
of a recorded answer to it. -/
def everything : Settings where
  filter := none
  inputs := ["thing.jsonld"]
  className := none
  manual := false
  policy := none
  datasets := some "index.tsv"
  maxSamples := 10
  refinements := some "answer.json"
  annotate := false
  requestOut := some "request.json"
  out := some "class.json"
  noOp := false

/-- A command line for these settings. -/
def everythingAsked : List String :=
  ["json", "-i", "thing.jsonld", "--datasets", "index.tsv", "--refinements", "answer.json",
    "--request-out", "request.json", "-o", "class.json"]

/-- A directory with a vocabulary of one class and the given other files. -/
def thingAnd (files : List (String × String)) : Machine :=
  ⟨.ofFiles (("thing.jsonld",
    "\x7b\"@graph\": [\x7b\"@id\": \"schema:Thing\", \"@type\": \"rdfs:Class\"\x7d]\x7d") ::
      files), ""⟩

/-- What the stages fail with, if they fail. -/
def failure? : Except Failure α → Option Failure
  | .ok _ => none
  | .error failure => some failure

/-- The settings are read off the command line. -/
theorem parse_everythingAsked : parse everythingAsked = .ok (.compile 0 .json everything) := rfl

end CommandLine

end VocabularyCompiler

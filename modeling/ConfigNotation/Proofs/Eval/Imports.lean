import Mathlib.Logic.Function.Basic
import Mathlib.Logic.Relation
import ConfigNotation.Proofs.Eval.Calls

/-!
What the values of imported files are, stated without a session. The cache of a
session is keyed by path alone, so the reference under which a path is imported
first decides how its file is decoded for the rest of the session. Relative to these
references every value that a session gives is that of the file by itself.
-/

namespace ConfigNotation

open Session

namespace Workspace

/-- The module that a file consists of, if its text can be read and forms one. -/
def moduleOf? (workspace : Workspace) (file : FileRef) : Option Module :=
  match workspace.readText file with
  | .ok text => (workspace.parse text).toOption.map (·.2)
  | .error _ => none

end Workspace

namespace Module

def bindAll (values : List Step → Value) (bindings : Record Value) : List Import → Record Value
  | [] => bindings
  | first :: rest =>
      bindAll values (first.binding.bind bindings (values first.source.path.steps)) rest

/-- What a module comes to if the files that it imports have the given values. -/
def HasValue (files : FileSystem) (module : Module) (values : List Step → Value)
    (value : Value) : Prop :=
  ∃ depth classes, ClassTable.registerAll .empty module.classes = .ok classes ∧
    (module.finish depth files classes (bindAll values .empty module.imports)).run =
      some (.ok value)

theorem bindAll_congr {values others : List Step → Value} (bindings : Record Value)
    {imports : List Import}
    (h : ∀ first ∈ imports,
      values first.source.path.steps = others first.source.path.steps) :
    bindAll values bindings imports = bindAll others bindings imports := by
  induction imports generalizing bindings with
  | nil => rfl
  | cons first rest ih =>
      rw [bindAll, bindAll, h first List.mem_cons_self]
      exact ih _ fun other hother => h other (List.mem_cons_of_mem first hother)

theorem HasValue.unique {files : FileSystem} {module : Module} {values others : List Step → Value}
    {value other : Value} (hvalue : module.HasValue files values value)
    (hother : module.HasValue files others other)
    (h : ∀ first ∈ module.imports,
      values first.source.path.steps = others first.source.path.steps) :
    value = other := by
  obtain ⟨depth, classes, hclasses, hrun⟩ := hvalue
  obtain ⟨otherDepth, otherClasses, hotherClasses, hotherRun⟩ := hother
  rw [hclasses, Except.ok.injEq] at hotherClasses
  subst hotherClasses
  rw [← bindAll_congr .empty h] at hotherRun
  have hfirst := finish_extends (Nat.le_max_left depth otherDepth) _ _ _ _ _ hrun
  have hsecond := finish_extends (Nat.le_max_right depth otherDepth) _ _ _ _ _ hotherRun
  rw [hfirst] at hsecond
  simpa using hsecond

end Module

/-- The reference under which the file of each path is read. -/
abbrev Origin := List Step → FileRef

section

variable (workspace : Workspace) (origin : Origin)

def ImportsFile (steps : List Step) (source : FileRef) : Prop :=
  ∃ module, workspace.moduleOf? (origin steps) = some module ∧
    ∃ first ∈ module.imports, first.source = source

/-- A path that the file of another path imports. -/
def ImportsPath (steps imported : List Step) : Prop :=
  ∃ source, ImportsFile workspace origin steps source ∧ source.path.steps = imported

/-- The value of the file of a path: all files that it depends on are read
afresh, each under its own reference. -/
inductive FileValue : List Step → Value → Prop where
  | intro {steps : List Step} {module : Module} {values : List Step → Value} {value : Value}
      (hmodule : workspace.moduleOf? (origin steps) = some module)
      (himports : ∀ first ∈ module.imports,
        FileValue first.source.path.steps (values first.source.path.steps))
      (hvalue : module.HasValue workspace.files values value) :
      FileValue steps value

end

variable {workspace : Workspace} {origin : Origin}

theorem FileValue.unique {steps : List Step} {value other : Value}
    (hvalue : FileValue workspace origin steps value)
    (hother : FileValue workspace origin steps other) :
    value = other := by
  induction hvalue generalizing other with
  | intro hmodule _ hvalue ih =>
      cases hother with
      | intro hsame himports hother =>
          rw [hmodule, Option.some.injEq] at hsame
          subst hsame
          exact hvalue.unique hother fun first hfirst => ih first hfirst (himports first hfirst)

/-- Only the references of the files that a file depends on matter. -/
theorem FileValue.congr {other : Origin} (known : List Step → Prop)
    (hclosed : ∀ steps, known steps → ∀ source, ImportsFile workspace origin steps source →
      known source.path.steps)
    (hsame : ∀ steps, known steps → other steps = origin steps) {steps : List Step} {value : Value}
    (hvalue : FileValue workspace origin steps value) (hknown : known steps) :
    FileValue workspace other steps value := by
  induction hvalue with
  | intro hmodule _ hvalue ih =>
      refine .intro (by rw [hsame _ hknown]; exact hmodule) (fun first hfirst => ?_) hvalue
      exact ih first hfirst (hclosed _ hknown _ ⟨_, hmodule, first, hfirst, rfl⟩)

/-- A file with a value does not depend on itself, not even through other
files. -/
theorem FileValue.acc {steps : List Step} {value : Value}
    (hvalue : FileValue workspace origin steps value) :
    Acc (fun imported importer => ImportsPath workspace origin importer imported) steps := by
  induction hvalue with
  | intro hmodule _ _ ih =>
      constructor
      rintro imported ⟨source, ⟨module, hsame, first, hfirst, rfl⟩, rfl⟩
      rw [hmodule, Option.some.injEq] at hsame
      subst hsame
      exact ih first hfirst

/-- A cache holds the values of files, and with a file those that it imports. -/
structure Settled (workspace : Workspace) (origin : Origin) (cache : ImportCache) : Prop where
  value : ∀ steps value, cache.lookup steps = some value → FileValue workspace origin steps value
  closed : ∀ steps, (cache.lookup steps).isSome → ∀ source,
    ImportsFile workspace origin steps source → (cache.lookup source.path.steps).isSome

/-- What a step in a session preserves, and what the calls of `load` that it
makes leave behind: the references of cached files stay the same, a file that is
loaded is cached with its value, under the reference of the call if nothing was
cached for its path, and there is no other way into the cache. -/
structure Progress (workspace : Workspace) (made : CallsMade) (session finish : Session)
    (origin after : Origin) : Prop extends Effect session finish where
  settled : Settled workspace after finish.cache
  origin : ∀ steps, (session.cache.lookup steps).isSome → after steps = origin steps
  loads : ∀ depth file inner value last, made depth file inner →
    (workspace.load depth file).run inner = some (.ok value, last) →
      finish.cache.lookup file.path.steps = some value ∧
        (inner.cache.lookup file.path.steps = none → after file.path.steps = file)
  gained : ∀ steps, (finish.cache.lookup steps).isSome → session.cache.lookup steps = none →
    ∃ file, LoadsFirst workspace made file ∧ file.path.steps = steps

theorem Settled.empty (workspace : Workspace) (origin : Origin) :
    Settled workspace origin .empty where
  value steps value h := nomatch (ImportCache.lookup_empty steps).symm.trans h
  closed steps h := by simp [ImportCache.lookup_empty] at h

/-- Another path can get any reference, as long as it is not cached. -/
theorem Settled.congr {cache : ImportCache} {other : Origin}
    (hsettled : Settled workspace origin cache)
    (hsame : ∀ steps, (cache.lookup steps).isSome → other steps = origin steps) :
    Settled workspace other cache where
  value steps value h :=
    (hsettled.value steps value h).congr (fun steps => (cache.lookup steps).isSome)
      hsettled.closed hsame (by rw [h]; rfl)
  closed steps h source himports := by
    unfold ImportsFile at himports
    rw [hsame steps h] at himports
    exact hsettled.closed steps h source himports

/-- A file is added to the cache with its value after the files that it
imports. -/
theorem Settled.insert {cache : ImportCache} {path : Path} {module : Module} {value : Value}
    (hsettled : Settled workspace origin cache)
    (hmodule : workspace.moduleOf? (origin path.steps) = some module)
    (himports : ∀ first ∈ module.imports, (cache.lookup first.source.path.steps).isSome)
    (hvalue : module.HasValue workspace.files
      (fun steps => (cache.lookup steps).getD .undefined) value) :
    Settled workspace origin (cache.insert path value) where
  value steps known h := by
    rw [ImportCache.lookup_insert] at h
    split at h
    · next hsteps =>
      cases h
      subst hsteps
      refine .intro hmodule (fun first hfirst => ?_) hvalue
      obtain ⟨found, hfound⟩ := Option.isSome_iff_exists.1 (himports first hfirst)
      rw [hfound]
      exact hsettled.value _ _ hfound
    · exact hsettled.value steps known h
  closed steps h source hsource := by
    have hgrown {other : List Step} (hother : (cache.lookup other).isSome) :
        ((cache.insert path value).lookup other).isSome := by
      rw [ImportCache.lookup_insert]
      split
      · rfl
      · exact hother
    rw [ImportCache.lookup_insert] at h
    split at h
    · next hsteps =>
      subst hsteps
      obtain ⟨_, hsame, first, hfirst, rfl⟩ := hsource
      rw [hmodule, Option.some.injEq] at hsame
      subst hsame
      exact hgrown (himports first hfirst)
    · exact hgrown (hsettled.closed steps h source hsource)

namespace Progress

variable {made other : CallsMade} {session middle finish : Session} {next last : Origin}

theorem refl (hsettled : Settled workspace origin session.cache) :
    Progress workspace (fun _ _ _ => False) session session origin origin where
  toEffect := .refl session
  settled := hsettled
  origin _ _ := rfl
  loads _ _ _ _ _ hnone := hnone.elim
  gained steps hsome hnone := by
    rw [hnone] at hsome
    cases hsome

/-- Only the calls that succeed count. -/
theorem congr (h : Progress workspace made session finish origin next)
    (hmade : ∀ depth file inner, made depth file inner → other depth file inner)
    (hother : ∀ depth file inner value last, other depth file inner →
      (workspace.load depth file).run inner = some (.ok value, last) →
      made depth file inner ∨ finish.cache.lookup file.path.steps = some value ∧
        (inner.cache.lookup file.path.steps = none → next file.path.steps = file)) :
    Progress workspace other session finish origin next where
  toEffect := h.toEffect
  settled := h.settled
  origin := h.origin
  loads depth file inner value last hcall hrun := by
    rcases hother depth file inner value last hcall hrun with hcall | hfound
    · exact h.loads depth file inner value last hcall hrun
    · exact hfound
  gained steps hsome hnone := by
    obtain ⟨file, hfile, hsteps⟩ := h.gained steps hsome hnone
    exact ⟨file, hfile.mono hmade, hsteps⟩

theorem trans (hfirst : Progress workspace made session middle origin next)
    (hsecond : Progress workspace other middle finish next last) :
    Progress workspace (fun depth file inner => made depth file inner ∨ other depth file inner)
      session finish origin last where
  toEffect := hfirst.toEffect.trans hsecond.toEffect
  settled := hsecond.settled
  origin steps h := by
    obtain ⟨value, hvalue⟩ := Option.isSome_iff_exists.1 h
    have hmiddle : (middle.cache.lookup steps).isSome := by
      rw [hfirst.kept steps value hvalue]
      rfl
    exact (hsecond.origin steps hmiddle).trans (hfirst.origin steps h)
  loads depth file inner value final hcall hrun := by
    rcases hcall with hcall | hcall
    · obtain ⟨hcached, horigin⟩ := hfirst.loads depth file inner value final hcall hrun
      refine ⟨hsecond.kept _ _ hcached, fun hnew => ?_⟩
      rw [hsecond.origin _ (by rw [hcached]; rfl), horigin hnew]
    · exact hsecond.loads depth file inner value final hcall hrun
  gained steps hsome hnone := by
    cases hmiddle : middle.cache.lookup steps with
    | none =>
        obtain ⟨file, hfile, hsteps⟩ := hsecond.gained steps hsome hmiddle
        exact ⟨file, hfile.mono fun _ _ _ => .inr, hsteps⟩
    | some value =>
        obtain ⟨file, hfile, hsteps⟩ := hfirst.gained steps (by rw [hmiddle]; rfl) hnone
        exact ⟨file, hfile.mono fun _ _ _ => .inl, hsteps⟩

section

variable {depth : Nat} {file : FileRef} {text : String} {value : Value}

/-- A call behind which no text is evaluated adds nothing to the cache. -/
theorem unread (heffect : Effect session finish) (hcache : finish.cache = session.cache)
    (hsettled : Settled workspace origin session.cache)
    (hself : ∀ value last, (workspace.load depth file).run session = some (.ok value, last) →
      session.cache.lookup file.path.steps = some value)
    (hnone : session.Lacks file.path → ∀ text, workspace.readText file ≠ .ok text) :
    Progress workspace (CallsBehind workspace depth file session) session finish origin origin where
  toEffect := heffect
  settled := hcache ▸ hsettled
  origin _ _ := rfl
  loads below other inner value last hcall hrun := by
    cases hcall with
    | call =>
        rw [hcache, hself value last hrun]
        exact ⟨rfl, nofun⟩
    | text hlacks htext _ => exact absurd htext (hnone hlacks _)
  gained steps hsome hnone := by
    rw [hcache, hnone] at hsome
    cases hsome

/-- A file is closed again behind its text, and nothing else changes. -/
theorem leave {path : Path} (hlacks : session.Lacks path)
    (h : Progress workspace made (session.entered path) finish origin next) :
    Progress workspace made session finish.leave origin next :=
  ⟨h.toEffect.leave hlacks, h.settled, h.origin, h.loads, h.gained⟩

/-- A file that failed has made the calls of its text. -/
theorem failed {error : EvalError} (hlacks : session.Lacks file.path)
    (htext : workspace.readText file = .ok text)
    (h : Progress workspace (Calls workspace depth text (session.entered file.path))
      (session.entered file.path) finish origin next)
    (hrun : (workspace.load depth file).run session = some (.error error, finish.leave)) :
    Progress workspace (CallsBehind workspace depth file session) session finish.leave origin
      next := by
  refine (h.leave hlacks).congr (fun _ _ _ => .text hlacks htext) ?_
  intro below other inner value last hcall hother
  rcases (callsBehind_iff hlacks htext).1 hcall with ⟨rfl, rfl, rfl⟩ | hcall
  · rw [hrun] at hother
    cases hother
  · exact .inl hcall

/-- The value of a file that was not cached is remembered under its reference.
The path of the file gets this reference, which no cached value depends on. -/
theorem remember {module : Module} (hlacks : session.Lacks file.path)
    (h : Progress workspace made session finish origin next)
    (hnew : finish.cache.lookup file.path.steps = none)
    (hmodule : workspace.moduleOf? file = some module)
    (himports : ∀ first ∈ module.imports, (finish.cache.lookup first.source.path.steps).isSome)
    (hvalue : module.HasValue workspace.files
      (fun steps => (finish.cache.lookup steps).getD .undefined) value)
    (hrun : (workspace.load depth file).run session =
      some (.ok value, finish.remember file.path value)) :
    Progress workspace
      (fun below other inner =>
        (below = depth ∧ other = file ∧ inner = session) ∨ made below other inner)
      session (finish.remember file.path value) origin
      (Function.update next file.path.steps file) := by
  have hother {steps : List Step} (hsome : (finish.cache.lookup steps).isSome) :
      file.path.steps ≠ steps := by
    rintro rfl
    rw [hnew] at hsome
    cases hsome
  have hupdated {steps : List Step} (hsome : (finish.cache.lookup steps).isSome) :
      Function.update next file.path.steps file steps = next steps :=
    Function.update_of_ne (Ne.symm (hother hsome)) _ _
  have hlookup (steps : List Step) :
      (finish.remember file.path value).cache.lookup steps =
        if file.path.steps = steps then some value else finish.cache.lookup steps :=
    ImportCache.lookup_insert ..
  have hsettled := h.settled.congr fun steps => hupdated
  constructor
  · exact h.toEffect.remember hlacks value
  · refine hsettled.insert ?_ himports hvalue
    rw [Function.update_self]
    exact hmodule
  · intro steps hsome
    obtain ⟨known, hknown⟩ := Option.isSome_iff_exists.1 hsome
    rw [hupdated (by rw [h.kept steps known hknown]; rfl)]
    exact h.origin steps hsome
  · rintro below other inner found last (⟨rfl, rfl, rfl⟩ | hcall) hload
    · rw [hrun] at hload
      cases hload
      rw [hlookup, if_pos rfl]
      exact ⟨rfl, fun _ => Function.update_self ..⟩
    · obtain ⟨hcached, horigin⟩ := h.loads below other inner found last hcall hload
      have hsome : (finish.cache.lookup other.path.steps).isSome := by
        rw [hcached]
        rfl
      rw [hlookup, if_neg (hother hsome), hupdated hsome]
      exact ⟨hcached, horigin⟩
  · intro steps hsome hnone
    rw [hlookup] at hsome
    split at hsome
    · next hsteps =>
      exact ⟨file, ⟨depth, session, value, _, .inl ⟨rfl, rfl, rfl⟩, hlacks.new, hrun⟩, hsteps⟩
    · obtain ⟨first, hfirst, hsteps⟩ := h.gained steps hsome hnone
      exact ⟨first, hfirst.mono fun _ _ _ => .inr, hsteps⟩

/-- A file that succeeded has made the calls of its text, and is cached. -/
theorem loaded {module : Module} (hlacks : session.Lacks file.path)
    (htext : workspace.readText file = .ok text)
    (h : Progress workspace (Calls workspace depth text (session.entered file.path))
      (session.entered file.path) finish origin next)
    (hmodule : workspace.moduleOf? file = some module)
    (himports : ∀ first ∈ module.imports, (finish.cache.lookup first.source.path.steps).isSome)
    (hvalue : module.HasValue workspace.files
      (fun steps => (finish.cache.lookup steps).getD .undefined) value)
    (hrun : (workspace.load depth file).run session =
      some (.ok value, finish.leave.remember file.path value)) :
    Progress workspace (CallsBehind workspace depth file session) session
      (finish.leave.remember file.path value) origin
      (Function.update next file.path.steps file) := by
  have hnew : finish.cache.lookup file.path.steps = none :=
    (h.guarded file.path (List.mem_append_right _ List.mem_cons_self)).trans hlacks.new
  have hremembered := (h.leave hlacks).remember hlacks hnew hmodule himports hvalue hrun
  refine hremembered.congr ?_ ?_
  · exact fun _ _ _ => (callsBehind_iff hlacks htext).2
  · exact fun _ _ _ _ _ hcall _ => .inl ((callsBehind_iff hlacks htext).1 hcall)

end

end Progress

/-- Loading a file keeps the cache settled. -/
def LoadsFiles (workspace : Workspace) (depth : Nat) : Prop :=
  ∀ file session outcome finish, (workspace.load depth file).run session = some (outcome, finish) →
    ∀ origin, Settled workspace origin session.cache →
      ∃ after, Progress workspace (CallsBehind workspace depth file session) session finish
        origin after

/-- Evaluating a text keeps the cache settled. The files that it imports are
cached with the values that it sees. -/
def EvaluatesTexts (workspace : Workspace) (depth : Nat) : Prop :=
  ∀ source session outcome finish,
    (workspace.evaluateText depth source).run session = some (outcome, finish) →
    ∀ origin, Settled workspace origin session.cache →
      ∃ after, Progress workspace (Calls workspace depth source session) session finish
          origin after ∧
        ∀ value, outcome = .ok value →
          ∃ module, (workspace.parse source).toOption.map (·.2) = some module ∧
            (∀ first ∈ module.imports, (finish.cache.lookup first.source.path.steps).isSome) ∧
            module.HasValue workspace.files
              (fun steps => (finish.cache.lookup steps).getD .undefined) value

theorem bindImports_progress {depth : Nat} (hload : LoadsFiles workspace depth)
    {bindings : Record Value} {imports : List Import} {session finish : Session}
    {outcome : Except EvalError (Record Value)}
    (hrun : (Module.bindImports (workspace.load depth) bindings imports).run session =
      some (outcome, finish))
    (hsettled : Settled workspace origin session.cache) :
    ∃ after, Progress workspace (ImportCalls workspace depth imports session) session finish
        origin after ∧
      ∀ bound, outcome = .ok bound →
        (∀ first ∈ imports, (finish.cache.lookup first.source.path.steps).isSome) ∧
          bound = Module.bindAll (fun steps => (finish.cache.lookup steps).getD .undefined)
            bindings imports := by
  induction imports generalizing bindings session origin with
  | nil =>
      cases hrun
      refine ⟨origin, (Progress.refl hsettled).congr (fun _ _ _ => False.elim) nofun, ?_⟩
      rintro _ ⟨⟩
      exact ⟨nofun, rfl⟩
  | cons first rest ih =>
      rcases bindImports_cons_run hrun with
        ⟨error, other, hfirst, rfl⟩ | ⟨value, middle, hfirst, hrest⟩
      · obtain ⟨next, hprogress⟩ := hload _ _ _ _ hfirst origin hsettled
        refine ⟨next, hprogress.congr (fun _ _ _ => .first) ?_, nofun⟩
        intro below file inner value last hcall _
        cases hcall with
        | first hcall => exact .inl hcall
        | rest hvalue _ =>
            rw [hfirst] at hvalue
            cases hvalue
      · obtain ⟨next, hprogress⟩ := hload _ _ _ _ hfirst origin hsettled
        obtain ⟨last, hbehind, hbound⟩ := ih hrest hprogress.settled
        have hloaded := (hprogress.loads depth first.source session value middle .call hfirst).1
        have hcached := hbehind.kept _ _ hloaded
        refine ⟨last, (hprogress.trans hbehind).congr ?_ ?_, ?_⟩
        · rintro below file inner (hcall | hcall)
          · exact .first hcall
          · exact .rest hfirst hcall
        · intro below file inner found final hcall _
          cases hcall with
          | first hcall => exact .inl (.inl hcall)
          | rest hsame hcall =>
              rw [hfirst] at hsame
              cases hsame
              exact .inl (.inr hcall)
        · intro bound h
          obtain ⟨himports, rfl⟩ := hbound bound h
          rw [List.forall_mem_cons, Module.bindAll, hcached]
          exact ⟨⟨rfl, himports⟩, rfl⟩

theorem evaluateText_progress {depth : Nat} (hload : LoadsFiles workspace depth) :
    EvaluatesTexts workspace (depth + 1) := by
  intro source session outcome finish hrun origin hsettled
  -- the calls of a module are those of its import statements
  have hcalls {lexed : Lexed} {module : Module} {classes : ClassTable}
      (hparse : workspace.parse source = .ok (lexed, module))
      (hclasses : ClassTable.registerAll .empty module.classes = .ok classes) :
      Calls workspace (depth + 1) source session =
        ImportCalls workspace depth module.imports session := by
    funext below file inner
    rw [calls_succ_iff, eq_iff_iff]
    constructor
    · rintro ⟨_, _, _, hother, _, hcall⟩
      rw [hparse] at hother
      cases hother
      exact hcall
    · exact fun hcall => ⟨lexed, module, classes, hparse, hclasses, hcall⟩
  have hnone (hfails : ∀ lexed module classes, workspace.parse source = .ok (lexed, module) →
      ClassTable.registerAll .empty module.classes ≠ .ok classes) :
      Progress workspace (Calls workspace (depth + 1) source session) session session origin
        origin := by
    refine (Progress.refl hsettled).congr (fun _ _ _ => False.elim) ?_
    intro below file inner value last hcall _
    obtain ⟨lexed, module, classes, hparse, hclasses, _⟩ := calls_succ_iff.1 hcall
    exact absurd hclasses (hfails lexed module classes hparse)
  cases evaluates_iff_run.1 hrun with
  | unparsed hparse =>
      refine ⟨origin, hnone fun _ _ _ hother => ?_, nofun⟩
      rw [hparse] at hother
      cases hother
  | unregistered hparse hclasses =>
      refine ⟨origin, hnone fun _ _ _ hother => ?_, nofun⟩
      rw [hparse] at hother
      cases hother
      rw [hclasses]
      exact nofun
  | unbound hparse hclasses himports =>
      obtain ⟨after, hprogress, _⟩ := bindImports_progress hload himports hsettled
      exact ⟨after, hcalls hparse hclasses ▸ hprogress, nofun⟩
  | @finished lexed module classes bound result _ hparse hclasses himports hfinish =>
      obtain ⟨after, hprogress, hbound⟩ := bindImports_progress hload himports hsettled
      obtain ⟨hcached, rfl⟩ := hbound bound rfl
      refine ⟨after, hcalls hparse hclasses ▸ hprogress, ?_⟩
      intro value hvalue
      refine ⟨module, by rw [hparse]; rfl, hcached, depth, classes, hclasses, ?_⟩
      rw [hfinish]
      cases result with
      | error error => cases hvalue
      | ok found =>
          cases hvalue
          rfl

/-- A file is entered, its text evaluated, and its value remembered. -/
theorem load_progress_of_texts {depth : Nat} (hevaluate : EvaluatesTexts workspace depth) :
    LoadsFiles workspace depth := by
  intro file session outcome finish hrun origin hsettled
  cases loads_of_run hrun with
  | @cached value hcached =>
      refine ⟨origin, .unread (.refl session) rfl hsettled (fun found last hfound => ?_) ?_⟩
      · rw [load_cached hcached] at hfound
        cases hfound
        exact hcached
      · intro hlacks
        rw [hlacks.new] at hcached
        cases hcached
  | cycle _ hopened hsame =>
      refine ⟨origin, .unread (.refl session) rfl hsettled (fun found last hfound => ?_) ?_⟩
      · rw [hrun] at hfound
        cases hfound
      · exact fun hlacks => absurd hsame (hlacks.closed _ hopened)
  | unread hlacks htext =>
      refine ⟨origin, .unread (.noteRead hlacks) rfl hsettled (fun found last hfound => ?_) ?_⟩
      · rw [hrun] at hfound
        cases hfound
      · intro _ text hread
        rw [htext] at hread
        cases hread
  | failed hlacks htext hinner =>
      obtain ⟨after, hprogress, _⟩ := hevaluate _ _ _ _ hinner origin hsettled
      exact ⟨after, hprogress.failed hlacks htext hrun⟩
  | loaded hlacks htext hinner =>
      obtain ⟨after, hprogress, hvalue⟩ := hevaluate _ _ _ _ hinner origin hsettled
      obtain ⟨module, hparse, himports, hmodule⟩ := hvalue _ rfl
      have hfile : workspace.moduleOf? file = some module := by
        rw [Workspace.moduleOf?, htext]
        exact hparse
      exact ⟨_, hprogress.loaded hlacks htext hfile himports hmodule hrun⟩

/-- Whatever depth is allowed, evaluating a text keeps the cache settled. -/
theorem texts_progress (workspace : Workspace) (depth : Nat) : EvaluatesTexts workspace depth := by
  induction depth with
  | zero => exact fun _ _ _ _ hrun => nomatch hrun
  | succ depth ih => exact evaluateText_progress (load_progress_of_texts ih)

theorem load_progress (workspace : Workspace) (depth : Nat) : LoadsFiles workspace depth :=
  load_progress_of_texts (texts_progress workspace depth)

end ConfigNotation

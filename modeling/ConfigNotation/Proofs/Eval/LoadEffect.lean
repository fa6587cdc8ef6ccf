import ConfigNotation.Proofs.Eval.Loading

/-!
What a call of `load` leaves of a session. The files that are being evaluated are the
same behind it, the cache only grows, and a file is read only if its path is neither
cached nor being evaluated; so between two steps that succeed, every path that was read
is cached or still open.
-/

namespace ConfigNotation

def Distinct (paths : List Path) : Prop :=
  paths.Pairwise fun first second => first.steps ≠ second.steps

/-- A new path behind distinct ones leaves them distinct. Paths are told apart
by their steps, however they are spelled. -/
theorem Distinct.concat {paths : List Path} (h : Distinct paths) {path : Path}
    (hnew : ∀ other ∈ paths, other.steps ≠ path.steps) :
    Distinct (paths ++ [path]) := by
  refine List.pairwise_append.2 ⟨h, List.pairwise_singleton _ path, ?_⟩
  intro other hother last hlast
  rw [List.mem_singleton.1 hlast]
  exact hnew other hother

namespace Session

def entered (session : Session) (path : Path) : Session := (session.noteRead path).enter path

/-- A path that is neither cached nor being evaluated, so that its file is
read. -/
structure Lacks (session : Session) (path : Path) : Prop where
  new : session.cache.lookup path.steps = none
  closed : ∀ other ∈ session.opened, other.steps ≠ path.steps

/-- What a step leaves of a session, whatever comes out of it. -/
structure Effect (session finish : Session) : Prop where
  opened : finish.opened = session.opened
  kept : ∀ steps value, session.cache.lookup steps = some value →
    finish.cache.lookup steps = some value
  guarded : ∀ path ∈ session.opened,
    finish.cache.lookup path.steps = session.cache.lookup path.steps
  reads : ∃ more, finish.reads = session.reads ++ more ∧
    ∀ path ∈ more, session.cache.lookup path.steps = none

/-- Each path was read once, and none that a session started with. -/
structure ReadsOnce (base : ImportCache) (session : Session) : Prop where
  distinct : Distinct session.reads
  fresh : ∀ path ∈ session.reads, base.lookup path.steps = none

/-- What holds of a session between steps that succeed. -/
structure Tidy (base : ImportCache) (session : Session) : Prop extends ReadsOnce base session where
  opened : Distinct session.opened
  known : ∀ path ∈ session.reads, session.cache.lookup path.steps = none →
    ∃ other ∈ session.opened, other.steps = path.steps
  based : ∀ steps, session.cache.lookup steps = none → base.lookup steps = none

theorem Tidy.start (cache : ImportCache) : Tidy cache (.start cache) where
  distinct := .nil
  fresh := nofun
  opened := .nil
  known := nofun
  based _ h := h

variable {base : ImportCache} {session middle finish : Session} {path : Path}

/-- A path that is read was not read before. -/
theorem Tidy.readsOnce_noteRead (h : session.Tidy base) (hlacks : session.Lacks path) :
    (session.noteRead path).ReadsOnce base where
  distinct := by
    apply h.distinct.concat
    intro other hother heq
    have hnew : session.cache.lookup other.steps = none := heq ▸ hlacks.new
    obtain ⟨last, hlast, hsame⟩ := h.known other hother hnew
    exact hlacks.closed last hlast (hsame.trans heq)
  fresh other hother := by
    rcases List.mem_append.1 hother with hbefore | hlast
    · exact h.fresh other hbefore
    · rw [List.mem_singleton.1 hlast]
      exact h.based path.steps hlacks.new

/-- A session stays tidy when a file is entered that it neither knows nor
has open. -/
theorem Tidy.entered (h : session.Tidy base) (hlacks : session.Lacks path) :
    (session.entered path).Tidy base where
  distinct := (h.readsOnce_noteRead hlacks).distinct
  fresh := (h.readsOnce_noteRead hlacks).fresh
  opened := h.opened.concat hlacks.closed
  known other hother hnew := by
    rcases List.mem_append.1 hother with hbefore | hlast
    · obtain ⟨last, hlast, hsame⟩ := h.known other hbefore hnew
      exact ⟨last, List.mem_append_left _ hlast, hsame⟩
    · exact ⟨other, List.mem_append_right _ hlast, rfl⟩
  based := h.based

namespace Effect

theorem refl (session : Session) : Effect session session :=
  ⟨rfl, fun _ _ h => h, fun _ _ => rfl, [], (List.append_nil _).symm, nofun⟩

theorem trans (hfirst : Effect session middle) (hsecond : Effect middle finish) :
    Effect session finish where
  opened := hsecond.opened.trans hfirst.opened
  kept steps value h := hsecond.kept steps value (hfirst.kept steps value h)
  guarded path hpath :=
    (hsecond.guarded path (hfirst.opened ▸ hpath)).trans (hfirst.guarded path hpath)
  reads := by
    obtain ⟨first, hreads, hfresh⟩ := hfirst.reads
    obtain ⟨second, hmore, hothers⟩ := hsecond.reads
    refine ⟨first ++ second, by rw [hmore, hreads, List.append_assoc], ?_⟩
    intro path hpath
    rcases List.mem_append.1 hpath with hpath | hpath
    · exact hfresh path hpath
    · cases hvalue : session.cache.lookup path.steps with
      | none => rfl
      | some value =>
          have hkept := hfirst.kept _ _ hvalue
          rw [hothers path hpath] at hkept
          cases hkept

theorem noteRead (hlacks : session.Lacks path) : Effect session (session.noteRead path) := by
  refine ⟨rfl, fun _ _ h => h, fun _ _ => rfl, [path], rfl, ?_⟩
  intro other hother
  rw [List.mem_singleton.1 hother]
  exact hlacks.new

/-- When the text of a file is evaluated, the file is closed again. -/
theorem leave (hlacks : session.Lacks path) (h : Effect (session.entered path) finish) :
    Effect session finish.leave where
  opened := by
    rw [Session.leave, h.opened]
    exact List.dropLast_concat
  kept := h.kept
  guarded other hother := h.guarded other (List.mem_append_left _ hother)
  reads := by
    obtain ⟨more, hreads, hfresh⟩ := h.reads
    refine ⟨path :: more, ?_, List.forall_mem_cons.2 ⟨hlacks.new, hfresh⟩⟩
    exact hreads.trans (List.append_assoc session.reads [path] more)

/-- Putting the value of a file that was neither cached nor open into the cache
keeps the effect, as no cached value is replaced. -/
theorem remember (hlacks : session.Lacks path) (h : Effect session finish) (value : Value) :
    Effect session (finish.remember path value) where
  opened := h.opened
  kept steps known hknown := by
    have hother : path.steps ≠ steps := by
      rintro rfl
      rw [hlacks.new] at hknown
      cases hknown
    rw [Session.remember, ImportCache.lookup_insert, if_neg hother]
    exact h.kept steps known hknown
  guarded other hother := by
    rw [Session.remember, ImportCache.lookup_insert, if_neg (Ne.symm (hlacks.closed other hother))]
    exact h.guarded other hother
  reads := h.reads

end Effect

/-- What a step with some outcome leaves of a session. It is tidy again after a
success. -/
structure Keeps {ε α : Type} (session : Session) (outcome : Except ε α) (finish : Session) : Prop
    extends Effect session finish where
  once : ∀ base, session.Tidy base → finish.ReadsOnce base
  tidy : ∀ base value, session.Tidy base → outcome = .ok value → finish.Tidy base

namespace Keeps

variable {ε δ α β : Type} {outcome : Except ε α}

theorem refl (session : Session) (outcome : Except ε α) : Keeps session outcome session where
  toEffect := .refl session
  once _ h := h.toReadsOnce
  tidy _ _ h _ := h

theorem trans {value : β} (hfirst : Keeps session (.ok value : Except δ β) middle)
    (hsecond : Keeps middle outcome finish) :
    Keeps session outcome finish where
  toEffect := hfirst.toEffect.trans hsecond.toEffect
  once base h := hsecond.once base (hfirst.tidy base value h rfl)
  tidy base other h := hsecond.tidy base other (hfirst.tidy base value h rfl)

/-- The outcome can be told in another way, as long as no failure becomes a
success. -/
theorem congr {other : Except δ β} (h : Keeps session outcome finish)
    (hother : ∀ value, other = .ok value → ∃ value, outcome = .ok value) :
    Keeps session other finish where
  toEffect := h.toEffect
  once := h.once
  tidy base value htidy hvalue := by
    obtain ⟨found, hfound⟩ := hother value hvalue
    exact h.tidy base found htidy hfound

theorem unread {error : ε} (hlacks : session.Lacks path) :
    Keeps session (.error error : Except ε α) (session.noteRead path) where
  toEffect := .noteRead hlacks
  once _ h := h.readsOnce_noteRead hlacks
  tidy _ _ _ := nofun

/-- A file that failed leaves the session with the files that were open before,
and with nothing in the cache for its path. -/
theorem failed {cause : ε} {error : δ} (hlacks : session.Lacks path)
    (h : Keeps (session.entered path) (.error cause : Except ε α) finish) :
    Keeps session (.error error : Except δ β) finish.leave where
  toEffect := h.toEffect.leave hlacks
  once base htidy := ⟨(h.once base (htidy.entered hlacks)).distinct,
    (h.once base (htidy.entered hlacks)).fresh⟩
  tidy _ _ _ := nofun

/-- A file that was loaded leaves its value in the cache and is not open any
more. -/
theorem loaded {value : Value} (hlacks : session.Lacks path)
    (h : Keeps (session.entered path) (.ok value : Except ε Value) finish) :
    Keeps session (.ok value : Except δ Value) (finish.leave.remember path value) where
  toEffect := (h.toEffect.leave hlacks).remember hlacks value
  once base htidy := ⟨(h.once base (htidy.entered hlacks)).distinct,
    (h.once base (htidy.entered hlacks)).fresh⟩
  tidy base _ htidy _ := by
    have hinner : finish.Tidy base := h.tidy base value (htidy.entered hlacks) rfl
    have hopened := ((h.toEffect.leave hlacks).remember hlacks value).opened
    -- what was read is cached now, or it was open before the file was entered
    have hlookup {steps : List Step}
        (hnone : (finish.leave.remember path value).cache.lookup steps = none) :
        path.steps ≠ steps ∧ finish.cache.lookup steps = none := by
      rw [Session.remember, ImportCache.lookup_insert] at hnone
      split at hnone
      · cases hnone
      · next hother => exact ⟨hother, hnone⟩
    constructor
    · exact ⟨hinner.distinct, hinner.fresh⟩
    · rw [hopened]
      exact htidy.opened
    · intro other hother hnone
      obtain ⟨hdiffers, hinnerNone⟩ := hlookup hnone
      obtain ⟨last, hlast, hsame⟩ := hinner.known other hother hinnerNone
      rw [h.opened] at hlast
      rcases List.mem_append.1 hlast with hbefore | hpath
      · exact ⟨last, hopened ▸ hbefore, hsame⟩
      · rw [List.mem_singleton.1 hpath] at hsame
        exact absurd hsame hdiffers
    · intro steps hnone
      exact hinner.based steps (hlookup hnone).2

end Keeps

end Session

open Session

/-- What a call of `load` does, by what the session knows about the path of the
file. -/
inductive Loads (workspace : Workspace) (evaluate : String → Loading Failure Value)
    (file : FileRef) (session : Session) : Except EvalError Value → Session → Prop where
  | cached {value : Value} (hcached : session.cache.lookup file.path.steps = some value) :
      Loads workspace evaluate file session (.ok value) session
  | cycle {other : Path} (hnew : session.cache.lookup file.path.steps = none)
      (hopened : other ∈ session.opened) (hsame : other.steps = file.path.steps) :
      Loads workspace evaluate file session
        (.error (.raise (.importCycle (session.opened ++ [file.path])))) session
  | unread {error : EvalError} (hlacks : session.Lacks file.path)
      (htext : workspace.readText file = .error error) :
      Loads workspace evaluate file session (.error error) (session.noteRead file.path)
  | failed {text : String} {cause : Failure} {inner : Session} (hlacks : session.Lacks file.path)
      (htext : workspace.readText file = .ok text)
      (hrun : (evaluate text).run (session.entered file.path) = some (.error cause, inner)) :
      Loads workspace evaluate file session
        (.error (.raise (.importFailed file.path cause))) inner.leave
  | loaded {text : String} {value : Value} {inner : Session} (hlacks : session.Lacks file.path)
      (htext : workspace.readText file = .ok text)
      (hrun : (evaluate text).run (session.entered file.path) = some (.ok value, inner)) :
      Loads workspace evaluate file session (.ok value) (inner.leave.remember file.path value)

section

variable {workspace : Workspace} {session finish : Session}

/-- What a call of `load` did can be told from its result: it met a cached
value, a file that is open, one that cannot be read, or it evaluated a text. -/
theorem loads_of_run {evaluate : String → Loading Failure Value} {file : FileRef}
    {outcome : Except EvalError Value}
    (h : (workspace.loadWith evaluate file).run session = some (outcome, finish)) :
    Loads workspace evaluate file session outcome finish := by
  rw [Workspace.loadWith_run] at h
  cases hcached : session.cache.lookup file.path.steps with
  | some value =>
      rw [hcached] at h
      cases h
      exact .cached hcached
  | none =>
      rw [hcached] at h
      dsimp only at h
      split at h
      · next hopened =>
        obtain ⟨other, hother, hsame⟩ := List.any_eq_true.1 hopened
        cases h
        exact .cycle hcached hother (by simpa [Path.same] using hsame)
      · next hclosed =>
        have hlacks : session.Lacks file.path := ⟨hcached, by simpa [Path.same] using hclosed⟩
        cases htext : workspace.readText file with
        | error error =>
            rw [htext] at h
            cases h
            exact .unread hlacks htext
        | ok text =>
            rw [htext] at h
            dsimp only at h
            cases hinner : (evaluate text).run ((session.noteRead file.path).enter file.path) with
            | none =>
                rw [hinner] at h
                cases h
            | some result =>
                obtain ⟨_ | _, inner⟩ := result
                · rw [hinner] at h
                  cases h
                  exact .failed hlacks htext hinner
                · rw [hinner] at h
                  cases h
                  exact .loaded hlacks htext hinner

/-- All runs of a step leave of a session what a step leaves of it. -/
def Keeping {ε α : Type} (loading : Loading ε α) : Prop :=
  ∀ session outcome finish, loading.run session = some (outcome, finish) →
    Keeps session outcome finish

/-- A call of `load` keeps a session tidy if the evaluation of texts does. -/
theorem loadWith_keeping {evaluate : String → Loading Failure Value}
    (hevaluate : ∀ text, Keeping (evaluate text)) (file : FileRef) :
    Keeping (workspace.loadWith evaluate file) := by
  intro session outcome finish hrun
  cases loads_of_run hrun with
  | cached _ => exact .refl session _
  | cycle _ _ _ => exact .refl session _
  | unread hlacks _ => exact .unread hlacks
  | failed hlacks _ hinner => exact .failed hlacks (hevaluate _ _ _ _ hinner)
  | loaded hlacks _ hinner => exact .loaded hlacks (hevaluate _ _ _ _ hinner)

theorem bindImports_cons_run {load : FileRef → Loading EvalError Value} {bindings : Record Value}
    {first : Import} {rest : List Import} {outcome : Except EvalError (Record Value)}
    (h : (Module.bindImports load bindings (first :: rest)).run session = some (outcome, finish)) :
    (∃ error other, (load first.source).run session = some (.error error, finish) ∧
      outcome = .error other) ∨
    ∃ value middle, (load first.source).run session = some (.ok value, middle) ∧
      (Module.bindImports load (first.binding.bind bindings value) rest).run middle =
        some (outcome, finish) := by
  rw [Module.bindImports, Loading.run_bind, Loading.within, Loading.run_adapt] at h
  cases hfirst : (load first.source).run session with
  | none =>
      rw [hfirst] at h
      cases h
  | some result =>
      obtain ⟨error | value, middle⟩ := result
      · rw [hfirst] at h
        cases h
        exact .inl ⟨error, _, rfl, rfl⟩
      · rw [hfirst] at h
        exact .inr ⟨value, middle, rfl, h⟩

/-- Imports that are bound one after the other keep the session tidy if each
call of `load` does. -/
theorem bindImports_keeping {load : FileRef → Loading EvalError Value}
    (hload : ∀ file, Keeping (load file)) (bindings : Record Value) (imports : List Import) :
    Keeping (Module.bindImports load bindings imports) := by
  induction imports generalizing bindings with
  | nil =>
      intro session outcome finish hrun
      cases hrun
      exact .refl session _
  | cons first rest ih =>
      intro session outcome finish hrun
      rcases bindImports_cons_run hrun with
        ⟨error, other, hfirst, rfl⟩ | ⟨value, middle, hfirst, hrest⟩
      · exact (hload _ _ _ _ hfirst).congr nofun
      · exact (hload _ _ _ _ hfirst).trans (ih _ _ _ _ hrest)

/-- The text of a module only touches the session where it binds its imports. -/
theorem evaluateText_succ_run {depth : Nat} {source : String} {outcome : Except Failure Value}
    (h : (workspace.evaluateText (depth + 1) source).run session = some (outcome, finish)) :
    finish = session ∨ ∃ (module : Module) (bound : Except EvalError (Record Value)),
      (Module.bindImports (workspace.load depth) .empty module.imports).run session =
          some (bound, finish) ∧
        ∀ value, outcome = .ok value → ∃ imported, bound = .ok imported := by
  have hload : workspace.loadWith (workspace.evaluateText depth) = workspace.load depth := rfl
  rw [Workspace.evaluateText_run, hload] at h
  cases hparse : workspace.parse source with
  | error failure =>
      rw [hparse] at h
      cases h
      exact .inl rfl
  | ok parsed =>
      obtain ⟨lexed, module⟩ := parsed
      rw [hparse] at h
      obtain ⟨⟨result, last⟩, hmodule, heq⟩ := Option.map_eq_some_iff.1 h
      cases heq
      rw [Module.evaluate_run] at hmodule
      cases hclasses : ClassTable.registerAll .empty module.classes with
      | error error =>
          rw [hclasses] at hmodule
          cases hmodule
          exact .inl rfl
      | ok classes =>
          rw [hclasses] at hmodule
          dsimp only at hmodule
          cases himports : (Module.bindImports (workspace.load depth) .empty module.imports).run
              session with
          | none =>
              rw [himports] at hmodule
              cases hmodule
          | some imported =>
              obtain ⟨bound, middle⟩ := imported
              rw [himports] at hmodule
              cases bound with
              | error error =>
                  cases hmodule
                  exact .inr ⟨module, _, himports, nofun⟩
              | ok bound =>
                  obtain ⟨value, _, heq⟩ := Option.map_eq_some_iff.1 hmodule
                  cases heq
                  exact .inr ⟨module, _, himports, fun _ _ => ⟨bound, rfl⟩⟩

/-- Whatever depth is allowed, a text leaves of a session what a step leaves of
it. -/
theorem evaluateText_keeping (workspace : Workspace) (depth : Nat) (source : String) :
    Keeping (workspace.evaluateText depth source) := by
  induction depth generalizing source with
  | zero =>
      intro session outcome finish hrun
      cases hrun
  | succ depth ih =>
      intro session outcome finish hrun
      rcases evaluateText_succ_run hrun with rfl | ⟨module, bound, himports, hbound⟩
      · exact .refl _ _
      · have hload (file : FileRef) : Keeping (workspace.load depth file) :=
          loadWith_keeping ih file
        exact (bindImports_keeping hload _ _ _ _ _ himports).congr hbound

/-- Loading keeps a session tidy at every depth, by induction on the depth;
evaluation of a text is the other half of it. -/
theorem load_keeping (workspace : Workspace) (depth : Nat) (file : FileRef) :
    Keeping (workspace.load depth file) :=
  loadWith_keeping (evaluateText_keeping workspace depth) file

/-- Behind a call the cache has for the path what came out of it: the value, or
nothing. -/
theorem lookup_of_load {depth : Nat} {file : FileRef} {outcome : Except EvalError Value}
    (h : (workspace.load depth file).run session = some (outcome, finish)) :
    finish.cache.lookup file.path.steps = outcome.toOption := by
  cases loads_of_run h with
  | cached hcached => exact hcached
  | cycle hnew _ _ => exact hnew
  | unread hlacks _ => exact hlacks.new
  | failed hlacks _ hinner =>
      have heffect := (evaluateText_keeping _ _ _ _ _ _ hinner).toEffect
      exact (heffect.guarded file.path (List.mem_append_right _ List.mem_cons_self)).trans
        hlacks.new
  | loaded _ _ _ =>
      rw [Session.remember, ImportCache.lookup_insert, if_pos rfl]
      rfl

/-- A path that is cached is not read. -/
theorem load_cached {depth : Nat} {file : FileRef} {value : Value}
    (h : session.cache.lookup file.path.steps = some value) :
    (workspace.load depth file).run session = some (.ok value, session) := by
  rw [Workspace.load, Workspace.loadWith_run, h]

end

end ConfigNotation

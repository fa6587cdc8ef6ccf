import ConfigNotation.Proofs.Eval.Imports

/-!
The values of files in sessions. Relative to the references that decide for the paths, a
file has its value in every session that knows nothing but values of files; so a new session
gives it, as long as all imports on the way read their files as these references do.
-/

namespace ConfigNotation

open Relation

/-- The value of a file that is imported in a new session, if a depth
suffices. -/
def Workspace.importFresh? (workspace : Workspace) (depth : Nat) (file : FileRef) :
    Option (Except EvalError Value) :=
  ((workspace.load depth file).run (.start .empty)).map (·.1)

section

variable (workspace : Workspace) (origin : Origin)

/-- A reference reads its file as the reference does that decides for its
path. -/
def ReadsAlike (file : FileRef) : Prop :=
  workspace.readText file = workspace.readText (origin file.path.steps)

/-- All imports in files that a file depends on read alike. -/
def ImportsAlike (steps : List Step) : Prop :=
  ∀ reached, ReflTransGen (ImportsPath workspace origin) steps reached →
    ∀ source, ImportsFile workspace origin reached source → ReadsAlike workspace origin source

def CachesValues (cache : ImportCache) : Prop :=
  ∀ steps value, cache.lookup steps = some value → FileValue workspace origin steps value

/-- None of the files that are being evaluated is needed for the value of a
file. -/
def NeedsNone (opened : List Path) (steps : List Step) : Prop :=
  ∀ path ∈ opened, ¬ReflTransGen (ImportsPath workspace origin) steps path.steps

/-- Every sufficient depth gives a file its value, in every session in which
that is possible. -/
def LoadsAs (steps : List Step) (value : Value) : Prop :=
  ∃ least, ∀ depth, least ≤ depth → ∀ session, CachesValues workspace origin session.cache →
    NeedsNone workspace origin session.opened steps →
      ∀ file, file.path.steps = steps → ReadsAlike workspace origin file →
        ∃ finish, (workspace.load depth file).run session = some (.ok value, finish) ∧
          CachesValues workspace origin finish.cache ∧ finish.opened = session.opened

end

variable {workspace : Workspace} {origin : Origin}

/-- A file is not needed for the files that it imports. -/
theorem FileValue.not_needed {steps imported : List Step} {value : Value}
    (hvalue : FileValue workspace origin steps value)
    (himports : ImportsPath workspace origin steps imported) :
    ¬ReflTransGen (ImportsPath workspace origin) imported steps := by
  intro hreaches
  have hself : TransGen (ImportsPath workspace origin) steps steps :=
    TransGen.head' himports hreaches
  have hacc := hvalue.acc.transGen
  clear himports hvalue hreaches
  induction hacc with
  | intro steps _ ih => exact ih steps (transGen_swap.1 hself) hself

theorem CachesValues.insert {cache : ImportCache} {path : Path} {value : Value}
    (hcache : CachesValues workspace origin cache)
    (hvalue : FileValue workspace origin path.steps value) :
    CachesValues workspace origin (cache.insert path value) := by
  intro steps known h
  rw [ImportCache.lookup_insert] at h
  split at h
  · next hsteps =>
    cases h
    exact hsteps ▸ hvalue
  · exact hcache steps known h

theorem bindImports_ok {imports : List Import} {values : List Step → Value}
    (hloads : ∀ first ∈ imports,
      LoadsAs workspace origin first.source.path.steps (values first.source.path.steps))
    (halike : ∀ first ∈ imports, ReadsAlike workspace origin first.source) :
    ∃ least, ∀ depth, least ≤ depth → ∀ session bindings,
      CachesValues workspace origin session.cache →
      (∀ first ∈ imports,
        NeedsNone workspace origin session.opened first.source.path.steps) →
      ∃ finish,
        (Module.bindImports (workspace.load depth) bindings imports).run session =
          some (.ok (Module.bindAll values bindings imports), finish) ∧
        CachesValues workspace origin finish.cache ∧ finish.opened = session.opened := by
  induction imports with
  | nil => exact ⟨0, fun _ _ session _ hcache _ => ⟨session, rfl, hcache, rfl⟩⟩
  | cons first rest ih =>
      obtain ⟨⟨firstLeast, hfirst⟩, hrest⟩ := List.forall_mem_cons.1 hloads
      obtain ⟨hfirstAlike, hrestAlike⟩ := List.forall_mem_cons.1 halike
      obtain ⟨restLeast, hrest⟩ := ih hrest hrestAlike
      refine ⟨max firstLeast restLeast, ?_⟩
      intro depth hdepth session bindings hcache hneeds
      obtain ⟨hneedsFirst, hneedsRest⟩ := List.forall_mem_cons.1 hneeds
      obtain ⟨middle, hrun, hmiddle, hopened⟩ :=
        hfirst depth (by omega) session hcache hneedsFirst first.source rfl hfirstAlike
      obtain ⟨finish, hfinish, hleft, hstill⟩ :=
        hrest depth (by omega) middle
          (first.binding.bind bindings (values first.source.path.steps)) hmiddle
          (hopened ▸ hneedsRest)
      refine ⟨finish, ?_, hleft, hstill.trans hopened⟩
      rw [Module.bindImports, Loading.run_bind, Loading.within, Loading.run_adapt, hrun]
      exact hfinish

theorem moduleOf?_eq_some {file : FileRef} {module : Module} :
    workspace.moduleOf? file = some module ↔
      ∃ text lexed, workspace.readText file = .ok text ∧
        workspace.parse text = .ok (lexed, module) := by
  unfold Workspace.moduleOf?
  cases workspace.readText file with
  | error error => simp
  | ok text =>
      cases hparse : workspace.parse text with
      | error failure => simp [hparse, Except.toOption]
      | ok parsed => simp [hparse, Except.toOption, Prod.ext_iff]

/-- A new session finds the value of a file, and so does every session that
knows nothing but values of files. -/
theorem FileValue.loadsAs {steps : List Step} {value : Value}
    (hvalue : FileValue workspace origin steps value)
    (halike : ImportsAlike workspace origin steps) :
    LoadsAs workspace origin steps value := by
  induction hvalue with
  | @intro steps module values value hmodule himports hresult ih =>
      have hvalue : FileValue workspace origin steps value := .intro hmodule himports hresult
      have hpath : ∀ first ∈ module.imports,
          ImportsPath workspace origin steps first.source.path.steps :=
        fun first hfirst => ⟨first.source, ⟨module, hmodule, first, hfirst, rfl⟩, rfl⟩
      obtain ⟨importsLeast, hbind⟩ := bindImports_ok
        (fun first hfirst => ih first hfirst fun reached hreached =>
          halike reached (.head (hpath first hfirst) hreached))
        (fun first hfirst => halike steps .refl first.source
          ⟨module, hmodule, first, hfirst, rfl⟩)
      obtain ⟨finishLeast, classes, hclasses, hfinish⟩ := hresult
      obtain ⟨text, lexed, htext, hparse⟩ := moduleOf?_eq_some.1 hmodule
      refine ⟨max importsLeast finishLeast + 1, fun depth hdepth session hcache hneeds file hsteps
        hfile => ?_⟩
      subst hsteps
      cases hcached : session.cache.lookup file.path.steps with
      | some known =>
          have hknown : known = value := (hcache _ _ hcached).unique hvalue
          refine ⟨session, ?_, hcache, rfl⟩
          rw [Workspace.load, Workspace.loadWith_run, hcached, hknown]
      | none =>
          have hclosed : session.opened.any (·.same file.path) = false := by
            rw [List.any_eq_false]
            intro path hpath hsame
            have hsteps : path.steps = file.path.steps := by simpa [Path.same] using hsame
            exact hneeds path hpath (hsteps ▸ .refl)
          obtain ⟨depth, rfl⟩ := Nat.exists_eq_add_one.2 (by omega : 0 < depth)
          obtain ⟨finish, hrun, hleft, hopened⟩ :=
            hbind depth (by omega) ((session.noteRead file.path).enter file.path) .empty hcache
              fun first hfirst path hmember => by
                rcases List.mem_append.1 hmember with hbefore | hself
                · exact fun hreaches => hneeds path hbefore (.head (hpath first hfirst) hreaches)
                · rw [List.mem_singleton.1 hself]
                  exact hvalue.not_needed (hpath first hfirst)
          have hbody := Module.finish_extends (by omega : finishLeast ≤ depth) workspace.files
            module classes _ _ hfinish
          refine ⟨finish.leave.remember file.path value, ?_, hleft.insert hvalue, ?_⟩
          · exact Workspace.load_ok hcached hclosed (hfile.trans htext)
              (Workspace.evaluateText_ok hparse hclasses hrun hbody)
          · rw [Session.remember, Session.leave, hopened]
            simp [Session.enter, Session.noteRead]

/-- A new session gives the value of a file, from some depth on. -/
theorem FileValue.importFresh {file : FileRef} {value : Value}
    (hvalue : FileValue workspace origin file.path.steps value)
    (hself : ReadsAlike workspace origin file)
    (himports : ImportsAlike workspace origin file.path.steps) :
    ∃ least, ∀ depth, least ≤ depth → workspace.importFresh? depth file = some (.ok value) := by
  obtain ⟨least, hloads⟩ := hvalue.loadsAs himports
  refine ⟨least, fun depth hdepth => ?_⟩
  obtain ⟨finish, hrun, _⟩ := hloads depth hdepth (.start .empty)
    (fun _ _ h => nomatch (ImportCache.lookup_empty _).symm.trans h) nofun file rfl hself
  rw [Workspace.importFresh?, hrun]
  rfl

end ConfigNotation

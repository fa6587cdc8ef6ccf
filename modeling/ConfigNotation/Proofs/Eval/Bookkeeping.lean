import Mathlib.Data.List.Chain
import ConfigNotation.Proofs.Eval.Imports

/-!
The files that an evaluation opens, followed through all its calls of `load`. At every
time the open files are different ones, each of which imports the next; so the chain of
files that a cycle is refused with is one of imports that comes back to itself.
-/

namespace ConfigNotation

open Session

/-- An import statement in the file of a path, which is read in some encoding. -/
def ImportEdge (workspace : Workspace) (importer imported : Path) : Prop :=
  ∃ file module, file.path = importer ∧ workspace.moduleOf? file = some module ∧
    ∃ first ∈ module.imports, first.source.path = imported

/-- The sessions that the evaluation of a text goes through: where it starts and
ends, and around each change that a call of `load` makes. -/
inductive During (workspace : Workspace) (depth : Nat) (source : String) (session : Session) :
    Session → Prop where
  | start : During workspace depth source session session
  | called {below : Nat} {file : FileRef} {inner : Session}
      (hcall : Calls workspace depth source session below file inner) :
      During workspace depth source session inner
  | read {below : Nat} {file : FileRef} {inner : Session}
      (hcall : Calls workspace depth source session below file inner)
      (hlacks : inner.Lacks file.path) :
      During workspace depth source session (inner.noteRead file.path)
  | entered {below : Nat} {file : FileRef} {inner : Session} {text : String}
      (hcall : Calls workspace depth source session below file inner)
      (hlacks : inner.Lacks file.path) (htext : workspace.readText file = .ok text) :
      During workspace depth source session (inner.entered file.path)
  | evaluated {below : Nat} {file : FileRef} {inner last : Session} {text : String}
      {outcome : Except Failure Value}
      (hcall : Calls workspace depth source session below file inner)
      (hlacks : inner.Lacks file.path) (htext : workspace.readText file = .ok text)
      (hrun : (workspace.evaluateText below text).run (inner.entered file.path) =
        some (outcome, last)) :
      During workspace depth source session last
  | left {below : Nat} {file : FileRef} {inner last : Session} {text : String}
      {outcome : Except Failure Value}
      (hcall : Calls workspace depth source session below file inner)
      (hlacks : inner.Lacks file.path) (htext : workspace.readText file = .ok text)
      (hrun : (workspace.evaluateText below text).run (inner.entered file.path) =
        some (outcome, last)) :
      During workspace depth source session last.leave
  | returned {below : Nat} {file : FileRef} {inner last : Session}
      {outcome : Except EvalError Value}
      (hcall : Calls workspace depth source session below file inner)
      (hrun : (workspace.load below file).run inner = some (outcome, last)) :
      During workspace depth source session last
  | finished {last : Session} {outcome : Except Failure Value}
      (hrun : (workspace.evaluateText depth source).run session = some (outcome, last)) :
      During workspace depth source session last

/-- A session in which a text is evaluated: that of the innermost file that
is open. -/
structure Ready (workspace : Workspace) (base : ImportCache) (session : Session)
    (source : String) : Prop where
  tidy : session.Tidy base
  chain : session.opened.IsChain (ImportEdge workspace)
  current : ∀ path ∈ session.opened.getLast?,
    ∃ file, file.path = path ∧ workspace.readText file = .ok source

/-- A session at a call: the innermost file that is open imports the one that is
called for. -/
structure Calling (workspace : Workspace) (base : ImportCache) (session : Session)
    (path : Path) : Prop where
  tidy : session.Tidy base
  chain : (session.opened ++ [path]).IsChain (ImportEdge workspace)

variable {workspace : Workspace} {base : ImportCache} {session : Session} {source : String}

theorem Ready.start (cache : ImportCache) (source : String) :
    Ready workspace cache (.start cache) source where
  tidy := .start cache
  chain := .nil
  current := nofun

/-- Behind some import statements, the next one is called for. -/
theorem Ready.statement (hready : Ready workspace base session source) {depth : Nat}
    {lexed : Lexed} {module : Module} {before after : List Import} {first : Import}
    {bound : Record Value} {finish : Session}
    (hparse : workspace.parse source = .ok (lexed, module))
    (himports : module.imports = before ++ first :: after)
    (hbefore : (Module.bindImports (workspace.load depth) .empty before).run session =
      some (.ok bound, finish)) :
    Calling workspace base finish first.source.path := by
  have hkeeps := bindImports_keeping (load_keeping workspace depth) _ _ _ _ _ hbefore
  constructor
  · exact hkeeps.tidy base bound hready.tidy rfl
  · rw [hkeeps.opened]
    refine List.isChain_append.2 ⟨hready.chain, .singleton _, ?_⟩
    intro importer himporter imported himported
    obtain ⟨file, hpath, htext⟩ := hready.current importer himporter
    refine ⟨file, module, hpath, ?_, first, ?_, Option.some.inj himported⟩
    · rw [Workspace.moduleOf?, htext]
      dsimp only
      rw [hparse]
      rfl
    · rw [himports]
      exact List.mem_append_right _ List.mem_cons_self

/-- A file that is entered becomes the innermost one that is open. -/
theorem Calling.entered {file : FileRef} {text : String}
    (hcalling : Calling workspace base session file.path) (hlacks : session.Lacks file.path)
    (htext : workspace.readText file = .ok text) :
    Ready workspace base (session.entered file.path) text where
  tidy := hcalling.tidy.entered hlacks
  chain := hcalling.chain
  current path hpath := by
    have hlast : (session.entered file.path).opened.getLast? = some file.path :=
      List.getLast?_concat ..
    rw [hlast] at hpath
    exact ⟨file, Option.some.inj hpath, htext⟩

/-- At every call, at whatever nesting, the open files form a chain of imports
that the called one continues. -/
theorem Calls.calling {depth below : Nat} {file : FileRef} {inner : Session}
    (hcall : Calls workspace depth source session below file inner)
    (hready : Ready workspace base session source) :
    Calling workspace base inner file.path := by
  induction hcall with
  | statement hparse _ himports hbefore => exact hready.statement hparse himports hbefore
  | nested _ hlacks htext _ ihcall ihnested =>
      apply ihnested
      exact (ihcall hready).entered hlacks htext

/-- In all sessions that an evaluation goes through, the open files are
different ones and each path was read once. -/
theorem During.spec {depth : Nat} {later : Session}
    (hduring : During workspace depth source session later)
    (hready : Ready workspace base session source) :
    Distinct later.opened ∧ later.ReadsOnce base := by
  cases hduring with
  | start => exact ⟨hready.tidy.opened, hready.tidy.toReadsOnce⟩
  | called hcall =>
      have htidy := (hcall.calling hready).tidy
      exact ⟨htidy.opened, htidy.toReadsOnce⟩
  | read hcall hlacks =>
      have htidy := (hcall.calling hready).tidy
      exact ⟨htidy.opened, htidy.readsOnce_noteRead hlacks⟩
  | entered hcall hlacks htext =>
      have htidy := ((hcall.calling hready).entered hlacks htext).tidy
      exact ⟨htidy.opened, htidy.toReadsOnce⟩
  | evaluated hcall hlacks htext hrun =>
      have htidy := ((hcall.calling hready).entered hlacks htext).tidy
      have hkeeps := evaluateText_keeping _ _ _ _ _ _ hrun
      rw [hkeeps.opened]
      exact ⟨htidy.opened, hkeeps.once base htidy⟩
  | left hcall hlacks htext hrun =>
      have htidy := (hcall.calling hready).tidy
      have hkeeps := evaluateText_keeping _ _ _ _ _ _ hrun
      have honce := hkeeps.once base (htidy.entered hlacks)
      rw [(hkeeps.toEffect.leave hlacks).opened]
      exact ⟨htidy.opened, ⟨honce.distinct, honce.fresh⟩⟩
  | returned hcall hrun =>
      have htidy := (hcall.calling hready).tidy
      have hkeeps := load_keeping _ _ _ _ _ _ hrun
      rw [hkeeps.opened]
      exact ⟨htidy.opened, hkeeps.once base htidy⟩
  | finished hrun =>
      have hkeeps := evaluateText_keeping _ _ _ _ _ _ hrun
      rw [hkeeps.opened]
      exact ⟨hready.tidy.opened, hkeeps.once base hready.tidy⟩

/-- A chain that comes back to a path: each path in it is imported by the one
before it, and the last one was there before. -/
def ImportCycle (workspace : Workspace) (chain : List Path) : Prop :=
  chain.IsChain (ImportEdge workspace) ∧ ∃ front last, chain = front ++ [last] ∧
    ∃ earlier ∈ front, earlier.steps = last.steps

/-- A reading error names the file, so that it is no cycle. -/
theorem readText_ne_importCycle {file : FileRef} {error : EvalError}
    (h : workspace.readText file = .error error) (chain : List Path) :
    error.fault ≠ .importCycle chain := by
  rw [Workspace.readText] at h
  cases hread : workspace.files.read file.path with
  | error reason =>
      rw [hread] at h
      cases h
      exact nofun
  | ok bytes =>
      rw [hread] at h
      cases hdecode : file.encoding.decode bytes with
      | error fault =>
          simp only [Except.mapError, bind, Except.bind, hdecode] at h
          cases h
          exact nofun
      | ok text =>
          simp only [Except.mapError, bind, Except.bind, hdecode] at h
          cases h

theorem Calling.importCycle {below : Nat} {file : FileRef} {finish : Session}
    {error : EvalError} {chain : List Path}
    (hcalling : Calling workspace base session file.path)
    (hrun : (workspace.load below file).run session = some (.error error, finish))
    (hfault : error.fault = .importCycle chain) :
    ImportCycle workspace chain := by
  cases loads_of_run hrun with
  | cycle hnew hopened hsame =>
      cases hfault
      exact ⟨hcalling.chain, session.opened, file.path, rfl, _, hopened, hsame⟩
  | unread _ htext => exact absurd hfault (readText_ne_importCycle htext chain)
  | failed _ _ _ => cases hfault

/-- The bookkeeping of imports, for an evaluation of any text with any cache to
start with, in all sessions that it goes through and for all calls of `load`
that it makes. The files that are open are different ones, no file is read
twice, and a call of `load` leaves the files that were open and the values that
were cached, whether it succeeds or fails. A cycle is told by a chain of imports
that comes back to a path in it. -/
theorem import_bookkeeping (workspace : Workspace) (depth : Nat) (source : String)
    (cache : ImportCache) :
    (∀ session, During workspace depth source (.start cache) session →
      Distinct session.opened ∧ session.ReadsOnce cache) ∧
    (∀ below file session outcome finish,
      (workspace.load below file).run session = some (outcome, finish) →
        Effect session finish ∧ finish.cache.lookup file.path.steps = outcome.toOption ∧
        ((session.cache.lookup file.path.steps).isSome → finish = session)) ∧
    ∀ below file session, Calls workspace depth source (.start cache) below file session →
      ∀ error finish, (workspace.load below file).run session = some (.error error, finish) →
        ∀ chain, error.fault = .importCycle chain → ImportCycle workspace chain := by
  have hready : Ready workspace cache (.start cache) source := .start cache source
  refine ⟨?_, ?_, ?_⟩
  · intro session hduring
    exact hduring.spec hready
  · intro below file session outcome finish hrun
    refine ⟨(load_keeping _ _ _ _ _ _ hrun).toEffect, lookup_of_load hrun, ?_⟩
    intro hcached
    obtain ⟨value, hvalue⟩ := Option.isSome_iff_exists.1 hcached
    rw [load_cached hvalue] at hrun
    cases hrun
    rfl
  · intro below file session hcall error finish hrun chain hfault
    exact (hcall.calling hready).importCycle hrun hfault

def loopText : String := "import \"a\".utf8 as a; export a;"

def looped : Workspace where
  config := .new ⟨"/"⟩
  files := (Store.empty.insert ⟨"/a"⟩
    (.bytes (loopText.toList.map fun c => .ofNat c.toNat))).fileSystem
  explain _ _ := ""

def loopFile : FileRef := ⟨⟨"/a"⟩, .utf8⟩

theorem readText_loop : looped.readText loopFile = .ok loopText := rfl

theorem parse_loop :
    ∃ lexed module first, looped.parse loopText = .ok (lexed, module) ∧
      module.classes = [] ∧ module.imports = [first] ∧ first.source = loopFile := by
  have hparts : (looped.parse loopText).toOption.map (fun parsed =>
      (parsed.2.classes.length, parsed.2.imports.map (·.source))) = some (0, [loopFile]) := by
    decide +kernel
  cases hparse : looped.parse loopText with
  | error failure =>
      rw [hparse] at hparts
      cases hparts
  | ok parsed =>
      obtain ⟨lexed, module⟩ := parsed
      rw [hparse] at hparts
      obtain ⟨hclasses, himports⟩ := Prod.mk.inj (Option.some.inj hparts)
      obtain ⟨first, hfirst, hsource⟩ := List.map_eq_singleton_iff.1 himports
      exact ⟨lexed, module, first, rfl, List.length_eq_zero_iff.1 hclasses, hfirst, hsource⟩

theorem calls_loop (depth : Nat) (session : Session) :
    Calls looped (depth + 1) loopText session depth loopFile session := by
  obtain ⟨lexed, module, first, hparse, hclasses, himports, hsource⟩ := parse_loop
  have hregister : ClassTable.registerAll .empty module.classes = .ok .empty := by
    rw [hclasses]
    rfl
  have hfirst : module.imports = [] ++ first :: [] := himports
  rw [← hsource]
  exact .statement hparse hregister hfirst rfl

/-- The file is called for a second time while it is being evaluated. -/
theorem import_bookkeeping_loop :
    ∃ file session error finish, Calls looped 2 loopText (.start .empty) 0 file session ∧
      (looped.load 0 file).run session = some (.error error, finish) ∧
      error.fault = .importCycle [⟨"/a"⟩, ⟨"/a"⟩] ∧ ImportCycle looped [⟨"/a"⟩, ⟨"/a"⟩] := by
  have hcall : Calls looped 2 loopText (.start .empty) 0 loopFile
      ((Session.start .empty).entered loopFile.path) :=
    .nested (calls_loop 1 _) ⟨rfl, nofun⟩ readText_loop (calls_loop 0 _)
  have hrun : (looped.load 0 loopFile).run ((Session.start .empty).entered loopFile.path) =
      some (.error (.raise (.importCycle [⟨"/a"⟩, ⟨"/a"⟩])),
        (Session.start .empty).entered loopFile.path) := by
    rw [Workspace.load, Workspace.loadWith_run]
    rfl
  exact ⟨_, _, _, _, hcall, hrun, rfl,
    (import_bookkeeping looped 2 loopText .empty).2.2 _ _ _ hcall _ _ hrun _ rfl⟩

end ConfigNotation

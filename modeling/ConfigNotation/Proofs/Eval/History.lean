import ConfigNotation.Proofs.Eval.References

/-!
What happened in a session, and which references decide in it. A path keeps the value that it
was loaded with first, be it by a request or by an import statement in a file or a text. So
all values are those of the files by themselves, each read as that first load reads it.
-/

namespace ConfigNotation

open Relation

/-- What a session can be asked for: a file to be loaded, or a text to be
evaluated. -/
inductive Request where
  | load (depth : Nat) (file : FileRef)
  | evaluate (depth : Nat) (source : String)

namespace Request

/-- The calls of `load` that a request makes in a session, at whatever
nesting. -/
def Calls (workspace : Workspace) (session : Session) : Request → CallsMade
  | load depth file => CallsBehind workspace depth file session
  | evaluate depth source => ConfigNotation.Calls workspace depth source session

/-- A file that a request can come to: the one that it loads, or one that an import
statement names in its text or in a file that it can come to. -/
inductive MayLoad (workspace : Workspace) : Request → FileRef → Prop where
  | load {depth : Nat} {file : FileRef} : MayLoad workspace (.load depth file) file
  | evaluate {depth : Nat} {source : String} {file : FileRef}
      (himport : MayImport workspace source file) :
      MayLoad workspace (.evaluate depth source) file
  | nested {request : Request} {file : FileRef} {module : Module} {first : Import}
      (hfile : MayLoad workspace request file)
      (hmodule : workspace.moduleOf? file = some module) (hfirst : first ∈ module.imports) :
      MayLoad workspace request first.source

end Request

/-- A request, and the session in which it is made. -/
structure Event where
  request : Request
  session : Session

/-- What was asked of a session so far, from its start on. A request that fails
is part of it: the files that it could load are cached. -/
inductive History (workspace : Workspace) : List Event → Session → Prop where
  | start : History workspace [] (.start .empty)
  | loaded {past : List Event} {session finish : Session} {depth : Nat} {file : FileRef}
      {outcome : Except EvalError Value} (hbefore : History workspace past session)
      (hrun : (workspace.load depth file).run session = some (outcome, finish)) :
      History workspace (past ++ [⟨.load depth file, session⟩]) finish
  | evaluated {past : List Event} {session finish : Session} {depth : Nat} {source : String}
      {outcome : Except Failure Value} (hbefore : History workspace past session)
      (hrun : (workspace.evaluateText depth source).run session = some (outcome, finish)) :
      History workspace (past ++ [⟨.evaluate depth source, session⟩]) finish

/-- The calls of `load` that were made for all that was asked. -/
def MadeIn (workspace : Workspace) (past : List Event) : CallsMade := fun depth file session =>
  ∃ event ∈ past, event.request.Calls workspace event.session depth file session

/-- No path is named under two encodings, as far as the requests can come. -/
def OneEncodingIn (workspace : Workspace) (past : List Event) : Prop :=
  ∀ first ∈ past, ∀ second ∈ past, ∀ file other, first.request.MayLoad workspace file →
    second.request.MayLoad workspace other → file.path.steps = other.path.steps →
      file.encoding = other.encoding

/-- Spellings of one path lead to one file. -/
def FileSystem.IgnoresSpelling (files : FileSystem) : Prop :=
  ∀ path other bytes, path.steps = other.steps → files.read path = .ok bytes →
    files.read other = .ok bytes

/-- Files in a store are found by the steps of their paths, so the spelling of a
path makes no difference. -/
theorem Store.ignoresSpelling (store : Store) : store.fileSystem.IgnoresSpelling := by
  intro path other bytes hsteps hread
  have hnormal : path.normalSteps = other.normalSteps := by
    rw [Path.normalSteps, hsteps, Path.normalSteps]
  change store.read path = _ at hread
  change store.read other = _
  rw [Store.read, Store.get?] at hread ⊢
  rw [← hnormal]
  cases hfound : store.files.lookup path.normalSteps with
  | none =>
      rw [hfound] at hread
      cases hread
  | some contents =>
      rw [hfound] at hread
      cases contents with
      | bytes found => exact hread
      | unreadable reason => cases hread

section

variable {workspace : Workspace}

theorem MayImport.of_text {source text : String} {file other : FileRef}
    (hfile : MayImport workspace source file) (htext : workspace.readText file = .ok text)
    (hother : MayImport workspace text other) :
    MayImport workspace source other := by
  induction hother with
  | statement hparse hfirst =>
      exact .nested hfile (moduleOf?_eq_some.2 ⟨_, _, htext, hparse⟩) hfirst
  | nested _ hmodule hfirst ih => exact .nested ih hmodule hfirst

/-- A text calls for nothing but files that it can import. -/
theorem Calls.mayImport {depth below : Nat} {source : String} {session inner : Session}
    {file : FileRef} (hcall : Calls workspace depth source session below file inner) :
    MayImport workspace source file := by
  induction hcall with
  | statement hparse _ himports _ =>
      exact .statement hparse (himports ▸ List.mem_append_right _ List.mem_cons_self)
  | nested _ _ htext _ ihcall ihnested => exact ihcall.of_text htext ihnested

namespace Request

theorem MayLoad.of_text {request : Request} {text : String} {file other : FileRef}
    (hfile : request.MayLoad workspace file) (htext : workspace.readText file = .ok text)
    (hother : MayImport workspace text other) :
    request.MayLoad workspace other := by
  induction hother with
  | statement hparse hfirst =>
      exact .nested hfile (moduleOf?_eq_some.2 ⟨_, _, htext, hparse⟩) hfirst
  | nested _ hmodule hfirst ih => exact .nested ih hmodule hfirst

/-- Whatever is loaded while a request is answered was named by the request, by
its text, or by a file that these lead to. -/
theorem Calls.mayLoad {request : Request} {session inner : Session} {below : Nat}
    {file : FileRef} (hcall : request.Calls workspace session below file inner) :
    request.MayLoad workspace file := by
  cases request with
  | load depth loaded =>
      cases hcall with
      | call => exact .load
      | text _ htext hcall => exact MayLoad.load.of_text htext hcall.mayImport
  | evaluate depth source => exact .evaluate (ConfigNotation.Calls.mayImport hcall)

end Request

/-- The calls of a history with one event more are those made before and those
of its last request. -/
theorem madeIn_concat (past : List Event) (event : Event) :
    MadeIn workspace (past ++ [event]) = fun depth file session =>
      MadeIn workspace past depth file session ∨
        event.request.Calls workspace event.session depth file session := by
  funext depth file session
  rw [eq_iff_iff]
  simp only [MadeIn, List.mem_append, List.mem_singleton, or_and_right, exists_or,
    exists_eq_left]

/-- All that was asked of a session is one step from its start on. -/
theorem History.progress {past : List Event} {session : Session}
    (h : History workspace past session) (start : Origin) :
    ∃ origin, Progress workspace (MadeIn workspace past) (.start .empty) session start origin := by
  induction h with
  | start =>
      refine ⟨start, (Progress.refl (.empty _ _)).congr (fun _ _ _ => False.elim) ?_⟩
      rintro _ _ _ _ _ ⟨_, hnone, _⟩
      cases hnone
  | loaded _ hrun ih =>
      obtain ⟨origin, hbefore⟩ := ih
      obtain ⟨after, hlast⟩ := load_progress _ _ _ _ _ _ hrun origin hbefore.settled
      rw [madeIn_concat]
      exact ⟨after, hbefore.trans hlast⟩
  | evaluated _ hrun ih =>
      obtain ⟨origin, hbefore⟩ := ih
      obtain ⟨after, hlast, _⟩ := texts_progress _ _ _ _ _ _ hrun origin hbefore.settled
      rw [madeIn_concat]
      exact ⟨after, hbefore.trans hlast⟩

theorem LoadsFirst.exists_text {made : CallsMade} {file : FileRef}
    (h : LoadsFirst workspace made file) :
    ∃ text, workspace.readText file = .ok text := by
  obtain ⟨depth, session, value, finish, _, hnew, hrun⟩ := h
  cases loads_of_run hrun with
  | cached hcached =>
      rw [ImportCache.get?_eq_lookup, hcached] at hnew
      cases hnew
  | loaded _ htext _ => exact ⟨_, htext⟩

/-- Two references to one path, in one encoding, are read alike. -/
theorem readText_congr (hfiles : workspace.files.IgnoresSpelling) {file other : FileRef}
    {text : String} (hsteps : file.path.steps = other.path.steps)
    (hencoding : file.encoding = other.encoding) (htext : workspace.readText file = .ok text) :
    workspace.readText other = .ok text := by
  rw [Workspace.readText] at htext ⊢
  cases hread : workspace.files.read file.path with
  | error reason =>
      rw [hread] at htext
      cases htext
  | ok bytes =>
      rw [hread] at htext
      rw [hfiles _ _ _ hsteps hread]
      dsimp only [Except.mapError, bind, Except.bind] at htext ⊢
      rw [← hencoding]
      cases hdecode : file.encoding.decode bytes with
      | error fault =>
          rw [hdecode] at htext
          cases htext
      | ok decoded =>
          rw [hdecode] at htext
          exact htext

namespace Progress

variable {made : CallsMade} {session finish : Session} {start origin : Origin}

/-- The reference of a first load decides for its path. -/
theorem decides (h : Progress workspace made session finish start origin) {file : FileRef}
    (hfile : LoadsFirst workspace made file) :
    origin file.path.steps = file := by
  obtain ⟨depth, inner, value, last, hcall, hnew, hrun⟩ := hfile
  exact (h.loads depth file inner value last hcall hrun).2 hnew

/-- What decides for a path that got cached is the reference of its first
load. -/
theorem loadsFirst (h : Progress workspace made session finish start origin) {steps : List Step}
    (hnew : session.cache.lookup steps = none) (hcached : (finish.cache.lookup steps).isSome) :
    LoadsFirst workspace made (origin steps) ∧ (origin steps).path.steps = steps := by
  obtain ⟨file, hfile, rfl⟩ := h.gained steps hcached hnew
  rw [h.decides hfile]
  exact ⟨hfile, rfl⟩

/-- All that a cached file depends on is cached. -/
theorem reached (h : Progress workspace made session finish start origin)
    {steps needed : List Step} (hcached : (finish.cache.lookup steps).isSome)
    (hneeded : ReflTransGen (ImportsPath workspace origin) steps needed) :
    (finish.cache.lookup needed).isSome := by
  induction hneeded with
  | refl => exact hcached
  | tail _ himports ih =>
      obtain ⟨source, hsource, rfl⟩ := himports
      exact h.settled.closed _ ih source hsource

end Progress

section

variable {past : List Event} {session : Session} {start origin : Origin}
  (h : Progress workspace (MadeIn workspace past) (.start .empty) session start origin)

include h

/-- The reference that a cached value goes back to was within reach of some
earlier request. -/
theorem mayLoad_origin {steps : List Step} (hcached : (session.cache.lookup steps).isSome) :
    ∃ event ∈ past, event.request.MayLoad workspace (origin steps) := by
  obtain ⟨⟨depth, inner, value, last, ⟨event, hevent, hcall⟩, _⟩, _⟩ :=
    h.loadsFirst (ImportCache.lookup_empty steps) hcached
  exact ⟨event, hevent, Request.Calls.mayLoad hcall⟩

variable (hfiles : workspace.files.IgnoresSpelling) (hsame : OneEncodingIn workspace past)

include hfiles hsame

/-- If each path is named under one encoding, every name of a cached path is
read as the reference is that decides for the path. -/
theorem readsAlike_of_oneEncoding {file : FileRef}
    (hmay : ∃ event ∈ past, event.request.MayLoad workspace file)
    (hcached : (session.cache.lookup file.path.steps).isSome) :
    ReadsAlike workspace origin file := by
  obtain ⟨hfirst, hsteps⟩ := h.loadsFirst (ImportCache.lookup_empty _) hcached
  obtain ⟨text, htext⟩ := hfirst.exists_text
  obtain ⟨event, hevent, horigin⟩ := mayLoad_origin h hcached
  obtain ⟨other, hother, hfile⟩ := hmay
  have hencoding := hsame event hevent other hother _ _ horigin hfile hsteps
  rw [ReadsAlike, htext, readText_congr hfiles hsteps hencoding htext]

/-- If no path is named in two encodings, all imports behind a cached value read
alike, so that nothing is left to the order of requests. -/
theorem importsAlike_of_oneEncoding {steps : List Step}
    (hcached : (session.cache.lookup steps).isSome) :
    ImportsAlike workspace origin steps := by
  intro needed hneeded source hsource
  have hthere := h.reached hcached hneeded
  obtain ⟨event, hevent, horigin⟩ := mayLoad_origin h hthere
  have hclosed := h.settled.closed needed hthere source hsource
  obtain ⟨module, hmodule, first, hfirst, rfl⟩ := hsource
  exact readsAlike_of_oneEncoding h hfiles hsame
    ⟨event, hevent, horigin.nested hmodule hfirst⟩ hclosed

end

end

/-- In every session one reference decides for each path: the one under which
the path was loaded first, be it by a request or by an import statement on the
way of one. A call of `load` that succeeds gives the value of its file by
itself, read under the reference for its path, as are all files that it depends
on, each of which had such a first load. So it gives what a new session gives
whenever it, and all imports on the way, read their files as the first loads
did; and this is so if no path is named under two encodings. -/
theorem loads_follow_first_import {workspace : Workspace} {past : List Event} {session : Session}
    (h : History workspace past session) :
    ∃ origin : Origin,
      (∀ file, LoadsFirst workspace (MadeIn workspace past) file →
        origin file.path.steps = file) ∧
      ∀ depth file inner value finish, MadeIn workspace past depth file inner →
        (workspace.load depth file).run inner = some (.ok value, finish) →
        (∀ steps, ReflTransGen (ImportsPath workspace origin) file.path.steps steps →
          ∃ first, LoadsFirst workspace (MadeIn workspace past) first ∧
            first.path.steps = steps) ∧
        FileValue workspace origin file.path.steps value ∧
        (ReadsAlike workspace origin file → ImportsAlike workspace origin file.path.steps →
          ∃ least, ∀ depth, least ≤ depth →
            workspace.importFresh? depth file = some (.ok value)) ∧
        (workspace.files.IgnoresSpelling → OneEncodingIn workspace past →
          ∃ least, ∀ depth, least ≤ depth →
            workspace.importFresh? depth file = some (.ok value)) := by
  obtain ⟨origin, hprogress⟩ := h.progress fun _ => ⟨⟨""⟩, .utf8⟩
  refine ⟨origin, fun file => hprogress.decides, ?_⟩
  intro depth file inner value finish hcall hrun
  have hcached := (hprogress.loads depth file inner value finish hcall hrun).1
  have hsome : (session.cache.lookup file.path.steps).isSome := by
    rw [hcached]
    rfl
  have hvalue := hprogress.settled.value _ _ hcached
  refine ⟨fun steps hneeded => ?_, hvalue, hvalue.importFresh, fun hfiles hsame => ?_⟩
  · exact ⟨origin steps, hprogress.loadsFirst (ImportCache.lookup_empty steps)
      (hprogress.reached hsome hneeded)⟩
  · obtain ⟨event, hevent, hcalls⟩ := hcall
    apply hvalue.importFresh
    · exact readsAlike_of_oneEncoding hprogress hfiles hsame
        ⟨event, hevent, Request.Calls.mayLoad hcalls⟩ hsome
    · exact importsAlike_of_oneEncoding hprogress hfiles hsame hsome

/-- A module that exports an accented letter, in UTF-8. -/
def accented : Workspace where
  config := .new ⟨"/"⟩
  files := (Store.empty.insert ⟨"/letter"⟩
    (.bytes [101, 120, 112, 111, 114, 116, 32, 34, 195, 169, 34, 59])).fileSystem
  explain _ _ := ""

def letter (encoding : Encoding) : FileRef := ⟨⟨"/letter"⟩, encoding⟩

def letterText : String := "import \"letter\".utf8 as l; export l;"

theorem parse_letterText :
    ∃ lexed module first, accented.parse letterText = .ok (lexed, module) ∧
      module.classes = [] ∧ module.imports = [first] ∧ first.source = letter .utf8 := by
  have hparts : (accented.parse letterText).toOption.map (fun parsed =>
      (parsed.2.classes.length, parsed.2.imports.map (·.source))) = some (0, [letter .utf8]) := by
    decide +kernel
  cases hparse : accented.parse letterText with
  | error failure =>
      rw [hparse] at hparts
      cases hparts
  | ok parsed =>
      obtain ⟨lexed, module⟩ := parsed
      rw [hparse] at hparts
      obtain ⟨hclasses, himports⟩ := Prod.mk.inj (Option.some.inj hparts)
      obtain ⟨first, hfirst, hsource⟩ := List.map_eq_singleton_iff.1 himports
      exact ⟨lexed, module, first, rfl, List.length_eq_zero_iff.1 hclasses, hfirst, hsource⟩

/-- The letter imports nothing. -/
theorem imports_letter {module : Module} (h : accented.moduleOf? (letter .utf8) = some module) :
    module.imports = [] := by
  have hnone : (accented.moduleOf? (letter .utf8)).map (·.imports.length) = some 0 := by
    decide +kernel
  rw [h] at hnone
  exact List.length_eq_zero_iff.1 (Option.some.inj hnone)

private theorem oneEncoding_letter (session : Session) :
    OneEncodingIn accented [⟨.load 5 (letter .utf8), session⟩] := by
  have honly {request : Request} {file : FileRef} (hrequest : request = .load 5 (letter .utf8))
      (hmay : request.MayLoad accented file) :
      file = letter .utf8 := by
    induction hmay with
    | load =>
        cases hrequest
        rfl
    | evaluate => cases hrequest
    | nested _ hmodule hfirst ih =>
        rw [ih hrequest] at hmodule
        rw [imports_letter hmodule] at hfirst
        cases hfirst
  intro first hfirst second hsecond file other hfile hother _
  rw [List.mem_singleton] at hfirst hsecond
  subst hfirst hsecond
  rw [honly rfl hfile, honly rfl hother]

private theorem run_of_text {loading : Loading EvalError Value} {session : Session} {text : String}
    (h : (loading.run session).map (fun result => result.1.toOption.map Value.text) =
      some (some text)) :
    ∃ value finish, loading.run session = some (.ok value, finish) ∧ value.text = text := by
  rcases hrun : loading.run session with _ | ⟨error | value, finish⟩
  · simp [hrun] at h
  · simp [hrun, Except.toOption] at h
  · exact ⟨value, finish, rfl, by simpa [hrun, Except.toOption] using h⟩

/-- The evaluation of the text loads the letter for the first time. -/
private theorem letterText_loadsFirst :
    LoadsFirst accented (Calls accented 5 letterText (.start .empty)) (letter .utf8) := by
  obtain ⟨lexed, module, first, hparse, hclasses, himports, hsource⟩ := parse_letterText
  have hregister : ClassTable.registerAll .empty module.classes = .ok .empty := by
    rw [hclasses]
    rfl
  have hfirst : module.imports = [] ++ first :: [] := himports
  have hcall : Calls accented 5 letterText (.start .empty) 4 (letter .utf8) (.start .empty) :=
    hsource ▸ .statement hparse hregister hfirst rfl
  have hloads : ((accented.load 4 (letter .utf8)).run (.start .empty)).map
      (fun result => result.1.toOption.map Value.text) = some (some "é") := by decide +kernel
  obtain ⟨value, finish, hrun, _⟩ := run_of_text hloads
  exact ⟨4, .start .empty, value, finish, hcall, rfl, hrun⟩

/-- The text is evaluated, and the letter is loaded as Latin-1 in the session
behind that. -/
def letterEvents (session : Session) : List Event :=
  [⟨.evaluate 5 letterText, .start .empty⟩, ⟨.load 5 (letter .latin1), session⟩]

theorem loads_follow_first_import_letter :
    ∃ middle session, History accented (letterEvents middle) session ∧
      LoadsFirst accented (MadeIn accented (letterEvents middle)) (letter .utf8) ∧
      ∃ origin value finish, origin (letter .latin1).path.steps = letter .utf8 ∧
        (accented.load 5 (letter .latin1)).run middle = some (.ok value, finish) ∧
        value.text = "é" ∧ FileValue accented origin (letter .latin1).path.steps value ∧
      ∃ again last, (accented.load 5 (letter .utf8)).run (.start .empty) = some (.ok again, last) ∧
        ∃ least, ∀ depth, least ≤ depth →
          accented.importFresh? depth (letter .utf8) = some (.ok again) := by
  have hboth : ((accented.evaluateText 5 letterText).run (.start .empty)).bind (fun result =>
      ((accented.load 5 (letter .latin1)).run result.2).map
        fun again => again.1.toOption.map Value.text) = some (some "é") := by decide +kernel
  obtain ⟨⟨outcome, middle⟩, hrun, hagain⟩ := Option.bind_eq_some_iff.1 hboth
  obtain ⟨value, finish, hload, htext⟩ := run_of_text hagain
  have hhistory : History accented (letterEvents middle) finish :=
    .loaded (.evaluated .start hrun) hload
  obtain ⟨origin, hfirst, hvalues⟩ := loads_follow_first_import hhistory
  have hletter : LoadsFirst accented (MadeIn accented (letterEvents middle)) (letter .utf8) :=
    letterText_loadsFirst.mono fun _ _ _ hcall =>
      ⟨⟨.evaluate 5 letterText, .start .empty⟩, List.mem_cons_self, hcall⟩
  have hmade : MadeIn accented (letterEvents middle) 5 (letter .latin1) middle :=
    ⟨⟨.load 5 (letter .latin1), middle⟩, List.mem_cons_of_mem _ List.mem_cons_self, .call⟩
  have halone : ((accented.load 5 (letter .utf8)).run (.start .empty)).map
      (fun result => result.1.toOption.map Value.text) = some (some "é") := by decide +kernel
  obtain ⟨again, last, hagain, _⟩ := run_of_text halone
  obtain ⟨_, _, hsame⟩ := loads_follow_first_import (.loaded .start hagain)
  obtain ⟨_, _, _, hfresh⟩ := hsame _ _ _ _ _ ⟨_, List.mem_cons_self, .call⟩ hagain
  exact ⟨middle, finish, hhistory, hletter, origin, value, finish, hfirst _ hletter, hload, htext,
    (hvalues _ _ _ _ _ hmade hload).2.1, again, last, hagain,
    hfresh (Store.ignoresSpelling _) (oneEncoding_letter _)⟩

/-- A load under another encoding than the first one of its path does not give
what a new session gives. -/
theorem later_encoding_has_no_effect :
    ∃ past session value finish fresh, History accented past session ∧
      (accented.load 5 (letter .latin1)).run session = some (.ok value, finish) ∧
      accented.importFresh? 5 (letter .latin1) = some (.ok fresh) ∧ value ≠ fresh := by
  have hboth : ((accented.load 5 (letter .utf8)).run (.start .empty)).bind (fun result =>
      ((accented.load 5 (letter .latin1)).run result.2).map
        fun again => again.1.toOption.map Value.text) = some (some "é") := by decide +kernel
  have hfresh : ((accented.load 5 (letter .latin1)).run (.start .empty)).map
      (fun result => result.1.toOption.map Value.text) = some (some "Ã©") := by decide +kernel
  obtain ⟨⟨outcome, session⟩, hrun, hagain⟩ := Option.bind_eq_some_iff.1 hboth
  obtain ⟨value, finish, hload, htext⟩ := run_of_text hagain
  obtain ⟨fresh, last, hfreshRun, hfreshText⟩ := run_of_text hfresh
  refine ⟨_, session, value, finish, fresh, .loaded .start hrun, hload, ?_, ?_⟩
  · rw [Workspace.importFresh?, hfreshRun]
    rfl
  · rintro rfl
    rw [htext] at hfreshText
    exact absurd hfreshText (by decide)

end ConfigNotation

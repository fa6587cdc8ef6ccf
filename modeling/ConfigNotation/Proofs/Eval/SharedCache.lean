import ConfigNotation.Proofs.Eval.History

/-!
A cache that evaluations leave behind, as another one starts with it. If every path is
read in one encoding, the other one gives what it gives with an empty cache: a file that
is cached does not import any of the files that are open, so that taking its value from
the cache hides no cycle.
-/

namespace ConfigNotation

open Relation Session

/-- The value of a text with a cache to start with, if a depth suffices for
it. -/
def Workspace.evaluateWith? (workspace : Workspace) (depth : Nat) (cache : ImportCache)
    (source : String) : Option (Except Failure Value) :=
  ((workspace.evaluateText depth source).run (.start cache)).map (·.1)

/-- A cache that was empty before some texts were evaluated with it, one after
another. -/
inductive Filled (workspace : Workspace) : List String → ImportCache → Prop where
  | empty : Filled workspace [] .empty
  | evaluated {earlier : List String} {cache : ImportCache} {depth : Nat} {source : String}
      {outcome : Except Failure Value} {finish : Session}
      (hbefore : Filled workspace earlier cache)
      (hrun : (workspace.evaluateText depth source).run (.start cache) = some (outcome, finish)) :
      Filled workspace (earlier ++ [source]) finish.cache

/-- All imports that name a path, in some texts and in the files that they import,
name it in one encoding. -/
def OneEncoding (workspace : Workspace) (texts : List String) : Prop :=
  ∀ text ∈ texts, ∀ other ∈ texts, ∀ file again, MayImport workspace text file →
    MayImport workspace other again → file.path = again.path → file.encoding = again.encoding

/-- References that are the only ones for their paths, and with a file those in
it. -/
structure Coherent (workspace : Workspace) (origin : Origin) (known : FileRef → Prop) :
    Prop where
  origin : ∀ file, known file → origin file.path.steps = file
  imports : ∀ file module, known file → workspace.moduleOf? file = some module →
    ∀ first ∈ module.imports, known first.source

def ImportsKnown (workspace : Workspace) (known : FileRef → Prop) (source : String) : Prop :=
  ∀ lexed module, workspace.parse source = .ok (lexed, module) →
    ∀ first ∈ module.imports, known first.source

/-- A file that all files need that are being evaluated. -/
def NeededBy (workspace : Workspace) (origin : Origin) (opened : List Path) (file : FileRef) :
    Prop :=
  ∀ path ∈ opened, TransGen (ImportsPath workspace origin) path.steps file.path.steps

section

variable {workspace : Workspace} {origin : Origin} {known : FileRef → Prop}

/-- If some texts name each file in one encoding, one choice of references fits
all imports that they can lead to. -/
theorem OneEncoding.coherent {texts : List String} (h : OneEncoding workspace texts) :
    ∃ origin, Coherent workspace origin
      (fun file => ∃ text ∈ texts, MayImport workspace text file) := by
  classical
  let reference (steps : List Step) (file : FileRef) : Prop :=
    file.path.steps = steps ∧ ∃ text ∈ texts, MayImport workspace text file
  let origin (steps : List Step) : FileRef :=
    if hfile : ∃ file, reference steps file then hfile.choose else ⟨⟨""⟩, .utf8⟩
  refine ⟨origin, ?_, ?_⟩
  · rintro file ⟨text, htext, hfile⟩
    have hsome : ∃ other, reference file.path.steps other := ⟨file, rfl, text, htext, hfile⟩
    have horigin : origin file.path.steps = hsome.choose := dif_pos hsome
    obtain ⟨hsteps, other, hother, hchosen⟩ := hsome.choose_spec
    have hpath : hsome.choose.path = file.path :=
      hchosen.isNormal.eq_of_steps hfile.isNormal hsteps
    have hencoding := h other hother text htext _ _ hchosen hfile hpath
    rw [horigin]
    exact FileRef.mk.injEq .. ▸ ⟨hpath, hencoding⟩
  · rintro file module ⟨text, htext, hfile⟩ hmodule first hfirst
    exact ⟨text, htext, hfile.nested hmodule hfirst⟩

namespace Coherent

variable (h : Coherent workspace origin known)

include h

theorem importsKnown {file : FileRef} {text : String} (hfile : known file)
    (htext : workspace.readText file = .ok text) :
    ImportsKnown workspace known text := fun lexed module hparse =>
  h.imports file module hfile (moduleOf?_eq_some.2 ⟨text, lexed, htext, hparse⟩)

theorem importsPath {file : FileRef} {text : String} {lexed : Lexed} {module : Module}
    {first : Import} (hfile : known file) (htext : workspace.readText file = .ok text)
    (hparse : workspace.parse text = .ok (lexed, module)) (hfirst : first ∈ module.imports) :
    ImportsPath workspace origin file.path.steps first.source.path.steps := by
  refine ⟨first.source, ⟨module, ?_, first, hfirst, rfl⟩, rfl⟩
  rw [h.origin file hfile]
  exact moduleOf?_eq_some.2 ⟨text, lexed, htext, hparse⟩

theorem known_of_importsFile {file : FileRef} {source : FileRef} (hfile : known file)
    (hsource : ImportsFile workspace origin file.path.steps source) :
    known source := by
  obtain ⟨module, hmodule, first, hfirst, rfl⟩ := hsource
  rw [h.origin file hfile] at hmodule
  exact h.imports file module hfile hmodule first hfirst

/-- A known reference reads its file as the reference does that decides for its
path: the two are the same. -/
theorem readsAlike {file : FileRef} (hfile : known file) : ReadsAlike workspace origin file :=
  congrArg workspace.readText (h.origin file hfile).symm

theorem importsAlike {file : FileRef} (hfile : known file) :
    ImportsAlike workspace origin file.path.steps := by
  intro reached hreached source hsource
  have hknown : ∃ last, known last ∧ last.path.steps = reached := by
    clear hsource
    induction hreached with
    | refl => exact ⟨file, hfile, rfl⟩
    | tail _ hlast ih =>
        obtain ⟨importer, himporter, rfl⟩ := ih
        obtain ⟨imported, himported, rfl⟩ := hlast
        exact ⟨imported, h.known_of_importsFile himporter himported, rfl⟩
  obtain ⟨last, hlast, rfl⟩ := hknown
  exact h.readsAlike (h.known_of_importsFile hlast hsource)

end Coherent

/-- The files that are open need what the innermost one of them imports. -/
theorem NeededBy.entered {session : Session} {file source : FileRef}
    (h : NeededBy workspace origin session.opened file)
    (himports : ImportsPath workspace origin file.path.steps source.path.steps) :
    NeededBy workspace origin (session.entered file.path).opened source := by
  intro path hpath
  rcases List.mem_append.1 hpath with hbefore | hself
  · exact (h path hbefore).tail himports
  · rw [List.mem_singleton.1 hself]
    exact .single himports

/-- A file with a value needs none of the files that need it. -/
theorem FileValue.needsNone {file : FileRef} {value : Value} {opened : List Path}
    (hvalue : FileValue workspace origin file.path.steps value)
    (hneeded : NeededBy workspace origin opened file) :
    NeedsNone workspace origin opened file.path.steps := by
  intro path hpath hreaches
  obtain ⟨last, hbefore, hlast⟩ := TransGen.tail'_iff.1 (hneeded path hpath)
  have hloop : TransGen (ImportsPath workspace origin) file.path.steps file.path.steps :=
    .tail' (hreaches.trans hbefore) hlast
  obtain ⟨first, hfirst, hback⟩ := TransGen.head'_iff.1 hloop
  exact hvalue.not_needed hfirst hback

/-- With known references, a step keeps the cache settled. -/
def Settling {ε α : Type} (workspace : Workspace) (origin : Origin) (loading : Loading ε α) :
    Prop :=
  ∀ session outcome finish, loading.run session = some (outcome, finish) →
    Settled workspace origin session.cache → Settled workspace origin finish.cache

theorem bindImports_settling {load : FileRef → Loading EvalError Value} {imports : List Import}
    (hload : ∀ first ∈ imports, Settling workspace origin (load first.source))
    (bindings : Record Value) :
    Settling workspace origin (Module.bindImports load bindings imports) := by
  induction imports generalizing bindings with
  | nil =>
      intro session outcome finish hrun hsettled
      cases hrun
      exact hsettled
  | cons first rest ih =>
      obtain ⟨hloadFirst, hloadRest⟩ := List.forall_mem_cons.1 hload
      intro session outcome finish hrun hsettled
      rcases bindImports_cons_run hrun with ⟨_, _, hfirst, _⟩ | ⟨_, middle, hfirst, hrest⟩
      · exact hloadFirst _ _ _ hfirst hsettled
      · exact ih hloadRest _ _ _ _ hrest (hloadFirst _ _ _ hfirst hsettled)

/-- Loading a known file keeps the cache settled if evaluating its text does. -/
theorem Coherent.loadWith_settling (h : Coherent workspace origin known) {depth : Nat}
    (htexts : ∀ source, ImportsKnown workspace known source →
      Settling workspace origin (workspace.evaluateText depth source))
    {file : FileRef} (hfile : known file) :
    Settling workspace origin (workspace.load depth file) := by
  intro session outcome finish hrun hsettled
  cases loads_of_run hrun with
  | cached _ => exact hsettled
  | cycle _ _ _ => exact hsettled
  | unread _ _ => exact hsettled
  | failed _ htext hinner =>
      have hkept := htexts _ (h.importsKnown hfile htext) _ _ _ hinner hsettled
      exact hkept
  | @loaded text value inner _ htext hinner =>
      have hkept := htexts _ (h.importsKnown hfile htext) _ _ _ hinner hsettled
      obtain ⟨after, _, hvalue⟩ := texts_progress workspace depth _ _ _ _ hinner origin hsettled
      obtain ⟨module, hmodule, hcached, hresult⟩ := hvalue value rfl
      refine hkept.insert ?_ hcached hresult
      rw [h.origin file hfile, Workspace.moduleOf?, htext]
      exact hmodule

/-- Evaluating a text whose imports are known keeps the cache settled, by
induction on the depth, together with loading. -/
theorem Coherent.evaluateText_settling (h : Coherent workspace origin known) (depth : Nat)
    {source : String} (himports : ImportsKnown workspace known source) :
    Settling workspace origin (workspace.evaluateText depth source) := by
  induction depth generalizing source with
  | zero => exact fun _ _ _ hrun => nomatch hrun
  | succ depth ih =>
      intro session outcome finish hrun hsettled
      cases evaluates_iff_run.1 hrun with
      | unparsed _ => exact hsettled
      | unregistered _ _ => exact hsettled
      | unbound hparse _ hbound | finished hparse _ hbound _ =>
          refine bindImports_settling (fun first hfirst => ?_) _ _ _ _ hbound hsettled
          exact h.loadWith_settling (fun _ => ih) (himports _ _ hparse first hfirst)

theorem Coherent.load_settling (h : Coherent workspace origin known) (depth : Nat)
    {file : FileRef} (hfile : known file) :
    Settling workspace origin (workspace.load depth file) :=
  h.loadWith_settling (fun _ => h.evaluateText_settling depth) hfile

/-- What was evaluated before knows nothing but values of files. -/
theorem Filled.settled {earlier : List String} {cache : ImportCache}
    (hfilled : Filled workspace earlier cache) (h : Coherent workspace origin known)
    (hknown : ∀ text ∈ earlier, ImportsKnown workspace known text) :
    Settled workspace origin cache := by
  induction hfilled with
  | empty => exact .empty workspace origin
  | evaluated _ hrun ih =>
      obtain ⟨hbefore, hlast⟩ := List.forall_mem_append.1 hknown
      rw [List.forall_mem_singleton] at hlast
      exact h.evaluateText_settling _ hlast _ _ _ hrun (ih hbefore)

/-- Two sessions that differ in nothing but the values of files that they
know. -/
structure Twins (workspace : Workspace) (origin : Origin) (session other : Session) : Prop where
  opened : session.opened = other.opened
  settled : Settled workspace origin session.cache
  others : Settled workspace origin other.cache

structure Callable (workspace : Workspace) (origin : Origin) (known : FileRef → Prop)
    (opened : List Path) (file : FileRef) : Prop where
  known : known file
  needed : NeededBy workspace origin opened file

/-- The files that a text imports can be called for while some files are open. -/
def CallsFrom (workspace : Workspace) (origin : Origin) (known : FileRef → Prop)
    (opened : List Path) (source : String) : Prop :=
  ∀ lexed module, workspace.parse source = .ok (lexed, module) →
    ∀ first ∈ module.imports, Callable workspace origin known opened first.source

/-- What comes out of a step in one session comes out of it in another one, if
it is allowed depth enough. -/
def Matched {ε α : Type} (family : Nat → Loading ε α) (depth : Nat) (session other : Session) :
    Prop :=
  ∀ outcome finish, (family depth).run session = some (outcome, finish) →
    ∃ more last, (family more).run other = some (outcome, last)

theorem Coherent.callsFrom (h : Coherent workspace origin known) {session : Session}
    {file : FileRef} {text : String} (hfile : Callable workspace origin known session.opened file)
    (htext : workspace.readText file = .ok text) :
    CallsFrom workspace origin known (session.entered file.path).opened text := by
  intro lexed module hparse first hfirst
  constructor
  · exact h.importsKnown hfile.known htext lexed module hparse first hfirst
  · exact hfile.needed.entered (h.importsPath hfile.known htext hparse hfirst)

/-- A file that is cached in one session is loaded in the other one. -/
theorem Coherent.load_of_cached (h : Coherent workspace origin known) {session other : Session}
    {file : FileRef} {value : Value} (hfile : Callable workspace origin known session.opened file)
    (htwins : Twins workspace origin session other)
    (hcached : other.cache.lookup file.path.steps = some value) :
    ∃ least finish, (workspace.load least file).run session = some (.ok value, finish) := by
  have hvalue := htwins.others.value _ _ hcached
  obtain ⟨least, hloads⟩ := hvalue.loadsAs (h.importsAlike hfile.known)
  obtain ⟨finish, hrun, _⟩ := hloads least (Nat.le_refl least) session htwins.settled.value
    (hvalue.needsNone hfile.needed) file rfl (h.readsAlike hfile.known)
  exact ⟨least, finish, hrun⟩

theorem Twins.symm {session other : Session} (h : Twins workspace origin session other) :
    Twins workspace origin other session :=
  ⟨h.opened.symm, h.others, h.settled⟩

theorem Twins.entered {session other : Session} (h : Twins workspace origin session other)
    (path : Path) :
    Twins workspace origin (session.entered path) (other.entered path) :=
  ⟨congrArg (· ++ [path]) h.opened, h.settled, h.others⟩

/-- In twin sessions a known file is loaded with the same outcome, whether it is
found in the cache of one of them or evaluated in both. -/
theorem Coherent.load_matched (h : Coherent workspace origin known) {depth : Nat}
    (htexts : ∀ source session other, CallsFrom workspace origin known session.opened source →
      Twins workspace origin session other →
      Matched (workspace.evaluateText · source) depth session other)
    {file : FileRef} {session other : Session}
    (hfile : Callable workspace origin known session.opened file)
    (htwins : Twins workspace origin session other) :
    Matched (workspace.load · file) depth session other := by
  intro outcome finish hrun
  cases hother : other.cache.lookup file.path.steps with
  | some value =>
      obtain ⟨least, last, hleast⟩ := h.load_of_cached hfile htwins hother
      have hsome := load_extends workspace (Nat.le_max_left depth least) file _ _ hrun
      rw [load_extends workspace (Nat.le_max_right depth least) file _ _ hleast] at hsome
      cases hsome
      exact ⟨0, other, run_of_loads (.cached hother)⟩
  | none =>
      have hlacks (hlacks : session.Lacks file.path) : other.Lacks file.path :=
        ⟨hother, htwins.opened ▸ hlacks.closed⟩
      cases loads_of_run hrun with
      | cached hcached =>
          exact h.load_of_cached ⟨hfile.known, htwins.opened ▸ hfile.needed⟩ htwins.symm hcached
      | cycle _ hopened hsame =>
          have hcycle : Loads workspace (workspace.evaluateText 0) file other _ other :=
            .cycle hother (htwins.opened ▸ hopened) hsame
          rw [← htwins.opened] at hcycle
          exact ⟨0, other, run_of_loads hcycle⟩
      | unread hnew htext => exact ⟨0, _, run_of_loads (.unread (hlacks hnew) htext)⟩
      | failed hnew htext hinner =>
          obtain ⟨more, last, hmore⟩ := htexts _ _ _ (h.callsFrom hfile htext)
            (htwins.entered file.path) _ _ hinner
          exact ⟨more, _, run_of_loads (.failed (hlacks hnew) htext hmore)⟩
      | loaded hnew htext hinner =>
          obtain ⟨more, last, hmore⟩ := htexts _ _ _ (h.callsFrom hfile htext)
            (htwins.entered file.path) _ _ hinner
          exact ⟨more, _, run_of_loads (.loaded (hlacks hnew) htext hmore)⟩

/-- Imports bind the same values in twin sessions, if each known file is loaded
with the same outcome. -/
theorem Coherent.bindImports_matched (h : Coherent workspace origin known) {depth : Nat}
    (hload : ∀ file session other, Callable workspace origin known session.opened file →
      Twins workspace origin session other → Matched (workspace.load · file) depth session other)
    {imports : List Import} (bindings : Record Value) {session other : Session}
    (hcalls : ∀ first ∈ imports, Callable workspace origin known session.opened first.source)
    (htwins : Twins workspace origin session other) :
    Matched (fun depth => Module.bindImports (workspace.load depth) bindings imports) depth
      session other := by
  induction imports generalizing bindings session other with
  | nil =>
      intro outcome finish hrun
      cases hrun
      exact ⟨0, other, rfl⟩
  | cons first rest ih =>
      obtain ⟨hcall, hcalls⟩ := List.forall_mem_cons.1 hcalls
      intro outcome finish hrun
      rw [bindImports_cons] at hrun
      cases hfirst : (workspace.load depth first.source).run session with
      | none =>
          rw [hfirst] at hrun
          cases hrun
      | some result =>
          obtain ⟨loaded, middle⟩ := result
          rw [hfirst] at hrun
          obtain ⟨more, next, hmore⟩ := hload _ _ _ hcall htwins _ _ hfirst
          cases loaded with
          | error error =>
              cases hrun
              refine ⟨more, next, (bindImports_cons _ _ _ _ _).trans ?_⟩
              rw [hmore]
          | ok value =>
              have hkeeps := load_keeping _ _ _ _ _ _ hfirst
              have hnext : Twins workspace origin middle next := by
                constructor
                · rw [hkeeps.opened, (load_keeping _ _ _ _ _ _ hmore).opened, htwins.opened]
                · exact h.load_settling depth hcall.known _ _ _ hfirst htwins.settled
                · exact h.load_settling more hcall.known _ _ _ hmore htwins.others
              obtain ⟨rest, last, hlast⟩ := ih (first.binding.bind bindings value)
                (hkeeps.opened ▸ hcalls) hnext _ _ hrun
              refine ⟨max more rest, last, (bindImports_cons _ _ _ _ _).trans ?_⟩
              rw [load_extends workspace (Nat.le_max_left more rest) _ _ _ hmore]
              have hrest := load_extends workspace (Nat.le_max_right more rest)
              exact bindImports_extends hrest _ _ _ _ hlast

/-- A text has the same outcome in twin sessions. The depths may differ, since a
cached value saves the depth that its file would take. -/
theorem Coherent.evaluateText_matched (h : Coherent workspace origin known) (depth : Nat)
    (source : String) (session other : Session)
    (hcalls : CallsFrom workspace origin known session.opened source)
    (htwins : Twins workspace origin session other) :
    Matched (workspace.evaluateText · source) depth session other := by
  induction depth generalizing source session other with
  | zero => exact fun _ _ hrun => nomatch hrun
  | succ depth ih =>
      have hload : ∀ file session other, Callable workspace origin known session.opened file →
          Twins workspace origin session other →
            Matched (workspace.load · file) depth session other :=
        fun _ _ _ hfile hpair => h.load_matched ih hfile hpair
      intro outcome finish hrun
      cases evaluates_iff_run.1 hrun with
      | unparsed hparse => exact ⟨1, other, evaluates_iff_run.2 (.unparsed hparse)⟩
      | unregistered hparse hclasses =>
          exact ⟨1, other, evaluates_iff_run.2 (.unregistered hparse hclasses)⟩
      | unbound hparse hclasses himports =>
          obtain ⟨more, last, hlast⟩ := h.bindImports_matched hload .empty
            (hcalls _ _ hparse) htwins _ _ himports
          exact ⟨more + 1, last, evaluates_iff_run.2 (.unbound hparse hclasses hlast)⟩
      | finished hparse hclasses himports hfinish =>
          obtain ⟨more, last, hlast⟩ := h.bindImports_matched hload .empty
            (hcalls _ _ hparse) htwins _ _ himports
          have hload := load_extends workspace (Nat.le_max_right depth more)
          have hbound := bindImports_extends hload _ _ _ _ hlast
          have hbody := Module.finish_extends (Nat.le_max_left depth more) _ _ _ _ _ hfinish
          exact ⟨max depth more + 1, last,
            evaluates_iff_run.2 (.finished hparse hclasses hbound hbody)⟩

end

/-- A text gives with the cache that other texts left behind what it gives with
an empty one, value or error, if each path is read in one encoding. -/
theorem shared_cache_is_transparent {workspace : Workspace} {earlier : List String}
    {cache : ImportCache} (source : String) (hfilled : Filled workspace earlier cache)
    (hsame : OneEncoding workspace (source :: earlier)) :
    ∃ least, ∀ depth, least ≤ depth →
      workspace.evaluateWith? depth cache source = workspace.evaluate? depth source := by
  obtain ⟨origin, hcoherent⟩ := hsame.coherent
  have hknown : ∀ text ∈ source :: earlier, ImportsKnown workspace
      (fun file => ∃ text ∈ source :: earlier, MayImport workspace text file) text :=
    fun text htext lexed module hparse first hfirst => ⟨text, htext, .statement hparse hfirst⟩
  obtain ⟨hsource, hearlier⟩ := List.forall_mem_cons.1 hknown
  have htwins : Twins workspace origin (.start cache) (.start .empty) :=
    ⟨rfl, hfilled.settled hcoherent hearlier, .empty workspace origin⟩
  have hmatched (depth : Nat) {session other : Session} (hopened : session.opened = [])
      (htwins : Twins workspace origin session other) :
      Matched (workspace.evaluateText · source) depth session other :=
    hcoherent.evaluateText_matched depth source session other
      (fun lexed module hparse first hfirst => ⟨hsource lexed module hparse first hfirst,
        hopened ▸ nofun⟩) htwins
  by_cases hends : ∃ depth result,
      (workspace.evaluateText depth source).run (.start cache) = some result
  · obtain ⟨depth, ⟨outcome, finish⟩, hrun⟩ := hends
    obtain ⟨more, last, hlast⟩ := hmatched depth rfl htwins _ _ hrun
    refine ⟨max depth more, fun deep hdeep => ?_⟩
    have hshared := evaluateText_extends workspace (Nat.le_trans (Nat.le_max_left depth more) hdeep)
      source _ _ hrun
    have hfresh := evaluateText_extends workspace (Nat.le_trans (Nat.le_max_right depth more) hdeep)
      source _ _ hlast
    rw [Workspace.evaluateWith?, Workspace.evaluate?, hshared, hfresh]
    rfl
  · refine ⟨0, fun depth _ => ?_⟩
    have hnone : ∀ depth, (workspace.evaluateText depth source).run (.start cache) = none :=
      fun depth => Option.eq_none_iff_forall_ne_some.2 fun result hrun =>
        hends ⟨depth, result, hrun⟩
    have hfresh : (workspace.evaluateText depth source).run (.start .empty) = none := by
      refine Option.eq_none_iff_forall_ne_some.2 fun ⟨outcome, finish⟩ hrun => ?_
      obtain ⟨more, last, hlast⟩ := hmatched depth rfl htwins.symm _ _ hrun
      rw [hnone more] at hlast
      cases hlast
    rw [Workspace.evaluateWith?, Workspace.evaluate?, hnone, hfresh]

theorem mayImport_letterText {file : FileRef} (h : MayImport accented letterText file) :
    file = letter .utf8 := by
  induction h with
  | statement hparse hfirst =>
      obtain ⟨lexed, module, first, hletter, _, himports, hsource⟩ := parse_letterText
      rw [hparse] at hletter
      cases hletter
      rw [himports] at hfirst
      rw [List.mem_singleton.1 hfirst, hsource]
  | nested _ hmodule hfirst ih =>
      rw [ih] at hmodule
      rw [imports_letter hmodule] at hfirst
      cases hfirst

/-- The same text twice: it fills the cache, and then the cache is used. -/
theorem shared_cache_is_transparent_letter :
    ∃ cache, Filled accented [letterText] cache ∧
      (cache.lookup (letter .utf8).path.steps).isSome ∧
      OneEncoding accented [letterText, letterText] ∧
      ∃ least, ∀ depth, least ≤ depth →
        accented.evaluateWith? depth cache letterText = accented.evaluate? depth letterText := by
  have hcached : (((accented.evaluateText 5 letterText).run (.start .empty)).map
      fun result => (result.2.cache.lookup (letter .utf8).path.steps).isSome) = some true := by
    decide +kernel
  have hsame : OneEncoding accented [letterText, letterText] := by
    intro text htext other hother file again hfile hagain _
    simp only [List.mem_cons, List.not_mem_nil, or_false, or_self] at htext hother
    subst htext hother
    rw [mayImport_letterText hfile, mayImport_letterText hagain]
  obtain ⟨⟨outcome, finish⟩, hrun, hletter⟩ := Option.map_eq_some_iff.1 hcached
  have hfilled : Filled accented [letterText] finish.cache := .evaluated .empty hrun
  exact ⟨finish.cache, hfilled, hletter, hsame,
    shared_cache_is_transparent letterText hfilled hsame⟩

end ConfigNotation

import Mathlib.Data.List.Perm.Subperm
import ConfigNotation.Proofs.Eval.Bookkeeping
import ConfigNotation.Proofs.Eval.Fields
import ConfigNotation.Proofs.Eval.Halting
import ConfigNotation.Proofs.Eval.References
import ConfigNotation.Proofs.Eval.Runs
import ConfigNotation.Proofs.Token.Strings

/-!
The evaluation of a text comes to an end, whatever files it imports. Files that import
each other do no harm: the files that are open are different ones, and all of them are
stored, so that imports are nested no deeper than there are files.
-/

namespace ConfigNotation

open Relation Session

/-- No class of a module needs itself for the defaults of its fields. -/
def Module.Acyclic (module : Module) : Prop :=
  ∀ classes, ClassTable.registerAll .empty module.classes = .ok classes → classes.Acyclic

/-- A step has a result in a session if depth enough is allowed. -/
def Ends {ε α : Type} (family : Nat → Loading ε α) (session : Session) : Prop :=
  ∃ outcome finish least, ∀ depth, least ≤ depth →
    (family depth).run session = some (outcome, finish)

/-- Files that are open at the same time: different ones, which are stored. -/
structure OpenIn (store : Store) (opened : List Path) : Prop where
  distinct : Distinct opened
  stored : ∀ path ∈ opened, path.steps ∈ store.files.map (·.1)

theorem OpenIn.length_le {store : Store} {opened : List Path} (h : OpenIn store opened) :
    opened.length ≤ store.files.length := by
  have hnodup : (opened.map (·.steps)).Nodup := List.pairwise_map.2 h.distinct
  have hsubset : opened.map (·.steps) ⊆ store.files.map (·.1) := List.forall_mem_map.2 h.stored
  simpa using (hnodup.subperm hsubset).length_le

theorem mem_of_lookup {α β : Type} [BEq α] [LawfulBEq α] {key : α} {entries : List (α × β)}
    {value : β} (h : entries.lookup key = some value) :
    key ∈ entries.map (·.1) := by
  obtain ⟨before, after, rfl, -⟩ := List.lookup_eq_some_iff.1 h
  simp

section

variable {config : Config} {store : Store} {explain : List Char → List Char → String}

/-- A file that can be read is stored. -/
theorem mem_of_readText {file : FileRef} {text : String} (hnormal : file.path.IsNormal)
    (h : (Workspace.mk config store.fileSystem explain).readText file = .ok text) :
    file.path.steps ∈ store.files.map (·.1) := by
  rw [hnormal.steps_eq]
  cases hfile : store.get? file.path with
  | some contents => exact mem_of_lookup hfile
  | none =>
      have hread : store.fileSystem.read file.path = .error s!"{file.path.text} not found" := by
        change store.read file.path = _
        rw [Store.read, hfile]
      rw [Workspace.readText, hread] at h
      cases h

end

section

variable {workspace : Workspace} {session : Session}

theorem Module.finish_halting (module : Module) (files : FileSystem) {classes : ClassTable}
    (h : classes.Acyclic) (imported : Record Value) :
    Halting fun depth => module.finish depth files classes imported := by
  have heval (bindings : Record Value) (expr : Expr) :
      Halting fun depth => Scope.eval ⟨classes, bindings, files⟩ depth expr .none :=
    Scope.haltsAt ⟨classes, bindings, files⟩ h expr .none
  have huses (bindings : Record Value) (uses : List Use) :
      Halting fun depth =>
        bindUses (fun bindings => Scope.eval ⟨classes, bindings, files⟩ depth) bindings uses := by
    induction uses generalizing bindings with
    | nil => exact .const rfl
    | cons first rest ih => exact ((heval bindings _).within _).bind fun value => ih _
  exact (huses imported module.uses).bind fun bindings => heval bindings module.body

theorem Module.bindImports_ends {imports : List Import}
    (h : ∀ first ∈ imports, ∀ other : Session, other.opened = session.opened →
      Ends (workspace.load · first.source) other) (bindings : Record Value) :
    Ends (fun depth => Module.bindImports (workspace.load depth) bindings imports) session := by
  induction imports generalizing bindings session with
  | nil => exact ⟨.ok bindings, session, 0, fun _ _ => rfl⟩
  | cons first rest ih =>
      obtain ⟨hfirst, hrest⟩ := List.forall_mem_cons.1 h
      obtain ⟨error | value, middle, least, hload⟩ := hfirst session rfl
      · refine ⟨.error (error.within first.span), middle, least, fun depth hdepth => ?_⟩
        exact (bindImports_cons ..).trans (by rw [hload depth hdepth])
      · have hopened := (load_keeping _ _ _ _ _ _ (hload least (Nat.le_refl least))).opened
        have hothers : ∀ first ∈ rest, ∀ other : Session, other.opened = middle.opened →
            Ends (workspace.load · first.source) other := hopened ▸ hrest
        obtain ⟨outcome, finish, more, hmore⟩ := ih hothers (first.binding.bind bindings value)
        refine ⟨outcome, finish, max least more, fun depth hdepth => ?_⟩
        refine (bindImports_cons ..).trans ?_
        rw [hload depth (by omega)]
        exact hmore depth (by omega)

/-- A text has an outcome if its imports can be loaded. -/
theorem evaluateText_ends {source : String}
    (hmodule : ∀ lexed module, workspace.parse source = .ok (lexed, module) → module.Acyclic)
    (hload : ∀ lexed module, workspace.parse source = .ok (lexed, module) →
      ∀ first ∈ module.imports, ∀ other : Session, other.opened = session.opened →
        Ends (workspace.load · first.source) other) :
    Ends (workspace.evaluateText · source) session := by
  -- a text takes depth one more than what it consists of
  suffices h : ∃ outcome finish least, ∀ depth, least ≤ depth →
      Evaluates workspace depth source session outcome finish by
    obtain ⟨outcome, finish, least, hleast⟩ := h
    refine ⟨outcome, finish, least + 1, fun depth hdepth => ?_⟩
    obtain ⟨depth, rfl⟩ := Nat.exists_eq_add_one.2 (by omega : 0 < depth)
    exact evaluates_iff_run.2 (hleast depth (by omega))
  cases hparse : workspace.parse source with
  | error failure => exact ⟨_, session, 0, fun _ _ => .unparsed hparse⟩
  | ok parsed =>
      obtain ⟨lexed, module⟩ := parsed
      cases hclasses : ClassTable.registerAll .empty module.classes with
      | error error => exact ⟨_, session, 0, fun _ _ => .unregistered hparse hclasses⟩
      | ok classes =>
          obtain ⟨error | bound, finish, least, himports⟩ :=
            Module.bindImports_ends (hload lexed module hparse) .empty
          · exact ⟨_, finish, least, fun depth hdepth =>
              .unbound hparse hclasses (himports depth hdepth)⟩
          · obtain ⟨result, more, hfinish⟩ :=
              module.finish_halting workspace.files (hmodule _ _ hparse classes hclasses) bound
            exact ⟨_, finish, max least more, fun depth hdepth =>
              .finished hparse hclasses (himports depth (by omega)) (hfinish depth (by omega))⟩

/-- A file can be loaded if its text has an outcome when it is entered. -/
theorem load_ends {file : FileRef}
    (htext : session.Lacks file.path → ∀ text, workspace.readText file = .ok text →
      Ends (workspace.evaluateText · text) (session.entered file.path)) :
    Ends (workspace.load · file) session := by
  cases hcached : session.cache.lookup file.path.steps with
  | some value => exact ⟨.ok value, session, 0, fun _ _ => run_of_loads (.cached hcached)⟩
  | none =>
      by_cases hopened : ∃ other ∈ session.opened, other.steps = file.path.steps
      · obtain ⟨other, hother, hsame⟩ := hopened
        exact ⟨_, session, 0, fun _ _ => run_of_loads (.cycle hcached hother hsame)⟩
      · have hlacks : session.Lacks file.path :=
          ⟨hcached, fun other hother hsame => hopened ⟨other, hother, hsame⟩⟩
        cases hread : workspace.readText file with
        | error error => exact ⟨_, _, 0, fun _ _ => run_of_loads (.unread hlacks hread)⟩
        | ok text =>
            obtain ⟨error | value, inner, least, hrun⟩ := htext hlacks text hread
            · exact ⟨_, _, least, fun depth hdepth =>
                run_of_loads (.failed hlacks hread (hrun depth hdepth))⟩
            · exact ⟨_, _, least, fun depth hdepth =>
                run_of_loads (.loaded hlacks hread (hrun depth hdepth))⟩

end

section

variable {config : Config} {store : Store} {explain : List Char → List Char → String}

/-- What is left to be opened gets less from file to file. -/
theorem evaluateText_ends_of_room (room : Nat) (known : FileRef → Prop)
    (hnormal : ∀ file, known file → file.path.IsNormal)
    (hknown : ∀ file module, known file →
      (Workspace.mk config store.fileSystem explain).moduleOf? file = some module →
        module.Acyclic ∧ ∀ first ∈ module.imports, known first.source)
    {source : String} {session : Session} (hopen : OpenIn store session.opened)
    (hroom : store.files.length < session.opened.length + room)
    (hsource : ∀ lexed module,
      (Workspace.mk config store.fileSystem explain).parse source = .ok (lexed, module) →
        module.Acyclic ∧ ∀ first ∈ module.imports, known first.source) :
    Ends ((Workspace.mk config store.fileSystem explain).evaluateText · source) session := by
  induction room generalizing source session with
  | zero =>
      have hlength := hopen.length_le
      omega
  | succ room ih =>
      refine evaluateText_ends (fun lexed module hparse => (hsource lexed module hparse).1) ?_
      intro lexed module hparse first hfirst other hother
      have hfile := (hsource lexed module hparse).2 first hfirst
      refine load_ends fun hlacks text htext => ?_
      rw [← hother] at hopen hroom
      refine ih ⟨hopen.distinct.concat hlacks.closed, ?_⟩ ?_ ?_
      · refine List.forall_mem_append.2 ⟨hopen.stored, List.forall_mem_singleton.2 ?_⟩
        exact mem_of_readText (hnormal _ hfile) htext
      · rw [entered, enter, List.length_append, List.length_singleton]
        change _ < other.opened.length + 1 + room
        omega
      · intro inner below hbelow
        exact hknown _ below hfile (moduleOf?_eq_some.2 ⟨text, inner, htext, hbelow⟩)

/-- The evaluation of a text ends in a value or an error, with any cache to start
with, if no class needs itself in the text and in the files that it can import. -/
theorem evaluation_terminates (config : Config) (store : Store)
    (explain : List Char → List Char → String) (cache : ImportCache) (source : String)
    (hsource : ∀ lexed module,
      (Workspace.mk config store.fileSystem explain).parse source = .ok (lexed, module) →
        module.Acyclic)
    (himported : ∀ file module, MayImport ⟨config, store.fileSystem, explain⟩ source file →
      (Workspace.mk config store.fileSystem explain).moduleOf? file = some module →
        module.Acyclic) :
    ∃ outcome finish least, ∀ depth, least ≤ depth →
      ((Workspace.mk config store.fileSystem explain).evaluateText depth source).run (.start cache) =
        some (outcome, finish) := by
  refine evaluateText_ends_of_room (store.files.length + 1)
    (MayImport ⟨config, store.fileSystem, explain⟩ source) (fun _ => MayImport.isNormal) ?_
    ⟨.nil, nofun⟩ ?_ ?_
  · intro file module hfile hmodule
    exact ⟨himported file module hfile hmodule, fun _ => hfile.nested hmodule⟩
  · rw [start, List.length_nil]
    omega
  · intro lexed module hparse
    exact ⟨hsource lexed module hparse, fun _ => .statement hparse⟩

end

/-- Declarations of different classes, with defaults that make instances of
classes declared earlier only. -/
inductive DeclaredInOrder : List String → List ClassDecl → Prop where
  | nil {known : List String} : DeclaredInOrder known []
  | cons {known : List String} {decl : ClassDecl} {rest : List ClassDecl}
      (hfresh : decl.name ∉ known)
      (hdefaults : ∀ field ∈ decl.fields, ∀ default ∈ field.default, ∀ used,
        default.Involves used → used ∈ known)
      (hrest : DeclaredInOrder (decl.name :: known) rest) :
      DeclaredInOrder known (decl :: rest)

namespace ClassTable

variable {classes more : ClassTable} {decl : ClassDecl} {known : List String}

/-- One more class needs what its own defaults make instances of, and what the
classes need that it has fields of. -/
theorem needs_register (h : classes.register decl = .ok more)
    (hdefaults : ∀ field ∈ decl.fields, ∀ default ∈ field.default, ∀ used,
      default.Involves used → used ∈ known)
    (hneeds : ∀ user used, classes.Needs user used → used ∈ known) {user used : String}
    (hneed : more.Needs user used) :
    used ∈ known ∧ (user = decl.name ∨ classes.Needs user used) := by
  obtain ⟨added, hadded, heq⟩ := bind_eq_ok.1 h
  cases heq
  obtain ⟨cls, hcls, field, hfield, default, hdefault, hinvolves⟩ := hneed
  rw [Record.get?_insert] at hcls
  split at hcls
  · next hname =>
    cases hcls
    refine ⟨?_, .inl hname⟩
    rcases mem_fields_of_resolve hadded hfield with hown | ⟨parent, found, hparent, hinherited⟩
    · exact hdefaults field hown default hdefault used hinvolves
    · exact hneeds parent used ⟨found, hparent, field, hinherited, default, hdefault, hinvolves⟩
  · have hold : classes.Needs user used := ⟨cls, hcls, field, hfield, default, hdefault, hinvolves⟩
    exact ⟨hneeds user used hold, .inr hold⟩

/-- A class that needs only known ones is on no way from a class to itself. -/
theorem Acyclic.register (hacyclic : classes.Acyclic) (h : classes.register decl = .ok more)
    (hfresh : decl.name ∉ known)
    (hdefaults : ∀ field ∈ decl.fields, ∀ default ∈ field.default, ∀ used,
      default.Involves used → used ∈ known)
    (hneeds : ∀ user used, classes.Needs user used → used ∈ known) :
    more.Acyclic := by
  have hstep {user used : String} (hneed : more.Needs user used) :=
    needs_register h hdefaults hneeds hneed
  have hold {user used : String} (hknown : user ∈ known) (hneed : more.Needs user used) :
      classes.Needs user used :=
    (hstep hneed).2.resolve_left fun hname => hfresh (hname ▸ hknown)
  have hway {first last : String} (hfirst : first ∈ known)
      (hneed : TransGen more.Needs first last) :
      TransGen classes.Needs first last := by
    induction hneed with
    | single hneed => exact .single (hold hfirst hneed)
    | @tail middle last hbefore hneed ih =>
        obtain ⟨_, _, hmiddle⟩ := TransGen.tail'_iff.1 hbefore
        exact ih.tail (hold (hstep hmiddle).1 hneed)
  intro name hself
  obtain ⟨_, _, hlast⟩ := TransGen.tail'_iff.1 hself
  exact hacyclic name (hway (hstep hlast).1 hself)

theorem Acyclic.registerAll {decls : List ClassDecl} (hacyclic : classes.Acyclic)
    (hneeds : ∀ user used, classes.Needs user used → used ∈ known)
    (hdecls : DeclaredInOrder known decls) (h : classes.registerAll decls = .ok more) :
    more.Acyclic := by
  induction hdecls generalizing classes with
  | nil =>
      cases h
      exact hacyclic
  | @cons known decl rest hfresh hdefaults _ ih =>
      rw [registerAll_cons] at h
      cases hregister : classes.register decl with
      | error error =>
          rw [hregister] at h
          cases h
      | ok next =>
          rw [hregister] at h
          refine ih (hacyclic.register hregister hfresh hdefaults hneeds) ?_ h
          intro user used hneed
          exact List.mem_cons_of_mem _ (needs_register hregister hdefaults hneeds hneed).1

end ClassTable

/-- Where classes are declared in front of those that make instances of them,
no class needs itself. -/
theorem Module.Acyclic.of_declaredInOrder {module : Module}
    (h : DeclaredInOrder [] module.classes) :
    module.Acyclic := by
  have hnone (user used : String) : ¬ClassTable.Needs .empty user used := by
    rintro ⟨cls, hcls, _⟩
    cases hcls
  intro classes hclasses
  refine ClassTable.Acyclic.registerAll ?_ (fun user used hneed => ?_) h hclasses
  · intro name hself
    obtain ⟨used, hneed, _⟩ := TransGen.head'_iff.1 hself
    exact hnone name used hneed
  · exact absurd hneed (hnone user used)

/-- The class of an instance without members. -/
def Expr.bareInstance? : Expr → Option String
  | .classInstance _ className ⟨_, []⟩ => some className
  | _ => none

theorem Expr.involves_bareInstance {expr : Expr} {className used : String}
    (h : expr.bareInstance? = some className) :
    expr.Involves used ↔ used = className := by
  cases expr with
  | classInstance span name body =>
      obtain ⟨kind, members⟩ := body
      cases members with
      | cons => cases h
      | nil =>
          cases h
          constructor
          · rintro ⟨part, hpart, hname⟩
            rcases hpart.cases_head with rfl | ⟨inner, hinner, _⟩
            · exact (Option.some.inj hname).symm
            · cases hinner
          · rintro rfl
            exact ⟨_, .refl, rfl⟩
  | _ => cases h

/-- A text that imports the file in which it stands, with a class that has
an instance of another one as a default. -/
def panelText : String :=
  "import \"a\".utf8 as a; class Lamp [@on: boolean;]; " ++
    "class Panel [@lamp: Lamp => Lamp [];]; export a;"

def panels : Workspace where
  config := .new ⟨"/"⟩
  files := (Store.empty.insert ⟨"/a"⟩
    (.bytes (panelText.toList.map fun c => .ofNat c.toNat))).fileSystem
  explain _ _ := ""

theorem readText_panels : panels.readText loopFile = .ok panelText :=
  eq_ok_of_toOption (by decide +kernel)

/-- Of the default of a field, the class that it is a bare instance of. -/
def Field.bareDefault? (field : Field TypeExpr) : Option (Option String) :=
  field.default.map Expr.bareInstance?

theorem involves_bareDefault {field : Field TypeExpr} {default : Expr} {className used : String}
    (hfield : field.bareDefault? = some (some className)) (hdefault : default ∈ field.default) :
    default.Involves used ↔ used = className := by
  rw [Field.bareDefault?, Option.mem_def.1 hdefault] at hfield
  exact Expr.involves_bareInstance (Option.some.inj hfield)

/-- Classes with these names and defaults are declared in order. -/
theorem declaredInOrder_panels {decls : List ClassDecl}
    (h : decls.map (fun decl => (decl.name, decl.fields.map Field.bareDefault?)) =
      [("Lamp", [none]), ("Panel", [some (some "Lamp")])]) :
    DeclaredInOrder [] decls := by
  obtain ⟨lamp, others, rfl, hlamp, hothers⟩ := List.map_eq_cons_iff.1 h
  obtain ⟨panel, rfl, hpanel⟩ := List.map_eq_singleton_iff.1 hothers
  obtain ⟨hname, hnone⟩ := Prod.mk.inj hlamp
  obtain ⟨hother, hsome⟩ := Prod.mk.inj hpanel
  obtain ⟨empty, hempty, hlacks⟩ := List.map_eq_singleton_iff.1 hnone
  obtain ⟨given, hgiven, hbare⟩ := List.map_eq_singleton_iff.1 hsome
  refine .cons List.not_mem_nil ?_ (.cons ?_ ?_ .nil)
  · rw [hempty, List.forall_mem_singleton]
    intro default hdefault
    rw [Field.bareDefault?, Option.mem_def.1 hdefault] at hlacks
    cases hlacks
  · rw [hname, hother]
    decide
  · rw [hgiven, List.forall_mem_singleton, hname]
    intro default hdefault used hused
    exact List.mem_singleton.2 ((involves_bareDefault hbare hdefault).1 hused)

/-- A class whose only default is a bare instance of another one needs it. -/
theorem ClassTable.needs_of_bareDefault {classes : ClassTable} {user used : String}
    (h : (classes.get? user).map (·.fields.values.map Field.bareDefault?) =
      some [some (some used)]) :
    classes.Needs user used := by
  obtain ⟨cls, hget, hfields⟩ := Option.map_eq_some_iff.1 h
  obtain ⟨field, hfield, hbare⟩ := List.map_eq_singleton_iff.1 hfields
  obtain ⟨default, hdefault, _⟩ := Option.map_eq_some_iff.1 hbare
  refine ⟨cls, hget, field, ?_, default, hdefault, (involves_bareDefault hbare hdefault).2 rfl⟩
  rw [hfield]
  exact List.mem_singleton_self field

/-- What counts of the text: what it imports, and the defaults of its classes. -/
theorem parse_panels :
    ∃ lexed module, panels.parse panelText = .ok (lexed, module) ∧
      module.imports.map (·.source) = [loopFile] ∧ DeclaredInOrder [] module.classes ∧
      ∃ classes, ClassTable.registerAll .empty module.classes = .ok classes ∧
        classes.Needs "Panel" "Lamp" := by
  have himports : (panels.parse panelText).toOption.map
      (fun parsed => parsed.2.imports.map (·.source)) = some [loopFile] := by decide +kernel
  have hclasses : (panels.parse panelText).toOption.map
      (fun parsed => parsed.2.classes.map fun decl =>
        (decl.name, decl.fields.map Field.bareDefault?)) =
      some [("Lamp", [none]), ("Panel", [some (some "Lamp")])] := by decide +kernel
  have htable : ((panels.parse panelText).toOption.bind
      (fun parsed => (ClassTable.registerAll .empty parsed.2.classes).toOption)).bind
        (fun classes => (classes.get? "Panel").map (·.fields.values.map Field.bareDefault?)) =
      some [some (some "Lamp")] := by decide +kernel
  cases hparse : panels.parse panelText with
  | error failure =>
      rw [hparse] at himports
      cases himports
  | ok parsed =>
      rw [hparse] at himports hclasses htable
      obtain ⟨classes, hregister, hpanel⟩ := Option.bind_eq_some_iff.1 htable
      exact ⟨parsed.1, parsed.2, rfl, Option.some.inj himports,
        declaredInOrder_panels (Option.some.inj hclasses), classes,
        eq_ok_of_toOption hregister, ClassTable.needs_of_bareDefault hpanel⟩

/-- A text that imports itself is evaluated, to an error. One of its classes
needs another. -/
theorem evaluation_terminates_loop :
    (∃ lexed module classes, panels.parse panelText = .ok (lexed, module) ∧
      ClassTable.registerAll .empty module.classes = .ok classes ∧
        classes.Needs "Panel" "Lamp") ∧
      (∀ lexed module, panels.parse panelText = .ok (lexed, module) → module.Acyclic) ∧
      MayImport panels panelText loopFile ∧
      (∀ file module, MayImport panels panelText file → panels.moduleOf? file = some module →
        module.Acyclic) ∧
      ∃ outcome finish least, ∀ depth, least ≤ depth →
        (panels.evaluateText depth panelText).run (.start .empty) = some (outcome, finish) := by
  obtain ⟨lexed, module, hparse, himports, hclasses, classes, htable, hneeds⟩ := parse_panels
  have hsource : ∀ other found, panels.parse panelText = .ok (other, found) → found.Acyclic := by
    intro other found hfound
    rw [hparse] at hfound
    cases hfound
    exact .of_declaredInOrder hclasses
  have honly : ∀ other found, panels.parse panelText = .ok (other, found) →
      ∀ first ∈ found.imports, first.source = loopFile := by
    intro other found hfound first hfirst
    rw [hparse] at hfound
    cases hfound
    have hmember := List.mem_map_of_mem (f := (·.source)) hfirst
    rw [himports] at hmember
    exact List.mem_singleton.1 hmember
  have hfile : ∀ file, MayImport panels panelText file → file = loopFile := by
    intro file hfile
    induction hfile with
    | statement hfound hfirst => exact honly _ _ hfound _ hfirst
    | nested _ hmodule hfirst ih =>
        obtain ⟨text, other, htext, hfound⟩ := moduleOf?_eq_some.1 hmodule
        rw [ih, readText_panels] at htext
        cases htext
        exact honly _ _ hfound _ hfirst
  have himported : ∀ file module, MayImport panels panelText file →
      panels.moduleOf? file = some module → module.Acyclic := by
    intro file module hmay hmodule
    obtain ⟨text, other, htext, hfound⟩ := moduleOf?_eq_some.1 hmodule
    rw [hfile file hmay, readText_panels] at htext
    cases htext
    exact hsource _ _ hfound
  obtain ⟨first, hfirst, hsame⟩ := List.map_eq_singleton_iff.1 himports
  have hmay : MayImport panels panelText first.source :=
    .statement hparse (hfirst ▸ List.mem_singleton_self first)
  exact ⟨⟨lexed, module, classes, hparse, htable, hneeds⟩, hsource, hsame ▸ hmay, himported,
    evaluation_terminates (.new ⟨"/"⟩) _ _ .empty panelText hsource himported⟩

end ConfigNotation

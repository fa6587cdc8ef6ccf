import ConfigNotation.Proofs.Eval.Gives
import ConfigNotation.Proofs.Eval.References
import ConfigNotation.Proofs.Eval.Runs

/-!
The values of texts are sound, and so are the values of files that a session comes to know:
what a text is evaluated to has keys that are identifiers and regular expressions that stand
in literals, whichever files it imports.
-/

namespace ConfigNotation

theorem Record.BindsSound.bind {bindings : Record Value} (h : bindings.BindsSound)
    {value : Value} (hvalue : value.Sound) (binding : Binding) :
    (binding.bind bindings value).BindsSound := by
  cases binding with
  | name bound => exact h.insert bound hvalue
  | pattern leaves =>
      rw [Binding.bind]
      induction leaves generalizing bindings with
      | nil => exact h
      | cons leaf rest ih => exact ih (h.insert leaf.name (hvalue.follow trivial leaf.path))

namespace Module

variable {classes : ClassTable} {files : FileSystem}

theorem bindUses_gives (hclasses : classes.FieldsAre Field.Sound) (depth : Nat) {uses : List Use}
    (huses : ∀ statement ∈ uses, statement.value.Sound) {bindings : Record Value}
    (hbindings : bindings.BindsSound) :
    Gives Record.BindsSound
      (bindUses (fun bindings => Scope.eval ⟨classes, bindings, files⟩ depth) bindings uses) := by
  induction uses generalizing bindings with
  | nil => exact .pure hbindings
  | cons first rest ih =>
      obtain ⟨hfirst, hrest⟩ := List.forall_mem_cons.1 huses
      have hvalue := Scope.eval_gives ⟨classes, bindings, files⟩ ⟨hclasses, hbindings⟩ depth
        first.value .none hfirst Ambient.sound_none
      exact (hvalue.within first.span).bind fun value hvalue =>
        ih hrest (hbindings.bind hvalue first.binding)

theorem finish_gives {module : Module} (hmodule : module.Sound)
    (hclasses : classes.FieldsAre Field.Sound) (depth : Nat) {imported : Record Value}
    (himported : imported.BindsSound) :
    Gives Value.Sound (module.finish depth files classes imported) := by
  refine (bindUses_gives hclasses depth hmodule.uses himported).bind fun bindings hbindings => ?_
  exact Scope.eval_gives ⟨classes, bindings, files⟩ ⟨hclasses, hbindings⟩ depth module.body .none
    hmodule.body Ambient.sound_none

end Module

def Session.Sound (session : Session) : Prop :=
  ∀ steps value, session.cache.lookup steps = some value → value.Sound

theorem Session.sound_start_empty : (Session.start .empty).Sound := nofun

theorem Session.Sound.remember {session : Session} (h : session.Sound) (path : Path)
    {value : Value} (hvalue : value.Sound) : (session.remember path value).Sound := by
  intro steps found hfound
  rw [Session.remember, ImportCache.lookup_insert] at hfound
  split at hfound
  · cases hfound
    exact hvalue
  · exact h steps found hfound

/-- A step that keeps sessions sound, and comes to some sort of things in
them. -/
def Loading.Gives {ε α : Type} (sort : α → Prop) (loading : Loading ε α) : Prop :=
  ∀ session outcome finish, loading.run session = some (outcome, finish) → session.Sound →
    finish.Sound ∧ ∀ value, outcome = .ok value → sort value

section

variable {workspace : Workspace}

theorem loadWith_gives {evaluate : String → Loading Failure Value}
    (hevaluate : ∀ text, (evaluate text).Gives Value.Sound) (file : FileRef) :
    (workspace.loadWith evaluate file).Gives Value.Sound := by
  intro session outcome finish hrun hsession
  cases loads_of_run hrun with
  | cached hcached =>
      refine ⟨hsession, ?_⟩
      rintro _ ⟨⟩
      exact hsession _ _ hcached
  | cycle _ _ _ => exact ⟨hsession, nofun⟩
  | unread _ _ => exact ⟨hsession, nofun⟩
  | failed _ _ hinner => exact ⟨(hevaluate _ _ _ _ hinner hsession).1, nofun⟩
  | loaded _ _ hinner =>
      obtain ⟨hkept, hvalue⟩ := hevaluate _ _ _ _ hinner hsession
      refine ⟨Session.Sound.remember hkept file.path (hvalue _ rfl), ?_⟩
      rintro _ ⟨⟩
      exact hvalue _ rfl

theorem bindImports_gives {load : FileRef → Loading EvalError Value}
    (hload : ∀ file, (load file).Gives Value.Sound) {bindings : Record Value}
    (hbindings : bindings.BindsSound) (imports : List Import) :
    (Module.bindImports load bindings imports).Gives Record.BindsSound := by
  induction imports generalizing bindings with
  | nil =>
      intro session outcome finish hrun hsession
      cases hrun
      refine ⟨hsession, ?_⟩
      rintro _ ⟨⟩
      exact hbindings
  | cons first rest ih =>
      intro session outcome finish hrun hsession
      rcases bindImports_cons_run hrun with ⟨_, _, hfirst, rfl⟩ | ⟨value, middle, hfirst, hrest⟩
      · exact ⟨(hload _ _ _ _ hfirst hsession).1, nofun⟩
      · obtain ⟨hkept, hvalue⟩ := hload _ _ _ _ hfirst hsession
        exact ih (hbindings.bind (hvalue value rfl) first.binding) _ _ _ hrest hkept

/-- A module that is read from a text brings nothing but sound things into
values. -/
theorem Workspace.sound_of_parse {source : String} {lexed : Lexed} {module : Module}
    (h : workspace.parse source = .ok (lexed, module)) : module.Sound := by
  obtain ⟨hlex, hmodule⟩ := Workspace.parse_eq_ok.1 h
  have hform := (Module.ofTokens_eq_ok_iff.1 hmodule).formedIn
  exact (hform.mono (List.takeWhile_subset _)).sound (lex_matched hlex)

/-- A text comes to a sound value. -/
theorem evaluateText_gives (workspace : Workspace) (depth : Nat) (source : String) :
    (workspace.evaluateText depth source).Gives Value.Sound := by
  induction depth generalizing source with
  | zero => exact fun _ _ _ hrun => nomatch hrun
  | succ depth ih =>
      intro session outcome finish hrun hsession
      have himported (imports : List Import) :
          (Module.bindImports (workspace.load depth) .empty imports).Gives Record.BindsSound :=
        bindImports_gives (loadWith_gives ih) Record.bindsSound_empty imports
      cases evaluates_iff_run.1 hrun with
      | unparsed _ => exact ⟨hsession, nofun⟩
      | unregistered _ _ => exact ⟨hsession, nofun⟩
      | unbound _ _ himports => exact ⟨(himported _ _ _ _ himports hsession).1, nofun⟩
      | @finished lexed module classes bound result finish hparse hclasses himports hfinish =>
          obtain ⟨hkept, hbound⟩ := himported _ _ _ _ himports hsession
          refine ⟨hkept, fun value hvalue => ?_⟩
          have hmodule := Workspace.sound_of_parse hparse
          have hempty : ClassTable.FieldsAre Field.Sound .empty := nofun
          have htable := hempty.registerAll hmodule.classes hclasses
          cases result with
          | error error => cases hvalue
          | ok found =>
              cases hvalue
              exact Module.finish_gives hmodule htable depth (hbound bound rfl) _ hfinish

/-- What a text is evaluated to with an empty cache is sound. -/
theorem Workspace.sound_of_evaluate? {depth : Nat} {source : String} {value : Value}
    (h : workspace.evaluate? depth source = some (.ok value)) : value.Sound := by
  obtain ⟨⟨outcome, finish⟩, hrun, heq⟩ := Option.map_eq_some_iff.1 h
  exact (evaluateText_gives workspace depth source _ _ _ hrun Session.sound_start_empty).2 value heq

end

end ConfigNotation

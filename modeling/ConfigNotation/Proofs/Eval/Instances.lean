import ConfigNotation.Proofs.Eval.Conformance
import ConfigNotation.Proofs.Eval.Constructors
import ConfigNotation.Proofs.Eval.Validators

/-!
What a class makes is an instance of it. A call and a body give the fields of an
instance in two ways, but both put a value into it only after a check, and leave a field
out only if it is optional; so the instance passes wherever its class is asked for.
-/

namespace ConfigNotation

open Evaluation

namespace Class

variable {cls : Class} {classes : ClassTable}

section

variable {chooses : Field TypeExpr → Except EvalError (Option Value) → Prop}

/-- If only optional fields are left out, what is built has the shape of
its class. -/
theorem Builds.conforms {className : String} {fields : List (Field TypeExpr)}
    {record : Record Value} (h : Builds chooses classes className fields record.entries)
    (hdistinct : (fields.map (·.name)).Nodup)
    (hskip : ∀ field, chooses field (.ok none) → field.optional = true) :
    Conforms classes (.object record) (.object fields) := by
  refine conforms_object_iff.2 ⟨fun field hfield => ⟨?_, ?_⟩, ?_⟩
  · intro hrequired _
    have hgets := h.gets hdistinct hfield
    rw [Record.contains, Record.get?]
    cases hfound : Record.lookup field.name record.entries with
    | some value => rfl
    | none =>
        rw [hfound] at hgets
        rw [hskip field hgets.choice] at hrequired
        cases hrequired
  · intro value hvalue
    exact (value.checkDecides classes field.type _).1 ((h.gets hdistinct hfield).check value hvalue)
  · intro key hkey
    obtain ⟨field, hfield, rfl⟩ := List.mem_map.1 (h.keys_sublist.subset hkey)
    exact ⟨field, hfield, rfl⟩

end

section

variable {eval : Evaluator} {ambient : Ambient}

/-- A call gives a record with the shape of its class. -/
theorem construct_conforms (hcls : cls.WellFormed) {arguments : List (Argument Expr)}
    {value : Value}
    (h : (cls.construct eval ambient classes arguments).run = some (.ok value)) :
    ∃ record, value = .object record ∧
      Conforms classes (.object record) (.object cls.fields.values) := by
  obtain ⟨_, record, rfl, -, hfields⟩ := hcls.construct_eq_ok_iff.1 h
  refine ⟨record, rfl, hfields.conforms hcls.names ?_⟩
  intro field hnone
  cases hnone with
  | skipped _ _ hoptional => exact hoptional
  | omitted _ hoptional => exact hoptional

/-- A body gives a record with the shape of its class. -/
theorem instantiate_conforms (hcls : cls.WellFormed) {body : Container Expr} {value : Value}
    (h : (cls.instantiate eval ambient classes body).run = some (.ok value)) :
    ∃ record, value = .object record ∧
      Conforms classes (.object record) (.object cls.fields.values) := by
  obtain ⟨_, record, rfl, -, hfields, -⟩ := hcls.instantiate_eq_ok_iff.1 h
  refine ⟨record, rfl, hfields.conforms hcls.names ?_⟩
  intro field hnone
  cases hnone with
  | omitted _ _ hoptional => exact hoptional

end

end Class

/-- Expressions that make an instance of a class: a call of it, or a body behind
its name. -/
inductive Expr.Instantiates (className : String) : Expr → Prop where
  | call (span : Span) (arguments : List (Argument Expr)) :
      Instantiates className (.call span className arguments)
  | body (span : Span) (body : Container Expr) :
      Instantiates className (.classInstance span className body)

namespace Scope

variable {scope : Scope}

theorem findClass_eq_ok {name : String} {cls : Class}
    (h : (scope.findClass name).run = some (.ok cls)) :
    scope.classes.get? name = some cls := by
  rw [findClass] at h
  cases hfound : scope.classes.get? name with
  | none =>
      rw [hfound] at h
      cases h
  | some found =>
      rw [hfound] at h
      cases h
      rfl

/-- An instance has the shape of the class with its name. -/
theorem evalParts_instance {eval : Evaluator} {ambient : Ambient} {expr : Expr}
    {className : String} {value : Value} (hclasses : scope.classes.WellFormed)
    (hexpr : expr.Instantiates className)
    (h : (scope.evalParts eval ambient expr).run = some (.ok value)) :
    ∃ record cls, value = .object record ∧ scope.classes.get? className = some cls ∧
      Conforms scope.classes (.object record) (.object cls.fields.values) := by
  cases hexpr with
  | call span arguments =>
      rw [evalParts] at h
      obtain ⟨cls, hcls, hvalue⟩ := run_bind_eq_ok.1 h
      have hfound := findClass_eq_ok hcls
      split at hvalue
      · obtain ⟨record, hrecord, hconforms⟩ :=
          Class.construct_conforms (hclasses className cls hfound) hvalue
        exact ⟨record, cls, hrecord, hfound, hconforms⟩
      · exact absurd hvalue run_fail_ne_ok
  | body span body =>
      rw [evalParts] at h
      obtain ⟨cls, hcls, hvalue⟩ := run_bind_eq_ok.1 h
      have hfound := findClass_eq_ok hcls
      split at hvalue
      · exact absurd hvalue run_fail_ne_ok
      · obtain ⟨record, hrecord, hconforms⟩ :=
          Class.instantiate_conforms (hclasses className cls hfound) hvalue
        exact ⟨record, cls, hrecord, hfound, hconforms⟩

/-- In a module, whatever surrounds it, an instance of a class is a record
that passes where the class is asked for, unless the name is that of a
built-in type. -/
theorem instance_passes {decls : List ClassDecl} {classes : ClassTable}
    (hclasses : ClassTable.registerAll .empty decls = .ok classes)
    {className : String} (hname : ∀ kind : BuiltInType, kind.name ≠ className)
    {expr : Expr} (hexpr : expr.Instantiates className)
    {bindings : Record Value} {files : FileSystem} {depth : Nat} {ambient : Ambient}
    {value : Value}
    (hvalue : (Scope.eval ⟨classes, bindings, files⟩ depth expr ambient).run =
      some (.ok value)) :
    ∃ record, value = .object record ∧
      ∀ place, value.check classes (.reference className) place = .ok () := by
  have hwell : (Scope.mk classes bindings files).classes.WellFormed :=
    ClassTable.WellFormed.empty.registerAll hclasses
  cases depth with
  | zero => cases hvalue
  | succ depth =>
      rw [eval, run_within_eq_ok] at hvalue
      obtain ⟨record, cls, rfl, hfound, hshape⟩ :=
        evalParts_instance hwell hexpr hvalue
      refine ⟨record, rfl, fun place => ?_⟩
      apply (Value.checkDecides classes (.object record) (.reference className) place).2
      exact .classOf hname hfound hshape

/-- A constructor that takes a switch; its spare one is left out. -/
def panelClass : Class :=
  ⟨"Panel", [⟨"given", false⟩],
    ⟨[("main", ⟨"main", .reference "Switch", false, some (.ident ⟨8, 9⟩ "given"), ⟨7, 9⟩⟩),
      ("spare", ⟨"spare", .reference "Switch", true, some (.literal ⟨9, 10⟩ .null), ⟨9, 10⟩⟩)]⟩⟩

def panelScope : Scope :=
  ⟨⟨[("Switch", switchClass), ("Panel", panelClass)]⟩, .empty, Store.empty.fileSystem⟩

/-- A call with an instance of the one class for the field of the other one. -/
def panelCall : Expr :=
  .call ⟨10, 16⟩ "Panel" [⟨false, .classInstance ⟨12, 15⟩ "Switch" switchBody⟩]

theorem registerAll_panel :
    ClassTable.registerAll .empty
      [⟨"Switch", [], none, [], switchClass.fields.values, ⟨0, 6⟩⟩,
        ⟨"Panel", panelClass.parameters, none, [], panelClass.fields.values, ⟨6, 10⟩⟩] =
      .ok panelScope.classes :=
  rfl

theorem instantiate_switch :
    switchClass.instantiate (panelScope.eval 1) .none panelScope.classes switchBody =
      pure switchOn := by
  have hon : (Value.boolean true).check panelScope.classes (.reference "Boolean")
      ⟨"Switch", [.field "on"]⟩ = .ok () :=
    (Value.checkDecides _ _ _ _).2 (.builtIn rfl (.boolean true))
  have hbuild : switchClass.build panelScope.classes
      (switchClass.completed (panelScope.eval 1) .none ⟨[("on", .boolean true)]⟩) .empty
      switchClass.fields.values = pure ⟨[("on", .boolean true)]⟩ :=
    Class.build_chosen rfl hon
  have hbody : switchBody.evaluate (panelScope.eval 1) .none =
      pure (.object ⟨[("on", .boolean true)]⟩) := rfl
  rw [Class.instantiate, hbody, pure_bind]
  dsimp only
  rw [hbuild, pure_bind]
  rfl

theorem eval_panelCall :
    (panelScope.eval 3 panelCall .none).run = some (.ok (.object ⟨[("main", switchOn)]⟩)) := by
  have hswitch : panelScope.eval 2 (.classInstance ⟨12, 15⟩ "Switch" switchBody) .none =
      pure switchOn :=
    congrArg (fun built : Evaluation Value => built.within ⟨12, 15⟩) instantiate_switch
  have hmain : switchOn.check panelScope.classes (.reference "Switch")
      ⟨"Panel", [.field "main"]⟩ = .ok () := by
    have hwell : switchClass.WellFormed :=
      ClassTable.WellFormed.empty.registerAll registerAll_panel "Switch" switchClass rfl
    obtain ⟨record, hrecord, hshape⟩ :=
      Class.instantiate_conforms hwell (congrArg ExceptT.run instantiate_switch)
    rw [hrecord]
    exact (Value.checkDecides _ _ _ _).2
      (.classOf (BuiltInType.name_ne_of_ofName?_eq_none rfl) rfl hshape)
  have hbuild : panelClass.build panelScope.classes
      (panelClass.constructed (panelScope.eval 2) ⟨none, none, ⟨[("given", switchOn)]⟩⟩) .empty
      panelClass.fields.values = pure ⟨[("main", switchOn)]⟩ :=
    Class.build_chosen rfl hmain
  have hcall : panelClass.construct (panelScope.eval 2) .none panelScope.classes
      [⟨false, .classInstance ⟨12, 15⟩ "Switch" switchBody⟩] =
        pure (.object ⟨[("main", switchOn)]⟩) := by
    have harguments : Class.argumentValues (panelScope.eval 2) .none
        [⟨false, .classInstance ⟨12, 15⟩ "Switch" switchBody⟩] = pure [switchOn] := by
      rw [Class.argumentValues, hswitch]
      rfl
    rw [Class.construct, harguments, pure_bind]
    exact congrArg (· >>= fun record => pure (Value.object record)) hbuild
  exact congrArg (fun built : Evaluation Value => (built.within ⟨10, 16⟩).run) hcall

theorem instance_passes_panel :
    ∃ decls, ClassTable.registerAll .empty decls = .ok panelScope.classes ∧
      (∀ kind : BuiltInType, kind.name ≠ "Panel") ∧ panelCall.Instantiates "Panel" ∧
      ∃ value, (panelScope.eval 3 panelCall .none).run = some (.ok value) ∧
        ∃ record, value = .object record ∧
          ∀ place, value.check panelScope.classes (.reference "Panel") place = .ok () := by
  have hname : ∀ kind : BuiltInType, kind.name ≠ "Panel" :=
    BuiltInType.name_ne_of_ofName?_eq_none rfl
  exact ⟨_, registerAll_panel, hname, .call _ _, _, eval_panelCall,
    instance_passes registerAll_panel hname (.call _ _) eval_panelCall⟩

end Scope

end ConfigNotation

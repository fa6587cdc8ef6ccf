import ConfigNotation.Proofs.Eval.Conformance

/-!
The faults of a value against a type, stated without the check. A fault stands at a part of the
value that is reached by fields and elements and breaks the type that it meets there. Its route
orders it among the others: by the fields of a type and the elements of an array.
-/

namespace ConfigNotation

def Place.extend (place : Place) (selectors : List Selector) : Place :=
  { place with selectors := place.selectors ++ selectors }

theorem Place.extend_nil (place : Place) : place.extend [] = place := by
  simp [extend]

theorem Place.extend_select (place : Place) (selector : Selector) (selectors : List Selector) :
    (place.select selector).extend selectors = place.extend (selector :: selectors) := by
  simp [extend, select]

theorem Place.text_extend (place : Place) (selectors : List Selector) :
    (place.extend selectors).text = place.text ++ String.join (selectors.map (·.text)) := by
  rw [extend, text, text, List.map_append, String.join_append, String.append_assoc]

/-- A type of records with the fields that it declares, and the class if it
names one. -/
inductive HasShape (classes : ClassTable) :
    TypeExpr → List (Field TypeExpr) → Option String → Prop where
  | object (fields : List (Field TypeExpr)) : HasShape classes (.object fields) fields none
  | classOf {name : String} {cls : Class} (hname : ∀ kind : BuiltInType, kind.name ≠ name)
      (hclass : classes.get? name = some cls) :
      HasShape classes (.reference name) cls.fields.values (some name)

def Record.undeclared (record : Record Value) (fields : List (Field TypeExpr)) : List String :=
  record.keys.filter fun key => fields.all (·.name ≠ key)

/-- The kind of values that a type asks for, and its name in messages. -/
inductive Asks (classes : ClassTable) : TypeExpr → BuiltInType → String → Prop where
  | builtIn (kind : BuiltInType) : Asks classes (.reference kind.name) kind kind.name
  | classOf {name : String} {cls : Class} (hname : ∀ kind : BuiltInType, kind.name ≠ name)
      (hclass : classes.get? name = some cls) :
      Asks classes (.reference name) .object s!"instance of {name}"
  | object (fields : List (Field TypeExpr)) : Asks classes (.object fields) .object "object"
  | array : Asks classes .array .array "array"
  | arrayOf (element : TypeExpr) : Asks classes (.arrayOf element) .array "array"
  | tuple (elements : List TypeExpr) : Asks classes (.tuple elements) .array "tuple"

/-- A value breaks a type by itself, not by one of its parts. The fault is told
once the place of the value is known. Within a record it stands where the field
is missing in the order of the fields, or behind them all. -/
inductive Breaks (classes : ClassTable) :
    Value → TypeExpr → List Nat → (Place → EvalFault) → Prop where
  | kind {value : Value} {type : TypeExpr} {kind : BuiltInType} {expected : String}
      (hasks : Asks classes type kind expected) (hkind : ¬HasKind value kind) :
      Breaks classes value type [] fun place => .typeMismatch place expected value.typeName
  | unknown {value : Value} {name : String} (hname : ∀ kind : BuiltInType, kind.name ≠ name)
      (hclass : classes.get? name = none) :
      Breaks classes value (.reference name) [] fun _ => .unknownType name
  | length {items : List Value} {elements : List TypeExpr}
      (hlength : items.length ≠ elements.length) :
      Breaks classes (.array items) (.tuple elements) [] fun place =>
        .tupleLength place elements.length items.length
  | literal {value : Value} {body : String} (hvalue : value ≠ .string body) :
      Breaks classes value (.literal body) [] fun place =>
        .literalMismatch place body value.quotation
  | missing {record : Record Value} {type : TypeExpr} {fields : List (Field TypeExpr)}
      {className : Option String} {index : Nat} {field : Field TypeExpr}
      (hshape : HasShape classes type fields className) (hfield : fields[index]? = some field)
      (hneeded : field.optional = false ∧ field.default = none)
      (hmissing : record.get? field.name = none) :
      Breaks classes (.object record) type [index] fun place =>
        .missingNestedField field.name place className
  | undeclared {record : Record Value} {type : TypeExpr} {fields : List (Field TypeExpr)}
      {className : Option String} (hshape : HasShape classes type fields className)
      (hsome : record.undeclared fields ≠ []) :
      Breaks classes (.object record) type [fields.length] fun place =>
        .unknownNestedFields place (record.undeclared fields) className

/-- A field or an element of a value, at its place among them, and the type that
it meets. -/
inductive Leads (classes : ClassTable) :
    Value → TypeExpr → Nat → Selector → Value → TypeExpr → Prop where
  | field {record : Record Value} {type : TypeExpr} {fields : List (Field TypeExpr)}
      {className : Option String} {index : Nat} {field : Field TypeExpr} {value : Value}
      (hshape : HasShape classes type fields className) (hfield : fields[index]? = some field)
      (hvalue : record.get? field.name = some value) :
      Leads classes (.object record) type index (.field field.name) value field.type
  | element {items : List Value} {element : TypeExpr} {index : Nat} {item : Value}
      (hitem : items[index]? = some item) :
      Leads classes (.array items) (.arrayOf element) index (.index index) item element
  | component {items : List Value} {elements : List TypeExpr} {index : Nat} {item : Value}
      {element : TypeExpr} (hitem : items[index]? = some item)
      (helement : elements[index]? = some element) :
      Leads classes (.array items) (.tuple elements) index (.index index) item element

/-- A part of a value breaks the type that it meets. The route orders the
faults: it tells at which field or element each step goes down, and where the
fault stands within its record. -/
inductive FaultAt (classes : ClassTable) :
    Value → TypeExpr → List Nat → List Selector → (Place → EvalFault) → Prop where
  | itself {value : Value} {type : TypeExpr} {route : List Nat} {fault : Place → EvalFault}
      (hbreaks : Breaks classes value type route fault) :
      FaultAt classes value type route [] fault
  | inside {value part : Value} {type met : TypeExpr} {index : Nat} {selector : Selector}
      {route : List Nat} {selectors : List Selector} {fault : Place → EvalFault}
      (hleads : Leads classes value type index selector part met)
      (hpart : FaultAt classes part met route selectors fault) :
      FaultAt classes value type (index :: route) (selector :: selectors) fault

/-- Faults with their routes and the ways to them. -/
abbrev Faults := List Nat → List Selector → (Place → EvalFault) → Prop

theorem BuiltInType.ofName?_eq_none {name : String}
    (h : ∀ kind : BuiltInType, kind.name ≠ name) : ofName? name = none := by
  cases hname : ofName? name with
  | none => rfl
  | some kind => exact absurd (name_of_ofName? hname) (h kind)

section

variable {classes : ClassTable} {type : TypeExpr} {fields : List (Field TypeExpr)}
  {className : Option String}

theorem HasShape.unique (h : HasShape classes type fields className)
    {others : List (Field TypeExpr)} {otherName : Option String}
    (hother : HasShape classes type others otherName) :
    others = fields ∧ otherName = className := by
  cases h with
  | object =>
      cases hother
      exact ⟨rfl, rfl⟩
  | classOf _ hclass =>
      cases hother with
      | classOf _ hsame =>
          rw [hclass, Option.some.injEq] at hsame
          subst hsame
          exact ⟨rfl, rfl⟩

theorem HasShape.asks (h : HasShape classes type fields className) {kind : BuiltInType}
    {expected : String} (hasks : Asks classes type kind expected) : kind = .object := by
  cases hasks with
  | classOf | object => rfl
  | builtIn =>
      cases h with
      | classOf hname => exact absurd rfl (hname kind)
  | array | arrayOf | tuple => cases h

/-- A fault at or inside a field of a record, or where the field should be. -/
def FieldFault (classes : ClassTable) (record : Record Value) (className : Option String)
    (field : Field TypeExpr) (index : Nat) : Faults := fun route selectors fault =>
  (∃ value rest more, record.get? field.name = some value ∧ route = index :: rest ∧
    selectors = .field field.name :: more ∧ FaultAt classes value field.type rest more fault) ∨
  (record.get? field.name = none ∧ (field.optional = false ∧ field.default = none) ∧
    route = [index] ∧ selectors = [] ∧
    fault = fun place => .missingNestedField field.name place className)

/-- The faults of a record: those of its fields, and behind them its undeclared
names. -/
theorem HasShape.faultAt_iff (h : HasShape classes type fields className) (record : Record Value)
    (route : List Nat) (selectors : List Selector) (fault : Place → EvalFault) :
    FaultAt classes (.object record) type route selectors fault ↔
      (∃ index field, fields[index]? = some field ∧
        FieldFault classes record className field index route selectors fault) ∨
      (record.undeclared fields ≠ [] ∧ route = [fields.length] ∧ selectors = [] ∧
        fault = fun place =>
          .unknownNestedFields place (record.undeclared fields) className) := by
  constructor
  · intro hfault
    cases hfault with
    | itself hbreaks =>
        cases hbreaks with
        | kind hasks hkind => exact absurd (h.asks hasks ▸ .object record) hkind
        | unknown _ hnone =>
            cases h with
            | classOf _ hclass =>
                rw [hnone] at hclass
                cases hclass
        | literal => cases h
        | missing hshape hfield hneeded hmissing =>
            obtain ⟨rfl, rfl⟩ := h.unique hshape
            exact .inl ⟨_, _, hfield, .inr ⟨hmissing, hneeded, rfl, rfl, rfl⟩⟩
        | undeclared hshape hsome =>
            obtain ⟨rfl, rfl⟩ := h.unique hshape
            exact .inr ⟨hsome, rfl, rfl, rfl⟩
    | inside hleads hpart =>
        cases hleads with
        | field hshape hfield hvalue =>
            obtain ⟨rfl, rfl⟩ := h.unique hshape
            exact .inl ⟨_, _, hfield, .inl ⟨_, _, _, hvalue, rfl, rfl, hpart⟩⟩
  · rintro (⟨index, field, hfield, hfault⟩ | ⟨hsome, rfl, rfl, rfl⟩)
    · obtain ⟨value, rest, more, hvalue, rfl, rfl, hpart⟩ | ⟨hmissing, hneeded, rfl, rfl, rfl⟩ :=
        hfault
      · exact .inside (.field h hfield hvalue) hpart
      · exact .itself (.missing h hfield hneeded hmissing)
    · exact .itself (.undeclared h hsome)

end

section

variable {classes : ClassTable} {value : Value} {type : TypeExpr} {kind : BuiltInType}
  {expected : String}

theorem Asks.unique (h : Asks classes type kind expected) {other : BuiltInType}
    {otherName : String} (hother : Asks classes type other otherName) :
    other = kind ∧ otherName = expected := by
  cases h with
  | builtIn =>
      generalize hname : kind.name = name at hother
      cases hother with
      | builtIn =>
          have hsame := congrArg BuiltInType.ofName? hname
          rw [BuiltInType.ofName?_name, BuiltInType.ofName?_name, Option.some.injEq] at hsame
          exact ⟨hsame.symm, rfl⟩
      | classOf hno => exact absurd hname (hno kind)
  | classOf hno =>
      generalize hname : TypeExpr.reference _ = met at hother
      cases hother with
      | builtIn =>
          cases hname
          exact absurd rfl (hno other)
      | classOf =>
          cases hname
          exact ⟨rfl, rfl⟩
      | object | array | arrayOf | tuple => cases hname
  | object | array | arrayOf | tuple =>
      cases hother
      exact ⟨rfl, rfl⟩

/-- The faults where no field and no element meets a type. -/
theorem faultAt_itself_iff
    (hleads : ∀ index selector part met, ¬Leads classes value type index selector part met)
    (route : List Nat) (selectors : List Selector) (fault : Place → EvalFault) :
    FaultAt classes value type route selectors fault ↔
      Breaks classes value type route fault ∧ selectors = [] := by
  constructor
  · intro h
    cases h with
    | itself hbreaks => exact ⟨hbreaks, rfl⟩
    | inside hstep => exact absurd hstep (hleads _ _ _ _)
  · rintro ⟨hbreaks, rfl⟩
    exact .itself hbreaks

end

end ConfigNotation

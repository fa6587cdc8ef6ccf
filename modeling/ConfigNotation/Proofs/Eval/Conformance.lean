import ConfigNotation.Eval.Conformance

/-!
What it means that a value conforms to a type, stated without the check, and that
the check decides it. The classes may refer to themselves and to each other, so a
derivation does not follow the type; it goes down into the value, as the check does.
-/

namespace ConfigNotation

/-- The values of each built-in type. A number that is none has no type of its
own. -/
inductive HasKind : Value → BuiltInType → Prop where
  | string (text : String) : HasKind (.string text) .string
  | contents (buffer : Buffer) : HasKind (.buffer buffer) .string
  | number (value : Number) (hnumber : value.isNaN = false) : HasKind (.number value) .number
  | boolean (value : Bool) : HasKind (.boolean value) .boolean
  | bigInt (value : Int) : HasKind (.bigInt value) .bigInt
  | date (value : Instant) : HasKind (.date value) .date
  | regExp (value : RegExp) : HasKind (.regExp value) .regExp
  | array (items : List Value) : HasKind (.array items) .array
  | object (record : Record Value) : HasKind (.object record) .object
  | null : HasKind .null .null
  | undefined : HasKind .undefined .undefined
  | any (value : Value) : HasKind value .any

/-- When a value conforms to a type. The name of a built-in type is never that
of a class, and a name that is neither belongs to no value. -/
inductive Conforms (classes : ClassTable) : Value → TypeExpr → Prop where
  | builtIn {value : Value} {name : String} {kind : BuiltInType} (hname : kind.name = name)
      (hkind : HasKind value kind) :
      Conforms classes value (.reference name)
  | classOf {record : Record Value} {name : String} {cls : Class}
      (hname : ∀ kind : BuiltInType, kind.name ≠ name)
      (hclass : classes.get? name = some cls)
      (hshape : Conforms classes (.object record) (.object cls.fields.values)) :
      Conforms classes (.object record) (.reference name)
  | object {record : Record Value} {fields : List (Field TypeExpr)}
      (hrequired : ∀ field ∈ fields, field.optional = false → field.default = none →
        record.contains field.name)
      (hpresent : ∀ field ∈ fields, ∀ value, record.get? field.name = some value →
        Conforms classes value field.type)
      (hdeclared : ∀ key ∈ record.keys, ∃ field ∈ fields, field.name = key) :
      Conforms classes (.object record) (.object fields)
  | array (items : List Value) : Conforms classes (.array items) .array
  | arrayOf {items : List Value} {element : TypeExpr}
      (heach : ∀ item ∈ items, Conforms classes item element) :
      Conforms classes (.array items) (.arrayOf element)
  | tuple {items : List Value} {elements : List TypeExpr}
      (hlength : items.length = elements.length)
      (heach : ∀ pair ∈ items.zip elements, Conforms classes pair.1 pair.2) :
      Conforms classes (.array items) (.tuple elements)
  | literal (text : String) : Conforms classes (.string text) (.literal text)

theorem BuiltInType.ofName?_name (kind : BuiltInType) : ofName? kind.name = some kind := by
  cases kind <;> decide

theorem BuiltInType.name_of_ofName? {name : String} {kind : BuiltInType}
    (h : ofName? name = some kind) :
    kind.name = name := by
  simpa using List.find?_some h

theorem BuiltInType.name_ne_of_ofName?_eq_none {name : String} (h : ofName? name = none)
    (kind : BuiltInType) :
    kind.name ≠ name := by
  rintro rfl
  rw [ofName?_name] at h
  cases h

/-- The test of a built-in type agrees with its kind. Only the type of
everything admits `nan`, and contents of files count as strings. -/
theorem BuiltInType.admits_iff (kind : BuiltInType) (value : Value) :
    kind.admits value = true ↔ HasKind value kind := by
  constructor
  · intro h
    cases kind <;> cases value <;> simp [admits] at h
    all_goals constructor
    all_goals assumption
  · intro h
    cases h <;> simp_all [admits]

namespace Value

/-- The names of a record are accepted exactly if a field declares each of
them. -/
theorem checkNames_ok_iff (record : Record Value) (fields : List (Field TypeExpr))
    (place : Place) (className : Option String) :
    checkNames record fields place className = .ok () ↔
      ∀ key ∈ record.keys, ∃ field ∈ fields, field.name = key := by
  unfold checkNames
  simp only
  split
  · next h => simpa using h
  · next h => simpa using h

/-- What the check asks of the value that a record has for a field, if any. -/
theorem checkFields_ok_iff (classes : ClassTable) (record : Record Value)
    (fields : List (Field TypeExpr)) (place : Place) (className : Option String) :
    checkFields classes record fields place className = .ok () ↔
      ∀ field ∈ fields,
        (field.optional = false → field.default = none → record.contains field.name) ∧
        ∀ value, record.get? field.name = some value →
          check classes value field.type (place.select (.field field.name)) = .ok () := by
  induction fields with
  | nil => simp [checkFields]
  | cons field rest ih =>
      rw [checkFields, List.forall_mem_cons, ← ih]
      simp only [Record.contains, Record.get?]
      cases hlookup : Record.lookup field.name record.entries with
      | some value =>
          cases hcheck : check classes value field.type (place.select (.field field.name)) with
          | ok _ => simp [hcheck, bind, Except.bind]
          | error error => simp [hcheck, bind, Except.bind]
      | none =>
          by_cases hrequired : field.isRequired = true
          · have hneeded : field.optional = false ∧ field.default = none := by
              simpa [Field.isRequired] using hrequired
            simp [hrequired, hneeded, bind, Except.bind, throw, throwThe, MonadExceptOf.throw]
          · have hfree : field.optional = false → field.default ≠ none := by
              simpa [Field.isRequired] using hrequired
            simp [hrequired]
            exact fun _ => hfree

/-- Where an element stands does not matter for what is asked of it. -/
theorem forall_mem_zipIdx_iff {α : Type} {asked : α → Nat → Prop} {wanted : α → Prop}
    {items : List α} (start : Nat)
    (h : ∀ item ∈ items, ∀ index, asked item index ↔ wanted item) :
    (∀ pair ∈ items.zipIdx start, asked pair.1 pair.2) ↔ ∀ item ∈ items, wanted item := by
  induction items generalizing start with
  | nil => simp
  | cons item rest ih =>
      rw [List.zipIdx_cons, List.forall_mem_cons, List.forall_mem_cons,
        h item List.mem_cons_self start,
        ih (start + 1) fun other hother => h other (List.mem_cons_of_mem item hother)]

theorem checkItems_ok_iff (classes : ClassTable) (items : List Value) (element : TypeExpr)
    (place : Place) (start : Nat) :
    checkItems classes items element place start = .ok () ↔
      ∀ pair ∈ items.zipIdx start,
        check classes pair.1 element (place.select (.index pair.2)) = .ok () := by
  induction items generalizing start with
  | nil => simp [checkItems]
  | cons item rest ih =>
      rw [checkItems, List.zipIdx_cons, List.forall_mem_cons, ← ih]
      cases hcheck : check classes item element (place.select (.index start)) with
      | ok _ => simp [bind, Except.bind]
      | error error => simp [bind, Except.bind]

theorem checkTuple_ok_iff (classes : ClassTable) (items : List Value) (elements : List TypeExpr)
    (place : Place) (start : Nat) :
    checkTuple classes items elements place start = .ok () ↔
      ∀ pair ∈ (items.zip elements).zipIdx start,
        check classes pair.1.1 pair.1.2 (place.select (.index pair.2)) = .ok () := by
  induction items generalizing elements start with
  | nil => simp [checkTuple]
  | cons item rest ih =>
      cases elements with
      | nil => simp [checkTuple]
      | cons element elements =>
          rw [checkTuple, List.zip_cons_cons, List.zipIdx_cons, List.forall_mem_cons, ← ih]
          cases hcheck : check classes item element (place.select (.index start)) with
          | ok _ => simp [bind, Except.bind]
          | error error => simp [bind, Except.bind]

end Value

/-- Conformance of a record, field by field and without the names that it must
not have, in the form in which the check asks for it. -/
theorem conforms_object_iff {classes : ClassTable} {record : Record Value}
    {fields : List (Field TypeExpr)} :
    Conforms classes (.object record) (.object fields) ↔
      (∀ field ∈ fields,
        (field.optional = false → field.default = none → record.contains field.name) ∧
        ∀ value, record.get? field.name = some value → Conforms classes value field.type) ∧
      ∀ key ∈ record.keys, ∃ field ∈ fields, field.name = key := by
  constructor
  · rintro (_ | _ | ⟨hrequired, hpresent, hdeclared⟩)
    exact ⟨fun field hfield => ⟨hrequired field hfield, hpresent field hfield⟩, hdeclared⟩
  · rintro ⟨hfields, hdeclared⟩
    exact .object (fun field hfield => (hfields field hfield).1)
      (fun field hfield => (hfields field hfield).2) hdeclared

namespace Value

def CheckDecides (classes : ClassTable) (value : Value) : Prop :=
  ∀ type place, value.check classes type place = .ok () ↔ Conforms classes value type

/-- If the check decides conformance for the values in a record, it does so for
the shape of the record. -/
theorem checkShape_ok_iff {classes : ClassTable} {record : Record Value}
    (hvalues : ∀ name value, record.get? name = some value → CheckDecides classes value)
    (fields : List (Field TypeExpr)) (place : Place) (className : Option String) :
    (do checkFields classes record fields place className
        checkNames record fields place className) = .ok () ↔
      Conforms classes (.object record) (.object fields) := by
  have hfields := checkFields_ok_iff classes record fields place className
  have hnames := checkNames_ok_iff record fields place className
  have hparts :
      checkFields classes record fields place className = .ok () ↔
        ∀ field ∈ fields,
          (field.optional = false → field.default = none → record.contains field.name) ∧
          ∀ value, record.get? field.name = some value → Conforms classes value field.type := by
    rw [hfields]
    refine forall₂_congr fun field _ => and_congr_right fun _ => ?_
    exact forall₂_congr fun value hvalue => hvalues field.name value hvalue field.type _
  rw [conforms_object_iff, ← hparts, ← hnames]
  cases checkFields classes record fields place className with
  | ok _ => simp [bind, Except.bind]
  | error error => simp [bind, Except.bind]

theorem sizeOf_lt_of_get? {record : Record Value} {name : String} {value : Value}
    (h : record.get? name = some value) :
    sizeOf value < sizeOf (Value.object record) := by
  have hless := Record.sizeOf_lookup_lt h
  cases record
  simp at hless ⊢
  omega

theorem sizeOf_lt_of_mem {items : List Value} {item : Value} (h : item ∈ items) :
    sizeOf item < sizeOf (Value.array items) := by
  have hless := List.sizeOf_lt_of_mem h
  simp
  omega

theorem checkBuiltIn_ok_iff {name : String} {kind : BuiltInType}
    (hkind : BuiltInType.ofName? name = some kind) (classes : ClassTable) (value : Value)
    (place : Place) :
    value.check classes (.reference name) place = .ok () ↔
      Conforms classes value (.reference name) := by
  have hname := BuiltInType.name_of_ofName? hkind
  have hconforms : Conforms classes value (.reference name) ↔ kind.admits value = true := by
    rw [BuiltInType.admits_iff]
    constructor
    · rintro (⟨hother, hvalue⟩ | ⟨hclass, _, _⟩)
      · subst hother
        rw [BuiltInType.ofName?_name, Option.some.injEq] at hkind
        exact hkind ▸ hvalue
      · exact absurd hname (hclass kind)
    · exact .builtIn hname
  rw [hconforms]
  unfold check
  simp [hkind]

/-- A name stands for a built-in type first and for a class second. -/
theorem checkReference_ok_iff {classes : ClassTable} {value : Value}
    (hparts : ∀ part, sizeOf part < sizeOf value → CheckDecides classes part) (name : String)
    (place : Place) :
    value.check classes (.reference name) place = .ok () ↔
      Conforms classes value (.reference name) := by
  cases hkind : BuiltInType.ofName? name with
  | some kind => exact checkBuiltIn_ok_iff hkind classes value place
  | none =>
      have hnone := BuiltInType.name_ne_of_ofName?_eq_none hkind
      unfold check
      simp only [hkind]
      cases hclass : classes.get? name with
      | none =>
          simp only [reduceCtorEq, false_iff]
          rintro (⟨hname, _⟩ | ⟨_, hfound, _⟩)
          · exact hnone _ hname
          · rw [hclass] at hfound
            cases hfound
      | some cls =>
          cases value with
          | object record =>
              have hshape := checkShape_ok_iff
                (fun name value h => hparts value (sizeOf_lt_of_get? h))
                cls.fields.values place (some name)
              simp only
              rw [hshape]
              constructor
              · exact .classOf hnone hclass
              · rintro (⟨hname, _⟩ | ⟨_, hfound, hconforms⟩)
                · exact absurd hname (hnone _)
                · rw [hclass, Option.some.injEq] at hfound
                  exact hfound ▸ hconforms
          | _ =>
              simp only [reduceCtorEq, false_iff]
              rintro ⟨hname, _⟩
              exact hnone _ hname

theorem checkArray_ok_iff (classes : ClassTable) (value : Value) (place : Place) :
    value.check classes .array place = .ok () ↔ Conforms classes value .array := by
  cases value with
  | array items =>
      rw [check]
      exact iff_of_true rfl (.array items)
  | _ =>
      simp only [check, reduceCtorEq, false_iff]
      intro hconforms
      cases hconforms

theorem checkLiteral_ok_iff (classes : ClassTable) (value : Value) (body : String)
    (place : Place) :
    value.check classes (.literal body) place = .ok () ↔ Conforms classes value (.literal body) := by
  cases value with
  | string text =>
      simp only [check]
      split
      · next h => exact iff_of_true rfl (h ▸ .literal text)
      · next h =>
          simp only [reduceCtorEq, false_iff]
          intro hconforms
          cases hconforms
          exact h rfl
  | _ =>
      simp only [check, reduceCtorEq, false_iff]
      intro hconforms
      cases hconforms

section

variable {classes : ClassTable} {value : Value}
  (hparts : ∀ part, sizeOf part < sizeOf value → CheckDecides classes part)

include hparts

/-- The check of a record agrees with conformance, given that it does for the
values inside. The order of the fields does not matter for success. -/
theorem checkObject_ok_iff (fields : List (Field TypeExpr)) (place : Place) :
    value.check classes (.object fields) place = .ok () ↔
      Conforms classes value (.object fields) := by
  cases value with
  | object record =>
      rw [check]
      exact checkShape_ok_iff (fun name value h => hparts value (sizeOf_lt_of_get? h)) fields place
        none
  | _ =>
      simp only [check, reduceCtorEq, false_iff]
      intro hconforms
      cases hconforms

/-- The check of an array agrees with conformance, given that it does for the
elements. -/
theorem checkArrayOf_ok_iff (element : TypeExpr) (place : Place) :
    value.check classes (.arrayOf element) place = .ok () ↔
      Conforms classes value (.arrayOf element) := by
  cases value with
  | array items =>
      rw [check, checkItems_ok_iff, forall_mem_zipIdx_iff 0 fun item hitem index =>
        hparts item (sizeOf_lt_of_mem hitem) element (place.select (.index index))]
      constructor
      · exact .arrayOf
      · intro hconforms
        cases hconforms with
        | arrayOf heach => exact heach
  | _ =>
      simp only [check, reduceCtorEq, false_iff]
      intro hconforms
      cases hconforms

/-- The check of a tuple agrees with conformance: the number of elements, and
each of them with its own type. -/
theorem checkElements_ok_iff (elements : List TypeExpr) (place : Place) :
    value.check classes (.tuple elements) place = .ok () ↔
      Conforms classes value (.tuple elements) := by
  cases value with
  | array items =>
      rw [check]
      split
      · next hlength =>
        rw [checkTuple_ok_iff, forall_mem_zipIdx_iff 0 fun pair hpair index =>
          hparts pair.1 (sizeOf_lt_of_mem (List.of_mem_zip hpair).1) pair.2
            (place.select (.index index))]
        constructor
        · exact .tuple hlength
        · intro hconforms
          cases hconforms with
          | tuple _ heach => exact heach
      · next hlength =>
        simp only [reduceCtorEq, false_iff]
        intro hconforms
        cases hconforms with
        | tuple hsame _ => exact hlength hsame
  | _ =>
      simp only [check, reduceCtorEq, false_iff]
      intro hconforms
      cases hconforms

end

/-- The check decides conformance, for all classes and at every place. -/
theorem checkDecides (classes : ClassTable) (value : Value) : CheckDecides classes value := by
  intro type place
  have hparts (part : Value) (hsmaller : sizeOf part < sizeOf value) :
      CheckDecides classes part := checkDecides classes part
  cases type with
  | reference name => exact checkReference_ok_iff hparts name place
  | object fields => exact checkObject_ok_iff hparts fields place
  | array => exact checkArray_ok_iff classes value place
  | arrayOf element => exact checkArrayOf_ok_iff hparts element place
  | tuple elements => exact checkElements_ok_iff hparts elements place
  | literal body => exact checkLiteral_ok_iff classes value body place
termination_by sizeOf value

/-- Every value passes the check against the type of everything, in any table of
classes. -/
theorem check_any (value : Value) (classes : ClassTable) (place : Place) :
    value.check classes .any place = .ok () :=
  (value.checkDecides classes .any place).2 (.builtIn rfl (.any value))

/-- The check comes to an end for every value and every type, whatever the
classes refer to: it passes exactly the values that conform and fails for all
others. Conformance is an inductive relation, so types that refer to themselves
are met by finite values only. -/
theorem check_passes_or_fails (classes : ClassTable) (value : Value) (type : TypeExpr)
    (place : Place) :
    (value.check classes type place = .ok () ∧ Conforms classes value type) ∨
      ∃ error, value.check classes type place = .error error ∧ ¬Conforms classes value type := by
  have hdecides := checkDecides classes value type place
  cases hcheck : value.check classes type place with
  | ok outcome => exact .inl ⟨rfl, hdecides.1 hcheck⟩
  | error error =>
      refine .inr ⟨error, rfl, fun hconforms => ?_⟩
      rw [hdecides.2 hconforms] at hcheck
      cases hcheck

end Value

end ConfigNotation

import ConfigNotation.Proofs.Eval.Faults

/-!
Where the check of a value against a type fails. The check fails with the first fault of the
value, in the order of the fields of a type and of the elements of an array, and names the way
to it; without a fault it passes.
-/

namespace ConfigNotation

/-- A check passes if there is no fault, and else fails with the first one,
which is the only one with its route. -/
def Reports (place : Place) (result : Except EvalError Unit) (faults : Faults) : Prop :=
  (result = .ok () ∧ ∀ route selectors fault, ¬faults route selectors fault) ∨
  ∃ route selectors fault,
    result = .error (.raise (fault (place.extend selectors))) ∧ faults route selectors fault ∧
    ∀ others more other, faults others more other →
      route < others ∨ (others = route ∧ more = selectors ∧ other = fault)

namespace Reports

variable {place : Place} {result : Except EvalError Unit} {faults others : Faults}

theorem congr (h : Reports place result faults)
    (hsame : ∀ route selectors fault, others route selectors fault ↔ faults route selectors fault) :
    Reports place result others := by
  have heq : others = faults := by
    funext route selectors fault
    exact propext (hsame route selectors fault)
  rw [heq]
  exact h

theorem pass (h : ∀ route selectors fault, ¬faults route selectors fault) :
    Reports place (.ok ()) faults :=
  .inl ⟨rfl, h⟩

/-- A check that can fail in one way only reports that fault at its own place. -/
theorem single (route : List Nat) (fault : Place → EvalFault)
    (h : ∀ others more other, faults others more other ↔
      others = route ∧ more = [] ∧ other = fault) :
    Reports place (.error (.raise (fault place))) faults := by
  refine .inr ⟨route, [], fault, ?_, (h _ _ _).2 ⟨rfl, rfl, rfl⟩, ?_⟩
  · rw [Place.extend_nil]
  · exact fun _ _ _ hother => .inr ((h _ _ _).1 hother)

/-- What a part reports, as it is seen from the whole. -/
theorem within (index : Nat) {selector : Selector}
    (h : Reports (place.select selector) result faults) :
    Reports place result fun route selectors fault => ∃ rest more,
      route = index :: rest ∧ selectors = selector :: more ∧ faults rest more fault := by
  obtain ⟨hok, hnone⟩ | ⟨route, selectors, fault, herror, hfault, hfirst⟩ := h
  · refine .inl ⟨hok, ?_⟩
    rintro _ _ fault ⟨route, selectors, _, _, hfault⟩
    exact hnone route selectors fault hfault
  · refine .inr ⟨index :: route, selector :: selectors, fault, ?_, ⟨_, _, rfl, rfl, hfault⟩, ?_⟩
    · rw [herror, Place.extend_select]
    · rintro _ _ other ⟨others, more, rfl, rfl, hother⟩
      obtain hless | ⟨rfl, rfl, rfl⟩ := hfirst others more other hother
      · exact .inl (List.cons_lt_cons_iff.2 (.inr ⟨rfl, hless⟩))
      · exact .inr ⟨rfl, rfl, rfl⟩

/-- Two checks one after the other, if all faults of the first stand before
those of the second. -/
theorem andThen (hfirst : Reports place result faults) (next : Unit → Except EvalError Unit)
    (hnext : Reports place (next ()) others)
    (hbefore : ∀ route selectors fault further more other, faults route selectors fault →
      others further more other → route < further) :
    Reports place (result >>= next) fun route selectors fault =>
      faults route selectors fault ∨ others route selectors fault := by
  obtain ⟨rfl, hnone⟩ | ⟨route, selectors, fault, rfl, hfault, hleast⟩ := hfirst
  · refine congr hnext fun route selectors fault => ?_
    exact or_iff_right (hnone route selectors fault)
  · refine .inr ⟨route, selectors, fault, rfl, .inl hfault, ?_⟩
    rintro further more other (hother | hother)
    · exact hleast further more other hother
    · exact .inl (hbefore _ _ _ _ _ _ hfault hother)

end Reports

def checkInOrder {α : Type} (one : α → Nat → Except EvalError Unit) :
    List α → Nat → Except EvalError Unit
  | [], _ => .ok ()
  | first :: rest, index => do
      one first index
      checkInOrder one rest (index + 1)

/-- Checks made in order report the first fault of the first item that has one.
The route says which item it was, so earlier items come before later ones. -/
theorem Reports.inOrder {α : Type} {place : Place} {one : α → Nat → Except EvalError Unit}
    (faults : α → Nat → Faults) (items : List α) (start : Nat)
    (hone : ∀ item ∈ items, ∀ index, Reports place (one item index) (faults item index))
    (hhead : ∀ item index route selectors fault, faults item index route selectors fault →
      ∃ rest, route = index :: rest) :
    Reports place (checkInOrder one items start) fun route selectors fault =>
      ∃ offset item, items[offset]? = some item ∧
        faults item (start + offset) route selectors fault := by
  induction items generalizing start with
  | nil => exact .pass (by simp)
  | cons first rest ih =>
      obtain ⟨hfirst, hrest⟩ := List.forall_mem_cons.1 hone
      have hboth := (hfirst start).andThen (fun _ => checkInOrder one rest (start + 1))
        (ih (start + 1) hrest) (by
          rintro _ _ _ _ _ _ hfault ⟨offset, item, _, hother⟩
          obtain ⟨_, rfl⟩ := hhead _ _ _ _ _ hfault
          obtain ⟨_, rfl⟩ := hhead _ _ _ _ _ hother
          exact List.cons_lt_cons_iff.2 (.inl (by omega)))
      refine hboth.congr fun route selectors fault => ?_
      constructor
      · rintro ⟨_ | offset, item, hitem, hfault⟩
        · cases hitem
          exact .inl hfault
        · refine .inr ⟨offset, item, hitem, ?_⟩
          rwa [Nat.add_assoc, Nat.add_comm 1]
      · rintro (hfault | ⟨offset, item, hitem, hfault⟩)
        · exact ⟨0, first, rfl, hfault⟩
        · refine ⟨offset + 1, item, hitem, ?_⟩
          rwa [Nat.add_comm offset, ← Nat.add_assoc]

namespace Value

def checkField (classes : ClassTable) (record : Record Value) (place : Place)
    (className : Option String) (field : Field TypeExpr) : Except EvalError Unit :=
  match record.get? field.name with
  | some value => value.check classes field.type (place.select (.field field.name))
  | none =>
      if field.isRequired then .error (.raise (.missingNestedField field.name place className))
      else .ok ()

/-- The fields of a record are checked one by one in the order in which they are
declared, so the place of a field in its class is what its route starts with. -/
theorem checkFields_eq_inOrder (classes : ClassTable) (record : Record Value)
    (fields : List (Field TypeExpr)) (place : Place) (className : Option String) (start : Nat) :
    checkFields classes record fields place className =
      checkInOrder (fun field _ => checkField classes record place className field) fields
        start := by
  induction fields generalizing start with
  | nil => rw [checkFields, checkInOrder]
  | cons field rest ih =>
      rw [checkFields, checkInOrder, ih (start + 1), checkField, Record.get?]
      cases Record.lookup field.name record.entries with
      | some value => rfl
      | none =>
          dsimp only
          split <;> rfl

theorem checkItems_eq_inOrder (classes : ClassTable) (items : List Value) (element : TypeExpr)
    (place : Place) (start : Nat) :
    checkItems classes items element place start =
      checkInOrder (fun item index => check classes item element (place.select (.index index)))
        items start := by
  induction items generalizing start with
  | nil => rw [checkItems, checkInOrder]
  | cons item rest ih => rw [checkItems, checkInOrder, ih]

theorem checkTuple_eq_inOrder (classes : ClassTable) (items : List Value)
    (elements : List TypeExpr) (place : Place) (start : Nat) :
    checkTuple classes items elements place start =
      checkInOrder (fun pair index => check classes pair.1 pair.2 (place.select (.index index)))
        (items.zip elements) start := by
  induction items generalizing elements start with
  | nil => simp [checkTuple, checkInOrder]
  | cons item rest ih =>
      cases elements with
      | nil => simp [checkTuple, checkInOrder]
      | cons element elements => rw [checkTuple, List.zip_cons_cons, checkInOrder, ih]

end Value

namespace Value

/-- The check of a value reports the first of its faults, for every type and at
every place. -/
def ReportsFirst (classes : ClassTable) (value : Value) : Prop :=
  ∀ type place, Reports place (value.check classes type place) (FaultAt classes value type)

section

variable {classes : ClassTable} {type : TypeExpr} {fields : List (Field TypeExpr)}
  {className : Option String} {record : Record Value}

/-- The check of a field reports the first fault inside the field, or the
absence of a field that is required. -/
theorem checkField_reports
    (hvalues : ∀ name value, record.get? name = some value → ReportsFirst classes value)
    (place : Place) (field : Field TypeExpr) (index : Nat) :
    Reports place (checkField classes record place className field)
      (FieldFault classes record className field index) := by
  unfold checkField
  split
  · next value hvalue =>
    have hreports := hvalues field.name value hvalue field.type (place.select (.field field.name))
    refine (hreports.within index).congr fun route selectors fault => ?_
    simp [FieldFault, hvalue]
  · next hmissing =>
    by_cases hneeded : field.optional = false ∧ field.default = none
    · have hrequired : field.isRequired = true := by simp [Field.isRequired, hneeded]
      rw [if_pos hrequired]
      exact .single [index] (fun place => .missingNestedField field.name place className)
        fun _ _ _ => by simp [FieldFault, hmissing, hneeded]
    · have hfree : ¬field.isRequired = true := by simpa [Field.isRequired] using hneeded
      rw [if_neg hfree]
      exact .pass fun _ _ _ => by simp only [FieldFault, hmissing, hneeded]; simp

/-- Undeclared names come behind all fields, and are reported together in one
fault. -/
theorem checkNames_reports (place : Place) :
    Reports place (checkNames record fields place className) fun route selectors fault =>
      record.undeclared fields ≠ [] ∧ route = [fields.length] ∧ selectors = [] ∧
        fault = fun place =>
          .unknownNestedFields place (record.undeclared fields) className := by
  have hextra : (record.keys.filter fun key => !fields.any (·.name == key)) =
      record.undeclared fields := by
    refine List.filter_congr fun key _ => ?_
    rw [List.not_any_eq_all_not]
    exact congrArg _ (funext fun field => by rw [decide_not, Bool.beq_eq_decide_eq])
  unfold checkNames
  simp only [hextra, List.isEmpty_iff]
  split
  · next hnone => exact .pass fun _ _ _ hfault => hfault.1 hnone
  · next hsome =>
    exact .single [fields.length]
      (fun place => .unknownNestedFields place (record.undeclared fields) className)
      fun _ _ _ => and_iff_right hsome

theorem check_record (hshape : HasShape classes type fields className) (place : Place) :
    (Value.object record).check classes type place =
      (checkFields classes record fields place className >>= fun _ =>
        checkNames record fields place className) := by
  cases hshape with
  | object => rw [check]
  | classOf hname hclass =>
      unfold check
      simp only [BuiltInType.ofName?_eq_none hname]
      rw [hclass]

/-- A record reports the first fault of its fields, and else its undeclared
names. -/
theorem check_record_reports (hshape : HasShape classes type fields className)
    (hvalues : ∀ name value, record.get? name = some value → ReportsFirst classes value)
    (place : Place) :
    Reports place ((Value.object record).check classes type place)
      (FaultAt classes (.object record) type) := by
  have hfields := Reports.inOrder (FieldFault classes record className) fields 0
    (fun field _ index => checkField_reports hvalues place field index) (by
      rintro field index _ _ _ (⟨_, rest, _, _, rfl, _⟩ | ⟨_, _, rfl, _⟩)
      · exact ⟨rest, rfl⟩
      · exact ⟨[], rfl⟩)
  rw [check_record hshape, checkFields_eq_inOrder classes record fields place className 0]
  refine (hfields.andThen _ (checkNames_reports place) ?_).congr fun route selectors fault => ?_
  · rintro _ _ _ _ _ _ ⟨index, field, hfield, hfault⟩ ⟨_, rfl, _⟩
    have hless : 0 + index < fields.length := by
      obtain ⟨hless, _⟩ := List.getElem?_eq_some_iff.1 hfield
      rwa [Nat.zero_add]
    obtain ⟨_, _, _, _, rfl, _⟩ | ⟨_, _, rfl, _⟩ := hfault
    all_goals exact List.cons_lt_cons_iff.2 (.inl hless)
  · rw [hshape.faultAt_iff]
    simp only [Nat.zero_add]

end

end Value

section

variable {classes : ClassTable} {value : Value} {type : TypeExpr}

theorem Reports.accepted
    (hleads : ∀ index selector part met, ¬Leads classes value type index selector part met)
    (hbreaks : ∀ route fault, ¬Breaks classes value type route fault) (place : Place) :
    Reports place (.ok ()) (FaultAt classes value type) := by
  refine .pass fun route selectors fault hfault => ?_
  exact hbreaks route fault ((faultAt_itself_iff hleads _ _ _).1 hfault).1

/-- A value of a wrong kind has one fault, which is at its own place: no part of
it is looked at. -/
theorem Reports.refused (fault : Place → EvalFault)
    (hleads : ∀ index selector part met, ¬Leads classes value type index selector part met)
    (hbreaks : ∀ route other, Breaks classes value type route other ↔ route = [] ∧ other = fault)
    (place : Place) :
    Reports place (.error (.raise (fault place))) (FaultAt classes value type) := by
  refine .single [] fault fun route selectors other => ?_
  rw [faultAt_itself_iff hleads, hbreaks, and_assoc, and_comm (a := other = fault)]

end

section

variable {classes : ClassTable} {value : Value} {type : TypeExpr} {kind : BuiltInType}
  {expected : String}

/-- A value that is not of the kind that its type asks for has no other fault. -/
theorem Asks.refuses (h : Asks classes type kind expected) (hkind : ¬HasKind value kind)
    (place : Place) :
    Reports place (.error (value.mismatch place expected)) (FaultAt classes value type) := by
  refine .refused (fun place => .typeMismatch place expected value.typeName)
    (fun _ _ _ _ hleads => ?_) (fun route fault => ⟨fun hbreaks => ?_, ?_⟩) place
  · cases hleads with
    | field hshape => exact hkind (hshape.asks h ▸ .object _)
    | element | component =>
        cases h
        exact hkind (.array _)
  · cases hbreaks with
    | kind hasks =>
        obtain ⟨rfl, rfl⟩ := h.unique hasks
        exact ⟨rfl, rfl⟩
    | unknown hname hnone =>
        cases h with
        | builtIn => exact absurd rfl (hname kind)
        | classOf _ hclass =>
            rw [hnone] at hclass
            cases hclass
    | length =>
        cases h
        exact absurd (.array _) hkind
    | literal => cases h
    | missing hshape | undeclared hshape => exact absurd (hshape.asks h ▸ .object _) hkind
  · rintro ⟨rfl, rfl⟩
    exact .kind h hkind

theorem Asks.check_eq (h : Asks classes type kind expected) (hkind : ¬HasKind value kind)
    (place : Place) :
    value.check classes type place = .error (value.mismatch place expected) := by
  unfold Value.check
  cases h with
  | builtIn =>
      simp only [BuiltInType.ofName?_name]
      rw [if_neg fun hadmits => hkind ((kind.admits_iff value).1 hadmits)]
  | classOf hname hclass =>
      simp only [BuiltInType.ofName?_eq_none hname]
      rw [hclass]
      cases value with
      | object record => exact absurd (.object record) hkind
      | _ => rfl
  | object =>
      cases value with
      | object record => exact absurd (.object record) hkind
      | _ => rfl
  | array | arrayOf | tuple =>
      cases value with
      | array items => exact absurd (.array items) hkind
      | _ => rfl

theorem Asks.check_reports (h : Asks classes type kind expected) (hkind : ¬HasKind value kind)
    (place : Place) :
    Reports place (value.check classes type place) (FaultAt classes value type) := by
  rw [h.check_eq hkind]
  exact h.refuses hkind place

end

namespace Value

variable {classes : ClassTable} {value : Value} (place : Place)

theorem check_builtIn_reports (kind : BuiltInType) :
    Reports place (value.check classes (.reference kind.name) place)
      (FaultAt classes value (.reference kind.name)) := by
  by_cases hkind : HasKind value kind
  · have hok : value.check classes (.reference kind.name) place = .ok () :=
      (checkDecides classes value _ place).2 (.builtIn rfl hkind)
    have hshapeless (fields : List (Field TypeExpr)) (className : Option String) :
        ¬HasShape classes (.reference kind.name) fields className := by
      intro hshape
      cases hshape with
      | classOf hname => exact hname kind rfl
    rw [hok]
    refine .accepted (fun _ _ _ _ hleads => ?_) (fun _ _ hbreaks => ?_) place
    · cases hleads with
      | field hshape => exact hshapeless _ _ hshape
    · cases hbreaks with
      | kind hasks hother =>
          obtain ⟨rfl, -⟩ := (Asks.builtIn kind).unique hasks
          exact hother hkind
      | unknown hname => exact hname _ rfl
      | missing hshape | undeclared hshape => exact hshapeless _ _ hshape
  · exact (Asks.builtIn kind).check_reports hkind place

/-- A name that is no class and no built-in type is itself the fault, for every
value. -/
theorem check_unknown_reports {name : String} (hname : ∀ kind : BuiltInType, kind.name ≠ name)
    (hclass : classes.get? name = none) :
    Reports place (value.check classes (.reference name) place)
      (FaultAt classes value (.reference name)) := by
  have herror : value.check classes (.reference name) place =
      .error (.raise (.unknownType name)) := by
    unfold check
    simp only [BuiltInType.ofName?_eq_none hname]
    rw [hclass]
  have hshapeless (fields : List (Field TypeExpr)) (className : Option String) :
      ¬HasShape classes (.reference name) fields className := by
    intro hshape
    cases hshape with
    | classOf _ hfound =>
        rw [hclass] at hfound
        cases hfound
  rw [herror]
  refine .refused (fun _ => .unknownType name) (fun _ _ _ _ hleads => ?_)
    (fun route fault => ⟨fun hbreaks => ?_, ?_⟩) place
  · cases hleads with
    | field hshape => exact hshapeless _ _ hshape
  · cases hbreaks with
    | unknown => exact ⟨rfl, rfl⟩
    | kind hasks =>
        cases hasks with
        | builtIn => exact absurd rfl (hname _)
        | classOf _ hfound =>
            rw [hclass] at hfound
            cases hfound
    | missing hshape | undeclared hshape => exact absurd hshape (hshapeless _ _)
  · rintro ⟨rfl, rfl⟩
    exact .unknown hname hclass

theorem check_literal_reports (body : String) :
    Reports place (value.check classes (.literal body) place)
      (FaultAt classes value (.literal body)) := by
  have hleads (index : Nat) (selector : Selector) (part : Value) (met : TypeExpr) :
      ¬Leads classes value (.literal body) index selector part met := by
    intro hstep
    cases hstep with
    | field hshape => cases hshape
  have hbreaks (route : List Nat) (fault : Place → EvalFault) :
      Breaks classes value (.literal body) route fault ↔ value ≠ .string body ∧ route = [] ∧
        fault = fun place => .literalMismatch place body value.quotation := by
    constructor
    · intro h
      cases h with
      | literal hvalue => exact ⟨hvalue, rfl, rfl⟩
      | kind hasks => cases hasks
      | missing hshape | undeclared hshape => cases hshape
    · rintro ⟨hvalue, rfl, rfl⟩
      exact .literal hvalue
  by_cases hvalue : value = .string body
  · have hok : value.check classes (.literal body) place = .ok () :=
      (checkDecides classes value _ place).2 (hvalue ▸ .literal body)
    rw [hok]
    exact .accepted hleads (fun route fault h => ((hbreaks route fault).1 h).1 hvalue) place
  · have herror : value.check classes (.literal body) place =
        .error (.raise (.literalMismatch place body value.quotation)) := by
      unfold check
      cases value with
      | string text => simp only [if_neg fun heq : text = body => hvalue (heq ▸ rfl)]
      | _ => rfl
    rw [herror]
    refine .refused (fun place => .literalMismatch place body value.quotation) hleads
      (fun route fault => ?_) place
    rw [hbreaks]
    exact and_iff_right hvalue

section

variable {items : List Value}

theorem check_array_reports :
    Reports place ((Value.array items).check classes .array place)
      (FaultAt classes (.array items) .array) := by
  rw [check]
  refine .accepted (fun _ _ _ _ hleads => ?_) (fun _ _ hbreaks => ?_) place
  · cases hleads
  · cases hbreaks with
    | kind hasks hkind =>
        cases hasks
        exact hkind (.array items)

def ElementFault (classes : ClassTable) (item : Value) (element : TypeExpr) (index : Nat) :
    Faults := fun route selectors fault => ∃ rest more,
  route = index :: rest ∧ selectors = .index index :: more ∧
    FaultAt classes item element rest more fault

/-- Elements are checked in order, for arrays and for tuples alike: each with
its own type, under its own index. -/
theorem checkElements_reports {α : Type} {elements : List α} (part : α → Value)
    (met : α → TypeExpr) (hparts : ∀ element ∈ elements, ReportsFirst classes (part element)) :
    Reports place (checkInOrder (fun element index =>
        check classes (part element) (met element) (place.select (.index index))) elements 0)
      fun route selectors fault => ∃ index element, elements[index]? = some element ∧
        ElementFault classes (part element) (met element) index route selectors fault := by
  have hall := Reports.inOrder
    (fun element index => ElementFault classes (part element) (met element) index) elements 0
    (fun element helement index =>
      (hparts element helement (met element) (place.select (.index index))).within index)
    (fun _ _ _ _ _ ⟨rest, _, hroute, _⟩ => ⟨rest, hroute⟩)
  simpa only [Nat.zero_add] using hall

theorem check_arrayOf_reports (hitems : ∀ item ∈ items, ReportsFirst classes item)
    (element : TypeExpr) :
    Reports place ((Value.array items).check classes (.arrayOf element) place)
      (FaultAt classes (.array items) (.arrayOf element)) := by
  rw [check, checkItems_eq_inOrder]
  have hall := checkElements_reports place id (fun _ => element) hitems
  refine hall.congr fun route selectors fault => ⟨fun h => ?_, ?_⟩
  · cases h with
    | itself hbreaks =>
        cases hbreaks with
        | kind hasks hkind =>
            cases hasks
            exact absurd (.array items) hkind
    | inside hleads hpart =>
        cases hleads with
        | element hitem => exact ⟨_, _, hitem, _, _, rfl, rfl, hpart⟩
  · rintro ⟨index, item, hitem, rest, more, rfl, rfl, hpart⟩
    exact .inside (.element hitem) hpart

theorem check_tuple_reports (hitems : ∀ item ∈ items, ReportsFirst classes item)
    (elements : List TypeExpr) :
    Reports place ((Value.array items).check classes (.tuple elements) place)
      (FaultAt classes (.array items) (.tuple elements)) := by
  rw [check]
  split
  · next hlength =>
    rw [checkTuple_eq_inOrder]
    have hall := checkElements_reports place Prod.fst Prod.snd
      (fun pair hpair => hitems pair.1 (List.of_mem_zip hpair).1 : ∀ pair ∈ items.zip elements, _)
    refine hall.congr fun route selectors fault => ⟨fun h => ?_, ?_⟩
    · cases h with
      | itself hbreaks =>
          cases hbreaks with
          | kind hasks hkind =>
              cases hasks
              exact absurd (.array items) hkind
          | length hother => exact absurd hlength hother
      | inside hleads hpart =>
          cases hleads with
          | component hitem helement =>
              exact ⟨_, (_, _), List.getElem?_zip_eq_some.2 ⟨hitem, helement⟩, _, _, rfl, rfl, hpart⟩
    · rintro ⟨index, pair, hpair, rest, more, rfl, rfl, hpart⟩
      obtain ⟨hitem, helement⟩ := List.getElem?_zip_eq_some.1 hpair
      exact .inside (.component hitem helement) hpart
  · next hlength =>
    -- the elements may have faults as well, but all of them stand behind this one
    refine .inr ⟨[], [], fun place => .tupleLength place elements.length items.length, ?_,
      .itself (.length hlength), fun others more other hother => ?_⟩
    · rw [Place.extend_nil]
    · cases hother with
      | inside => exact .inl (List.nil_lt_cons ..)
      | itself hbreaks =>
          cases hbreaks with
          | kind hasks hkind =>
              cases hasks
              exact absurd (.array items) hkind
          | length => exact .inr ⟨rfl, rfl, rfl⟩

end

/-- The check goes down into the value, whatever the classes refer to. -/
theorem reportsFirst (classes : ClassTable) (value : Value) : ReportsFirst classes value := by
  intro type place
  have hparts (part : Value) (hsmaller : sizeOf part < sizeOf value) :
      ReportsFirst classes part := reportsFirst classes part
  cases type with
  | reference name =>
      cases hname : BuiltInType.ofName? name with
      | some kind =>
          obtain rfl := BuiltInType.name_of_ofName? hname
          exact check_builtIn_reports place kind
      | none =>
          have hno := BuiltInType.name_ne_of_ofName?_eq_none hname
          cases hclass : classes.get? name with
          | none => exact check_unknown_reports place hno hclass
          | some cls =>
              by_cases hkind : HasKind value .object
              · cases hkind with
                | object record =>
                    exact check_record_reports (.classOf hno hclass)
                      (fun name value h => hparts value (sizeOf_lt_of_get? h)) place
              · exact (Asks.classOf hno hclass).check_reports hkind place
  | object fields =>
      by_cases hkind : HasKind value .object
      · cases hkind with
        | object record =>
            exact check_record_reports (.object fields)
              (fun name value h => hparts value (sizeOf_lt_of_get? h)) place
      · exact (Asks.object fields).check_reports hkind place
  | array =>
      by_cases hkind : HasKind value .array
      · cases hkind with
        | array items => exact check_array_reports place
      · exact Asks.array.check_reports hkind place
  | arrayOf element =>
      by_cases hkind : HasKind value .array
      · cases hkind with
        | array items =>
            exact check_arrayOf_reports place
              (fun item hitem => hparts item (sizeOf_lt_of_mem hitem)) element
      · exact (Asks.arrayOf element).check_reports hkind place
  | tuple elements =>
      by_cases hkind : HasKind value .array
      · cases hkind with
        | array items =>
            exact check_tuple_reports place
              (fun item hitem => hparts item (sizeOf_lt_of_mem hitem)) elements
      · exact (Asks.tuple elements).check_reports hkind place
  | literal body => exact check_literal_reports place body
termination_by sizeOf value

/-- The check of a value passes if the value has no fault. Else it fails with
the fault that comes first in the order of fields and elements, and its place is
that of the value with the fields and elements behind it that lead to the part
with the fault. -/
theorem check_fails_at_first_fault (classes : ClassTable) (value : Value) (type : TypeExpr)
    (place : Place) :
    (value.check classes type place = .ok () ∧
      ∀ route selectors fault, ¬FaultAt classes value type route selectors fault) ∨
    ∃ route selectors fault,
      value.check classes type place = .error (.raise (fault (place.extend selectors))) ∧
      (place.extend selectors).text = place.text ++ String.join (selectors.map (·.text)) ∧
      FaultAt classes value type route selectors fault ∧
      ∀ others more other, FaultAt classes value type others more other →
        route < others ∨ (others = route ∧ more = selectors ∧ other = fault) := by
  obtain hpass | ⟨route, selectors, fault, herror, hfault, hfirst⟩ :=
    reportsFirst classes value type place
  · exact .inl hpass
  · exact .inr ⟨route, selectors, fault, herror, place.text_extend selectors, hfault, hfirst⟩

/-- A value conforms exactly if no fault can be found in it, so the two
descriptions of a check leave nothing between them. -/
theorem conforms_iff_no_fault (classes : ClassTable) (value : Value) (type : TypeExpr) :
    Conforms classes value type ↔
      ∀ route selectors fault, ¬FaultAt classes value type route selectors fault := by
  rw [← checkDecides classes value type ⟨"", []⟩]
  obtain ⟨hok, hnone⟩ | ⟨route, selectors, fault, herror, hfault, _⟩ :=
    reportsFirst classes value type ⟨"", []⟩
  · exact iff_of_true hok hnone
  · rw [herror]
    exact iff_of_false nofun fun hnone => hnone route selectors fault hfault

end Value

end ConfigNotation

import Mathlib.Data.Fintype.EquivFin
import ConfigNotation.Proofs.Eval.Containers
import ConfigNotation.Proofs.Eval.Surroundings

/-!
Containers with nothing but spreads. The first of them gives the kind, so it is evaluated
before there is a container and sees what surrounds the container, where the others see the
container so far. That is the one difference to a container whose kind is known from a key.
-/

namespace ConfigNotation

open Grammar Evaluation

/-- Some key is in neither of two records. -/
theorem Record.exists_new_key {α : Type} (first second : Record α) :
    ∃ key, key ∉ first.keys ∧ key ∉ second.keys := by
  obtain ⟨key, hkey⟩ := Infinite.exists_notMem_finset (first.keys ++ second.keys).toFinset
  rw [List.mem_toFinset, List.mem_append, not_or] at hkey
  exact ⟨key, hkey⟩

theorem Record.eq_of_insert_eq {α : Type} {first second : Record α} {key : String} {value : α}
    (hfirst : key ∉ first.keys) (hsecond : key ∉ second.keys)
    (h : first.insert key value = second.insert key value) : first = second := by
  have hentries := Record.mk.inj h
  rw [put_of_not_mem hfirst, put_of_not_mem hsecond] at hentries
  exact congrArg Record.mk (List.append_cancel_right hentries)

namespace Container

/-- A container of spreads, whose kind is found when it is evaluated. -/
def ofSpreads (spreads : List Expr) : Container Expr := ⟨.unknown, spreads.map .spread⟩

def withElement (spreads : List Expr) (element : Expr) : Container Expr :=
  ⟨.array, spreads.map .spread ++ [.element element]⟩

def withEntry (spreads : List Expr) (key : String) (value : Expr) : Container Expr :=
  ⟨.object, spreads.map .spread ++ [.property key value]⟩

/-- A member with a key behind some spreads is added to what the spreads make by
themselves. -/
structure KindDefers (eval : Evaluator) (ambient : Ambient) (spreads : List Expr) : Prop where
  element {items : List Value}
    (h : ((ofSpreads spreads).evaluate eval ambient).run = some (.ok (.array items)))
    (element : Expr) :
    (withElement spreads element).evaluate eval ambient =
      (fun value => .array (items ++ [value])) <$> eval element (around ambient (.array items))
  entry {record : Record Value}
    (h : ((ofSpreads spreads).evaluate eval ambient).run = some (.ok (.object record)))
    (key : String) (expr : Expr) :
    (withEntry spreads key expr).evaluate eval ambient =
      (fun value => .object (record.insert key value)) <$>
        eval expr (around ambient (.object record))

/-- A first spread brings the same into the empty container of a kind from
inside as a value of it does that was found outside. -/
def KeepsValue (eval : Evaluator) (ambient : Ambient) (kind : ContainerKind) (first : Expr)
    (value : Value) : Prop :=
  ∃ other, IsOfKind kind other ∧
    (eval first (around ambient (built kind []))).run = some (.ok other) ∧
    built kind [(.spread first, other)] = built kind [(.spread first, value)]

section

variable {eval : Evaluator} {ambient : Ambient} {kind : ContainerKind}

theorem IsOfKind.ne_unknown {value : Value} (h : IsOfKind kind value) : kind ≠ .unknown := by
  cases h <;> nofun

theorem emptyFor_eq_built {value : Value} (h : IsOfKind kind value) :
    emptyFor value = built kind [] := by
  cases h <;> rfl

theorem suits_spread (spreads : List Expr) : ∀ member ∈ spreads.map Member.spread,
    Suits kind member := by
  intro member hmember
  obtain ⟨_, -, rfl⟩ := List.mem_map.1 hmember
  exact .inl rfl

theorem add_built_spread {before : List Part} {first : Expr} {value : Value}
    (h : IsOfKind kind value) :
    add (built kind before) (.spread first) value =
      pure (built kind (before ++ [(.spread first, value)])) :=
  add_built h.ne_unknown (.inl rfl) (fun _ _ => h) before

/-- A value that is added to the empty container of its own kind is an array or
a record. -/
theorem isOfKind_of_add {first : Expr} {value next : Value}
    (h : (add (emptyFor value) (.spread first) value).run = some (.ok next)) :
    ∃ kind, IsOfKind kind value := by
  cases value with
  | array items => exact ⟨_, .array items⟩
  | object record => exact ⟨_, .object record⟩
  | _ => cases h

/-- Members can be added in two parts, the second one to the container that the
first one makes. -/
theorem addMembers_append (container : Value) (first second : List (Member Expr)) :
    addMembers eval ambient container (first ++ second) =
      addMembers eval ambient container first >>= (addMembers eval ambient · second) := by
  induction first generalizing container with
  | nil => rw [List.nil_append, addMembers, pure_bind]
  | cons member rest ih => simp only [List.cons_append, addMembers, ih, bind_assoc]

theorem addMembers_singleton (container : Value) (member : Member Expr) :
    addMembers eval ambient container [member] =
      eval member.value (around ambient container) >>= add container member := by
  simp only [addMembers, bind_pure, inside_eq_around]

/-- The last member of a container is added to what those in front of it make,
and sees that as the container around it. -/
theorem evaluate_concat (hkind : kind ≠ .unknown) (members : List (Member Expr))
    (last : Member Expr) :
    Container.evaluate eval ambient ⟨kind, members ++ [last]⟩ =
      addMembers eval ambient (built kind []) members >>= fun container =>
        eval last.value (around ambient container) >>= add container last := by
  rw [evaluate_eq_addMembers hkind, addMembers_append]
  exact bind_congr fun container => addMembers_singleton container last

/-- The first spread is evaluated in the surroundings of the container, and each
of the others sees what those before it make. -/
theorem evaluate_ofSpreads_eq_ok_iff {first : Expr} {rest : List Expr} {result : Value} :
    ((ofSpreads (first :: rest)).evaluate eval ambient).run = some (.ok result) ↔
      ∃ (kind : ContainerKind) (value : Value) (parts : List Part), IsOfKind kind value ∧
        (eval first ambient).run = some (.ok value) ∧ parts.map (·.1) = rest.map .spread ∧
        FoldsBehind eval ambient kind [(.spread first, value)] parts ∧
        result = built kind ((.spread first, value) :: parts) := by
  rw [ofSpreads, List.map_cons, evaluate_deferred, run_bind_eq_ok]
  constructor
  · rintro ⟨value, hvalue, hrest⟩
    obtain ⟨container, hadd, hmembers⟩ := run_bind_eq_ok.1 hrest
    obtain ⟨kind, hkind⟩ := isOfKind_of_add hadd
    rw [emptyFor_eq_built hkind, add_built_spread hkind, run_pure_eq_ok] at hadd
    subst hadd
    obtain ⟨parts, hparts, hbehind, hresult⟩ :=
      (addMembers_built_eq_ok_iff hkind.ne_unknown (suits_spread rest)).1 hmembers
    exact ⟨kind, value, parts, hkind, hvalue, hparts, hbehind, hresult⟩
  · rintro ⟨kind, value, parts, hkind, hvalue, hparts, hbehind, hresult⟩
    refine ⟨value, hvalue, ?_⟩
    rw [emptyFor_eq_built hkind, add_built_spread hkind, pure_bind]
    exact (addMembers_built_eq_ok_iff hkind.ne_unknown (suits_spread rest)).2
      ⟨parts, hparts, hbehind, hresult⟩

/-- If the first spread keeps its value, the spreads make in a container of the
kind from the start what they make by themselves. -/
theorem KeepsValue.addMembers_eq {first : Expr} {value : Value} (hvalue : IsOfKind kind value)
    (h : KeepsValue eval ambient kind first value) {rest : List Expr} {parts : List Part}
    (hparts : parts.map (·.1) = rest.map .spread)
    (hbehind : FoldsBehind eval ambient kind [(.spread first, value)] parts) :
    addMembers eval ambient (built kind []) ((first :: rest).map .spread) =
      pure (built kind ((.spread first, value) :: parts)) := by
  obtain ⟨other, hother, hrun, hsame⟩ := h
  have hfirst : eval first (around ambient (built kind [])) = pure other := hrun
  have hmembers :=
    (addMembers_built_eq_ok_iff hvalue.ne_unknown (suits_spread rest)).2
      ⟨parts, hparts, hbehind, rfl⟩
  rw [List.map_cons, addMembers, inside_eq_around, Member.value, hfirst, pure_bind,
    add_built_spread hother, List.nil_append, hsame, pure_bind]
  exact hmembers

theorem KindDefers.of_keepsValue {first : Expr} {rest : List Expr}
    (h : ∀ kind value, IsOfKind kind value → (eval first ambient).run = some (.ok value) →
      KeepsValue eval ambient kind first value) :
    KindDefers eval ambient (first :: rest) where
  element {items} hitems element := by
    obtain ⟨kind, value, parts, hkind, hvalue, hparts, hbehind, hresult⟩ :=
      evaluate_ofSpreads_eq_ok_iff.1 hitems
    have hmembers := (h kind value hkind hvalue).addMembers_eq hkind hparts hbehind
    have hknown := hkind.ne_unknown
    rw [← hresult] at hmembers
    cases hkind with
    | object record => cases hresult
    | array more =>
        rw [withElement, evaluate_concat hknown, hmembers, pure_bind]
        exact (map_eq_pure_bind _ _).symm
  entry {record} hrecord key expr := by
    obtain ⟨kind, value, parts, hkind, hvalue, hparts, hbehind, hresult⟩ :=
      evaluate_ofSpreads_eq_ok_iff.1 hrecord
    have hmembers := (h kind value hkind hvalue).addMembers_eq hkind hparts hbehind
    have hknown := hkind.ne_unknown
    rw [← hresult] at hmembers
    cases hkind with
    | array items => cases hresult
    | object more =>
        rw [withEntry, evaluate_concat hknown, hmembers, pure_bind]
        exact (map_eq_pure_bind _ _).symm

theorem addMembers_spread_eq_ok {first : Expr} {container : Value} (hkind : kind ≠ .unknown)
    (h : (addMembers eval ambient (built kind []) [.spread first]).run = some (.ok container)) :
    ∃ other, IsOfKind kind other ∧
      (eval first (around ambient (built kind []))).run = some (.ok other) ∧
      container = built kind [(.spread first, other)] := by
  rw [addMembers_singleton] at h
  obtain ⟨other, hother, hadd⟩ := run_bind_eq_ok.1 h
  have hsuits : Suits kind (.spread first) := .inl rfl
  rcases add_cases hkind hsuits other [] with ⟨hspread, heq⟩ | ⟨_, _, _, heq⟩
  · rw [heq, run_pure_eq_ok] at hadd
    exact ⟨other, hspread first rfl, hother, hadd.symm⟩
  · rw [heq] at hadd
    cases hadd

/-- A constant behind the spread tells what the spread makes inside, because an
element ends an array and a new key ends a record. -/
theorem KeepsValue.of_kindDefers {first constant : Expr} {value : Value}
    (hkind : IsOfKind kind value) (hvalue : (eval first ambient).run = some (.ok value))
    (hconstant : ∀ ambient, eval constant ambient = pure .null)
    (h : KindDefers eval ambient [first]) :
    KeepsValue eval ambient kind first value := by
  have hknown := hkind.ne_unknown
  have halone : ((ofSpreads [first]).evaluate eval ambient).run =
      some (.ok (built kind [(.spread first, value)])) :=
    evaluate_ofSpreads_eq_ok_iff.2 ⟨kind, value, [], hkind, hvalue, rfl, .nil _, rfl⟩
  cases hkind with
  | array items =>
      have hlast := h.element halone constant
      rw [withElement, evaluate_concat hknown, hconstant, map_pure] at hlast
      obtain ⟨container, hmembers, hadd⟩ := run_bind_eq_ok.1 (congrArg ExceptT.run hlast)
      obtain ⟨other, hother, hrun, rfl⟩ := addMembers_spread_eq_ok hknown hmembers
      refine ⟨other, hother, hrun, ?_⟩
      rw [Member.value, hconstant, pure_bind] at hadd
      have hsame := Value.array.inj (run_pure_eq_ok.1 hadd)
      exact congrArg Value.array (List.append_cancel_right hsame)
  | object record =>
      have hlast (key : String) := h.entry halone key constant
      simp only [withEntry, evaluate_concat hknown, Member.value, hconstant, pure_bind,
        map_pure] at hlast
      obtain ⟨container, hmembers, -⟩ := run_bind_eq_ok.1 (congrArg ExceptT.run (hlast ""))
      obtain ⟨other, hother, hrun, rfl⟩ := addMembers_spread_eq_ok hknown hmembers
      refine ⟨other, hother, hrun, ?_⟩
      obtain ⟨key, hkey, hnew⟩ := Record.exists_new_key
        (.merged ([(.spread first, other)].flatMap entriesOf))
        (.merged ([(.spread first, .object record)].flatMap entriesOf))
      have hmade : addMembers eval ambient (built .object []) ([first].map .spread) =
          pure (built .object [(.spread first, other)]) := hmembers
      have hadd := hlast key
      rw [hmade, pure_bind] at hadd
      have hsame := Value.object.inj (run_pure_eq_ok.1 (congrArg ExceptT.run hadd))
      exact congrArg Value.object (Record.eq_of_insert_eq hkey hnew hsame)

end

end Container

open Container

/-- The names that mean the same inside of one more container. -/
def Ambient.Keeps (ambient : Ambient) (root : String) : Prop :=
  root ≠ "This" ∧ (root = "Main" → ambient.main.isSome)

theorem Ambient.agreeOn_around (ambient : Ambient) (container : Value) :
    Ambient.AgreeOn ambient.Keeps (around ambient container) ambient where
  main hmain := by
    obtain ⟨main, hmain⟩ := Option.isSome_iff_exists.1 (hmain.2 rfl)
    rw [around, hmain]
    rfl
  this hthis := absurd rfl hthis.1
  parameters _ := rfl

/-- A container of spreads makes what it makes with a keyed member behind it
exactly if the first spread brings the same into an empty container from inside
as from outside. All other spreads see the container so far in both. It is so if
the first spread, with the defaults of the classes, names neither `This` nor,
unless there is a container around, `Main`. -/
theorem kind_defers_iff (scope : Scope) (depth : Nat) (ambient : Ambient) (first : Expr) :
    (∀ span body, scope.eval (depth + 1) (.container span body) ambient =
      (body.evaluate (scope.eval depth) ambient).within span) ∧
    ((∀ rest, KindDefers (scope.eval depth) ambient (first :: rest)) ↔
      ∀ kind value, IsOfKind kind value →
        (scope.eval depth first ambient).run = some (.ok value) →
        KeepsValue (scope.eval depth) ambient kind first value) ∧
    (∀ rest result,
      ((ofSpreads (first :: rest)).evaluate (scope.eval depth) ambient).run = some (.ok result) ↔
        ∃ (kind : ContainerKind) (value : Value) (parts : List Part), IsOfKind kind value ∧
          (scope.eval depth first ambient).run = some (.ok value) ∧
          parts.map (·.1) = rest.map .spread ∧
          FoldsBehind (scope.eval depth) ambient kind [(.spread first, value)] parts ∧
          result = built kind ((.spread first, value) :: parts)) ∧
    (scope.DefaultsName ambient.Keeps → first.NamesOnly ambient.Keeps →
      ∀ rest, KindDefers (scope.eval depth) ambient (first :: rest)) := by
  refine ⟨fun _ _ => rfl, ⟨?_, fun h rest => .of_keepsValue h⟩,
    fun rest result => evaluate_ofSpreads_eq_ok_iff, ?_⟩
  · intro h kind value hkind hvalue
    cases depth with
    | zero => cases hvalue
    | succ depth =>
        have hconstant (ambient : Ambient) :
            scope.eval (depth + 1) (.literal ⟨0, 0⟩ .null) ambient = pure .null := rfl
        exact .of_kindDefers hkind hvalue hconstant (h [])
  · intro hscope hfirst rest
    refine .of_keepsValue fun kind value hkind hvalue => ⟨value, hkind, ?_, rfl⟩
    rw [Scope.eval_congr hscope depth first _ _ hfirst (ambient.agreeOn_around _)]
    exact hvalue

/-- What surrounds a container beside `@x => [@* => True;];` in a record, and a
name for another list. -/
def besideList : Scope × Ambient :=
  let list : Value := .object ⟨[("x", .array [.boolean true])]⟩
  (⟨.empty, ⟨[("other", .array [.boolean false])]⟩, Store.empty.fileSystem⟩,
    ⟨some list, some list, .empty⟩)

/-- The name of the other list names no container, so in
`[...other; @* => Null;]` it is spread as in `[...other;]`. -/
theorem kind_defers_iff_other :
    (∀ kind value, IsOfKind kind value →
      (besideList.1.eval 2 (.ident ⟨4, 9⟩ "other") besideList.2).run = some (.ok value) →
      KeepsValue (besideList.1.eval 2) besideList.2 kind (.ident ⟨4, 9⟩ "other") value) ∧
    (∀ rest, KindDefers (besideList.1.eval 2) besideList.2 (.ident ⟨4, 9⟩ "other" :: rest)) ∧
    ((withElement [.ident ⟨4, 9⟩ "other"] (.literal ⟨17, 21⟩ .null)).evaluate
      (besideList.1.eval 2) besideList.2).run = some (.ok (.array [.boolean false, .null])) := by
  obtain ⟨-, hiff, -, hnames⟩ :=
    kind_defers_iff besideList.1 2 besideList.2 (.ident ⟨4, 9⟩ "other")
  have hother : (Expr.ident ⟨4, 9⟩ "other").NamesOnly besideList.2.Keeps := by
    intro part hpart root hroot
    rcases Relation.ReflTransGen.cases_head hpart with rfl | ⟨_, hmember, -⟩
    · cases hroot
    · cases hmember
  have hdefers := hnames nofun hother
  refine ⟨hiff.1 hdefers, hdefers, ?_⟩
  exact congrArg ExceptT.run ((hdefers []).element rfl (.literal ⟨17, 21⟩ .null))

/-- In `[...This.x ? other;]` the list beside the container is spread, and in
`[...This.x ? other; @* => Null;]` the other one. -/
theorem kind_not_deferred_for_this :
    let first : Expr := .conditional ⟨4, 18⟩ (.path ⟨4, 10⟩ ["This", "x"]) (.ident ⟨13, 18⟩ "other")
    ((ofSpreads [first]).evaluate (besideList.1.eval 2) besideList.2).run =
      some (.ok (.array [.boolean true])) ∧
    ((withElement [first] (.literal ⟨26, 30⟩ .null)).evaluate (besideList.1.eval 2)
      besideList.2).run = some (.ok (.array [.boolean false, .null])) :=
  ⟨rfl, rfl⟩

end ConfigNotation

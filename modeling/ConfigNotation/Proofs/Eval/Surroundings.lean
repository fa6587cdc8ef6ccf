import ConfigNotation.Proofs.Eval.Congruence

/-!
What an expression reads of its surroundings. Besides the parameters these are the two
containers that it can name, so its value is the same wherever the ones that it names are.
-/

namespace ConfigNotation

def Placeholder.rootOf? (path : String) : Option String :=
  ((Text.splitOn '.' path.toList).map String.ofList).head?

/-- What fills a template is asked for its paths only. -/
theorem Template.fill_congr {template : Template} {lookup other : String → Option String}
    (h : ∀ path ∈ template.paths, lookup path = other path) :
    template.fill lookup = template.fill other := by
  have hpieces : ∀ piece ∈ template.pieces, piece.fill lookup = piece.fill other := by
    intro piece hpiece
    cases piece with
    | placeholder value =>
        exact congrArg value.fill (h _ (List.mem_filterMap.2 ⟨_, hpiece, rfl⟩))
    | _ => rfl
  rw [fill, fill, List.flatMap_def, List.flatMap_def, List.map_congr_left hpieces]

/-- A string asks for a name in one of its placeholders. -/
def Literal.Names (root : String) : Literal → Prop
  | .string body => ∃ path ∈ (Template.ofText body).paths, Placeholder.rootOf? path = some root
  | _ => False

namespace Expr

/-- A reference or a string by itself starts from a name. -/
def Names (root : String) : Expr → Prop
  | path _ segments => segments.head? = some root
  | literal _ value => value.Names root
  | _ => False

/-- All references in an expression start from names of some sort. -/
def NamesOnly (sort : String → Prop) (expr : Expr) : Prop :=
  ∀ part, expr.Contains part → ∀ root, part.Names root → sort root

theorem NamesOnly.part {sort : String → Prop} {expr part : Expr} (h : expr.NamesOnly sort)
    (hpart : part ∈ expr.parts) : part.NamesOnly sort :=
  fun inner hinner => h inner (.head hpart hinner)

theorem NamesOnly.self {sort : String → Prop} {expr : Expr} (h : expr.NamesOnly sort)
    {root : String} (hroot : expr.Names root) : sort root :=
  h expr .refl root hroot

theorem NamesOnly.any (expr : Expr) : expr.NamesOnly fun _ => True :=
  fun _ _ _ _ => trivial

end Expr

/-- Two surroundings with parameters that look the same, and with the same
containers under the names of some sort. -/
structure Ambient.AgreeOn (sort : String → Prop) (first second : Ambient) : Prop where
  main : sort "Main" → first.main = second.main
  this : sort "This" → first.this = second.this
  parameters : ∀ name, first.parameters.get? name = second.parameters.get? name

/-- Evaluation comes to the same in surroundings that agree on what an
expression names. -/
def Evaluator.Respects (sort : String → Prop) (eval : Evaluator) : Prop :=
  ∀ expr first second, expr.NamesOnly sort → Ambient.AgreeOn sort first second →
    eval expr first = eval expr second

/-- The defaults of the fields of a class name nothing but names of some sort. -/
def Class.NamesOnly (sort : String → Prop) (cls : Class) : Prop :=
  ∀ field ∈ cls.fields.values, ∀ default ∈ field.default, default.NamesOnly sort

section

variable {sort : String → Prop} {first second : Ambient}

theorem Ambient.AgreeOn.inside (h : AgreeOn sort first second) (container : Value) :
    AgreeOn sort (first.inside container) (second.inside container) where
  main hmain := congrArg (· <|> some container) (h.main hmain)
  this _ := rfl
  parameters := h.parameters

theorem Ambient.AgreeOn.bound (h : AgreeOn sort first second) {bound other : Record Value}
    (hbound : ∀ name, bound.get? name = other.get? name) :
    AgreeOn sort { first with parameters := bound } { second with parameters := other } where
  main := h.main
  this := h.this
  parameters := hbound

theorem Class.bindParameters_congr {bound other : Record Value}
    (h : ∀ name, bound.get? name = other.get? name) (parameters : List Parameter)
    (values : List Value) (name : String) :
    (bindParameters bound parameters values).get? name =
      (bindParameters other parameters values).get? name := by
  induction parameters generalizing bound other values with
  | nil => exact h name
  | cons parameter rest ih =>
      obtain ⟨own, _ | _⟩ := parameter <;>
        exact ih (fun key => by rw [Record.get?_insert, Record.get?_insert, h key]) _

theorem Ambient.AgreeOn.stayClose (sort : String → Prop) : StayClose (AgreeOn sort) where
  inside h container := h.inside container
  bound h parameters values := h.bound (Class.bindParameters_congr h.parameters parameters values)

variable {eval : Evaluator}

namespace Scope

variable {scope : Scope}

theorem root?_congr (h : Ambient.AgreeOn sort first second) {name : String} (hname : sort name) :
    scope.root? first name = scope.root? second name := by
  rw [root?, root?]
  split
  · next hmain =>
    subst hmain
    rw [h.main hname]
  · split
    · next hthis =>
      subst hthis
      rw [h.this hname]
    · rw [h.parameters]

/-- A name by itself is never one of a container. -/
theorem named_congr (h : Ambient.AgreeOn sort first second) (name : String) :
    scope.named first name = scope.named second name := by
  rw [named, named]
  split
  · rfl
  · next hname =>
    obtain ⟨hmain, hthis⟩ := not_or.1 hname
    rw [root, root, root?, root?, if_neg hmain, if_neg hthis, if_neg hmain, if_neg hthis,
      h.parameters]

theorem reference_congr (h : Ambient.AgreeOn sort first second) {segments : List String}
    (hroot : ∀ root ∈ segments.head?, sort root) :
    scope.reference first segments = scope.reference second segments := by
  cases segments with
  | nil => rfl
  | cons name keys => rw [reference, reference, root, root, root?_congr h (hroot name rfl)]

theorem textAt?_congr (h : Ambient.AgreeOn sort first second) {path : String}
    (hroot : ∀ root ∈ Placeholder.rootOf? path, sort root) :
    scope.textAt? first path = scope.textAt? second path := by
  rw [Placeholder.rootOf?] at hroot
  rw [textAt?, textAt?]
  split
  · rfl
  · next name keys hpath =>
    rw [hpath] at hroot
    rw [root?_congr h (hroot name rfl)]

theorem literal_congr (h : Ambient.AgreeOn sort first second) {value : Literal}
    (hvalue : ∀ root, value.Names root → sort root) :
    scope.literal first value = scope.literal second value := by
  cases value with
  | string body =>
      rw [literal, literal, Template.fill_congr fun path hpath =>
        textAt?_congr h fun root hroot => hvalue root ⟨path, hpath, hroot⟩]
  | _ => rfl

/-- The defaults of the fields of all classes name nothing but names of some
sort. -/
def DefaultsName (scope : Scope) (sort : String → Prop) : Prop :=
  ∀ name cls, scope.classes.get? name = some cls → cls.NamesOnly sort

/-- An expression has the same outcome in surroundings that agree on what it
names, if the defaults of the classes name no more. -/
theorem eval_congr (hscope : scope.DefaultsName sort) (depth : Nat) :
    Evaluator.Respects sort (scope.eval depth) := by
  induction depth with
  | zero => exact fun _ _ _ _ _ => rfl
  | succ depth ih =>
      intro expr first second hexpr h
      rw [eval, eval, evalParts_congr ih (Ambient.AgreeOn.stayClose sort) h hscope
        (fun _ hpart => hexpr.part hpart)]
      · exact fun _ name _ => named_congr h name
      · rintro _ segments rfl
        exact reference_congr h fun root hroot => hexpr.self hroot
      · rintro _ value rfl
        exact literal_congr h fun root hroot => hexpr.self hroot

end Scope

end

end ConfigNotation

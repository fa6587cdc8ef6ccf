import ConfigNotation.Syntax.Module

/-!
Syntax without its spans. Two pieces of syntax are the same up to spans if they are the same
when the spans are left out.
-/

namespace ConfigNotation

mutual

def Expr.spanless : Expr → Expr
  | .ident _ name => .ident .empty name
  | .path _ segments => .path .empty segments
  | .literal _ value => .literal .empty value
  | .container _ ⟨kind, members⟩ => .container .empty ⟨kind, spanlessMembers members⟩
  | .call _ className arguments => .call .empty className (spanlessArguments arguments)
  | .classInstance _ className ⟨kind, members⟩ =>
      .classInstance .empty className ⟨kind, spanlessMembers members⟩
  | .conditional _ left right => .conditional .empty left.spanless right.spanless

def Expr.spanlessMembers : List (Member Expr) → List (Member Expr)
  | [] => []
  | .property key value :: rest => .property key value.spanless :: spanlessMembers rest
  | .element value :: rest => .element value.spanless :: spanlessMembers rest
  | .spread value :: rest => .spread value.spanless :: spanlessMembers rest

def Expr.spanlessArguments : List (Argument Expr) → List (Argument Expr)
  | [] => []
  | ⟨isSpread, value⟩ :: rest => ⟨isSpread, value.spanless⟩ :: spanlessArguments rest

end

mutual

def TypeExpr.spanless : TypeExpr → TypeExpr
  | .reference name => .reference name
  | .object fields => .object (spanlessFields fields)
  | .array => .array
  | .arrayOf element => .arrayOf element.spanless
  | .tuple elements => .tuple (spanlessElements elements)
  | .literal body => .literal body

def TypeExpr.spanlessFields : List (Field TypeExpr) → List (Field TypeExpr)
  | [] => []
  | ⟨name, type, optional, default, _⟩ :: rest =>
      ⟨name, type.spanless, optional, default.map .spanless, .empty⟩ :: spanlessFields rest

def TypeExpr.spanlessElements : List TypeExpr → List TypeExpr
  | [] => []
  | element :: rest => element.spanless :: spanlessElements rest

end

namespace Member

def spanless : Member Expr → Member Expr
  | property key value => property key value.spanless
  | element value => element value.spanless
  | spread value => spread value.spanless

@[simp] theorem value_spanless (member : Member Expr) :
    member.spanless.value = member.value.spanless := by
  cases member <;> rfl

end Member

def Argument.spanless (argument : Argument Expr) : Argument Expr :=
  ⟨argument.isSpread, argument.value.spanless⟩

def Container.spanless (body : Container Expr) : Container Expr :=
  ⟨body.kind, body.members.map .spanless⟩

namespace Expr

theorem spanlessMembers_eq_map (members : List (Member Expr)) :
    spanlessMembers members = members.map .spanless := by
  induction members with
  | nil => rfl
  | cons member rest ih => cases member <;> simp only [spanlessMembers, ih] <;> rfl

theorem spanlessArguments_eq_map (arguments : List (Argument Expr)) :
    spanlessArguments arguments = arguments.map .spanless := by
  induction arguments with
  | nil => rfl
  | cons argument rest ih =>
      rw [spanlessArguments, ih]
      rfl

theorem spanless_container (span : Span) (body : Container Expr) :
    (container span body).spanless = container .empty body.spanless := by
  rw [spanless, spanlessMembers_eq_map]
  rfl

theorem spanless_call (span : Span) (className : String) (arguments : List (Argument Expr)) :
    (call span className arguments).spanless =
      call .empty className (arguments.map .spanless) := by
  rw [spanless, spanlessArguments_eq_map]

theorem spanless_classInstance (span : Span) (className : String) (body : Container Expr) :
    (classInstance span className body).spanless =
      classInstance .empty className body.spanless := by
  rw [spanless, spanlessMembers_eq_map]
  rfl

mutual

/-- Spans are left out once. -/
theorem spanless_spanless (expr : Expr) : expr.spanless.spanless = expr.spanless := by
  match expr with
  | .ident _ _ | .path _ _ | .literal _ _ => rfl
  | .container _ ⟨_, members⟩ | .classInstance _ _ ⟨_, members⟩ =>
      simp only [spanless, spanlessMembers_spanlessMembers members]
  | .call _ _ arguments =>
      simp only [spanless, spanlessArguments_spanlessArguments arguments]
  | .conditional _ left right =>
      simp only [spanless, spanless_spanless left, spanless_spanless right]

theorem spanlessMembers_spanlessMembers (members : List (Member Expr)) :
    spanlessMembers (spanlessMembers members) = spanlessMembers members := by
  match members with
  | [] => rfl
  | .property _ value :: rest | .element value :: rest | .spread value :: rest =>
      simp only [spanlessMembers, spanless_spanless value, spanlessMembers_spanlessMembers rest]

theorem spanlessArguments_spanlessArguments (arguments : List (Argument Expr)) :
    spanlessArguments (spanlessArguments arguments) = spanlessArguments arguments := by
  match arguments with
  | [] => rfl
  | ⟨_, value⟩ :: rest =>
      simp only [spanlessArguments, spanless_spanless value,
        spanlessArguments_spanlessArguments rest]

end

end Expr

def Field.spanless (field : Field TypeExpr) : Field TypeExpr :=
  ⟨field.name, field.type.spanless, field.optional, field.default.map .spanless, .empty⟩

namespace TypeExpr

theorem spanlessFields_eq_map (fields : List (Field TypeExpr)) :
    spanlessFields fields = fields.map .spanless := by
  induction fields with
  | nil => rfl
  | cons field rest ih =>
      rw [spanlessFields, ih]
      rfl

theorem spanlessElements_eq_map (elements : List TypeExpr) :
    spanlessElements elements = elements.map .spanless := by
  induction elements with
  | nil => rfl
  | cons element rest ih => rw [spanlessElements, ih, List.map_cons]

theorem spanless_object (fields : List (Field TypeExpr)) :
    (object fields).spanless = object (fields.map .spanless) := by
  rw [spanless, spanlessFields_eq_map]

theorem spanless_tuple (elements : List TypeExpr) :
    (tuple elements).spanless = tuple (elements.map .spanless) := by
  rw [spanless, spanlessElements_eq_map]

mutual

theorem spanless_spanless (type : TypeExpr) : type.spanless.spanless = type.spanless := by
  match type with
  | .reference _ | .array | .literal _ => rfl
  | .object fields => simp only [spanless, spanlessFields_spanlessFields fields]
  | .arrayOf element => simp only [spanless, spanless_spanless element]
  | .tuple elements => simp only [spanless, spanlessElements_spanlessElements elements]

theorem spanlessFields_spanlessFields (fields : List (Field TypeExpr)) :
    spanlessFields (spanlessFields fields) = spanlessFields fields := by
  match fields with
  | [] => rfl
  | ⟨_, type, _, default, _⟩ :: rest =>
      have hdefault : (default.map Expr.spanless).map Expr.spanless = default.map .spanless := by
        cases default <;> simp [Expr.spanless_spanless]
      simp only [spanlessFields, spanless_spanless type, hdefault,
        spanlessFields_spanlessFields rest]

theorem spanlessElements_spanlessElements (elements : List TypeExpr) :
    spanlessElements (spanlessElements elements) = spanlessElements elements := by
  match elements with
  | [] => rfl
  | element :: rest =>
      simp only [spanlessElements, spanless_spanless element,
        spanlessElements_spanlessElements rest]

end

end TypeExpr

def ClassDecl.spanless (decl : ClassDecl) : ClassDecl :=
  { decl with fields := decl.fields.map .spanless, span := .empty }

def Import.spanless (statement : Import) : Import := { statement with span := .empty }

def Use.spanless (statement : Use) : Use :=
  { statement with value := statement.value.spanless, span := .empty }

def Module.spanless (module : Module) : Module where
  imports := module.imports.map .spanless
  uses := module.uses.map .spanless
  classes := module.classes.map .spanless
  body := module.body.spanless

end ConfigNotation

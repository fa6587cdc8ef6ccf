import Mathlib.Logic.Relation
import ConfigNotation.Syntax.Expr

/-!
The parts of an expression: those that it is built from at once, and those at any depth.
-/

namespace ConfigNotation

open Relation

namespace Expr

def parts : Expr → List Expr
  | ident .. | path .. | literal .. => []
  | container _ body | classInstance _ _ body => body.members.map (·.value)
  | call _ _ arguments => arguments.map (·.value)
  | conditional _ left right => [left, right]

theorem sizeOf_value_lt {member : Member Expr} : sizeOf member.value < sizeOf member := by
  cases member <;> simp only [Member.value, Member.property.sizeOf_spec,
    Member.element.sizeOf_spec, Member.spread.sizeOf_spec] <;> omega

theorem sizeOf_lt_of_mem_members {body : Container Expr} {part : Expr}
    (h : part ∈ body.members.map (·.value)) :
    sizeOf part < sizeOf body := by
  obtain ⟨member, hmember, rfl⟩ := List.mem_map.1 h
  have hvalue : sizeOf member.value < sizeOf member := sizeOf_value_lt
  have hmembers := List.sizeOf_lt_of_mem hmember
  rw [Container.mk.sizeOf_spec]
  omega

theorem sizeOf_lt_of_mem_parts {expr part : Expr} (h : part ∈ expr.parts) :
    sizeOf part < sizeOf expr := by
  cases expr with
  | ident | path | literal => cases h
  | container span body =>
      have hbody := sizeOf_lt_of_mem_members h
      rw [container.sizeOf_spec]
      omega
  | classInstance span className body =>
      have hbody := sizeOf_lt_of_mem_members h
      rw [classInstance.sizeOf_spec]
      omega
  | call span className arguments =>
      obtain ⟨argument, hargument, rfl⟩ := List.mem_map.1 h
      have harguments := List.sizeOf_lt_of_mem hargument
      obtain ⟨isSpread, value⟩ := argument
      rw [Argument.mk.sizeOf_spec] at harguments
      rw [call.sizeOf_spec]
      dsimp only
      omega
  | conditional span left right =>
      rw [conditional.sizeOf_spec]
      rcases List.mem_cons.1 h with rfl | h
      · omega
      · rw [List.mem_singleton.1 h]
        omega

/-- What holds of an expression if it holds of its parts holds of all
expressions. -/
theorem parts_induction {motive : Expr → Prop}
    (step : ∀ expr, (∀ part ∈ expr.parts, motive part) → motive expr) (expr : Expr) :
    motive expr :=
  step expr fun part _ => parts_induction step part
termination_by expr
decreasing_by exact sizeOf_lt_of_mem_parts ‹_›

/-- An expression has another one in it, at whatever depth, or is it. -/
def Contains : Expr → Expr → Prop := ReflTransGen fun whole part => part ∈ whole.parts

def className? : Expr → Option String
  | call _ className _ | classInstance _ className _ => some className
  | _ => none

/-- An expression has a call or an instance of a class in it. -/
def Involves (expr : Expr) (className : String) : Prop :=
  ∃ part, expr.Contains part ∧ part.className? = some className

theorem Involves.of_part {expr part : Expr} {className : String}
    (h : part.Involves className) (hpart : part ∈ expr.parts) :
    expr.Involves className := by
  obtain ⟨inner, hinner, hname⟩ := h
  exact ⟨inner, .head hpart hinner, hname⟩

end Expr

end ConfigNotation

import ConfigNotation.File.Path
import ConfigNotation.Proofs.Text.Split

/-!
The normal form of paths. A path in normal form has the steps that it was made of, and
taking its normal form again changes nothing; so two of them with the same steps are the
same path.
-/

namespace ConfigNotation

open Text

namespace Path

def IsStep (step : Step) : Prop := stepOf? (stepChars step) = some step ∧ '/' ∉ stepChars step

theorem isStep_up : IsStep .up := ⟨rfl, by decide⟩

theorem isStep_of_stepOf? {piece : List Char} {step : Step} (hpiece : '/' ∉ piece)
    (h : stepOf? piece = some step) :
    IsStep step := by
  unfold stepOf? at h
  split at h
  · cases h
  · next hsome =>
    split at h
    · cases h
      exact isStep_up
    · next hup =>
      cases h
      rw [IsStep, stepChars, String.toList_ofList, stepOf?, if_neg hsome, if_neg hup]
      exact ⟨rfl, hpiece⟩

theorem IsStep.ne_dot {step : Step} (h : IsStep step) : stepChars step ≠ ['.'] := by
  intro heq
  have hstep := h.1
  rw [heq] at hstep
  cases hstep

theorem filterMap_stepChars {steps : List Step} (h : ∀ step ∈ steps, IsStep step) :
    (steps.map stepChars).filterMap stepOf? = steps := by
  induction steps with
  | nil => rfl
  | cons step steps ih =>
      rw [List.forall_mem_cons] at h
      rw [List.map_cons, List.filterMap_cons_some h.1.1, ih h.2]

/-- The steps of a relative path that is made of steps. -/
theorem steps_ofSteps_relative {steps : List Step} (h : ∀ step ∈ steps, IsStep step) :
    (ofSteps steps).steps = steps := by
  cases steps with
  | nil => decide
  | cons first rest =>
      obtain ⟨hfirst, hrest⟩ := List.forall_mem_cons.1 h
      have hnoRoot : first :: rest ≠ [.root] := by
        rintro ⟨⟩
        cases hfirst.1
      have htext : (ofSteps (first :: rest)).text.toList =
          joinWith ['/'] (stepChars first :: rest.map stepChars) := by
        rw [ofSteps, String.toList_ofList]
        · rfl
        · exact hnoRoot
      have hsplit : splitOn '/' (ofSteps (first :: rest)).text.toList =
          stepChars first :: rest.map stepChars := by
        rw [htext, splitOn_joinWith (by simp)]
        rw [List.forall_mem_cons, List.forall_mem_map]
        exact ⟨hfirst.2, fun step hstep => (hrest step hstep).2⟩
      have hrelative : (ofSteps (first :: rest)).isAbsolute = false := by
        rw [isAbsolute, htext]
        cases hchars : stepChars first with
        | nil =>
            have hstep := hfirst.1
            rw [hchars] at hstep
            cases hstep
        | cons c chars =>
            have hother : c ≠ '/' := by
              have hnot := hfirst.2
              rw [hchars, List.mem_cons, not_or] at hnot
              exact Ne.symm hnot.1
            cases rest <;> simp [joinWith, hother]
      rw [steps, hsplit]
      dsimp only
      rw [hrelative, if_neg Bool.false_ne_true, if_neg hfirst.ne_dot, hfirst.1,
        filterMap_stepChars hrest]
      rfl

/-- The steps of an absolute path that is made of steps. -/
theorem steps_ofSteps_absolute {steps : List Step} (h : ∀ step ∈ steps, IsStep step) :
    (ofSteps (.root :: steps)).steps = .root :: steps := by
  cases steps with
  | nil => decide
  | cons first rest =>
      have htext : (ofSteps (.root :: first :: rest)).text.toList =
          joinWith ['/'] ([] :: (first :: rest).map stepChars) := by
        rw [ofSteps, String.toList_ofList]
        · rfl
        · nofun
      have hsplit : splitOn '/' (ofSteps (.root :: first :: rest)).text.toList =
          [] :: (first :: rest).map stepChars := by
        rw [htext, splitOn_joinWith (by simp)]
        rw [List.forall_mem_cons, List.forall_mem_map]
        exact ⟨by simp, fun step hstep => (h step hstep).2⟩
      have habsolute : (ofSteps (.root :: first :: rest)).isAbsolute = true := by
        rw [isAbsolute, htext]
        rfl
      rw [Path.steps, hsplit]
      dsimp only
      rw [habsolute, if_pos rfl, filterMap_stepChars h]
      rfl

/-- The places that a walk gets to, last step first: names, behind a step up at
most, behind the root at most. -/
inductive IsNormalPlace : List Step → Prop where
  | empty : IsNormalPlace []
  | root : IsNormalPlace [.root]
  | up {start : List Step} (hstart : start = [] ∨ start = [.root]) : IsNormalPlace (.up :: start)
  | name {name : String} {place : List Step} (hname : IsStep (.name name))
      (hplace : IsNormalPlace place) : IsNormalPlace (.name name :: place)

/-- Walking one step from a normal place leads to a normal place. -/
theorem IsNormalPlace.walk {place : List Step} (h : IsNormalPlace place) {step : Step}
    (hstep : IsStep step ∨ step = .here) :
    IsNormalPlace (walk place step) := by
  rcases hstep with hstep | rfl
  · cases step with
    | root | here => cases hstep.1
    | name name => exact .name hstep h
    | up =>
        cases h with
        | empty => exact .up (.inl rfl)
        | root => exact .up (.inr rfl)
        | up hstart =>
            rcases hstart with rfl | rfl
            · exact .empty
            · exact .root
        | name _ hplace => exact hplace
  · exact h

theorem IsNormalPlace.foldl {place : List Step} (h : IsNormalPlace place) {steps : List Step}
    (hsteps : ∀ step ∈ steps, IsStep step ∨ step = .here) :
    IsNormalPlace (steps.foldl Path.walk place) := by
  induction steps generalizing place with
  | nil => exact h
  | cons step steps ih =>
      rw [List.forall_mem_cons] at hsteps
      exact ih (h.walk hsteps.1) hsteps.2

/-- Walking to a place that a walk gets to leads there. -/
theorem IsNormalPlace.walk_again {place : List Step} (h : IsNormalPlace place) :
    place.reverse.foldl Path.walk [] = place := by
  induction h with
  | empty | root => rfl
  | up hstart => rcases hstart with rfl | rfl <;> rfl
  | name hname _ ih => rw [List.reverse_cons, List.foldl_append, ih]; rfl

theorem IsNormalPlace.steps {place : List Step} (h : IsNormalPlace place) :
    (ofSteps place.reverse).steps = place.reverse := by
  have hshape : (∀ step ∈ place.reverse, IsStep step) ∨
      ∃ steps, place.reverse = .root :: steps ∧ ∀ step ∈ steps, IsStep step := by
    induction h with
    | empty => exact .inl nofun
    | root => exact .inr ⟨[], rfl, nofun⟩
    | up hstart =>
        rcases hstart with rfl | rfl
        · exact .inl fun step hstep => List.mem_singleton.1 hstep ▸ isStep_up
        · exact .inr ⟨[.up], rfl, fun step hstep => List.mem_singleton.1 hstep ▸ isStep_up⟩
    | name hname _ ih =>
        rw [List.reverse_cons]
        rcases ih with hall | ⟨steps, heq, hall⟩
        · refine .inl ?_
          rw [List.forall_mem_append, List.forall_mem_singleton]
          exact ⟨hall, hname⟩
        · refine .inr ⟨steps ++ [_], by rw [heq, List.cons_append], ?_⟩
          rw [List.forall_mem_append, List.forall_mem_singleton]
          exact ⟨hall, hname⟩
  rcases hshape with hall | ⟨steps, heq, hall⟩
  · exact steps_ofSteps_relative hall
  · rw [heq]
    exact steps_ofSteps_absolute hall

/-- The pieces behind the first one stand for steps. -/
theorem isStep_of_mem_pieces {text first : List Char} {pieces : List (List Char)} {step : Step}
    (hsplit : splitOn '/' text = first :: pieces) (h : step ∈ pieces.filterMap stepOf?) :
    IsStep step := by
  obtain ⟨piece, hpiece, hstep⟩ := List.mem_filterMap.1 h
  have hmember : piece ∈ splitOn '/' text := hsplit ▸ List.mem_cons_of_mem first hpiece
  exact isStep_of_stepOf? (not_mem_of_mem_splitOn hmember) hstep

theorem isNormalPlace_walk (path : Path) : IsNormalPlace (path.steps.foldl Path.walk []) := by
  unfold Path.steps
  split
  · exact .empty
  · next first pieces hsplit =>
    have hpieces : ∀ step ∈ pieces.filterMap stepOf?, IsStep step ∨ step = .here :=
      fun step hstep => .inl (isStep_of_mem_pieces hsplit hstep)
    rw [List.foldl_append]
    refine IsNormalPlace.foldl ?_ hpieces
    split
    · exact .root
    · split
      · exact .empty
      · refine IsNormalPlace.empty.foldl ?_
        intro step hstep
        refine .inl (isStep_of_stepOf? ?_ (Option.mem_toList.1 hstep))
        exact not_mem_of_mem_splitOn (hsplit ▸ List.mem_cons_self)

/-- The normal form as a path has exactly the steps of the normal form, so
writing it down loses nothing. -/
theorem steps_normalize (path : Path) : path.normalize.steps = path.normalSteps :=
  (isNormalPlace_walk path).steps

theorem normalSteps_normalize (path : Path) : path.normalize.normalSteps = path.normalSteps := by
  have hwalk := (isNormalPlace_walk path).walk_again
  rw [normalSteps, steps_normalize]
  exact congrArg List.reverse hwalk

/-- A path that is its own normal form. -/
def IsNormal (path : Path) : Prop := path.normalize = path

/-- The normal form of a path is its own normal form. -/
theorem isNormal_normalize (path : Path) : path.normalize.IsNormal :=
  congrArg ofSteps (normalSteps_normalize path)

/-- The normal form is told by its steps. -/
theorem normalize_eq_iff {path other : Path} :
    path.normalize = other.normalize ↔ path.normalSteps = other.normalSteps := by
  constructor
  · intro h
    rw [← normalSteps_normalize path, h, normalSteps_normalize]
  · intro h
    exact congrArg ofSteps h

theorem IsNormal.steps_eq {path : Path} (h : path.IsNormal) : path.steps = path.normalSteps := by
  have hsteps := steps_normalize path
  rwa [h] at hsteps

/-- Two paths in normal form are the same if their steps are. -/
theorem IsNormal.eq_of_steps {path other : Path} (h : path.IsNormal) (hother : other.IsNormal)
    (hsteps : path.steps = other.steps) :
    path = other := by
  have hnormal : path.normalSteps = other.normalSteps := by
    rw [← h.steps_eq, ← hother.steps_eq, hsteps]
  have heq : path.normalize = other.normalize := congrArg ofSteps hnormal
  rwa [h, hother] at heq

end Path

end ConfigNotation

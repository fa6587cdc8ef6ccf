import Mathlib.Algebra.Group.Nat.Even
import Mathlib.Data.List.Chain
import Mathlib.Logic.Relation
import ConfigNotation.Proofs.File.Normal

/-!
Lexical resolution of paths, as a rewriting of steps that has one result for all steps, and
how far the normal form is from it. Both keep the same names. Steps up that find no name to
take back are all kept by the resolution of a relative path, and all dropped at the root; in
the normal form they take back one another.
-/

namespace ConfigNotation.Path

/-- One step of lexical resolution: a dot goes, a step up goes together with the
name in front of it, and at the root it goes alone. -/
inductive Shortens : List Step → List Step → Prop where
  | here (before after : List Step) : Shortens (before ++ .here :: after) (before ++ after)
  | back (before after : List Step) (name : String) :
      Shortens (before ++ .name name :: .up :: after) (before ++ after)
  | atRoot (before after : List Step) :
      Shortens (before ++ .root :: .up :: after) (before ++ .root :: after)

/-- There is no dot, and in front of a step up there are only other ones. -/
def IsResolved (steps : List Step) : Prop :=
  .here ∉ steps ∧ steps.IsChain fun first second => second = .up → first = .up

structure Resolves (steps form : List Step) : Prop where
  shortens : Relation.ReflTransGen Shortens steps form
  isResolved : IsResolved form

/-- Lexical resolution, from the last step to the first. -/
def resolution : List Step → List Step
  | [] => []
  | .root :: rest => .root :: (resolution rest).dropWhile (· = .up)
  | .here :: rest => resolution rest
  | .up :: rest => .up :: resolution rest
  | .name name :: rest =>
      match resolution rest with
      | .up :: later => later
      | later => .name name :: later

/-- Resolution looks at steps from the last one on, so steps in front can be
added to two lists that resolve alike. -/
theorem resolution_append {first second : List Step} (h : resolution first = resolution second)
    (before : List Step) :
    resolution (before ++ first) = resolution (before ++ second) := by
  induction before with
  | nil => exact h
  | cons step before ih => cases step <;> simp only [List.cons_append, resolution, ih]

/-- Shortening changes nothing about the resolution. -/
theorem Shortens.resolution_eq {steps next : List Step} (h : Shortens steps next) :
    resolution steps = resolution next := by
  cases h with
  | here before after =>
      have hredex : resolution (.here :: after) = resolution after := rfl
      exact resolution_append hredex before
  | back before after name =>
      have hredex : resolution (.name name :: .up :: after) = resolution after := rfl
      exact resolution_append hredex before
  | atRoot before after =>
      have hredex : resolution (.root :: .up :: after) = resolution (.root :: after) := by
        simp [resolution]
      exact resolution_append hredex before

theorem Shortens.cons {steps next : List Step} (step : Step) (h : Shortens steps next) :
    Shortens (step :: steps) (step :: next) := by
  cases h with
  | here before after => exact .here (step :: before) after
  | back before after name => exact .back (step :: before) after name
  | atRoot before after => exact .atRoot (step :: before) after

theorem IsResolved.of_cons {step : Step} {steps : List Step} (h : IsResolved (step :: steps)) :
    IsResolved steps :=
  ⟨fun hmem => h.1 (List.mem_cons_of_mem step hmem), h.2.of_cons⟩

/-- In front of steps that start with no step up, any other step is resolved
too. -/
theorem IsResolved.cons {step : Step} {steps : List Step} (h : IsResolved steps)
    (hstep : step ≠ .here) (hup : step = .up ∨ steps.head? ≠ some .up) :
    IsResolved (step :: steps) := by
  constructor
  · simp [h.1, hstep.symm]
  · cases steps with
    | nil => exact .singleton step
    | cons next rest =>
        apply List.IsChain.cons_cons _ h.2
        intro hnext
        exact hup.resolve_right fun hother => hother (congrArg some hnext)

theorem IsResolved.head?_ne_up {step : Step} {steps : List Step} (h : IsResolved (step :: steps))
    (hstep : step ≠ .up) : steps.head? ≠ some .up := by
  intro hhead
  obtain ⟨rest, rfl⟩ := List.head?_eq_some_iff.1 hhead
  exact hstep (h.2.rel rfl)

/-- What is resolved is its own resolution. -/
theorem IsResolved.resolution_eq {steps : List Step} (h : IsResolved steps) :
    resolution steps = steps := by
  induction steps with
  | nil => rfl
  | cons step rest ih =>
      have hrest := ih h.of_cons
      cases step with
      | here => exact absurd List.mem_cons_self h.1
      | up => rw [resolution, hrest]
      | root =>
          have hhead := h.head?_ne_up nofun
          rw [resolution, hrest]
          cases rest with
          | nil => rfl
          | cons next later => rw [List.dropWhile_cons_of_neg (by simpa using hhead)]
      | name name =>
          have hhead := h.head?_ne_up nofun
          rw [resolution, hrest]
          split
          · exact absurd rfl hhead
          · rfl

/-- Resolution leaves no dot and no name in front of a step up; nothing is left
to shorten. -/
theorem isResolved_resolution (steps : List Step) : IsResolved (resolution steps) := by
  induction steps with
  | nil => exact ⟨List.not_mem_nil, .nil⟩
  | cons step rest ih =>
      cases step with
      | here => exact ih
      | up => exact ih.cons nofun (.inl rfl)
      | root =>
          have hsuffix := List.dropWhile_suffix (l := resolution rest) (· = .up)
          have hdropped : IsResolved ((resolution rest).dropWhile (· = .up)) :=
            ⟨fun hmem => ih.1 (hsuffix.subset hmem), ih.2.suffix hsuffix⟩
          refine hdropped.cons nofun (.inr ?_)
          intro hhead
          simpa [hhead] using List.head?_dropWhile_not (· = Step.up) (resolution rest)
      | name name =>
          rw [resolution]
          split
          · next heq => exact (heq ▸ ih).of_cons
          · next hother =>
            refine ih.cons nofun (.inr ?_)
            intro hhead
            obtain ⟨later, heq⟩ := List.head?_eq_some_iff.1 hhead
            exact hother later heq

theorem shortens_atRoot (steps : List Step) :
    Relation.ReflTransGen Shortens (.root :: steps) (.root :: steps.dropWhile (· = .up)) := by
  induction steps with
  | nil => exact .refl
  | cons step rest ih =>
      by_cases h : step = .up
      · rw [List.dropWhile_cons_of_pos (by simpa using h), h]
        exact .head (.atRoot [] rest) ih
      · rw [List.dropWhile_cons_of_neg (by simpa using h)]

/-- Resolution is reached by the two ways to shorten: dropping a dot, and
dropping a name with the step up behind it. -/
theorem shortens_resolution (steps : List Step) :
    Relation.ReflTransGen Shortens steps (resolution steps) := by
  induction steps with
  | nil => exact .refl
  | cons step rest ih =>
      have hrest : Relation.ReflTransGen Shortens (step :: rest) (step :: resolution rest) :=
        ih.lift (step :: ·) fun _ _ => Shortens.cons step
      cases step with
      | here => exact .head (.here [] rest) ih
      | up => exact hrest
      | root => exact hrest.trans (shortens_atRoot _)
      | name name =>
          rw [resolution]
          split
          · next later heq => exact hrest.tail (heq ▸ .back [] later name)
          · exact hrest

/-- Shortening does not change what steps resolve to, so the order in which
steps are shortened makes no difference. -/
theorem resolution_eq_of_shortens {steps form : List Step}
    (h : Relation.ReflTransGen Shortens steps form) :
    resolution steps = resolution form := by
  induction h with
  | refl => rfl
  | tail _ hstep ih => exact ih.trans hstep.resolution_eq

/-- Lexical resolution has one result. -/
theorem resolves_iff {steps form : List Step} : Resolves steps form ↔ form = resolution steps := by
  constructor
  · intro h
    rw [resolution_eq_of_shortens h.shortens, h.isResolved.resolution_eq]
  · rintro rfl
    exact ⟨shortens_resolution steps, isResolved_resolution steps⟩

/-- How many steps up find no name in front of them that they take back. -/
def climb : List Step → Nat
  | [] => 0
  | .root :: rest | .here :: rest => climb rest
  | .up :: rest => climb rest + 1
  | .name _ :: rest => climb rest - 1

/-- The names that no step up takes back. -/
def kept : List Step → List String
  | [] => []
  | .root :: rest | .here :: rest | .up :: rest => kept rest
  | .name name :: rest => if climb rest = 0 then name :: kept rest else kept rest

/-- Relative steps resolve to as many steps up as nothing takes back, and then
to the names that are kept. -/
theorem resolution_of_relative {steps : List Step} (h : .root ∉ steps) :
    resolution steps = List.replicate (climb steps) .up ++ (kept steps).map .name := by
  induction steps with
  | nil => rfl
  | cons step rest ih =>
      have hrest := ih fun hmem => h (List.mem_cons_of_mem step hmem)
      cases step with
      | root => exact absurd List.mem_cons_self h
      | here => exact hrest
      | up => rw [resolution, hrest, climb, kept, List.replicate_succ, List.cons_append]
      | name name =>
          rw [resolution, hrest, climb, kept]
          cases climb rest with
          | zero => cases kept rest <;> rfl
          | succ count => rfl

theorem dropWhile_up_resolution {steps : List Step} (h : .root ∉ steps) :
    (resolution steps).dropWhile (· = .up) = (kept steps).map .name := by
  rw [resolution_of_relative h, List.dropWhile_append_of_pos (by simp)]
  cases kept steps <;> rfl

/-- Where a walk is that starts at a place and took a number of steps up from
it. Each of them takes back the one before. -/
def risen (start : List Step) (count : Nat) : List Step :=
  if Even count then start else .up :: start

/-- One more step up from where a number of them has led. Both at the root and
at no place, an even number of steps leads back to the start. -/
theorem walk_risen {start : List Step} (hstart : start = [] ∨ start = [.root]) (count : Nat) :
    walk (risen start count) .up = risen start (count + 1) := by
  simp only [risen, Nat.even_add_one]
  rcases hstart with rfl | rfl <;> split <;> rfl

/-- A walk goes on from names above its start: of these the steps up that find
none in what follows take back the last ones, and the others go up from the
start. -/
theorem foldl_walk {start steps : List Step} (hstart : start = [] ∨ start = [.root])
    (hsteps : .root ∉ steps) (names : List String) (count : Nat) :
    steps.foldl walk (names.map .name ++ risen start count) =
      ((kept steps).reverse ++ names.drop (climb steps)).map .name ++
        risen start (count + (climb steps - names.length)) := by
  induction steps generalizing names count with
  | nil => simp [climb, kept]
  | cons step rest ih =>
      have hrest : .root ∉ rest := fun hmem => hsteps (List.mem_cons_of_mem step hmem)
      cases step with
      | root => exact absurd List.mem_cons_self hsteps
      | here => exact ih hrest names count
      | up =>
          cases names with
          | nil =>
              have hnext := ih hrest [] (count + 1)
              rw [List.foldl_cons, List.map_nil, List.nil_append, walk_risen hstart, climb, kept]
              simpa [Nat.add_assoc, Nat.add_comm 1] using hnext
          | cons last names =>
              have hnext := ih hrest names count
              rw [climb, kept, List.drop_succ_cons, List.length_cons, Nat.add_sub_add_right]
              exact hnext
      | name name =>
          have hnext := ih hrest (name :: names) count
          rw [List.foldl_cons]
          change rest.foldl walk ((name :: names).map .name ++ risen start count) = _
          rw [hnext, climb, kept]
          cases climb rest <;> simp

def origin (path : Path) : List Step := if path.isAbsolute then [.root] else []

theorem stepOf?_ne_root (piece : List Char) : stepOf? piece ≠ some .root := by
  rw [stepOf?]
  split
  · simp
  · split <;> simp

/-- The steps of a path start at the root or nowhere, and none behind leads to
the root. -/
theorem steps_from_origin (path : Path) :
    ∃ rest, path.steps = path.origin ++ rest ∧ .root ∉ rest := by
  have hpieces : ∀ pieces, .root ∉ List.filterMap stepOf? pieces := by
    intro pieces hmem
    obtain ⟨piece, -, hpiece⟩ := List.mem_filterMap.1 hmem
    exact stepOf?_ne_root piece hpiece
  unfold steps origin
  split
  · next hsplit => exact absurd hsplit (Text.splitOn_ne_nil _ _)
  · next first pieces hsplit =>
    split
    · exact ⟨_, rfl, hpieces pieces⟩
    · have hfirst : .root ∉ if first = ['.'] then [.here] else (stepOf? first).toList := by
        split
        · nofun
        · rw [Option.mem_toList]
          exact stepOf?_ne_root first
      exact ⟨_, rfl, List.not_mem_append hfirst (hpieces pieces)⟩

theorem origin_cases (path : Path) : path.origin = [] ∨ path.origin = [.root] := by
  rw [origin]
  split
  · exact .inr rfl
  · exact .inl rfl

theorem climb_origin (path : Path) (rest : List Step) :
    climb (path.origin ++ rest) = climb rest := by
  rcases path.origin_cases with horigin | horigin <;> rw [horigin] <;> rfl

theorem kept_origin (path : Path) (rest : List Step) :
    kept (path.origin ++ rest) = kept rest := by
  rcases path.origin_cases with horigin | horigin <;> rw [horigin] <;> rfl

/-- The normal form keeps the names that no step up takes back, and of the steps
up that find none it keeps one if their number is odd. -/
theorem normalSteps_eq (path : Path) : path.normalSteps =
    (risen path.origin (climb path.steps)).reverse ++ (kept path.steps).map .name := by
  obtain ⟨rest, hsteps, hroot⟩ := path.steps_from_origin
  have hstart : path.origin.foldl walk [] = [] ++ risen path.origin 0 := by
    rcases path.origin_cases with horigin | horigin <;> rw [horigin] <;> rfl
  have hwalk := foldl_walk path.origin_cases hroot [] 0
  rw [List.map_nil, ← hstart] at hwalk
  rw [normalSteps, hsteps, List.foldl_append, hwalk, climb_origin, kept_origin]
  simp

/-- Lexical resolution keeps the same names. It keeps all steps up that find
none if the path is relative, and none of them otherwise. -/
theorem resolution_steps (path : Path) : resolution path.steps =
    (if path.isAbsolute then [.root] else List.replicate (climb path.steps) .up) ++
      (kept path.steps).map .name := by
  obtain ⟨rest, hsteps, hroot⟩ := path.steps_from_origin
  rw [hsteps, climb_origin, kept_origin, origin]
  split
  · rw [List.singleton_append, resolution, dropWhile_up_resolution hroot]
    rfl
  · exact resolution_of_relative hroot

/-- The steps in front of the names in the normal form. -/
theorem reverse_risen (path : Path) : (risen path.origin (climb path.steps)).reverse =
    path.origin ++ if Even (climb path.steps) then [] else [.up] := by
  rw [risen]
  rcases path.origin_cases with horigin | horigin <;> rw [horigin] <;> split <;> rfl

/-- The normal form is the resolution of an absolute path if its steps up at the
root take back one another, and that of a relative path if at most one step up
finds no name. -/
theorem resolution_eq_normalSteps_iff (path : Path) :
    resolution path.steps = path.normalSteps ↔
      if path.isAbsolute then Even (climb path.steps) else climb path.steps ≤ 1 := by
  rw [resolution_steps, normalSteps_eq, reverse_risen, List.append_left_inj, origin]
  cases path.isAbsolute with
  | true =>
      simp only [if_true]
      split <;> simp_all
  | false =>
      simp only [Bool.false_eq_true, if_false, List.nil_append]
      match climb path.steps with
      | 0 => simp
      | 1 => simp
      | count + 2 =>
          have hlong : List.replicate (count + 2) Step.up ≠
              if Even (count + 2) then [] else [.up] := by
            split <;> simp [List.replicate_succ]
          simp [hlong]

section

variable {path other : Path}

/-- The normal form of an absolute path: the root, one step up if an odd number
of them climbs above it, and the names that are kept. -/
theorem normalSteps_of_absolute (h : path.isAbsolute = true) : path.normalSteps =
    .root :: (if Even (climb path.steps) then [] else [.up]) ++ (kept path.steps).map .name := by
  rw [normalSteps_eq, reverse_risen, origin, if_pos h, List.singleton_append]

/-- Absolute paths with the same resolution have the same normal form if their
steps up at the root are both even in number or both odd. -/
theorem normalSteps_eq_iff (h : path.isAbsolute = true) (hother : other.isAbsolute = true) :
    path.normalSteps = other.normalSteps ↔ resolution path.steps = resolution other.steps ∧
      (Even (climb path.steps) ↔ Even (climb other.steps)) := by
  have hnames : Function.Injective (List.map Step.name) :=
    List.map_injective_iff.2 fun _ _ heq => Step.name.inj heq
  have hup (rest : List Step) (names : List String) : .up :: rest ≠ names.map .name := by
    cases names <;> nofun
  rw [normalSteps_of_absolute h, normalSteps_of_absolute hother, resolution_steps,
    resolution_steps, if_pos h, if_pos hother]
  by_cases heven : Even (climb path.steps) <;> by_cases hsecond : Even (climb other.steps) <;>
    simp [heven, hsecond, hnames.eq_iff, hup, (hup _ _).symm]

/-- A step up is left in an absolute normal form exactly if an odd number of
steps climbs above the root. -/
theorem up_mem_normalSteps_iff (h : path.isAbsolute = true) :
    .up ∈ path.normalSteps ↔ ¬Even (climb path.steps) := by
  rw [normalSteps_of_absolute h]
  by_cases heven : Even (climb path.steps) <;> simp [heven]

/-- No dot is left in a normal form, relative or absolute. -/
theorem here_not_mem_normalSteps (path : Path) : .here ∉ path.normalSteps := by
  rw [normalSteps_eq, reverse_risen]
  rcases path.origin_cases with horigin | horigin <;> rw [horigin] <;> split <;> simp

end

/-- From an absolute base all paths are absolute. -/
theorem isAbsolute_join {base : Path} (h : base.isAbsolute = true) (path : Path) :
    (base.join path).isAbsolute = true := by
  obtain ⟨rest, hbase⟩ : ∃ rest, base.text.toList = '/' :: rest :=
    List.head?_eq_some_iff.1 (beq_iff_eq.1 h)
  rw [join]
  split
  · assumption
  · split <;> simp [isAbsolute, hbase]

/-- Lexical resolution has one result for every path. The normal form is that
result exactly if the steps up that find no name to take back are even in
number, where the path is absolute, or one at most, where it is relative. A path
seen from an absolute base has no dots and steps up in its normal form exactly
in the first case, and two paths lead from there to the same entry of an import
cache exactly if they have the same resolution and both or neither are in that
case. -/
theorem normal_form_resolves_iff (path : Path) :
    (∃! form, Resolves path.steps form) ∧
    (Resolves path.steps path.normalize.steps ↔
      if path.isAbsolute then Even (climb path.steps) else climb path.steps ≤ 1) ∧
    ∀ base other : Path, base.isAbsolute = true →
      ((∀ step ∈ (base.resolve path).steps, step ≠ .here ∧ step ≠ .up) ↔
        Even (climb (base.join path).steps)) ∧
      ((base.resolve path).same (base.resolve other) = true ↔
        (∃ form, Resolves (base.join path).steps form ∧ Resolves (base.join other).steps form) ∧
          (Even (climb (base.join path).steps) ↔ Even (climb (base.join other).steps))) := by
  refine ⟨⟨resolution path.steps, resolves_iff.2 rfl, fun _ h => resolves_iff.1 h⟩, ?_, ?_⟩
  · rw [resolves_iff, steps_normalize, eq_comm]
    exact path.resolution_eq_normalSteps_iff
  intro base other hbase
  have hpath := isAbsolute_join hbase path
  have hother := isAbsolute_join hbase other
  constructor
  · rw [resolve, steps_normalize]
    constructor
    · intro hplain
      by_contra hodd
      exact (hplain .up ((up_mem_normalSteps_iff hpath).2 hodd)).2 rfl
    · intro heven step hmem
      constructor
      · rintro rfl
        exact here_not_mem_normalSteps _ hmem
      · rintro rfl
        exact (up_mem_normalSteps_iff hpath).1 hmem heven
  · rw [same, beq_iff_eq, resolve, resolve, steps_normalize, steps_normalize,
      normalSteps_eq_iff hpath hother]
    simp only [resolves_iff, exists_eq_left]

/-- A path that leads two steps up from the root. -/
theorem normal_form_resolves_iff_past_root :
    (Path.mk "/w").isAbsolute = true ∧
      (∀ step ∈ ((Path.mk "/w").resolve ⟨"../../../x"⟩).steps, step ≠ .here ∧ step ≠ .up) ∧
      ((Path.mk "/w").resolve ⟨"../../../x"⟩).same ((Path.mk "/w").resolve ⟨"/./x"⟩) = true := by
  have habsolute : (Path.mk "/w").isAbsolute = true := by decide
  obtain ⟨hplain, hsame⟩ :=
    (normal_form_resolves_iff ⟨"../../../x"⟩).2.2 ⟨"/w"⟩ ⟨"/./x"⟩ habsolute
  refine ⟨habsolute, hplain.2 (by decide), hsame.2 ⟨⟨[.root, .name "x"], ?_, ?_⟩, by decide⟩⟩
  · rw [resolves_iff]
    decide
  · rw [resolves_iff]
    decide

/-- One step up from the root is left in the normal form, and of two in front of
a relative path none is left. -/
theorem normal_form_keeps_step_up :
    (Path.mk "/w").resolve ⟨"../../x"⟩ = ⟨"/../x"⟩ ∧
      Resolves ((Path.mk "/w").join ⟨"../../x"⟩).steps [.root, .name "x"] ∧
      ((Path.mk "/w").resolve ⟨"../../x"⟩).same ((Path.mk "/w").resolve ⟨"/x"⟩) = false ∧
      (Path.mk "../..").normalize = ⟨""⟩ ∧ Resolves (Path.mk "../..").steps [.up, .up] := by
  refine ⟨by decide, ?_, by decide, by decide, ?_⟩
  · rw [resolves_iff]
    decide
  · rw [resolves_iff]
    decide

end ConfigNotation.Path

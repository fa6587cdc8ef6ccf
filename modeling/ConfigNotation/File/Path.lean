import ConfigNotation.Text.Split

/-!
Paths. Two paths name the same place in the same way if they have the same
steps; separators that are written twice and dots that stay in place are no
steps. The normal form also takes back steps that go up again.
-/

namespace ConfigNotation

/-- A step of a path: to the root, to the place itself, up, or into a
directory. -/
inductive Step where
  | root
  | here
  | up
  | name (name : String)
  deriving DecidableEq, Repr

structure Path where
  text : String
  deriving DecidableEq, Repr, Inhabited

namespace Path

/-- The step that a piece between separators stands for, behind the first one. -/
def stepOf? (piece : List Char) : Option Step :=
  if piece = [] ∨ piece = ['.'] then none
  else if piece = ['.', '.'] then some .up
  else some (.name (String.ofList piece))

def isAbsolute (path : Path) : Bool := path.text.toList.head? == some '/'

/-- The steps of a path. A dot counts only at the start of a relative path. -/
def steps (path : Path) : List Step :=
  match Text.splitOn '/' path.text.toList with
  | [] => []
  | first :: pieces =>
      let start : List Step :=
        if path.isAbsolute then [.root]
        else if first = ['.'] then [.here]
        else (stepOf? first).toList
      start ++ pieces.filterMap stepOf?

def same (first second : Path) : Bool := first.steps == second.steps

def stepChars : Step → List Char
  | .root => []
  | .here => ['.']
  | .up => ['.', '.']
  | .name name => name.toList

def ofSteps (steps : List Step) : Path :=
  match steps with
  | [.root] => ⟨"/"⟩
  | steps => ⟨String.ofList (Text.joinWith ['/'] (steps.map stepChars))⟩

/-- Takes one more step from a place whose steps are given last first. A step up
takes back the last step, unless there is none or only the root. -/
def walk (place : List Step) : Step → List Step
  | .here => place
  | .up =>
      match place with
      | [] | [.root] => .up :: place
      | _ :: before => before
  | step => step :: place

def normalSteps (path : Path) : List Step := (path.steps.foldl walk []).reverse

def normalize (path : Path) : Path := ofSteps path.normalSteps

/-- A path as seen from a base; an absolute path stays as it is. -/
def join (base path : Path) : Path :=
  if path.isAbsolute then path
  else if base.text.isEmpty || base.text.toList.getLast? == some '/' then ⟨base.text ++ path.text⟩
  else ⟨base.text ++ "/" ++ path.text⟩

def resolve (base path : Path) : Path := (base.join path).normalize

/-- Drops the pieces at the end that are no steps. -/
def trimPieces (pieces : List (List Char)) : List (List Char) :=
  (pieces.reverse.dropWhile fun piece => (stepOf? piece).isNone).reverse

/-- The path without its last step, if it has one that is not the root. -/
def parent? (path : Path) : Option Path :=
  match Text.splitOn '/' path.text.toList with
  | [] => none
  | first :: pieces =>
      let last := trimPieces pieces
      if last.isEmpty then if first.isEmpty then none else some ⟨""⟩
      else
        let before := trimPieces last.dropLast
        if first.isEmpty then some ⟨String.ofList ('/' :: Text.joinWith ['/'] before)⟩
        else some ⟨String.ofList (Text.joinWith ['/'] (first :: before))⟩

end Path

end ConfigNotation

import ConfigNotation.Eval.Expr
import ConfigNotation.Syntax.Parser.Module

/-!
Evaluating modules and the files that they import. A session remembers the value
of every file that it has imported and knows which files are being evaluated, so
that each is read at most once and a file that comes back to itself is refused.
-/

namespace ConfigNotation

/-- Binds a name, or each leaf of a pattern to what its path leads to. -/
def Binding.bind (bindings : Record Value) (value : Value) : Binding → Record Value
  | .name bound => bindings.insert bound value
  | .pattern leaves =>
      leaves.foldl (fun bindings leaf => bindings.insert leaf.name (value.follow leaf.path))
        bindings

/-- Values of imported files. Paths with the same steps are one path. -/
structure ImportCache where
  entries : List (Path × Value)

namespace ImportCache

def empty : ImportCache := ⟨[]⟩

def get? (cache : ImportCache) (path : Path) : Option Value :=
  (cache.entries.find? fun entry => entry.1.same path).map (·.2)

/-- Replaces the value of a path, or puts a path at the end. -/
def put (path : Path) (value : Value) : List (Path × Value) → List (Path × Value)
  | [] => [(path, value)]
  | (first, old) :: rest =>
      if first.same path then (first, value) :: rest else (first, old) :: put path value rest

def insert (cache : ImportCache) (path : Path) (value : Value) : ImportCache :=
  ⟨put path value cache.entries⟩

def paths (cache : ImportCache) : List Path := cache.entries.map (·.1)

end ImportCache

structure Session where
  cache : ImportCache
  /-- The imported files that are being evaluated, the outermost first. -/
  opened : List Path
  /-- The files that were read to be imported, in order. -/
  reads : List Path

namespace Session

def start (cache : ImportCache) : Session := ⟨cache, [], []⟩

def noteRead (path : Path) (session : Session) : Session :=
  { session with reads := session.reads ++ [path] }

def enter (path : Path) (session : Session) : Session :=
  { session with opened := session.opened ++ [path] }

def leave (session : Session) : Session := { session with opened := session.opened.dropLast }

def remember (path : Path) (value : Value) (session : Session) : Session :=
  { session with cache := session.cache.insert path value }

end Session

/-- A step in a session. The session goes on after an error. -/
abbrev Loading (ε : Type) := ExceptT ε (StateT Session Option)

namespace Loading

def ofEvaluation {α : Type} (evaluation : Evaluation α) : Loading EvalError α :=
  ExceptT.mk (StateT.lift evaluation.run)

def ofExcept {ε α : Type} (result : Except ε α) : Loading ε α := ExceptT.mk (pure result)

def exhausted {ε α : Type} : Loading ε α := ExceptT.mk fun _ => none

/-- Records where an error arose, unless a narrower place is known already. -/
def within {α : Type} (span : Span) (loading : Loading EvalError α) : Loading EvalError α :=
  loading.adapt (·.within span)

/-- The result of a step as a value, so that the step after it is always
taken. -/
def outcome {ε δ α : Type} (loading : Loading ε α) : Loading δ (Except ε α) :=
  ExceptT.lift loading.run

end Loading

namespace Module

def bindImports (load : FileRef → Loading EvalError Value) (bindings : Record Value) :
    List Import → Loading EvalError (Record Value)
  | [] => return bindings
  | first :: rest => do
      let value ← (load first.source).within first.span
      bindImports load (first.binding.bind bindings value) rest

/-- Adds what the uses bind to what is bound already. Each use sees those before
it. -/
def bindUses (eval : Record Value → Evaluator) (bindings : Record Value) :
    List Use → Evaluation (Record Value)
  | [] => return bindings
  | first :: rest => do
      let value ← (eval bindings first.value .none).within first.span
      bindUses eval (first.binding.bind bindings value) rest

/-- The exported value of a module: classes come first, then imports, uses and
the exported expression. -/
def evaluate (depth : Nat) (files : FileSystem) (load : FileRef → Loading EvalError Value)
    (module : Module) : Loading EvalError Value := do
  let classes ← .ofExcept (ClassTable.registerAll .empty module.classes)
  let eval (bindings : Record Value) := Scope.eval ⟨classes, bindings, files⟩ depth
  let imported ← bindImports load .empty module.imports
  let bindings ← .ofEvaluation (bindUses eval imported module.uses)
  .ofEvaluation (eval bindings module.body .none)

end Module

/-- Finds the position of an error in the text that its span refers to. -/
def EvalError.locate (text : String) (error : EvalError) : EvalError :=
  { error with
    position := error.position <|>
      error.span.map fun span => (Position.ofOffset text.toList span.start).recorded }

namespace Workspace

def readText (workspace : Workspace) (file : FileRef) : Except EvalError String := do
  let bytes ← (workspace.files.read file.path).mapError fun reason =>
    .raise (.unreadableFile file.path reason)
  let text ← (file.encoding.decode bytes).mapError fun fault =>
    .raise (.undecodableFile file.path fault)
  return String.ofList text

def readMain (workspace : Workspace) (path : Path) : Except Failure String :=
  (workspace.readText ⟨workspace.config.base.join path, workspace.config.encoding⟩).mapError .eval

def parse (workspace : Workspace) (source : String) : Except Failure (Lexed × Module) := do
  let lexed ← (lex source).mapError .lex
  let module ← (Module.ofTokens workspace lexed.tokens).mapError .parse
  return (lexed, module)

/-- The value of a file. It is taken from the cache, or the file is read and
`evaluate` gives the value of its text. -/
def loadWith (workspace : Workspace) (evaluate : String → Loading Failure Value)
    (file : FileRef) : Loading EvalError Value := do
  let session ← get
  if let some value := session.cache.get? file.path then return value
  if session.opened.any (·.same file.path) then
    throw (.raise (.importCycle (session.opened ++ [file.path])))
  modify (·.noteRead file.path)
  let text ← .ofExcept (workspace.readText file)
  modify (·.enter file.path)
  let outcome ← (evaluate text).outcome
  modify (·.leave)
  match outcome with
  | .ok value =>
      modify (·.remember file.path value)
      return value
  | .error cause => throw (.raise (.importFailed file.path cause))

/-- The value of a text. Imports may be nested, and expressions as well, to less
than a given depth. -/
def evaluateText (workspace : Workspace) (depth : Nat) (source : String) :
    Loading Failure Value :=
  match depth with
  | 0 => .exhausted
  | depth + 1 => do
      let (lexed, module) ← .ofExcept (workspace.parse source)
      let load := workspace.loadWith (workspace.evaluateText depth)
      (module.evaluate depth workspace.files load).adapt fun error =>
        .eval (error.locate lexed.text)

def load (workspace : Workspace) (depth : Nat) (file : FileRef) : Loading EvalError Value :=
  workspace.loadWith (workspace.evaluateText depth) file

/-- The value of a text with an empty cache, if a depth suffices for it. -/
def evaluate? (workspace : Workspace) (depth : Nat) (source : String) :
    Option (Except Failure Value) :=
  ((workspace.evaluateText depth source).run (.start .empty)).map (·.1)

end Workspace

end ConfigNotation

import ConfigNotation.File.Encoding
import ConfigNotation.File.Path

/-!
Where files come from: a view of a file system, and a store of files in memory.
-/

namespace ConfigNotation

/-- What can be asked about a path. A file that cannot be read has a reason. -/
structure FileSystem where
  isPresent : Path → Bool
  isFile : Path → Bool
  read : Path → Except String (List UInt8)

structure Config where
  base : Path
  encoding : Encoding
  deriving DecidableEq, Repr

namespace Config

def new (base : Path) : Config := ⟨base, .utf8⟩

end Config

/-- What a stored file holds: bytes, or the reason why they cannot be read. -/
inductive Contents where
  | bytes (bytes : List UInt8)
  | unreadable (reason : String)
  deriving DecidableEq, Repr

/-- Files in memory by the normal form of their paths, the latest first.
Directories exist as far as files lie in them. -/
structure Store where
  files : List (List Step × Contents)
  deriving DecidableEq, Repr, Inhabited

namespace Store

def empty : Store := ⟨[]⟩

def insert (store : Store) (path : Path) (contents : Contents) : Store :=
  ⟨(path.normalSteps, contents) :: store.files⟩

def get? (store : Store) (path : Path) : Option Contents := store.files.lookup path.normalSteps

def isFile (store : Store) (path : Path) : Bool := (store.get? path).isSome

/-- A path is present if a file is stored there or below it. -/
def isPresent (store : Store) (path : Path) : Bool :=
  store.files.any fun (steps, _) => path.normalSteps.isPrefixOf steps

def read (store : Store) (path : Path) : Except String (List UInt8) :=
  match store.get? path with
  | some (.bytes bytes) => .ok bytes
  | some (.unreadable reason) => .error reason
  | none => .error s!"{path.text} not found"

def fileSystem (store : Store) : FileSystem := ⟨store.isPresent, store.isFile, store.read⟩

end Store

end ConfigNotation

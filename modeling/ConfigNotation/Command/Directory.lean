import ConfigNotation.Command.Host

/-!
A tree of files and directories with a working directory. A path is walked piece by
piece: whatever is passed through has to be a directory, and a step up leaves the
directory that was reached.
-/

namespace ConfigNotation

inductive FileFault where
  | missing
  | notADirectory
  | isADirectory
  | nameTooLong
  | nulInName
  deriving DecidableEq, Repr

def FileFault.message : FileFault → String
  | missing => "No such file or directory (os error 2)"
  | notADirectory => "Not a directory (os error 20)"
  | isADirectory => "Is a directory (os error 21)"
  | nameTooLong => "File name too long (os error 36)"
  | nulInName => "file name contained an unexpected NUL byte"

/-- Names from the root of the tree on. -/
abbrev Address := List String

structure Directory where
  files : List (Address × List UInt8)
  directories : List Address
  working : Address

namespace Directory

def empty (working : Address) : Directory := ⟨[], [working], working⟩

/-- The pieces of a relative path that are names. -/
def namesOf (path : String) : Address :=
  (Path.steps ⟨path⟩).filterMap fun
    | .name name => some name
    | _ => none

/-- Puts a file below the working directory, with the directories on its way. -/
def addFile (tree : Directory) (path : String) (bytes : List UInt8) : Directory :=
  { tree with files := (tree.working ++ namesOf path, bytes) :: tree.files }

/-- Puts a directory below the working directory, with those on its way. -/
def addDirectory (tree : Directory) (path : String) : Directory :=
  { tree with directories := (tree.working ++ namesOf path) :: tree.directories }

def fileAt? (tree : Directory) (address : Address) : Option (List UInt8) :=
  tree.files.lookup address

/-- Directories are those that were put there and all above a file or
directory. -/
def isDirectory (tree : Directory) (address : Address) : Bool :=
  tree.directories.any (address.isPrefixOf ·) ||
    tree.files.any fun file => address.isPrefixOf file.1 && address != file.1

/-- The longest name, and the longest path, in bytes. -/
def nameLimit : Nat := 255

def pathLimit : Nat := 4095

def step (tree : Directory) (address : Address) (piece : List Char) :
    Except FileFault Address :=
  if !tree.isDirectory address then .error .notADirectory
  else if piece = [] ∨ piece = ['.'] then .ok address
  else if piece = ['.', '.'] then .ok address.dropLast
  else
    let name := String.ofList piece
    if name.utf8ByteSize > nameLimit then .error .nameTooLong
    else
      let next := address ++ [name]
      if tree.isDirectory next || (tree.fileAt? next).isSome then .ok next
      else .error .missing

def walk (tree : Directory) (path : Path) : Except FileFault Address :=
  if path.text.toList.contains '\x00' then .error .nulInName
  else if path.text.isEmpty then .error .missing
  else if path.text.utf8ByteSize > pathLimit then .error .nameTooLong
  else
    let start := if path.isAbsolute then [] else tree.working
    (Text.splitOn '/' path.text.toList).foldlM tree.step start

def read (tree : Directory) (path : Path) : Except FileFault (List UInt8) := do
  let address ← tree.walk path
  match tree.fileAt? address with
  | some bytes => return bytes
  | none => throw .isADirectory

def isFile (tree : Directory) (path : Path) : Bool :=
  match tree.walk path with
  | .ok address => (tree.fileAt? address).isSome
  | .error _ => false

def isPresent (tree : Directory) (path : Path) : Bool := (tree.walk path).toBool

def pathOf (address : Address) : Path := ⟨"/" ++ String.intercalate "/" address⟩

def status (tree : Directory) (path : Path) : DirectoryStatus :=
  match tree.walk path with
  | .error _ => .missing
  | .ok address => if tree.isDirectory address then .found (pathOf address) else .notADirectory

def fileSystem (tree : Directory) : FileSystem where
  isPresent := tree.isPresent
  isFile := tree.isFile
  read path := (tree.read path).mapError FileFault.message

/-- The machine with these files, and with a library that explains itself as
given. -/
def host (tree : Directory) (explain : List Char → List Char → String) : Host where
  workingDirectory := pathOf tree.working
  files := tree.fileSystem
  directory := tree.status
  explain := explain

end Directory

end ConfigNotation

import ConfigNotation.File.System

/-!
What commands know of the machine that they run on, and the configurations that
it allows.
-/

namespace ConfigNotation

inductive DirectoryStatus where
  | missing
  | notADirectory
  /-- The path from the root on, with all steps up taken back. -/
  | found (path : Path)
  deriving DecidableEq, Repr

/-- A machine. Relative paths start from the working directory. The library that
reads patterns belongs to it, as far as it says why it refuses one. -/
structure Host where
  workingDirectory : Path
  files : FileSystem
  directory : Path → DirectoryStatus
  explain : List Char → List Char → String

inductive ConfigFault where
  | missingDirectory (path : Path)
  | notADirectory (path : Path)
  | unknownEncoding (name : String)
  deriving DecidableEq, Repr

def ConfigFault.message : ConfigFault → String
  | missingDirectory path => s!"directory \"{path.text}\" does not exist"
  | notADirectory path => s!"\"{path.text}\" is not a directory"
  | unknownEncoding name => s!"encoding \"{name}\" is not supported"

namespace Config

def ofHost (host : Host) : Config := .new host.workingDirectory

/-- Moves the base to a directory, as seen from the base before. -/
def withBase (config : Config) (host : Host) (path : Path) : Except ConfigFault Config :=
  let joined := config.base.join path
  match host.directory joined with
  | .missing => .error (.missingDirectory joined)
  | .notADirectory => .error (.notADirectory joined)
  | .found path => .ok { config with base := path }

def withEncoding (config : Config) (name : String) : Except ConfigFault Config :=
  match Encoding.ofName? name with
  | some encoding => .ok { config with encoding := encoding }
  | none => .error (.unknownEncoding name)

def withOption {α : Type} (config : Config) (set : Config → α → Except ConfigFault Config)
    (setting : Option α) : Except ConfigFault Config :=
  match setting with
  | some value => set config value
  | none => .ok config

end Config

end ConfigNotation

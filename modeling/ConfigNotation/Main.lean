import ConfigNotation.Command.Run

/-!
The program: takes a command, a file and options, and prints what the command gives.
What the machine holds is read first, as far as the file leads to it; the command
then runs on what was found.
-/

namespace ConfigNotation.Program

def usage : String := String.intercalate "\n"
  ["BCON configuration language",
    "",
    "Usage: bcon <command> <file.bcon> [options]",
    "",
    "Commands:",
    "  eval <file>          Evaluate a file and print the result as BCON",
    "  check <file>         Evaluate a file and report whether it is valid",
    "  lex <file>           Tokenize and display tokens",
    "  help                 Show this help message",
    "  version              Show version information",
    "",
    "Options:",
    "  --path <dir>         Base directory for imports and file literals",
    "                       (default: the input file's directory)",
    "  --encoding <name>    Encoding of the input file (default: utf8)",
    "  --indent <n>         Spaces per level in eval output (default: 0)",
    "",
    "Examples:",
    "  bcon eval app.bcon --indent 2",
    "  bcon check app.bcon --path ./conf"]

def version : String := "bcon 0.1.0"

def depth : Nat := 1000000

structure Finding where
  path : Path
  isPresent : Bool
  isFile : Bool
  contents : Except String (List UInt8)

/-- The reason that the machine gives, with its number. -/
def reason : IO.Error → String
  | .noFileOrDirectory _ code details
  | .invalidArgument _ code details
  | .permissionDenied _ code details
  | .resourceExhausted _ code details
  | .inappropriateType _ code details
  | .noSuchThing _ code details
  | .otherError code details => s!"{details} (os error {code})"
  | error => toString error

def look (path : Path) : IO Finding := do
  let type? : Option IO.FS.FileType ←
    try
      let place ← IO.FS.realPath path.text
      pure (some (← place.metadata).type)
    catch _ => pure none
  let contents ←
    try
      let bytes ← (← IO.FS.Handle.mk path.text .read).readBinToEnd
      pure (.ok bytes.toList)
    catch error => pure (.error (reason error))
  return ⟨path, type?.isSome, type? == some .file, contents⟩

def lookDirectory (path : Path) : IO DirectoryStatus := do
  try
    let place ← IO.FS.realPath path.text
    return if ← place.isDir then .found ⟨place.toString⟩ else .notADirectory
  catch _ => return .missing

def explain (_pattern _flags : List Char) : String := "not a regular expression"

def mentioned (config : Config) (text : String) : List FileRef :=
  let workspace : Workspace := ⟨config, ⟨fun _ => true, fun _ => true, fun _ => .ok []⟩, explain⟩
  match lex text with
  | .ok lexed =>
      (lexed.tokens.filter (·.kind == .file)).filterMap fun token =>
        (Literal.readFile workspace token.text.toList).toOption
  | .error _ => []

partial def explore (config : Config) (found : List (FileRef × Finding)) :
    List FileRef → IO (List Finding)
  | [] => return found.map (·.2)
  | file :: rest => do
      if found.any (·.1 == file) then explore config found rest
      else
        let finding ← look file.path
        let text := match finding.contents with
          | .ok bytes => (file.encoding.decode bytes).toOption.getD []
          | .error _ => []
        explore config ((file, finding) :: found) (mentioned config (String.ofList text) ++ rest)

def fileSystem (findings : List Finding) : FileSystem where
  isPresent path := findings.any fun finding => finding.path == path && finding.isPresent
  isFile path := findings.any fun finding => finding.path == path && finding.isFile
  read path :=
    match findings.find? (·.path == path) with
    | some finding => finding.contents
    | none => .error "not found"

def observe (path : Path) (options : Options) : IO Host := do
  let working : Path := ⟨(← IO.currentDir).toString⟩
  let directory ← match MainFile.base? path options with
    | some base => lookDirectory (working.join base)
    | none => pure .missing
  let main ← look path
  let host : Host := ⟨working, fileSystem [main], fun _ => directory, explain⟩
  match MainFile.load host path options with
  | .error _ => return host
  | .ok file =>
      let findings ← explore file.config [] (mentioned file.config file.text)
      return { host with files := fileSystem (main :: findings) }

def run (command : Command) (path : Path) (arguments : List String) :
    IO (Except String String) := do
  let host ← observe path ((Options.ofArguments arguments).toOption.getD .none)
  return match command.run host depth path arguments with
    | some result => result.mapError (·.message)
    | none => .error "nested too deeply"

def withNewline (text : String) : String := if text.endsWith "\n" then text else text ++ "\n"

def start (arguments : List String) : IO UInt32 := do
  match arguments with
  | [] | "help" :: _ | "--help" :: _ | "-h" :: _ =>
      IO.println usage
      return 0
  | "version" :: _ | "--version" :: _ | "-V" :: _ =>
      IO.println version
      return 0
  | name :: rest =>
      match Command.ofName? name, rest with
      | none, _ =>
          IO.eprintln s!"Unknown command: {name}\n"
          IO.println usage
          return 1
      | some _, [] =>
          IO.eprintln s!"Usage: bcon {name} <file.bcon> [options]"
          return 1
      | some command, path :: options =>
          match ← run command ⟨path⟩ options with
          | .ok text =>
              IO.print (withNewline text)
              return 0
          | .error message =>
              IO.eprint (withNewline message)
              return 1

end ConfigNotation.Program

def main (arguments : List String) : IO UInt32 := ConfigNotation.Program.start arguments

import ConfigNotation.Command.Host
import ConfigNotation.Command.Options
import ConfigNotation.Eval.Session
import ConfigNotation.Source.Writer

/-!
The commands: each takes a file and options and gives the text to print, or the
reason why there is none. Failures of the file itself come rendered with the line
that they point at.
-/

namespace ConfigNotation

inductive Command where
  /-- Prints the value of a file. -/
  | eval
  /-- Says whether a file has a value. -/
  | check
  /-- Lists the tokens of a file. -/
  | lex
  deriving DecidableEq, Repr

inductive CommandError where
  | usage (fault : OptionFault)
  | config (fault : ConfigFault)
  | unreadable (path : Path) (reason : String)
  | undecodable (path : Path) (fault : DecodeFault)
  | rendered (report : String)
  | source (fault : SourceFault)
  deriving Repr

def CommandError.message : CommandError → String
  | usage fault => fault.message
  | config fault => fault.message
  | unreadable path reason => s!"cannot read \"{path.text}\": {reason}"
  | undecodable path fault => s!"cannot decode \"{path.text}\": {fault.message}"
  | rendered report => report
  | source fault => fault.message

/-- A file with the text that it holds and the configuration that it is read
in. -/
structure MainFile where
  path : Path
  text : String
  config : Config

namespace MainFile

/-- The directory that the paths in a file start from, if it is not the working
directory. -/
def base? (path : Path) (options : Options) : Option Path :=
  options.path <|> path.parent?.filter (!·.text.isEmpty)

def configFor (host : Host) (path : Path) (options : Options) : Except ConfigFault Config := do
  let config ← (Config.ofHost host).withOption (Config.withBase · host) (base? path options)
  config.withOption Config.withEncoding options.encoding

def load (host : Host) (path : Path) (options : Options) : Except CommandError MainFile := do
  let config ← (configFor host path options).mapError .config
  let bytes ← (host.files.read path).mapError (.unreadable path)
  let text ← (config.encoding.decode bytes).mapError (.undecodable path)
  return ⟨path, String.ofList text, config⟩

def report (file : MainFile) (failure : Failure) : CommandError :=
  let text := String.ofList (Text.normalizeNewlines file.text.toList)
  .rendered (failure.diagnostic.render (some text) (some file.path.text))

def workspace (file : MainFile) (host : Host) : Workspace :=
  ⟨file.config, host.files, host.explain⟩

end MainFile

namespace Command

def ofName? : String → Option Command
  | "eval" => some eval
  | "check" => some check
  | "lex" => some lex
  | _ => none

/-- A container as a module, and any other value as its text. -/
def valueText (indent : Nat) (value : Value) : Except CommandError String :=
  match value with
  | .array _ | .object _ => (value.source none indent).mapError .source
  | leaf => .ok leaf.text

def summary (path : Path) (module : Module) : String :=
  s!"OK: {path.text} ({module.imports.length} imports, {module.uses.length} uses, " ++
    s!"{module.classes.length} classes)"

def padded (width : Nat) (text : String) : String := text.pushn ' ' (width - text.length)

def tokenLine (token : Token) : String :=
  s!"{padded 12 token.kind.listingName} {padded 24 token.text} " ++
    s!"{token.position.line}:{token.position.column}\n"

/-- What a command prints about a file, if a depth of nesting suffices for it. -/
def runFile (command : Command) (host : Host) (depth : Nat) (options : Options)
    (file : MainFile) : Option (Except CommandError String) :=
  let workspace := file.workspace host
  let value? := (workspace.evaluate? depth file.text).map (·.mapError file.report)
  match command with
  | eval => value?.map fun value => value >>= valueText options.indent
  | check =>
      match workspace.parse file.text with
      | .ok (_, module) => value?.map fun value => value.map fun _ => summary file.path module
      | .error failure => some (.error (file.report failure))
  | lex => some <|
      match ConfigNotation.lex file.text with
      | .ok lexed => .ok (String.join (lexed.tokens.map tokenLine))
      | .error error => .error (file.report (.lex error))

def runAt (command : Command) (host : Host) (depth : Nat) (options : Options) (path : Path) :
    Option (Except CommandError String) :=
  match MainFile.load host path options with
  | .error error => some (.error error)
  | .ok file => command.runFile host depth options file

def run (command : Command) (host : Host) (depth : Nat) (path : Path)
    (arguments : List String) : Option (Except CommandError String) :=
  match (Options.ofArguments arguments).mapError CommandError.usage with
  | .error error => some (.error error)
  | .ok options => command.runAt host depth options path

end Command

/-- The value of a file on a host, if a depth of nesting suffices for it. -/
def Host.evaluateFile? (host : Host) (depth : Nat) (config : Config) (path : Path) :
    Option (Except Failure Value) :=
  let workspace : Workspace := ⟨config, host.files, host.explain⟩
  match workspace.readMain path with
  | .ok text => workspace.evaluate? depth text
  | .error failure => some (.error failure)

end ConfigNotation

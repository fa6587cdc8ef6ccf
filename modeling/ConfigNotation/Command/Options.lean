import ConfigNotation.File.Path
import ConfigNotation.Number.Text

/-!
Options of the commands. A value follows its option, or an equals sign in the same
argument; of an option that comes twice the last value counts.
-/

namespace ConfigNotation

structure Options where
  /-- The directory that relative paths start from. -/
  path : Option Path
  /-- How the main file is decoded. -/
  encoding : Option String
  /-- Spaces for each level of nesting in what is printed. -/
  indent : Nat
  deriving DecidableEq, Repr

inductive OptionFault where
  | unexpectedArgument (argument : String)
  | missingValue (option : String)
  | malformedIndent (value : String)
  | unknownOption (option : String)
  deriving DecidableEq, Repr

def OptionFault.message : OptionFault → String
  | unexpectedArgument argument => s!"unexpected argument \"{argument}\""
  | missingValue option => s!"{option} needs a value"
  | malformedIndent value => s!"--indent expects a number, got \"{value}\""
  | unknownOption option => s!"unknown option \"{option}\""

namespace Options

def none : Options := ⟨.none, .none, 0⟩

/-- Decimal digits, perhaps behind a plus sign, of a number of at most 64
bits. -/
def indentOf? (value : String) : Option Nat := do
  let digits := match value.toList with
    | '+' :: digits => digits
    | digits => digits
  let indent ← Number.decimalNat? digits
  if indent < 0x10000000000000000 then some indent else .none

def set (options : Options) (option value : String) : Except OptionFault Options :=
  if option = "--path" then .ok { options with path := some ⟨value⟩ }
  else if option = "--encoding" then .ok { options with encoding := some value }
  else if option = "--indent" then
    match indentOf? value with
    | some indent => .ok { options with indent := indent }
    | .none => .error (.malformedIndent value)
  else .error (.unknownOption option)

def splitValue (argument : String) : String × Option String :=
  let chars := argument.toList
  let option := chars.takeWhile (· != '=')
  match chars.drop option.length with
  | _ :: value => (String.ofList option, some (String.ofList value))
  | [] => (argument, .none)

/-- Reads arguments on top of options that are set already. -/
def read (options : Options) : List String → Except OptionFault Options
  | [] => .ok options
  | argument :: rest =>
      if !"--".toList.isPrefixOf argument.toList then .error (.unexpectedArgument argument)
      else
        match splitValue argument, rest with
        | (option, some value), rest => do (← options.set option value).read rest
        | (option, .none), value :: rest => do (← options.set option value).read rest
        | (option, .none), [] => .error (.missingValue option)

def ofArguments (arguments : List String) : Except OptionFault Options := none.read arguments

end Options

end ConfigNotation

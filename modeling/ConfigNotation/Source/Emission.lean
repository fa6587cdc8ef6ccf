import ConfigNotation.Source.Sink
import ConfigNotation.Source.Writer

/-!
Modules written to a receiver of requests. A module is put together before anything of it is
handed over, since only then it is known whether it needs the declarations in front.
-/

namespace ConfigNotation

/-- Writing to a receiver that is in some state. A fault takes nothing back of
what was handed over before it. -/
abbrev Emission (σ : Type) := ExceptT SourceFault (StateM σ)

variable {σ : Type}

namespace Emission

def ofExcept {α : Type} (result : Except SourceFault α) : Emission σ α := ExceptT.mk (pure result)

def request (take : σ → Output → σ) (output : Output) : Emission σ Unit := modify (take · output)

/-- The declarations in front of a module that uses the empty array. -/
def declarations (take : σ → Output → σ) (indent : Nat) : Emission σ Unit :=
  Source.emptyArrayDeclarations.forM fun line => do
    request take (.text line)
    if indent ≠ 0 then request take .newline

end Emission

def Value.emit (take : σ → Output → σ) (value : Value) (replace? : Option (Value → Value))
    (indent : Nat) : Emission σ Unit := do
  let part ← Emission.ofExcept (Source.exportPart (Source.leafWriter replace? indent) indent value)
  if part.usesEmptyArray then Emission.declarations take indent
  Emission.request take (.text part.text)

end ConfigNotation

import Std.Data.HashMap
import ConfigNotation.Regex.Core
import ConfigNotation.Regex.Encoded
import ConfigNotation.Text.Slice

/-!
The machine that finds the matches of a pattern: how much it holds. A machine is
built part by part, and building stops when it holds too much. Every pattern has
two machines, one that reads a text forward and one that reads it backward.
-/

namespace ConfigNotation.Regex

/-- What a machine holds: its states, and what states hold beside themselves, in
bytes. -/
structure Load where
  states : Nat
  held : Nat
  deriving DecidableEq, Repr

namespace Load

def none : Load := ⟨0, 0⟩

def size (load : Load) : Nat := load.states * 32 + load.held

/-- The greatest size of a machine, ten times `2 ^ 20` bytes. -/
def limit : Nat := 10 * 0x100000

def plus (load : Load) (states held : Nat) : Load := ⟨load.states + states, load.held + held⟩

end Load

abbrev Build := StateT Load Option

namespace Build

def add (states held : Nat) : Build Unit := fun load =>
  let load := load.plus states held
  if load.size ≤ Load.limit then some ((), load) else none

/-- Adds a state with a number of ranges of characters that lead on, and gives
the number of the state. -/
def state (ranges : Nat) : Build Nat := do
  let number := (← get).states
  add 1 (8 * ranges)
  return number

def plain : Build Unit := do
  let _ ← state 0

/-- Adds a number of ways that lead on from states with many such ways. -/
def ways (count : Nat) : Build Unit := add 0 (4 * count)

/-- A part of a machine ends in a state. This leads on from there, where the
state may be one with many ways. -/
def leave (isOpen : Bool) : Build Unit := if isOpen then ways 1 else pure ()

/-- Builds a part behind another one. Parts are given by whether their last
state is one with many ways. -/
def follow (before : Bool) (part : Build Bool) : Build Bool := do
  let last ← part
  leave before
  return last

def times (part : Build Bool) : Nat → Bool → Build Bool
  | 0, before => pure before
  | count + 1, before => fun load =>
      match (follow before part).run load with
      | none => none
      | some (last, load) => times part count last load

/-- A given number of repetitions. None at all are a state that leads on. -/
def exactly (part : Build Bool) (count : Nat) : Build Bool := do
  if count = 0 then plain
  times part count false

def optional (part : Build Bool) : Build Bool := do
  plain
  let last ← part
  plain
  ways 2
  leave last
  return false

/-- Any number of repetitions of a part that matches no empty text. -/
def anyNumber (part : Build Bool) : Build Bool := do
  plain
  let last ← part
  ways 1
  leave last
  return true

/-- Any number of repetitions of a part that may match the empty text. -/
def anyNumberOfEmpty (part : Build Bool) : Build Bool := do
  let last ← part
  plain
  leave last
  ways 1
  plain
  plain
  ways 3
  return false

/-- One repetition more than a given number, or any greater number. -/
def moreThan (part : Build Bool) (least : Nat) : Build Bool := do
  let before ← times part least false
  let last ← follow before part
  plain
  leave last
  ways 1
  return true

/-- A number of repetitions, each of which may be the last one. -/
def upTo (part : Build Bool) : Nat → Bool → Build Bool
  | 0, before => pure before
  | count + 1, before => fun load =>
      match (do plain; let last ← part; leave before; ways 2; pure last : Build Bool).run load with
      | none => none
      | some (last, load) => upTo part count last load

def between (part : Build Bool) (least most : Nat) : Build Bool := do
  let before ← exactly part least
  plain
  let last ← upTo part (most - least) before
  leave last
  return false

end Build

/-- What was built lately, by a number that is computed from it. Of two things
with the same number only the later one is remembered. -/
abbrev Memory := Std.HashMap Nat (List Nat × Nat)

namespace Memory

def mix (mixed : UInt64) (value : Nat) : UInt64 := (mixed ^^^ value.toUInt64) * 1099511628211

/-- The number, below a given one, of a thing that is given by some numbers. -/
def place (places : UInt64) (key : List Nat) : Nat :=
  ((key.foldl mix 14695981039346656037) % places).toNat

/-- The state for a thing: the one that is remembered, or else a new one. -/
def remember (places : UInt64) (key : List Nat) (make : Build Nat) : StateT Memory Build Nat := do
  let place := place places key
  let known := ((← get)[place]?).filter fun (other, _) => other == key
  match known with
  | some (_, number) => return number
  | none => do
      let number ← make
      modify (·.insert place (key, number))
      return number

end Memory

/-- A state that is being built: its ranges of bytes, each with the state that
it leads to, the last one first, and a range for which that state is not yet
known. -/
structure Branching where
  done : List (List Nat)
  pending : Option (Nat × Nat)

namespace Branching

def fresh : Branching := ⟨[], none⟩

/-- The pending range leads to a state. -/
def settle (branching : Branching) (next : Nat) : Branching :=
  match branching.pending with
  | some (low, high) => ⟨[low, high, next] :: branching.done, none⟩
  | none => branching

/-- Builds the states of a path from its end on. All paths lead to one state. -/
def close (target : Nat) : List Branching → StateT Memory Build Nat
  | [] => return target
  | branching :: path => do
      let branching := branching.settle (← close target path)
      let ranges := branching.done.length
      Memory.remember 10000 branching.done.reverse.flatten (Build.state ranges)

/-- Goes along a path as far as a box does, builds what does not lie on the way
of the box, and goes on along the box. -/
def extend (target : Nat) : List Branching → Box → StateT Memory Build (List Branching)
  | branching :: path, range :: box => do
      if branching.pending = some range then return branching :: (← extend target path box)
      else
        let branching := branching.settle (← close target path)
        let path := box.map fun range => { fresh with pending := some range }
        return { branching with pending := some range } :: path
  | path, _ => return path

/-- The machine of a set that reads forward. Boxes with the same start share it,
and boxes with the same end share that as far as it is remembered. -/
def buildForward (set : CharSet) : Build Unit := do
  let target ← Build.state 0
  let build : StateT Memory Build Nat := do
    let path ← (Box.ofSet set).foldlM (extend target) [fresh]
    close target path
  let _ ← build.run ∅

def buildBox (target : Nat) (box : Box) : StateT Memory Build Nat :=
  box.foldlM (fun next (low, high) => Memory.remember 1000 [next, low, high] (Build.state 0)) target

/-- The machine of a set that reads backward. Boxes with the same start share it
as far as it is remembered. -/
def buildBackward (set : CharSet) : Build Unit := do
  Build.plain
  let target ← Build.state 0
  let build : StateT Memory Build Unit :=
    (Box.ofSet set).forM fun box => do
      let _ ← buildBox target box
      Build.ways 1
  let _ ← build.run ∅

end Branching

inductive Direction where
  | forward
  | backward
  deriving DecidableEq, Repr

namespace Build

/-- A set of ASCII characters needs one state; other sets are read byte by
byte. -/
def members (direction : Direction) (set : CharSet) : Build Unit :=
  if set.isAscii then do
    plain
    let _ ← state set.ranges.length
  else
    match direction with
    | .forward => Branching.buildForward set
    | .backward => Branching.buildBackward set

/-- Splits words at the empty ones. What follows an empty word can only be read
after that word has been tried. -/
def splitAtEmpty : List (List Nat) → List (List (List Nat))
  | [] => [[]]
  | [] :: words => [] :: splitAtEmpty words
  | word :: words =>
      match splitAtEmpty words with
      | group :: groups => (word :: group) :: groups
      | [] => [[word]]

/-- Empty words at the start count once. -/
def withoutRepeatedStart (words : List (List Nat)) : List (List Nat) :=
  if words.head? = some [] then [] :: words.dropWhile List.isEmpty else words

/-- The machine of a tree of words, where words with the same start share it.
The tree is at most as deep as the longest word. -/
def tree : Nat → List (List Nat) → Build Unit
  | 0, _ => pure ()
  | depth + 1, words => do
      let groups := splitAtEmpty (withoutRepeatedStart words)
      plain
      ways (groups.length - 1)
      groups.forM fun group => do
        let starts := (group.filterMap List.head?).eraseDups
        unless starts.isEmpty do
          ways 1
          let _ ← state (if starts.length = 1 then 0 else starts.length)
          starts.forM fun start => do
            let inner := (group.filter (·.head? == some start)).map (·.drop 1)
            if inner.all List.isEmpty then pure () else tree depth inner

def words (direction : Direction) (texts : List (List Char)) : Build Unit := do
  let words := texts.map fun text =>
    let bytes := text.flatMap fun c => Box.bytes c.toNat
    if direction = .forward then bytes else bytes.reverse
  plain
  tree ((words.map List.length).max?.getD 0 + 1) words

end Build

namespace Core

def asLiteral? : Core → Option (List Char)
  | literal text => some text
  | _ => none

mutual

/-- Builds the machine of a form, and tells whether it ends in a state with many
ways. -/
def build (direction : Direction) : Core → Build Bool
  | empty | place _ => do
      Build.plain
      return false
  | literal text => do
      Build.add (Text.byteSize text) 0
      return false
  | members set _ => do
      Build.members direction set
      return false
  | repeated body least most _ =>
      let part := build direction body
      match least, most with
      | 0, some 1 => Build.optional part
      | 0, none =>
          if 0 < body.leastLength?.getD 0 then Build.anyNumber part
          else Build.anyNumberOfEmpty part
      | least + 1, none => Build.moreThan part least
      | least, some most =>
          if least = most then Build.exactly part least else Build.between part least most
  | group _ body =>
      match direction with
      | .forward => do
          Build.plain
          let last ← build direction body
          Build.plain
          Build.leave last
          return false
      | .backward => build direction body
  | sequence parts =>
      match direction with
      | .forward => buildForward false parts
      | .backward => buildBackward parts
  | choice parts =>
      match parts.mapM asLiteral? with
      | some texts => do
          Build.words direction texts
          return false
      | none => buildChoice direction parts

def buildForward (before : Bool) : List Core → Build Bool
  | [] => return before
  | part :: parts => do
      let last ← Build.follow before (build .forward part)
      buildForward last parts

def buildBackward : List Core → Build Bool
  | [] => return false
  | part :: parts => do
      let before ← buildBackward parts
      Build.follow before (build .backward part)

/-- The first two parts are built before the states that they share. -/
def buildChoice (direction : Direction) : List Core → Build Bool
  | first :: second :: parts => do
      let last ← build direction first
      let last' ← build direction second
      Build.plain
      Build.plain
      Build.ways 2
      Build.leave last
      Build.leave last'
      buildOthers direction parts
  | _ => return false

def buildOthers (direction : Direction) : List Core → Build Bool
  | [] => return false
  | part :: parts => do
      let last ← build direction part
      Build.ways 1
      Build.leave last
      buildOthers direction parts

end

mutual

/-- Whether all matches begin at the start of the text; backward, whether all end
at its end. -/
def isAnchored (direction : Direction) : Core → Bool
  | place spot => if direction = .forward then spot == .textStart else spot == .textEnd
  | repeated body least _ _ => 0 < least && isAnchored direction body
  | group _ body => isAnchored direction body
  | choice parts => areAnchored direction parts
  | sequence parts =>
      if direction = .forward then startsAnchored parts else (endsAnchored parts).1
  | empty | literal _ | members _ _ => false

def areAnchored (direction : Direction) : List Core → Bool
  | [] => true
  | part :: parts => isAnchored direction part && areAnchored direction parts

/-- Whether a part is anchored before which all parts match only the empty
text. -/
def startsAnchored : List Core → Bool
  | [] => false
  | part :: parts =>
      isAnchored .forward part || (isEmptyOnly part && startsAnchored parts)

/-- Whether a part is anchored behind which all parts match only the empty text,
and whether all parts match only that. -/
def endsAnchored : List Core → Bool × Bool
  | [] => (false, true)
  | part :: parts =>
      let (anchored, onlyEmpty) := endsAnchored parts
      (anchored || (onlyEmpty && isAnchored .backward part), onlyEmpty && isEmptyOnly part)

end

/-- Builds a whole machine. Unless matches are anchored, any bytes may be
skipped before a match. -/
def buildWhole (direction : Direction) (core : Core) : Build Unit := do
  Build.plain
  unless isAnchored direction core do
    Build.plain
    let _ ← Build.state 1
    Build.ways 2
  let last ← build direction (group 0 core)
  Build.plain
  Build.leave last

/-- From so many words on, a choice of words is looked up in a list of words. -/
def wordListLength : Nat := 3000

def isWordList : Core → Bool
  | choice parts => wordListLength ≤ parts.length && (parts.mapM asLiteral?).isSome
  | _ => false

/-- Whether neither machine of a form is too large, or none is needed. -/
def isBuildable (core : Core) : Bool :=
  isWordList core ||
    [Direction.forward, Direction.backward].all fun direction =>
      ((buildWhole direction core).run .none).isSome

end Core

end ConfigNotation.Regex

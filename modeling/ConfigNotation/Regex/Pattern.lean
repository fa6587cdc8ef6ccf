import ConfigNotation.Unicode.CharSet

/-!
Patterns as they are written, part by part, and how deep their parts are nested.
-/

namespace ConfigNotation.Regex

inductive Flag where
  | caseless
  | multiLine
  | dotAll
  | swapGreed
  | unicode
  | crlf
  | verbose
  deriving DecidableEq, Repr

def Flag.ofChar? : Char → Option Flag
  | 'i' => some caseless
  | 'm' => some multiLine
  | 's' => some dotAll
  | 'U' => some swapGreed
  | 'u' => some unicode
  | 'R' => some crlf
  | 'x' => some verbose
  | _ => none

abbrev FlagChanges := List (Flag × Bool)

def FlagChanges.apply (changes : FlagChanges) (flag : Flag) (before : Bool) : Bool :=
  (changes.lookup flag).getD before

/-- A character that stands for itself. Two hexadecimal digits can also stand
for a byte, in places where no more than bytes are known. -/
structure Literal where
  char : Char
  isByte : Bool
  deriving DecidableEq, Repr

inductive WordEdge where
  | either
  | neither
  | start
  | finish
  | startHalf
  | finishHalf
  deriving DecidableEq, Repr

def WordEdge.ofName? : String → Option WordEdge
  | "start" => some start
  | "end" => some finish
  | "start-half" => some startHalf
  | "end-half" => some finishHalf
  | _ => none

inductive Assertion where
  | lineStart
  | lineEnd
  | textStart
  | textEnd
  | word (edge : WordEdge)
  deriving DecidableEq, Repr

inductive ClassKind where
  | digit
  | space
  | word
  deriving DecidableEq, Repr

/-- A class of characters that is given by a name: by a letter, or by the
characters with a property. -/
inductive CharClass where
  | kind (kind : ClassKind) (negated : Bool)
  | property (members : CharSet) (negated : Bool)
  deriving Repr

inductive SetOperation where
  | intersection
  | difference
  | symmetricDifference
  deriving DecidableEq, Repr

/-- The operation that is written by doubling a character. -/
def SetOperation.ofChar? : Char → Option SetOperation
  | '&' => some intersection
  | '-' => some difference
  | '~' => some symmetricDifference
  | _ => none

def SetOperation.apply : SetOperation → CharSet → CharSet → CharSet
  | intersection => .inter
  | difference => .diff
  | symmetricDifference => .symmDiff

inductive ClassSet where
  | empty
  | literal (literal : Literal)
  | range (low high : Literal)
  | ascii (members : CharSet) (negated : Bool)
  | charClass (charClass : CharClass)
  | bracketed (negated : Bool) (body : ClassSet)
  | union (items : List ClassSet)
  | operation (operation : SetOperation) (left right : ClassSet)
  deriving Repr

inductive GroupKind where
  /-- A group whose matches are kept, with its number. -/
  | capture (index : Nat)
  /-- A group with flags of its own. -/
  | plain (changes : FlagChanges)
  deriving Repr

inductive Pattern where
  | empty
  /-- Flags that hold from here to the end of the group around them. -/
  | flags (changes : FlagChanges)
  | literal (literal : Literal)
  | dot
  | assertion (assertion : Assertion)
  | charClass (charClass : CharClass)
  | bracketed (negated : Bool) (body : ClassSet)
  | repeated (body : Pattern) (least : Nat) (most : Option Nat) (greedy : Bool)
  | group (kind : GroupKind) (body : Pattern)
  | sequence (parts : List Pattern)
  | choice (parts : List Pattern)
  deriving Repr

/-- Several items side by side are a set of their own. -/
def ClassSet.ofItems : List ClassSet → ClassSet
  | [] => empty
  | [item] => item
  | items => union items

/-- Several parts one after the other are a part of their own. -/
def Pattern.ofParts : List Pattern → Pattern
  | [] => empty
  | [part] => part
  | parts => sequence parts

mutual

def ClassSet.depth : ClassSet → Nat
  | .bracketed _ body => body.depth + 1
  | .union items => ClassSet.deepest items + 1
  | .operation _ left right => max left.depth right.depth + 1
  | .empty | .literal _ | .range _ _ | .ascii _ _ | .charClass _ => 0

def ClassSet.deepest : List ClassSet → Nat
  | [] => 0
  | item :: items => max item.depth (ClassSet.deepest items)

end

mutual

def Pattern.depth : Pattern → Nat
  | .bracketed _ body => body.depth + 1
  | .repeated body _ _ _ => body.depth + 1
  | .group _ body => body.depth + 1
  | .sequence parts => Pattern.deepest parts + 1
  | .choice parts => Pattern.deepest parts + 1
  | .empty | .flags _ | .literal _ | .dot | .assertion _ | .charClass _ => 0

def Pattern.deepest : List Pattern → Nat
  | [] => 0
  | part :: parts => max part.depth (Pattern.deepest parts)

end

end ConfigNotation.Regex

import ConfigNotation.Regex.Pattern
import ConfigNotation.Unicode.Ascii
import ConfigNotation.Unicode.Binary
import ConfigNotation.Unicode.CaseFolding

/-!
The core form of patterns: what is left when the flags have been applied. It is
kept small: literals side by side are one literal, choices between characters are
sets, and what all alternatives start with stands before them.
-/

namespace ConfigNotation.Regex

/-- A place in a text, by the flags that an assertion is read under. -/
inductive Place where
  | textStart
  | textEnd
  | lineStart (crlf : Bool)
  | lineEnd (crlf : Bool)
  | word (edge : WordEdge) (unicode : Bool)
  deriving DecidableEq, Repr

inductive Core where
  | empty
  | literal (text : List Char)
  /-- One of some characters. Without `unicode` they are looked at as bytes. -/
  | members (set : CharSet) (unicode : Bool)
  | place (place : Place)
  | repeated (body : Core) (least : Nat) (most : Option Nat) (greedy : Bool)
  | group (index : Nat) (body : Core)
  | sequence (parts : List Core)
  | choice (parts : List Core)
  deriving Repr

namespace Core

mutual

def same : Core → Core → Bool
  | empty, empty => true
  | literal text, literal text' => text == text'
  | members set unicode, members set' unicode' => set == set' && unicode == unicode'
  | .place spot, .place spot' => spot == spot'
  | repeated body least most greedy, repeated body' least' most' greedy' =>
      least == least' && most == most' && greedy == greedy' && same body body'
  | group index body, group index' body' => index == index' && same body body'
  | sequence parts, sequence parts' => sameAll parts parts'
  | choice parts, choice parts' => sameAll parts parts'
  | _, _ => false

def sameAll : List Core → List Core → Bool
  | [], [] => true
  | part :: parts, part' :: parts' => same part part' && sameAll parts parts'
  | _, _ => false

end

mutual

def isEmptyOnly : Core → Bool
  | empty | place _ => true
  | literal _ | members _ _ => false
  | repeated body _ most _ => most.isSome && isEmptyOnly body
  | group _ body => isEmptyOnly body
  | sequence parts | choice parts => areEmptyOnly parts

def areEmptyOnly : List Core → Bool
  | [] => true
  | part :: parts => isEmptyOnly part && areEmptyOnly parts

end

mutual

/-- The length of the shortest match; absent if a part cannot match at all. -/
def leastLength? : Core → Option Nat
  | empty | place _ => some 0
  | literal text => some text.length
  | members set _ => if set.isEmpty then none else some 1
  | repeated body least _ _ => (leastLength? body).map (· * least)
  | group _ body => leastLength? body
  | sequence parts => (leastLengths? parts).map List.sum
  | choice parts => (leastLengths? parts).bind List.min?

def leastLengths? : List Core → Option (List Nat)
  | [] => some []
  | part :: parts => do
      let length ← leastLength? part
      return length :: (← leastLengths? parts)

end

/-- What has no matches. -/
def nothing : Core := members .empty false

/-- A set of one character is a literal. -/
def ofSet (set : CharSet) (unicode : Bool) : Core :=
  match set.single? with
  | some c => literal [c]
  | none => if set.isEmpty then nothing else members set unicode

def asSequence : Core → List Core
  | sequence parts => parts
  | part => [part]

def asChoice : Core → List Core
  | choice parts => parts
  | part => [part]

/-- Leaves out what is empty and joins literals that stand side by side. -/
def joinLiterals : List Core → List Core
  | [] => []
  | empty :: rest => joinLiterals rest
  | literal text :: rest =>
      match joinLiterals rest with
      | literal next :: others => literal (text ++ next) :: others
      | others => literal text :: others
  | part :: rest => part :: joinLiterals rest

def ofSequence (parts : List Core) : Core :=
  match joinLiterals (parts.flatMap asSequence) with
  | [] => empty
  | [part] => part
  | parts => sequence parts

def asChar? : Core → Option CharSet
  | literal [c] => some (.ofChar c)
  | _ => none

def asMembers? : Core → Option CharSet
  | members set _ => some set
  | _ => none

/-- A choice whose parts start differently. Nothing matches a choice of no
parts. -/
def ofDistinct (parts : List Core) : Core :=
  match parts.flatMap asChoice with
  | [] => nothing
  | [part] => part
  | parts =>
      match parts.mapM asChar? <|> parts.mapM asMembers? with
      | some sets => ofSet (.unionAll sets) true
      | none => choice parts

def sharedStart : List Core → List Core → List Core
  | part :: parts, part' :: parts' =>
      if same part part' then part :: sharedStart parts parts' else []
  | _, _ => []

def ofChoice (parts : List Core) : Core :=
  match parts.flatMap asChoice with
  | sequence first :: next :: others =>
      let rest := next :: others
      if rest.all (match · with | sequence _ => true | _ => false) then
        match rest.foldl (fun start part => sharedStart start (asSequence part)) first with
        | [] => choice (sequence first :: rest)
        | start =>
            let tails := (sequence first :: rest).map fun part =>
              ofSequence ((asSequence part).drop start.length)
            ofSequence (start ++ [ofDistinct tails])
      else choice (sequence first :: rest)
  | parts => ofDistinct parts

/-- A part that matches only the empty text is worth at most one repetition. -/
def ofRepeated (body : Core) (least : Nat) (most : Option Nat) (greedy : Bool) : Core :=
  let least := if body.isEmptyOnly then min least 1 else least
  let most := if body.isEmptyOnly then some (min (most.getD 1) 1) else most
  if least = 0 ∧ most = some 0 then empty
  else if least = 1 ∧ most = some 1 then body
  else repeated body least most greedy

end Core

structure Options where
  caseless : Bool
  multiLine : Bool
  dotAll : Bool
  swapGreed : Bool
  unicode : Bool
  crlf : Bool
  deriving DecidableEq, Repr

namespace Options

def change (options : Options) (changes : FlagChanges) : Options where
  caseless := changes.apply .caseless options.caseless
  multiLine := changes.apply .multiLine options.multiLine
  dotAll := changes.apply .dotAll options.dotAll
  swapGreed := changes.apply .swapGreed options.swapGreed
  unicode := changes.apply .unicode options.unicode
  crlf := changes.apply .crlf options.crlf

def fold (options : Options) (set : CharSet) : CharSet :=
  if !options.caseless then set
  else if options.unicode then set.closeUnderCase
  else set.closeUnderAsciiCase

/-- A set or its complement. Among bytes a complement would match parts of
characters, so there is none. -/
def negate? (options : Options) (negated : Bool) (set : CharSet) : Option CharSet :=
  if !negated then some set
  else if options.unicode then some set.complement
  else none

/-- The characters of a line that a dot matches. -/
def lineMembers (options : Options) : CharSet :=
  if options.dotAll then .full
  else if options.crlf then ((CharSet.ofChar '\n').union (.ofChar '\r')).complement
  else (CharSet.ofChar '\n').complement

end Options

/-- A literal that is written as a byte beyond ASCII matches no character. -/
def Literal.char? (options : Options) (literal : Literal) : Option Char :=
  if !options.unicode && literal.isByte && 0x7F < literal.char.toNat then none
  else some literal.char

/-- Among bytes, a set holds characters of ASCII only. -/
def Literal.member? (options : Options) (literal : Literal) : Option Char :=
  if !options.unicode && 0x7F < literal.char.toNat then none else some literal.char

def ClassKind.members (unicode : Bool) : ClassKind → CharSet
  | digit => if unicode then Unicode.decimalNumber else Unicode.asciiDigit
  | space => if unicode then Unicode.whiteSpace else Unicode.asciiSpace
  | word => if unicode then Unicode.wordPart else Unicode.asciiWord

def CharClass.members? (options : Options) : CharClass → Option CharSet
  | .kind name negated => options.negate? negated (name.members options.unicode)
  | .property members negated =>
      if options.unicode then options.negate? negated (options.fold members) else none

mutual

def ClassSet.members? (options : Options) : ClassSet → Option CharSet
  | .empty => some .empty
  | .literal char => (char.member? options).map .ofChar
  | .range low high => do return .ofRange (← low.member? options) (← high.member? options)
  | .ascii members negated => options.negate? negated (options.fold members)
  | .charClass chars => chars.members? options
  | .bracketed negated body => do
      options.negate? negated (options.fold (← body.members? options))
  | .union items => (ClassSet.allMembers? options items).map .unionAll
  | .operation op left right => do
      let left ← left.members? options
      let right ← right.members? options
      return op.apply (options.fold left) (options.fold right)

def ClassSet.allMembers? (options : Options) : List ClassSet → Option (List CharSet)
  | [] => some []
  | item :: items => do
      let set ← item.members? options
      return set :: (← ClassSet.allMembers? options items)

end

def Assertion.place (options : Options) : Assertion → Place
  | lineStart => if options.multiLine then .lineStart options.crlf else .textStart
  | lineEnd => if options.multiLine then .lineEnd options.crlf else .textEnd
  | textStart => .textStart
  | textEnd => .textEnd
  | word edge => .word edge options.unicode

/-- A literal, or the set of the characters that equal it but for the case. -/
def Literal.core? (options : Options) (literal : Literal) : Option Core := do
  let c ← literal.char? options
  if options.caseless && (options.unicode || c.toNat < 0x80) then
    return .ofSet (options.fold (.ofChar c)) options.unicode
  else return .literal [c]

mutual

/-- The core form of a pattern. Flags inside it change the options of what
follows. -/
def Pattern.core : Pattern → StateT Options Option Core
  | .empty => return .empty
  | .flags changes => do
      modify (·.change changes)
      return .empty
  | .literal char => do char.core? (← get)
  | .dot => do
      let options ← get
      if options.unicode then return .ofSet options.lineMembers true else failure
  | .assertion mark => return .place (mark.place (← get))
  | .charClass chars => do
      let options ← get
      return .ofSet (← chars.members? options) options.unicode
  | .bracketed negated body => do
      let options ← get
      return .ofSet (← ClassSet.members? options (.bracketed negated body)) options.unicode
  | .repeated body least most greedy => do
      let swap := (← get).swapGreed
      let body ← body.core
      return .ofRepeated body least most (greedy != swap)
  | .group kind body => do
      let before ← get
      let core ←
        match kind with
        | .capture index => do
            let body ← body.core
            pure (Core.group index body)
        | .plain changes => do
            set (before.change changes)
            body.core
      set before
      return core
  | .sequence parts => return .ofSequence (← Pattern.cores parts)
  | .choice parts => return .ofChoice (← Pattern.cores parts)

def Pattern.cores : List Pattern → StateT Options Option (List Core)
  | [] => return []
  | part :: parts => do
      let core ← part.core
      return core :: (← Pattern.cores parts)

end

end ConfigNotation.Regex

import ConfigNotation.Proofs.Syntax.Alike

/-!
Patterns as trees of entries. A tree says which names are bound, and by which steps the
value of each is reached; written with a semicolon behind each entry, it is read as just
these leaves, in the order of the text.
-/

namespace ConfigNotation

open Grammar

/-- A word that can be bound, or be a key. -/
structure Identifier where
  text : String
  valid : isIdentifier text.toList = true := by decide
  deriving DecidableEq

/-- One step into a value: to what has a key, or to what has a place. -/
inductive PathStep where
  | key (name : Identifier)
  | place (index : Nat)
  deriving DecidableEq

def PathStep.text : PathStep → String
  | key name => name.text
  | place index => toString index

/-- A name that is bound, and the steps to its value. -/
structure Target where
  steps : List PathStep
  name : Identifier
  deriving DecidableEq

namespace Target

def behind (step : PathStep) (target : Target) : Target :=
  { target with steps := step :: target.steps }

def leaf (target : Target) : Leaf := ⟨target.steps.map (·.text), target.name.text⟩

theorem map_leaf_behind (step : PathStep) (targets : List Target) :
    (targets.map (behind step)).map leaf = (targets.map leaf).map (.under step.text) := by
  simp [Function.comp_def, behind, leaf, Leaf.under]

end Target

inductive PatternEntry where
  | name (bound : Identifier)
  | skip
  | empty
  | group (entries : List PatternEntry)
  | keyedName (key bound : Identifier)
  | keyedGroup (key : Identifier) (entries : List PatternEntry)

namespace PatternEntry

/-- The number of places that an entry takes. One with a key takes none. -/
def width : PatternEntry → Nat
  | name _ | skip | empty | group _ => 1
  | keyedName .. | keyedGroup .. => 0

mutual

def targetsAt (place : Nat) : PatternEntry → List Target
  | name bound => [⟨[.place place], bound⟩]
  | skip | empty => []
  | group entries => (targetsFrom 0 entries).map (.behind (.place place))
  | keyedName key bound => [⟨[.key key], bound⟩]
  | keyedGroup key entries => (targetsFrom 0 entries).map (.behind (.key key))

/-- What entries bind, the first of which stands at a place of their group. -/
def targetsFrom (place : Nat) : List PatternEntry → List Target
  | [] => []
  | entry :: rest => entry.targetsAt place ++ targetsFrom (place + entry.width) rest

end

def unplaced (kind : TokenKind) (text : String) : Token := ⟨kind, text, .empty, .start⟩

def nameToken (name : Identifier) : Token := unplaced .ident name.text

def arrowToken : Token := unplaced .arrow "=>"

def endToken : Token := unplaced .semicolon ";"

def bracketed (inner : List Token) : List Token :=
  unplaced .leftBracket "[" :: (inner ++ [unplaced .rightBracket "]"])

mutual

def tokens : PatternEntry → List Token
  | name bound => [nameToken bound]
  | skip => [unplaced .skipWord "skip"]
  | empty => []
  | group entries => bracketed (endedTokens entries)
  | keyedName key bound => [nameToken key, arrowToken, nameToken bound]
  | keyedGroup key entries => nameToken key :: arrowToken :: bracketed (endedTokens entries)

def endedTokens : List PatternEntry → List Token
  | [] => []
  | entry :: rest => entry.tokens ++ endToken :: endedTokens rest

end

/-- The grammar derives the targets of entries from their tokens. -/
theorem areEntries_endedTokens (place : Nat) (entries : List PatternEntry) :
    AreEntries .required place (endedTokens entries)
      ((targetsFrom place entries).map Target.leaf) := by
  have hmark (rest : List Token) : Separated .semicolon [endToken] rest :=
    @Separated.mark .semicolon endToken rfl rest
  have hend (rest : List Token) : GroupEnd [endToken] rest := @GroupEnd.mark endToken rfl rest
  have hgroup (inner : List PatternEntry)
      (hinner : AreEntries .required 0 (endedTokens inner)
        ((targetsFrom 0 inner).map Target.leaf)) :
      IsGroup .required (bracketed (endedTokens inner)) ((targetsFrom 0 inner).map Target.leaf) :=
    .intro rfl hinner rfl
  match entries with
  | [] => exact .nil place
  | .name bound :: rest =>
      exact @AreEntries.name _ _ (nameToken bound) [endToken] _ _ rfl (hmark _)
        (areEntries_endedTokens (place + 1) rest)
  | .skip :: rest =>
      exact @AreEntries.skip _ _ (unplaced .skipWord "skip") [endToken] _ _ rfl (hmark _)
        (areEntries_endedTokens (place + 1) rest)
  | .empty :: rest => exact .empty rfl (areEntries_endedTokens (place + 1) rest)
  | .group inner :: rest =>
      have hinner := hgroup inner (areEntries_endedTokens 0 inner)
      have hrest := areEntries_endedTokens (place + 1) rest
      rw [endedTokens, targetsFrom, List.map_append, tokens, targetsAt, Target.map_leaf_behind]
      exact .group hinner (hend _) hrest
  | .keyedName key bound :: rest =>
      exact @AreEntries.keyedName _ _ (nameToken key) arrowToken (nameToken bound) [endToken] _ _
        rfl rfl rfl (hmark _) nofun (areEntries_endedTokens place rest)
  | .keyedGroup key inner :: rest =>
      have hinner := hgroup inner (areEntries_endedTokens 0 inner)
      have hrest := areEntries_endedTokens place rest
      rw [endedTokens, targetsFrom, List.map_append, tokens, targetsAt, Target.map_leaf_behind]
      exact @AreEntries.keyedGroup _ _ (nameToken key) arrowToken _ [endToken] _ _ _ rfl rfl hinner
        (hend _) hrest

end PatternEntry

end ConfigNotation

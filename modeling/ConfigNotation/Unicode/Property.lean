import ConfigNotation.Text.Split
import ConfigNotation.Unicode.Age
import ConfigNotation.Unicode.Binary
import ConfigNotation.Unicode.Break
import ConfigNotation.Unicode.Script

/-!
Properties of characters by their names. A name alone stands for a property that
a character has or has not, for a general category or for a script; a name with a
value for the category, the script, the age, or a place where texts may be parted.
-/

namespace ConfigNotation.Unicode

/-- A name without what does not count in it: blanks, dashes, underscores, case,
characters that are not ASCII, and the word `is` at its start. What would leave
only the letter `c` is kept, since `isc` names a property of its own. -/
def normalizeName (name : List Char) : String :=
  let isPrefixed := (name.take 2).map Char.toLower == ['i', 's']
  let kept := (if isPrefixed then name.drop 2 else name).filter fun c =>
    c.toNat < 0x80 && c != ' ' && c != '_' && c != '-'
  let folded := kept.map Char.toLower
  if isPrefixed && folded == ['c'] then "isc" else String.ofList folded

def lookUp? {α : Type} (rows : List (String × α)) (name : String) : Option α :=
  (rows.find? fun (names, _) => (Text.words names).contains name).map (·.2)

/-- The properties that a character has or has not, with the names of each. -/
def binaryProperties : List (String × CharSet) :=
  [("ahex asciihexdigit", asciiHexDigit),
    ("alpha alphabetic", alphabetic),
    ("bidic bidicontrol", bidiControl),
    ("bidim bidimirrored", bidiMirrored),
    ("caseignorable ci", caseIgnorable),
    ("cased", cased),
    ("changeswhencasefolded cwcf", changesWhenCasefolded),
    ("changeswhencasemapped cwcm", changesWhenCasemapped),
    ("changeswhenlowercased cwl", changesWhenLowercased),
    ("changeswhentitlecased cwt", changesWhenTitlecased),
    ("changeswhenuppercased cwu", changesWhenUppercased),
    ("dash", dash),
    ("defaultignorablecodepoint di", defaultIgnorableCodePoint),
    ("dep deprecated", deprecated),
    ("dia diacritic", diacritic),
    ("emoji", emoji),
    ("ecomp emojicomponent", emojiComponent),
    ("emod emojimodifier", emojiModifier),
    ("ebase emojimodifierbase", emojiModifierBase),
    ("emojipresentation epres", emojiPresentation),
    ("extendedpictographic extpict", extendedPictographic),
    ("ext extender", extender),
    ("graphemebase grbase", graphemeBase),
    ("graphemeextend grext", graphemeExtend),
    ("graphemelink grlink", graphemeLink),
    ("hex hexdigit", hexDigit),
    ("hyphen", hyphen),
    ("idsb idsbinaryoperator", idsBinaryOperator),
    ("idst idstrinaryoperator", idsTrinaryOperator),
    ("idsu idsunaryoperator", idsUnaryOperator),
    ("idcompatmathcontinue", idCompatMathContinue),
    ("idcompatmathstart", idCompatMathStart),
    ("idc idcontinue", idContinue),
    ("ids idstart", idStart),
    ("ideo ideographic", ideographic),
    ("joinc joincontrol", joinControl),
    ("loe logicalorderexception", logicalOrderException),
    ("lower lowercase", lowercase),
    ("math", math),
    ("mcm modifiercombiningmark", modifierCombiningMark),
    ("nchar noncharactercodepoint", noncharacterCodePoint),
    ("oalpha otheralphabetic", otherAlphabetic),
    ("odi otherdefaultignorablecodepoint", otherDefaultIgnorableCodePoint),
    ("ogrext othergraphemeextend", otherGraphemeExtend),
    ("oidc otheridcontinue", otherIdContinue),
    ("oids otheridstart", otherIdStart),
    ("olower otherlowercase", otherLowercase),
    ("omath othermath", otherMath),
    ("otheruppercase oupper", otherUppercase),
    ("patsyn patternsyntax", patternSyntax),
    ("patternwhitespace patws", patternWhiteSpace),
    ("pcm prependedconcatenationmark", prependedConcatenationMark),
    ("qmark quotationmark", quotationMark),
    ("radical", radical),
    ("regionalindicator ri", regionalIndicator),
    ("sentenceterminal sterm", sentenceTerminal),
    ("sd softdotted", softDotted),
    ("term terminalpunctuation", terminalPunctuation),
    ("uideo unifiedideograph", unifiedIdeograph),
    ("upper uppercase", uppercase),
    ("variationselector vs", variationSelector),
    ("space whitespace wspace", whiteSpace),
    ("xidc xidcontinue", xidContinue),
    ("xids xidstart", xidStart)]

/-- The general categories, with the names of each. -/
def categories : List (String × CharSet) :=
  [("any", .full),
    ("ascii", .ascii),
    ("assigned", assigned),
    ("c other", other),
    ("casedletter lc", casedLetter),
    ("cc cntrl control", control),
    ("cf format", format),
    ("closepunctuation pe", closePunctuation),
    ("cn unassigned", unassigned),
    ("co privateuse", privateUse),
    ("combiningmark m mark", mark),
    ("connectorpunctuation pc", connectorPunctuation),
    ("currencysymbol sc", currencySymbol),
    ("dashpunctuation pd", dashPunctuation),
    ("decimalnumber digit nd", decimalNumber),
    ("enclosingmark me", enclosingMark),
    ("finalpunctuation pf", finalPunctuation),
    ("initialpunctuation pi", initialPunctuation),
    ("l letter", letter),
    ("letternumber nl", letterNumber),
    ("lineseparator zl", lineSeparator),
    ("ll lowercaseletter", lowercaseLetter),
    ("lm modifierletter", modifierLetter),
    ("lo otherletter", otherLetter),
    ("lt titlecaseletter", titlecaseLetter),
    ("lu uppercaseletter", uppercaseLetter),
    ("mathsymbol sm", mathSymbol),
    ("mc spacingmark", spacingMark),
    ("mn nonspacingmark", nonspacingMark),
    ("modifiersymbol sk", modifierSymbol),
    ("n number", number),
    ("no othernumber", otherNumber),
    ("openpunctuation ps", openPunctuation),
    ("otherpunctuation po", otherPunctuation),
    ("othersymbol so", otherSymbol),
    ("p punct punctuation", punctuation),
    ("paragraphseparator zp", paragraphSeparator),
    ("s symbol", symbol),
    ("separator z", separator),
    ("spaceseparator zs", spaceSeparator)]

def script? (name : String) : Option Script :=
  scripts.find? fun script => (Text.words script.names).contains name

/-- The characters of a version and of all versions before it. -/
def upToAge? (name : String) : Option CharSet :=
  let earlier := ages.takeWhile fun (names, _) => !(Text.words names).contains name
  match ages.drop earlier.length with
  | [] => none
  | age :: _ => some (.unionAll ((earlier ++ [age]).map fun (_, table) => .ofTable table))

/-- The characters that a name alone stands for. -/
def property? (name : List Char) : Option CharSet :=
  let name := normalizeName name
  lookUp? binaryProperties name <|> lookUp? categories name <|> (script? name).map Script.members

/-- The properties that take a value, by their names, with how a value is
found. -/
def valuedProperties : List (String × (String → Option CharSet)) :=
  [("age", upToAge?),
    ("gc generalcategory", lookUp? categories),
    ("gcb graphemeclusterbreak", lookUp? graphemeClusterBreaks),
    ("sb sentencebreak", lookUp? sentenceBreaks),
    ("sc script", fun value => (script? value).map Script.members),
    ("scriptextensions scx", fun value => (script? value).map Script.users),
    ("wb wordbreak", lookUp? wordBreaks)]

def propertyValue? (name value : List Char) : Option CharSet := do
  let find ← lookUp? valuedProperties (normalizeName name)
  find (normalizeName value)

end ConfigNotation.Unicode

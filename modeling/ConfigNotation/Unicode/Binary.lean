import ConfigNotation.Unicode.Category

/-!
The properties that a character has or has not, by the tables of Unicode 16.
Those that rest on the general categories are given by their rules.
-/

namespace ConfigNotation.Unicode

def asciiHexDigit : CharSet := .ofTable "1RJHFvF"

def bidiControl : CharSet := .ofTable "1jOA6sHBvE1YD"

def bidiMirrored : CharSet := .ofTable
  "1JBSABAxABAyABA1OAPA3qVD1tZB2hLBKB1XBOB5WA6GDDFDADBDDBDBABAEIFABRFDJBBABHB1ACDFAJBCSFBJECBEXCPID
   UBHB14AN2MACDBBBCFDFCDNdAVCFBNIAHFDAEEBBCEEABCCBKFCBMSBDCABACABDFBGCYBLBEDBBCBE1LCHB1IFABADEFCEA
   DEBA8IAgTDDBBBOBCJ1MHdYJCH1ntEFFB5HBSABAxABAyABABBBB1qcKA1vA1vA1vA1vA"

def changesWhenCasefolded : CharSet := .ofTable
  "2DZ2xAKWBH1BABABABABABABABABABABABABABABABABABABABABABABABABABABABACABABABABABABABABBBABABABABAB
   ABABABABABABABABABABABABABABABABABBBABABABBBABBBCCDBBBCDBBBBABABBBACABBBCBABBDAHBBBBBBABABABABAB
   ABABACABABABABABABABABACBBABCBABABABABABABABABABABABABABABABABABABABABABABABABABABABABAHBBBCABDB
   ABABABA7yA1LABADAIAGABCBABBBQBIWAMCDBBABABABABABABABABABABABABBCBBABBC1T1RABABABABABABABABABABAB
   ABABABABABAJABABABABABABABABABABABABABABABABABABABABABABABABABABABBBABABABABABACABABABABABABABAB
   ABABABABABABABABABABABABABABABABABABABABABABABABABABABABABABABABABABABABABABABAC1G1RA2tT1GBAFAqE
   F28IJG1LCCaKABABABABABABABABABABABABABABABABABABABABABABABABABABABABABABABABABABABABABABABABABAB
   ABABABABABABABABABABABABABABABABABABABABABABABABABABABABABABABABAFBCABABABABABABABABABABABABABAB
   ABABABABABABABABABABABABABABABABABABABABABABABABABABABABABABABABABABAJHIFKHIHIFLABABABAIHQ1QCCCF
   FCCFLDMEFCCF9SADBGA1OPTAqMZ1sL1Q1RABCCABABABDBACAICBABABABABABABABABABABABABABABABABABABABABABAB
   ABABABABABABABABABABABABABABABABABABABABABABABABABABAIABAEA119WABABABABABABABABABABABABABABABABA
   BABABABABABATABABABABABABABABABABABABABA4LABABABABABABADABABABABABABABABABABABABABABABABABABABAB
   ABABABABABABABABABABAKABABBBABABABAEABACABADABABABABABABABABABABEBEBABABABABABABABDBABBDAFABABAB
   AYAsW2Rl3OGME12KZ18M1I4M1E5BKBOBGBB1qD1T5CV2uW1AmoC1A11kU1C"

def changesWhenLowercased : CharSet := .ofTable
  "2DZ3IWBG1CABABABABABABABABABABABABABABABABABABABABABABABABABABABACABABABABABABABACABABABABABABAB
   ABABABABABABABABABABABABABABABABBBABADBBABBBCCDBBBCDBBBBABABBBACABBBCBABBDAHBBBBBBABABABABABABAB
   ACABABABABABABABABACBBABCBABABABABABABABABABABABABABABABABABABABABABABABABABABABABAHBBBCABDBABAB
   ABA9KABADAIAGABCBABBBQBI1EAIABABABABABABABABABABABAFACABBC1T1RABABABABABABABABABABABABABABABABAJ
   ABABABABABABABABABABABABABABABABABABABABABABABABABABABBBABABABABABACABABABABABABABABABABABABABAB
   ABABABABABABABABABABABABABABABABABABABABABABABABABABABABABABABABABAC1G30G1GBAFAnJ2X28ZAG1LCCaKAB
   ABABABABABABABABABABABABABABABABABABABABABABABABABABABABABABABABABABABABABABABABABABABABABABABAB
   ABABABABABABABABABABABABABABABABABABABABABABABABABAJABABABABABABABABABABABABABABABABABABABABABAB
   ABABABABABABABABABABABABABABABABABABABABABABABABABABAJHIFKHIHIFLABABABAIHYHIHIHIELELDMELE9SADBGA
   1OPTAqMZ1sL1Q1RABCCABABABDBACAICBABABABABABABABABABABABABABABABABABABABABABABABABABABABABABABABA
   BABABABABABABABABABABABABABABABABAIABAEA119WABABABABABABABABABABABABABABABABABABABABABABATABABAB
   ABABABABABABABABABABA4LABABABABABABADABABABABABABABABABABABABABABABABABABABABABABABABABABABABABA
   BAKABABBBABABABAEABACABADABABABABABABABABABABEBEBABABABABABABABDBABBDAFABABABAYAn6vZ18M1I4M1E5BK
   BOBGBB1qD1T5CV2uW1AmoC1A11kU1C"

def changesWhenTitlecased : CharSet := .ofTable
  "3EZ1wA1KXBHBABABABABABABABABABABABABABABABABABABABABABABABABABABABACABABABABABABABBBABABABABABAB
   ABABABABABABABABABABABABABABABABACABABCCABACADAFACADCCACABABACAEACADABACADABAEABBBBBABABABABABAB
   ABABBBABABABABABABABABCBABADABABABABABABABABABABABABABABABABABABABADABABABABABABABABAIACBBAEABAB
   ABABFBBBABBDBBDBECABBCAHACABBDFFAKB5LA1MABADADCSAw1DBBDCBABABABABABABABABABABABEBACACA1V1QBABABA
   BABABABABABABABABABABABABABAJABABABABABABABABABABABABABABABABABABABABABABABABABABACABABABABABABB
   BABABABABABABABABABABABABABABABABABABABABABABABABABABABABABABABABABABABABABABABABABABABABABABABA
   1S1H3qHF28IIBA7VADAQA3VABABABABABABABABABABABABABABABABABABABABABABABABABABABABABABABABABABABABA
   BABABABABABABABABABABABABABABABABABABABABABABABABABABABABABABABABABABABABABGFABABABABABABABABABA
   BABABABABABABABABABABABABABABABABABABABABABABABABABABABABABABABABABABABABABIIFKHIHIFKHIHINCHIHIH
   IEBBGADCBBIDCBIHKCBBbBA1CPEArGZ1tC1QBADBBABABAGACAKABABABABABABABABABABABABABABABABABABABABABABA
   BABABABABABABABABABABABABABABABABABABABABABABABABABABAIABAEAM1GBAFA117vABABABABABABABABABABABABA
   BABABABABABABABABABATABABABABABABABABABABABABABA4LABABABABABABADABABABABABABABABABABABABABABABAB
   ABABABABABABABABABABABABABABAKABACABABABABAEAEABBCABABABABABABABABABALABABABABABABABAEABACADAFAB
   ABAvArXAx2Rl3OGME13LZ18U1I4M1E5AKBOBGBB1qx1T4BV2uW1AmoC1A11kW1C"

def changesWhenUppercased : CharSet := .ofTable
  "3EZ1wA1KXBHBABABABABABABABABABABABABABABABABABABABABABABABABABABABACABABABABABABABBBABABABABABAB
   ABABABABABABABABABABABABABABABABACABABCCABACADAFACADCCACABABACAEACADABACADABAFBBBBBBABABABABABAB
   ABBBABABABABABABABABBBBBADABABABABABABABABABABABABABABABABABABABADABABABABABABABABAIACBBAEABABAB
   ABFBBBABBDBBDBECABBCAHACABBDFFAKB5LA1MABADADCSAw1DBBDCBABABABABABABABABABABABEBACACA1V1QBABABABA
   BABABABABABABABABABABABABAJABABABABABABABABABABABABABABABABABABABABABABABABABABACABABABABABABBBA
   BABABABABABABABABABABABABABABABABABABABABABABABABABABABABABABABABABABABABABABABABABABABABABABA1S
   1H30F1LCCoQF28IIBA7VADAQA3VABABABABABABABABABABABABABABABABABABABABABABABABABABABABABABABABABABA
   BABABABABABABABABABABABABABABABABABABABABABABABABABABABABABABABABABABABABABABABGFABABABABABABABA
   BABABABABABABABABABABABABABABABABABABABABABABABABABABABABABABABABABABABABABABABIIFKHIHIFKHIHINC1
   VBBEABADCBBEADDCBIHKCBBEAawA1CPEArGZ1tC1QBADBBABABAGACAKABABABABABABABABABABABABABABABABABABABAB
   ABABABABABABABABABABABABABABABABABABABABABABABABABABABABABAIABAEAM1GBAFA117vABABABABABABABABABAB
   ABABABABABABABABABABABABATABABABABABABABABABABABABABA4LABABABABABABADABABABABABABABABABABABABABA
   BABABABABABABABABABABABABABABABABAKABACABABABABAEAEABBCABABABABABABABABABALABABABABABABABAEABACA
   DAFABABAvArXAx2Rl3OGME13LZ18U1I4M1E5AKBOBGBB1qx1T4BV2uW1AmoC1A11kW1C"

def dash : CharSet := .ofTable
  "1OA1dIA1UA3oWA12GA24LF1zA1IAPAcSA36HACA1ABEAxAeMATA3SA1nnRB1GAKA5OA3pWAaIA"

def defaultIgnorableCodePoint : CharSet := .ofTable
  "5SAlWAnDA2uzB1lHB2XE23xEvE1SP4gAA1nfUP7WA5FA2RI1j7xD5gvHqomy48D"

def deprecated : CharSet := .ofTable "aTA1bTA2cNABA25MB2aNFmPBufbQA"

def diacritic : CharSet := .ofTable
  "3BABA2JAGAEACBgH5DBHFFRBEAJB8FE6XA1YQBvBABBBA4KHEB4KBEBDC2Fv2yK1wK1DB4CH1KJQw1zAQADDxA2MAQA3RAQA
   3RAQA1QC1yAQAHA3vA3RAQA3RAQA3QBQA4AA3SAMFBA3OANE2NBwABABAEB2ECBB2AA3TABB1JBEEZGBAKBmXCuSBzA4YKJA
   bGC9NAUHCA1ROCK3LAPA1HI1XB1wALB2EB2CF2UYEAGACC1T2A2wL1GKeLABCLCNCNCNB3dvCaHAgKF3MD3CA108wAMBBAxB
   2UBO1C3JC3QBMA1GA4wAwR1vD1FA3CAMA1FA4ZC2DD1UA3HEJC4EBl2yAoZP8WABA1QA1OB2FAoUA17FFB1KBIkRCEA5KBiN
   F1HAvEcwC2IK1SD6GA1KA2KB3wB2AA2OAJC3LB5XB2SBQAYGDE2wCBBNB3CADA3zB8DB4CA3ZB3WA8VB8KBEA5BA2VASA2TA
   dSA8KABB2TAdWBXA5hYObtLA2iQE1xGiGBhTQ2SBh1ODBGBB88B1OCWhRCDFIHCGzD3qZ1z6IGcDA1zDoWBnXG3QCBC"

def emoji : CharSet := .ofTable
  "1EAGAFJ3SAEA8cRAMA6zAWA2xFPBbvBMA5LAZKEC6NA7OBKAJA1wDBEJACACBCAEACABBCADADBICFABAFLLBCABBBASACBS
   FBABBDBFACBEBLBFBCAFBBABBUBFFBDCAEACACFBACABABAGADAGAKBPACAEABAECBALB1RCJAOAOAcABeyCTB1UAEA19CAM
   AjMABA3pkIA6QA5FBMBOACJ2NZBBXAUACIVB5T1CC3SCBBCC2UCCB8OB2ALFBXHBCHMACDCAEBNBCAIBJAFCMCICCABAEAGA
   DAG2X1R2HFHCCEJDABBDACJ7KLEA9E1PBJB5y3TMDJF1YHOCKGI"

def emojiComponent : CharSet := .ofTable "1EAGAFJ8eZA6wA1rsNA22tTZgLE1fzDqe1Z3C"

def emojiModifier : CharSet := .ofTable "495wE"

def emojiModifierBase : CharSet := .ofTable
  "a4XA7CAQD3tkRA1yCCACC3YBCKVSDAECBCHABAYA6PBEAVAEB5TCDE2VAQCJALAiRACAIHGAJJCC1ZA1zBBBBARCBM7MC1LI"

def emojiPresentation : CharSet := .ofTable
  "9awB6TDDACAgZBVB1TL1MATANAIBRBFBIAFAVAHBBAEACAHAEBxA1EABAECBA1zCYAOArWB1UAEA3riIA6QA6EACJ2NZBAYA
   UACEBCVB5T1BMIB2HBVM1LEEMQDAD2IBAB6AC2ANDBXSAvBNA2Y2W1R2HGADCCCEDLBHI7KLEA9E1PBJB5y3TMDJF1YHOCKG
   I"

def extendedPictographic : CharSet := .ofTable
  "5OAEA8cRAMA6zAWA2xFPBbvBMA3CA2IAZKEC6NA7OBKAJA1wDBFBLB3UK3YCKBABAGADAGAKBPACAEABAECBALE1OCJAOAOA
   cABeyCTB1UAEA19CAMAjMABA3pkE8HNC1AA1yFMBOACJS1ZwOKAUACIBDJdzFaHI8R1R4D3XL2X1LMD1ZHKF1JHz2TM1PBJB
   eG8I11y"

def extender : CharSet := .ofTable
  "5xAhJBsKAeHAkKA4NA2wAoIA4DA2ePA1ZAjWAcvA2GA56KA1ME3KB3ACtiLA1iHA10BAWA4NA3PAVBmfUA24SB1gvAwAEA18
   OA9OA3XBgCC18WAlfDB17CBBAu6AB17XArPC"

def graphemeLink : CharSet := .ofTable
  "2eZA4DA4DA4DA4DA4DA4DA4DA3QBQA4AA3SA4DA6PA5ZB1pRBzA5CAlCA7KA3IB2IB4kwA11jZA1GA4wA4SA3PA9zA7yAp3w
   A1iXA1KAOA1vA3xB4PA3XA5ZA3FA4EC3UA4DA8EA4DA3ZA3XA8VA8LB5GA2VASA2TAdSA8MB2TAdWBhhMA"

def hexDigit : CharSet := .ofTable "1RJHFvF25qAJHFvF"

def hyphen : CharSet := .ofTable "1OA4DA19EA4sTA24LB3mYAnvA1nmHA5OA2ZA"

def idsBinaryOperator : CharSet := .ofTable "cnwBCJgBA"

def idsTrinaryOperator : CharSet := .ofTable "cnyB"

def idsUnaryOperator : CharSet := .ofTable "coKB"

def idCompatMathContinue : CharSet := .ofTable "5XBFA8dwADKBObzAEAWA3n9XAZA1AAZA1AAZA1AAZA1AAZA"

def idCompatMathStart : CharSet := .ofTable "91vAEAWA3n9XAZA1AAZA1AAZA1AAZA1AAZA"

def ideographic : CharSet := .ofTable
  "coSBZIOC10E6qT2ClqEnlzbYC3M105QAw6bxI18x1KJ9lTcXkgA1deB1B49zG7EC5uvO7oBPkB2hRhO1hS54JF4bG"

def joinControl : CharSet := .ofTable "8gUB"

def logicalOrderException : CharSet := .ofTable "3oVE3zE2sKCCA17jHBCABB"

def modifierCombiningMark : CharSet := .ofTable "1lIBCA4HAGADBfQBBCDA1AA"

def noncharacterCodePoint : CharSet := .ofTable
  "25jA1AgzB266AB266AB266AB266AB266AB266AB266AB266AB266AB266AB266AB266AB266AB266AB266AB266AB"

def otherAlphabetic : CharSet := .ofTable
  "rAAyMiSNBABBBBBA2KK1RMBGQA3IGEDCBEA1EAzP3JK3IBDIBCBD3NA1yLDGGT1XBCOBBFCKByC1wGCBCBKAKByC1wEEBCBE
   AzBDALC1wHBCBBVBWCEC1wGCBCBJBKBzA1xEDCBCKA1JE1vGBCBCIBLByC1wGBCBCIBLBPAMD1wGBCBCKAKByC2NFBABHSB1
   zACGSA3GACFBBQA5ISJKB1E3RLBACDXDECBCCGDDNLBAKD1mJBzBzBzB2ES6CB1DA3ZLEI7FE1vJCT2MBLC1SE1RO1yCzICB
   1vK1TSdJ1C1oY1U2cA1A112WH1DBbNAIAXE2vB1TPBA1vA1HExL1OD1RL1GA2FNMAIB1OC1TABCCBFA1NEFA7UHl3BA26wE1
   mwCBBFDpND2DAaLB2RA8LC1WN1OBLC1OIJA1zC1FLSB1vC1RMOB2zICAGACA5CJXD1wGCBCBKAKB2WIBACABDBB3KMBC3NR7
   UGCGyB2UOBA3NK3KN8JM7zFBBCBDABA4SGCFEAxJ1LEBDSK1PNdEHBG2VVBN3yFDABBBCBADA2EEBBBDbHDJBBA1RGDChgxQ
   3nUAB1XHD3ABkdFA9dFGBQCGBBBE3HA29zA23JZGZGZ"

def otherDefaultIgnorableCodePoint : CharSet := .ofTable
  "rKA3nDB1lHB29WA4gKA1ntCA2RIsihCABy3D4D7X3nD"

def otherGraphemeExtend : CharSet := .ofTable
  "2iOAYAbRAYA3JAYA7PABAEBBBJB3KAYA3vAPA2eBAzA12BAFABAFB3IA2JB12ZA49GB118LA3PAmrCB4pVA3XA8QAOAJA3DA
   JACABCFA7HAMA7YA8OAkNAMA1iUAlfIBptXBGFqooH3C"

def otherIdContinue : CharSet := .ofTable "5xAnGA47EI1lxA1kEB4fYA1nuRA"

def otherIdStart : CharSet := .ofTable "6gPB28XAVA43LB"

def otherLowercase : CharSet := .ofTable
  "5PAPAgFIHBzE3DA1VA3iQA37T2ANA1D1FmHANAQM6ZPrLZ20QB11gOB6YA4FCDBryDJAogOACCB1KBI1qkQ1z"

def otherMath : CharSet := .ofTable
  "3BAsNCCAvBCB7fIAwCLA1BDYBOB2DMEADBEESAEACJBADEGADBCBBCBFDDFE2NECDBBBBBABECBEBERCBBABGBAGB9LD5NBB
   AYARAeLBMIFEFBCBDEOABACFYB1vABAyDJBbBB1AJdAV2BD1BB1phxABAEA6ZABA1pky2WB2IBBCACBCDBLBABGB2CBDCHBG
   BwBDBEBADGBayCYBYBzBYBzBYBzBYBzBYBHC1S5qVDBvBBBACABJBDBABAGAEABABABCBBBACABABABABABBBACDBGBDBDBA
   BJBQFCBEBQ"

def otherUppercase : CharSet := .ofTable "8rTPrBZ3tjZZGZGZ"

def patternSyntax : CharSet := .ofTable
  "1COKGvDBAvD1DGBABBBABBEAEADAXA1AA88YXIOCSBJ9vnG5FkJz15PgQ4DcNCEYPA1njKB8NB"

def patternWhiteSpace : CharSet := .ofTable "JESA3HA8cMBYB"

def prependedConcatenationMark : CharSet := .ofTable "1iRF6yA1SAcMB2SA288xAPA"

def quotationMark : CharSet := .ofTable "1DAEA4HAPA8azHZB3mvAeXDNC1nsHD6DAEA2xB"

def radical : CharSet := .ofTable "ccAZB2vM6w"

def regionalIndicator : CharSet := .ofTable "48jVZ"

def sentenceTerminal : CharSet := .ofTable
  "1CAMAQA1cUA4XC5ZA1MC7yA1zABADB9OB1pxBpPAEBoyA6MB5CB1OAFAaEBbND5HBKBCByC6BB2DBuCAXBJC3bXC9wANAWBd
   vA105CA8WB7KADAcKB2YB3CA4xB4XC4UB8BAlrMACB1xADB5OAMAQA2DA2sOB1aGE1ND6DB3YD4DC4FBGAQB2vBBB3PA9TB3
   YBcBBFO3MB8BCgVABA8DB2ZBdRBmKB2MBk0VB4JA2DBLAhvB9RAkoKA7tzA"

def softDotted : CharSet := .ofTable
  "3MB6KA9CAzA1VAUAaKA3FABA6kXA1UANADA4IA5CAdSA6xB2uOA3jqPB1TB1TB1TB1TB1TB1TB1TB1TB1TB1TB1TB1TB28MA
   9vBvA"

def terminalPunctuation : CharSet := .ofTable
  "1CAKABALBDAqYAIAgRA1vA2KAOABC5ZA1MKBA7SB1XFBH1AA8NB19xB5RAEFaBBpOHoyA4AC2JB5CCDA1IDCBaEBbND5HBKB
   BCyC6BE2ABuCAXBJC3bXC9wANAEAKABBDBdZB105BB8VC7KEcKB2YB3CA4wC4XC4DAQB8BAlrMACB1vCBD5OAKABALBDA2DA
   CA13xA1RA16LA6NAaAB4xF2GF2wDuWE1ND6DG3TD4DC4FBGAQB2vE3PA9TB3YCMBbRDDO3MB8BCgVABA8DB2ZBEBdLC1OAkZ
   B2MB1bVEijvB4JA2DCKAhvB9QBkoKA7tyD"

def unifiedIdeograph : CharSet := .ofTable
  "dqN6qT2ClqEnuVBBABBKABABBCC27nI1deB1B49zG7EC5uvO7oBPkB4lT54JF4bG"

def variationSelector : CharSet := .ofTable "6cRCBA1u7vPsjaD7W"

def whiteSpace : CharSet := .ofTable "JESA3HAvA5pTA2gNKyBFA1QA45BA"

def lowercase : CharSet := lowercaseLetter.union otherLowercase

def uppercase : CharSet := uppercaseLetter.union otherUppercase

def cased : CharSet := .unionAll [lowercase, uppercase, titlecaseLetter]

def alphabetic : CharSet := .unionAll [letter, letterNumber, lowercase, uppercase, otherAlphabetic]

def math : CharSet := mathSymbol.union otherMath

/-- Marks that extend the character before them. -/
def graphemeExtend : CharSet := .unionAll [enclosingMark, nonspacingMark, otherGraphemeExtend]

def graphemeBase : CharSet :=
  (CharSet.unionAll [other, lineSeparator, paragraphSeparator, graphemeExtend]).complement

/-- Characters that patterns are written with, which stand in no name. -/
def patternSyntaxOrSpace : CharSet := patternSyntax.union patternWhiteSpace

def idStart : CharSet :=
  (CharSet.unionAll [letter, letterNumber, otherIdStart]).diff patternSyntaxOrSpace

def idContinue : CharSet :=
  (CharSet.unionAll [idStart, nonspacingMark, spacingMark, decimalNumber, connectorPunctuation,
    otherIdContinue]).diff patternSyntaxOrSpace

/-- Members of `idContinue` that become something else under normalization. -/
def unstableIdContinue : CharSet := .ofRanges
  [(0x37A, 0x37A), (0x309B, 0x309C), (0xFC5E, 0xFC63), (0xFDFA, 0xFDFB), (0xFE70, 0xFE70),
    (0xFE72, 0xFE72), (0xFE74, 0xFE74), (0xFE76, 0xFE76), (0xFE78, 0xFE78), (0xFE7A, 0xFE7A),
    (0xFE7C, 0xFE7C), (0xFE7E, 0xFE7E)]

/-- Members of `idStart` that become something else under normalization. -/
def unstableIdStart : CharSet := unstableIdContinue.union
  (.ofRanges [(0xE33, 0xE33), (0xEB3, 0xEB3), (0xFF9E, 0xFF9F)])

def xidStart : CharSet := idStart.diff unstableIdStart

def xidContinue : CharSet := idContinue.diff unstableIdContinue

def wordInnerPunctuation : CharSet := .ofTable "1IAGALA4AAnGAfGA4YA6tvBKACA1s3TA2AACA5WAGALA"

def caseIgnorable : CharSet := .unionAll
  [nonspacingMark, enclosingMark, format, modifierLetter, modifierSymbol, wordInnerPunctuation]

def changesWhenCasemapped : CharSet := .unionAll
  [changesWhenLowercased, changesWhenUppercased, changesWhenTitlecased]

/-- What words are made of: letters, marks, digits, and what joins words. -/
def wordPart : CharSet := .unionAll
  [alphabetic, mark, decimalNumber, connectorPunctuation, joinControl]

/-- What names are made of behind their first letter. -/
def alphanumeric : CharSet := alphabetic.union number

end ConfigNotation.Unicode

import ConfigNotation.Unicode.Binary

/-!
Where texts may be parted: the values of the properties Grapheme_Cluster_Break,
Word_Break and Sentence_Break, by the tables of Unicode 16. Each value has its
names, without what does not count in them, and its characters.
-/

namespace ConfigNotation.Unicode

/-- Hangul syllables without a final consonant: every twenty-eighth syllable. -/
def openSyllables : CharSet :=
  .ofRanges ((List.range 399).map fun index => (0xAC00 + 28 * index, 0xAC00 + 28 * index))

/-- Hangul syllables with a final consonant. -/
def closedSyllables : CharSet := (CharSet.ofRanges [(0xAC00, 0xD7A3)]).diff openSyllables

def graphemeClusterBreaks : List (String × CharSet) :=
  [("cr", .ofTable "NA"),
    ("cn control", .ofTable "AJBBBR3C1BNA1dvA4oFA23yACBYG1SP1s8xA7XLdsDP15aGD5gvHqomy1A3D4D7X3nD"),
    ("ex extend", graphemeExtend.union emojiModifier),
    ("l", .ofTable "4gM3C19fHx"),
    ("lf", .ofTable "KA"),
    ("lv", openSyllables),
    ("lvt", closedSyllables),
    ("pp prepend", .ofTable "1iRF6yA1SAcMB2SA15PA273MAPA7wBgyA1dZABA8AA2LFmSAeJA"),
    ("regionalindicator ri", regionalIndicator),
    ("sm spacingmark", .ofTable
      "2cNA1YACCIDBB1TB1xBGBCB1XA1wC2EA1wCIABB1WB1yAGBCB3VABBDCBC1VC1zD1zB1wACABB1PAOB1xBFCBC1W
       B2OBGGTB2BA4DA4OB2BA5WAJBZB1NA1sMAHHBBbFDCCEBBF7HB1wABAVF4VA1vD2CAzAEB2BACCBA1WHIB5QAVA1
       62IBCA2vB1TP4SA1RA1RBEBCB3SBCBYA5CACBFA7UBBBBBBAqkNABA4DA1OCEB3WAYB1xA1RCJAOA3ACDB5RC1AB
       1xABDCBCBVB2XBPABB3KCIBDA3OBGABBBACA7VBGDCA3UCIBBA3QABB3RAHA8NCJA8AEBBHABA4SCIDEA2WAyB2A
       AdEAOA3NAHACA6wEEBBAbJBMA1RBIBhhKC3nY1X"),
    ("t", .ofTable "4lZ2Z1llM1R"),
    ("v", .ofTable "4jP2J1lnLW18qPADD"),
    ("zwj", .ofTable "8gVA")]

def wordBreaks : List (String × CharSet) :=
  [("aletter le", .ofTable
      "2DZGZ1QAKAEAFWBzBfOG1C3TEBBCDBAGABCBABTB2UB4OI5KB1GCDBAB1JBA3LA1N1L1EBB3FBAPBHBKCCAPBByy
       2vLAY1BJBEAFVEAJADAXYHKFXBFR1K1w1WDASAHJPPEHCBCVBGBADDDAQANBBCOBKAIFEBCVBGBBBBBB1ADBATCQ
       IBCBVBGBBBEDASAPBXALHCBCVBGBBBEDAzBBCPARABFDCBDDBBABBDBDCDLWA1VHBCBWBPDAvCCACBzAEHBCBWBJ
       BEDA1ABBBPBRIBCB1JCAQAFCICYFFRDXBIBACGaDA2BHB1EwE8w1GBAFAC1LBaWBDCGBABDC1JBDC1BBDCGBABDC
       OB1ZBDC2E1GPQ2XCFDjzCQBZF2MDKHRNSOROMBC5U2vHEC1CBAF2HKz7IW7V1PRH1XyNBK1Mv1E1KCK1ECKF1LCC
       1KDBFBBDAF6F2C8yCFC1GCFCHBABABABzC1VBGBADCBGDDCFEMFCBG3XANAQM3IAEACJBADEGABABABDBKCDFEEA
       R1JqH1U1rQ7LGDDBM1GBAFAC1YHAQWJGBGBGBGBGBGBGBG2SAfEA1WB6O1LB3AR1AtbO16R2F1OC8UDPKBU1PQzC
       2RY6LCBBABHVPBCBDBWy1UO1S2AFDABBLwKWZxH1PxA1R1JXCBH4YKHCMFCFCFJGBGB1vG3VybjLMWE1R9aFGME1
       Z3E1CbVS2BC1W1JL3XEB4K1FZGZ2HzDFCFCFCC1ELBZBSBBBOCN1D3y2H1V8TxD1R1Q1ANyF1GKyC1EEHBE1L5CS
       1EE1EE1II1UMKBOBGBBBKBOBGBBD1UMaAJVKHYFB1KBI2HFCAB1MBBDACWKWJz2DSBBKVKZ2I1YGB2CAPDBCBx1L
       xDx1EHBww1WKVKSNR3R2K1Y1TN1TN1E1HwJW8C1KGBQC1xxKAIV1LR1PUwWM1V1vBCAN1N1BYv1EyACAI1DDAM1Q
       ODVABA1ERBYTB2BGBABDBOBJH1P1HHCBCVBGBBBEDASAMEzJBACAB1GBAZABA1N1VSDUCz1QUBBA5y1P1KD1F1QU
       A1x1LNAaR1M3X2B1AHCACHBBBXPABA3BHC1HQABAxAK1IHAVAL1OTAS2K6N1B1AIB1FRA1Sy3TGBBB1GVAZFBBB1
       AOAaRSPABMB1C4AA2RtW3J3RR6J2nB3DP13RRFZ44vFiY73Vy1pviKHzR2QRyS1QQD1AUFSdy1N6Z2B4E2MFA2EM
       2CBBAk8Q3NFMDIHJ67H2WB2IBBCACBCDBLBABGB2CBDCHBGBwBDBEBADGBayCYBYBzBYBzBYBzBYBzBYBH1sPzGF
       8N1z4W1NKGQAaLyS1MfTw7LyCAfzGBDBBBOB6K1x2FHA17vDBvBBBACABJBDBABAGAEABABABCBBBACABABABABA
       BBBACDBGBDBDBABJBQFCBEBQkIZGZGZ"),
    ("cr", .ofTable "NA"),
    ("doublequote dq", .ofTable "1DA"),
    ("extend", .unionAll [graphemeExtend, spacingMark, emojiModifier]),
    ("ex extendnumlet", .ofTable "3CA8eVAPBTA1s3GBYC7WA"),
    ("fo format", .ofTable "5SA1dvA4oFA24BBvE1SEBJ1s8xA8BCdsDP15aGD5gvHqomzA"),
    ("hebrewletter hl", .ofTable "1hAvED239SABJBMBEBABBBBBJ"),
    ("ka katakana", .ofTable "cpzE3IBD2xBD7XP6W1PB2Z1nbD1Y1fuCDBGBBBA9IC1TAOD"),
    ("lf", .ofTable "KA"),
    ("midletter ml", .ofTable "1wA4AAnGAfGA4YA6uKA1s3TA2DA6KA"),
    ("midnum mn", .ofTable "1NAOAqxAgvA4GB3BAcXA6eTA1s4UADA5xAOA"),
    ("mb midnumlet", .ofTable "1PA8fQBKA1s5XA5ZAGA"),
    ("newline nl", .ofTable "LB3wA8dHB"),
    ("nu numeric", .ofTable
      "1RJ1gVF2xJBA3UASJ6MJ6MB2SA4HJ3ZJ3ZJ3ZJ3ZJ3ZJ3ZJ3ZJ3ZJ3ZJ3DJ3ZJ2IJ8zJ2IJ1tCJ1HJ9VJ4EK5KJG
       J5wJ2YJ4KJGJ15lXJlwJ1HJ6MJWJ2YJdDJm4EJ1eTJ28MJGJpVJ2PAPA1DJ1yJ4UJ8zJbBJ3ZJcCJ3JJGT2OJdTJ
       3JJlLJ2YJ7yJ2IJdTJhgVJ2dRJ2YJ4KJhHJpdKJ2rN1S2eMJdTJgGJ7zJrQJ4tPJ"),
    ("regionalindicator ri", regionalIndicator),
    ("singlequote sq", .ofTable "1IA"),
    ("wsegspace", .ofTable "1BA5tXA2gNGBC2WA45BA"),
    ("zwj", .ofTable "8gVA")]

def sentenceExtend : CharSet := .unionAll [graphemeExtend, spacingMark, .ofChar '\u200D']

/-- Small letters, apart from those of Georgian. -/
def sentenceLower : CharSet :=
  lowercase.diff (sentenceExtend.union (.ofRanges [(0x10D0, 0x10FA), (0x10FD, 0x10FF)]))

/-- Capital letters, apart from those of Georgian. -/
def sentenceUpper : CharSet :=
  (uppercase.union titlecaseLetter).diff (.ofRanges [(0x1C90, 0x1CBA), (0x1CBD, 0x1CBF)])

def sentenceLetter : CharSet :=
  (alphabetic.diff (.unionAll [sentenceLower, sentenceUpper, sentenceExtend])).union
    (.ofChar '\u05F3')

/-- Points that may end a sentence and may not. -/
def ambiguousTerminal : CharSet := .ofTable "1PA8fxA1s5XA6BA"

def sentenceBreaks : List (String × CharSet) :=
  [("at aterm", ambiguousTerminal),
    ("cr", .ofTable "NA"),
    ("cl close", .ofTable
      "1DAEC1SABAyABA1OAPA3qVD1tZB2gJHZBKB1XBOBkNDyB13SFHN2RB1AJdAV2BD1BB12DNOBCJYASHdYJCHBC1nj
       wB6yBxPCBQF5OB1SABAyABABBBB23pKC"),
    ("ex extend", sentenceExtend),
    ("fo format", .ofTable "5SA1dvA7ZA4gKA23yACBvE1SEBJ1s8xA8BCdsDP15aGD5gvHqomzA"),
    ("lf", .ofTable "KA"),
    ("lo lower", sentenceLower),
    ("nu numeric", .ofTable
      "1RJ1gVF2xJBB3TASJ6MJ6MB2SA4HJ3ZJ3ZJ3ZJ3ZJ3ZJ3ZJ3ZJ3ZJ3ZJ3DJ3ZJ2IJ8zJ2IJ1tCJ1HJ9VJ4EK5KJG
       J5wJ2YJ4KJGJ15lXJlwJ1HJ6MJWJ2YJdDJm4EJ1eTJ28MJGJpVJ2PAPA1DJ1yJ4UJ8zJbBJ3ZJcCJ3JJGT2OJdTJ
       3JJlLJ2YJ7yJ2IJdTJhgVJ2dRJ2YJ4KJhHJpdKJ2rN1S2eMJdTJgGJ7zJrQJ4tPJ"),
    ("le oletter", sentenceLetter),
    ("sc scontinue", .ofTable "1NBMBqxAfNA5TBfZA48NAFA24MB47PA1nrTBBBxByBCBCAKA5NBMB2KA"),
    ("st sterm", sentenceTerminal.diff ambiguousTerminal),
    ("se sep", .ofTable "4JA8dHB"),
    ("sp", .ofTable "JABBTA4DA5pTA2gNK1FA1QA45BA"),
    ("up upper", sentenceUpper)]

end ConfigNotation.Unicode

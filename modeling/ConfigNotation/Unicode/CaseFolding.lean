import ConfigNotation.Unicode.CharSet

/-!
Which characters differ in case only, by the simple case folding of Unicode 16.
-/

namespace ConfigNotation.Unicode

/-- Runs of characters that equal an earlier one but for the case. A run gives
how far its first code point lies behind that of the run before, whether every
second code point is left out, the number of its code points less one, and how
far each of them lies behind the earlier one. -/
def caseTable : String :=
  "3EAZ1B4DAW1BYAG1BJBXB1TBCBHBHBRBWB1OAA3xCBCBFAA9VEBBBFAABEAABGAABHAABIBCBHAABFAABDAABEBBBFAABEAA
   BIAABBAACCAABBAACCAABBAACCBHBPAA2RCBIBTAABBAACCAABBAA3EBAA1ZCBTB1IAA4GDBIBZAABBAA5IFAABBAA6JEBEB
   MAA6YBAA6UCAB6TDAA6QCAA6RFAA6TDAA6VFAA6XBAA6ZGAA6ZDAA6wDAA6xLAA7BDAA7BFAA7BBAA2HBAB7ACAA2JGAA7C7
   GBBBGAAB1DAA2WDAAnzQAA1HBAC1GEAH1BIAA3XBAB1BCAApABAE1BFAA1ABAI1BJAA2CBAB2BDAA2ABAA1vEAA1QBAA1XBA
   AICBLBXAA2YBAA2SCAA3XBAA2zBAA3DDAABBAAHCAABCAC4G1UA1A1B1BAP2SRBQB1LBvB1YBGBNAAPCB1QB4UA1G1R3rPAF
   I28OAA6fXBAA6fWBAA6fNBAB6fLCAA6fMBAA6fFBAA6dMDAABGA1L34B1OAC34BaOB2MB4zAA1xDAA7sUDB1QB3KAHIQAFIQ
   AHIQAHIQAFIRBDIPAHI1BAHIQAHIQAHIQABICAB2MCAAJCAA7iEKAD2YEAAJHAA7gMFABICAB3HJAA7fwFABICAB3TCAAHMA
   B4ECAB4CCAAJ9TAA7qQEAA8nOBAA8jR1EAAx1DAPQUAABrHAZv1txA1Q1R1SAABBAAb5RBAA3uBBAAb5BBAAb7HBAAb7ECBC
   BFAAb6XBAAb5XBAAb6vBAAb6ZDAABDAABIABb7wDB1SB3OBBBHAABNA1G7hK1IAA7hKGAA7hK117wBEBJAA15lTBAA15lUCB
   QB1VBNB5HBGBQBzB2JBBBDAA15nXCBEBNAABBAA1cuwEBBBGBJBTAA1d0YBAA1d1EBAA1d1ABAA1d0VBAA1d0YCAA1cuFBAA
   1cuyBAA1cuIDBHBPAA1RBAA1d0XBAA15pNCBBBDAA1d1xCAABEAABGBCBFAA1d8yvAABrYAAtyyA2R19dVl6HAAB13yAZ1B1
   9PA1I1J5VA1E1J6FAK1IMAO1IQAG1IIAB1I1qzA1T2C5VAV1B30NA1A1BmpDA1A1B11lXA1C1D"

/-- The pairs of the runs: a code point and the least one that equals it. -/
def casePairsFrom (start : Nat) : List Nat → List (Nat × Nat)
  | advance :: skipped :: more :: distance :: rest =>
      let first := start + advance
      (List.range (more + 1)).map (fun index =>
        let code := first + index * (skipped + 1)
        (code, code - distance)) ++ casePairsFrom first rest
  | _ => []

def casePairs : List (Nat × Nat) := casePairsFrom 0 (CharSet.tableNumbers 0 caseTable.toList)

end ConfigNotation.Unicode

def ConfigNotation.CharSet.closeUnderCase (set : CharSet) : CharSet :=
  let least := (Unicode.casePairs.filter fun (code, _) => set.containsCode code).map (·.2)
  let reached := set.union (.ofRanges (least.map fun code => (code, code)))
  let equals := (Unicode.casePairs.filter fun (_, first) => reached.containsCode first).map (·.1)
  reached.union (.ofRanges (equals.map fun code => (code, code)))

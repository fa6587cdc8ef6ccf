import ConfigNotation.Unicode.CharSet

/-!
Scripts: which script a character belongs to, and which scripts it is used in, by
the tables of Unicode 16.
-/

namespace ConfigNotation.Unicode

/-- A script: its names without what does not count in them, its characters, and
those that are used in it or belong to it but not both. -/
structure Script where
  names : String
  table : String
  difference : String

def scripts : List Script :=
  [⟨"adlm adlam", "1jRA1BA6tFA3mEA3otG2NEJEB", "1jRA1BA6tFA3mEA"⟩,
    ⟨"ahom", "2caAvCOEW", ""⟩,
    ⟨"hluw anatolianhieroglyphs", "2o9TiY", ""⟩,
    ⟨"arab arabic",
      "1iREB6xB1C2S1Q7XzBBF2MBx66PA3mEA1njL3VQeKC1WHA1BP3TEB4K11Dw31Cz2FC1YD1scRDBvBBBACABJBDBA
      BAGAEABABABCBBBACABABABABABBBACDBGBDBDBABJBQFCBEBQ1VB",
      "1iyAOADA1BAKKvA6rTA3mEA1o4JB1fOw"⟩,
    ⟨"armn armenian", "pBAhZ1GC1SCC23cOE", "pBA"⟩,
    ⟨"avst avestan", "5xAc3PB1rpN1WDG", "5xAc3PB"⟩,
    ⟨"bali balinese", "75z2OB1S", ""⟩,
    ⟨"bamu bamum", "1dcA2Z1kdCiK", ""⟩,
    ⟨"bass bassavah", "33kEyCF", ""⟩,
    ⟨"batk batak", "7cF1UID", ""⟩,
    ⟨"beng bengali",
      "mSA1nKBRBvDBHCBCVBGBADDCICBCDIAEBBECY50MABACBBAIAIACAEACC168xA",
      "mSA1nKBRB55KABACBBAIAIACAEACC168xA"⟩,
    ⟨"bhks bhaiksuki", "2dkJIB1NBNKx", ""⟩,
    ⟨"bopo bopomofo",
      "myABCNAQBc0JCEJBMKDCAGA6JAJ1L3T1A1neyB9DE", "myABCNAc0wCEJBMKDCAGA6JA1nlIB9DE"⟩,
    ⟨"brah brahmi", "2aeG2PE1EJA", ""⟩,
    ⟨"brai braille", "akK8H", ""⟩,
    ⟨"bugi buginese", "6sWwCB178RA", "1e7JA"⟩,
    ⟨"buhd buhid", "65UBJT", "65UB"⟩,
    ⟨"cans canadianaboriginal", "5aFkTiC2H26kKP", ""⟩,
    ⟨"cari carian", "5xA8dHACA3lFA1piI1R", "5xA8dHACA3lFA"⟩,
    ⟨"aghb caucasianalbanian", "oxA1NA1NA26lC1ULA", "oxA1NA1NA"⟩,
    ⟨"cakm chakma", "2jXJ1lEJ26by1VBR", "2jXJ1lEJ"⟩,
    ⟨"cham", "1e8w1XJNCJCD", ""⟩,
    ⟨"cher cherokee", "oYCBAGBWBLB4bV2XCF19aU2R", "oYCBAGBWBLB"⟩,
    ⟨"chrs chorasmian", "2abTw", ""⟩,
    ⟨"zyyy common",
      "A2CvFv1PBLBBBEXA1AAePCBJBADABIBABFFECT4CAGABAkRA6yAgUA1dIAdCD49MLC1BBzBJBBBGBKDKBOR1B2B1
      GBCCFBvBQ1KCElOWKVtx8IkHC1AB3LgQWBXCJBDBABZdPADANANAVAhCX1AA1SOMD5GJF3C1AA6qU2BnmHZ3JC10
      PAOBm0OJWUCLBSBD4XAB1AvFvF4DGBGKEczM1U1N1mpH8BGeB5B3W1y7xK1HC1zDQIBHyE1y6wTMTM2YwG4L2WB2
      IBBCACBCDBLBABGB2CBDCHBGBwBDBEBADGBayC9MC1S5dZ2F2O1ymY1ME3GMOCOBOB1FK5S1ZZBBN1MEIXF4z10W
      EQDMD3ZE3BGLEAPLE1YIJG1IIyCLEB2AayMNCMDJF1YHOCKGIH4WB3IqddBAz3C",
      "5xAgUAKABCBAJABA4zAlMAOADA1BApxB20TA1iAC2JB6RBBA18UANAHDBFBCCAqOA1AAKACA3kKAYBKAEABAdZPB
      CCABJBMQFBAED2yBDA2xB4XP1B1GJA1R1I1Z1RPL1UA2vYKE3DzujWH9RJ7wA5FAm6zB8NB9DEKA1OBbLCE1NDId
      Ov1ieBD61XR86xB"⟩,
    ⟨"copt qaac coptic", "5xAivADBBA3PB3PNaoz3WFG9AA1plFw", "5xAivADBBA3PBbbBA1plFw"⟩,
    ⟨"xsux cuneiform", "2emKtW3J3RBEL6J", ""⟩,
    ⟨"cprt cypriot", "26eKCE1NDI1oXFCAB1MBBDACA", "26eKCE1NDI"⟩,
    ⟨"cpmn cyprominoan", "26eKBccO3F", "26eKB"⟩,
    ⟨"cyrl cyrillic",
      "mSA2FCBABABACAFA7V9Y66QK5FA2OA4DA47K1A2FA10tv3CnaBB1t6K1z1CA",
      "mSA2FCBABABACAFAbzB6oDA4aQA"⟩,
    ⟨"dsrt deseret", "278D2R", ""⟩,
    ⟨"deva devanagari", "mSA1kW2UC1L54P1HBB11WA150wJ5L1AubNJ", "mSA1nKBRB55K1HBB11WA150wJ"⟩,
    ⟨"diak divesakuru", "2cqQGCACHBBByBBCLJJ", ""⟩,
    ⟨"dogr dogra", "2fRL1b8zJtoB1x", "2fRL1b8zJ"⟩,
    ⟨"dupl duployan", "5xAjCBBAYBbevA3ctX3NFMDIHJCH", "5xAjCBBAYBbevA3d3xD"⟩,
    ⟨"egyp egyptianhieroglyphs", "2iuO14YK44v", ""⟩,
    ⟨"elba elbasan", "5xAjAA26mM1I", "5xAjAA"⟩,
    ⟨"elym elymaic", "2adFW", ""⟩,
    ⟨"ethi ethiopic",
      "pHA3uM2KBDCGBABDC1JBDC1BBDCGBABDCOB1ZBDC2EC1ADZ6rwWJGBGBGBGBGBGBGBG12aLFCFCFJGBG2mbIGBDB
      BBO",
      "pHA"⟩,
    ⟨"gara garay", "1iyAOADA282x1GDxIB", "1iyAOADA"⟩,
    ⟨"geor georgian", "5xA18YA2tR1GBAFAC1Q32P1LCCtXA3bN1GBAFA8LA", "5xA18YA31PA42xA3lIA"⟩,
    ⟨"glag glagolitic",
      "5xAiyABAcKACA8JA31PA42xA33F3CfSA110LA2lgNGBQCGBBBE", "5xAiyABAcKACA8JA31PA42xA3lvA110LA"⟩,
    ⟨"goth gothic", "5xAizBCA1JA266Av", "5xAizBCA1JA"⟩,
    ⟨"gran grantha",
      "2eyBRBkUN4fHABBzCDB11WA22eyDBHCBCVBGBBBEBJCBCCCAGAFGCGDE39BBBA",
      "2eyBRBkUN4fHABBzCDB11WA22gvA3awBBA"⟩,
    ⟨"grek greek",
      "5xAivBCABABAKA1PACA1LHCDBAEABABCBABTB2AOP6lVE1TEEE2WCaIVCFC1GCFCHBABABABzC1VBOBNCFBSCCBI
      3BA6OA15pTAmqz2QRA1ofX2H",
      "5xAivBCABABAKA1PACA1PA70EBlQA"⟩,
    ⟨"gujr gujarati", "2eyBRB9ECBIBCBVBGBBBECJBCBCCAPDCLHG1arCJ", "2eyBRB1b9JJ"⟩,
    ⟨"gong gunjalagondi", "5xA29TB2bgBFBBB1FBBBFHJ", "5xA29TB"⟩,
    ⟨"guru gurmukhi", "2eyBRB5ACBFEBCVBGBBBBBBCABEEBCCDAHDBAHQ1b0PJ", "2eyBRB1b9JJ"⟩,
    ⟨"gukh gurungkhema", "2fSA2tgP1v", "2fSA"⟩,
    ⟨"han hani",
      "5xAc6CZB2vM6wvPBCBMBMBMCAGI6BA4YP1B1GJA1R1I1Z1RPL1UA2vYKE3DzB6qT2ClqE1qZHlpxbYC3MsHB9DEt
      txBMBqfDR86xB3jz1deB1B49zG7EC5uvO7oBPkB2hRhO1hS54JF4bG",
      "5xAchyPBCCABJBMKDCAGAED6BA4YP1B1GJA1R1I1Z1RPL1UA2vYKE3DzujWHn7NB9DE1peQR86xB"⟩,
    ⟨"hang hangul",
      "4gM8H7uYCEJBMOCGA6JA1W3A3Uz2Dz10kWxkXbjLMWE1Ra6FB9DE1wzDFCFCFCC",
      "coNCEJBMQAGA6JA1nlIB9DE"⟩,
    ⟨"rohg hanifirohingya", "1iyAOADA1BA4XA27qA1IIJ", "1iyAOADA1BA4XA"⟩,
    ⟨"hano hanunoo", "64zW", "65UB"⟩,
    ⟨"hatr hatran", "28hLSBBFE", ""⟩,
    ⟨"hebr hebrew", "pABkx1XIvEF239QZBEBABBBBBJ", "pAB"⟩,
    ⟨"hira hiragana",
      "coNCEJBMQFBAEBD2XCH2xB1nlHB9DEKA1OB1fuR9HSAyCh7DA", "coNCEJBMQFBAEB2yDDA2xB1nlHB9DEKA1OB"⟩,
    ⟨"armi imperialaramaic", "28cGVBI", ""⟩,
    ⟨"qaai zinh inherited",
      "pIACABLBBDGCACPBBBRBEBD1iBB4jKzoL1WBABEgxB6I1A1rrRPQN10OA1niz1OCWhRCRHCGzDqotR7W",
      "oYOBBBAMACCHBBBQACASAFAEM8yBeSKvAnXB55yCBMBGEAGADB6MB1XABAoNA41WD3OB1p0NA4bBA"⟩,
    ⟨"phli inscriptionalpahlavi", "297ASFH", ""⟩,
    ⟨"prti inscriptionalparthian", "295zVCH", ""⟩,
    ⟨"java javanese", "1e4X2PBKEB", "1e7JA"⟩,
    ⟨"kthi kaithi", "2fTJ9oQA11fNJroD2EKA", "2fTJ9oQA11fNJ"⟩,
    ⟨"knda kannada",
      "2eyBRBpTMBCBWBJBECIBCBDHBGBBDCJBC46zABBGAXABA162YF", "2eyBRB55KABBGAXABA162YF"⟩,
    ⟨"kana katakana",
      "oyAyAbtPCEJBMQFBAEB2yDD3C7XP6W1PB2Z1n1YB9D2A1fuADBGBBBA9IC1TAOD",
      "oyAyAbtPCEJBMQFBAEB2yDDA2xB1nlHB9DEKA1OB"⟩,
    ⟨"kawi", "2eeCQB1JDx", ""⟩,
    ⟨"kali kayahli", "1e0T1Q", "1e2DA"⟩,
    ⟨"khar kharoshthi", "28qUDBBFHBCBxCCEJHI", ""⟩,
    ⟨"kits khitansmallscript", "350CA76vfE1KA", ""⟩,
    ⟨"khmr khmer", "68C3ACJGJfV1A", ""⟩,
    ⟨"khoj khojki", "2sAJ1arSJs5PRB1P", "2sAJ1arSJ"⟩,
    ⟨"sind khudawadi", "2fRB1b9JJsbF1wFJ", "2fRB1b9JJ"⟩,
    ⟨"krai kiratrai", "349I1v", ""⟩,
    ⟨"lao laoo", "3qYBBABEBXBABWCEBABGBJCD", ""⟩,
    ⟨"latn latin",
      "2DZGZ1QAMACAFWBzBeODAKABCBAJABAGEwOBBBAMACCHBBB1HAFAEM8yB18RB21HA36H1GG1RFDFMB2H1vAH8H9Y
      A2DANAQM2VA1vBGAwAR1J2rQ1AdEA116OHv3ID2ECBBABHVN9XAgR1LBIBDl6HG12wZGZ25IFB1KBI1qaWzGF",
      "5xAgUAKABCBAJABA1HOBBBAMACCHBBB1HAFAEM8yB18RB21HA3eHAiIA6GA3fSA116OHhXA"⟩,
    ⟨"lepc lepcha", "7eH1YDODC", ""⟩,
    ⟨"limb limbu", "2fSA44vzBLELEADL", "2fSA"⟩,
    ⟨"lina lineara", "26eR1N18TaAJVKH", "26eR1N"⟩,
    ⟨"linb linearb", "266CLBZBSBBBOCN1D3yFCE1NDI", "26eKCE1NDI"⟩,
    ⟨"lisu", "mSAQAc1RB103I1Q11lFA", "mSAQAc1RB"⟩,
    ⟨"lyci lycian", "8jFA1t7Qx", "8jFA"⟩,
    ⟨"lydi lydian", "5xAc3QA1r9yZFA", "5xAc3QA"⟩,
    ⟨"mahj mahajani", "5xA29TL1b8zJruZ1H", "5xA29TL1b8zJ"⟩,
    ⟨"maka makasar", "2edBY", ""⟩,
    ⟨"mlym malayalam", "2eyBRBtXMBCB1TBCBFEPCZ42YAXA162vC", "2eyBRB55UAXA162vC"⟩,
    ⟨"mand mandaic", "1kTAgPwCA", "1kTA"⟩,
    ⟨"mani manichaean", "1kTA27cG1HEL", "1kTA"⟩,
    ⟨"marc marchen", "2dnx1ACVBN", ""⟩,
    ⟨"gonm masaramgondi", "2fRB2bcyGBBB1MDABBBIIJ", "2fRB"⟩,
    ⟨"medf medefaidrin", "34hQ2x", ""⟩,
    ⟨"mtei meeteimayek", "1egDW6P1OCJ", ""⟩,
    ⟨"mend mendekikakui", "45uy6KCP", ""⟩,
    ⟨"merc meroiticcursive", "28nRXETC1O", ""⟩,
    ⟨"mero meroitichieroglyphs", "8jIA203H1A", "8jIA"⟩,
    ⟨"miao plrd", "34nW2ME1ZHQ", ""⟩,
    ⟨"modi", "1doxJt7Q2GLJ", "1doxJ"⟩,
    ⟨"mong mongolian", "6cGZG2vH1L20CA46TBFD1ubCM", "6cIBBA25MA46TBFD"⟩,
    ⟨"mro mroo", "33fPzBJEB", ""⟩,
    ⟨"mult multani", "2nwJ28aUGBABDBOBK", "2nwJ"⟩,
    ⟨"mymr myanmar", "48E5E19jZA5Wz3E1AsqOT", "1e2DA"⟩,
    ⟨"nbat nabataean", "28eIzII", ""⟩,
    ⟨"nagm nagmundari", "454T1K", ""⟩,
    ⟨"nand nandinagari", "2fRBsxJ47xAIAHA162SFu6SHC1OCK", "2fRBsxJ47xAIAHA162SF"⟩,
    ⟨"talu newtailue", "6oS1MEZGKDB", ""⟩,
    ⟨"newa", "2bgH2yBE", ""⟩,
    ⟨"nko nkoo", "1iyAOADAdN1wCC23aHB", "1iyAOADA23pWB"⟩,
    ⟨"nshu nushu", "34uzAheLcX", ""⟩,
    ⟨"hmnp nyiakengpuachuehmong", "444E1NDNCJEB", ""⟩,
    ⟨"ogam ogham", "5uZx", ""⟩,
    ⟨"olck olchiki", "7gZ1Q", ""⟩,
    ⟨"onao olonal", "2fRB42sI1LEA", "2fRB"⟩,
    ⟨"hung oldhungarian", "8jFACA3lFAPA1s6J1TN1THF", "8jFACA3lFAPA"⟩,
    ⟨"ital olditalic", "26uv1EJC", ""⟩,
    ⟨"narb oldnortharabian", "28uY1A", ""⟩,
    ⟨"perm oldpermic", "5xAivAFCKAbvA25rE1L", "5xAivAFCKAbvA"⟩,
    ⟨"xpeo oldpersian", "275A1EEN", ""⟩,
    ⟨"sogo oldsogdian", "2a5y1I", ""⟩,
    ⟨"sarb oldsoutharabian", "28tX1A", ""⟩,
    ⟨"orkh oldturkic", "8jFA3lHA1s2W2K", "8jFA3lHA"⟩,
    ⟨"ougr olduyghur", "1kTA27dZA16CZ", "1kTA27dZA"⟩,
    ⟨"orya oriya", "2eyBRBdICBHCBCVBGBBBECICBCCHCEBBECR4jRAXA", "2eyBRB55UAXA"⟩,
    ⟨"osge osage", "oZACAGA2OA26hE1EE1E", "oZACAGA2OA"⟩,
    ⟨"osma osmanya", "27cHyCJ", ""⟩,
    ⟨"hmng pahawhhmong", "33lV2HKJBGBUFS", ""⟩,
    ⟨"palm palmyrene", "28dH1A", ""⟩,
    ⟨"pauc paucinhau", "2d9z1Z", ""⟩,
    ⟨"phag phagspa", "6cIBBA25MA46UA110y1Y", "6cIBBA25MA46UA"⟩,
    ⟨"phnx phoenician", "28iMwDA", ""⟩,
    ⟨"phlp psalterpahlavi", "1kTA27iMRHDMG", "1kTA"⟩,
    ⟨"rjng rejang", "1e2F1ELA", ""⟩,
    ⟨"runr runic", "60v2v", "63IC"⟩,
    ⟨"samr samaritan", "24C1OCOa3LA", "c9OA"⟩,
    ⟨"saur saurashtra", "1drP2HIL", ""⟩,
    ⟨"shrd sharada", "2eyA56GABACBCA163NFCAs1M3C", "2eyA56GABACBCA163NFCA"⟩,
    ⟨"shaw shavian", "5xA274X1Q", "5xA"⟩,
    ⟨"sidd siddham", "2bsT1WC1G", ""⟩,
    ⟨"sgnw signwriting", "41mZlAPEBO", ""⟩,
    ⟨"sinh sinhala", "2fRB12xCBRDXBIBACGDAEFBABHGJCC3uYA237UT", "2fRB56NA"⟩,
    ⟨"sogd sogdian", "1kTA28hv1K", "1kTA"⟩,
    ⟨"sora sorasompeng", "2akxYHJ", ""⟩,
    ⟨"soyo soyombo", "2d6L2U", ""⟩,
    ⟨"sund sundanese", "7aD2B8IH", ""⟩,
    ⟨"sunu sunuwar", "oYBBAJACAxADA2cmv1COJ", "oYBBAJACAxADA"⟩,
    ⟨"sylo sylotinagri", "2fRB4EJ1b3J1N", "2fRB4EJ"⟩,
    ⟨"syrc syriac",
      "owBCBBAVACCHBBAnSAOBCA1BAKKvA4TNB1xCC8YK5mzABA", "owBCBBAVACCHBBAnSAOBCA1BAKKvA68JABA"⟩,
    ⟨"tglg tagalog", "63yVJAVB", "65UB"⟩,
    ⟨"tagb tagbanwa", "65UB1KMBCBB", "65UB"⟩,
    ⟨"tale taile", "oYBFBDA3gAJ2cQyCE", "oYBFBDA3gAJ"⟩,
    ⟨"lana taitham", "6tX2ABxCKGJGN", ""⟩,
    ⟨"tavt taiviet", "1edA2EYE", ""⟩,
    ⟨"takr takri", "2fRB1b9JJtbU1vGJ", "2fRB1b9JJ"⟩,
    ⟨"taml tamil",
      "2eyBRBhNBBFDCBDDBBABBDBDCDLEEDCBDCAGAOU4fKA169xAs7YABA1YB3aK1SNA",
      "2eyBRB55UA169xAs7YABA1YB"⟩,
    ⟨"tnsa tangsa", "33hB2QBJ", ""⟩,
    ⟨"tang tangut", "cnwPfzA2mlRA1A6bxIoXgQI", "cnwPfzA"⟩,
    ⟨"telu telugu", "2eyBRBlPMBCBWBPCIBCBDHBBCCACDCJHI4bBAXA", "2eyBRB55UAXA"⟩,
    ⟨"thaa thaana", "1iyAOBCA2CJ8z1S23iRAKA", "1iyAOBCA2CJ23tEAKA"⟩,
    ⟨"thai", "mSAvA1MA1OA2rI1vFw", "mSAvA1MA1OA"⟩,
    ⟨"tibt tibetan", "3uw2JB1EE1HB1EBOBGEB8hWD", "coUD"⟩,
    ⟨"tfng tifinagh", "ovABACABAb7C1YHBOA", "ovABACABA"⟩,
    ⟨"tirh tirhuta", "2eyBRB56NA162vJsqE2JIJ", "2eyBRB56NA162vJ"⟩,
    ⟨"todr todhri", "oZACACAJABA2MA26pW1U", "oZACACAJABA2MA"⟩,
    ⟨"toto", "mSA43pNz", "mSA"⟩,
    ⟨"tutg tulutigalari", "3dQJ48GABA162YF6BAsbyJBACAB1GBJBACABDBJBBIB", "3dQJ48GABA162YF6BA"⟩,
    ⟨"ugar ugaritic", "273zyBA", ""⟩,
    ⟨"vai vaii", "1ctS9U", ""⟩,
    ⟨"vith vithkuqi", "27jzKBOBGBBBKBOBGBB", ""⟩,
    ⟨"wcho wancho", "44iS1vFA", ""⟩,
    ⟨"wara warangciti", "2cnN2UMA", ""⟩,
    ⟨"yezi yezidi", "1iyAOADA2CJ28av1KBCCB", "1iyAOADA2CJ"⟩,
    ⟨"yi yiii", "coNBFJCH7GAthY16RD1Xo4GE", "coNBFJCH7GA1nuNE"⟩,
    ⟨"zanb zanabazarsquare", "2d3Y2J", ""⟩]

namespace Script

/-- The characters that belong to a script. -/
def members (script : Script) : CharSet := .ofTable script.table

/-- The characters that are used in a script. -/
def users (script : Script) : CharSet := script.members.symmDiff (.ofTable script.difference)

end Script

end ConfigNotation.Unicode

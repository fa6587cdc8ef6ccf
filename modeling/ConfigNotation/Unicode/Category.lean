import ConfigNotation.Unicode.CharSet

/-!
The general categories of characters, by the tables of Unicode 16.
-/

namespace ConfigNotation.Unicode

def closePunctuation : CharSet := .ofTable
  "1KA1UA1AA3sWABA1tvA2hYA1YAPAkOABAzA14BABABABABABABA2SA1BABABABABAdBABABABABABABABABABABA2CABA1CA
   13HABABABA1NABABABAdZABABABABADABABABACB1njwA7AAyABABABABABABABADARABABA5PA1UA1AACACA"

def connectorPunctuation : CharSet := .ofTable "3CA8fGBTA1s3GBYC7WA"

def control : CharSet := .ofTable "A1A3C1B"

def currencySymbol : CharSet := .ofTable
  "1FA4BD19RA3zAgCBgCBHA7xA8PAiXA2hKA2aM1B152VAmqHA3PA4zA7CBDB8fyD1kuJA2iAA"

def dashPunctuation : CharSet := .ofTable
  "1OA1dIA1UA3oWA12GA24LF3mUACA1ABEAxAeMATA3SA1nnRB1GAKA5OA3pWAaIA"

def decimalNumber : CharSet := .ofTable
  "1RJ1jYJ4KJ6MJdJJ3ZJ3ZJ3ZJ3ZJ3ZJ3ZJ3ZJ3ZJ3ZJ3DJ3ZJ2IJ8zJ2IJ1tCJ1HJ9VJ4EJ5LJGJ5wJ2YJ4KJGJ15lXJlwJ1
   HJ6MJWJ2YJdDJm4EJ1eTJ28MJGJpVJ4EJ1yJ4UJ8zJbBJ3ZJcCJ3JJGT2OJdTJ3JJlLJ2YJ7yJ2IJdTJhgVJ2dRJ2YJ4KJhH
   JpdKJ2rN1S2eMJdTJgGJ7zJrQJ4tPJ"

def enclosingMark : CharSet := .ofTable "16NB5sLA1jQDBC14hZC"

def finalPunctuation : CharSet := .ofTable "6BA8bAADAxA3kZABAEACAPADA"

def format : CharSet := .ofTable
  "5SA1cyFWA6GA1SAcMB2SA41IA23yEvE1SEBJ1s8xA8BC4eLAPA9dGP15aGD5gvHqomzAz3C"

def initialPunctuation : CharSet := .ofTable "5QA8bPACBCAZA3kZABAEACAPADA"

def letterNumber : CharSet := .ofTable "63LC2oF1DCD3qVAZIOC10izJo1Z1VevAIA4KE8hT3R"

def lineSeparator : CharSet := .ofTable "8hRA"

def lowercaseLetter : CharSet := .ofTable
  "3EZ1wA1KXBHBABABABABABABABABABABABABABABABABABABABABABABABABABABABBBABABABABABABABBBABABABABABAB
   ABABABABABABABABABABABABABABABABACABABCCABACADBEACADCCACABABACABBBACADABACBCCGACACABABABABABABAB
   ABBBABABABABABABABABBCABADABABABABABABABABABABABABABABABABABABABABABABABABABABABABABGCACBBAEABAB
   ABAB2GBv6HABADADCSAw1DBBDCBABABABABABABABABABABABEBACACB1U1QBABABABABABABABABABABABABABABABABAJA
   BABABABABABABABABABABABABABABABABABABABABABABABABABACABABABABABABBBABABABABABABABABABABABABABABA
   BABABABABABABABABABABABABABABABABABABABABABABABABABABABABABABABABA1R1J30E1LCCoQF28IIBA3Y1M2BMB1C
   3JABABABABABABABABABABABABABABABABABABABABABABABABABABABABABABABABABABABABABABABABABABABABABABAB
   ABABABABABABABABABABABABABABABABABABABABABABABABABABABIBABABABABABABABABABABABABABABABABABABABAB
   ABABABABABABABABABABABABABABABABABABABABABABABABABABABABIIFKHIHIFKHIHINCHIHIHIEBBGADCBBIDCBIHKCB
   B8vADBDAwAEAEACBIDEA1WA2qD1QBADBBABABAEABBBFFABABABABABABABABABABABABABABABABABABABABABABABABABA
   BABABABABABABABABABABABABABABABABABABABABABABABBHABAEAM1GBAFA117vABABABABABABABABABABABABABABABA
   BABABABABABABATABABABABABABABABABABABABABA4LABABABABABABCBABABABABABABABABABABABABABABABABABABAB
   ABABABABABABABABABABABABHBABACABABABABAEABACABCBABABABABABABABABABAFAFABABABABABABABAEABACADABAB
   ABABABAvADAqP1LFIH2Rl3OGME13LZ18U1I4M1E5AKBOBGBB1qx1T4BV2uW1AmoC1Ar2BZvGBRvZvDBABGBKvZvZvZvZvZvZ
   vZvZvwxYBFvYBFvYBFvYBFvYBFBA1sPJBTGF2kJ1C"

def mathSymbol : CharSet := .ofTable
  "1MAQC1zABA1OAEA1GA1AAoWAhAC6uTANA1ICNC4PA1IEGA2GEFBEACACAHA1ABCABA1A8T1BB2xAzY1JFfEAJA1XH3SAavEC
   zKP8I4GW2AE1AC8J1RUCF1obQAqSABC5JAQC1zABA4HAGD3jRB1miOAZA1AAZA1AAZA1AAZA1AAZA65LB"

def modifierLetter : CharSet := .ofTable
  "mGRELOEHABA4JAFAfNA7NA5JB8VBEA1AAJADA5FA5MA18wA4DAiHA1pSA3OAjWAezF5T2ANA1D1FmHANAQM35BB7YA6FAfEA
   1MEFA3EB3ACtiLA19KF8WA3VAxB3xI2SAXA3MCDBfEAWA4NA3PAVB3KDJAmbwA1OB23BFB1KBI1fBA1BAouWDgMC1JBhXM2C
   BBAh1xDBGBBcpz1z6PGuLA15DA"

def modifierSymbol : CharSet := .ofTable
  "3BABA2JAGAEADAgZDMNFGBABQ3YAOB1aLA65TABCLCNCNCNB4dFB10gUWJB3KB10PAOBlbxQsXABA5HA230WE"

def nonspacingMark : CharSet := .ofTable
  "oY3S8wE8R1NBABBBBBA2KK1RUQA3IGCFCBBD1EAzv2yK1wIJAYDBIBCBE1MC1xI1LXB1A1YABAEHEADGKByA1wAEDIAUBvAC
   B1vAEBEBCCDAzBDALB1vAEEBBEAUBWFBA1wACABDIAHBLBzA1zAMA1TADA1YABCFCBDHBLByA1wACAGAFBUBxB1vBEDIAUBy
   A2KAHCBA2xACGMH3FACILG2LBwABABA1YNBEBBFKB1EJA3JDBFBBCBZBECQDNACBGAPAmVCuQCyBzBzB2CBBGIACKJA1OCBA
   3YB1DA3ZCEBJAGC7CBCA1wABGBABACHGJCA1RNBP1SD1RABEBAFA1JIMB1BDCBBC1ZABBDABC1wHCB4xCBMBGEAGADB6M2Bn
   HMEADL36BC4RA3D1AhwD3OB10cBAEJ1BB2SB8YADAEAZBFA4wBvRNA1HHZK1PC1RACDCB1IA2FFCBCBMAIA1QA1UABCCBFBB
   A1LBIA7VACAEAl2yAnYPQP10MA7JA4ZE1mwCBBFD1JCEA5KBiPD2DEaHB2RD2IK1SD3zA1XO1KACBKC1SDCBHA1zC1FEBH2A
   AMB1VIKDCA3CCCABBGACA5CADHVB1vBDA1GGDE2IFNABABAOB2XHCCBAXA2WFBAEBBB7VDGBBBwB2XHCABB3NABACFBA3IAB
   ACDBE8LIBB8IBBAEA4UDCBEA1BJ1JFCDIAJFCC1PMBBdDGBFBA2UVCGBBBB3yFDABBBGBA2KBDABAbGBLB1VEFABAXA5hRAG
   ObsZLDC2iQE1xG12ZA2BD2TAkdRB4rY1OCWhRCRHCGzD4YC21v1XE1SIAOAWEBO1cwGBQCGBBBE3HA5FGcDA1zDgMD8GBnXG
   3QGqikR7W"

def openPunctuation : CharSet := .ofTable
  "1JA1TA1AA3sXABA1tvA2gMADA1HA1YAPAkOABAzA14BABABABABABABA2SA1BABABABABAdBABABABABABABABABABABA2CA
   BA1CA13HABABABAZASABABABAdZABABABABADABABABACA1njzA6yAyABABABABABABABADARABABA5PA1TA1AADACA"

def otherLetter : CharSet := .ofTable
  "5PAPA8IAED6WAqVvED1O1ABJ1EBB3FBAYBKCCAQAByy2vLAY1BVV1LYHKFXBFR1J1x1WDASAHJQOEHCBCVBGBADDDAQANBBC
   OBKAIFEBCVBGBBBBBB1ADBATCQIBCBVBGBBBEDASAPBXALHCBCVBGBBBEDAzBBCPARABFDCBDDBBABBDBDCDLWA1VHBCBWBP
   DAvCCACBzAEHBCBWBJBEDA1ABBBPBRIBCB1JCAQAFCICYFFRDXBIBACG1w1QBBMF1xBBABEBXBABJBBJACEXD1BA2BHB1EwE
   3W1LUAQFEDDADBHCEMMA3UaSBDCGBABDC1JBDC1BBDCGBABDCOB1ZBDC2E1GP3UjzCQBZF2MGHHRNSOROMBCP1U1JA2F1DB1
   VHEC1CBAF2HKz1SyCEL1MEZ1XWJ1V5V1PRH1XyNBK1Mv1E1KCKy3UDBFBBDA13xD35Z1YYWJGBGBGBGBGBGBGBGhYA1WAE2X
   IAB2wEAF1LB3AR1A1RPgQ6qT2ClqZB15v2F1II8TEPKB2EA1S2H5OA3KADGBCBDBWy1UO1S2AFDABBLwKWZxH1P1OECIKEB1
   JXCBHUPBFDAD1SBADBCECABAYBDKHAOFCFCFJGBG4V1DybjLMWE1R8oUbYC3M2FABJBMBEBABBBBB3O1CbVS2BC1W1JL3XEB
   4K3MJB1NCzDFCFCFCC1ELBZBSBBBOCN1D3ycRxD1R1Q1ANTBHG1GKyC1EEH4E2P3F1II1U2z1UMaAJVKH4xFCAB1MBBDACWK
   WJz2DSBBKVKZ2I1YGB2CAPDBCBx1LxDx1EHBww1WKVKSNR3R2K5x1E1HDBA9Z1KGBQC1xxKAIV1LR1PUwWM1V1vBCAN1N1BY
   v1EyACAI1DDAM1QODVABA1ERBYTB2BGBABDBOBJH1P1HHCBCVBGBBBEDASAMEzJBACAB1GBAZABA1N1VSDUCz1QUBBA5y1P1
   KD1F1QUA1x1LNA2Jv1GG5z1M6ZHCACHBBBXPABA3BHC1HQABAxAK1IHAVAL1OTAS2K6N1B1AIB1FRA1Sy3TGBBB1GVAZFBBB
   1AOAaRSPABMB1C4AA2RtW7N6J2nB3DP13RRFZ44vFiY73Vy1pviKHzR2QRyS1Q1UUFSeB1IdC2MFA5U6bxI18x1KJ99X9LPA
   yCCAODIcX2cO3NFMDIHJ95MAgF1N1CAaLyS1MfTv7MyCAfzGBDBBBOB6K1cGDBvBBBACABJBDBABAGAEABABABCBBBACABAB
   ABABABBBACDBGBDBDBABJBQFCBEBQ4iS1deB1B49zG7EC5uvO7oBPkB2hRhO1hS54JF4bG"

def otherNumber : CharSet := .ofTable
  "5XBFACC2eBFcEF3wC4JG7AGRIdzJ13XT15XJfPA1nLADFGJ6MP1KAnN1x2QVkKy1dVA16ZD4OJzHBO1BJ1IO108ZFnkO1N2D
   DRBbAv1FD1bzHZG1II2NEWF5FBCPC1O2CI1VBzC2NE3LHYH1KGaUFbLz5DJ1LD3TG4KTcHT1cQBdwIsDSrOUk3VGpXWqlETM
   T3PY5kyItz1wBCBD2O1NBO10BM"

def otherPunctuation : CharSet := .ofTable
  "1CCBCCABABBKBDBwA2GAFAOBHAmUAIAfBF1KA1XACACA1NBUBBBNABC2MD3JA1MN7QC1XO1AA8NBKA4QA3wA3xAcSAMAbvA2
   xAKB5NOBA3TA2MEEB3SF5QAjXIoyA4AC2JB5CCBC1GFBDaDB6zB4EGBF5FBKGxC4AD1xE2AB2CHLAqxBIHIICDCCDKBABJ3b
   CDBB3TA4TBECCACIBBBACBKEBJCDBABMCCdZC1vA6DAusAB8VC3GAKA3WFcID2YB1JCBA1SB1QA3EMQB4AD4CBQB8BAlrKGC
   AWAUBCDDCBDHCGABB4ZCBCCABABBKBDBwA1FACBdHClRA1RAdLAnzA6NA1AA8YI1HA3TG2EG2wDuWE1ND6DG3QBBD4CD1RB2
   RDEANABC2vF3OA9TBBB3VEKBBA3LA8CW3MCxM2OA4GC8EA8QC5AA2zH2VCBE3AJ6yA3CE1LBkZB2MM5UA15UE31vBfhyB4JA
   2DEIAhZC9QDaRAkdVA7tyE31RArZB"

def otherSymbol : CharSet := .ofTable
  "5LACAEABA10QA8SB4DB6UAKATB7zAgTAcBA4GFBA4IA6VA1KAcTCPABCCFUABABA4JHBFBBFD6LBoIJnKAnJA5C1CbMJJI1e
   QBBDBBKABBGFBABABAEALBOABBBA1wBJECDBBBBBGBzCBBABz8UHETCGC2SByZ1IG2JWK2T2PW5wBIB1WI3RB7z1N1M2C8Hg
   Q1QVBG1HC1AB3L7MFbQB1PZB2vM6wvPEANBMAVBGBavBEJ1B1GJAQzLyIAP1AK1HPaJ6qU2Bn1v1XrxDKBBAiPCm1RP4DA1O
   CfTADAEBNBaDI1vQCCBMDA1Q1N1mPBjCA39xA28wHEQk1XDFAlkVA43C7WQeB5B3W1y7xK1HC1xFCWBHyE1yV2DDA6A2Y17P
   gP1YD1THBNBB1pAA30ZA4FAnI1ME3GMOCOBOB1FX5F1ZxN1MEIHBOF4z8CFnOEQDMD3ZE3BGLEAPLE1YIJG1IIyCLEB2AayM
   NCMDJF1YHOCKGIH4WB2y"

def paragraphSeparator : CharSet := .ofTable "8hSA"

def privateUse : CharSet := .ofTable "1skZ6kNuqiW265zC265z"

def spaceSeparator : CharSet := .ofTable "1BA4DA5pTA2gNK1FA1QA45BA"

def spacingMark : CharSet := .ofTable
  "2cNA1YACCIDBB1TB1wCGBCBKA1MA1wC2EA1wCIABB1WB1wABAGBCBKA3JBBBDCBCKA1KC1zD1zB1wABECBBBJBxAOB1wCFCB
   CKA1LB2NCGHSBaUB2BA5QBEAGACBZBKCCGVBCFCAKC1mNAzA4FAHHBBbFDCCEBBF7HB1wABAJABBIF4VA1RAFABEBB1zAzAE
   BCA1yACCBADB1RHIB5QAVA53UB10tRBCA2vB1TP4SB1QA1RBEBCC3RBCBYA1OABA3QACBFA7UBBBBBBAqkNABA4DA1OCEB3W
   AYB1xA1RCJBNA3ACDBBA5PC1AB1wBBDCBCCJAKB2WCHACABDBBBA3ICIBDA3NCGABDCA7UCGDCA3UCIBBA3QABBGA3KABBEA
   8NCJA7zFBBEACABA4SCIDEA2WAyB2AAdEAOA3NAHACA6wEEBBAbJBMA1RBIBBAhhIC3nY1X3LBptXBGF"

def titlecaseLetter : CharSet := .ofTable "eTACACA1HA7rJHIHIHMAPA1QA"

def uppercaseLetter : CharSet := .ofTable
  "2DZ3IWBG1CABABABABABABABABABABABABABABABABABABABABABABABABABABABACABABABABABABABACABABABABABABAB
   ABABABABABABABABABABABABABABABABBBABADBBABBBCCDBBBCDBBBBABABBBACABBBCBABBDAHACACACABABABABABABAB
   ACABABABABABABABABACACABCBABABABABABABABABABABABABABABABABABABABABABABABABABABABABAHBBBCABDBABAB
   ABA9KABADAIAGABCBABBBQBI1EACCDABABABABABABABABABABABAFACABBC1T1RABABABABABABABABABABABABABABABAB
   AJABABABABABABABABABABABABABABABABABABABABABABABABABABABBBABABABABABACABABABABABABABABABABABABAB
   ABABABABABABABABABABABABABABABABABABABABABABABABABABABABABABABABABABAC1G30G1GBAFAnJ2X28ZAG1LCCaK
   ABABABABABABABABABABABABABABABABABABABABABABABABABABABABABABABABABABABABABABABABABABABABABABABAB
   ABABABABABABABABABABABABABABABABABABABABABABABABABABAJABABABABABABABABABABABABABABABABABABABABAB
   ABABABABABABABABABABABABABABABABABABABABABABABABABABABAJHIFKHIHIFLABABABAIH2KDMDMDMELD8OAEADCCCC
   ADEGABABABDCDKBFA1zA2oS1Q1RABCCABABABDBACAICBABABABABABABABABABABABABABABABABABABABABABABABABABA
   BABABABABABABABABABABABABABABABABABABABABABABAIABAEA119WABABABABABABABABABABABABABABABABABABABAB
   ABABATABABABABABABABABABABABABABA4LABABABABABABADABABABABABABABABABABABABABABABABABABABABABABABA
   BABABABABABABAKABABBBABABABAEABACABADABABABABABABABABABABEBEBABABABABABABABDBABBDAFABABABAYAn6vZ
   18M1I4M1E5BKBOBGBB1qD1T5CV2uW1AmoC1Ar2HZvZvZvABBCACBCDBHvZvBBDCHBGwBBDBEBADGwZvZvZvZvZvZzY1CY1CY
   1CY1CY1CA4iD1C"

/-- Letters that are of one case. -/
def casedLetter : CharSet := .unionAll [uppercaseLetter, lowercaseLetter, titlecaseLetter]

def letter : CharSet := .unionAll [casedLetter, modifierLetter, otherLetter]

def mark : CharSet := .unionAll [nonspacingMark, spacingMark, enclosingMark]

def number : CharSet := .unionAll [decimalNumber, letterNumber, otherNumber]

def punctuation : CharSet := .unionAll
  [closePunctuation, connectorPunctuation, dashPunctuation, finalPunctuation, initialPunctuation,
    openPunctuation, otherPunctuation]

def symbol : CharSet := .unionAll [currencySymbol, mathSymbol, modifierSymbol, otherSymbol]

def separator : CharSet := .unionAll [lineSeparator, paragraphSeparator, spaceSeparator]

def assigned : CharSet := .unionAll
  [letter, mark, number, punctuation, symbol, separator, control, format, privateUse]

def unassigned : CharSet := assigned.complement

/-- Controls, formats, and what has no character of its own. -/
def other : CharSet := .unionAll [control, format, privateUse, unassigned]

end ConfigNotation.Unicode

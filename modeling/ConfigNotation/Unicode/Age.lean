import ConfigNotation.Unicode.CharSet

/-!
The age of characters: the version of Unicode that gave them a meaning.
-/

namespace ConfigNotation.Unicode

/-- The versions in their order: the names of each, and the characters that it
added. -/
def ages : List (String × String) :=
  [("1.1 v11",
      "AgFEy1Z2vH1PBJW2HvBSBEADAFGBABTB1MBGDABABABABRNLB2DBLB1JJ1VCBCBDwCHCB1Y1GCGB1HBA1HJBIMvF
       EXAOADABZFSNNC2JCEBOByCJgXCB1VCRCEDYQCBHCBCVBGBADDCABGCBCCJAEBBECUHACFEBCVBGBBBBBBCABEEB
       CCLDBAHOMCBGBABCBVBGBBBECJBCBCCAPAFJRCBHCBCVBGBBCDCHDBCCIBEBBCEKRBBFDCBDDBBABBDBDCDHBCEE
       DCBDJAPLOCBHBCBWBJBEEGBCBDHBJBEJSBBHBCBWBJBEEGBCBDHBHABBEJSBBHBCBWBPEFCCBDJAIBEJ4V1vEx1G
       BBACBBACAGDBGBCBABACBBMBCCEBABFCJCBeQ1GK1HEAE2wF2FF2T36J4zF2wGVCFC1GCFCHBABABABzC1VBOBNC
       FBSCCBIB1PBW1EGDvRK1GRz1Zv1QN2xV7YOAB3w4J1FwKV4OV4ZK2RQTG2X4VDBDCwB1DBABDDABGCGOzDXBN26F
       1YHAB2VEFC3AG1IE3ABP3DxD1ExwD1SPLE1PB3ZE3FCz6sXlnHh4N6uF6YGMEGYBEBABBBBB3O1CbXQ2BC1W1JL1
       FDMUEJBSBDECBAB4KCAB3AC3ADFCFCFCCDGBGOC"),
    ("2.0 v20",
      "1ezQBMUA2eH2JB1BHvEFBABUDGBA3twAhAA163SbjL2gtJB266AB266AB266AB266AB266AB266AB266AB266AB2
       66AB266AB266AB266AB266A4ccF"),
    ("2.1 v21", "8lZA1sfDA"),
    ("3.0 v30",
      "gGDzHCR3YE1SAKE2ZITA3XADABABABAzAMA2EAMA1LBCD2zB5BA6OC3FBFAPA1LEBNByDv1W1R1hBBBRDXBIBACG
       DAEFBABHSCcBA1MAXCHABCBOCA1R1CBEBBBGDDGZdTGB2ABABDCGBABDC1HBABDCzBABDCGBABDCGBGBWBzBABDC
       GB1HBSGw1E2WMkJJxD2S4T2zDJWOBJG2ZI1K20DAYF3CC1TB2XB2KA3KI8VA3xABy4OBeXH1CA2YBcv8H1eNZB2v
       M6wvL1yCDAbMXiv6qJlsR16RDRCPBLBCBAmuzA19DC"),
    ("3.1 v31",
      "11UB24hJ1A1aZzBDMv5v1GC1G1n8E7xK1HD5YhT2WB2IBBCACBCDBLBABDBBB2CBDCHBGBwBDBEBADGBawE9KE1S
       akK1ddXljHhOo7mKAz3C"),
    ("3.2 v32",
      "hRA9XATM3LBxA4XB1vBCBCB1SPbJBaLA2eRB1iYMBGLWJTMMBCBB2awAGEEAHENA2AB1TG2UO5NL7ZN4AAz1U9FT
       4wJ2vHWB2xLCJ7FN2xwEP8IgP1cGC2ZBIB3BA7XP2TO2TOuaOBQAMADAmnL1wtOADP1WB1NA7SB"),
    ("4.0 v40",
      "hSASC3vB2BQ2SHFC4wEgUDJI2CC4ZBPA1OCyCeCA5yA2FABA4MA2WCNA2FA1xA4FH6HB2tvASJ8OxDLELEAD1KCE
       3O1AoY3OnzB7NAlIB9XA8xB3XHOB15CN1rJB1SA1MB2QD5MD3GB1AA6qU2B1frKA2LBeFLBZBSBBBOCN1D3yFCE1
       NDIiSyBA4KB1H2RCJrRFCAB1MBBDACA1n0K2YbVAqo4E7W"),
    ("4.1 v41",
      "iJK8zE5ED7yB5PA1DC2FASA1wF7YyhAA2SAfWA1QA11JB9QBBA8SA2BA2BA1IA1AA1AA1AAPA1IAXB1AZ1hW1KGZ
       GJEB1BwCBrH2ZlGBBG1SEyD1WA2SAPAkYKiOA3IBSKFP8WGrCF7T1PB1P1C3NO1NK1WJAQWJGBGBGBGBGBGBGBG1
       CXEBuAP5TAt2MV1tAW7Q1MlsL3MqQJqA2MhG1EEN1jxDBBFHBCBvECEIII1m5X2H15CB"),
    ("5.0 v50",
      "iUN9UCawA1LFQD5LAgV1wcMBBBryBNB3nB2NE1NiZG1UBoED3AB1WAjKLnBA8xDrEGFDaGMHD11kTDFB9H1YpmFZ
       FA62xsK4V3FND1fiQR14wB"),
    ("5.1 v51",
      "sMDCB2ZA5xA4QP7JELE1BE9XRgBB7FA1EA6UAyB3PA3PAvBIBUH6DAGAyBMFDGfvB3EADC2PAFACAHCEFv2BEB24
       MAnM1LDL2I1YDOD1TaVw5vD2xFbPA4PA3BA1WD1ayAVJDD8QA1ADqFEE1JDE9BCBCEFbN1AYDCSoUA5HTt8DH1cH
       9UU1ACRIw4HEC3N3RE4E2GJL1H2VLA5F1XJNCJCDm9XCsFL1V1O4GxD1R1lDZFA1m7wA86U1ME3G"),
    ("5.2 v52",
      "1bOBnR1OCO6HA2PAGA1EB4EA1hJD6HD6CE2GE2UFgQAkKIiC2H5ZB1PA2H2ABxCKGJGNhT1D8SAmOC4wC1XAjRAm
       LByCEJBSBAEX2ZA11yE8zANB3OGaJA12TLt4wH1aN1QdN2ZaCJ5Lw3HxD2PBKEB4EwE2EYE7H1OCJbjzWE1R95LC
       3lEVBI6ABaO1A4E1WDxCvFH4E2KhIzgR2D8aA13Q1j9IKFzCALABACADADEIAHAZABBCAKDCA3SAP1COI1h4L49Z"),
    ("6.0 v60",
      "1bQB8AA2AAfPwCA7CBTAGBwEgKFdzAQATAiPD2LBszB27G1UIDgMAlNHxAqJKnRATABDyAEBxA1EABAECJB1VCYA
       OAOB1fOAOA13vC102IB9UBBBOJ2SAozFCFCFJGBGldwP5cF2PEynaDiKiiHBh6TOCNCOBO2SABKBABBBCBCFHBGB
       JGIBACBBJEBBJ2NZBB1QIVB5T1BPFB2HDTM1FBEVQP2ABAB5vBDD1zSX4XEBPBCBABABABCBFCDBACDBLEK1R2H1
       w3W1k2w7E"),
    ("6.1 v61",
      "1exA3XAlQABK1YvgBA11NBfWAFA1QC2qDCMF8IH1MD2rNABA1bOB1UAFA1ZB6QJu7ZA1nyH1EA7ZBWA2PBnyWl3F
       B42O1YGB1rKYHJG1VBN1y2KHJ17M1YIJnfO2GL1PQQ12kTDBvBBBACABJBDBABAGAEABABABCBBBACABABABABAB
       BBACDBGBDBDBABJBQFCBEBQ1VBkMB10TD6CAQADABABABADAGBEABBEA"),
    ("6.2 v62", "8mIA"),
    ("6.3 v63", "1jOA70CD"),
    ("7.0 v70",
      "swAdVH3AB3ZAlQALF2OA3wAHAkTA1UA2OA4DA7LJ2cLHhVBcyOiLB7UOmwCqQGoyA14PCKZC1AC1CDLBHjyG111W
       F7yLLCCB2HAfXz4BD5V1QEBm1MGrYBTAaJw1EA1R1LcR1II1ULA4UaAJVKH8A2AIIez1A1B1HEL4NRHDMG18WA6W
       1H2YAMAGTLRB1L3V1wFJHCBHCBCVBGBBBECICBCCJAFGCGDE8T2JIJ5L1WCR1X2GLJiY2UMAeO1Z27w1K6QLFAii
       LzBJEB3DyCFK2HKJBGBUFSldI3NFMDIHJCHbhC6KCP23JA1BVVBhFLJA2IAWL1GAFDFLRG2JABA5wAEB2BBEGyRB
       1JB2X2IBN1Q2IJQMDD4Q2W1MLE1YIJG1IIy"),
    ("8.0 v80",
      "29vB1PAhGAbLA8MA1nLACF3cJA6RB2nVDuqZI1pAA7XA1DFaOBjVDM2RltWB2qISBBFE6CBCPC1OkU1TN1THF18Q
       DOE5FGBABDBOBK2YA2RAkNT9LZDOEP38zA7N6J85ZiY165XK1jJlAPEBO6gHC2QB2RE1FH8HA2NE7vB4PAiRI3KE
       1xA1jmD5uv"),
    ("9.0 v90",
      "29yHWOtvA6UAECBGXC40DIbyA1iQD2mYB11aTA8zAnkEBpv1EE1E3gPAeP2wBABAgSM1fBIB1NBNKxD1ACVBNm4X
       A1A6bRToKmkLGBQCGBBBE2ay2MFJEB25zR4SAqYA1KA9VB1CChTFBHIACLBLEO1HM"),
    ("10.0 v100",
      "27FKcyB8EFgQA1wB45wA8GDmwAqZA22SAkGEnwAteYUqdVC62M2JI1UCWBEjQGBBB1MDABBBIIJluQAh2R9F2TcX
       grPF15RB1DBgXLTAIHBBZASM1HF1ZW1plG7oB"),
    ("11.0 v110",
      "1dMA1IA3JAgyC6ZA9TA3vAcZA4DA35VA12Y1LCC3uVCWYEOiyEnXAtfNE21zAIBaOBprWBSAmN1IIJeU1II1KbzA
       3ZCgEA9LAmRA7M1xjUAmYFBBB1FBBBFHJaAYl3V2x6nDEjtYT4CG6kG2F15zA1gYA7CDcACxECDDABDYKNJHB1FY
       3DN"),
    ("12.0 v120",
      "39yAgzACACABFEAHAHBCANA3oUA3tIA1WAjCA11aUFCEtxBqnVW15MAjLAnzHC1OCK5EB1cF1SNA5bWIfmTFEA1Q
       I2xB6cUFb0NCRDclB1NDNCJEBbw1vFA1kzAuT1y13QA1dUA1FA7ML9KC1QA1SAJA1KFDBKFDHCC1R2VxDECFCNF"),
    ("12.1 v121", "diEA"),
    ("13.0 v130",
      "2aGJlCAdwA4AA3gKB4fBAmOCsEE7dxJlrWM22KD1LB1WAqVDmtXA3dN1KBCCB8GwcHA4KBkzAFB17EGCACHBBByB
       BCLJJ1lKAlbJALB76AfR1LIqjyC3AC1zA1bSB1EBeBB2xA3IAEB1LBGCyA5NAODPSHGJCNG1K4WB1X1GJ1egAGnn
       C54J"),
    ("14.0 v140",
      "1jPAjFzBBGHVASKsFA1BA4DA2mDAHAJA7WAmHN4BA1RBkPAmwA31MA1QAgDKu8JC22ABOBBABEYCmaBAcJP4DA1P
       B1uNKBOBGBBBKBOBGBBeRFB1KBI21UZ7NF2OA1iHA4KGsFP5gw3FfiA2QBJidBDBGBB9JD7tT1OCWJ3WhWB3fBzs
       Nz1bwGBDBBBO3tYC8YAcUA2UA5TB1NDKDICRCGHIG1eoSB4awD"),
    ("15.0 v150",
      "3dyAfJA267RCqZC2aGJ11WQB1JDw5hBAJx128DA1DA8ryT38WF8N1z1CA14D1K4nVA4wCEE2wAlQCPB1FCLCBAOB
       KBMAOB1j4SAogO4bG"),
    ("15.1 v151", "coIDfzA5utEkB"),
    ("16.0 v160",
      "28yA4uQB1QA8RB20vC3kLB10cSCMCp0K1U1tI1GDxIB9wC1YA16IJBACAB1GBJBACABDBJBBIBoFT19E1COJrwA5
       iS44v7mU1v36J1v8cJAgoI8BGeB64v1LEA4uMJEBeVAFA1PAHAVACAJA7I1F")]

end ConfigNotation.Unicode

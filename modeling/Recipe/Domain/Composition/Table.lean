import Recipe.Text.Codes

/-!
# Tables of canonical composition

The classes of combining marks, and the composites that may stand in a domain name.
-/

namespace Recipe.Domain

open Text (CharTable)

/-- The classes of the combining marks that have one. Marks of different classes may change places
without a change of meaning. -/
def combiningClasses : CharTable Nat := .ofText Text.hexValue
  "0300-0314:E6 0315:E8 0316-0319:DC 031A:E8 031B:D8 031C-0320:DC 0321-0322:CA 0323-0326:DC
    0327-0328:CA 0329-0333:DC 0334-0338:1 0339-033C:DC 033D-0344:E6 0345:F0 0346:E6 0347-0349:DC
    034A-034C:E6 034D-034E:DC 0350-0352:E6 0353-0356:DC 0357:E6 0358:E8 0359-035A:DC 035B:E6
    035C:E9 035D-035E:EA 035F:E9 0360-0361:EA 0362:E9 0363-036F:E6 0483-0487:E6 0591:DC
    0592-0595:E6 0596:DC 0597-0599:E6 059A:DE 059B:DC 059C-05A1:E6 05A2-05A7:DC 05A8-05A9:E6
    05AA:DC 05AB-05AC:E6 05AD:DE 05AE:E4 05AF:E6 05B0:A 05B1:B 05B2:C 05B3:D 05B4:E 05B5:F
    05B6:10 05B7:11 05B8:12 05B9-05BA:13 05BB:14 05BC:15 05BD:16 05BF:17 05C1:18 05C2:19 05C4:E6
    05C5:DC 05C7:12 0610-0617:E6 0618:1E 0619:1F 061A:20 064B:1B 064C:1C 064D:1D 064E:1E 064F:1F
    0650:20 0651:21 0652:22 0653-0654:E6 0655-0656:DC 0657-065B:E6 065C:DC 065D-065E:E6 065F:DC
    0670:23 06D6-06DC:E6 06DF-06E2:E6 06E3:DC 06E4:E6 06E7-06E8:E6 06EA:DC 06EB-06EC:E6 06ED:DC
    0711:24 0730:E6 0731:DC 0732-0733:E6 0734:DC 0735-0736:E6 0737-0739:DC 073A:E6 073B-073C:DC
    073D:E6 073E:DC 073F-0741:E6 0742:DC 0743:E6 0744:DC 0745:E6 0746:DC 0747:E6 0748:DC
    0749-074A:E6 07EB-07F1:E6 07F2:DC 07F3:E6 07FD:DC 0816-0819:E6 081B-0823:E6 0825-0827:E6
    0829-082D:E6 0859-085B:DC 0898:E6 0899-089B:DC 089C-089F:E6 08CA-08CE:E6 08CF-08D3:DC
    08D4-08E1:E6 08E3:DC 08E4-08E5:E6 08E6:DC 08E7-08E8:E6 08E9:DC 08EA-08EC:E6 08ED-08EF:DC
    08F0:1B 08F1:1C 08F2:1D 08F3-08F5:E6 08F6:DC 08F7-08F8:E6 08F9-08FA:DC 08FB-08FF:E6 093C:7
    094D:9 0951:E6 0952:DC 0953-0954:E6 09BC:7 09CD:9 09FE:E6 0A3C:7 0A4D:9 0ABC:7 0ACD:9 0B3C:7
    0B4D:9 0BCD:9 0C3C:7 0C4D:9 0C55:54 0C56:5B 0CBC:7 0CCD:9 0D3B-0D3C:9 0D4D:9 0DCA:9
    0E38-0E39:67 0E3A:9 0E48-0E4B:6B 0EB8-0EB9:76 0EBA:9 0EC8-0ECB:7A 0F18-0F19:DC 0F35:DC
    0F37:DC 0F39:D8 0F71:81 0F72:82 0F74:84 0F7A-0F7D:82 0F80:82 0F82-0F83:E6 0F84:9 0F86-0F87:E6
    0FC6:DC 1037:7 1039-103A:9 108D:DC 135D-135F:E6 1714-1715:9 1734:9 17D2:9 17DD:E6 18A9:E4
    1939:DE 193A:E6 193B:DC 1A17:E6 1A18:DC 1A60:9 1A75-1A7C:E6 1A7F:DC 1AB0-1AB4:E6 1AB5-1ABA:DC
    1ABB-1ABC:E6 1ABD:DC 1ABF-1AC0:DC 1AC1-1AC2:E6 1AC3-1AC4:DC 1AC5-1AC9:E6 1ACA:DC 1ACB-1ACE:E6
    1B34:7 1B44:9 1B6B:E6 1B6C:DC 1B6D-1B73:E6 1BAA-1BAB:9 1BE6:7 1BF2-1BF3:9 1C37:7 1CD0-1CD2:E6
    1CD4:1 1CD5-1CD9:DC 1CDA-1CDB:E6 1CDC-1CDF:DC 1CE0:E6 1CE2-1CE8:1 1CED:DC 1CF4:E6
    1CF8-1CF9:E6 1DC0-1DC1:E6 1DC2:DC 1DC3-1DC9:E6 1DCA:DC 1DCB-1DCC:E6 1DCD:EA 1DCE:D6 1DCF:DC
    1DD0:CA 1DD1-1DF5:E6 1DF6:E8 1DF7-1DF8:E4 1DF9:DC 1DFA:DA 1DFB:E6 1DFC:E9 1DFD:DC 1DFE:E6
    1DFF:DC 20D0-20D1:E6 20D2-20D3:1 20D4-20D7:E6 20D8-20DA:1 20DB-20DC:E6 20E1:E6 20E5-20E6:1
    20E7:E6 20E8:DC 20E9:E6 20EA-20EB:1 20EC-20EF:DC 20F0:E6 2CEF-2CF1:E6 2D7F:9 2DE0-2DFF:E6
    302A:DA 302B:E4 302C:E8 302D:DE 302E-302F:E0 3099-309A:8 A66F:E6 A674-A67D:E6 A69E-A69F:E6
    A6F0-A6F1:E6 A806:9 A82C:9 A8C4:9 A8E0-A8F1:E6 A92B-A92D:DC A953:9 A9B3:7 A9C0:9 AAB0:E6
    AAB2-AAB3:E6 AAB4:DC AAB7-AAB8:E6 AABE-AABF:E6 AAC1:E6 AAF6:9 ABED:9 FB1E:1A FE20-FE26:E6
    FE27-FE2D:DC FE2E-FE2F:E6 101FD:DC 102E0:DC 10376-1037A:E6 10A0D:DC 10A0F:E6 10A38:E6 10A39:1
    10A3A:DC 10A3F:9 10AE5:E6 10AE6:DC 10D24-10D27:E6 10EAB-10EAC:E6 10EFD-10EFF:DC
    10F46-10F47:DC 10F48-10F4A:E6 10F4B:DC 10F4C:E6 10F4D-10F50:DC 10F82:E6 10F83:DC 10F84:E6
    10F85:DC 11046:9 11070:9 1107F:9 110B9:9 110BA:7 11100-11102:E6 11133-11134:9 11173:7 111C0:9
    111CA:7 11235:9 11236:7 112E9:7 112EA:9 1133B-1133C:7 1134D:9 11366-1136C:E6 11370-11374:E6
    11442:9 11446:7 1145E:E6 114C2:9 114C3:7 115BF:9 115C0:7 1163F:9 116B6:9 116B7:7 1172B:9
    11839:9 1183A:7 1193D-1193E:9 11943:7 119E0:9 11A34:9 11A47:9 11A99:9 11C3F:9 11D42:7
    11D44-11D45:9 11D97:9 11F41-11F42:9 16AF0-16AF4:1 16B30-16B36:E6 16FF0-16FF1:6 1BC9E:1
    1D165-1D166:D8 1D167-1D169:1 1D16D:E2 1D16E-1D172:D8 1D17B-1D182:DC 1D185-1D189:E6
    1D18A-1D18B:DC 1D1AA-1D1AD:E6 1D242-1D244:E6 1E000-1E006:E6 1E008-1E018:E6 1E01B-1E021:E6
    1E023-1E024:E6 1E026-1E02A:E6 1E08F:E6 1E130-1E136:E6 1E2AE:E6 1E2EC-1E2EF:E6 1E4EC-1E4ED:E8
    1E4EE:DC 1E4EF:E6 1E8D0-1E8D6:DC 1E944-1E949:E6 1E94A:7"

/-- The composites, each with the characters that it is composed of in the end. -/
def composites : CharTable (List Char) := .ofText Text.codes
  "00E0:0061+0300 00E1:0061+0301 00E2:0061+0302 00E3:0061+0303 00E4:0061+0308 00E5:0061+030A
    00E7:0063+0327 00E8:0065+0300 00E9:0065+0301 00EA:0065+0302 00EB:0065+0308 00EC:0069+0300
    00ED:0069+0301 00EE:0069+0302 00EF:0069+0308 00F1:006E+0303 00F2:006F+0300 00F3:006F+0301
    00F4:006F+0302 00F5:006F+0303 00F6:006F+0308 00F9:0075+0300 00FA:0075+0301 00FB:0075+0302
    00FC:0075+0308 00FD:0079+0301 00FF:0079+0308 0101:0061+0304 0103:0061+0306 0105:0061+0328
    0107:0063+0301 0109:0063+0302 010B:0063+0307 010D:0063+030C 010F:0064+030C 0113:0065+0304
    0115:0065+0306 0117:0065+0307 0119:0065+0328 011B:0065+030C 011D:0067+0302 011F:0067+0306
    0121:0067+0307 0123:0067+0327 0125:0068+0302 0129:0069+0303 012B:0069+0304 012D:0069+0306
    012F:0069+0328 0135:006A+0302 0137:006B+0327 013A:006C+0301 013C:006C+0327 013E:006C+030C
    0144:006E+0301 0146:006E+0327 0148:006E+030C 014D:006F+0304 014F:006F+0306 0151:006F+030B
    0155:0072+0301 0157:0072+0327 0159:0072+030C 015B:0073+0301 015D:0073+0302 015F:0073+0327
    0161:0073+030C 0163:0074+0327 0165:0074+030C 0169:0075+0303 016B:0075+0304 016D:0075+0306
    016F:0075+030A 0171:0075+030B 0173:0075+0328 0175:0077+0302 0177:0079+0302 017A:007A+0301
    017C:007A+0307 017E:007A+030C 01A1:006F+031B 01B0:0075+031B 01CE:0061+030C 01D0:0069+030C
    01D2:006F+030C 01D4:0075+030C 01D6:0075+0308+0304 01D8:0075+0308+0301 01DA:0075+0308+030C
    01DC:0075+0308+0300 01DF:0061+0308+0304 01E1:0061+0307+0304 01E3:00E6+0304 01E7:0067+030C
    01E9:006B+030C 01EB:006F+0328 01ED:006F+0328+0304 01EF:0292+030C 01F0:006A+030C
    01F5:0067+0301 01F9:006E+0300 01FB:0061+030A+0301 01FD:00E6+0301 01FF:00F8+0301
    0201:0061+030F 0203:0061+0311 0205:0065+030F 0207:0065+0311 0209:0069+030F 020B:0069+0311
    020D:006F+030F 020F:006F+0311 0211:0072+030F 0213:0072+0311 0215:0075+030F 0217:0075+0311
    0219:0073+0326 021B:0074+0326 021F:0068+030C 0227:0061+0307 0229:0065+0327
    022B:006F+0308+0304 022D:006F+0303+0304 022F:006F+0307 0231:006F+0307+0304 0233:0079+0304
    0390:03B9+0308+0301 03AC:03B1+0301 03AD:03B5+0301 03AE:03B7+0301 03AF:03B9+0301
    03B0:03C5+0308+0301 03CA:03B9+0308 03CB:03C5+0308 03CC:03BF+0301 03CD:03C5+0301
    03CE:03C9+0301 0439:0438+0306 0450:0435+0300 0451:0435+0308 0453:0433+0301 0457:0456+0308
    045C:043A+0301 045D:0438+0300 045E:0443+0306 0477:0475+030F 04C2:0436+0306 04D1:0430+0306
    04D3:0430+0308 04D7:0435+0306 04DB:04D9+0308 04DD:0436+0308 04DF:0437+0308 04E3:0438+0304
    04E5:0438+0308 04E7:043E+0308 04EB:04E9+0308 04ED:044D+0308 04EF:0443+0304 04F1:0443+0308
    04F3:0443+030B 04F5:0447+0308 04F9:044B+0308 0622:0627+0653 0623:0627+0654 0624:0648+0654
    0625:0627+0655 0626:064A+0654 06C0:06D5+0654 06C2:06C1+0654 06D3:06D2+0654 0929:0928+093C
    0931:0930+093C 0934:0933+093C 09CB:09C7+09BE 09CC:09C7+09D7 0B48:0B47+0B56 0B4B:0B47+0B3E
    0B4C:0B47+0B57 0B94:0B92+0BD7 0BCA:0BC6+0BBE 0BCB:0BC7+0BBE 0BCC:0BC6+0BD7 0C48:0C46+0C56
    0CC0:0CBF+0CD5 0CC7:0CC6+0CD5 0CC8:0CC6+0CD6 0CCA:0CC6+0CC2 0CCB:0CC6+0CC2+0CD5
    0D4A:0D46+0D3E 0D4B:0D47+0D3E 0D4C:0D46+0D57 0DDA:0DD9+0DCA 0DDC:0DD9+0DCF
    0DDD:0DD9+0DCF+0DCA 0DDE:0DD9+0DDF 1026:1025+102E 1B06:1B05+1B35 1B08:1B07+1B35
    1B0A:1B09+1B35 1B0C:1B0B+1B35 1B0E:1B0D+1B35 1B12:1B11+1B35 1B3B:1B3A+1B35 1B3D:1B3C+1B35
    1B40:1B3E+1B35 1B41:1B3F+1B35 1B43:1B42+1B35 1E01:0061+0325 1E03:0062+0307 1E05:0062+0323
    1E07:0062+0331 1E09:0063+0327+0301 1E0B:0064+0307 1E0D:0064+0323 1E0F:0064+0331
    1E11:0064+0327 1E13:0064+032D 1E15:0065+0304+0300 1E17:0065+0304+0301 1E19:0065+032D
    1E1B:0065+0330 1E1D:0065+0327+0306 1E1F:0066+0307 1E21:0067+0304 1E23:0068+0307
    1E25:0068+0323 1E27:0068+0308 1E29:0068+0327 1E2B:0068+032E 1E2D:0069+0330
    1E2F:0069+0308+0301 1E31:006B+0301 1E33:006B+0323 1E35:006B+0331 1E37:006C+0323
    1E39:006C+0323+0304 1E3B:006C+0331 1E3D:006C+032D 1E3F:006D+0301 1E41:006D+0307
    1E43:006D+0323 1E45:006E+0307 1E47:006E+0323 1E49:006E+0331 1E4B:006E+032D
    1E4D:006F+0303+0301 1E4F:006F+0303+0308 1E51:006F+0304+0300 1E53:006F+0304+0301
    1E55:0070+0301 1E57:0070+0307 1E59:0072+0307 1E5B:0072+0323 1E5D:0072+0323+0304
    1E5F:0072+0331 1E61:0073+0307 1E63:0073+0323 1E65:0073+0301+0307 1E67:0073+030C+0307
    1E69:0073+0323+0307 1E6B:0074+0307 1E6D:0074+0323 1E6F:0074+0331 1E71:0074+032D
    1E73:0075+0324 1E75:0075+0330 1E77:0075+032D 1E79:0075+0303+0301 1E7B:0075+0304+0308
    1E7D:0076+0303 1E7F:0076+0323 1E81:0077+0300 1E83:0077+0301 1E85:0077+0308 1E87:0077+0307
    1E89:0077+0323 1E8B:0078+0307 1E8D:0078+0308 1E8F:0079+0307 1E91:007A+0302 1E93:007A+0323
    1E95:007A+0331 1E96:0068+0331 1E97:0074+0308 1E98:0077+030A 1E99:0079+030A 1EA1:0061+0323
    1EA3:0061+0309 1EA5:0061+0302+0301 1EA7:0061+0302+0300 1EA9:0061+0302+0309
    1EAB:0061+0302+0303 1EAD:0061+0323+0302 1EAF:0061+0306+0301 1EB1:0061+0306+0300
    1EB3:0061+0306+0309 1EB5:0061+0306+0303 1EB7:0061+0323+0306 1EB9:0065+0323 1EBB:0065+0309
    1EBD:0065+0303 1EBF:0065+0302+0301 1EC1:0065+0302+0300 1EC3:0065+0302+0309
    1EC5:0065+0302+0303 1EC7:0065+0323+0302 1EC9:0069+0309 1ECB:0069+0323 1ECD:006F+0323
    1ECF:006F+0309 1ED1:006F+0302+0301 1ED3:006F+0302+0300 1ED5:006F+0302+0309
    1ED7:006F+0302+0303 1ED9:006F+0323+0302 1EDB:006F+031B+0301 1EDD:006F+031B+0300
    1EDF:006F+031B+0309 1EE1:006F+031B+0303 1EE3:006F+031B+0323 1EE5:0075+0323 1EE7:0075+0309
    1EE9:0075+031B+0301 1EEB:0075+031B+0300 1EED:0075+031B+0309 1EEF:0075+031B+0303
    1EF1:0075+031B+0323 1EF3:0079+0300 1EF5:0079+0323 1EF7:0079+0309 1EF9:0079+0303
    1F00:03B1+0313 1F01:03B1+0314 1F02:03B1+0313+0300 1F03:03B1+0314+0300 1F04:03B1+0313+0301
    1F05:03B1+0314+0301 1F06:03B1+0313+0342 1F07:03B1+0314+0342 1F10:03B5+0313 1F11:03B5+0314
    1F12:03B5+0313+0300 1F13:03B5+0314+0300 1F14:03B5+0313+0301 1F15:03B5+0314+0301
    1F20:03B7+0313 1F21:03B7+0314 1F22:03B7+0313+0300 1F23:03B7+0314+0300 1F24:03B7+0313+0301
    1F25:03B7+0314+0301 1F26:03B7+0313+0342 1F27:03B7+0314+0342 1F30:03B9+0313 1F31:03B9+0314
    1F32:03B9+0313+0300 1F33:03B9+0314+0300 1F34:03B9+0313+0301 1F35:03B9+0314+0301
    1F36:03B9+0313+0342 1F37:03B9+0314+0342 1F40:03BF+0313 1F41:03BF+0314 1F42:03BF+0313+0300
    1F43:03BF+0314+0300 1F44:03BF+0313+0301 1F45:03BF+0314+0301 1F50:03C5+0313 1F51:03C5+0314
    1F52:03C5+0313+0300 1F53:03C5+0314+0300 1F54:03C5+0313+0301 1F55:03C5+0314+0301
    1F56:03C5+0313+0342 1F57:03C5+0314+0342 1F60:03C9+0313 1F61:03C9+0314 1F62:03C9+0313+0300
    1F63:03C9+0314+0300 1F64:03C9+0313+0301 1F65:03C9+0314+0301 1F66:03C9+0313+0342
    1F67:03C9+0314+0342 1F70:03B1+0300 1F72:03B5+0300 1F74:03B7+0300 1F76:03B9+0300
    1F78:03BF+0300 1F7A:03C5+0300 1F7C:03C9+0300 1FB0:03B1+0306 1FB1:03B1+0304 1FB6:03B1+0342
    1FC6:03B7+0342 1FD0:03B9+0306 1FD1:03B9+0304 1FD2:03B9+0308+0300 1FD6:03B9+0342
    1FD7:03B9+0308+0342 1FE0:03C5+0306 1FE1:03C5+0304 1FE2:03C5+0308+0300 1FE4:03C1+0313
    1FE5:03C1+0314 1FE6:03C5+0342 1FE7:03C5+0308+0342 1FF6:03C9+0342 219A:2190+0338
    219B:2192+0338 21AE:2194+0338 21CD:21D0+0338 21CE:21D4+0338 21CF:21D2+0338 2204:2203+0338
    2209:2208+0338 220C:220B+0338 2224:2223+0338 2226:2225+0338 2241:223C+0338 2244:2243+0338
    2247:2245+0338 2249:2248+0338 2260:003D+0338 2262:2261+0338 226D:224D+0338 226E:003C+0338
    226F:003E+0338 2270:2264+0338 2271:2265+0338 2274:2272+0338 2275:2273+0338 2278:2276+0338
    2279:2277+0338 2280:227A+0338 2281:227B+0338 2284:2282+0338 2285:2283+0338 2288:2286+0338
    2289:2287+0338 22AC:22A2+0338 22AD:22A8+0338 22AE:22A9+0338 22AF:22AB+0338 22E0:227C+0338
    22E1:227D+0338 22E2:2291+0338 22E3:2292+0338 22EA:22B2+0338 22EB:22B3+0338 22EC:22B4+0338
    22ED:22B5+0338 304C:304B+3099 304E:304D+3099 3050:304F+3099 3052:3051+3099 3054:3053+3099
    3056:3055+3099 3058:3057+3099 305A:3059+3099 305C:305B+3099 305E:305D+3099 3060:305F+3099
    3062:3061+3099 3065:3064+3099 3067:3066+3099 3069:3068+3099 3070:306F+3099 3071:306F+309A
    3073:3072+3099 3074:3072+309A 3076:3075+3099 3077:3075+309A 3079:3078+3099 307A:3078+309A
    307C:307B+3099 307D:307B+309A 3094:3046+3099 309E:309D+3099 30AC:30AB+3099 30AE:30AD+3099
    30B0:30AF+3099 30B2:30B1+3099 30B4:30B3+3099 30B6:30B5+3099 30B8:30B7+3099 30BA:30B9+3099
    30BC:30BB+3099 30BE:30BD+3099 30C0:30BF+3099 30C2:30C1+3099 30C5:30C4+3099 30C7:30C6+3099
    30C9:30C8+3099 30D0:30CF+3099 30D1:30CF+309A 30D3:30D2+3099 30D4:30D2+309A 30D6:30D5+3099
    30D7:30D5+309A 30D9:30D8+3099 30DA:30D8+309A 30DC:30DB+3099 30DD:30DB+309A 30F4:30A6+3099
    30F7:30EF+3099 30F8:30F0+3099 30F9:30F1+3099 30FA:30F2+3099 30FE:30FD+3099 105C9:105D2+0307
    105E4:105DA+0307 1109A:11099+110BA 1109C:1109B+110BA 110AB:110A5+110BA 1112E:11131+11127
    1112F:11132+11127 1134B:11347+1133E 1134C:11347+11357 11383:11382+113C9 11385:11384+113BB
    1138E:1138B+113C2 11391:11390+113C9 113C5:113C2+113C2 113C7:113C2+113B8 113C8:113C2+113C9
    114BB:114B9+114BA 114BC:114B9+114B0 114BE:114B9+114BD 115BA:115B8+115AF 115BB:115B9+115AF
    11938:11935+11930 16121:1611E+1611E 16122:1611E+16129 16123:1611E+1611F 16124:16129+1611F
    16125:1611E+16120 16126:1611E+1611E+1611F 16127:1611E+16129+1611F 16128:1611E+1611E+16120
    16D68:16D67+16D67 16D69:16D63+16D67 16D6A:16D63+16D67+16D67"

end Recipe.Domain

import Recipe.Text.Codes

/-!
# Tables of the characters of domain names

What the standard for internationalized domain names says about each character outside ASCII: it
stands as it is, it is dropped, it stands for other characters, or, if it is in none of the tables,
it is not allowed.
-/

namespace Recipe.Domain

open Text (CharSet CharTable)

/-- The characters that stand as they are. -/
def plain : CharSet := .ofText
  "00A1-00A7 00A9 00AB-00AC 00AE 00B0-00B1 00B6-00B7 00BB 00BF 00D7 00DF-00FF 0101 0103 0105
    0107 0109 010B 010D 010F 0111 0113 0115 0117 0119 011B 011D 011F 0121 0123 0125 0127 0129
    012B 012D 012F 0131 0135 0137-0138 013A 013C 013E 0142 0144 0146 0148 014B 014D 014F 0151
    0153 0155 0157 0159 015B 015D 015F 0161 0163 0165 0167 0169 016B 016D 016F 0171 0173 0175
    0177 017A 017C 017E 0180 0183 0185 0188 018C-018D 0192 0195 0199-019B 019E 01A1 01A3 01A5
    01A8 01AA-01AB 01AD 01B0 01B4 01B6 01B9-01BB 01BD-01C3 01CE 01D0 01D2 01D4 01D6 01D8 01DA
    01DC-01DD 01DF 01E1 01E3 01E5 01E7 01E9 01EB 01ED 01EF-01F0 01F5 01F9 01FB 01FD 01FF 0201
    0203 0205 0207 0209 020B 020D 020F 0211 0213 0215 0217 0219 021B 021D 021F 0221 0223 0225
    0227 0229 022B 022D 022F 0231 0233-0239 023C 023F-0240 0242 0247 0249 024B 024D 024F-02AF
    02B9-02D7 02DE-02DF 02E5-033F 0342 0346-034E 0350-036F 0371 0373 0375 0377 037B-037D 0390
    03AC-03CE 03D7 03D9 03DB 03DD 03DF 03E1 03E3 03E5 03E7 03E9 03EB 03ED 03EF 03F3 03F6 03F8
    03FB-03FC 0430-045F 0461 0463 0465 0467 0469 046B 046D 046F 0471 0473 0475 0477 0479 047B
    047D 047F 0481-0489 048B 048D 048F 0491 0493 0495 0497 0499 049B 049D 049F 04A1 04A3 04A5
    04A7 04A9 04AB 04AD 04AF 04B1 04B3 04B5 04B7 04B9 04BB 04BD 04BF 04C2 04C4 04C6 04C8 04CA
    04CC 04CE-04CF 04D1 04D3 04D5 04D7 04D9 04DB 04DD 04DF 04E1 04E3 04E5 04E7 04E9 04EB 04ED
    04EF 04F1 04F3 04F5 04F7 04F9 04FB 04FD 04FF 0501 0503 0505 0507 0509 050B 050D 050F 0511
    0513 0515 0517 0519 051B 051D 051F 0521 0523 0525 0527 0529 052B 052D 052F 0559-0586
    0588-058A 058D-058F 0591-05C7 05D0-05EA 05EF-05F4 0606-061B 061D-0674 0679-06DC 06DE-070D
    0710-074A 074D-07B1 07C0-07FA 07FD-082D 0830-083E 0840-085B 085E 0860-086A 0870-088F
    0897-08E1 08E3-0957 0960-0983 0985-098C 098F-0990 0993-09A8 09AA-09B0 09B2 09B6-09B9
    09BC-09C4 09C7-09C8 09CB-09CE 09D7 09E0-09E3 09E6-09FE 0A01-0A03 0A05-0A0A 0A0F-0A10
    0A13-0A28 0A2A-0A30 0A32 0A35 0A38-0A39 0A3C 0A3E-0A42 0A47-0A48 0A4B-0A4D 0A51 0A5C
    0A66-0A76 0A81-0A83 0A85-0A8D 0A8F-0A91 0A93-0AA8 0AAA-0AB0 0AB2-0AB3 0AB5-0AB9 0ABC-0AC5
    0AC7-0AC9 0ACB-0ACD 0AD0 0AE0-0AE3 0AE6-0AF1 0AF9-0AFF 0B01-0B03 0B05-0B0C 0B0F-0B10
    0B13-0B28 0B2A-0B30 0B32-0B33 0B35-0B39 0B3C-0B44 0B47-0B48 0B4B-0B4D 0B55-0B57 0B5F-0B63
    0B66-0B77 0B82-0B83 0B85-0B8A 0B8E-0B90 0B92-0B95 0B99-0B9A 0B9C 0B9E-0B9F 0BA3-0BA4
    0BA8-0BAA 0BAE-0BB9 0BBE-0BC2 0BC6-0BC8 0BCA-0BCD 0BD0 0BD7 0BE6-0BFA 0C00-0C0C 0C0E-0C10
    0C12-0C28 0C2A-0C39 0C3C-0C44 0C46-0C48 0C4A-0C4D 0C55-0C56 0C58-0C5A 0C5C-0C5D 0C60-0C63
    0C66-0C6F 0C77-0C8C 0C8E-0C90 0C92-0CA8 0CAA-0CB3 0CB5-0CB9 0CBC-0CC4 0CC6-0CC8 0CCA-0CCD
    0CD5-0CD6 0CDC-0CDE 0CE0-0CE3 0CE6-0CEF 0CF1-0CF3 0D00-0D0C 0D0E-0D10 0D12-0D44 0D46-0D48
    0D4A-0D4F 0D54-0D63 0D66-0D7F 0D81-0D83 0D85-0D96 0D9A-0DB1 0DB3-0DBB 0DBD 0DC0-0DC6 0DCA
    0DCF-0DD4 0DD6 0DD8-0DDF 0DE6-0DEF 0DF2-0DF4 0E01-0E32 0E34-0E3A 0E3F-0E5B 0E81-0E82 0E84
    0E86-0E8A 0E8C-0EA3 0EA5 0EA7-0EB2 0EB4-0EBD 0EC0-0EC4 0EC6 0EC8-0ECE 0ED0-0ED9 0EDE-0EDF
    0F00-0F0B 0F0D-0F42 0F44-0F47 0F49-0F4C 0F4E-0F51 0F53-0F56 0F58-0F5B 0F5D-0F68 0F6A-0F6C
    0F71-0F72 0F74 0F7A-0F80 0F82-0F92 0F94-0F97 0F99-0F9C 0F9E-0FA1 0FA3-0FA6 0FA8-0FAB
    0FAD-0FB8 0FBA-0FBC 0FBE-0FCC 0FCE-0FDA 1000-109F 10D0-10FB 10FD-115E 1161-1248 124A-124D
    1250-1256 1258 125A-125D 1260-1288 128A-128D 1290-12B0 12B2-12B5 12B8-12BE 12C0 12C2-12C5
    12C8-12D6 12D8-1310 1312-1315 1318-135A 135D-137C 1380-1399 13A0-13F5 1400-167F 1681-169C
    16A0-16F8 1700-1715 171F-1736 1740-1753 1760-176C 176E-1770 1772-1773 1780-17B3 17B6-17DD
    17E0-17E9 17F0-17F9 1800-180A 1810-1819 1820-1878 1880-18AA 18B0-18F5 1900-191E 1920-192B
    1930-193B 1940 1944-196D 1970-1974 1980-19AB 19B0-19C9 19D0-19DA 19DE-1A1B 1A1E-1A5E
    1A60-1A7C 1A7F-1A89 1A90-1A99 1AA0-1AAD 1AB0-1ADD 1AE0-1AEB 1B00-1B4C 1B4E-1BF3 1BFC-1C37
    1C3B-1C49 1C4D-1C7F 1C8A 1CC0-1CC7 1CD0-1CFA 1D00-1D2B 1D2F 1D3B 1D4E 1D6B-1D77 1D79-1D9A
    1DC0-1DFF 1E01 1E03 1E05 1E07 1E09 1E0B 1E0D 1E0F 1E11 1E13 1E15 1E17 1E19 1E1B 1E1D 1E1F
    1E21 1E23 1E25 1E27 1E29 1E2B 1E2D 1E2F 1E31 1E33 1E35 1E37 1E39 1E3B 1E3D 1E3F 1E41 1E43
    1E45 1E47 1E49 1E4B 1E4D 1E4F 1E51 1E53 1E55 1E57 1E59 1E5B 1E5D 1E5F 1E61 1E63 1E65 1E67
    1E69 1E6B 1E6D 1E6F 1E71 1E73 1E75 1E77 1E79 1E7B 1E7D 1E7F 1E81 1E83 1E85 1E87 1E89 1E8B
    1E8D 1E8F 1E91 1E93 1E95-1E99 1E9C-1E9D 1E9F 1EA1 1EA3 1EA5 1EA7 1EA9 1EAB 1EAD 1EAF 1EB1
    1EB3 1EB5 1EB7 1EB9 1EBB 1EBD 1EBF 1EC1 1EC3 1EC5 1EC7 1EC9 1ECB 1ECD 1ECF 1ED1 1ED3 1ED5
    1ED7 1ED9 1EDB 1EDD 1EDF 1EE1 1EE3 1EE5 1EE7 1EE9 1EEB 1EED 1EEF 1EF1 1EF3 1EF5 1EF7 1EF9
    1EFB 1EFD 1EFF-1F07 1F10-1F15 1F20-1F27 1F30-1F37 1F40-1F45 1F50-1F57 1F60-1F67 1F70 1F72
    1F74 1F76 1F78 1F7A 1F7C 1FB0-1FB1 1FB6 1FC6 1FD0-1FD2 1FD6-1FD7 1FE0-1FE2 1FE4-1FE7 1FF6
    200C-200D 2010 2012-2016 2018-2023 2027 2030-2032 2035 2038-203B 203D 203F-2046 204A-2056
    2058-205E 20A0-20A7 20A9-20C1 20D0-20F0 2104 2108 2114 2117-2118 211E-211F 2123 2125 2127
    2129 212E 213A 2141-2144 214A-214F 2180-2182 2184-2188 218A-218B 2190-222B 222E 2231-2328
    232B-2429 2440-244A 24EB-2A0B 2A0D-2A73 2A77-2ADB 2ADD-2B73 2B76-2BFF 2C30-2C5F 2C61
    2C65-2C66 2C68 2C6A 2C6C 2C71 2C73-2C74 2C76-2C7B 2C81 2C83 2C85 2C87 2C89 2C8B 2C8D 2C8F
    2C91 2C93 2C95 2C97 2C99 2C9B 2C9D 2C9F 2CA1 2CA3 2CA5 2CA7 2CA9 2CAB 2CAD 2CAF 2CB1 2CB3
    2CB5 2CB7 2CB9 2CBB 2CBD 2CBF 2CC1 2CC3 2CC5 2CC7 2CC9 2CCB 2CCD 2CCF 2CD1 2CD3 2CD5 2CD7
    2CD9 2CDB 2CDD 2CDF 2CE1 2CE3-2CEA 2CEC 2CEE-2CF1 2CF3 2CF9-2D25 2D27 2D2D 2D30-2D67 2D70
    2D7F-2D96 2DA0-2DA6 2DA8-2DAE 2DB0-2DB6 2DB8-2DBE 2DC0-2DC6 2DC8-2DCE 2DD0-2DD6 2DD8-2DDE
    2DE0-2E5D 2E80-2E99 2E9B-2E9E 2EA0-2EF2 3001 3003-3035 3037 303B-303F 3041-3096 3099-309A
    309D-309E 30A0-30FE 3105-312F 3190-3191 31A0-31E5 31F0-31FF 3248-324F 327F 3400-A48C
    A490-A4C6 A4D0-A62B A641 A643 A645 A647 A649 A64B A64D A64F A651 A653 A655 A657 A659 A65B
    A65D A65F A661 A663 A665 A667 A669 A66B A66D-A67F A681 A683 A685 A687 A689 A68B A68D A68F
    A691 A693 A695 A697 A699 A69B A69E-A6F7 A700-A721 A723 A725 A727 A729 A72B A72D A72F-A731
    A733 A735 A737 A739 A73B A73D A73F A741 A743 A745 A747 A749 A74B A74D A74F A751 A753 A755
    A757 A759 A75B A75D A75F A761 A763 A765 A767 A769 A76B A76D A76F A771-A778 A77A A77C A77F
    A781 A783 A785 A787-A78A A78C A78E-A78F A791 A793-A795 A797 A799 A79B A79D A79F A7A1 A7A3
    A7A5 A7A7 A7A9 A7AF A7B5 A7B7 A7B9 A7BB A7BD A7BF A7C1 A7C3 A7C8 A7CA A7CD A7CF A7D1 A7D3
    A7D5 A7D7 A7D9 A7DB A7F6-A7F7 A7FA-A82C A830-A839 A840-A877 A880-A8C5 A8CE-A8D9 A8E0-A953
    A95F-A97C A980-A9CD A9CF-A9D9 A9DE-A9FE AA00-AA36 AA40-AA4D AA50-AA59 AA5C-AAC2 AADB-AAF6
    AB01-AB06 AB09-AB0E AB11-AB16 AB20-AB26 AB28-AB2E AB30-AB5B AB60-AB68 AB6A-AB6B ABC0-ABED
    ABF0-ABF9 AC00-D7A3 D7B0-D7C6 D7CB-D7FB FA0E-FA0F FA11 FA13-FA14 FA1F FA21 FA23-FA24
    FA27-FA29 FB1E FBB2-FBD2 FD3E-FD4F FD90-FD91 FDC8-FDCF FDFD-FDFF FE20-FE2F FE45-FE46 FE73
    10000-1000B 1000D-10026 10028-1003A 1003C-1003D 1003F-1004D 10050-1005D 10080-100FA
    10100-10102 10107-10133 10137-1018E 10190-1019C 101A0 101D0-101FD 10280-1029C 102A0-102D0
    102E0-102FB 10300-10323 1032D-1034A 10350-1037A 10380-1039D 1039F-103C3 103C8-103D5
    10428-1049D 104A0-104A9 104D8-104FB 10500-10527 10530-10563 1056F 10597-105A1 105A3-105B1
    105B3-105B9 105BB-105BC 105C0-105F3 10600-10736 10740-10755 10760-10767 10780 10800-10805
    10808 1080A-10835 10837-10838 1083C 1083F-10855 10857-1089E 108A7-108AF 108E0-108F2
    108F4-108F5 108FB-1091B 1091F-10939 1093F-10959 10980-109B7 109BC-109CF 109D2-10A03
    10A05-10A06 10A0C-10A13 10A15-10A17 10A19-10A35 10A38-10A3A 10A3F-10A48 10A50-10A58
    10A60-10A9F 10AC0-10AE6 10AEB-10AF6 10B00-10B35 10B39-10B55 10B58-10B72 10B78-10B91
    10B99-10B9C 10BA9-10BAF 10C00-10C48 10CC0-10CF2 10CFA-10D27 10D30-10D39 10D40-10D4F
    10D69-10D85 10D8E-10D8F 10E60-10E7E 10E80-10EA9 10EAB-10EAD 10EB0-10EB1 10EC2-10EC7
    10ED0-10ED8 10EFA-10F27 10F30-10F59 10F70-10F89 10FB0-10FCB 10FE0-10FF6 11000-1104D
    11052-11075 1107F-110BC 110BE-110C2 110D0-110E8 110F0-110F9 11100-11134 11136-11147
    11150-11176 11180-111DF 111E1-111F4 11200-11211 11213-11241 11280-11286 11288 1128A-1128D
    1128F-1129D 1129F-112A9 112B0-112EA 112F0-112F9 11300-11303 11305-1130C 1130F-11310
    11313-11328 1132A-11330 11332-11333 11335-11339 1133B-11344 11347-11348 1134B-1134D 11350
    11357 1135D-11363 11366-1136C 11370-11374 11380-11389 1138B 1138E 11390-113B5 113B7-113C0
    113C2 113C5 113C7-113CA 113CC-113D5 113D7-113D8 113E1-113E2 11400-1145B 1145D-11461
    11480-114C7 114D0-114D9 11580-115B5 115B8-115DD 11600-11644 11650-11659 11660-1166C
    11680-116B9 116C0-116C9 116D0-116E3 11700-1171A 1171D-1172B 11730-11746 11800-1183B
    118C0-118F2 118FF-11906 11909 1190C-11913 11915-11916 11918-11935 11937-11938 1193B-11946
    11950-11959 119A0-119A7 119AA-119D7 119DA-119E4 11A00-11A47 11A50-11AA2 11AB0-11AF8
    11B00-11B09 11B60-11B67 11BC0-11BE1 11BF0-11BF9 11C00-11C08 11C0A-11C36 11C38-11C45
    11C50-11C6C 11C70-11C8F 11C92-11CA7 11CA9-11CB6 11D00-11D06 11D08-11D09 11D0B-11D36 11D3A
    11D3C-11D3D 11D3F-11D47 11D50-11D59 11D60-11D65 11D67-11D68 11D6A-11D8E 11D90-11D91
    11D93-11D98 11DA0-11DA9 11DB0-11DDB 11DE0-11DE9 11EE0-11EF8 11F00-11F10 11F12-11F3A
    11F3E-11F5A 11FB0 11FC0-11FF1 11FFF-12399 12400-1246E 12470-12474 12480-12543 12F90-12FF2
    13000-1342F 13440-13455 13460-143FA 14400-14646 16100-16139 16800-16A38 16A40-16A5E
    16A60-16A69 16A6E-16ABE 16AC0-16AC9 16AD0-16AED 16AF0-16AF5 16B00-16B45 16B50-16B59
    16B5B-16B61 16B63-16B77 16B7D-16B8F 16D40-16D79 16E60-16E9A 16EBB-16ED3 16F00-16F4A
    16F4F-16F87 16F8F-16F9F 16FE0-16FE4 16FF0-16FF6 17000-18CD5 18CFF-18D1E 18D80-18DF2
    1AFF0-1AFF3 1AFF5-1AFFB 1AFFD-1AFFE 1B000-1B122 1B132 1B150-1B152 1B155 1B164-1B167
    1B170-1B2FB 1BC00-1BC6A 1BC70-1BC7C 1BC80-1BC88 1BC90-1BC99 1BC9C-1BC9F 1CC00-1CCD5
    1CCFA-1CCFC 1CD00-1CEB3 1CEBA-1CED0 1CEE0-1CEF0 1CF00-1CF2D 1CF30-1CF46 1CF50-1CFC3
    1D000-1D0F5 1D100-1D126 1D129-1D15D 1D165-1D172 1D17B-1D1BA 1D1C1-1D1EA 1D200-1D245
    1D2C0-1D2D3 1D2E0-1D2F3 1D300-1D356 1D360-1D378 1D800-1DA8B 1DA9B-1DA9F 1DAA1-1DAAF
    1DF00-1DF1E 1DF25-1DF2A 1E000-1E006 1E008-1E018 1E01B-1E021 1E023-1E024 1E026-1E02A 1E08F
    1E100-1E12C 1E130-1E13D 1E140-1E149 1E14E-1E14F 1E290-1E2AE 1E2C0-1E2F9 1E2FF 1E4D0-1E4F9
    1E5D0-1E5FA 1E5FF 1E6C0-1E6DE 1E6E0-1E6F5 1E6FE-1E6FF 1E7E0-1E7E6 1E7E8-1E7EB 1E7ED-1E7EE
    1E7F0-1E7FE 1E800-1E8C4 1E8C7-1E8D6 1E922-1E94B 1E950-1E959 1E95E-1E95F 1EC71-1ECB4
    1ED01-1ED3D 1EEF0-1EEF1 1F000-1F02B 1F030-1F093 1F0A0-1F0AE 1F0B1-1F0BF 1F0C1-1F0CF
    1F0D1-1F0F5 1F10B-1F10F 1F12F 1F150-1F169 1F16D-1F18F 1F191-1F1AD 1F1E6-1F1FF 1F260-1F265
    1F300-1F6D8 1F6DC-1F6EC 1F6F0-1F6FC 1F700-1F7D9 1F7E0-1F7EB 1F7F0 1F800-1F80B 1F810-1F847
    1F850-1F859 1F860-1F887 1F890-1F8AD 1F8B0-1F8BB 1F8C0-1F8C1 1F8D0-1F8D8 1F900-1FA57
    1FA60-1FA6D 1FA70-1FA7C 1FA80-1FA8A 1FA8E-1FAC6 1FAC8 1FACD-1FADC 1FADF-1FAEA 1FAEF-1FAF8
    1FB00-1FB92 1FB94-1FBEF 1FBFA 20000-2A6DF 2A700-2B81D 2B820-2CEAD 2CEB0-2EBE0 2EBF0-2EE5D
    30000-3134A 31350-33479"

/-- The characters that are dropped. -/
def dropped : CharSet := .ofText
  "00AD 034F 115F-1160 17B4-17B5 180B-180F 200B 2060-2064 206A-206F 3164 FE00-FE0F FEFF FFA0
    1BCA0-1BCA3 1D173-1D17A E0100-E01EF"

/-- Ranges of characters that stand for the characters from the one given on. -/
def shifted : CharTable Nat := .ofText Text.hexValue
  "00B2-00B3:0032 00C0-00D6:00E0 00D8-00DE:00F8 0189-018A:0256 01B1-01B2:028A 0340-0341:0300
    0388-038A:03AD 038E-038F:03CD 0391-03A1:03B1 03A3-03AB:03C3 03FD-03FF:037B 0400-040F:0450
    0410-042F:0430 0531-0556:0561 10A0-10C5:2D00 13F8-13FD:13F0 1C83-1C84:0441 1C90-1CBA:10D0
    1CBD-1CBF:10FD 1D33-1D3A:0067 1D40-1D41:0074 1D44-1D45:0250 1D48-1D49:0064 1D4B-1D4C:025B
    1D54-1D55:1D16 1D57-1D58:0074 1D5D-1D5F:03B2 1D60-1D61:03C6 1D64-1D65:0075 1D66-1D67:03B2
    1D69-1D6A:03C6 1DA4-1DA6:0268 1DAE-1DB1:0272 1DB3-1DB4:0282 1DB6-1DB7:0289 1DB9-1DBA:028B
    1DBC-1DBE:0290 1F08-1F0F:1F00 1F18-1F1D:1F10 1F28-1F2F:1F20 1F38-1F3F:1F30 1F48-1F4D:1F40
    1F68-1F6F:1F60 1FB8-1FB9:1FB0 1FD8-1FD9:1FD0 1FE8-1FE9:1FE0 2074-2079:0034 207D-207E:0028
    2080-2089:0030 208D-208E:0028 2096-2099:006B 209B-209C:0073 210A-210B:0067 2119-211B:0070
    212C-212D:0062 2130-2131:0065 2135-2138:05D0 2146-2147:0064 2148-2149:0069 216D-216E:0063
    217D-217E:0063 2329-232A:3008 2460-2468:0031 24B6-24CF:0061 24D0-24E9:0061 2C00-2C2F:2C30
    2C7E-2C7F:023F 3039-303A:5344 3131-3132:1100 3135-3136:11AC 3137-3139:1103 313A-313F:11B0
    3141-3143:1106 3145-314E:1109 314F-3163:1161 3165-3166:1114 3167-3168:11C7 3171-3172:111D
    3174-3175:1122 3178-317C:112B 3182-3183:11F1 3184-3186:1157 3187-3188:1184 318A-318B:1191
    3261-3262:1102 3263-3265:1105 3267-3268:110B 3269-326D:110E 32D4-32D5:30AA 32E4-32E9:30CA
    32EE-32F2:30DE 32F5-32FA:30E8 32FB-32FE:30EF AB70-ABBF:13A0 FA52-FA53:798D FB22-FB23:05D3
    FB24-FB26:05DB FB7D-FB7E:0686 FB9F-FBA0:06BA FBA5-FBA6:06C0 FBAF-FBB0:06D2 FE13-FE14:003A
    FE17-FE18:3016 FE35-FE36:0028 FE39-FE3A:3014 FE3B-FE3C:3010 FE3D-FE3E:300A FE3F-FE40:3008
    FE41-FE44:300C FE59-FE5A:0028 FE5D-FE5E:3014 FE61-FE62:002A FE69-FE6A:0024 FE80-FE81:0621
    FE82-FE83:0622 FE84-FE85:0623 FE86-FE87:0624 FE88-FE89:0625 FE8C-FE8D:0626 FE8E-FE8F:0627
    FE92-FE93:0628 FE94-FE95:0629 FE98-FE99:062A FE9C-FE9D:062B FEA0-FEA1:062C FEA4-FEA5:062D
    FEA8-FEA9:062E FEAA-FEAB:062F FEAC-FEAD:0630 FEAE-FEAF:0631 FEB0-FEB1:0632 FEB4-FEB5:0633
    FEB8-FEB9:0634 FEBC-FEBD:0635 FEC0-FEC1:0636 FEC4-FEC5:0637 FEC8-FEC9:0638 FECC-FECD:0639
    FED4-FED5:0641 FED8-FED9:0642 FEDC-FEDD:0643 FEE0-FEE1:0644 FEE4-FEE5:0645 FEE8-FEE9:0646
    FEEC-FEED:0647 FEEE-FEEF:0648 FEF0-FEF1:0649 FF01-FF20:0021 FF21-FF3A:0061 FF3B-FF5E:005B
    FF5F-FF60:2985 FF62-FF63:300C FF75-FF76:30AA FF85-FF8A:30CA FF8F-FF93:30DE FF96-FF9B:30E8
    FF9E-FF9F:3099 FFA1-FFA2:1100 FFA5-FFA6:11AC FFA7-FFA9:1103 FFAA-FFAF:11B0 FFB1-FFB3:1106
    FFB5-FFBE:1109 FFC2-FFC7:1161 FFCA-FFCF:1167 FFD2-FFD7:116D FFDA-FFDC:1173 FFE0-FFE1:00A2
    FFE9-FFEC:2190 10400-10427:10428 104B0-104D3:104D8 10570-1057A:10597 1057C-1058A:105A3
    1058C-10592:105B3 10594-10595:105BB 10781-10782:02D0 1078B-1078C:0256 10799-1079A:02AA
    107A3-107A4:0276 107A8-107A9:027D 107B3-107B4:02A1 107B6-107B8:01C0 10C80-10CB2:10CC0
    10D50-10D65:10D70 118A0-118BF:118C0 16E40-16E5F:16E60 16EA0-16EB8:16EBB 1CCD6-1CCEF:0061
    1CCF0-1CCF9:0030 1D400-1D419:0061 1D41A-1D433:0061 1D434-1D44D:0061 1D44E-1D454:0061
    1D456-1D467:0069 1D468-1D481:0061 1D482-1D49B:0061 1D4A5-1D4A6:006A 1D4A9-1D4AC:006E
    1D4AE-1D4B5:0073 1D4B6-1D4B9:0061 1D4BE-1D4C3:0069 1D4C5-1D4CF:0070 1D4D0-1D4E9:0061
    1D4EA-1D503:0061 1D504-1D505:0061 1D507-1D50A:0064 1D50D-1D514:006A 1D516-1D51C:0073
    1D51E-1D537:0061 1D538-1D539:0061 1D53B-1D53E:0064 1D540-1D544:0069 1D54A-1D550:0073
    1D552-1D56B:0061 1D56C-1D585:0061 1D586-1D59F:0061 1D5A0-1D5B9:0061 1D5BA-1D5D3:0061
    1D5D4-1D5ED:0061 1D5EE-1D607:0061 1D608-1D621:0061 1D622-1D63B:0061 1D63C-1D655:0061
    1D656-1D66F:0061 1D670-1D689:0061 1D68A-1D6A3:0061 1D6A8-1D6B8:03B1 1D6BA-1D6C0:03C3
    1D6C2-1D6D2:03B1 1D6D4-1D6DA:03C3 1D6E2-1D6F2:03B1 1D6F4-1D6FA:03C3 1D6FC-1D70C:03B1
    1D70E-1D714:03C3 1D71C-1D72C:03B1 1D72E-1D734:03C3 1D736-1D746:03B1 1D748-1D74E:03C3
    1D756-1D766:03B1 1D768-1D76E:03C3 1D770-1D780:03B1 1D782-1D788:03C3 1D790-1D7A0:03B1
    1D7A2-1D7A8:03C3 1D7AA-1D7BA:03B1 1D7BC-1D7C2:03C3 1D7CE-1D7D7:0030 1D7D8-1D7E1:0030
    1D7E2-1D7EB:0030 1D7EC-1D7F5:0030 1D7F6-1D7FF:0030 1E030-1E038:0430 1E039-1E03B:043A
    1E03C-1E046:043E 1E048-1E049:044D 1E051-1E059:0430 1E05A-1E05B:043A 1E05C-1E05D:043E
    1E05F-1E064:0443 1E065-1E066:044A 1E900-1E921:1E922 1EE00-1EE01:0627 1EE0A-1EE0D:0643
    1EE15-1EE16:062A 1EE2A-1EE2D:0643 1EE35-1EE36:062A 1EE75-1EE76:062A 1EE80-1EE81:0627
    1EE84-1EE85:0647 1EE8B-1EE8D:0644 1EE95-1EE96:062A 1EEAB-1EEAD:0644 1EEB5-1EEB6:062A
    1F130-1F149:0061 1FBF0-1FBF9:0030 2F829-2F82A:5305 2F881-2F882:5DE1 2F8F5-2F8F6:6BBA
    2F945-2F946:771E 2F9E8-2F9E9:92D7"

/-- Ranges of which every second character stands for a character: the first for the one given, and
the others for those as far after it. -/
def alternating : CharTable Nat := .ofText Text.hexValue
  "0100-012E:0101 0134-0136:0135 0139-013D:013A 0141-0147:0142 014A-0176:014B 0179-017D:017A
    0182-0184:0183 01A0-01A4:01A1 01B3-01B5:01B4 01CD-01DB:01CE 01DE-01EE:01DF 01F8-021E:01F9
    0222-0232:0223 0246-024E:0247 0370-0372:0371 03D8-03EE:03D9 0460-0480:0461 048A-04BE:048B
    04C1-04CD:04C2 04D0-052E:04D1 1D2E-1D30:0062 1E00-1E94:1E01 1EA0-1EFE:1EA1 1F59-1F5F:1F51
    2113-2115:006C 2C67-2C6B:2C68 2C80-2CE2:2C81 2CEB-2CED:2CEC A640-A66C:A641 A680-A69A:A681
    A722-A72E:A723 A732-A76E:A733 A779-A77B:A77A A77E-A786:A77F A790-A792:A791 A796-A7A8:A797
    A7B4-A7C2:A7B5 A7C7-A7C9:A7C8 A7CC-A7DA:A7CD 1D49C-1D49E:0061 1D4BB-1D4BD:0066
    1EE4B-1EE4D:0644 1EE6A-1EE6C:0643"

/-- Characters in sequence, with the text that each of them stands for. -/
def spelled : CharTable (List (List Char)) := .ofText Text.codeTexts
  "00A0:0020 00A8:0020+0308 00AA:0061 00AF:0020+0304 00B4:0020+0301,03BC
    00B8:0020+0327,0031,006F 00BC:0031+2044+0034,0031+2044+0032,0033+2044+0034 0130:0069+0307
    0132:0069+006A,0069+006A 013F:006C+00B7,006C+00B7 0149:02BC+006E 0178:00FF 017F:0073
    0181:0253 0186:0254,0188 018B:018C 018E:01DD,0259,025B,0192 0193:0260,0263
    0196:0269,0268,0199 019C:026F,0272 019F:0275 01A6:0280,01A8 01A9:0283 01AC:01AD
    01AE:0288,01B0 01B7:0292,01B9 01BC:01BD
    01C4:0064+017E,0064+017E,0064+017E,006C+006A,006C+006A,006C+006A,006E+006A,006E+006A
    01CC:006E+006A 01F1:0064+007A,0064+007A,0064+007A,01F5 01F6:0195,01BF 0220:019E
    023A:2C65,023C 023D:019A,2C66 0241:0242 0243:0180,0289,028C
    02B0:0068,0266,006A,0072,0279,027B,0281,0077,0079
    02D8:0020+0306,0020+0307,0020+030A,0020+0328,0020+0303,0020+030B
    02E0:0263,006C,0073,0078,0295 0343:0313,0308+0301,03B9 0374:02B9 0376:0377 037A:0020+03B9
    037E:003B,03F3 0384:0020+0301,0020+0308+0301,03AC,00B7 038C:03CC
    03CF:03D7,03B2,03B8,03C5,03CD,03CB,03C6,03C0 03F0:03BA,03C1,03C3 03F4:03B8,03B5 03F7:03F8
    03F9:03C3,03FB 04C0:04CF 0587:0565+0582 0675:0627+0674,0648+0674,06C7+0674,064A+0674
    0958:0915+093C,0916+093C,0917+093C,091C+093C,0921+093C,0922+093C,092B+093C,092F+093C
    09DC:09A1+09BC,09A2+09BC 09DF:09AF+09BC 0A33:0A32+0A3C 0A36:0A38+0A3C
    0A59:0A16+0A3C,0A17+0A3C,0A1C+0A3C 0A5E:0A2B+0A3C 0B5C:0B21+0B3C,0B22+0B3C 0E33:0E4D+0E32
    0EB3:0ECD+0EB2 0EDC:0EAB+0E99,0EAB+0EA1 0F0C:0F0B 0F43:0F42+0FB7 0F4D:0F4C+0FB7
    0F52:0F51+0FB7 0F57:0F56+0FB7 0F5C:0F5B+0FB7 0F69:0F40+0FB5 0F73:0F71+0F72
    0F75:0F71+0F74,0FB2+0F80,0FB2+0F71+0F80,0FB3+0F80,0FB3+0F71+0F80 0F81:0F71+0F80
    0F93:0F92+0FB7 0F9D:0F9C+0FB7 0FA2:0FA1+0FB7 0FA7:0FA6+0FB7 0FAC:0FAB+0FB7 0FB9:0F90+0FB5
    10C7:2D27 10CD:2D2D 10FC:10DC 1C80:0432,0434,043E 1C85:0442,044A,0463,A64B,1C8A
    1D2C:0061,00E6 1D31:0065,01DD 1D3C:006F,0223,0070,0072 1D42:0077,0061 1D46:1D02,0062
    1D4A:0259 1D4D:0067 1D4F:006B,006D,014B,006F,0254 1D56:0070 1D59:1D1D,026F,0076,1D25
    1D62:0069,0072 1D68:03C1 1D78:043D 1D9B:0252,0063,0255,00F0,025C,0066,025F,0261,0265
    1DA7:1D7B,029D,026D,1D85,029F,0271,0270 1DB2:0278 1DB5:01AB 1DB8:1D1C 1DBB:007A 1DBF:03B8
    1E9A:0061+02BE,1E61 1E9E:00DF 1F71:03AC 1F73:03AD 1F75:03AE 1F77:03AF 1F79:03CC 1F7B:03CD
    1F7D:03CE
    1F80:1F00+03B9,1F01+03B9,1F02+03B9,1F03+03B9,1F04+03B9,1F05+03B9,1F06+03B9,1F07+03B9
    1F88:1F00+03B9,1F01+03B9,1F02+03B9,1F03+03B9,1F04+03B9,1F05+03B9,1F06+03B9,1F07+03B9
    1F90:1F20+03B9,1F21+03B9,1F22+03B9,1F23+03B9,1F24+03B9,1F25+03B9,1F26+03B9,1F27+03B9
    1F98:1F20+03B9,1F21+03B9,1F22+03B9,1F23+03B9,1F24+03B9,1F25+03B9,1F26+03B9,1F27+03B9
    1FA0:1F60+03B9,1F61+03B9,1F62+03B9,1F63+03B9,1F64+03B9,1F65+03B9,1F66+03B9,1F67+03B9
    1FA8:1F60+03B9,1F61+03B9,1F62+03B9,1F63+03B9,1F64+03B9,1F65+03B9,1F66+03B9,1F67+03B9
    1FB2:1F70+03B9,03B1+03B9,03AC+03B9 1FB7:1FB6+03B9
    1FBA:1F70,03AC,03B1+03B9,0020+0313,03B9,0020+0313,0020+0342,0020+0308+0342,1F74+03B9
    1FC3:03B7+03B9,03AE+03B9
    1FC7:1FC6+03B9,1F72,03AD,1F74,03AE,03B7+03B9,0020+0313+0300,0020+0313+0301
    1FCF:0020+0313+0342 1FD3:0390 1FDA:1F76,03AF
    1FDD:0020+0314+0300,0020+0314+0301,0020+0314+0342 1FE3:03B0
    1FEA:1F7A,03CD,1FE5,0020+0308+0300,0020+0308+0301,0060 1FF2:1F7C+03B9,03C9+03B9,03CE+03B9
    1FF7:1FF6+03B9,1F78,03CC,1F7C,03CE,03C9+03B9,0020+0301,0020+0314
    2000:0020,0020,0020,0020,0020,0020,0020,0020,0020,0020,0020 2011:2010 2017:0020+0333
    202F:0020 2033:2032+2032,2032+2032+2032 2036:2035+2035,2035+2035+2035 203C:0021+0021
    203E:0020+0305 2047:003F+003F,003F+0021,0021+003F 2057:2032+2032+2032+2032 205F:0020
    2070:0030,0069 207A:002B,2212,003D 207F:006E 208A:002B,2212,003D
    2090:0061,0065,006F,0078,0259,0068 209A:0070 20A8:0072+0073
    2100:0061+002F+0063,0061+002F+0073,0063,00B0+0063 2105:0063+002F+006F,0063+002F+0075,025B
    2109:00B0+0066 210C:0068,0068,0068,0127,0069,0069,006C 2116:006E+006F 211C:0072,0072
    2120:0073+006D,0074+0065+006C,0074+006D 2124:007A 2126:03C9 2128:007A 212A:006B,00E5
    212F:0065 2132:214E,006D,006F 2139:0069 213B:0066+0061+0078,03C0,03B3,03B3,03C0,2211
    2145:0064
    2150:0031+2044+0037,0031+2044+0039,0031+2044+0031+0030,0031+2044+0033,0032+2044+0033
    2155:0031+2044+0035,0032+2044+0035,0033+2044+0035,0034+2044+0035,0031+2044+0036
    215A:0035+2044+0036,0031+2044+0038,0033+2044+0038,0035+2044+0038,0037+2044+0038
    215F:0031+2044,0069,0069+0069,0069+0069+0069,0069+0076,0076,0076+0069,0076+0069+0069
    2167:0076+0069+0069+0069,0069+0078,0078,0078+0069,0078+0069+0069,006C
    216F:006D,0069,0069+0069,0069+0069+0069,0069+0076,0076,0076+0069,0076+0069+0069
    2177:0076+0069+0069+0069,0069+0078,0078,0078+0069,0078+0069+0069,006C 217F:006D 2183:2184
    2189:0030+2044+0033 222C:222B+222B,222B+222B+222B 222F:222E+222E,222E+222E+222E
    2469:0031+0030,0031+0031,0031+0032,0031+0033,0031+0034,0031+0035,0031+0036,0031+0037
    2471:0031+0038,0031+0039,0032+0030,0028+0031+0029,0028+0032+0029,0028+0033+0029
    2477:0028+0034+0029,0028+0035+0029,0028+0036+0029,0028+0037+0029,0028+0038+0029
    247C:0028+0039+0029,0028+0031+0030+0029,0028+0031+0031+0029,0028+0031+0032+0029
    2480:0028+0031+0033+0029,0028+0031+0034+0029,0028+0031+0035+0029,0028+0031+0036+0029
    2484:0028+0031+0037+0029,0028+0031+0038+0029,0028+0031+0039+0029,0028+0032+0030+0029
    249C:0028+0061+0029,0028+0062+0029,0028+0063+0029,0028+0064+0029,0028+0065+0029
    24A1:0028+0066+0029,0028+0067+0029,0028+0068+0029,0028+0069+0029,0028+006A+0029
    24A6:0028+006B+0029,0028+006C+0029,0028+006D+0029,0028+006E+0029,0028+006F+0029
    24AB:0028+0070+0029,0028+0071+0029,0028+0072+0029,0028+0073+0029,0028+0074+0029
    24B0:0028+0075+0029,0028+0076+0029,0028+0077+0029,0028+0078+0029,0028+0079+0029
    24B5:0028+007A+0029 24EA:0030 2A0C:222B+222B+222B+222B
    2A74:003A+003A+003D,003D+003D,003D+003D+003D 2ADC:2ADD+0338 2C60:2C61 2C62:026B,1D7D,027D
    2C6D:0251,0271,0250,0252 2C72:2C73 2C75:2C76 2C7C:006A,0076 2CF2:2CF3 2D6F:2D61 2E9F:6BCD
    2EF3:9F9F
    2F00:4E00,4E28,4E36,4E3F,4E59,4E85,4E8C,4EA0,4EBA,513F,5165,516B,5182,5196,51AB,51E0
    2F10:51F5,5200,529B,52F9,5315,531A,5338,5341,535C,5369,5382,53B6,53C8,53E3,56D7,571F
    2F20:58EB,5902,590A,5915,5927,5973,5B50,5B80,5BF8,5C0F,5C22,5C38,5C6E,5C71,5DDB,5DE5
    2F30:5DF1,5DFE,5E72,5E7A,5E7F,5EF4,5EFE,5F0B,5F13,5F50,5F61,5F73,5FC3,6208,6236,624B
    2F40:652F,6534,6587,6597,65A4,65B9,65E0,65E5,66F0,6708,6728,6B20,6B62,6B79,6BB3,6BCB
    2F50:6BD4,6BDB,6C0F,6C14,6C34,706B,722A,7236,723B,723F,7247,7259,725B,72AC,7384,7389
    2F60:74DC,74E6,7518,751F,7528,7530,758B,7592,7676,767D,76AE,76BF,76EE,77DB,77E2,77F3
    2F70:793A,79B8,79BE,7A74,7ACB,7AF9,7C73,7CF8,7F36,7F51,7F8A,7FBD,8001,800C,8012,8033
    2F80:807F,8089,81E3,81EA,81F3,81FC,820C,821B,821F,826E,8272,8278,864D,866B,8840,884C
    2F90:8863,897E,898B,89D2,8A00,8C37,8C46,8C55,8C78,8C9D,8D64,8D70,8DB3,8EAB,8ECA,8F9B
    2FA0:8FB0,8FB5,9091,9149,91C6,91CC,91D1,9577,9580,961C,96B6,96B9,96E8,9751,975E,9762
    2FB0:9769,97CB,97ED,97F3,9801,98A8,98DB,98DF,9996,9999,99AC,9AA8,9AD8,9ADF,9B25,9B2F
    2FC0:9B32,9B3C,9B5A,9CE5,9E75,9E7F,9EA5,9EBB,9EC3,9ECD,9ED1,9EF9,9EFD,9F0E,9F13,9F20
    2FD0:9F3B,9F4A,9F52,9F8D,9F9C,9FA0 3000:0020 3002:002E 3036:3012 3038:5341
    309B:0020+3099,0020+309A 309F:3088+308A 30FF:30B3+30C8 3133:11AA,1102 3140:111A 3144:1121
    3169:11CC,11CE,11D3,11D7,11D9,111C,11DD,11DF 3173:1120 3176:1127,1129
    317D:1132,1136,1140,1147,114C 3189:1188 318C:1194,119E,11A1
    3192:4E00,4E8C,4E09,56DB,4E0A,4E2D,4E0B,7532,4E59,4E19,4E01,5929,5730,4EBA
    3200:0028+1100+0029,0028+1102+0029,0028+1103+0029,0028+1105+0029,0028+1106+0029
    3205:0028+1107+0029,0028+1109+0029,0028+110B+0029,0028+110C+0029,0028+110E+0029
    320A:0028+110F+0029,0028+1110+0029,0028+1111+0029,0028+1112+0029,0028+AC00+0029
    320F:0028+B098+0029,0028+B2E4+0029,0028+B77C+0029,0028+B9C8+0029,0028+BC14+0029
    3214:0028+C0AC+0029,0028+C544+0029,0028+C790+0029,0028+CC28+0029,0028+CE74+0029
    3219:0028+D0C0+0029,0028+D30C+0029,0028+D558+0029,0028+C8FC+0029,0028+C624+C804+0029
    321E:0028+C624+D6C4+0029
    3220:0028+4E00+0029,0028+4E8C+0029,0028+4E09+0029,0028+56DB+0029,0028+4E94+0029
    3225:0028+516D+0029,0028+4E03+0029,0028+516B+0029,0028+4E5D+0029,0028+5341+0029
    322A:0028+6708+0029,0028+706B+0029,0028+6C34+0029,0028+6728+0029,0028+91D1+0029
    322F:0028+571F+0029,0028+65E5+0029,0028+682A+0029,0028+6709+0029,0028+793E+0029
    3234:0028+540D+0029,0028+7279+0029,0028+8CA1+0029,0028+795D+0029,0028+52B4+0029
    3239:0028+4EE3+0029,0028+547C+0029,0028+5B66+0029,0028+76E3+0029,0028+4F01+0029
    323E:0028+8CC7+0029,0028+5354+0029,0028+796D+0029,0028+4F11+0029,0028+81EA+0029
    3243:0028+81F3+0029,554F,5E7C,6587,7B8F
    3250:0070+0074+0065,0032+0031,0032+0032,0032+0033,0032+0034,0032+0035,0032+0036
    3257:0032+0037,0032+0038,0032+0039,0033+0030,0033+0031,0033+0032,0033+0033,0033+0034
    325F:0033+0035,1100 3266:1109
    326E:AC00,B098,B2E4,B77C,B9C8,BC14,C0AC,C544,C790,CC28,CE74,D0C0,D30C,D558,CC38+ACE0
    327D:C8FC+C758,C6B0
    3280:4E00,4E8C,4E09,56DB,4E94,516D,4E03,516B,4E5D,5341,6708,706B,6C34,6728,91D1,571F
    3290:65E5,682A,6709,793E,540D,7279,8CA1,795D,52B4,79D8,7537,5973,9069,512A,5370,6CE8
    32A0:9805,4F11,5199,6B63,4E0A,4E2D,4E0B,5DE6,53F3,533B,5B97,5B66,76E3,4F01,8CC7,5354
    32B0:591C,0033+0036,0033+0037,0033+0038,0033+0039,0034+0030,0034+0031,0034+0032
    32B8:0034+0033,0034+0034,0034+0035,0034+0036,0034+0037,0034+0038,0034+0039,0035+0030
    32C0:0031+6708,0032+6708,0033+6708,0034+6708,0035+6708,0036+6708,0037+6708,0038+6708
    32C8:0039+6708,0031+0030+6708,0031+0031+6708,0031+0032+6708,0068+0067,0065+0072+0067
    32CE:0065+0076,006C+0074+0064,30A2,30A4,30A6,30A8
    32D6:30AD,30AF,30B1,30B3,30B5,30B7,30B9,30BB,30BD,30BF,30C1,30C4,30C6,30C8
    32EA:30D2,30D5,30D8,30DB 32F3:30E4,30E6
    32FF:4EE4+548C,30A2+30D1+30FC+30C8,30A2+30EB+30D5+30A1,30A2+30F3+30DA+30A2
    3303:30A2+30FC+30EB,30A4+30CB+30F3+30B0,30A4+30F3+30C1,30A6+30A9+30F3
    3307:30A8+30B9+30AF+30FC+30C9,30A8+30FC+30AB+30FC,30AA+30F3+30B9,30AA+30FC+30E0
    330B:30AB+30A4+30EA,30AB+30E9+30C3+30C8,30AB+30ED+30EA+30FC,30AC+30ED+30F3
    330F:30AC+30F3+30DE,30AE+30AC,30AE+30CB+30FC,30AD+30E5+30EA+30FC,30AE+30EB+30C0+30FC
    3314:30AD+30ED,30AD+30ED+30B0+30E9+30E0,30AD+30ED+30E1+30FC+30C8+30EB
    3317:30AD+30ED+30EF+30C3+30C8,30B0+30E9+30E0,30B0+30E9+30E0+30C8+30F3
    331A:30AF+30EB+30BC+30A4+30ED,30AF+30ED+30FC+30CD,30B1+30FC+30B9,30B3+30EB+30CA
    331E:30B3+30FC+30DD,30B5+30A4+30AF+30EB,30B5+30F3+30C1+30FC+30E0,30B7+30EA+30F3+30B0
    3322:30BB+30F3+30C1,30BB+30F3+30C8,30C0+30FC+30B9,30C7+30B7,30C9+30EB,30C8+30F3
    3328:30CA+30CE,30CE+30C3+30C8,30CF+30A4+30C4,30D1+30FC+30BB+30F3+30C8,30D1+30FC+30C4
    332D:30D0+30FC+30EC+30EB,30D4+30A2+30B9+30C8+30EB,30D4+30AF+30EB,30D4+30B3,30D3+30EB
    3332:30D5+30A1+30E9+30C3+30C9,30D5+30A3+30FC+30C8,30D6+30C3+30B7+30A7+30EB
    3335:30D5+30E9+30F3,30D8+30AF+30BF+30FC+30EB,30DA+30BD,30DA+30CB+30D2,30D8+30EB+30C4
    333A:30DA+30F3+30B9,30DA+30FC+30B8,30D9+30FC+30BF,30DD+30A4+30F3+30C8,30DC+30EB+30C8
    333F:30DB+30F3,30DD+30F3+30C9,30DB+30FC+30EB,30DB+30FC+30F3,30DE+30A4+30AF+30ED
    3344:30DE+30A4+30EB,30DE+30C3+30CF,30DE+30EB+30AF,30DE+30F3+30B7+30E7+30F3
    3348:30DF+30AF+30ED+30F3,30DF+30EA,30DF+30EA+30D0+30FC+30EB,30E1+30AC
    334C:30E1+30AC+30C8+30F3,30E1+30FC+30C8+30EB,30E4+30FC+30C9,30E4+30FC+30EB
    3350:30E6+30A2+30F3,30EA+30C3+30C8+30EB,30EA+30E9,30EB+30D4+30FC,30EB+30FC+30D6+30EB
    3355:30EC+30E0,30EC+30F3+30C8+30B2+30F3,30EF+30C3+30C8,0030+70B9,0031+70B9,0032+70B9
    335B:0033+70B9,0034+70B9,0035+70B9,0036+70B9,0037+70B9,0038+70B9,0039+70B9
    3362:0031+0030+70B9,0031+0031+70B9,0031+0032+70B9,0031+0033+70B9,0031+0034+70B9
    3367:0031+0035+70B9,0031+0036+70B9,0031+0037+70B9,0031+0038+70B9,0031+0039+70B9
    336C:0032+0030+70B9,0032+0031+70B9,0032+0032+70B9,0032+0033+70B9,0032+0034+70B9
    3371:0068+0070+0061,0064+0061,0061+0075,0062+0061+0072,006F+0076,0070+0063,0064+006D
    3378:0064+006D+0032,0064+006D+0033,0069+0075,5E73+6210,662D+548C,5927+6B63,660E+6CBB
    337F:682A+5F0F+4F1A+793E,0070+0061,006E+0061,03BC+0061,006D+0061,006B+0061,006B+0062
    3386:006D+0062,0067+0062,0063+0061+006C,006B+0063+0061+006C,0070+0066,006E+0066
    338C:03BC+0066,03BC+0067,006D+0067,006B+0067,0068+007A,006B+0068+007A,006D+0068+007A
    3393:0067+0068+007A,0074+0068+007A,03BC+006C,006D+006C,0064+006C,006B+006C,0066+006D
    339A:006E+006D,03BC+006D,006D+006D,0063+006D,006B+006D,006D+006D+0032,0063+006D+0032
    33A1:006D+0032,006B+006D+0032,006D+006D+0033,0063+006D+0033,006D+0033,006B+006D+0033
    33A7:006D+2215+0073,006D+2215+0073+0032,0070+0061,006B+0070+0061,006D+0070+0061
    33AC:0067+0070+0061,0072+0061+0064,0072+0061+0064+2215+0073
    33AF:0072+0061+0064+2215+0073+0032,0070+0073,006E+0073,03BC+0073,006D+0073,0070+0076
    33B5:006E+0076,03BC+0076,006D+0076,006B+0076,006D+0076,0070+0077,006E+0077,03BC+0077
    33BD:006D+0077,006B+0077,006D+0077,006B+03C9,006D+03C9
    33C3:0062+0071,0063+0063,0063+0064,0063+2215+006B+0067
    33C8:0064+0062,0067+0079,0068+0061,0068+0070,0069+006E,006B+006B,006B+006D,006B+0074
    33D0:006C+006D,006C+006E,006C+006F+0067,006C+0078,006D+0062,006D+0069+006C
    33D6:006D+006F+006C,0070+0068
    33D9:0070+0070+006D,0070+0072,0073+0072,0073+0076,0077+0062,0076+2215+006D
    33DF:0061+2215+006D,0031+65E5,0032+65E5,0033+65E5,0034+65E5,0035+65E5,0036+65E5
    33E6:0037+65E5,0038+65E5,0039+65E5,0031+0030+65E5,0031+0031+65E5,0031+0032+65E5
    33EC:0031+0033+65E5,0031+0034+65E5,0031+0035+65E5,0031+0036+65E5,0031+0037+65E5
    33F1:0031+0038+65E5,0031+0039+65E5,0032+0030+65E5,0032+0031+65E5,0032+0032+65E5
    33F6:0032+0033+65E5,0032+0034+65E5,0032+0035+65E5,0032+0036+65E5,0032+0037+65E5
    33FB:0032+0038+65E5,0032+0039+65E5,0033+0030+65E5,0033+0031+65E5,0067+0061+006C
    A69C:044A,044C A770:A76F A77D:1D79 A78B:A78C A78D:0265 A7AA:0266,025C,0261,026C,026A
    A7B0:029E,0287,029D,AB53 A7C4:A794,0282,1D8E A7CB:0264 A7DC:019B
    A7F1:0073,0063,0066,0071,A7F6 A7F8:0127,0153 AB5C:A727,AB37,026B,AB52 AB69:028D
    F900:8C48,66F4,8ECA,8CC8,6ED1,4E32,53E5,9F9C,9F9C,5951,91D1,5587,5948,61F6,7669,7F85
    F910:863F,87BA,88F8,908F,6A02,6D1B,70D9,73DE,843D,916A,99F1,4E82,5375,6B04,721B,862D
    F920:9E1E,5D50,6FEB,85CD,8964,62C9,81D8,881F,5ECA,6717,6D6A,72FC,90CE,4F86,51B7,52DE
    F930:64C4,6AD3,7210,76E7,8001,8606,865C,8DEF,9732,9B6F,9DFA,788C,797F,7DA0,83C9,9304
    F940:9E7F,8AD6,58DF,5F04,7C60,807E,7262,78CA,8CC2,96F7,58D8,5C62,6A13,6DDA,6F0F,7D2F
    F950:7E37,964B,52D2,808B,51DC,51CC,7A1C,7DBE,83F1,9675,8B80,62CF,6A02,8AFE,4E39,5BE7
    F960:6012,7387,7570,5317,78FB,4FBF,5FA9,4E0D,6CCC,6578,7D22,53C3,585E,7701,8449,8AAA
    F970:6BBA,8FB0,6C88,62FE,82E5,63A0,7565,4EAE,5169,51C9,6881,7CE7,826F,8AD2,91CF,52F5
    F980:5442,5973,5EEC,65C5,6FFE,792A,95AD,9A6A,9E97,9ECE,529B,66C6,6B77,8F62,5E74,6190
    F990:6200,649A,6F23,7149,7489,79CA,7DF4,806F,8F26,84EE,9023,934A,5217,52A3,54BD,70C8
    F9A0:88C2,8AAA,5EC9,5FF5,637B,6BAE,7C3E,7375,4EE4,56F9,5BE7,5DBA,601C,73B2,7469,7F9A
    F9B0:8046,9234,96F6,9748,9818,4F8B,79AE,91B4,96B8,60E1,4E86,50DA,5BEE,5C3F,6599,6A02
    F9C0:71CE,7642,84FC,907C,9F8D,6688,962E,5289,677B,67F3,6D41,6E9C,7409,7559,786B,7D10
    F9D0:985E,516D,622E,9678,502B,5D19,6DEA,8F2A,5F8B,6144,6817,7387,9686,5229,540F,5C65
    F9E0:6613,674E,68A8,6CE5,7406,75E2,7F79,88CF,88E1,91CC,96E2,533F,6EBA,541D,71D0,7498
    F9F0:85FA,96A3,9C57,9E9F,6797,6DCB,81E8,7ACB,7B20,7C92,72C0,7099,8B58,4EC0,8336,523A
    FA00:5207,5EA6,62D3,7CD6,5B85,6D1E,66B4,8F3B,884C,964D,898B,5ED3,5140,55C0 FA10:585A
    FA12:6674 FA15:51DE,732A,76CA,793C,795E,7965,798F,9756,7CBE,7FBD FA20:8612 FA22:8AF8
    FA25:9038,90FD
    FA2A:98EF,98FC,9928,9DB4,90DE,96B7,4FAE,50E7,514D,52C9,52E4,5351,559D,5606,5668,5840
    FA3A:58A8,5C64,5C6E,6094,6168,618E,61F2,654F,65E2,6691,6885,6D77,6E1A,6F22,716E,722B
    FA4A:7422,7891,793E,7949,7948,7950,7956,795D
    FA54:7A40,7A81,7BC0,7DF4,7E09,7E41,7F72,8005,81ED,8279,8279,8457,8910,8996,8B01,8B39
    FA64:8CD3,8D08,8FB6,9038,96E3,97FF,983B,6075,242EE,8218
    FA70:4E26,51B5,5168,4F80,5145,5180,52C7,52FA,559D,5555,5599,55E2,585A,58B3,5944,5954
    FA80:5A62,5B28,5ED2,5ED9,5F69,5FAD,60D8,614E,6108,618E,6160,61F2,6234,63C4,641C,6452
    FA90:6556,6674,6717,671B,6756,6B79,6BBA,6D41,6EDB,6ECB,6F22,701E,716E,77A7,7235,72AF
    FAA0:732A,7471,7506,753B,761D,761F,76CA,76DB,76F4,774A,7740,78CC,7AB1,7BC0,7C7B,7D5B
    FAB0:7DF4,7F3E,8005,8352,83EF,8779,8941,8986,8996,8ABF,8AF8,8ACB,8B01,8AFE,8AED,8B39
    FAC0:8B8A,8D08,8F38,9072,9199,9276,967C,96E3,9756,97DB,97FF,980B,983B,9B12,9F9C,2284A
    FAD0:22844,233D5,3B9D,4018,4039,25249,25CD0,27ED3,9F43,9F8E
    FB00:0066+0066,0066+0069,0066+006C,0066+0066+0069,0066+0066+006C,0073+0074,0073+0074
    FB13:0574+0576,0574+0565,0574+056B,057E+0576,0574+056D FB1D:05D9+05B4
    FB1F:05F2+05B7,05E2,05D0
    FB27:05E8,05EA,002B,05E9+05C1,05E9+05C2,05E9+05BC+05C1,05E9+05BC+05C2,05D0+05B7
    FB2F:05D0+05B8,05D0+05BC,05D1+05BC,05D2+05BC,05D3+05BC,05D4+05BC,05D5+05BC,05D6+05BC
    FB38:05D8+05BC,05D9+05BC,05DA+05BC,05DB+05BC,05DC+05BC FB3E:05DE+05BC
    FB40:05E0+05BC,05E1+05BC FB43:05E3+05BC,05E4+05BC
    FB46:05E6+05BC,05E7+05BC,05E8+05BC,05E9+05BC,05EA+05BC,05D5+05B9,05D1+05BF,05DB+05BF
    FB4E:05E4+05BF,05D0+05DC,0671,0671,067B,067B,067B,067B,067E,067E,067E,067E,0680,0680
    FB5C:0680,0680,067A,067A,067A,067A,067F,067F,067F,067F,0679,0679,0679,0679,06A4,06A4
    FB6C:06A4,06A4,06A6,06A6,06A6,06A6,0684,0684,0684,0684,0683,0683,0683,0683,0686,0686
    FB7C:0686
    FB7F:0687,0687,0687,068D,068D,068C,068C,068E,068E,0688,0688,0698,0698,0691,0691,06A9
    FB8F:06A9,06A9,06A9,06AF,06AF,06AF,06AF,06B3,06B3,06B3,06B3,06B1,06B1,06B1,06B1,06BA
    FBA1:06BB,06BB,06BB,06C0 FBA7:06C1,06C1,06C1,06BE,06BE,06BE,06BE,06D2 FBB1:06D3
    FBD3:06AD,06AD,06AD,06AD,06C7,06C7,06C6,06C6,06C8,06C8,06C7+0674,06CB,06CB,06C5,06C5
    FBE2:06C9,06C9,06D0,06D0,06D0,06D0,0649,0649,0626+0627,0626+0627,0626+06D5,0626+06D5
    FBEE:0626+0648,0626+0648,0626+06C7,0626+06C7,0626+06C6,0626+06C6,0626+06C8,0626+06C8
    FBF6:0626+06D0,0626+06D0,0626+06D0,0626+0649,0626+0649,0626+0649,06CC,06CC,06CC,06CC
    FC00:0626+062C,0626+062D,0626+0645,0626+0649,0626+064A,0628+062C,0628+062D,0628+062E
    FC08:0628+0645,0628+0649,0628+064A,062A+062C,062A+062D,062A+062E,062A+0645,062A+0649
    FC10:062A+064A,062B+062C,062B+0645,062B+0649,062B+064A,062C+062D,062C+0645,062D+062C
    FC18:062D+0645,062E+062C,062E+062D,062E+0645,0633+062C,0633+062D,0633+062E,0633+0645
    FC20:0635+062D,0635+0645,0636+062C,0636+062D,0636+062E,0636+0645,0637+062D,0637+0645
    FC28:0638+0645,0639+062C,0639+0645,063A+062C,063A+0645,0641+062C,0641+062D,0641+062E
    FC30:0641+0645,0641+0649,0641+064A,0642+062D,0642+0645,0642+0649,0642+064A,0643+0627
    FC38:0643+062C,0643+062D,0643+062E,0643+0644,0643+0645,0643+0649,0643+064A,0644+062C
    FC40:0644+062D,0644+062E,0644+0645,0644+0649,0644+064A,0645+062C,0645+062D,0645+062E
    FC48:0645+0645,0645+0649,0645+064A,0646+062C,0646+062D,0646+062E,0646+0645,0646+0649
    FC50:0646+064A,0647+062C,0647+0645,0647+0649,0647+064A,064A+062C,064A+062D,064A+062E
    FC58:064A+0645,064A+0649,064A+064A,0630+0670,0631+0670,0649+0670,0020+064C+0651
    FC5F:0020+064D+0651,0020+064E+0651,0020+064F+0651,0020+0650+0651,0020+0651+0670
    FC64:0626+0631,0626+0632,0626+0645,0626+0646,0626+0649,0626+064A,0628+0631,0628+0632
    FC6C:0628+0645,0628+0646,0628+0649,0628+064A,062A+0631,062A+0632,062A+0645,062A+0646
    FC74:062A+0649,062A+064A,062B+0631,062B+0632,062B+0645,062B+0646,062B+0649,062B+064A
    FC7C:0641+0649,0641+064A,0642+0649,0642+064A,0643+0627,0643+0644,0643+0645,0643+0649
    FC84:0643+064A,0644+0645,0644+0649,0644+064A,0645+0627,0645+0645,0646+0631,0646+0632
    FC8C:0646+0645,0646+0646,0646+0649,0646+064A,0649+0670,064A+0631,064A+0632,064A+0645
    FC94:064A+0646,064A+0649,064A+064A,0626+062C,0626+062D,0626+062E,0626+0645,0626+0647
    FC9C:0628+062C,0628+062D,0628+062E,0628+0645,0628+0647,062A+062C,062A+062D,062A+062E
    FCA4:062A+0645,062A+0647,062B+0645,062C+062D,062C+0645,062D+062C,062D+0645,062E+062C
    FCAC:062E+0645,0633+062C,0633+062D,0633+062E,0633+0645,0635+062D,0635+062E,0635+0645
    FCB4:0636+062C,0636+062D,0636+062E,0636+0645,0637+062D,0638+0645,0639+062C,0639+0645
    FCBC:063A+062C,063A+0645,0641+062C,0641+062D,0641+062E,0641+0645,0642+062D,0642+0645
    FCC4:0643+062C,0643+062D,0643+062E,0643+0644,0643+0645,0644+062C,0644+062D,0644+062E
    FCCC:0644+0645,0644+0647,0645+062C,0645+062D,0645+062E,0645+0645,0646+062C,0646+062D
    FCD4:0646+062E,0646+0645,0646+0647,0647+062C,0647+0645,0647+0670,064A+062C,064A+062D
    FCDC:064A+062E,064A+0645,064A+0647,0626+0645,0626+0647,0628+0645,0628+0647,062A+0645
    FCE4:062A+0647,062B+0645,062B+0647,0633+0645,0633+0647,0634+0645,0634+0647,0643+0644
    FCEC:0643+0645,0644+0645,0646+0645,0646+0647,064A+0645,064A+0647,0640+064E+0651
    FCF3:0640+064F+0651,0640+0650+0651,0637+0649,0637+064A,0639+0649,0639+064A,063A+0649
    FCFA:063A+064A,0633+0649,0633+064A,0634+0649,0634+064A,062D+0649,062D+064A,062C+0649
    FD02:062C+064A,062E+0649,062E+064A,0635+0649,0635+064A,0636+0649,0636+064A,0634+062C
    FD0A:0634+062D,0634+062E,0634+0645,0634+0631,0633+0631,0635+0631,0636+0631,0637+0649
    FD12:0637+064A,0639+0649,0639+064A,063A+0649,063A+064A,0633+0649,0633+064A,0634+0649
    FD1A:0634+064A,062D+0649,062D+064A,062C+0649,062C+064A,062E+0649,062E+064A,0635+0649
    FD22:0635+064A,0636+0649,0636+064A,0634+062C,0634+062D,0634+062E,0634+0645,0634+0631
    FD2A:0633+0631,0635+0631,0636+0631,0634+062C,0634+062D,0634+062E,0634+0645,0633+0647
    FD32:0634+0647,0637+0645,0633+062C,0633+062D,0633+062E,0634+062C,0634+062D,0634+062E
    FD3A:0637+0645,0638+0645,0627+064B,0627+064B
    FD50:062A+062C+0645,062A+062D+062C,062A+062D+062C,062A+062D+0645,062A+062E+0645
    FD55:062A+0645+062C,062A+0645+062D,062A+0645+062E,062C+0645+062D,062C+0645+062D
    FD5A:062D+0645+064A,062D+0645+0649,0633+062D+062C,0633+062C+062D,0633+062C+0649
    FD5F:0633+0645+062D,0633+0645+062D,0633+0645+062C,0633+0645+0645,0633+0645+0645
    FD64:0635+062D+062D,0635+062D+062D,0635+0645+0645,0634+062D+0645,0634+062D+0645
    FD69:0634+062C+064A,0634+0645+062E,0634+0645+062E,0634+0645+0645,0634+0645+0645
    FD6E:0636+062D+0649,0636+062E+0645,0636+062E+0645,0637+0645+062D,0637+0645+062D
    FD73:0637+0645+0645,0637+0645+064A,0639+062C+0645,0639+0645+0645,0639+0645+0645
    FD78:0639+0645+0649,063A+0645+0645,063A+0645+064A,063A+0645+0649,0641+062E+0645
    FD7D:0641+062E+0645,0642+0645+062D,0642+0645+0645,0644+062D+0645,0644+062D+064A
    FD82:0644+062D+0649,0644+062C+062C,0644+062C+062C,0644+062E+0645,0644+062E+0645
    FD87:0644+0645+062D,0644+0645+062D,0645+062D+062C,0645+062D+0645,0645+062D+064A
    FD8C:0645+062C+062D,0645+062C+0645,0645+062E+062C,0645+062E+0645
    FD92:0645+062C+062E,0647+0645+062C,0647+0645+0645,0646+062D+0645,0646+062D+0649
    FD97:0646+062C+0645,0646+062C+0645,0646+062C+0649,0646+0645+064A,0646+0645+0649
    FD9C:064A+0645+0645,064A+0645+0645,0628+062E+064A,062A+062C+064A,062A+062C+0649
    FDA1:062A+062E+064A,062A+062E+0649,062A+0645+064A,062A+0645+0649,062C+0645+064A
    FDA6:062C+062D+0649,062C+0645+0649,0633+062E+0649,0635+062D+064A,0634+062D+064A
    FDAB:0636+062D+064A,0644+062C+064A,0644+0645+064A,064A+062D+064A,064A+062C+064A
    FDB0:064A+0645+064A,0645+0645+064A,0642+0645+064A,0646+062D+064A,0642+0645+062D
    FDB5:0644+062D+0645,0639+0645+064A,0643+0645+064A,0646+062C+062D,0645+062E+064A
    FDBA:0644+062C+0645,0643+0645+0645,0644+062C+0645,0646+062C+062D,062C+062D+064A
    FDBF:062D+062C+064A,0645+062C+064A,0641+0645+064A,0628+062D+064A,0643+0645+0645
    FDC4:0639+062C+0645,0635+0645+0645,0633+062E+064A,0646+062C+064A
    FDF0:0635+0644+06D2,0642+0644+06D2,0627+0644+0644+0647,0627+0643+0628+0631
    FDF4:0645+062D+0645+062F,0635+0644+0639+0645,0631+0633+0648+0644,0639+0644+064A+0647
    FDF8:0648+0633+0644+0645,0635+0644+0649
    FDFA:0635+0644+0649+0020+0627+0644+0644+0647+0020+0639+0644+064A+0647+0020+0648+0633+0644+0645
    FDFB:062C+0644+0020+062C+0644+0627+0644+0647,0631+06CC+0627+0644 FE10:002C,3001
    FE15:0021,003F FE31:2014,2013,005F,005F FE37:007B,007D
    FE47:005B,005D,0020+0305,0020+0305,0020+0305,0020+0305,005F,005F,005F,002C,3001
    FE54:003B,003A,003F,0021,2014 FE5B:007B,007D FE5F:0023,0026 FE63:002D,003C,003E,003D
    FE68:005C FE6B:0040 FE70:0020+064B,0640+064B,0020+064C FE74:0020+064D
    FE76:0020+064E,0640+064E,0020+064F,0640+064F,0020+0650,0640+0650,0020+0651,0640+0651
    FE7E:0020+0652,0640+0652 FE8A:0626,0626 FE90:0628,0628 FE96:062A,062A FE9A:062B,062B
    FE9E:062C,062C FEA2:062D,062D FEA6:062E,062E FEB2:0633,0633 FEB6:0634,0634 FEBA:0635,0635
    FEBE:0636,0636 FEC2:0637,0637 FEC6:0638,0638 FECA:0639,0639
    FECE:063A,063A,063A,0641,0641,0641 FED6:0642,0642 FEDA:0643,0643 FEDE:0644,0644
    FEE2:0645,0645 FEE6:0646,0646 FEEA:0647,0647
    FEF2:064A,064A,064A,0644+0622,0644+0622,0644+0623,0644+0623,0644+0625,0644+0625
    FEFB:0644+0627,0644+0627 FF61:002E
    FF64:3001,30FB,30F2,30A1,30A3,30A5,30A7,30A9,30E3,30E5,30E7,30C3,30FC,30A2,30A4,30A6
    FF74:30A8 FF77:30AD,30AF,30B1,30B3,30B5,30B7,30B9,30BB,30BD,30BF,30C1,30C4,30C6,30C8
    FF8B:30D2,30D5,30D8,30DB FF94:30E4,30E6 FF9C:30EF,30F3 FFA3:11AA,1102 FFB0:111A FFB4:1121
    FFE2:00AC,0020+0304,00A6,00A5,20A9 FFE8:2502 FFED:25A0,25CB 10783:00E6,0299,0253
    10787:02A3,AB66,02A5,02A4 1078D:1D91,0258,025E,02A9,0264,0262,0260,029B,0127,029C,0267,0284
    1079B:026C,1DF04,A78E,026E,1DF05,028E,1DF06,00F8 107A5:0071,027A,1DF08
    107AA:0280,02A8,02A6,AB67,02A7,0288,2C71 107B2:028F 107B5:0298 107B9:1DF0A,1DF1E
    1D15E:1D157+1D165,1D158+1D165,1D158+1D165+1D16E,1D158+1D165+1D16F,1D158+1D165+1D170
    1D163:1D158+1D165+1D171,1D158+1D165+1D172
    1D1BB:1D1B9+1D165,1D1BA+1D165,1D1B9+1D165+1D16E,1D1BA+1D165+1D16E,1D1B9+1D165+1D16F
    1D1C0:1D1BA+1D165+1D16F 1D49F:0064 1D4A2:0067 1D546:006F 1D6A4:0131,0237 1D6B9:03B8
    1D6C1:2207 1D6D3:03C3 1D6DB:2202,03B5,03B8,03BA,03C6,03C1,03C0 1D6F3:03B8 1D6FB:2207
    1D70D:03C3 1D715:2202,03B5,03B8,03BA,03C6,03C1,03C0 1D72D:03B8 1D735:2207 1D747:03C3
    1D74F:2202,03B5,03B8,03BA,03C6,03C1,03C0 1D767:03B8 1D76F:2207 1D781:03C3
    1D789:2202,03B5,03B8,03BA,03C6,03C1,03C0 1D7A1:03B8 1D7A9:2207 1D7BB:03C3
    1D7C3:2202,03B5,03B8,03BA,03C6,03C1,03C0,03DD,03DD 1E047:044B
    1E04A:A689,04D9,0456,0458,04E9,04AF,04CF 1E05E:0441 1E067:0491,0456,0455,045F,04AB,A651,04B1
    1EE02:062C,062F 1EE05:0648,0632,062D,0637,064A 1EE0E:0633,0639,0641,0635,0642,0631,0634
    1EE17:062E,0630,0636,0638,063A,066E,06BA,06A1,066F 1EE21:0628,062C 1EE24:0647 1EE27:062D
    1EE29:064A 1EE2E:0633,0639,0641,0635,0642 1EE34:0634 1EE37:062E 1EE39:0636 1EE3B:063A
    1EE42:062C 1EE47:062D 1EE49:064A 1EE4E:0633,0639 1EE51:0635,0642 1EE54:0634 1EE57:062E
    1EE59:0636 1EE5B:063A 1EE5D:06BA 1EE5F:066F 1EE61:0628,062C 1EE64:0647 1EE67:062D,0637,064A
    1EE6D:0646,0633,0639,0641,0635,0642 1EE74:0634 1EE77:062E 1EE79:0636,0638,063A,066E
    1EE7E:06A1 1EE82:062C,062F 1EE86:0632,062D,0637,064A 1EE8E:0633,0639,0641,0635,0642,0631,0634
    1EE97:062E,0630,0636,0638,063A 1EEA1:0628,062C,062F 1EEA5:0648,0632,062D,0637,064A
    1EEAE:0633,0639,0641,0635,0642,0631,0634 1EEB7:062E,0630,0636,0638,063A
    1F101:0030+002C,0031+002C,0032+002C,0033+002C,0034+002C,0035+002C,0036+002C,0037+002C
    1F109:0038+002C,0039+002C
    1F110:0028+0061+0029,0028+0062+0029,0028+0063+0029,0028+0064+0029,0028+0065+0029
    1F115:0028+0066+0029,0028+0067+0029,0028+0068+0029,0028+0069+0029,0028+006A+0029
    1F11A:0028+006B+0029,0028+006C+0029,0028+006D+0029,0028+006E+0029,0028+006F+0029
    1F11F:0028+0070+0029,0028+0071+0029,0028+0072+0029,0028+0073+0029,0028+0074+0029
    1F124:0028+0075+0029,0028+0076+0029,0028+0077+0029,0028+0078+0029,0028+0079+0029
    1F129:0028+007A+0029,3014+0073+3015,0063,0072,0063+0064,0077+007A
    1F14A:0068+0076,006D+0076,0073+0064,0073+0073,0070+0070+0076,0077+0063
    1F16A:006D+0063,006D+0064,006D+0072 1F190:0064+006A 1F200:307B+304B,30B3+30B3,30B5
    1F210:624B,5B57,53CC,30C7,4E8C,591A,89E3,5929,4EA4,6620,7121,6599,524D,5F8C,518D,65B0
    1F220:521D,7D42,751F,8CA9,58F0,5439,6F14,6295,6355,4E00,4E09,904A,5DE6,4E2D,53F3,6307
    1F230:8D70,6253,7981,7A7A,5408,6E80,6709,6708,7533,5272,55B6,914D
    1F240:3014+672C+3015,3014+4E09+3015,3014+4E8C+3015,3014+5B89+3015,3014+70B9+3015
    1F245:3014+6253+3015,3014+76D7+3015,3014+52DD+3015,3014+6557+3015 1F250:5F97,53EF
    2F800:4E3D,4E38,4E41,20122,4F60,4FAE,4FBB,5002,507A,5099,50E7,50CF,349E,2063A,514D,5154
    2F810:5164,5177,2051C,34B9,5167,518D,2054B,5197,51A4,4ECC,51AC,51B5,291DF,51F5,5203,34DF
    2F820:523B,5246,5272,5277,3515,52C7,52C9,52E4,52FA
    2F82B:5317,5349,5351,535A,5373,537D,537F,537F,537F,20A2C,7070,53CA,53DF,20B63,53EB,53F1
    2F83B:5406,549E,5438,5448,5468,54A2,54F6,5510,5553,5563,5584,5584,5599,55AB,55B3,55C2
    2F84B:5716,5606,5717,5651,5674,5207,58EE,57CE,57F4,580D,578B,5832,5831,58AC,214E4,58F2
    2F85B:58F7,5906,591A,5922,5962,216A8,216EA,59EC,5A1B,5A27,59D8,5A66,36EE,36FC,5B08,5B3E
    2F86B:5B3E,219C8,5BC3,5BD8,5BE7,5BF3,21B18,5BFF,5C06,5F53,5C22,3781,5C60,5C6E,5CC0,5C8D
    2F87B:21DE4,5D43,21DE6,5D6E,5D6B,5D7C
    2F883:382F,5DFD,5E28,5E3D,5E69,3862,22183,387C,5EB0,5EB3,5EB6,5ECA,2A392,5EFE,22331
    2F892:22331,8201,5F22,5F22,38C7,232B8,261DA,5F62,5F6B,38E3,5F9A,5FCD,5FD7,5FF9,6081,393A
    2F8A2:391C,6094,226D4,60C7,6148,614C,614E,614C,617A,618E,61B2,61A4,61AF,61DE,61F2,61F6
    2F8B2:6210,621B,625D,62B1,62D4,6350,22B0C,633D,62FC,6368,6383,63E4,22BF1,6422,63C5,63A9
    2F8C2:3A2E,6469,647E,649D,6477,3A6C,654F,656C,2300A,65E3,66F8,6649,3B19,6691,3B08,3AE4
    2F8D2:5192,5195,6700,669C,80AD,43D9,6717,671B,6721,675E,6753,233C3,3B49,67FA,6785,6852
    2F8E2:6885,2346D,688E,681F,6914,3B9D,6942,69A3,69EA,6AA8,236A3,6ADB,3C18,6B21,238A7,6B54
    2F8F2:3C4E,6B72,6B9F
    2F8F7:23A8D,21D0B,23AFA,6C4E,23CBC,6CBF,6CCD,6C67,6D16,6D3E,6D77,6D41,6D69,6D78,6D85
    2F906:23D1E,6D34,6E2F,6E6E,3D33,6ECB,6EC7,23ED1,6DF9,6F6E,23F5E,23F8E,6FC6,7039,701E
    2F915:701B,3D96,704A,707D,7077,70AD,20525,7145,24263,719C,243AB,7228,7235,7250,24608
    2F924:7280,7295,24735,24814,737A,738B,3EAC,73A5,3EB8,3EB8,7447,745C,7471,7485,74CA,3F1B
    2F934:7524,24C36,753E,24C92,7570,2219F,7610,24FA1,24FB8,25044,3FFC,4008,76F4,250F3,250F2
    2F943:25119,25133
    2F947:771F,774A,4039,778B,4046,4096,2541D,784E,788C,78CC,40E3,25626,7956,2569A,256C5
    2F956:798F,79EB,412F,7A40,7A4A,7A4F,2597C,25AA7,25AA7,7AEE,4202,25BAB,7BC6,7BC9,4227
    2F965:25C80,7CD2,42A0,7CE8,7CE3,7D00,25F86,7D63,4301,7DC7,7E02,7E45,4334,26228,26247
    2F974:4359,262D9,7F7A,2633E,7F95,7FFA,8005,264DA,26523,8060,265A8,8070,2335F,43D5,80B2
    2F983:8103,440B,813E,5AB5,267A7,267B5,23393,2339C,8201,8204,8F9E,446B,8291,828B,829D
    2F992:52B3,82B1,82B3,82BD,82E6,26B3C,82E5,831D,8363,83AD,8323,83BD,83E7,8457,8353,83CA
    2F9A2:83CC,83DC,26C36,26D6B,26CD5,452B,84F1,84F3,8516,273CA,8564,26F2C,455D,4561,26FB1
    2F9B1:270D2,456B,8650,865C,8667,8669,86A9,8688,870E,86E2,8779,8728,876B,8786,45D7,87E1
    2F9C1:8801,45F9,8860,8863,27667,88D7,88DE,4635,88FA,34BB,278AE,27966,46BE,46C7,8AA0,8AED
    2F9D1:8B8A,8C55,27CA8,8CAB,8CC1,8D1B,8D77,27F2F,20804,8DCB,8DBC,8DF0,208DE,8ED4,8F38
    2F9E0:285D2,285ED,9094,90F1,9111,2872E,911B,9238
    2F9EA:927C,93F9,9415,28BFA,958B,4995,95B7,28D77,49E6,96C3,5DB2,9723,29145,2921A,4A6E
    2F9F9:4A76,97E0,2940A,4AB2,29496,980B,980B,9829,295B6,98E2,4B33,9929,99A7,99C2,99FE,4BCE
    2FA09:29B30,9B12,9C40,9CFD,4CCE,4CED,9D67,2A0CE,4CF8,2A105,2A20E,2A291,9EBB,4D56,9EF9
    2FA18:9EFE,9F05,9F0F,9F16,9F3B,2A600"

end Recipe.Domain

import NoteDecor.Number.Numeral

/-!
The characters that names are made of: letters, numerals that go by letters, digits, marks on
letters, and the underscore (Unicode 14).
-/

namespace NoteDecor.Text

def wordRanges : List (Nat × Nat) :=
    [(170, 170), (181, 181), (183, 183), (186, 186), (192, 214), (216, 246), (248, 705),
    (710, 721), (736, 740), (748, 748), (750, 750), (768, 884), (886, 887), (891, 893), (895, 895),
    (902, 1013), (1015, 1153), (1155, 1159), (1162, 1369), (1376, 1416), (1425, 1469),
    (1471, 1471), (1473, 1474), (1476, 1477), (1479, 1522), (1552, 1562), (1568, 1641),
    (1646, 1747), (1749, 1756), (1759, 1768), (1770, 1788), (1791, 1791), (1808, 2037),
    (2042, 2045), (2048, 2093), (2112, 2139), (2144, 2183), (2185, 2190), (2200, 2273),
    (2275, 2403), (2406, 2415), (2417, 2545), (2556, 2556), (2558, 2677), (2689, 2799),
    (2809, 2927), (2929, 2929), (2946, 3055), (3072, 3183), (3200, 3203), (3205, 3406),
    (3412, 3415), (3423, 3439), (3450, 3571), (3585, 3642), (3648, 3662), (3664, 3673),
    (3713, 3840), (3864, 3865), (3872, 3881), (3893, 3893), (3895, 3895), (3897, 3897),
    (3902, 3972), (3974, 4028), (4038, 4038), (4096, 4169), (4176, 4253), (4256, 4346),
    (4348, 4959), (4969, 4977), (4992, 5007), (5024, 5117), (5121, 5740), (5743, 5759),
    (5761, 5786), (5792, 5866), (5870, 5940), (5952, 6099), (6103, 6103), (6108, 6121),
    (6155, 6157), (6159, 6459), (6470, 6618), (6656, 6683), (6688, 6809), (6823, 6823),
    (6832, 6845), (6847, 7001), (7019, 7027), (7040, 7155), (7168, 7223), (7232, 7293),
    (7296, 7359), (7376, 7378), (7380, 8124), (8126, 8126), (8130, 8140), (8144, 8155),
    (8160, 8172), (8178, 8188), (8255, 8256), (8276, 8276), (8305, 8305), (8319, 8319),
    (8336, 8348), (8400, 8412), (8417, 8417), (8421, 8432), (8450, 8450), (8455, 8455),
    (8458, 8467), (8469, 8469), (8472, 8477), (8484, 8484), (8486, 8486), (8488, 8488),
    (8490, 8505), (8508, 8511), (8517, 8521), (8526, 8526), (8544, 8584), (11264, 11492),
    (11499, 11507), (11520, 11631), (11647, 11775), (12293, 12295), (12321, 12335), (12337, 12341),
    (12344, 12348), (12353, 12442), (12445, 12447), (12449, 12538), (12540, 12686), (12704, 12735),
    (12784, 12799), (13312, 19903), (19968, 42124), (42192, 42237), (42240, 42508), (42512, 42607),
    (42612, 42621), (42623, 42737), (42775, 42783), (42786, 42888), (42891, 43047), (43052, 43052),
    (43072, 43123), (43136, 43205), (43216, 43255), (43259, 43259), (43261, 43309), (43312, 43347),
    (43360, 43456), (43471, 43481), (43488, 43609), (43616, 43638), (43642, 43741), (43744, 43759),
    (43762, 43866), (43868, 43881), (43888, 44010), (44012, 64296), (64298, 64433), (64467, 64605),
    (64612, 64829), (64848, 64967), (65008, 65017), (65024, 65039), (65056, 65071), (65075, 65076),
    (65101, 65103), (65137, 65137), (65139, 65139), (65143, 65143), (65145, 65145), (65147, 65147),
    (65149, 65149), (65151, 65276), (65296, 65305), (65313, 65338), (65343, 65343), (65345, 65370),
    (65382, 65500), (65536, 65786), (65856, 65908), (66045, 66272), (66304, 66335), (66349, 66461),
    (66464, 66511), (66513, 66915), (66928, 67669), (67680, 67702), (67712, 67742), (67808, 67829),
    (67840, 67861), (67872, 67897), (67968, 68023), (68030, 68031), (68096, 68159), (68192, 68220),
    (68224, 68252), (68288, 68295), (68297, 68326), (68352, 68405), (68416, 68437), (68448, 68466),
    (68480, 68497), (68608, 68850), (68864, 68921), (69248, 69292), (69296, 69404), (69415, 69456),
    (69488, 69509), (69552, 69572), (69600, 69702), (69734, 69818), (69826, 69826), (69840, 69951),
    (69956, 70003), (70006, 70084), (70089, 70092), (70094, 70106), (70108, 70108), (70144, 70199),
    (70206, 70312), (70320, 70730), (70736, 70745), (70750, 70853), (70855, 71104), (71128, 71232),
    (71236, 71257), (71296, 71352), (71360, 71481), (71488, 71738), (71840, 71913), (71935, 72003),
    (72016, 72161), (72163, 72254), (72263, 72345), (72349, 72349), (72368, 72768), (72784, 72793),
    (72818, 73462), (73648, 73648), (73728, 74862), (74880, 77808), (77824, 78894), (82944, 92777),
    (92784, 92916), (92928, 92982), (92992, 92995), (93008, 93017), (93027, 93823), (93952, 94177),
    (94179, 113817), (113821, 113822), (118528, 118598), (119141, 119145), (119149, 119154),
    (119163, 119170), (119173, 119179), (119210, 119213), (119362, 119364), (119808, 120512),
    (120514, 120538), (120540, 120570), (120572, 120596), (120598, 120628), (120630, 120654),
    (120656, 120686), (120688, 120712), (120714, 120744), (120746, 120770), (120772, 120831),
    (121344, 121398), (121403, 121452), (121461, 121461), (121476, 121476), (121499, 123214),
    (123536, 123641), (124896, 125124), (125136, 125273), (126464, 126651), (130032, 201546),
    (917760, 917999)]

def isWordChar (c : Char) : Bool :=
  if c.toNat < 128 then c.isAlphanum || c == '_' else inRanges wordRanges c.toNat

def isWordStart (c : Char) : Bool := isWordChar c && (Numeral.decimalDigit? c).isNone

end NoteDecor.Text

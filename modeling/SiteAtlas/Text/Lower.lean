import SiteAtlas.Text.CodePoint

/-!
# Lower case

Names are compared in lower case. Most letters have one lower-case counterpart, found in a table of
runs; a capital I with a dot becomes two characters, and a capital sigma takes its final form at the
end of a word.
-/

namespace SiteAtlas.Text

/-- Capitals from `first` to `last`, each `step`, with a `shift`. -/
structure CaseRun where
  first : Nat
  last : Nat
  step : Nat
  shift : Int

/-- The runs after a code point, each by its distance, length, step and twice its shift, plus one if
downwards. -/
def caseRunsFrom : Nat → List Nat → List CaseRun
  | start, gap :: length :: step :: shift :: rest =>
    ⟨start + gap, start + gap + length, step, if shift % 2 = 0 then shift / 2 else -(shift / 2)⟩ ::
      caseRunsFrom (start + gap + length) rest
  | _, _ => []

/-- Capitals beyond the ASCII block. -/
def caseRuns : List CaseRun :=
  caseRunsFrom 0 <| numbersOf
    ["a@F1^D261^DR^222201f324223>223^022201bG1422401fH1222201f@1012211f>1012301`J101f8101f:1012201",
     "f>101fB201fJ101fF1012401fJ101fN201fP1422201fX1012201fX3012201fX1012211fV1222201fZ101240128014",
     "10122014101220141@223@2230141222201aC101_I1V22201bY2@22801mgN1012201dC101mgH3012201eW101`6101",
     "`:1822cJ2224012901b<701^P221^N201_X211_V2@1^D281^DT01@9F22601_Q3012201?1012321bY1?1`L1O1^D^5P",
     "22:^822201N1<223_6223U1_8_bNU1h]8201h]8601h]8mC^S1^ywH151@^q3Z1amQ321amQd=`@22:01hm72_622:71A",
     "951A;71A971A951A<62A971AI71A971A971A911A111`A101C<31`Y101C<11A111aI=11A111b5101?<11bU111bQ101",
     "CcR01hhO401ir3101ilI701^<^2?1PD012oKI1^8^hU^31_8^5012201me?101btA101mdK3422201mg1101meK101mg7",
     "101mg520123012911mhK1_:2292225012tlR^022DJ22`4<224^@22;222201^tm118225012201_a^U32224B22201",
     "_a`5101_a`K101_a`C101_a_[101_a`5201_a]U101_a^Y101_a][101^i81>22201_9101_a`3101^toA12227012622",
     "2M012mx8I1^DxRW1^T`5S1^T`I:1^R2>1^R261^R211^R^g;^61_X_fBO1^DmnEO1^DttEQ1^H"]

/-- Whether the run holds the capital at code point `n`. -/
def CaseRun.holds (r : CaseRun) (n : Nat) : Bool :=
  r.first ≤ n && n ≤ r.last && (n - r.first) % r.step == 0

/-- The code point of the lower-case form of the capital `n`. -/
def CaseRun.apply (r : CaseRun) (n : Nat) : Nat :=
  (n + r.shift).toNat

/-- The single character that stands for `c` in lower case. -/
def lowerChar (c : Char) : Char :=
  if c.toNat < 128 then c.toLower
  else match caseRuns.find? (·.holds c.toNat) with
    | some r => Char.ofNat (r.apply c.toNat)
    | none => c

/-- Characters other than `c` itself whose lower-case form is `c`. -/
def capitalsOf (c : Char) : List Char :=
  (if c.isLower then [c.toUpper] else []) ++
    caseRuns.filterMap fun r =>
      let n := ((c.toNat : Int) - r.shift).toNat
      if r.holds n && r.apply n == c.toNat then some (Char.ofNat n) else none

/-- Lower-case forms that share a capital. -/
def sharedCapitals : List (List Nat) :=
  [[0x69, 0x131], [0x73, 0x17f], [0xb5, 0x3bc], [0x345, 0x3b9, 0x1fbe], [0x390, 0x1fd3],
   [0x3b0, 0x1fe3], [0x3b2, 0x3d0], [0x3b5, 0x3f5], [0x3b8, 0x3d1], [0x3ba, 0x3f0], [0x3c0, 0x3d6],
   [0x3c1, 0x3f1], [0x3c2, 0x3c3], [0x3c6, 0x3d5], [0x432, 0x1c80], [0x434, 0x1c81],
   [0x43e, 0x1c82], [0x441, 0x1c83], [0x442, 0x1c84, 0x1c85], [0x44a, 0x1c86], [0x463, 0x1c87],
   [0x1c88, 0xa64b], [0x1e61, 0x1e9b], [0xfb05, 0xfb06]]

/-- Lower-case characters other than `c` that share a capital with it. -/
def caseSiblings (c : Char) : List Char :=
  ((sharedCapitals.find? (·.contains c.toNat)).getD []).filterMap fun n =>
    if n = c.toNat then none else some (Char.ofNat n)

/-- Small letters that are written as several characters in capitals. -/
def longCapitalRanges : List (Nat × Nat) :=
  rangesOf ["dE1`R1qV1avR5a51111111_311112:11112:132:11112:11112^ik@5>5"]

/-- Letters with case beyond the ASCII block. -/
def casedRanges : List (Nat × Nat) :=
  rangesOf
    ["`V1:1415G1O1aC144aP1Ka@42233116113111D1^W1`78`R1V9Y_aGV11512[23l<^Z26^pF97[23^D^0^C=1R_=c>262",
     "V26281111111O2^91711331734264=5317bY1412:1135611111141641245541AP32oI^8^h:_T2_?6432<V1151tkB",
     "^2BL`2^R1G341^?521115K231oM[597^Tlh47<5tEJ6Jx1^T_8T4T_L;1?17121;1?1712^f?^7=^7_dY^DmmP^DpqH^Y",
     "1^K122122241<11171^E1428171L141511371dP2I1I1O1I1O1I1O1I1O1I18^hX:1D^xE^H^m4J6J6J"]

/-- Marks beyond ASCII that do not end a word before a sigma. -/
def caseIgnorableRanges : List (Nat × Nat) :=
  rangesOf
    ["`T141114122hCa@42419211bO7aO151^5^111121211^01;6:;11S1:E@1_=81:14Q111NK_3;^>;4121HH[3^017268Y",
     "^>^;111484137:2=1?1^>14481D2J122^=142422331N231;2^=1451241D2F611^>121148172;2N1^A1<1^6131^;11",
     "3531472;2M1^>1216152D2L2^=24481D2M1^L17311_2127;9_:1299116^N2K11111^;>15125;1T91_>4161222I243",
     "@4=12261?1_61jT3rF3M2N2N2^D217812;3151^15^71^E2R1_N3429163a[221^>1171111286:21W18O^54^4115115",
     "1X9<2P42213^<1123113^>822^D6^V31=17416132^6^C=1R_=g5113;3=3=3=2<582:12125^551:11=1@=^7Q_d72_I",
     "3_U1?1_8P^31gM1T43551_56_53rm>1yB6c61_:41:11L4^T2>R^R1G3_?332813141I251`C2JB=1V8I;^23^412422A",
     "1E2^F62222<181S1;1^7113225211K1>25211_<593_Q12141lgP1`?Aj1@31<@R121`U17161;1S111^31^12^G1E3hM",
     "1b61`A5tA61Z19j:31254X341`Q2j14eS2`E;^54_S1^:?Y122:3^54222141:1^63T518^B1<2^89:421_73211261`L",
     "138E2^=231U735aC82311G1^X6114212bB46212K2^Y82112_B1112611_=32415bW912bT21141`<42241P:X6248196",
     "23^2=12f:71611^VF271212_R631121711^L23111dW2a`G9go?5^?794tG1^CA^D212iiK41712_jB214`mT^22Gi@39",
     "@27N4`@3^k[^;4^681>1F51?^]X71A271215bY>e@1^A4^a87_E8__75py`=1N_8_XbD"]

/-- Whether `c` is a letter with case. -/
def isCased (c : Char) : Bool :=
  if c.toNat < 128 then c.isAlpha else inRanges casedRanges c.toNat

/-- Whether `c` is passed over when the neighbours of a sigma are looked at. -/
def isCaseIgnorable (c : Char) : Bool :=
  if c.toNat < 128 then "'.:^`".toList.contains c
  else inRanges caseIgnorableRanges c.toNat

/-- Whether a sigma between `before` (nearest first) and `after` ends a word. -/
def endsWord (before after : List Char) : Bool :=
  let nearest (cs : List Char) : Bool := ((cs.dropWhile isCaseIgnorable).head?.map isCased).getD false
  nearest before && !nearest after

/-- The lower-case form of `c` between `before` (nearest first) and `after`. -/
def lowerBetween (before : List Char) (c : Char) (after : List Char) : List Char :=
  if c == 'Σ' then [if endsWord before after then 'ς' else 'σ']
  else if c == 'İ' then ['i', '\u0307']
  else [lowerChar c]

/-- The lower-case form of a text that follows `before` (nearest first). -/
def lowerAfter : List Char → List Char → List Char
  | _, [] => []
  | before, c :: rest => lowerBetween before c rest ++ lowerAfter (c :: before) rest

/-- The lower-case form of a text. -/
def lower (cs : List Char) : List Char :=
  lowerAfter [] cs

/-- The lower-case form of a text. -/
def lowerString (s : String) : String :=
  String.ofList (lower s.toList)

end SiteAtlas.Text

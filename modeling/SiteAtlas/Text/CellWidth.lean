import SiteAtlas.Text.CodePoint

/-!
# Widths on the console

A character takes one cell of a console line, none if it combines or controls, or two if it is wide.
A joiner hides the character after it, and a selector makes some before it wide.
-/

namespace SiteAtlas.Text

/-- Characters that take no cell, as ascending code point ranges. -/
def zeroWidthRanges : List (Nat × Nat) :=
  rangesOf
    ["0P_7QjT_Hc;7b[^111121211^L;11^2E@1_=7262214S1NK_3;^>991H4191315[3^?9ZH1Q^:31B17:2M3^<11722239",
     "1:2J123^<115422331N231;3^<1181313D2F613^<117222373:2N1^?5331491X5^;117131472;2M3^<117131472;2",
     "?1<4^;217131491:2M3^J1461118B2^A127<8_:129;7^M2K1111142^5D125;1T91_<DG443132734=<11:4aB`LdY3",
     "rF4L3M2N2^DP91^15_M2R1_N<4<a[5^=:1M21^4^22<D5^3AV9<3N=^<>^4D`D31E416123aF^DhW5H7^5@_8Q_fR3`91",
     "_8PiJ6_A2aI1sqZ41:P2^T2c813141G541^W2^6BJB=1V8I=^04^3>T1^G><182^13^6113225211Y552b@812ekJ^T",
     "cu>1mQ@@@aO1`L1^S<hM1b61`A5^dZ31254X341`Q2j14^E5d92^Q6^J;^54_R3^9?Y122:4^1;71^A3T>@2^01<3^4>8",
     "412_4<6121`I<E4^;217222391:22735^G91121141511>2^VBG1^UDb?729K2^VA_B=_=?bT?bI612241112`972731L",
     ":X714819;^2@aF8aG818^VF1>_R631121711^F51215dW49211^4735G1a^9A6?eqHB^wP5^?7tT11^;74^U1;2kw3214",
     "`mT^22Gi>53F27N4`@3^k[^;4^681>1F51?^]X71A271215_<1`L7eG1^A4hH4bR2bG1217251gR7_E7__85py`<``4"]

/-- Characters that take two cells, as ascending code point ranges. -/
def doubleWidthRanges : List (Nat × Nat) :=
  rangesOf
    ["`eX_8`j62=2a>43121hU2E2J8@<[1:631=182A2528151E1721141217142L1S1114311^A3H1>1pG2^7141oBJ1_1<aV",
     "J^>6?2^Z4_=5[1^71Z1^Z9^41X8saM3^;wQMkKejXck4hLnT:FS1C14`A_8_W7rrE4>59bnRYP_9_KcnQ417121cK?1M3",
     "21>48f0cc<^[9Gbm51aJ1a>12:_=3=^04972>6`FQ<91^J1F<[45<A31335^C111a;2^C=41HB1J2=1^Z^Y^4^J613324",
     "34;279b7<41cC^31:1a9_H=3;3^=114@2<4:z;^ppB2^ppB"]

/-- Characters that take two cells before a selector, as ranges. -/
def selectableRanges : List (Nat × Nat) :=
  rangesOf
    ["S1615:_G141c`I1<1aX1F1_26?2eM1`R1M31253aG1b;2:191^>235912161412112213132835111L2211211B121C11",
     "41112316182F1611111E1622123815222112111116131A2?121K2^@1f62gG3_y`T2<2fE12991^J1H21322[45<C111",
     "11^K111a;1^O2T227=12421D121829153<383211141613161aP113@6316121"]

/-- The number of cells that a character takes. -/
def cellWidth (c : Char) : Nat :=
  if 0x20 ≤ c.toNat && c.toNat < 0x7f then 1
  else if inRanges zeroWidthRanges c.toNat then 0
  else if inRanges doubleWidthRanges c.toNat then 2
  else 1

/-- The character that joins its neighbours into one. -/
def joiner : Char := '\u200d'

/-- The character that asks for the one before it to be drawn in colours. -/
def colourSelector : Char := '\ufe0f'

/-- Cells that a selector adds. -/
def selectedCells (c : Char) : Nat :=
  if inRanges selectableRanges c.toNat then 1 else 0

/-- The cells of a text, given the last selectable character. -/
def cellsAfter (last : Option Char) : List Char → Nat
  | [] => 0
  | [c] =>
    if c = joiner then 0
    else if c = colourSelector then (last.map selectedCells).getD 0
    else cellWidth c
  | c :: d :: rest =>
    if c = joiner then cellsAfter last rest
    else if c = colourSelector then (last.map selectedCells).getD 0 + cellsAfter none (d :: rest)
    else cellWidth c + cellsAfter (if cellWidth c = 0 then last else some c) (d :: rest)

/-- The cells of a text. -/
def cellCount (cs : List Char) : Nat :=
  cellsAfter none cs

end SiteAtlas.Text

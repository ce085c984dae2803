import SiteAtlas.Text.CodePoint

/-!
# Identifiers

A name may begin with a letter or the underscore and go on with letters, digits and marks that keep
it a name under compatibility composition.
-/

namespace SiteAtlas.Text

/-- Characters beyond ASCII that may begin a name, as ascending ranges. -/
def nameStartRanges : List (Nat × Nat) :=
  rangesOf
    ["`V1:1415G1O1gB4<>57111_Y51233116113111D1^W1`78`R1V216Y^KK44^1[S21_;11?272:321@11NM_1;1HQ92415",
     "F419131GI7;5H16AZ^>^:31B17:?@48222F17113431@1=213>2:186422F17121212O411C3@9131F17121531B1?2G1",
     ";8222F17121531N213?1A116331432111232333<F1^88131G1@31J32122N148131G1:1531O212?2A9131Y21@15383",
     "H65B3H191127^>^411=7^>211151H111:11:12511E4P1^C81TK5_K[D1@6443132734=<1AV11512[1dI142711142Y1",
     "42Q142711142?1^=142^GU@@^Z263k42A1J5^O3;7B=C>B>=13?^8S141^G_17Y115^J:O^5N25;^04J^:G9^9^V1_5^3",
     "A8^:N=2:^0JTY3:T297[23Y41612315a@^Dc>262V26281111111O2^91711331734264=5317_L1=1@=_=1412:11266",
     "111111@245541AY_]Wb96432<V11512^<71@G9717171717171717iF3I975254^Z631_2145[1_6AP^4@hLazT^DmtI",
     "^G^22c53@:2D^3@O2^TW92_?2^D521115H@13141GM^8>^6^B63112;L:GIM7^3L1@51::51YG318DG313^6113225211",
     "1H32;73<6262697171[1>6_KMejX<G4^5ci4e>2_BV7<5511:1=151112121_DQ`76aZB^D2^:X:_O111311111111_VT",
     "J6J;^<2O36262623S<1J1C121?2>R_S^I^9c3M3^5^3P=N5V:N2T4815Z`JBT4T4X8^8<;1?17121;1?1712^Gd39F:8H",
     "61Z19^I6211^012312G:G9O^EC12:F:J^J^<62^D1?4131MZM3MS81LK^::F:C=B_F^M^;^7=^7=TdXZ62^RM:18FZB^2",
     "EKG<^9^=221=^1PIJTM1218S31<^4>4E111SB1I^X711141?1:7^3V8222F17121531B1<5`J^9B4D3N^4D211a8^3Y4T",
     "^4D1^?[=1^KKU7a9^0_L^DO82128121H?111_682W@111L1:X71E1;^2C1B^Mb[91UA1^5N_H7121VE1I6121P>1dCCa=",
     "1^SqZ_>_GAaD^zX_9?u?`_1j;cm9iY7OA^SANB^4@4OE5ClL^D_X^O51^F=^D211LapD8y6Z9ct3417121cK^13A48f0",
     "^sD_C5=397:am6^Y1^K122122241<11171^E1428171L141511371dP2I1I1O1I1O1I1O1I1O1I18^hXOgY^1:7@1d=NB",
     "^0yT714121?1aE^?^H71x@41K1211211:141111614111111312112111111111121124171414111:1A53151A`gD",
     "^_gXP`aA7b22agZ>bpU_gGi>^a:`s;"]

/-- Further characters beyond the ASCII block that may go on with a name. -/
def namePartRanges : List (Nat × Nat) :=
  rangesOf
    ["a71j<_HG1bO5c1^111121211^L;^4O61_=72622142:G1NK_3;?:Q991H4191315[3^@8ZH1Q^:31B17:22:A3^<11722",
     "2391:22:>123^<115422331D<31;3^<1181313D22::613^<117222373:22:B1^?5331491>:@5^;117131472;22:A3",
     "^<117131472;22:@4^;217131491:22:A3^J14611186:22^A118<81:^[11:;62:^B26:;1111142^5D125;1T91_<D1",
     ":<443132734=<1?l[399r44L3M2N2^DP912:Q31;`;1_N<4<::_X;^@5^=:1M2;6:F>1@^55^3A;:A9<3N=2:^0>^4D8:",
     "6:_N31E416123aF^Dj32C1_S=413<_fR3`91_8PiJ6_A2stQ:^I14:P2^T2c813141G541^W2^6B::6B=;L8I=^04^3>?",
     ":;1::^3><1822:Q3^6113225211Y552b@8122:lgD1mQ@@@32H3a@:U1_62jQ1b61`A5cM:^^331254X341`Q2j148:eA",
     "2`E;^54_R3^9?O;22:4^1;71^1:63T>1:52^01<3^4>841<^V<61`L<5:64^;217222391:22735a@B9:41^UD<:aU729",
     "K2^VA?:^U=8:^W?4:bF?`Q:^J612241112<:_O72731L:X714819;^2@f9818@:^<F1>_R6311217118:^4512158:dE4",
     "koQ:^Z:V5^?7I:t111^;74^U1;2kw32`mY^22Gi>5368827N4`@3^_9^6hL^;4^681>1F51?^]X71A271215bY79:e41",
     "^A>^`Z7_E75:`o6:pwsNbD"]

/-- Whether a name may begin with `c`. -/
def isNameStart (c : Char) : Bool :=
  if c.toNat < 128 then c.isAlpha || c == '_' else inRanges nameStartRanges c.toNat

/-- Whether a name that has begun may go on with `c`. -/
def isNamePart (c : Char) : Bool :=
  if c.toNat < 128 then c.isAlphanum || c == '_'
  else inRanges nameStartRanges c.toNat || inRanges namePartRanges c.toNat

/-- Whether a text is a name: not empty, and every character in its place. -/
def isIdentifier : List Char → Bool
  | [] => false
  | c :: rest => isNameStart c && rest.all isNamePart

end SiteAtlas.Text

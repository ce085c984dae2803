import SiteAtlas.Text.CodePoint

/-!
# Word characters

A letter, a number of any kind, or the underscore; identifiers are runs of these in any script.
-/

namespace SiteAtlas.Text

/-- Letters and numbers beyond the ASCII block, as ascending code point ranges. -/
def wordRanges : List (Nat × Nat) :=
  rangesOf
    ["`V1721132131G1O1gB4<>57111_Y51224116113111D1^W1`78`R1V216Y^KK44^1[E:421_;11?27?21@11NM_1;1>[9",
     "2415F419131GI7;5H16AZ^>^:31B17:4:1@48222F17113431@1=2134<262186422F17121212O4117:23@9131F1712",
     "1531B1?24:91;8222F17121531N2134:17;116331432111232333<F1E=B8131G1@31J321224:871148131G1:1531O",
     "2124:12A9131Y21@1531:4C165B3H191127O:A^412<79:W211151H111:129125119:24P1OD<81TK5_K[D;66443132",
     "734=<11:6V11512[1dI142711142Y142Q142711142?1^=142^G>D3@@^Z263k42A1J5^O3;7B=C>B>=13?^8S1413:6:",
     "F:6_1752R115^J:OWX25;^04J6;UG9^9[:6:=1_5^3A83:YN=^<JTL:3^5297[23Y41612315a@^Dc>262V2628111111",
     "1O2^91711331734264=5317_K2265;6=_=1412:1135611111141;2455411^>mF^@^RFk>NvPb96432912V11512^<71",
     "@G9717171717171717^T1gM3I975254^Z631_2145[1_634:P^4@P:N81?P:W?d<azT^DmtI^G^22c53LD^3@O2^TW92",
     "_?2^D521115H@13141G=6:^8>^6L:H631121V:GIM7^3L;651I1YG3184:6G313^61132252111H32;73<6262697171[",
     "1>6_K=:6ejX<G4^5ci4e>2_BV7<5511:1=151112121_DQe;B^D2^:X<_L51`3C:7J6J;_136262623S<1J1C121?2>R",
     "_S<^1<^=A2bHM3^5@K4T9N5V:N2T4815Z`J2:6T4T4X8^8<;1?17121;1?1712^Gd39F:8H61Z19^I6211^012312G2O2",
     "V89^4C125Q4J^J^<4D2^3?4131M:9GO1PP81L65@^::F2K5JG7^T^M^;^7=^77Z<:cNO1Z62^RX8F;4KB^2LDG<^9JN12",
     "21=^1PI7:9T?:41218S31<^4>4;;114D;B1I^X711141?1:7^3A:;8222F17121531B1<5`J^9B45:53N^4D2118:`R^3",
     "Y4T^4D1;:V[=17:^:KE<47a9^0_L^W<82128121H?111>:^J82W@111L1:X71E1;^2C1B^Mb[91UA1?M5N_H7121VE19:",
     "66121P>17:d2Ca=1?E[qZ_>_GAaD^zX_9?u?`_1j;cm9iY7O1:6^S1:6NB^4@4<:171E5ClL^[_A^O51^F=^D211LapD8",
     "y6Z9ct3417121cK^13A48f0^sD_C5=397:afJD_DI`3^Y1^K122122241<11171^E1428171L141511371dP2I1I1O1I1",
     "O1I1O1I1O1I182^6^gPOgY^1:72:41d=NB^04:yF714121?1aE29^4^H714:n[^?1314^P^11?aB41K1211211:141111",
     "614111111312112111111111121124171414111:1A53151Aj8=_`?:tB^_gXP`aA7b22agZ>bpU_gGi>^a:`s;"]

/-- Whether `c` is a letter, a number or the underscore. -/
def isWord (c : Char) : Bool :=
  if c.toNat < 128 then c.isAlphanum || c == '_' else inRanges wordRanges c.toNat

/-- ASCII word characters. -/
def isAsciiWord (c : Char) : Bool :=
  c.isAlphanum || c == '_'

end SiteAtlas.Text

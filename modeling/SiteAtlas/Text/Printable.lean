import SiteAtlas.Text.CodePoint

/-!
# Printable characters

Control characters, separators but the space, and unassigned code points do not print.
-/

namespace SiteAtlas.Text

/-- Code points that do not print. -/
def unprintableRanges : List (Nat × Nat) :=
  rangesOf
    ["0P_7R<1m:2647111D1f11V2^6231^;8K46AF1a@1^42^?2_=>^?2^52?1L211;5O9^N1`M18222F17113429222481421",
     "52I2316422F17121212211542233174117A:319131F1712152:131321?42<771318222F1712152922237342152B:2",
     "16331432111232333<4533142161>E5=131G1@291314721321242:7F131G1:152913147262142:12==131^713164@",
     "2J131B3H191127314611186:23<^>4MU211151H111G2511162:24P^L1T4W1T1?1=UaF11512eI142711142Y142Q142",
     "711142?1^=142^G2P3J6^Z262kH1L3_17F9H9D<=1312<_62:6:6>1;6_17[5^J:O1<4<413Z25;^04J6;3^B2^E1M2;6",
     ":6>2O^5^Q3^31_L8^@3?3^@7[2;8[5i6262V26281111111O2^91?1>261C2319AH8^3A22K1=3Q?Q?`84l3I;E^h82P1",
     "dY5^111512^<72>H97171717171717171_VRJ1_1<aVJ<5^C1^Z2_?5[1_61^X<^31sbQ3^;9dXDa88aK521115H^?3:6",
     "^<8^J8<6_L;N3^R1;4Q1^;9>2:2_?HL:6262697171^@4_V2:6ejX<G4^54^mHavDe>2_BV7<55J151112121_U@g52^:",
     "71PZ6^71C14451`34a>362626233717=22<1J1C121?2>R_S534^13_01=31^3^2_ZM3^5?L4T9N5[5N1U4>Z`J2:6T4T",
     "4X8^8;<1?17121;1?1712^Gd39F:8H61Z19^I6211^012312G1^L89^4C125Q3K51^D^<4D2^61258131M234:797^DPW",
     "4<9^:3M2K5J74<7^T^M^;^7=^77^28:cNO1Z1322^RX8ZFJVLDG9^R4T9^B15=I7:6^91B8W9_81D;B1^0^E711141?1;",
     "6^?5:6418222F1712151:22232161572735`7_415N^L8:`R^:2VR^I;:6=C^>6:^:K2?4Ga9^@_<^W<82128121N122<",
     "9:^J82^22;K^L8^W=^Mb[91^11>:M3P2F1>^M7121^03112198:66121U12167:d2Ia71?^6=q[_>_G15;aD^zX_;=u?",
     "`_1j;cm9iY7O1:4^U1:6N26:^J::171E5ClL_3_=^O4^=7A^D5;2>apD8y6Z9ct3417121cK^13A48f0^sD_C5=397:24",
     "`mX^22G9_L^@bJ:W2^N8_HE^J`FD<^[9I`3^Y1^K122122241<11171^E1428171L141511371dP2cL2lZ?51?v4Ob571",
     "A271215aU^13>2:42d<OA^>51y@714121?1aE2@Y^P4:42nU^H^P^AaB41K1211211:14111161411111131211211111",
     "1111121124171414111:1A53151A^82c6^04_<<?2?1?1U:`Z^<M=^04972>6`Fs@5@3=3_L<_17<41?<4^<8:6X8N22",
     "^RdP<>2535379M3;56::68879`?1^;U:tB^_gXP`aA7b22agZ>bpU_gGi>^a:`s;o_nIbDayn4"]

/-- Whether a quoted text shows `c` as itself. -/
def isPrintable (c : Char) : Bool :=
  if c.toNat < 127 then 32 ≤ c.toNat else !inRanges unprintableRanges c.toNat

end SiteAtlas.Text

import SiteAtlas.Text.Basic

/-!
# Phrases of character names

A phrase that recurs in the tables stands there as a sign, or as a small letter and a further sign;
one of the second kind may be written with others before it.
-/

namespace SiteAtlas.Text

/-- Phrases for one sign. -/
def signPhrases : List (Char × String) :=
  [('!', " WITH "), ('$', "RIGHT"), ('%', "ED "), ('&', "SMALL"), ('(', "LEFT "), (')', " AND "),
   ('*', "ING "), ('+', "DOUBLE "), ('<', ".5,"), ('=', ".2,"), ('>', "ONE"),
   ('?', "CAPITAL LETTER "), ('@', ".6,"), ('[', "SHA"), (']', ".4,"), ('^', "ARROW"),
   ('_', ".3,"), ('|', "TWO")]

/-- Signs that may come second. -/
def secondSigns : List Char :=
  "#$%&()*+,.0123456789:;<=>?@ABCDEFGHIJKLMNOPQRSTUVWXYZ[]^_abcdefghijklmnopqrstuvwxyz".toList

/-- Phrases for two signs each, in their order, with tildes between. -/
def pairPhrases : String :=
  " BA~ BE~ CA~ DI~ IN~ LE~ MA~ ME~ MO~ OF~ OR~ PA~ PO~ SU~ TO~ TR~,BA~,BE~,BO~,CA~,CO~,CU~,DE~,FA~,
FO~,HA~,HO~,LA~,LE~,LI~,MA~,ME~,MO~,NO~,PI~,PO~,RA~,RE~,RO~,SA~,TO~,UP~,WA~.7,~.8,~.9,~.A,~.B,~.D,~.
F,~/1,~/1;~/2,~/2;~/3,~/4,~/5,~/6,~/7,~/8,~/9,~30,~6;0~:;0~;0C~A:,~ACK~AGE~AIN~AKE~AL ~AME~AMP~ANG~A
NT~ARD~ASH~AST~AT,~ATE~BAR~BAT~BIT~BLE~BLO~BOA~BOO~BOX~BRA~BRE~BUS~BUT~CAN~CAP~CAR~CHA~CHE~CHI~CHO~C
K,~CLA~CLO~COM~CON~COP~COR~CRE~CRO~DAR~DES~DGE~DIS~DOG~DOT~DRO~EAR~EAT~ECT~EN,~ENT~ER ~ER,~ES,~ET,~E
TA~ETT~GRA~IAN~ICE~IDE~IE,~ILL~IN,~IND~INE~ING~ION~ISH~ITA~ITY~IVE~JE,~KET~KEY~LAT~LE ~LE,~LET~LIT~L
OW~MA,~MAI~MAN~MAS~MEN~MER~MET~MIL~MIN~MON~NEW~NO ~OCK~OFF~OLD~ON ~ON,~ONG~OPP~OUN~OUS~OUT~OVE~PAN~P
AR~PEA~PEN~PER~PLA~PLE~PSI~QUE~RAC~RAI~RAM~REE~REN~RES~RIC~RIM~RIN~RIS~RRY~SAN~SE,~SET~SHE~SHI~SHO~S
KI~SPE~SPO~STA~TCH~TE,~TEN~TER~THE~THO~TIC~TLE~TON~TOP~TOR~TRA~TRI~TRO~TUR~UGG~UMP~UP ~UP,~US,~USE~U
SH~VER~VOL~WAY~WOR~Y:,~a#R~a%R~a( ~a. ~ bz~,b4~aDN~,SUN~.7;0~.8;0~aXB~aXC~aXD~aXM~aXP~aXS~A#9P~ANCE~
Baj~BALL~BLUE~BROW~CIRC~CURL~CYCL~DaX~Dat~DOWN~EaX~EURO~EYES~FACE~FIRE~Fb]~FIST~FLAG~FOOD~FOOT~FOR ~
FORM~FOUR~FROM~FULL~GIFT~GOLF~HAIR~HAND~HEAD~HIGH~HOOK~HORN~bS ~IGHT~bZ,~IOTA~KbZ~KISS~LaX~LEFT~LbY~
LbZ~LINK~Lbw~LOOP~Lc*~MARK~NESS~NOT ~NOTE~by ~Oc#~c&D~PaX~PALM~c,T~PASS~c2Y~POST~Pc)~Pc1~Pc>~c7N~REA
D~RIGH~ROLL~ROOM~RUNN~SaX~SaZ~SIGN~Sb[~SMAL~Sbr~SNOW~SOFT~SQUI~cJR~ScN~ScT~ScV~SWIM~TaX~TAIL~cN,~
Tb[~Tba~cT ~WAVE~WbX~WINK~YaX~a%KE~ d,~ d2~ dT~a,ON~,d,~a=ST~,R%~,TELE~ACUTE~ALPHA~aoRI~Ae%~d#,~B
Laj~b%RD~b1ON~b2RT~b3CK~CdQ~b8UD~b9PU~b=AM~b>SS~DOLLA~bFTH~Ed*~EdG~EdL~ERaX~ERaZ~d2 ~FIbf~FROWN~GAMM
A~GESTU~GLASS~bQVE~Gc9N~Gc>N~HbFT~HbwE~HORSE~Hc(E~ICan~bXEX~bZ:,~KNIFE~Ld.~LdG~bjER~MIb>~MOcU~Mc(E~
Mc)H~NOcB~OMEGA~Oc0 ~ORaq~PAc1~PEb@~PH>~c2CE~POINT~RADIO~c:CH~RIbM~dh.~Sb5O~Sb<P~cERT~cFRT~SIGMA~SLE
EP~dp.~SPACE~Sc,K~cHAK~cIRT~STEAM~ScQK~SWbG~THc9~THUMB~TILDE~e% ~cSOS~Tdf~cWAN~UNDER~ccSE~VbTO~cdUM~
WasS~WawR~WHEEL~WHITE~WITH ~WObm~ eC~e0 ~e1,~ c*R ~ dn,~a3IT,~a6BY ~,et~,f#~cwUN~e; ~BId)~e= ~BOTcR~
BROKEN~BULbh~d&LE~b<NER~d(Y ~DOUb#~DRAGON~FbZER~eW,~HEAVY ~HYPHEN~INd:~bZaX~bZaZ~LARGE ~beIN ~bhcN~M
EDIUM~NUMBER~ekE~c1SON~ep ~RELIEV~REc.T~c<bc~SQUARE~ScXKE~SYMBOL~THIRTY~cccQ~f< ~YELbj~a#NDAG~a$Hb
X~ b,cS~a%dz~ fO~a+DAL,~ bvEVI~,^ ~a?Mbp~,INPUT ~,eb ~,PURc3~,$ ~,ex ~,SOCCER~,f: ~,fm~ALENb?~A
Pep~b)Cbc~CEDbVA~b8S%~DIAbtD~bDT.M,~E,YU,YA~Ec4LON~FAC*~FORWas~GIBBc(~HARPOON~*CAT~LarERN~MAb>N,~bl
Lb(~bmcj~f_ ~MIDDbf~OedN~c&Tal~fc ~epED~QUARcN~c7S%~c<d.~RUPEE:,~SbZbf~SOLIDUS~SPIRan~Ta2TAT~cSGUE,~
Uc4LON~ ACCbJ,~fq,~fq/~e1aX~e3aX~ fj,~ fj;~a?,TcB~,f^ ~fGC,~csdQ~;0Gc9K ~;gA~AIRc2NE~ARb2IC ~^aX~au
Ec?K~BUILDbZ~b0b^L ~b=SCbJ~CURc:CY~DIVIdo~%d2,~ENVELOPE~eSbM~*d2~*dA~Mg@~egaX~MUSe[~NDICAcU~c5Se%~R
Ef6D~f4GLE~UMb*LLA~UPf9 ~WIcPUT ~a#NKdW~gNU~ CURV*~ gB ~aG bJRY~aX^ ~b,cSaX~eBWISE~DIAEc;IS~DIALYTIK
A~gh/~INccT%~dMf9~LIGAcYE ~buSel~ONb9*~elCLIP~PLICe;~PLUS dn~flan~ gz~fsaX~gQWA~ ep*~ fhaX~a@UReS~,J
Ac+ESE ~aYgA~a[gA~AdbROPHE~d#OT b(~BIbfen~d&UMFLEX~d,f9 ~EDgP~d2!~h) ~bicNcj~LOb9Oe&~NORTH WEST~R*A
Bc*~SILHOUbPE~f4GULAR~f;Cd@~ DEb<e;~e1!~ eoa+DA~,hC~aqeKALI~^aO.I,~EXb7Me;~d4*POL~Fc9ckb2~HORIZON
Tan~h&1,~INcNROBaq~gDdA~$f9 ~TAb# f:~UKdfbR I~!eT;~!OG>K~!f0,~-b*AK f$~/1h9~e@a(b=A~b:STRUCe%~e
Fa]du~Lau gC~LUNaw ey~c7Sgi~R%gp~cGNa4Nd.~dq*d1~SUc1SCRIPT ~e3gP~!fi,~!fi;~,fVeW ~fxf]~aFh>~h% AND~F
IRST gC~bZh:~gne2~$:e4:,~& f^ ~cVFFIC eb~h2ax,~XPc;doLESS~arIh# ~dM-ep*~dM-TO-$ ~MULTIh0~NanIgm,~O,P
E,bLbMcL~QUOTfIdT~SdZ,f&bK~!bD ABc*~,GLOBE cFW*~-fkgW~;6hw~STUCK c)a4NGU~a5ajh3~hQe2~fVeAe2~h
X^~fm^ d<~ZE,Ig$I,KA,~,VE,GHEa<,bUZHE~g7!axB~dqgh!~^ h)ck~eVgh!~bj-9.F;7dC-REcc~,hF ^a4~aKGb[an
Igm ~,TAU,gL,PHIcm~aqbfi*~^gyUdd ~hBejeg~NU,XI,g?aH,RHO~-$ ^gy~dp:,?~hN^!~/1i@~GNIFY*eS TILT%~f#
D,?~f#M,?~f#Q,?~&:,?~fGL,?~hvhC~TH:,dI,KAPPAaAMDA,MU~c]d,:,hF:;6E~czdA e]h6~HasfCYERU,dsfC~aYiS~g:i
N~BbO,eQa<LTA,g3,ZbO,~e8,h?,f0,h$~!e8,iG~!b*VE,iG~EMOJIa,DIFIbKFITZPAcWCK TYPE  ~!e8iO~!b*VEiO~!e?i
O~+gp!hy~!g,fGN,?~i,fGP,?~,c4,ei,dI!h%,gL~!h?,iM~h[Qe8,h?,h$~h[Se8,h?,h$"

/-- A table without its line breaks, which mean nothing. -/
def unbroken (table : String) : List Char :=
  table.toList.filter (· != '\n')

/-- What a sign stands for. -/
def expandSign (sign : Char) : List Char :=
  ((signPhrases.lookup sign).map String.toList).getD [sign]

/-- The place of a phrase among those that two signs stand for. -/
def pairIndex (letter sign : Char) : Nat :=
  secondSigns.length * (letter.toNat - 97) + secondSigns.idxOf sign

/-- A text with phrases in the places of their signs. -/
def expandWith (phrases : Array (List Char)) : List Char → List Char
  | [] => []
  | [sign] => expandSign sign
  | a :: b :: rest =>
    if a.isLower then phrases.getD (pairIndex a b) [] ++ expandWith phrases rest
    else expandSign a ++ expandWith phrases (b :: rest)

/-- The phrases that two signs stand for, written out. -/
def writtenPhrases : Array (List Char) :=
  (splitOn '~' (unbroken pairPhrases)).foldl
    (fun phrases text => phrases.push (expandWith phrases text)) #[]

/-- The full text of a shortened table. -/
def expandPhrases (table : String) : List Char :=
  expandWith writtenPhrases (unbroken table)

end SiteAtlas.Text

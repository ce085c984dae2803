import SiteAtlas.Text.CodePoint

/-!
# Emoji names

Names of emoji, each with its code points, and the emoji that are named as their characters are.
-/

namespace SiteAtlas.Text

/-- Emoji named as their characters. -/
def charEmojiRanges : List (Nat × Nat) :=
  rangesOf
    ["cdH1<1bC1_21D1e@2<1_71^J1P353fS2^S424<1222171122131328261115<D1F1B3121112C2;25221521112D25614",
     "217126411111613161:2?1214111D1^53H1>1pG2^7141y:1<1_xc8JbT71531892I181>15191@1:13111<22132C141",
     "73O161923145112212212162D1J;@2<1=18181A1231121314411113151L231118131712712224111111<1181415?6",
     "P228<1242142=221829153<38321114161316412114411151412362:1921173322^552B1=2364122;5641:6311261",
     "16i2A3511869214431<121B119G2?26324>16661A1112182513_H44352>6"]

/-- Code points of those among them that also come in skin tones. -/
def tonedCharRanges : List (Nat × Nat) :=
  rangesOf ["dn64_zgD141_R2R44111533181T1aO1aR1m:5C6`G418"]

/-- Further emoji of one character; a semicolon for skin tones. -/
def symbolEmojiNames : String :=
  "/4Pa:PY$a_REGIdvED/68Ea6NGBaq/D,hV/61,TM,cVDEe2/N,fXe;/2J,dMiFc]d,aO-d, iCdMaO-(iC$aOiFec $e4i
Fec dMe4-(^/Gg#^gvdMgy$ dD,(^gv$/A9h8 D>/50,EJbHgOQe5-g5fqe5 g5/1e5 REf6gNREe*gy+U
Pe5 c]gz^ +d,e5f@gzfK$ h6iaNEXTi3fK(h6iaLaui3fK$ h6gp!+hydaa0a1cagO4h8 Fbj*cADh8 dVD>a_PAcah3dwh3R
Eb<DgO5K,fOD M,M/6Sfvg5,dagOAfvczWasaKf6gO1Pg(f_-&h7fKf_-& fh/2cocoNY/E,ene7enabCbxEE/8;e]h6c^fdU
Pa_eqACe&crIOHAZas/M,ePhURELAXED,dqh&L,evIO/G,b3SSa1WNcwPADEfDSPAb@a]CLUBfDCLUBdmeWfDeWdlg0fDg0dmHOT
SdeGS/JaKd)EaKd)*fja]INFINb_aXhJ/MaEDe[fjcrALcy SCALEaaFLEUR  DE  LISa^WARNfYdC cdTak,ZAPadf<h4fKfO/
Ig%acd^LYa3NNYa]eC!ebNbZ)df/17,d?aZb%T/4gYBc&C*d#a^FUELPc[a_SCISSORSa]fmeAe2a^EbldLd5aXdAaXVa]c0CI
L2/10,eJ-cIK%g^aXeJ-gB du/O,XaZeFe2gO5,gn,huaXGREY gng(huaXGREY hQg(i4aZhQ,i4,fVi4/ChohQaXfUR%eW/1
Pfv$g#^/U,dR/ADfvdB*c^$ ^gvUPgydB*d,g#^gvd,/CWfvdM,(^gyc^c]g]^e0e4 ^/21,dua_O/1FMa:NbQTULe;Sh9b:bQTU
Le;SgO2h9SEb=TgNSEb=T/2FZFaDHJc$aDHJc$ R%fS/5N,fKJOKbLJOKER/4H,Acr/D,O2cvgNc,dJ/F,ABa]CL,CLh3COOLa:O
Lh3Fc9,Fc9h3ID,IDh3bu,buh3NG,NGh3OK,OKh3SOS,SOSh3Ud[VS,VSgO24i@AiIBiICiIDiIEiIFiIGiIHiIIiIJiIKiILiI
MiINiIOiIPiIQiIRiISiITiIUiIViIWiIXiIYiIZ/2h9HEREgNKOKOhaSERVdFb2RGEgNSA/Oh9hSRGEgu7121/Lh9c;ERVE
Dgu6307/3h9PROHIazEDgu7981haVAb.CYgu7A7Ahad_*bQDEgu5408habvVAb.CYgu6E80hadVhSRGEgu6709habtTHLY AMc&
Tgu6708haAPh0gu7533habBCc&Tgu5272haejd9b+IdUgu55B6/M,bTObQPH ADVarakh9axGalh3ACCEPTh9ACCEPTAb#gO51,
Cb_a3NcCcsb_a3Nc?EcocCa]OCEANa]eH AFc<Ai.d0PE-AFc<AaXeH e:CASi.e:CAdleH ASIAi.ASIA-AUdxLIAaZbuh5
X*gbgQhsgQMdYWAX*g6gQd=h5N*g6gQheh5N*gbe3aZbuhlhshlhehld=e3e1aZdu2aXduS/4cofp &f?fHfp f[eCf
Hfp dff?a^cUNADOaZe*e1/Ha:RN,bFckb<NcwHEAFckc<Ea_LEAVESa]EGGc2NTacAPc3abPIZZAa_gECUc@a;c@ gEc8ENa]FR
IEdlSWEEgJOa_d4e.,d4e.!SWIRdLbSeE/Aa9Kd.BbJOcwTEWaXEGGaZTEAcwamaZCbwe#aZBEeLBEERSaad>,WRAPP%d>crIRTH
DAe,Jaj O g9aZcATA;cATA b7Udmf%LeMTADAa^BAMb&ctOLLdld6dmRdFSCENd.euL czPajcuORTAR e>/G,hREa^dBendlA
RdzcTHATa]b7dda]b?TaZ8e<POOL 8 d#a_gldWS,dWSabdk*ewaXcMNIdlcG,cGdlBASbcd#aXeAER%d6h;dkdHdkhtSURFb
Za^d8d#h;dyMhtLIFT*WeJSh:d?fYeed)EaZCfg GaoaZFIELD eXe,dFeXe,P*Pc$aXdr-b0P%gja^eZdmDERELICT eZaaeZa
ZbxbSaXdba.FbSa^ATM,ATM dnabg9e6el g9aZCauLEa]fmd6aXfKd6a^BADbsc
Sa]i[1  2fyhii[3,g=eb hii[4,g=hii[5,g=b?K hib?K cGN T>,i[6aZef2a]COW2aXTIGER2aZRABaz2csAT2a]WHAL
E2a]c6EeYa]EWEa^bC2cvIG2a^cDLLa]BEd.BEEcRabHAcK%b4CKaaCaoL,|-Hc[a%MeKFLIddaXefcsOWaXTIGeLRABazcsATaZ
WHAeaeYaZbCcvIGaXFROGaXHAMdvaXWOLFcrbFa]FEETaaLIPSa[iSc^fdc]2iUd,,fdd,iUdM,fddMiU$,fd$aXd2PUNC
H;h,d5,PUNCHaXe);WAVgiaYOK dAaYf.S c^f.SUd[-1,  1;f.Se0,f.Sd,csLAP;b7PPgiSaYejdASa]eSEdmew,TewacCLUc
Ka#GcwHOd.dk*cFd.dC HEeKcADAdLb&TadCOUc3a]b;ctcyRS,PEOc3!BUNNY bFSa[b$ND-d@%fcaYbm!b4NESEa%Ph:WbF*cY
BANaYdXbmaYdXf>a^OGRd.GOBLINaZhOENaXf$a(VADeLaqRYhLdESh;TIPPgiaYGUasaYf> DANCfZNAILcid.bnSakgYGbP*bn
Sakh:GbP*d@CUdzaxBERa]dKa]GEMcsOUc3dKa^eWBbGa^eWPULSd.CUPIDa_d> eWa]g0!A bDcrULBfyBULBaXaqeMZZZcrOO
Ma:LLIdoaXf+ bEc3TS,f+ bEPdmd+,d+*AceaXHANbdaIOP,cEdzMUSCeaDIZZYa^100,HUNDR%epdlM>YBAGa^YbIYENgtaXeG
R,eGRgtaXd0,d0gtcvdZ,PdZgtaZe@,hbS*f=YENaZeDe$LAPe(eDTeMeDcNa&SKaZCD,OPTe[bBKaaDawcsg)aZhbSfYe@ DEb=
ASbZ/Da8OKabc0CILa]FAXcwawLbid.LOUDf&eLMEGAaEGAena^E-blL,E a*ILaZgf!g]g; b8SeIg;aXg;!bldLg;!bvblLa^
IencsALdOhq!^a^arENNAchS,dnanSTc:GTHa^TVaZVHSa^SHUFFbfcVCKSh3ff,ffh3ff >,ff gGgz^S h#,h# h2^dl^
S Cc&cNh#a:UNcNh# ^Sh3DIMgNbj B$dUcr$gNdC B$dUcuUcLMUT%f&eLf&bKbj f8d.i+g=f8d.LOUD i+dC f8Ea]MAGaDi
JdMcuAG $aDiJ$aXdQ%f=c0aXdQ%f=bdaZdQeIUNdQ,UNdQEDaZBELL!SLataGa$LLaZdPaZcz,cz g]END,END g]ONcwdYS
Obzg]cT,e(g]bv> f5 eJEbIf5akaXbdb0 10,cMaXgaABCDhpUddCASd.ABCDhpecCASd.1234fxfaS/1fxfjS,fjdlAB
Chpf^dmFLateba^KIcKEN e_,e_aXGUNa^bDT%SIX-gB du,SIXgwducrEGINNeLcWDbJa]REDh4d$fsa_hhgwc^& hha
Xhhgwd,,& hhe0gyc]&,grgz^f@&e4f9gOC,OMctc*a^boORAHaZeB1gW2gW3gW4gW5gW6gW7gW8gW9gW10gW11gW12g
W1ae>i02ae|i03aef,i04aed;i05aeFbai06aeSIXi07aeSEVENi08aeeJi09aeNbYi010aecMi011aeELEVENi012aeTWELV
E-fk/D;g<SUITa)Vb^TbZaYDETbHba/L,c0aXFg@ c0cvalTBRcbcsRAYON/3;dA!fTS SdaED/5;g>fTaYVULb. SALUTE/R,e
DcN ef/B,Fc8%PICcYE/M,gIdWPAd*gICg)adb7MPaZdi% c]h+a]DAGGeMf&*dB/R,JAc+aDPckJAc+cuOAIaXeVfYBEA
Mgh!hj,Gc>aXJOe,i=BIG d1,dqEe,i=hj,dqd.i=f+,f+ dqd.eV*dtNTghaAUGHdHSATISFIeIINNOCbJcwbr*IMd[e+crLcba
XeNSAVOR*d7,YUMaXfeeIeW d1,i;eW-d1fHeSEdlSMIRKaZEhzaXUNAMcad*d,CauhLf+,f+cvENSbacsONFcad*b:FdZeIdKf
YeNb$W*A dK,dK*eWaXdK*hjaXdK*g.d1aXhBgKi2d.i2E e+*EYE,e+gh!cSGUd.dtNTgh!gKi2E g.d1ctISg*eIcfRIeIaq
Re,RakcsRe,c1SEccd.hBf) d< ehcWc[HctISg*%feEDaMD b, fehAePfYaqUb]eIFbFFUdLWbFe,ezYaZGc=ACfYSOBaXejgk
HcbeIANXIc(hLf+,CdXf+cweEaXauONb]eIFLcbeIezfZbvgkbnKcwbrEfrJOYfreVg8fAdqEYfreW d1a%T,dqg8hLeW-d1cwMI
RKfrdKg8,dKg8gPdcg8aZSeEa%Ta]Uc4DE f@d2aZbvGOODgYeRR*NOaXOK f>gYeRR*OKcrOWgYBOWfYSEEfudLHbFfudLf&fu
Lh:hg,hgaXhWS;hgSh;dcbZaYFby%dAS,PRAY/1F,hEaZfNf3 SbTaXfN f3,fNf3 FRONdzf32a_f3a^b+dwacb1e6b1a
Zd$ci,f( UTIbiY VEHICeaTRUCK/9gYROW*b%TaZhxaZhccvOLdFb1 ebaLTAT*ebaXhI d6aZPROHIazeICIGARbPE,SMOKf
YbvSMOKfYhDBINfCPUT hDITS eoctO dVbie$bvbicNfYPOhYaXNON-POhYaGN a2hYcrIKEh;BIKhtgj BIKhtWALdJaPLd
Ja]bodlWOboSa^WCh;TAK*ayH/CgYINa$Da_dw dncwHc%*b1T/Q,gZ ARRIVALacKICK SCOOcN/6K,fbh4fnh4eUfs/1fzh4d%
Nh4REDh7d$h7fbh7fnh7eUh7PURc3h7d%N fh/85,ZIdd  eggPM>Y  ege1a^hBdB fod.ROBOT/8;eF%fTSaYdS-YOU eRRd.C
OWBOY HATe1/6gYd2d]fZhBgDEYEd%aXdu-STRUCKaXZANYgPSHcbhUhBfjSclgkhBdAfBgkeNVOMITfYEXPLOD*dB/7;MRS. b7
USh:SHRcZhtb1Tf;htJcZLfYgAFENCfZPEOc3 Wc;TLhtda*f:a2LOh:dagid#a]DRUMaa1SThMdL2NDhMdL3RDhMLa^LAeFE/G,
KIWI FRUIT/J,i;3 eWSa]d^YhUWOOZYgPHOTgPCdXd2a^c3ADh&O,GIRAFFd.ZEb)/Te6d@aXfQd@crALd*fmd@/FaMLTabMawa
XbSa]gAcJNDfYgAKNEEdO/7;f>!dBSb1F/Ie6gfaZJIGSAWa]DNAadTHdgaXYARNaaSOAP"

/-- What a man or a woman can be, with what such a person is shown with. -/
def roleLines : List String :=
  ["artist~3a8 astronaut~680 cook~373 factory_worker~3ed farmer~33e firefighter~692",
   "health_worker~2695-fe0f in_manual_wheelchair=9bd in_motorized_wheelchair=9bc judge~2696-fe0f",
   "mechanic~527 office_worker~4bc pilot~2708-fe0f scientist~52c singer~3a4 student~393",
   "teacher~3eb technologist~4bb with_probing_cane=9af"]

/-- What a man or a woman can do, with who does so. -/
def actionLines : List String :=
  ["biking~6b4 bouncing_ball~26f9-fe0f bowing~647 cartwheeling~938 climbing~9d7",
   "construction_worker~477 detective~575-fe0f elf~9dd facepalming~926 fairy~9da frowning~64d",
   "genie=9de gesturing_no~645 gesturing_ok~646 getting_haircut~487 getting_massage~486",
   "golfing~3cc-fe0f guard~482 in_lotus_position~9d8 in_steamy_room~9d6 juggling~939",
   "lifting_weights~3cb-fe0f mage~9d9 mountain_biking~6b5 playing_handball~93e",
   "playing_water_polo~93d police_officer~46e pouting~64e raising_hand~64b rowing_boat~6a3",
   "running~3c3 shrugging~937 surfing~3c4 swimming~3ca tipping_hand~481 vampire~9db walking~6b6",
   "wearing_turban~473 zombie=9df"]

/-- The entries of the other names, a line of them at a time. -/
def emojiLines : List String :=
  ["+1=44d a_button_(blood_type)=170 ab_button_(blood_type)=18e afghanistan^AF albania^AL",
   "algeria^DZ american_samoa^AS andorra^AD angola^AO anguilla^AI antarctica^AQ",
   "antigua_&_barbuda^AG argentina^AR armenia^AM aruba^AW ascension_island^AC australia^AU",
   "austria^AT azerbaijan^AZ b_button_(blood_type)=171 bahamas^BS bahrain^BH",
   "bald_man=468-200d-9b2 bald_woman=469-200d-9b2 bangladesh^BD barbados^BB belarus^BY belgium^BE",
   "belize^BZ benin^BJ bermuda^BM bhutan^BT blond-haired_man~471-200d-2642-fe0f",
   "blond-haired_woman~471-200d-2640-fe0f bolivia^BO bosnia_&_herzegovina^BA botswana^BW",
   "bouvet_island^BV brazil^BR british_indian_ocean_territory^IO british_virgin_islands^VG",
   "brunei^BN bulgaria^BG burkina_faso^BF burundi^BI cambodia^KH cameroon^CM canada^CA",
   "canary_islands^IC cape_verde^CV caribbean_netherlands^BQ cayman_islands^KY",
   "central_african_republic^CF ceuta_&_melilla^EA chad^TD chile^CL china^CN christmas_island^CX",
   "clipperton_island^CP cocos_(keeling)_islands=CC colombia^CO comoros^KM congo_-_brazzaville=CG",
   "congo_-_kinshasa=CD cook_islands^CK costa_rica^CR",
   "couple_with_heart_man_man=468-200d-2764-fe0f-200d-468",
   "couple_with_heart_woman_man=469-200d-2764-fe0f-200d-468",
   "couple_with_heart_woman_woman=469-200d-2764-fe0f-200d-469 croatia^HR cuba^CU curaçao^CW",
   "curly-haired_man=468-200d-9b1 curly-haired_woman=469-200d-9b1 cyprus^CY czechia=CZ",
   "côte_d’ivoire^CI denmark^DK diego_garcia^DG djibouti^DJ dominica^DM dominican_republic^DO",
   "ecuador^EC egypt^EG eight=38-fe0f-20e3 eight_o’clock=557 el_salvador^SV eleven_o’clock=55a",
   "england=3f4-e0067-e0062-e0065-e006e-e0067-e007f equatorial_guinea^GQ eritrea^ER estonia^EE",
   "ethiopia^ET european_union^EU eye_in_speech_bubble=441-fe0f-200d-5e8-fe0f falkland_islands^FK",
   "faroe_islands^FO fiji^FJ finland^FI five=35-fe0f-20e3 five_o’clock=554",
   "flag_for_cocos__islands=CC flag_for_congo____brazzaville=CG flag_for_congo____kinshasa=CD",
   "flag_for_czech_republic=CZ flag_for_guinea__bissau=GW flag_for_hong_kong=HK flag_for_japan=JP",
   "flag_for_macau=MO flag_for_myanmar=MM flag_for_timor__leste=TL flag_for_turkey=TR",
   "four=34-fe0f-20e3 four_o’clock=553 france^FR french_guiana^GF french_polynesia^PF",
   "french_southern_territories^TF gabon^GA gambia^GM georgia^GE germany^DE ghana^GH gibraltar^GI",
   "greece^GR greenland^GL grenada^GD guadeloupe^GP guam^GU guatemala^GT guernsey^GG guinea^GN",
   "guinea-bissau=GW guyana^GY haiti^HT heard_&_mcdonald_islands^HM honduras^HN",
   "hong_kong_sar_china=HK hungary^HU iceland^IS india^IN indonesia^ID iran^IR iraq^IQ ireland^IE",
   "isle_of_man^IM israel^IL italy^IT jamaica^JM jersey^JE jordan^JO kazakhstan^KZ kenya^KE",
   "keycap_#=23-fe0f-20e3 keycap_*=2a-fe0f-20e3 keycap_0=30-fe0f-20e3 keycap_1=31-fe0f-20e3",
   "keycap_2=32-fe0f-20e3 keycap_3=33-fe0f-20e3 keycap_4=34-fe0f-20e3 keycap_5=35-fe0f-20e3",
   "keycap_6=36-fe0f-20e3 keycap_7=37-fe0f-20e3 keycap_8=38-fe0f-20e3 keycap_9=39-fe0f-20e3",
   "keycap_asterisk=2a-20e3 keycap_digit_eight=38-20e3 keycap_digit_five=35-20e3",
   "keycap_digit_four=34-20e3 keycap_digit_nine=39-20e3 keycap_digit_one=31-20e3",
   "keycap_digit_seven=37-20e3 keycap_digit_six=36-20e3 keycap_digit_three=33-20e3",
   "keycap_digit_two=32-20e3 keycap_digit_zero=30-20e3 keycap_number_sign=23-20e3 kiribati^KI",
   "kiss_man_man=468-200d-2764-fe0f-200d-48b-200d-468",
   "kiss_woman_man=469-200d-2764-fe0f-200d-48b-200d-468",
   "kiss_woman_woman=469-200d-2764-fe0f-200d-48b-200d-469 kosovo^XK kuwait^KW kyrgyzstan^KG",
   "laos^LA latvia^LV lebanon^LB lesotho^LS liberia^LR libya^LY liechtenstein^LI lithuania^LT",
   "luxembourg^LU macau_sar_china=MO macedonia^MK madagascar^MG malawi^MW malaysia^MY maldives^MV",
   "mali^ML malta^MT man’s_shoe=45e marshall_islands^MH martinique^MQ mauritania^MR mauritius^MU",
   "mayotte^YT men_with_bunny_ears=46f-200d-2642-fe0f men_wrestling=93c-200d-2642-fe0f",
   "men’s_room=6b9 mermaid~9dc-200d-2640-fe0f merman~9dc-200d-2642-fe0f mexico^MX micronesia^FM",
   "moldova^MD monaco^MC mongolia^MN montenegro^ME montserrat^MS morocco^MA mozambique^MZ",
   "myanmar_(burma)=MM namibia^NA nauru^NR nepal^NP netherlands^NL new_caledonia^NC",
   "new_zealand^NZ nicaragua^NI niger^NE nigeria^NG nine=39-fe0f-20e3 nine_o’clock=558 niue^NU",
   "norfolk_island^NF north_korea^KP northern_mariana_islands^MP norway^NO",
   "o_button_(blood_type)=17e oman^OM on!_arrow=51b one=31-fe0f-20e3 one_o’clock=550 pakistan^PK",
   "palau^PW palestinian_territories^PS panama^PA papua_new_guinea^PG paraguay^PY",
   "people_holding_hands=9d1-200d-91d-200d-9d1 peru^PE philippines^PH",
   "pirate_flag=3f4-200d-2620-fe0f pitcairn_islands^PN poland^PL portugal^PT puerto_rico^PR",
   "qatar^QA rainbow_flag=3f3-fe0f-200d-308 red-haired_man=468-200d-9b0",
   "red-haired_woman=469-200d-9b0 rescue_worker’s_helmet=26d1 romania^RO russia^RU rwanda^RW",
   "réunion^RE samoa^WS san_marino^SM saudi_arabia^SA",
   "scotland=3f4-e0067-e0062-e0073-e0063-e0074-e007f senegal^SN serbia^RS",
   "service_dog=415-200d-9ba seven=37-fe0f-20e3 seven_o’clock=556 seychelles^SC sierra_leone^SL",
   "singapore^SG sint_maarten^SX six=36-fe0f-20e3 six_o’clock=555 slovakia^SK slovenia^SI",
   "solomon_islands^SB somalia^SO south_africa^ZA south_georgia_&_south_sandwich_islands^GS",
   "south_korea^KR south_sudan^SS spain^ES sri_lanka^LK st._barthélemy^BL st._helena^SH",
   "st._kitts_&_nevis^KN st._lucia^LC st._martin^MF st._pierre_&_miquelon^PM",
   "st._vincent_&_grenadines^VC sudan^SD suriname^SR svalbard_&_jan_mayen^SJ swaziland^SZ",
   "sweden^SE switzerland^CH syria^SY são_tomé_&_príncipe^ST taiwan^TW tajikistan^TJ tanzania^TZ",
   "ten_o’clock=559 thailand^TH three=33-fe0f-20e3 three_o’clock=552 timor-leste=TL togo^TG",
   "tokelau^TK tonga^TO trinidad_&_tobago^TT tristan_da_cunha^TA tunisia^TN turkmenistan^TM",
   "turks_&_caicos_islands^TC tuvalu^TV twelve_o’clock=55b two=32-fe0f-20e3 two_o’clock=551",
   "u.s._outlying_islands^UM u.s._virgin_islands^VI uganda^UG ukraine^UA united_arab_emirates^AE",
   "united_kingdom^GB united_nations=UN united_states^US up!_button=199 uruguay^UY uzbekistan^UZ",
   "vanuatu^VU vatican_city^VA venezuela^VE vietnam^VN",
   "wales=3f4-e0067-e0062-e0077-e006c-e0073-e007f wallis_&_futuna^WF western_sahara^EH",
   "white-haired_man=468-200d-9b3 white-haired_woman=469-200d-9b3 woman’s_boot=462",
   "woman’s_clothes=45a woman’s_hat=452 woman’s_sandal=461",
   "women_with_bunny_ears=46f-200d-2640-fe0f women_wrestling=93c-200d-2640-fe0f women’s_room=6ba",
   "yemen^YE zambia^ZM zero=30-fe0f-20e3 zimbabwe^ZW åland_islands^AX"]

end SiteAtlas.Text

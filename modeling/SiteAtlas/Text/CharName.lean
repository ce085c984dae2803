import SiteAtlas.Text.CharName.Table

/-!
# Characters by name

A character is found by its name, in any case: Latin, Greek and Cyrillic letters, common signs and
emoji.
-/

namespace SiteAtlas.Text

/-- The table of names. -/
def charNames : String :=
  "/W,f$,i4,QUOTaTfafCeG@c1CbJ<apERcAD,h<,(c,bJHESISfFD,g^,h1a:MbkfW-bsc_d= dw,gH,DIGIT ZER
O;6>,|,f,,d;,Fba,SIX,SEVbIeJ,NbYahOLc#SEMI<LESS-THANfCEQUALS:,GRbGER-THAN:,hua:MbpC
Ianavf]?cx,(fh g+aKf6 gHg#fh g+,h?gMbj dN,eTgMf]hwcx,(fQg+,h2dNg#fQg+,f0/XaGh_,h(i4,CbJfCPdZ:,gc:,YE
N:,fMch,SbHb[fCh$a:PY$fCFEbsbYa0DIi(i$+iBaGTfCds fWaKGIdv%dn,g:DEGc9fCPLUS-bsUS:,hk|;DHc9;0e8gMedfCP
ILb>W:,g>bD,g,,hk>aDSCUdNa0DIi($-ep*+iB,VULGAR Fc6f1> gC;KHALF;Gf, gCS;0h(hu,f]?Ah[SiX,hG;ME;LC!g,,
Eig;LIig;bhH,Nh^Oh[SiX;0i&fCf]?OhnLUig;LY!e8,TdEi1[RP S;JAh[QiX,hG;KE;JC!g,,Eif;JIif;JETH,Nh^Oh[Qi
X;0gdfCf]hwOhnJUif;JY!e8,TdE,Y!h$;6?A!g:iLAi^Ah],iNCiYCieCicCi_D.BiODhmiNE!iVEiZEicEh],iLEi_GieGi^
GicGibHieHhmiLI!f0iOI!iVIiZIh],iNIi,,hwbDLESS I,gah*IJ,iKJieK!g,fGN;KRA;6?Li]LibLi_L!g>bD,iMLhmiLNi]
NibN!e?fGL;LPRECED%BY h<;6?ENGgV?O!g:iLOi^O!+e8fGS,gah*OE,iKRi]RibRi_SiYSieSibSi_TibTi_ThmiNUh^iGU!i
VUiZU!hG,iMU!+e8fGS,?Uh],iLWieY.G,iMY!h$;LZ!e8;6f#L,?ZicZ!e?fGL;JLc$ S/DSgX?HbO;6iKg[SapIfGM,NUbpALf
CecaV?PapHYLbRa&eQfGRaZYPOGEbQMboI,& go hfgSCg1go.R;6hu,?YOTa^f2,h%@?e9 WITH:,AbvTELEIA,?g3!f2;MTA.
B;LIO.d*g?.BaXUc4LaVei.Bi1dI!hr@?e9;LiW_iQ,iEaXeyiAid.Fi1e9!f2;Jg3aUbO:,IOaVgL!hr@e9,iW_iQ,iE,FI
Naney,.5iAidaWg?!f2aOSILaVei.B;6gaKAIgRBbOaQTHaTgL!dD.7;Je8 AND.C,h$.G;6PHIaQPI:,KAI:gUg[Kc%A,&.LgUS
TIGbk&.EgUDIeQ,& :gUKc%A,&.DgUSapI,&agb;cQ ?cDI;7iGFEIgV?KHEI,iNHORI,iNGaqIAfGF,?cEbkf#E,?DEIfGCgXKA
PPAgS6RHOaQhf:gUYOT,gacOTAgRLUNaw g3:,go.M,?cFgVgahfgSFbPbKcA;6dp:,RHO!figRgago hf.7;Eg1go.RahYRbVI
C ?IEh[PO;ODbbGbbhZE,DZE,BYELORUSSbR-hZ,YI,bbLbbNbbTcD,KbbI!eTg$U,DZHE,Aa7i9,i8EL#92,i)U,EFgTb3,[;
Qb2;OiTg2;9hwA;MBEi9,i8EL#92,i)U,EFgTb3,[;Ob2;MiTg2,IE!eT,IO,DbbGbbhZE,DZE,BYELORUSSbR-hZ,YI,bbLbb
NbbTcD,KbbI!eTg$U,DZHE/5GW;0fWaGN-b*AK*@FIGURE d+,EN<EM:,hTax,+h2dN;7bjag(gGi*fFN,gGi>SED.H;0(fRaWet
N,+i>SED.H;1AGGbLOUb# .affN,hI :,> bDa)ADbL|aUhTELLIc4S,fWfIep,dN SEc,AcU,c,AbQPHaTi%EMBEDDdH$-TO-d
M:aIPa&RbHb[and:ATT_i%c*RRbT,$-TO-LEFaTN^ NOh_,c1 brbfdn;4cM cPUcAD.5;1c=E;0+:,cWPaRgo.6;9fR:,cW
Pcqb1bNgGi$iB;7etV;0REFEc:CE<+hQ:,hV,c*RdN,f5TbUb2c6cN _b1ETa(SERf1ep,auEc?M,fW fN,Fc6f1SLata^h
Q hu/2E,d0-gcfCCOLON<CRUZEIRO:,Fer FRANC:aCRaibrL:,NAIRaiPEcCaigFWON:,bu cDQEL:,Dc$:,d0:,KIP:,TUGRI
K:,Dc6HMaiGERbm c0NcgPESO:,GUARANI:,AUdxL:,HRYVNIaiCEDI:aCVREa4URNOIS:,cHdqO:,cMGE:,bXbR gFcYKb] LI
RaiNORDICe2:cnAT:,RUb#:aARI:,azCOIN:/3D,fXfISOURCE/2EhN^aOaUhv($@iRAcqSOU.D;6WEcqhC^hmetOhNe) ^fFHh
N| dBED@UP.M,iP^!e#,dh:hN^ d<chaO.K,hvUPf@^!BASEiHdDfFMiHdR,dh:,($ e) ^;B^hn0h@ZIGZAG ^,gr^!TIP h);
Netafh@^!TIPa)F:;Pdhagi6!fPe0<h@^!fP dM:,i#e(SEMIfO ^,.Ui? Lc$chhN^a4chfBi6a4]i#ejfO ^,.RhNi: UPf9;
Sd,.5;0gri: $:;QdMaghXi: UP:;Td,agh@i: $:;SdMagi6fBhC^,gri<d,aUhC^fB$:;APAIR%^S;0UP.J,iPg7fBhXg7,h
Xg7fBLEF.EhN+^hn4 $.P;0$f9:hN+hPhv($aViRA.F;0SOU.K;6WE.F;0hCcWPaRetJhNdtGGaRetL,gr^!+fie4.UhNd+%hPi
P^a4ch,$:hNfm^aO.H,hvgri7ch;KbzemTAL;V!hTax;ZH fl.6;E+^;QclemTAL;0hXi7 WALLi? fP,Sc)H EA.Ia
Of@fm^g#^!&fs,h@i<gr^,f, i6SiHh2fifFX,($.R;4f9 ^!fR.G;0$Was.Z,($.Y;4f9 Oc0-dB%^;0etO,($.I/7UaPcKh8/
C,bde>/2N,HELM fj/1Y,EJbH.7/W,ALARM eB,dwWAcK,TIbp eBa_+hyfKfh d9dw;6fO d9REb<D/BZ,& fh;0f<.
D/27;6f_cpe=.Eg(g=&aQe=.KaZeC,gq,drbma:bq/C,h=!eAaZgq!df bEPSa@Ta$ccakaZ[MRbwabSKULL)eFB>dleqACe&fCB
IOHAZas.5aZORcPDOX hd)gba]c.CEgRYIN Yaqacf;ckDHARMA;2ITE ePh&afFEMAbfdnaX.9a_AesTAURc_GEbsI,CcyRaBO,
VIRGOaCb),evIc_SAGITTAR_b0c<ORN,AQUARIc_PISCES/Ka@T SdeGS/M,hJ fj/Ifw)PIb6ANb5R,eF%ScfDdlSCALbMALEMB
ICaXGbFaXATOMgRFLEUR-DE-LIS/Ja:FFbWFUNERanURN/Bg% e<BASEB:a_drbm gsdrcofpf?aZTHf5f?)dfa_OPHIUCHc_PIC
KaXHELbq!fmeFcsHalSgx/K,cENTO SHc>E,CHURCHa_gj,gqclGRdZ,Fg@,d6cjHObgFEc@aMILb%dzcGbLdFSKaw,fc!e<cMTa
ZFUEL Pc[abfmi5aZgZ,gf,gDd5;7dA;0VICcUY<WRITbZ:a^fKNIBaXi5aY6i& X/aff]hdckDAVIDaaf%LES/A,eJ cI
K%g^;6gB fKdu/F;0drFLamaZf%LEa^eFe2aXNEGAe& fhD .A/Khoi4a0NaoNT/1D;6h1,bsaQgd.5/O;0fQdR/E,+.A/NV,f
Kf[fh,f<.D/1F;6g=du/4;0fVf[fO/YIaPVY d+/C,d^ ALcNNfIdT/2GTKi@fj f^ cx/74,d)>a>GGY,g.gq,NdG!duScoc?Ef
BgjS;7ahb_Sb0E AT DUSKaXdfBOW,BRIbA AT NdGg&e),cdb.O,brKY cea]GLOBE!bpIDbRSacgbe3,bue3!d2,hsaWLA.
P,d=aWSUaUGbj*du,cFOTaRcORMObqeMfmSUN!&f?;ABEHbX.6;M!df;0.F;Bdr,ebNdHcUNADO;0FOG,e* b$Wgha@T bC,TAC
O,BURRITO,b3STNUT,SEEDdO,EcceUa5EEa<CIDUc(<d]:a9CTc_HOT PEdd,TULIP,b3c@ b$SSOMaLcBHIBISCUScoFec,b$SS
OMaXbFckc<E,HERB,d;a)AF b8ccaDc3a)AFa=LLEN:aBAF FLUTcN*IN e*,McbdjaNMATOaXbQPbMMELc#f::,TaqEc>Ea
Bbta6NANAaHNEAPc3e6:,eU :,c.R;3CHahHEResdxWBEc@a?MBURGeLMbGclB>aIULTRYa)G,RdFCc6KER;5d#ahOOK%gEf)*BO
WL,SPAGHbPI,Bdg,Fer FesROau%SWEEgJO,DaqO,ODbIScbI,FRI%SHc=d[ds dFeE,[V%bS,dFeE,DOUGHNUTa:OKbUb5CObe
Echa9NDY,LOLLIPOPa;duD,H>Ya2T,exCama7NTO b(aITckd7a:OdJa>RK)e_,TEACc]gsdAeaWbY eSa:CKe# :,cXPe[Dc>
Ka7bKMUG,CdP*BEbKMUGSfEfLa>RK)e_!c2cLfL!Pc%*b<KaIPb<N,RIBBONcrIRTHDAYe.,Jaj-O-g9,CHc?Tbna5Ed.d3cf
Kdld#dYd^Ya2dda:NFbPI e<TANAayAa5EE,eF%d6SaHNEhKh9DOLLSa9RP STREaoR,e* b4MEaFbzVIEW*CEREbtY,euL SAcK
EL,bQDUfIb0aZbrb^RYftREbsDbKRIBBONcwTUDIO edenaBVEL SLbTRa:NcXL KNOBdmFILM Fc8bMADMISdo cQbcSa9Rc(E
L eY,FERc? f;,dibKCOaubLhRE)d4,edenaFVIEa%bpA,CbYbkdBen,ARTISTa1bhcLe(Havd&US cMT,cQbc,b7dd e>,c1d:*
ARTS,f7 Gao,DIRbH HIT,SLOTa*b4Nd.Gaoa&Ea8WdO,Fec da*b1DS,gldWcwAXOen,GUb^R,glbde>,TRc[bNVIOLbWglSb<
E,dk*ew!Sata]b3c5R%d6,dre>bLdkbLSURFbLf(SftcXPHY,eY c6dHe:b. d8e<RUGBYaSdybp,WeJ LIFe$d?bLc6*eed)
E;7b1ahfga#T)e<cdLEY]FIELD eXY f*):,dFeXY f*)PUb6TAb# cMNISa1DDLE)e<dra%PP%gja9MPdHBEACH!gq,g_ hc,e
Z g_S,Cb_Sb0Ea<RELICT eZ g_,b7SSICALaSb@ERT;6 ISLAND;0Ne;anc,K,cJDIUMaXeZ!GasbIbxdFg_h9dba.FbS,d0c.
N.Ca@SPb^La6NKaXHOTEL,dS <b:VENIENCE ScUE,euLa<d^boT ScUEa=CcUY,IZAKAYA g9h9Caubgd0c.N.7aZWA
V*fmd6;7e=.5;0ROcCTd.LABELa6DbscS c6c5T)SHUTcRCbwa8W)^,apHORAa_RAdzOXg&BUFFALOaZLEOc,DaZfS,b>CODIeaS
NAIL;3KEaY0c8,GOavcDEPaFNbdaLOdvcmCKENaZb%R,ELEPHar,OCcTc_gIcDLL,BUG,ar,H>YBEEaADYa$EcR,d4,cXPe[]b$
W:,cYcRa?cK*b4b6BABY@FRONT-g4aTBIRD,c0GUbWKOALAaIODbgbEMEb?Ya%MeKDOLPHbWeffACOW<TIGER:aJBaz:a9T:,f
S:,Sdc*WHAbgeYfAbtbd:,bC:aHG:,FROG:a?Mdv:,WOLF:a7AR:,c+DaiPIG ehPAW deTScmPMUNK,d1;3;1AR;0ehegaNNGU
E/B,b>WN,f>S HavEYEggNECKTbUT-ew,JEANS,Dc;S,KIbtO,BIKINI,f>S b8cOS,PURcBdABAGaIUCHcnS cFE,ATHbhIC:,d
C-HEELED:aZd8deTS,b+TcjhH;4S.E;1OY;0GIRLcn,WO_FAbrYcn)f> HbygiS,|a+.F;4WO.H;0POLdFbxbSRcrRbT!VEI
L,fc!b$ND d@cn!GUA PIa*O;9cYBAN;0bybKbm;6WO.3;0BABY,hc cfKbLdeCESSh9OGRE;9GOBLIN;0GHOSTfEhOENa,Ndv,I
MP,SKULL,fXfIb@K fc,GUasSbm,DcyRaCPf*,NAILa2Lb]aXd@CUTa6RBbKPObgSYc>GEaHLL,dKe2,dS f^,RdHGEM ST>crO
Uc5Ta:Uc3!fUWEDDdHBbG*fUfM@| eWS,f%L*fUGROWaSeW!^,d$ fUeU@fn:fz:,eW!RIBBc#REcdV*eWS,eWhK,g0 [PE!A b
Da(SbTaXaqbKfja8MBa]bEc3dzPIbfOFa2O,FLEX%BbSPdlcHECH d#dYcPUGHTaRfmFeccu>Ya#G,gc EXb2NGE,fVeGRfCb=DI
TciDa^M>Y!WbZdlSbGcrRIEFCAcBbsIbBC,FLc%Ya&SKctVD,eOFbybLejaUPak!d(;5g4UPaY0TbF-bx Cg)a9RD e],e@!gr
Tc:D;Bd,agax e@,CLIPe>,PcbPbWRdZ aQh.,dxdG RULbLhI@b&KdT TABSaBbAR,dWb&K;8!DEb<Ae& Cc*R;0g.b&K,Oc0<G
REaQd$<fb:a8OKS,Naoa#bA,SCdiaEMOe7en RECEbaR,PakRa=Xa*b4NEaMTELbiE arENNAaZc)b(a5AY,INaRPajakaXI
Nb9*gfaXg.g;!ec%d6;Kc7ScpOc0.P;Ieccpdbb(;4andE;0h+hqaXVIb)f1MODEhqa.FaGa,h>dlCaoRA;6!FLat;0f7a%bpAe7
VIdo,eq,f7CAScCcLFILM PROJbHORcvRAYbKBEADS,TWIST%i6Sabf&eMaycNY,ELbHc< PLUGaZdQ!INK c0,g.dQ!bd,_dQcr
ELdLb&KdTaXeqgOC,d3aXWerfw,NUT)BOLTa@b5aHSTOL,edSb;Ee7<CRYcJL d#hafj d9BEGINNbLcWDbJ EMb#M,fKfhg
Nf<.d.f[d$fs;6fb g0,BLU.9;0& ek:;6BLU:/F;0OMgRDc*ckc.CE,KAABAaFSc5,SYNAGOGUEaENORAH!NbY b)Nb3S/Wa9N
DbgbmTELPIECE eBaZHObgg<b+IdUa3ITa)Vb^TdHSLEUTHa0 SPY,b?Ka3NggSPbTR;6 WEB;0JOYf*cn DANCbZ/C,d
P%h.dmec (d#fdc0;BFg@]PalTBRcb,CRAYONa[0hW!fTS SdaEDa^go dA!g>fT EXcMDED,hW!d^a$TWEEN g>AND R*fTS/
D,fKfUb@Ke(eDTeMde.3acf,fq ef,cVCKd#adFc8E!PICcYEa_b1D e]a&VbTRS;5eOb(;0eOCABbYT/CaPSTEBASbc,gIdWa1
D;7Cg) :/8ahOMPc;do,dXbd,diED-c]h+aZDAGGbKe_aXf&*dBcjhHa^(cHECH BUBb#aa$ aqER.7a]h=!d#OTaacfLDa*PaFU
NT FUJIaNKYOa4WbLcJTUEckLIBERTe,MOYAI,eVhUhBTbFSckJOYa^i;HALO;JORNS;0e+gh,i;hjaXfehAi;SUNeSES;3R
Kgh;0NEUcVL<Ehz:,UNAMcaD:cvENSba:a:NFcaD:;4dZcpdKbZ.5aYC!hj;Ib8SED:/3;0bBg*gecfRIaQaqRY<dce^CRYaRc1S
Ecc:aZeP*iD,aqUb]geFbFFUL<WbFcgezcgTIRED:,Gc=ACe^LOUDLY CRYaRiD,HcbhAeNSeE*IN FbF,auONb]geFLUS:,ezb
Z<DIZZcgeNgseg;9a+De[bnK;0eVg8hLhja9ThLTbFSckJOYa[EWRY dqEaY0dcg8fACRY.C,WbFYaSSebLY ePbZ.5;9dqcqUc4
DE-d,<hBdi*d1a]SEE-NO-EVILa,Nbd,HbFaWf&:aZgAePbZ;7f=dch&1D;0RbwbNHELIb;e$f) hEaJILceci,dC-cH%f3aZbqR
Ofyc7L,cJe%,cVM;4ci;0b+,h,_TdiEcgb+ dw,bsIb+,AMBULcy,d3 ENGbYaILdFb1,h,aTTAXI,h,]AUTOMOBIbgh,.ActE
LbaRYa5Ub6ARcQUbe%LOc@,cVCcUaFNOc7L;2UNTal c7Lce;0SUcHNSIOaSgja%b#_AERIancVM:,cEPaLWb%T,cHEDB:,h
Thx,fl.GaZhI d6cldb,DOORgx dnaafJEaG fJbMfJIST,gj .9aXbvemf4ScmLDc: eFfZc;TdjfEfjaNIbhg&b8cC,cFWbLay
H;4TUB;0PASf( b:cXLa;STOMSa6GGak b7IM,(LcZaka_COUCH)Lap,ez*ACb9MODe;,cFPP*BAGSa7LLHOPa$LL;2
D;0eockcfcEPa^HbXU TEMc3/Afw)Wer,cEELD,OIL DRUM,eeceaJILcea5aj,ee b%Ta]& gZaXgZ DEd^URE;9ARRIVb
Z/afd_ENGbKcEd[ee SCOOe$b.OE,SLED,FLY*SAUCbLSKawe>,AUTO c<K[W/EQg(fUd%N@PINCHgi,ZIdd-egfAM>YaUhBcORM
ObqbLNERDfATHINdJ<hBdB-BANDakaLBOTfAHcZe^dnckcO dESa9LLa+ dA,gDcza.:,dM-g4d5fFD,dA[KEa]b8WNfANAcaaw
D<di*bzcO FLOOR LAUGHdHbEOdOfALY.8cwNEEZ:acPREGNar f>,b*au-FEEDdHd]S c]TOGEcOR,SELFbUdeCE,g<TUXEDOad
DIV*bnK,WILT%FeccsdP*ggTUMb#R eS,cIc#GOanNETa^b(*GdSaDRTIanARTS UNId:,d(*ScSd.dse<FLY*bBC,b>IScAT,AV
OCADOa;CUMBbLBAb:aITATOa9RROTa6GUbPE Bdg,eU SALAD,[Lbja1Nckd7,STUFF%Fbeb*Ad*eSckbrK,c.NUTdlc+CamS,
Dc[dOa>RTUNE COOKbUTamc) b(,b5Pf*Sa8WL!cIc#CUP!dxWa:b:UT,BROCCOLIaHE,PRETZELa;TckMbGaMNDWICHa9NN%d7a
BAFY eUcnGOaFONe.a6GeKYAWNh&9aMRIaAB COavGOGGLbMHIK*b&T,Fbe cFE,CRABaCONfAevb[,cYbd,UNIb<NfAEAGbgD
Ub6ay,[RK,OWLa>XfAb,cNFLYa<bLGORbVAaCZas,RHINOCEROS,SHc=P,dtDaZHEbAHOGaMUROPOD,T-REX,Cfg,KaqAROO,LL
Abkc.Cbw,HIPPOPOTAMc_c,ROTaJCCdYLOBdvaFdtTO,edBEa6bAR,SWANaZSLOTH,OTe$ekUTAN,SKUNK,FLAbsGO,OYdva]GUb
T bC,PROB*b.Ea^B>aBG,d8aNOTH,SUc1HERO;5VbVal;1AFETY VEST;0bF!HbF*AID,eeIZ%hJcnUALaUMEb2Ne[ARM;b#GahH
EESE WEbAa;PCamcrEccak b(,GARLIC,ONb[a=LAFELaPFFbgb,cNaaDEAF fc,hBbtOCbgADULTcmLD,bybKADULTa7as%fca
Xfccjf)Y dj;7CLIMBdHIN LOTUSa2SIe%;0Maka=IRY,VapIREaERfc,ELF,GENbUZOMBbUb)bWfb fUBbV%b0,Sb1F,GdS
Sa:avSbwdld3Cc6KeLTEST TUBE,PEcWa&SHcsOMd_,ABACc_d3 EXTbZUb]bLTOOLb(,Bc<KaDGNbNLcZak,LOf1fLaZSAFET
Y PbWTEDDYa$AR,Bdja6Sbc,dickelcwPc$EaKCEIPT,NAZAR AMUbh/34a6Lbh cFbM>-PIECE dySUIT,BRIEFS,exSa^bE
Pckb$OD,ADHESbafoE,STEcPSb;Ea_YO-YO,KITE/E,c>G%c2NbNCd@aJZOR,AXE,DIYA Lapa6NJO"

/-- The code point of the character with a name. -/
def charNamed? (name : List Char) : Option Nat :=
  findInTable (name.map Char.toUpper) charNames

/-- What follows a fixed beginning. -/
def afterStart? (start : String) (cs : List Char) : Option (List Char) :=
  if start.toList.isPrefixOf cs then some (cs.drop start.length) else none

end SiteAtlas.Text

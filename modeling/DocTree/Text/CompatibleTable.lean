/-!
# Tables of compatible forms

How characters decompose and compose, after version 14 of the Unicode character database; Hangul
syllables follow a rule. The three tables, between which stands a `~`, have characters and their
full decompositions, characters and the two that compose them, and combining classes. Code points
are hexadecimal and left out where they follow the one before. After an entry, `+` or `*` and a
number say for how many characters it is: with `+` the last code point grows by one with each. A
class has the ends of a range, a comma, and decimal digits. All is a predicted text.
-/

namespace DocTree.Text

/-- The signs with which forms are listed. -/
def compatibleSigns : String := "0123456789ABCDEF ,;+*~"

/-- The number of characters of the tables. -/
def compatibleLength : Nat := 48712

/-- The code of the **compatible forms**. -/
def compatibleCode : String :=
  "v;ojvvqVbxt|Ys0Uto;yBM#g8EeTzkl;Z/)tSl=c/I*]/Dd:KdtmkD=0gtx;;hv?hlJhqS-$?v+HT|+k!=#zy7NivH=ssM%*8
9?4]blhLyt697oqPi9;#ZJ_Ap%ID4:EE=:f[mb.CF=7pq@yWq31qQWEbC9~8.TCyv7l$M?pfe(b_$2uv2!|#)qA?@dX7SCoqBLgx
khl/?Zb(JwmAK),!QSSRJrF*;%r_GmFuEn=yJ$0XvF:#90vj)gz~SHJIzjP6fESQRpE^A[dFmVtW|k82UH?XZZ)*[8k.0JZQJJp/
e)~<RZKW2?|~xj|In=E+$X1?)tLcm3,x%[^nDZlVJKn-5+mR55#nwh|QNM+@GJQgr4/9tk&sP+(3flPnyDt67]5yT;/^2KKa.I~2
9l1Oy%<Lh=0+XSwr@RPlV/fa5R.tz[<27o$br^e#4oyiFTFBEHjy^f1%4g@H6^+*^M1Boz7<j#@e^6kjm3Xz?:zRU*RQ4&.lxgbi
1N(6MbKA[I@)@w(ylad$?L5JpGOgk7jUmxR=UigDfXwk@9itAT^G!hHfJTQ0MJUmWN_j=dnLQ%(kI?UiF~4xGr;q~9#R/9s?0_~O
-XyDDK?+y:|6Jdm5(t1O>fMOiM/&Pcl~@gt>+K.<Fa<Ge[,:RVxUQ=5U@XN16(.YeW;p~7SDFYgpDr(CviYAqtBPj*=6!Sl;Q(T,
BbG(g%;MDAFf%)Bo?#40m)uln+,s^nEh$,Co]k,dCnD?LF/KgVsQ^B:Ll*86x$~mtV/vbRen+~iaoG;,.oEB/8_4pma$9b=k^7,6
(5nxd5T|N71iy2Y1+$Vp(*OZNpwh_fy9%EPo5gE=K?Xf27<yUH6v7:6VOq5zVP~XqN;;dAYQ^bVf-0i@X<-TdB7;#hax!p#2~ZO[
B#)sMHMBG|D9~j_!;gJBf?*I+/peJpxAY?8xTDZ1k9h^4gfs:8vLcYyYOu_&rHT*:%dYr*(5~=&ntA[50bfaw32bs$-(Z-dH7D2G
PP|kHR<usq]BN5&yAYQK!Bso46BJYfq<SnJ1q,79NGSvph:26-;h,+v+[a@(T3NREdr<3inbTbJue$08YT7WF:,on<2$%(*1+e0_
Vi7<<-,?&B..YOlnuI:tg%)c7u69>vMB[=G;c#B~$aWLC*TF%/zw9*-+K,yXMLB4Zwelt~A9GNXW,sVBV8K1i6*_-*r10i30-kG|
!Vxt2RApq~V73h3+mA*+*n]TVeu=5<|%aF@gYc@wu[lt,/,N:HLl/kD=TsJk?qVrO*1YB*_?k)F%-Fy62lDQFgEPyBOM&bBsq,(m
eIsFYNYJk8VeXVr@rPugL[%hi/j-l>1zS^;=)ZY~#*0c-+<;UJ!z2d8Q/!o3#cCj=CC+alfS*uGbH|Q2FI&c.12I/MTOp.~-Hj2]
AdaKYCbfs]PSZ|-VlZ4l%016Jd9evcHd%7te!frs#Bj|V$L4u3po3]mYE%_4w;FpI!J&x,&C]0/;Qx0OuX-BChu>KSta.nPjE#Co
,RN?TWED2Z@+lMb.Q|MIIiIlufF^sfn/o:KTg^Ck[#k*6Wx;0eQYk=*k4&11@6/-#U*g6yninZ+/CrE=[R0Myc#k&R=#o~Kci!;v
ht0yl=a7LJ~lTqh2y4kUJtXY^>FuBU&xKsA:b:A%yT.Rw>@CXIu(edwAtxi&+u3<?plcd7R/jjO?Viv1J<Cf4-i4Y%XtGuaMF#_R
sKMvJ;e7Vxu!l6S;<-@Wet(STVyi?|JZ+5HGrPHu4Ho-hbO]Ucd6|]7@Iqto$|g/EwEkQ!3si*,G=ni~wvJLj3=!;gbfhYZAK*O7
ahCX-eKyQf^Rq&p7&b&XQA*glU$?Xd=.h0#AF_+?u@Y=_Bp6=r?S(^I^Je?8!,,a~Rxx!?,$eV]Nl-M]>G1sPz>ZMFY*~ItlMfbK
X1nA~m!Ah=?^~-0P=Yo=+Q>P(gI2a_i$a.ZDDa!8h_8Q==T5dMj|2=.<u-CQd6$i4t^?Jx2C%A>#~J1y*Z2SQ-d8U0p2V.@$FuIU
NFBj9!lqPug-Cbq!z8t.I(%SZGe5]F$%Zut?Anc(&2k-rm/J_!*_$?n@E7yT3K[(/#V-A/gUNPqH?%xLbs(8^az)co[d=;dweR-f
r#^m_3/c,5kJyo8(M7xv!s|/W1fOHxam/aG8Ev9ZSzA-9&Oj|fDH:mwvs]@Iq9zmXsBOG[J|Rj1EtCoqsi=;fP6@HAUjRBC-9QaN
z2dAq3g[H|&ECkX3(nnxUOz[98WRYLRC]ap/>/fDPvluxO<6OkU8Oa+2P;+kB7JkD0cd+1pRJ:/LRgX~t1/dxsbS~OU0su.hLrwq
>.s#l%5vV4JZx=w>(-&(+5:sbw/k9iQz?4=PUDE_=RlWfYW$hD1!x5yu#-/jc#lvgxV!r(q7zBmy?9C0DB0aYZ|esE0l+U(RD+]N
j>U7+f1UXRlf>3Dkjb?TAa8F[_G<%#17PI$]w;jD*F.L=F#N32.*rwm_wC)uKa+n<Lt,#boJz7zB_Kxa=c-<ND~.5[AE%)*CAz3b
wbGeo*UMzU)rZSce[Xp>cl9!%Dm2MDWVY=b2D]PM6OUChJW0e|;Qk,*;22Q$_*8MB2#Z0&g5*]aUM=~2M>EqB%8[Ohq|Ai.E+]SI
r_4K~42ew40y]J@hn:(0b@,BQ%Cc?8j:wcd2kf3l2uS~B+,Ewa9?m4E&]wKBa+WYTF#~OxGgRAxL]<2gK[j%1>+cy:.w|ni+Ksjk
oGsAG^/~)Jx/V*P+~VQ>(@U95)M--eKmCfL8WgPJLKmytmS?7@Vbm,iUf@3N-c&>0YX;2.STS&[mbKNvd>?,==en.yW4ig/^L6R7
;;BLO9%JpwHv@6XJklLHPJ%j^e9F7w<4.PLvuDLsLZDQJOrT4aUWn$6=H#CCpCFs@)rAu|YZ[B~vlq9Id3<AqhmuEsqu8cl?0:U.
@*LF<QlTZ#2Mc%]_ufS$JY#Url:EtX=pnS9A@rQ6/@5cWLH5oOZf|XNTl^-m:nx#.IWTu.;k^-Guan.Q/xYyp#UO;O=;.shFuub#
McGc]|x,z5]a|(H-F3h2Kl_/qo^RHC5wEWCS;<fe2[A++W/#k&zdOZY6q[q2Yt.a/~m+@.bNQNC2gs!kb-gx!lA/VmN_sVb[L+!,
np>s8_SAI^cF><H?m;2Nvx]eV=4ag46>H9x(|P~Xr*R@;f:CK7fR/HBb*&!dUs(riZ]q7fY9s<<]-t1@Uq72Kl)ujzNetdkkvrW&
jkB,PL1?%jaHlCJ_|i2ui0M$JV,|>Y+fKvG#rM:jI*%84I][BmI(UNpfhA6L?5qkp[m7;Wgwn$?Kuzdr/2-%f>~5bBh%BmE$$7c*
3o(29mV<~:$XsMv|(thzd[3hhJ27.sD._Ig91YiK<tJ+Br1SY.uN&VG]6YmUb9U93_L5WvT1mu[Ws]izwFw4D[L=BP@BzVT#[<cS
,0(Y*!cOwp=VN+zdAFzodrc|Q/RtKs_sQ##T+g@KAz8Z=x~C?mfCXjzhm9mm/,XR_XwePNUm3+Nm)ScGFd)kU/r4,?|vzkYUY>~*
jfVZ1AB&$</3PaCCEMm:?;o-/xRw(g2d![p6mFYr)eKsM^0,f^T*XN)DlE-RJyb6[c5sonXch.8YZy6BiqMP9xUjxQbU0-&cA_$!
>EYwg9~Fiq^tS/e+4GXS6M8#xpRlc9:nBhady/xt6V]RDIdmC<HD;lZ@s+HR)SbgG<Yrjrr<+mO9qo_oDxw#C4M%4(#.s]-*N*X$
ahHFm2B21[(b18oUb$P,6B8JF5vmG&?Ta0M#&|arTb%F]wJ:SeO17f2|E-GbM1r4c71-E,R8Sa9|A:$hS@8bgH-V;L!$p).)S^UH
,Fl^+Stpf+i:$tYze.+n1vcc(zRw(!_Nyb*q0*4PXLy?dBOAxfh/&y5.3dd*N~/<OPXP7_*goGB$6O&ht~jq;2UDnB]CSU5jFn%#
_;#fH;KKdea-6VP?:xH71k-BpD?L87D|a+8C>%m<f6AL33]ftA*wP;DLhHNn*,aulZB$F*:!e3%d,2?+p%:9)GxyRX25u@=;hM:E
|FTrJ5_#ARzNrf#L*/w>!26uQSOey6Oe@P#NF>V,&t:mLB.CJK7Pe&lmM3+^L84c];k#kY+t~_HA:kG$ud5s%^Iz*QS-.Yy(^DW:
cO@+g(wD!NHx6?YK4hoj|f:Hm9dvd|[D~rk0?rwT.d[R<(i~oP%YWbnNdc9=BkI0:fe5t%EAD(OnyU6@*>^A[MOxmyC&4P--q38e
Q%X+~2!Y/A<F,^.AU-Uv@/^%>f<%0-*oBt>uKxaRjloCqryt%ah>V%@S^^t>VWhYPEe63eQo-NrgJ)ztjtg38Uehk(+C.3YbC%BF
ZEyc?<T|zdlMk!!^uRDgPFB++cXg$rL|4wL1e|;@djkT9a4SfL>&cSbZG;NkTH~Ugd6DO;:i7U@TN1]h#&t5ScK|usrvzXn;+^fq
B$,@f^EIxc&nLBK@J~Us6%4TW6%&Mjnd$B#(,Cq^|clP%c!aQQI$gL]lbu[&/epXE>jZQF[Ed~X/fR52%fPf?*|,Y|Wj#iV%qTq0
s+3+~X6_VB)v<>n^R2nCxKtaSi6GIW#Vq~lQz=X/5NJERif=Al];Dp0IMca_TZ56cKy-LevxlF;F.iCjWNpEYu?J_rulJ@(nlQnY
%gqjdzu@P%Il+u(RL7~:Gxx-p|ATr?&T*yu(^,msv!Yii8/YnjB(!Qs78A>V|>yrvq2L$@J2&X1$_>-Vs$)y+k23gA(_EH<n$a]b
xj7-Q+,ORK?YNx[/AH$z[8zPB%+h[<+Ucm|l<Gq9g?W5m@c9a^QJif/J6o<MoMo)u<)ST~0UTugaG[iSxh0>ZWyk!(<m_$IzA~iz
$@IEn6_K*-CURX5]>#S<g;l.S<!n>ZtiznB4j/)v[g>^5Y]fx@<a:2lWU5n^kO[|z|p|hRxNq<e8Xb)&*$$+=qF.Zsfq;~6EW+!^
k3LOQ+(USvnRKhP=5F;-/Ul.IJ>gEU%S*@@s<S6DTAbN[sNS5sdz0k-LZ=NN0wvk7oA;o!/nnRDe|p!)hgmoQse86wEo(a-+kFqJ
mv(S/A7%-esuu*)XUr[e=H_@&g3)VgI9%hZ,rS~w?(2<[IEf)Th|,TLNtxk@d0<ccIq1r|0:#6:8Io%(ESMv,.P+UL=Z?&B.*z>F
TmgHu)([:^B?;=iJQScn0B+<v6y<TM%zF^gdL4h_1/5,BBdX.7Ax#;QrS%)9;64s/=SboMMbO#QCC$NeTNE~sJW-r<MQF%R*6-];
N.uGE0m~l:;1cE)Wje[33&3fxv=czC<y?!bFLyN9fbs_A=+]6>$+R%IhcZ<fX<Ef/b^7.XtNc->JKib&fb+r8_HmB%k=t;Q>u4I+
,!OGH~9BX<[GcMn>)@gF6oOTrpD]b4kf;urv5F7BS,4K(!qNPOTe!?xWJYl+tj?A|S5w,6@lzMCE>a/*n_01t,G<6H[U;u*jRhD~
mEDmAcU$TW@dU%~HWE)zoTp#~+CPq1ss|q.d.S]>-uxW=JgRevhOxyUxO8RYV<aJca(s_yW-QhzLy.>:7Y3>dfb$l/&5w:R2z/U*
IG#/OJ!,gU9XmI~sA>KUMa_i!7<a&Km4~.c4LsLfbOdl3h_if<qwPhvE2|P_s|K11gW:ZD!r):wsFm/1g5A|M^4lmKN&@e@SOTJw
Ln3Uz39o8Z#MIE=U0^H(IZAK9xGPt^Plk?iG[)G,GeXT23o7IBxjzS.iyloL,a(1ZT,d=4<8YLT7s!A<cm&i([|MKqNGQxbFTyCq
/3bji!Q.bi|Imw1~_8wgHbAv.j$l?)N|D^zMj(gAY*~eW5t+br0yib0XRcBOUbXnp+JhDbVGTte42q|M2=ykxcfiHx[JBlAxz@/9
RGDduHb1?h13.RzB_P(n=yz3v29r@F!5]GJSf-N<^f*AFWC@H:t)C$|I(@rc8/d>9PTY3?O*ORju8,.mP9;6mQ9EQkIq56z9IGCF
p#p~-?uV-721Ws&.mGp4>gK%1Aa8m4lke!ZW_U&=efe-:0@1<pu#K)&.$S&kTBzav%;l?j#6~hr-bgqPB.h[G?ZR2_OP9Y(l./O%
0[,W5Y7Y_67uhB+DB#i;@@bI;EM]4<G?J[ry)p(-1H(IIg8$@j?o?p[]q,,v?fc_<k_tl,qX^fMJE|woIk6-Qjoy]QfGg>R,0J-2
Dk0rM6I)EDbPOxX2Cb:kYtQM2kAQv2bSE[=LPp0z9tQc0t1K9N!WDEPiE;tBnU8Lg=J?~6r5;[~/|O$<+],qzJ+(PCkte3%u_X1X
O@shnLyuj%yAF?>)-=aHDr@4]2G<h42r%uTF#$LtOxMT/R@r:Gya-rxUiDO!k8lI&fUA^W4mGKv+BH:$J8w4x^p:Qq^z6Y#|E!9G
SKm8jGJYV|U7>@8K+MM4syyO_]7,4ud^^ez-uU5QkMjQbsG]Qv;Q]>F)q.p5YlsqPP1R|7g4T]hxXSR18NPc_R/dn:Th*8FtY/7@
i0XLKx)7n=v=N*Qxk^OMwUw+B-j?x>]0&g@%+4w|]aJuGnm!tPS/~Vt[9i0?%aPwD[|h$O?am7wZg83ru//g.E[D%|hDGIT*nT/1
[?voh2kzXxE$DPS:iHP*_%ZO^!.I#$x?ptjJe;f6$E[0O2H!OT~jCGnj?m?o<gjQV5;pDHKcG%_f%[*DD-.Ip1dIt0l<?Y$>77o<
mF&JH5jH:%6H8!m@CggM/;WuUw#cCKL?pr*(/3R2Sv@y>t#2V@J;)qU:,~QR8E.O@f9#%^z#Tdvi/2jB&4sfDboVsK<Z_zZ]gEXD
G5zY#;(AY/QEBch[$wpwLOC[G90].hg!jYW9_0=:9KHJ>Sl^3QJR>1D2]#(<<_|EbTEp9?Rk)GNr3Rm1<z.~&@n0Qo<+kNE~ar*A
tfnwD6$8u%@m4~d(@bF2nw+].Y?ax%U^~F0iex$%mt2j(uC(l9*^](K+eD-wW_()TO)Ipy&9<efyfZ3Jca$2!LEU~@Vw2=FwsJw(
d6@X5>_w%EZx?%&=dtJ#%0DBG4<I&,[=xnq=FtVRAB.0$0><?mV#5#0<8C*vz#g2utd7SFEA1;eO8t[J%|Q_j*wvi2QlJZdS6^.>
b9</58U;e|V22I/:EKx_$b,;[(y212BOKMIU6nE2Li#EUaZ;TnqQ9F=J4TYYw&Fv&@p(4ZK<5o*+)rjk&]kfB:dI)P?bw.|/UY9a
?t&CYOj?D-9#|npLt3qcBrd(y7/wkpY9+J/Qy(:r3A%a[ir62KDK?)gBYb09|47abdw,iJ%:EsF95/n,#C~hmLw!dKi%oQF~o<_W
3:]]1dLkshV&C]aeo/:rxN=<m1b<#T|bI+lL5A7&->e~(0lswe~1S&^IdhfNDrXoR6y2Z>oJactXdxo3;dwz724[hW[8]7a%Qs)9
ZL$HDsT8W<i>|b&(&Rk|xFXsIx%ud&%IxwLpqWs*:[dAzobSvGdM5lYfEdSU)F6.,K5$C*KN^->,:_nrmXx&BoipPR)RUJG8S<h^
M/o(s**|1WC|A1&M~cJp:X8TcU@YTm3Vp/gDUimwV&mC?>/r6d9+>mO-b=s0)5t%-^=?PJFAHX85IHH/7a3&@D7~_!8w40-QTyA$
waU.>l%M1VFRWe_2pGu%anEio/6w@&z^7&Lh>-(r86n^&W.gFLDT1h=LTd#lZa2g1fm0Ecp<:eHYD#:E|0t7-N_n?(*#5F0H-B1K
jU]_+@zm|D;;k>WTQJifo_M1*@&I^udX|mFEt4*^?G^Msk+:Uq_W~iPu@*>tSH[iKxuFqw=T~I7.h%|P-)/vJRBw2BVfb2b8hlc-
B#:M=8PXCzsABQ$]H7ftz;o,rl_kYJKOwJ.9K$:2Ms/YSLbYQn@rDzPj=Zxl2%UN0C)F?gC3@+b_0NEge#q^@r?EbKzFb8/!!ew^
<xocGjTk;Dfc<Z|Hfu[!MB:*zmo[<11l)l7TKG%r1hyFM>9n?Iaa8mEU_l,CF^9bzqHe.y=D(@/T[;RICm.#B|#)[99qRv8#k46.
;<(%4.p5jf$Y=HhKpd3y|*F:-**%SrDM0o>e*cHsgPFSi&^HKz_cb:Dy(-&_2+w?+60q66!gf7K5&;Yilvts2rgY].H;Rs(^Z$%T
[ev9-Z!jbH(fZJ$n|2CKt.anNVAj^~760oNqqwT~s5Ug@-z,-KFJgU=S5OU6JsNo85~YJs9d9&T@(jO,f$f!!7@!71w$T4<wb60f
vf/8EyDh@[V~Yu$|mtbkV5k2ZxJ6EF[~rNrREBinK.oQNJeG,k(/=Q.9TIp+-wenBlW6l=2C%p~(wrd@y#^w;U:?D9%=y4|A#76;
0(VwTp-l4>TEQNX8s]RKL1lGd#?T92Z0Jkz#Ng1o9[1bxC@3Wnp2qwU8q^7|#+.-d)AK?<um.mPxPrpX5tt^L:clq%h/CFWPe1$o
M?@1Q_g1,e><9%u.Ux&?J~U.<ui)lO/4isQ01+u?:Nv(YP#&:h5vihX4@:A.e4qRv~.EbhL))zBP+o$*a]Su2HVGS:ReDabhpZ+x
#&)1FDumM_%.+IjS^w#s8islZ@Dz1Ja&_W0BH>h;WB##]7f/1>T@I8GEVOBY#-H97d:bF/~/O[2]rWM0Slp2n9wlExqfbbNc6zVK
7fb@YQR9:|+%d?3^F0;-V,ZIaK*a_0!=n)9Xh@*KVqxOwA=Wlrwry^s54Ovw8;XjQInubZs/N/4FTNnv[BSi)GCfgX@;!2vV0$!=
iR2]&8!CThy<Sz7GRey+Yg#sMgP3LL!&WrkKP~w;zXBGw=rUnDDjW/$3VGNgM#9%0&+iD+a%Rk34*O]olfF5AGA!8qf~Vu;bZ9$j
m:%DHycFmyq~aTqJPLTBW(BLbyFI5-/k6A>:^x8hh]&|db*hTyKelwr8:J<R~tLDu]Wq#rfR=eJ&@;)BED$CPX+>Gce3?93]q:M*
?ef3aT1,p9c$_F4Wq[W>Je/~AXqt+SZ@vOrX00mH)9E6^fL5f-;;1z~Sl=)6s<5|GOp;J4q$:^7E>?$+3naXCxz7d~Sg6V;?NR9T
fL]W[pVdp)Tq;J6/VS1~r%y~ci0!dJ]Nl!:%6&9V-q1H8XZyNJ9/rQh;vd(HhTZrkG5rDCJ6O]O^ax0/:OCjH[(;&K53#U)hYpqM
:_uHI.Fl8G+Ju*xdwh-mQcm$[^NpY9(H>Mp(LS/lMlv0QE]AuliaS)4v8M$bY/J8S4fLMKud^*:$oZ3o-Bqg[r&+dJ;ivVx4)9,d
orS874*^L=@L8lgCAFyI(NzJ/gM4FBZ;elR3~%C-#4!vSniuvHYSrLGb[Gei)?x_geO;AdLkKWXLuF!~k0%cl(ff]hQd0Kp>PiDq
9AvgfMRpY>;wZlP4NrpWa8yHcd&^#8.0<dEHC.S%LZNGw|W|mXHYM0fEbC[&YUyl6Oo277fviaCO@IJp.18$-Plo41q%4L-VO:gH
j1#m6,i/<khL*Dm~hBh]dg+4tppP=U&~wmr5ci.MyIqFFjR@.N=MKm<[@1<??VYX3^J7B^>Yl#nw5#Is2gBM]RbR=!Q-:yswWL^i
-a)[<8[=>p85<u)A-h&iv:~50O8,?[AY[pky9i4U7xixVil|!Qi?P#[WTGpu&ZDLN)o2(4Cv:NIV7?r[7%sPMU5=H*ZLS)Eh)8V3
J9l2_9yj1YH(t3u]zP)c5FW<fPA0c,d$JLiEt+chH_r<J;vbt__^oa=3_Bk|9cP:E99,b(x!@plt[US?CIUdKoz[nM>Je79=O#04
llPTCg^pvNAoqBdu;Ku6Z!e/Jen_GDlfgH1XQM(*m:(V*Gf^C6jAc;tOQRLJlmzs(6[%8$X_BUE@*T|$&=zUYro2Y!Y7%eyyu1vd
GQ2gUsqM$/RaQu7Q5%NbQ6Oz$@-rAKBWhePXn0BhUj_o/CiD^y*_6rFIT]E^VlOa|b:&bS2QoX1p/;m$891&K%F=jbtsmzxWpn0_
md(GmP6azxjH4f[s>ie%W+Eof|%(5E3Hvx<W*rzH:i]@<u:R)Vn?%u!H]cY.=nrf@iZ-8QelCa=EcNS](5mj7T!.c<=!sah:B!0x
k:Lvc1#mB1e9ubx@S!B]zUO#s$.xDSVcwM[)_HBOkqnccIIvZP,kx3L2md/qp/D!Y0.E6R|jwyPSP_$7B?.*%?Z:Gr*Re^iiDkkx
=AVwC/4wK%?U/%e:$/cIiN&R(sNp*pV=@xs]<l_jb7Se[diwnWIn+?bqSX>0#?ATVxJUO7)26n=M.6d/<mKLYTffPPoMxRLY#:uU
]g;IW~ktpIQOL6&hO6q%#21,&E]^vLKkgz;<BvjHvbM-#?.)Sc|EBxTI(3U(8ILppFX+wTR]9qiCkkX=.tjYka@8MbeLGE%_sa=k
bQ+RG>%H5KPuAaEW%)MvYV>pSNZSz7PDM6,H3KC1TTwsYG(Q0O8G5ci8S%qN,A&S2h(f8~UYyVzh;t!8u[.Mg+N;fV;L/5.SR.%>
G.*^>AZ7?[$djD5|SkL$N^yB@kb)l~%YZ<f>hAIGe*8QpVvMC]|x@F0yKZ[-7bgwAoaUzZbNFr@IVo_R1gmae2?qjIy_Aj#7>mHq
?Rd![;2Mg$DLF#oF0,zrx6(dPANdWW,Dw7n3G0X]zp%^WJGeIe*>f-XN?_W7ne^o(o<;WvCe!KAyR/Tu]D7qDYhz4~CT$@PQ7b:t
BrD9?c;fN&r#.YB&7v=w@L]8qP:T|tko&*Fv>^x$/$wQl9]M:_Y*?pt;FQTIYd?KtI-DPIXaD:qVvgbh|zzu8>Ds)?L,Zq.&!*g;
6ZV8DGXOd%X0a]LUY8*|mM;%Wz2[6tc=lr7YJeIk_p9JS#S/M*l;1%Q&kOZJHT!~%=]SZZ5B:#hc(KK0y-n~^j;-|s?xfBQXwIn9
;/08l-4sBym=pzzy793;Sg;J.4EgP.A&BPOIky1fkL@1mWii5t7qbx[3))S+sQ)a>3-?=-WU]OacyM>6i&@B6MCLO#v3+YVM)ucj
<lOm~yLjd1!9,2_:uMwXwTs?.bu5yxlriG<6oL5u5STfW.DmuU>R4m8=LGtdF96zb&!RDJ^2sy2gqlEa%&G>UqdN;R)C**QlG!DU
vHoi0%F:NjD$^$vqoodxd%nUmePn9.xX*I)[kZ*eb$:[B^RkD3?qOibw[JBcPgKEhFw@De_ElpA6kMxV-&)@,peToQJ0xux5Ek!g
vegS:=O-lNJy|f,nL?X7u4?S(jD?LMH>!A@vCWPK[,xxSOZYTsfKyYE>ZPlg>K.XyioQznUTVAfmDvxT*V_TFVzTHBrU&xx[P%w:
D.t~!Ace!m@Lm(wF%_@6b%SbrzPx^2)FSZr12x-iyy5^2Gv1,~3b61&-sauM^xJie#kAyuOYKESF>Su]RR6]FB7fotSF*fO2RfFm
^_=Jd(IEQXHmb,NK)r6Ra4,M|LVt3/Pi1[[zz*HPcipR0tx3>5;wlqje#?@DB/k&?_pUJTz;iPREAX2#T$GX=-]+b_p<h)=Fv@ST
xP(XR"

end DocTree.Text

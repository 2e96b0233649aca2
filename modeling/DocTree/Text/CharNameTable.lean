/-!
# Table of character names

The names of Latin and Greek letters, of punctuation and of common symbols, after version 14 of the
Unicode character database, and other names after a `~`. A name is a letter from `a` to `l`, for the
number of words shared with the name before, and its other words. After it, `+` and a number say how
many names count on from it: its last digits grow by one, and `#` stands for the code point. Code
points follow one another, unless `;` and hexadecimal digits come first. All is a predicted text.
-/

namespace DocTree.Text

/-- The signs with which names are listed. -/
def charNameSigns : String := " abcdefghijkl;+-#~AEIOUYBCDFGHJKLMNPQRSTVWXZ0123456789"

/-- The number of characters of the table. -/
def charNameLength : Nat := 21286

/-- The code of the **names**. -/
def charNameCode : String :=
  "rUnBLkYe_+YM*[S=c+AD#_+Atnbp<(Hcj+8>IlWfk-=|Ip3>JHy@BMkCA~FaKnuO#h&pruo%,3;b-NdoYlZ16LOH2H!*!_&#)
5B@aKFZ=eLqW_>gKnqmpzj=Hb$QQD2#YXLDw<tRKMjw|8sJNk2pKKs&tpSoXrZ5^r[8#FNLe4[^hW3p.76#saNhK^nd2>CkaiUon
V7:zfU!OIeFJWhQ8fdy6KSpD]^>3~,AM;3H-BpS[[[.xFCRbZ5x-1dXe?]MPrTALuBF);+Pu@!.ZflGB3]F_-R6;=A3Pj+~v%d5F
PKNtS-39_N=|U9F8Vu(?2|NBAYC~2EK(Mjl*Xsu2yAq<8&2kZX=jLd6NW#I$UI1lL3PCcy2)uA.n$SD2tJbYzu7qZ)9#kxX=^%kB
Q@xM_OT~cq^LtIYGV3>BL2I0.)UK2wP%ULfxn;~ITVNg^Bek&lTJN7pI>_QgG_Sx:,-q])74soPIU^I#@r>/_MD@=o.7$nrKpE?4
7opljvRBjH>QXTD99Pz/.kIp&2<t,ETGtMlkojrT4PX5%r/,(E5N*1V~~tu-;H+lO)<5+Bg$eVSQGOl@=Uuws[eGRImugE]/GH>6
A^~!.MK_xTBu3|@=XJY/]nNYMJI_vw-TcEU!~#T][NRW&>:YI(4XhEBP^pH8QchGr|kGLyouH+da]nim3i<LjW0DiOKU(Y32!Zb@
xoJr0<:$(>0_NsNadO[?DX7WKn)b7@hWNia^e)jm:mngtmGY.!B|aY*[9I?nKq**4B**tGqWYiOwYY*H,Qjx=f4gHI[[G021=_FG
*Q#cX;%-:(WF%2-e-V[u]yM/<(MiGi]uQH=M=ohW8DNsl6-I0xfh_9jWPv[#8U#BW4|*,P9Nl-=uw*YNTfV]uF2L]E(zxzRDhA~Q
I;.AsoqBT@)IuuZqtSyTh[/i4<rdy@wqdN?x=$?lm.Ek8d:]m2z!4]l&w6BG-$g)17Lk-uLJf&4V$z740i2lj2^sU;7-Dw$U/5IP
b0u1tA_56v]-~cI@PY)a>$=C8[VFW^5^uuuNDM_9D*D]1uwuOs?~<;<3,nsVG|9~TM:RYVcDTmC;O*H^^U@WzN#PB9.SZC,6d7d$
Ls5POf2d=7u/&6L)Hzj~(Hoo$NPlqp8H+[-H&dOaEdH?Y9L~QKCS|l+6!FH1SF9S?IYI+p@u[yW.FM%bndV$OR5H039E%zmPmMN<
MDN^$70nf(i.LZnWmeEmkVi+:Zc]KCHAjH6vk:E>JO=vmQR.xHt#~yZhdJjYbS=7O*V&>ClS:;1o|uxSO-?*Tmb_#:YHx[+s|qqo
.A-o0796_1m==NDDw^)k(y8*URbx;AF#teV<*&6FoY3S<u+u_e=VmM$gL*/lIlox0H,V<7GQ.4hVV//OuE@k9b&Kautc?jB.jSa_
xLLC6taCZ@_OWft/sL_vzul#-h,=D+$6!y(&?)et4&,6[d:,+_Xhl[hp&-hOwEf-lA>+NCn@:i&Z>,wgG0yz&w6v)kPHO5V+mt0p
7h6zJMN]R|dvJIy;1]#-a2CoV6$U&Y:iC|8ONC=KN[I=5g+>skadjUMy1rHoe)Lm++,?*@d(uHMte]J5%D8FC_[$d:HPGpj&@[]T
7/OPCh]1!)@L!;m(4Yj]<AI[Y>fc08ti#C^J)X3g-Tub=U:o.=YO6iDV7w<#30?ad1OEZ443KQPrARN!FQ$.R$-(JMT#sb<_Dywd
+tZnMReZ=zprkp~YJ*v0fNp(BFQclQ#Lyf^OjwUfIN<<g!3jA<j9%Yuz5z[Us<4[3<=MYB?PmV=za_g]YBhA5g0C%8N[C^h-Od7s
)V+tPZO~wB!xYOxpqFFL>si#jj)pt.&tkwlx3flQ_N)>M|5G&RW%s*q>O97p#Q+30M(XG40G.eQ85$/XbDp3Ytt#7;GyamVI*0#V
*f;SWTtA*mQeuJEt&m|6g*U05Mgh+.p1iBXqPr+n%wRXBbT!+v>Q#HH-I5d%aX#d3/wVAM]/m<?~LP;$;+(z7?yB5uh#g/S%%PF)
*Dr>p7;>8;7l^lcO&Br2JZ4+@Y?-H:N]2H.r[jmnj.478a:QX$9:|HR_^/7Ns[g;p<<]3Z;AmN3No$cX7mdvFd7Q49h9+jXGpt2e
9ljv!?!W1pnuG[(ZV:/Zt=mm(pA[hp:2;WQlS:fYQKYC:Cn:QItd(%pqp.:IhWeEyL5j+Gd~s@r*|2VzohK[*l>]RVMC:@C|qs./
D%?XN=3$%^%.96qRN:WNDG9xL%ddy:@hO(uIOGdpRoG:/mr*g<wNxa)7|37l|[hlAWo@4bdu36l(rlP6i2Nt2S+tN~JYcjXr_g#o
%;lAr2+.~.,_RNw=T6l%~D<.wT-[tk>$EkV(]Jcp3tFH>ABfC/B/E1=OET,mq,hbEe:-7@GENL!%Bk@aB)?n/8#,D^z&8L&;Y|_/
?<:Ol;xbtg(Zx:C1(v[|j$m8i]AQ[>4bmyiz,3!^k|tM4WXqK^5v)ZliW+Rnwry90[iqGD1#DC7uBH&L#$VBYL~kMOT/wARroIPf
7k/5R8wt.C<s)DSuIWtfC2!zrqF-/4)x74(]rFw&DjOWoYF/T-%7r<rPhDui=%#aa;:|+VN/%4[$<6#Vvs%NCbY,VqamfA8bE@vW
fl$ethMI07#li@>armOI]v/m~g/jRe~#aQ?+a*@G,02J:d0b|-xPML)F^l$U?5d@,X1)D6RIA#p!:*w.>c;=2OBnk8,(K$0@8Fm4
0~>>houhy1#N(F)7a,-jmQ-nV@#44T+QwG0Kd0C*poe1k7[O4tVOU!BIg-Tkgqf|f(gv:#ZUG;|1PN%xb3,^MNM3*hbT6GK>ZQn(
/5Ea|U?j3Gbi:jQ2*cGJ;kp&mP681n>2hI?DjcI%SC%lP=vj]nd8yIKRale,@=lXCx;Hwsqy?XQqD$P.HD5|<J<WSm<]Du(%HdA,
g|0(CX64qe|^I=<<nU-t!3*M-&[TOU/a&~wlFwU%ht.UxUa_aVHC8m@0#avk05MT;1=$pTXkGUSfeEwY-JZLn=U%WM5WNoIW)@WB
PHsD8^Tw~<~WIAOg!4bou%kZ:l=BV0yH>*fK!wmTm56pq51gZM_NeTk:G&Aw.KQE6qpImJsTy0r[5HP.e0:^ALbV1b^aY?3/XNa6
hrb[5j]?S;RtScFs+)67!tfIQn/J46R~|eC$r4&R*)&#7WD;AeC~>.xt9Q(Ewv%6K%RM4:YESN.aLiu#G)<U$swn_DZdv@mgsvp?
KMV1UE,JaR;Yk=b3BBHSAht1==XlspA+F/|8i5z9&8AjSRc)YZX@LRF7.4n=5UySYskqM[~#vv~>RreX=GuG2B*4u.i<S8#fA8Qt
+14qfMG41BvJ^%nb2hu.vKs&heYZiX~SI|0?Dyef+rA<XC>3.K(,;$DGA4b3^s/UqJA9Pe!6Ga#QNi9,?sK$tqF77<>kKGLNa7&F
$q4gA_:d>(ouE@7|GQ]v:>&$%)+EP;UT4gmC6.L8p5e;Y6o:WxcIOZ#tT+MKPm5CgSt=AaMNXUT%qreV_)0i^q9&DvFEt(pnYZ>n
Hw:&NP^!R7Prs#]VUTcf?HP(x*DLEC#$Qs*$>BU?$dU|0Amlju!|9V0K@3i]D539C@3<EjPBqQZ_#DIZ0.2nyK.#:N%;yCCxh4W3
NcI@#^2~Yh5_8v;[o0hIm1QhrcNMss2v@edQuI@i;21>4OwSLl^gD+TIcMfxs:lZ]IT!Z&?qo]~/4[ynSHMOuV7$3_-gw/Q9//KH
PxsS08z;D3g#t6&+!AEAaz=#[xa/g#@vQ)_tFeHrHDw;=NS74_.Vj&^br[8xdAKHrdDUVTM[78ED=k*MH6Lk/-9]1kU,H1@lAUt_
u;59t:&j%YyRh+;+iphq<![TQyo?;dEtJtmrMo0<i.Ht#]#-].6:<H(]a1U>xLs#^uwC2aJx&-KATIj^J~dUz<q1AJ]XBuzwxOI-
|Ia76$PtkH:QGQs%W#0ir=)z[/%*vaw&tDjSf!)u8Xk=Z_Al;eHcso.2Kq.^]ZM?YNm+f!fwb|d@#Pz:m5cn>Sg>Pzoa)?j*25K7
8$f?UtZTgL0(j9&*l.7Ww|wB$qGgG~*&MZRh0!dP!$,lNN5=,u0?&d;<@d)a.al(VfYA,5g+^~i2>|hy1gmDsKrs_KK2O[j!h+lI
bk$<m1$k7HRv9ov=UB_U._|LmxI?/Wl%Z3P:$bTZIu:,Go1,),z+Gbae0Y@YF,~9$9.6$(qC(P#YjOH:F~?_xExnP3bPCB]!K+&c
*n0D,Pb&lZga>oJSVVuMRCiP7^H#?Dt(GIm~j+NDlnl?d(&9Z[jCpFLaQ2otWA8.5fLc@r!wB#i&QY1))z$iB,P|_0=XN6~H.%eq
/J:*e^#+)F/:sx+Kc/cxG0[QSu5+xeW!c*5F+5<Icqc7pZST/p|E?hG$l,wU[!J;@zH:Ix1,+K&VJ,a&tj&+~i3&nN#2|m8NtopC
tI|oT<c&<g*wezMe#5cnB9z%u?at5QH8^&2zLt=Cz*|&m9-Q&]Fza(>ELj/8Pjej=+v<kgt]i;5^6+/B|;VFOz]hZC_&]Szc9zdR
o4J?q^,~=0<,!1<HqoZGI=>c1?+:tB?M_2YC;VWax%~v&2p@Q/-9UZz<93(@=WG?IV)H^iFU).!f#<$lm3TP[jxJtXnQw4>a(FX]
fW_JU<N0%@UJ.lPn(|rXCr?b29fiCD?q3)Uw.(l0ibk%vnBLm8Yr3j*0~%,E9+j5+(?V+cK!WCR,rXS_]WP+OSUlQYxaB6<=7|=@
VvHS#d^IX)(g(_g<T1Md2h4l]|J4L1$_G&J5VC]C@pyc1a$by(zw.=u&k6$FiR@^JrP#>0]kau7sZdnZb/o*a:9+-<NMRs315N:V
8Dw.duXgP_grfS.(j#l(y=O1[_H$s&2H+T7+t?-*C|OWj#%3A:W52,JQuXaze,kBo%&S1rR8hYt?-7HYbWe;Er]%FIa(|sIP@#:Q
Y/ZBG%1BAC)^xg7tMO_YaPUqSKY15rP^)|6zXv7[N~X_Z=zxHW:Q6YyS;<bSL~Ur)ei=fTiuM)0>1Nlrm?%:8&&D_51(I%A#c8G(
q.u>|Mm+1$K&c[Ly!R)o+@Oe%@(Nx#)ZRsL.]C3AUMXz/.NVo.zkwx?rkzBL5i:+:bge65us2@0EUfeW=svs,cf;Scu*/=?O]M=^
ux_>%Q,JdtA1<2AO$zS9U2jjr-/kY3_qX#UI5x24PLHJ*^ZB83EO:o_-%qHZB537(PnMbiu+L/,_(]?fmMN/MAMnB!F|u+*I*!!i
;SPKd6v+,2-CP.d<]5:C];/p0I(+s@4(BWqgO;PqEb+umn%oDnz:vJLP[qK5L[ZK9.!.F*JOMjlPy,_*Gl$GD</2W~;891y(h56U
9C9qMqoECxg!?(BmfzkN<FJ+#r9JHlRE)0vqXAs2Zz+d|]3(db9S(ox-_|*0GVdNDVmI+^iPnhMtJSG>,JJXFBz$(-)9K,c;&i77
Q3<10G$yAB]h[z/5n76wBigwN[Bj1JXfwwWlX^$&-cwB5]1b&F,!-a006d|Vs(%F/V1IhCq/y3D[(J5|49RUZoMwSVzUfScDcWE.
2]CW-4]USgTFjQ2HgskVasxNaYt8MPKLM3[9yl;7FLVLw1gpGOr0Gq?0~!%i:yB/8/PxOGX8DOMZU:hcI%yr|?ru_|rE;Q%9jb[s
synR2[[1By.FS7bdh!J>_1^H+]8/YzR+:iDG&$BLFF[DNRIT1ub>*L&CfV&Sx[.l+$?Z@NT?_Mr0WK_)9uzqEys4-b,UZM<2kIKH
^1SJYxP:v~K,<jjHJ_1EhZ5*<g&8m&uRQTIMBZ-$RYjy/9oS5it3]!I|!m,4y=a4DxTn8ef#U_.3u_llZ5W+Caj]pdBc#*Q:uW@k
5$^FC7t!k;([dU;#=6>Am6)1siUy,nv[AFD!Vo#VCrdsAq9h__"

end DocTree.Text

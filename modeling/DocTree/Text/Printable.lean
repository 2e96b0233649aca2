import DocTree.Text.Range

/-!
# Printable characters

Controls, format characters, unassigned code points and every separator but the space are not
printable; the table lists those beyond ASCII, after version 14 of the Unicode character database.
-/

namespace DocTree.Text

/-- The code points from `0x80` on that are not printable. -/
def unprintable : List (Nat × Nat) := readRanges
  "aBgmaBBmbgdhabauaPhaBmbBybdaCdhBbdgqwaHkaBwbChbDxnChbBxbpaBcbbaleBfiCwaGfaibcbwahabcebjbcbehbdca
fbzbdagdcbwahacacacbbafdcbdcbgeabgrjdajadawahacafbkadadbboebmghadaibcbwahacafbjbcbdgddcafbsjcagcdae
ccabaccccdcmdfcdaebbfbnvenadaxaqbjadaegcadbbbebkgwadaxakafbjadaegcfcaebkacmnadaBzadagdqbBaadascyaja
bbhcbdgabaifkbdlCgdBdBkcabafayabaxbfabagbkbeBfCuaBkdBnaBkapanBkHqabebbOnaebhabaebBpaebBhaebhabaebpa
CfaebCpbBgcBafDibgbYqaBccDlgwiyiulnadaclDqbkfkfoalfDlgBreCsjBfamdmdbcBqbfkBsdBaflcCkbCnaBdblfkfobBf
BwCzcBvaEmhCicpcCigBrblhBreUobgbBmbgbiabababaBfbCbapaobgatbdajqyhBvqcbBbancBhoBhoFkdZnyluCRsbBgaNle
BtabebbCegcnyihahahahahahahahaEwBhBaaDllIgzmeClaDibDzeBraDqaDglBvaBRIrcCdiNktHchHvecabafxChckfCehCs
hmfEmkBecDaaldBhaCdiobkbDzxBcjgbgbgihahaCidEwbkfQNslxdBxMNbOcbEcBlhlfeBaafabacacaEvpRdbCcgbBfBqfBza
taedfaFfdHicgbgbgbdchahmcbmaBaatacapboBhEteddBtcDkancbBuBuEzBdcBxoBcdBkiBeeBreBeaBldoBpGcbkfBkdBkdB
ohCakmapahacalapahacCoLziwjixgaBqajCqgbbaBsaccbbxaCuhjBvtaceBhcBbebClCedubByaceiadaBdbddkgjgCmBfBnd
miCccBdbBbeBagelhDbCvCcBzmBzgBuhkLhBfaBqadbcCzBohBqvBaBlBctxiDadBkiCkafmzgkfCbashBniDsauksaBsCmhaba
eapalfChekfeaibcbwahacafakbcbdbbfbehbhcfFiDoafBdCuhkGjCcbBmBhCrkkfnsCgfkCbBbbpdxHcCiDvDflibbbiacaBe
acbmikCribBublBaCuhDfmCvKcjaBtaojBdcBgbwaoCuhacaBscbacajhkfgacaBlacaggkLxzHaboBymBJnDxEhafkHoDXjDvm
BPfFZsWlMUaVxgBfakdDdakfBebgjCsjkahavetBAlDnDwCxdCfgrClfkcnJCahBVqBpjNFqeahacaLfBsdqehPgDKtEdencjgk
beGYxBubxiEmChJmjBnbCwhEiuCsFxulDjizFeDhaCtacbbbcbeamabahaCnaebiahaBcaeafabchaNcbLgbBBaofapBQlBfIqh
arbhacafIeBtcobkdcMhBfqCgebBVzhaeacapaHpbqBoCydkdcBEeCqCxCjHleaBbacabbbakaeababfbdbababadacabbbabab
ababacabbeahaeaeabakaredafarBzcKjBsdDwlpbpapaBljGsCdBdmBsdjgcngFxBLweqcncEmlDlgmdbomdCehkfBohBebcCz
NclobfcfchiBdclegjkfihhiFraCdBkkBNpCLFcBfGDtgIobINqnLBlEPiUwCFxHHzBOTMqJgLECt"

def isPrintable (c : Char) : Bool :=
  let n := c.toNat
  if n < 0x80 then 0x20 ≤ n && n < 0x7f else !inRanges unprintable n

end DocTree.Text

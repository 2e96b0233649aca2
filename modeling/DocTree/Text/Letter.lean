import DocTree.Text.Range

/-!
# Letters and their companions

The general categories from which identifiers are built, after version 14 of the Unicode character
database. The tables list what lies beyond ASCII.
-/

namespace DocTree.Text

/-- Letters and letter numbers from `0x80` on. -/
def letters : List (Nat × Nat) := readRanges
  "BqakaeafwbBebRpeloehabaEzebbcdbagabcbabtbDebFiiGjbBlcagBoCtBaedBtBqBjbbDubapbhbkccaqabBdBdDklayB
gjbeafveajadaxyhkfxbfrBpCgCbdasahjppehcbcvbgbadddaqanbbcobkaifebcvbgbbbbbbBfdbatcqibcbvbgbbbedasapb
xalhcbcvbgbbbedaBebbcparabfdcbddbbabbdbdcdlwaCahbcbwbpdaBaccacbBeaehbcbwbjbedaBfbbbpbribcbBocaqafci
cyffrdxbibacgCgBvbbmgCgbbabebxbabjbbjacebavdBgaClhbBjBbeElBquaqfeddadbhcemmarBlbafacBqbMubdcgbabdcB
obdcBgbdcgbabdcobCebdcCoBlpqDhcfdXvcqbzfCwdkhrnsorombcpBzBjaeaCpDkhecBhbafCrkBeBxBdcelBrezCcwjCaDea
DpBurhCcBdnbkBrBaBjBpckBjcihBqccBpdbfbbdafHjCmKrcfcBlcfchbabababBecCabgbadcbgddcfemfcbgEmanaqmDxaea
cjbadegabababdbkcdfeearBoDZbIugddbmBlbafacCdhaqwjgbgbgbgbgbgbgbgDcaSbcziheceeDhgcbDlbdfBqbDprBfBwpT
sJTnCmBGUeCpBtcKidpkbuBuqBecDbBnicDycClfbbabeypbcbdbwBdBzoBxCkfdabblBbkwzBchBuBcaqebjkebBoxcbhuwdad
BxbadbcecabaycckhcmfcfcfjgbgbBqbngEkBdQNrmweBwMNcObcEbBmgmefabjbmbebabbbbbEdBhNysClcCbBolEmebFeBkzg
zlDkdfcfcfccBjlbzbsbbbocnBiEsCrCaKhBcdBwBvBfnBdfBlkBdcBjehbeBqGbsBjeBjeBniBzmkbobgbbbkbobgbbCpLyjvk
hyfbBpbiCrfcabBrbbdacwkwjBeCnsbbkvkzCsCdgbCmapdbcbBcBqBcdBcBjhbBbBbCbkvksnrEgCuCdBynBynBjNkBpgbDaBc
kaivBqrBuuBbwmCaCfbcanBsBgyBaBjBdacaiBidamBvodvabaBjrbyDggbabdbobjhBuBmhcbcvbgbbbedasameGcCasducBeB
vubbaHcBuBpdBkBvuaChBqnaCtBaBlgHdBrEmClBfhcachbbbxpabaDqhcBmqabaBcakBnhavalBttasCuKdibBkraBxBdEigbb
bBlvazfbbbBfoaMpsHhaDbBJlDyEgrHnDXkDspBPeFZtWkMUbVwhBerDarBdsBvqdBfufsBAmClEyCwfaComCmbbaBcJBziBVpB
qiNFrdbgbbbLeBtcrdiPfDKuEcfmdihjIWkDgbCsbbcacbcdblbabgbCmbdchbgbBbbdbebadgbNbcybybBebybBebybBebybBe
bybhCSyBeSnBskgqaMjBdsBrBWugbdbbbobHoChCphaBUidbBabbbacabjbdbabagaeabababcbbbacabababababbbacdbgbdb
dbabjbqfcbebqGOaCLFbBgGDshIncINpoLBkEPjUvCFyHHy"

/-- Combining marks and decimal digits from `0x80` on. -/
def marksAndDigits : List (Nat × Nat) := readRanges
  "YqEhKpeKfBsbabbbbbaCukBwBegaDxgcfcbbdcjxaBeBaDnkpjBhijaydbibcbeBrcCihBqxbBgCccbrbgkbcjrcCeabgcbc
cjakbcjoaccCeabeebccdauldalcCeabhbcbcubcjkfbcCeabgcbcchckbcjsaChedcbdjaojqeCdabgbcbdhblbcjrcCeabgbc
bdhblbcjqdCdbbgbcbdjakbcjrcCsaefbabhgjcbCjacgmhbjDjacilfcjCkbgjlababaebBxtbbfkbBjjaDwtbjmdecbccgddn
lboBBbcBKkdBccBdbBebCmBfjacjBhcbkEdbBiaEolelkjEyjCjeCfjbBcckgjwnbpBxeBvqljrimcBemcjBsnBwtijgjEocbue
agaccHqClBBsmeadlEOccFlaDsBfVifEbbBSNdjCraejBgbDcbKmadaeaxeeaDfbByrkjgrnkBchzmBsdBvnpjlakjBvnmaibcj
BhcByabccbfbbaBpefbJchbbcjBDZgaBCjpqpIqjBClaIsaFteLhjCApcbbfdBoceaGjbWbdijOfbFxkBxdEscCboBfkcbkdBtk
haBtjgcBknbjfbBsamcBwnidblDelgaGelfjgdCdbbgcbccjakbcgdeHkrjjeaDdtmjIfgciBbbDeqpjDdmijDfoejJioGjjCsf
bbcdbabbmjEpgcgdaBcjBogbdiajkBupPphbhqjCevbnEsfdabbbgbaijBwebbbeijMrdBCOnjDijBmeChgzjBMzabCchdDdalb
BDAxbGYzBtcwUwedfihcgBedFscCCnBxTsCceBxiaoaweboCAigbqcgbbbeKbgjjNsaCjnCFmgEfgfjHBajBSVGwJf"

/-- Connector punctuation from `0x80` on. -/
def connectors : List (Nat × Nat) :=
  [(0x203f, 0x2040), (0x2054, 0x2054), (0xfe33, 0xfe34), (0xfe4d, 0xfe4f), (0xff3f, 0xff3f)]

/-- Currency signs from `0x80` on. -/
def currencies : List (Nat × Nat) :=
  [(0xa2, 0xa5), (0x58f, 0x58f), (0x60b, 0x60b), (0x7fe, 0x7ff), (0x9f2, 0x9f3), (0x9fb, 0x9fb),
   (0xaf1, 0xaf1), (0xbf9, 0xbf9), (0xe3f, 0xe3f), (0x17db, 0x17db), (0x20a0, 0x20c0),
   (0xa838, 0xa838), (0xfdfc, 0xfdfc), (0xfe69, 0xfe69), (0xff04, 0xff04), (0xffe0, 0xffe1),
   (0xffe5, 0xffe6), (0x11fdd, 0x11fe0), (0x1e2ff, 0x1e2ff), (0x1ecb0, 0x1ecb0)]

def isAsciiLetter (c : Char) : Bool := c.isAlpha

def isLetter (c : Char) : Bool :=
  if c.toNat < 0x80 then isAsciiLetter c else inRanges letters c.toNat

def isMarkOrDigit (c : Char) : Bool :=
  if c.toNat < 0x80 then c.isDigit else inRanges marksAndDigits c.toNat

/-- Whether a character is connector punctuation, such as the underscore. -/
def isConnector (c : Char) : Bool :=
  if c.toNat < 0x80 then c == '_' else inRanges connectors c.toNat

def isCurrency (c : Char) : Bool :=
  if c.toNat < 0x80 then c == '$' else inRanges currencies c.toNat

end DocTree.Text

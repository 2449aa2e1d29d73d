import Primer.Text.Blank

/-!
# Categories of characters

Which characters beyond ASCII are letters, start or continue a word, or can be shown as they are. The
data is a run-length table over the code points from U+0080 on: a letter for the category and the
length of the run in hexadecimal. ASCII characters and blanks are settled directly, so the table is only
read for the others.
-/

set_option autoImplicit false

namespace Primer.Text

/-- What a character beyond ASCII can be in a text. -/
inductive Category where
  /-- A letter, which also starts a word. -/
  | letter
  /-- A letter that takes no part in words. -/
  | loneLetter
  /-- Starts a word without being a letter. -/
  | wordStart
  /-- Continues a word without starting one. -/
  | wordPart
  /-- Any other character that can be shown as it is. -/
  | shown
  /-- Blanks, controls and code points without a character. -/
  | hidden
  deriving Repr, DecidableEq, Inhabited

/-- The categories of the code points from U+0080 on, as runs. -/
def categoryRuns : String :=
  "u21p9l1p2u1p7l1p1w1p2l1p5l17p1l1fp1l1cap4lcpel5p7l1p1l1p11w70l5p1l2u2l4p1l1u4p2l1w1l3u1l1u1l" ++
  "14u1l53p1l8bp1w5p2la6u1l26u2l1p6l29p2u2p3u1w2dp1w1p1w2p1w2p1w1u8l1bu4l4p2u11pawbp1u1p3l2bw1f" ++
  "p4l2w1l63p1l1w7u1p1w6l2w2p1w4l2wal3p2l1peu2l1w1l1ew1bu2l59wbl1uewal21w9l2p4l1u2w1p2l16w4l1w9" ++
  "l1w3l1w5u2pfu1l19w3u2p1u1lbu5l18p1l6u9w8l2aw18u1w21l36w3l1w12l1w7law2p2wap1l10w3u1l8u2l2u2l1" ++
  "6u1l7u1l1u3l4u2w1l1w7u2w2u2w3l1u8w1u4l2u1l3w2u2wal2pal1p1w1u2w3u1l6u4l2u2l16u1l7u1l2u1l2u1l2" ++
  "u2w1u1w5u4w2u2w3u3w1u7l4u1l1u7wcl3w1p1uaw3u1l9u1l3u1l16u1l7u1l2u1l5u2w1l1w8u1w3u1w3u2l1ufl2w" ++
  "2u2wap2u7l1w6u1w3u1l8u2l2u2l16u1l7u1l2u1l5u2w1l1w7u2w2u2w3u7w3u4l2u1l3w2u2wap1l1p6uaw1l1u1l6" ++
  "u3l3u1l4u3l2u1l1u1l2u3l2u3l3u3lcu4w5u3w3u1w4u2l1u6w1uewapbu5w5l8u1l3u1l17u1l10u2w1l1w7u1w3u1" ++
  "w4u7w2u1l3u2l1u2l2w2u2wau7p9l1w3p1l8u1l3u1l17u1lau1l5u2w1l1w7u1w3u1w4u7w2u6l2u1l2w2u2wau1l2w" ++
  "1ucw4l9u1l3u1l29w2l1w7u1w3u1w4l1p1u4l3w1p7l3w2u2wapal6u1w3u1l12u3l18u1l9u1l1u2l7u3w1u4w6u1w1" ++
  "u1w8u6wau2w2p1ucl30w1l2w7u4p1l7w8p1wap2u25l2u1l1u1l5u1l18u1l1u1law1l2w9l1u2l5u1l1u1w7u1wau2l" ++
  "4u20l1p17w2p6wapbw1p1w1p1w1p4w2l8u1l24u4w14p1w2l5wbu1w24u1p8w1p6u1pdu25l2bw14l1wap6l6w4l4w3l" ++
  "1w3l2w7l3w4ldwcl1wfp2l26u1l1u5l1u2l2bp1l14du1l4u2l7u1l1u1l4u2l29u1l4u2l21u1l4u2l7u1l1u1l4u2l" ++
  "fu1l39u1l4u2l43u2w3p9w9pbu3l10pau6l56u2l6u2p1l26cp2l11u1l1ap2u3l4bp3s3l8u7l12w4u9l13w3p2u9l1" ++
  "2w2ucldu1l3u1w2ucl34w20p3l1p4l1w1u2wau6pau6pbw3u1wbu6l59u7l5s2l22w1l1u5l46ual1fu1wcu4wcu4p1u" ++
  "3p2wal1eu2l5ubl2cu4l1au6wbu3p22l17w5u2p2l35wau1w1du2wbu6wau6p7l1p6u2wep1w10u31w5l2fw11l8u3wa" ++
  "p11w9pbu1w3l1ewdl2wal2cweu8p4l24w14u3p5wau3l3wal24p2l9u7l2bu2l3p8u8w3p1w15l4w1l6w1l2w3l1u5lc" ++
  "0w40l116u2l6u2l26u2l6u2l8u1l1u1l1u1l1u1l1fu2l35u1l7p1l1p3l3u1l7p3l4u2l6u1p3ldp3u2l3u1l7p2u11" ++
  "p18u8pfw2p13w1pau11p1l1u2pbl1pfu1ldu3p21ufwdp4w1p3wcufp2l1p4l1p2lap1l1p2s1l5p6l1p1l1p1l1p1l4" ++
  "s1lbp2l4p5l5p4l1p11s23l2s4p3u4p297u19pbu15p714u2p20u1p69le5p6l4w3l2u5p7l26u1l1u5l1u2l38u7l1p" ++
  "1uew1l17u9l7u1l7u1l7u1l7u1l7u1l7u1l7u1l7u1w20p2fv1p2eu22p1au1p59ucpd6u1apcu5p4l2s1p19s9w6p1l" ++
  "5p2s3l2p3u1l56u2w2s2l3p1l5ap1l4u5l2bu1l5eu1p10l20p24ucl10p1fu1p1e0l19c0p40l568du3p37u9l2ep2l" ++
  "10dp3l10wal2u14l2fw1p4wap1l1fw2l46saw2p6u8p17l9p2l67p2l40u5l2u1l1u1l5u18l10w1l3w1l4w1l17w5p4" ++
  "w1u3pau6l34p4u8w2l32w12u8p2wau6w12l6p3l1p1l2wbl1cw8p2l17wdubp1l1du3w4l2fwepdu1l1wau4p2l5w1la" ++
  "wal5u1l29weu9l3w1l8w2u2wau2p4l17p3l1w3l32w1l1w3l2w2l5w2l1w1l1u18l3p2lbw5p2l3w2ual6u2l6u2l6u9" ++
  "l7u1l7u1l2bp1lep2u4l73w8p1w2u2wau6l2ba4ucl17u4l31u2104l16eu2l6au26l7ucl5u5l1w1lap1ldu1l5u1l1" ++
  "u1l2u1l2u1l6cp11u10l16bp12l40u2l36u7p1u20lcp4w10pau6w10p3w2p18w3p3u1p13u1p4u4l5u1l87u4pfwap7" ++
  "l1ap4w1p1l1apbl59u3l6u2l6u2l6u2l3u3p7u1p7udp2u2lcu1l1au1l13u1l2u1lfu2leu22l7bu5p3u4p2du3p9s3" ++
  "5p1au1pdu3p1u2fp2dw1u82l1du3l31ufw1p1bu4l20p4u9l14s1l8s1u5l26w5u5l1eu1p1l24u4l8p1s5u2al9eu2w" ++
  "au6l24u4l24u4l28u8l34ubp1lbu1lfu1l7u1l2u1lbu1lfu1l7u1l2u43l137u9l16ual8u18l6u1l2au1l9u45l6u2" ++
  "l1u1l2cu1l2u3l1u2l17u1p9l17p9l1fu8p9u30l13u1l2u5p5l16p6u3p1l1au5p1u40l38u4p2l2p10u2p2el1w3u1" ++
  "w2u5w4l4u1l3u1l1du2w3u4w1p9u7p9u7l1dp3l1dp3u20l8p1l1cw2u4pcu9l36u3p7l16u2p8l13u5p8l12u7p4ucp" ++
  "7u50l49u37l33udl33u7p6l24w4u8wau126p1fu1l2au1w2p1u2l2u4bw3l1dpal1u8l16wbp9u16l12w4p4u26l15p7" ++
  "u14l17u9w3l35wfp7u4p14wbl2w2l1u9w4l2dwbp2u1p4w1udl19u7wau6w3l24weu1wap4l1w2l1u8l23w1p2l1u9w3" ++
  "l30wel4p4w4p1wcl1p1l1p3u1p14ubl12u1l19wcp6w1u1l1w1u3el7u1l1u1l4u1lfu1lap1u6l2fwcu5wau6w4u1l8" ++
  "u2l2u2l16u1l7u1l2u1l5u1w2l1w7u2w2u2w3u2l1u6w1u5l5w2u2w7u3w5u8bl35w12l4p5wap2u1p1w1l3u1el30w1" ++
  "4l2p1l1u8waua6l2fw7u2w9p17l4w2u22l30w11p3l1ubwau6pdu13l2bwdl1p1u6wau36l1bu2wfu4wap6l7ub9l2cw" ++
  "fp1u64l40wap9ucl8u2l1u2l8u1l2u1l18w6u1w2u2w4l1w1l1w2p3u9wau46l8u2l27w7u2w7l1p1l1w1u1bl1wal28" ++
  "w7l1w4p8w1u8l1wbl2ew10p3l1p5udl49u7pauf6l9u1l25w8u1w8l1p5uawap13u3p2l1eu2w16u1weu49l7u1l2u1l" ++
  "26w6u3w1u1w2u1w7l1w1u8wau6l6u1l2u1l20w5u1w2u1w5l1u7wau136l13w4p2u7w2l1w1ldu1l22w7u3w5pdwau56" ++
  "l1ufp32udp1l39au66s6fu1p5ublc4ua4cl61p2udl42fu11w1l6wfufaal247u21b9l239u7l1fu1wau4p2l4fu1wau" ++
  "6l1eu2w5p1ual30w7p9l4p2uawau1p7u1l15u5l13u2b0l40p1bu65l4bu4w1l1w37u7w4ldu40l2p1l1w1ubw2uel17" ++
  "f8u8l4d6u2al9u22e7l4u1l7u1l2u1l123ufl1u1dl3u2l1uel4u8l18cu904l6bu5ldu3l9u7lau2p1w2p1u1260w2e" ++
  "u2w17u9p74u3cpf6uap27u2p3cw5p3w6u8w8p2w7p1ew4p3du15p42w3p1u7ap14ucp14ucp57u9p19u87l55u1l47u1" ++
  "l2u2l1u2l2u2l4u1lcu1l1u1l7u1l41u1l4u2l8u1l7u1l1cu1l4u1l5u1l1u3l7u1l154u2l19p1l19p1l1fp1l19p1" ++
  "l1fp1l19p1l1fp1l19p1l1fp1l19p1l8u2w32p200w37p4w32p8w1pew1p7ufw5u1wfu450l1fu6l6ud5w7u1w11u2w7" ++
  "u1w2u1w5u5l3eu21w1u70l2du3w7l7u2wau4l1p1u140l1ew1u11l2cweu5p1u1d0l1cweu2e6l7u1l4u1l2u1lfu1lc" ++
  "5u2p9w7u29l44w7l1u4wau4p2u311p44u4cp3duc2l4u1l1bu1l2u1l1u2l1u1lau1l4u1l1u1l1u6l1u4l1u1l1u1l1" ++
  "u1l3u1l2u1l1u2l1u1l1u1l1u1l1u1l1u1l2u1l1u2l4u1l7u1l4u1l4u1l1u1lau1l11u5l3u1l5u1l11u34p2u10ep" ++
  "2cu4p64ucpfu2pfu1pfu1p25uapaeu38p1dudp2cu4p9u7p2uep6u9ap3d8u4p11u3pdu3p77u4p5fu6pcu4p1ufpcu4" ++
  "p38u8pau6p28u8p1eu2p2u4ep154ucpeu2pdu3p9u7p2eu1p7u8peu4p9u7p9u7p93u1p37u25wau406la6e0u20l103" ++
  "9u7ldeu2l1682uel1d31uc1fl21eu5e2l134bu5l1060uadd50wf0u2fe10"

/-- The category that a letter of the table stands for. -/
def Category.ofCode? : Char → Option Category
  | 'l' => some .letter
  | 'v' => some .loneLetter
  | 's' => some .wordStart
  | 'w' => some .wordPart
  | 'p' => some .shown
  | 'u' => some .hidden
  | _ => none

/-- The value of a lower-case hexadecimal digit. -/
def runDigit (c : Char) : Nat := if c.isDigit then c.toNat - 48 else c.toNat - 87

/-- Decodes runs from the back: digits gather into a length until their category letter comes. -/
def decodeRuns (cs : List Char) : List (Nat × Category) :=
  (cs.foldr (fun c (runs, length, weight) =>
    match Category.ofCode? c with
    | some k => ((length, k) :: runs, 0, 1)
    | none => (runs, length + weight * runDigit c, weight * 16)) (([] : List (Nat × Category)), 0, 1)).1

/-- The decoded table. -/
def categoryTable : List (Nat × Category) := decodeRuns categoryRuns.toList

/-- The category at a distance from the start of a run list. -/
def categoryIn : List (Nat × Category) → Nat → Category
  | [], _ => .hidden
  | (length, k) :: runs, n => if n < length then k else categoryIn runs (n - length)

/-- The category of a character from U+0080 on. Blanks and the mark of the byte order are hidden. -/
def categoryOf (c : Char) : Category :=
  if isBlank c || c.toNat == 0xfeff then .hidden else categoryIn categoryTable (c.toNat - 0x80)

/-- Whether a character is an ASCII character. -/
def isAscii (c : Char) : Bool := c.toNat < 0x80

/-- Whether a character is a letter of any script. -/
def isLetter (c : Char) : Bool :=
  if isAscii c then c.isAlpha
  else match categoryOf c with
    | .letter | .loneLetter => true
    | _ => false

/-- Whether a character can start a word of a script. -/
def startsWord (c : Char) : Bool :=
  if isAscii c then c.isAlpha
  else match categoryOf c with
    | .letter | .wordStart => true
    | _ => false

/-- Whether a character can stand inside a word of a script. -/
def continuesWord (c : Char) : Bool :=
  if isAscii c then c.isAlphanum || c == '_'
  else match categoryOf c with
    | .letter | .wordStart | .wordPart => true
    | _ => false

/-- Whether a character can be shown as it is; of the blanks only the space can. -/
def isShown (c : Char) : Bool :=
  if isAscii c then 0x20 ≤ c.toNat && c.toNat < 0x7f
  else match categoryOf c with
    | .hidden => false
    | _ => true

end Primer.Text

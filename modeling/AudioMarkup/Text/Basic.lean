/-!
Characters and quoted text. Blanks have the Unicode property White_Space. A line feed is blank too;
what it does to line numbers is not decided here.

Capitals have the Unicode property Uppercase, which is the general category Lu with the capital
Roman numerals and the circled, squared and negative capitals. Title case letters have no such
property. The letters of many scripts are coded as alternating pairs, capital first. The table keeps
those runs apart from the solid ones.

Quoted text is as trees and scripts have it. Quotes, backslashes and the characters below the blank
are escaped; all other characters stand for themselves.
-/

namespace AudioMarkup.Text

def blankRanges : List (Nat × Nat) :=
  [(0x0009, 0x000d), (0x0020, 0x0020), (0x0085, 0x0085), (0x00a0, 0x00a0), (0x1680, 0x1680),
   (0x2000, 0x200a), (0x2028, 0x2029), (0x202f, 0x202f), (0x205f, 0x205f), (0x3000, 0x3000)]

def isBlank (c : Char) : Bool :=
  blankRanges.any fun (first, last) => first ≤ c.toNat && c.toNat ≤ last

def solidCapitals : List (Nat × Nat) :=
  [(0x0041, 0x005a), (0x00c0, 0x00d6), (0x00d8, 0x00de), (0x0181, 0x0182), (0x018a, 0x018b),
   (0x018e, 0x0191), (0x0193, 0x0194), (0x0196, 0x0198), (0x019c, 0x019d), (0x019f, 0x01a0),
   (0x01b2, 0x01b3), (0x01b8, 0x01b8), (0x01bc, 0x01bc), (0x01c4, 0x01c4), (0x01c7, 0x01c7),
   (0x01ca, 0x01ca), (0x01f1, 0x01f1), (0x01f7, 0x01f8), (0x023a, 0x023b), (0x023d, 0x023e),
   (0x0244, 0x0246), (0x0376, 0x0376), (0x037f, 0x037f), (0x0389, 0x038a), (0x0392, 0x03a1),
   (0x03a3, 0x03ab), (0x03cf, 0x03cf), (0x03d2, 0x03d4), (0x03f4, 0x03f4), (0x03fa, 0x03fa),
   (0x03fd, 0x042f), (0x0531, 0x0556), (0x10a0, 0x10c5), (0x10c7, 0x10c7), (0x10cd, 0x10cd),
   (0x13a0, 0x13f5), (0x1c89, 0x1c89), (0x1c90, 0x1cba), (0x1cbd, 0x1cbf), (0x1f08, 0x1f0f),
   (0x1f18, 0x1f1d), (0x1f28, 0x1f2f), (0x1f38, 0x1f3f), (0x1f48, 0x1f4d), (0x1f68, 0x1f6f),
   (0x1fb8, 0x1fbb), (0x1fc8, 0x1fcb), (0x1fd8, 0x1fdb), (0x1fe8, 0x1fec), (0x1ff8, 0x1ffb),
   (0x2102, 0x2102), (0x2107, 0x2107), (0x210b, 0x210d), (0x2110, 0x2112), (0x2115, 0x2115),
   (0x2119, 0x211d), (0x212b, 0x212d), (0x2130, 0x2133), (0x213e, 0x213f), (0x2145, 0x2145),
   (0x2160, 0x216f), (0x2183, 0x2183), (0x24b6, 0x24cf), (0x2c00, 0x2c2f), (0x2c63, 0x2c64),
   (0x2c6e, 0x2c70), (0x2c72, 0x2c72), (0x2c75, 0x2c75), (0x2c7e, 0x2c80), (0x2cf2, 0x2cf2),
   (0xa7ab, 0xa7ae), (0xa7b0, 0xa7b4), (0xa7c5, 0xa7c7), (0xa7f5, 0xa7f5), (0xff21, 0xff3a),
   (0x10400, 0x10427), (0x104b0, 0x104d3), (0x10570, 0x1057a), (0x1057c, 0x1058a),
   (0x1058c, 0x10592), (0x10594, 0x10595), (0x10c80, 0x10cb2), (0x10d50, 0x10d65),
   (0x118a0, 0x118bf), (0x16e40, 0x16e5f), (0x16ea0, 0x16eb8), (0x1d400, 0x1d419),
   (0x1d434, 0x1d44d), (0x1d468, 0x1d481), (0x1d49f, 0x1d49f), (0x1d4a2, 0x1d4a2),
   (0x1d4a5, 0x1d4a6), (0x1d4a9, 0x1d4ac), (0x1d4ae, 0x1d4b5), (0x1d4d0, 0x1d4e9),
   (0x1d504, 0x1d505), (0x1d507, 0x1d50a), (0x1d50d, 0x1d514), (0x1d516, 0x1d51c),
   (0x1d538, 0x1d539), (0x1d53b, 0x1d53e), (0x1d540, 0x1d544), (0x1d546, 0x1d546),
   (0x1d54a, 0x1d550), (0x1d56c, 0x1d585), (0x1d5a0, 0x1d5b9), (0x1d5d4, 0x1d5ed),
   (0x1d608, 0x1d621), (0x1d63c, 0x1d655), (0x1d670, 0x1d689), (0x1d6a8, 0x1d6c0),
   (0x1d6e2, 0x1d6fa), (0x1d71c, 0x1d734), (0x1d756, 0x1d76e), (0x1d790, 0x1d7a8),
   (0x1d7ca, 0x1d7ca), (0x1e900, 0x1e921), (0x1f130, 0x1f149), (0x1f150, 0x1f169),
   (0x1f170, 0x1f189)]

/-- The inclusive ranges in which the first and then every second code point is a capital. -/
def alternatingCapitals : List (Nat × Nat) :=
  [(0x0100, 0x0136), (0x0139, 0x0147), (0x014a, 0x0178), (0x0179, 0x017d), (0x0184, 0x0186),
   (0x0187, 0x0189), (0x01a2, 0x01a6), (0x01a7, 0x01a9), (0x01ac, 0x01ae), (0x01af, 0x01b1),
   (0x01b5, 0x01b7), (0x01cd, 0x01db), (0x01de, 0x01ee), (0x01f4, 0x01f6), (0x01fa, 0x0232),
   (0x0241, 0x0243), (0x0248, 0x024e), (0x0370, 0x0372), (0x0386, 0x0388), (0x038c, 0x038e),
   (0x038f, 0x0391), (0x03d8, 0x03ee), (0x03f7, 0x03f9), (0x0460, 0x0480), (0x048a, 0x04c0),
   (0x04c1, 0x04cd), (0x04d0, 0x052e), (0x1e00, 0x1e94), (0x1e9e, 0x1efe), (0x1f59, 0x1f5f),
   (0x2124, 0x212a), (0x2c60, 0x2c62), (0x2c67, 0x2c6d), (0x2c82, 0x2ce2), (0x2ceb, 0x2ced),
   (0xa640, 0xa66c), (0xa680, 0xa69a), (0xa722, 0xa72e), (0xa732, 0xa76e), (0xa779, 0xa77d),
   (0xa77e, 0xa786), (0xa78b, 0xa78d), (0xa790, 0xa792), (0xa796, 0xa7aa), (0xa7b6, 0xa7c4),
   (0xa7c9, 0xa7cb), (0xa7cc, 0xa7dc), (0x1d49c, 0x1d49e)]

def isCapital (c : Char) : Bool :=
  solidCapitals.any (fun (first, last) => first ≤ c.toNat && c.toNat ≤ last) ||
  alternatingCapitals.any fun (first, last) =>
    first ≤ c.toNat && c.toNat ≤ last && (c.toNat - first) % 2 == 0

def escape (c : Char) : List Char :=
  if c = '"' then ['\\', '"']
  else if c = '\\' then ['\\', '\\']
  else if c = '\x08' then ['\\', 'b']
  else if c = '\x0c' then ['\\', 'f']
  else if c = '\n' then ['\\', 'n']
  else if c = '\r' then ['\\', 'r']
  else if c = '\t' then ['\\', 't']
  else if c.toNat < 0x20 then
    ['\\', 'u', '0', '0', Nat.digitChar (c.toNat / 16), Nat.digitChar (c.toNat % 16)]
  else [c]

def quote (text : String) : String :=
  String.ofList ('"' :: text.toList.flatMap escape ++ ['"'])

end AudioMarkup.Text

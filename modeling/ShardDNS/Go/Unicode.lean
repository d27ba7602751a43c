import Mathlib.Data.List.Basic
import Mathlib.Tactic.NormNum

/-!
# Runes and case mapping

Go strings are byte strings that usually hold UTF-8. This module gives the
part of the packages `unicode` and `unicode/utf8` that string functions use:
decoding a leading rune, reading a string as runes, and the simple case
mappings of the Unicode character database.

A byte that does not start a valid encoding is read as the replacement
character U+FFFD and takes one byte (`runes`). Reading inverts encoding
(`runes_encode`), so a string of encoded runes is determined by its runes.

The case mappings are given by ranges of code points. They are those of Unicode
15.0, the version of the Go release that `go.mod` names and the released program is
built with. The image of the `Dockerfile` is built with a later release, and later versions
of Unicode move a few more letters. The lower-case mapping is idempotent
(`toLowerRune_toLowerRune`) and sends no other code point to a white-space character
(`eq_of_isSpace_toLowerRune`).
-/

set_option autoImplicit false

namespace Go

/-- A Go string or byte slice. -/
abbrev Bytes := List UInt8

instance : LawfulBEq Bytes := inferInstanceAs (LawfulBEq (List UInt8))

/-! ## Case ranges -/

/-- The code points `lo, lo + stride, ..., hi`, mapped in order to the code points
from `image` on. -/
structure CaseRange where
  lo : Nat
  hi : Nat
  stride : Nat
  image : Nat
  deriving DecidableEq, Repr

/-- The code point belongs to the range. -/
def CaseRange.contains (range : CaseRange) (c : Nat) : Bool :=
  range.lo.ble c && c.ble range.hi && (c - range.lo) % range.stride == 0

/-- The image of a code point of the range. -/
def CaseRange.shift (range : CaseRange) (c : Nat) : Nat := range.image + (c - range.lo)

/-- The image of the last code point of the range. -/
def CaseRange.imageEnd (range : CaseRange) : Nat := range.image + (range.hi - range.lo)

/-- The simple lower-case mapping of the Unicode character database, version 15.0. -/
def lowerRanges : List CaseRange :=
  [⟨0x41, 0x5a, 1, 0x61⟩, ⟨0xc0, 0xd6, 1, 0xe0⟩, ⟨0xd8, 0xde, 1, 0xf8⟩, ⟨0x100, 0x12e, 2, 0x101⟩,
   ⟨0x130, 0x130, 1, 0x69⟩, ⟨0x132, 0x136, 2, 0x133⟩, ⟨0x139, 0x147, 2, 0x13a⟩,
   ⟨0x14a, 0x176, 2, 0x14b⟩, ⟨0x178, 0x178, 1, 0xff⟩, ⟨0x179, 0x17d, 2, 0x17a⟩,
   ⟨0x181, 0x181, 1, 0x253⟩, ⟨0x182, 0x184, 2, 0x183⟩, ⟨0x186, 0x186, 1, 0x254⟩,
   ⟨0x187, 0x187, 1, 0x188⟩, ⟨0x189, 0x18a, 1, 0x256⟩, ⟨0x18b, 0x18b, 1, 0x18c⟩,
   ⟨0x18e, 0x18e, 1, 0x1dd⟩, ⟨0x18f, 0x18f, 1, 0x259⟩, ⟨0x190, 0x190, 1, 0x25b⟩,
   ⟨0x191, 0x191, 1, 0x192⟩, ⟨0x193, 0x193, 1, 0x260⟩, ⟨0x194, 0x194, 1, 0x263⟩,
   ⟨0x196, 0x196, 1, 0x269⟩, ⟨0x197, 0x197, 1, 0x268⟩, ⟨0x198, 0x198, 1, 0x199⟩,
   ⟨0x19c, 0x19c, 1, 0x26f⟩, ⟨0x19d, 0x19d, 1, 0x272⟩, ⟨0x19f, 0x19f, 1, 0x275⟩,
   ⟨0x1a0, 0x1a4, 2, 0x1a1⟩, ⟨0x1a6, 0x1a6, 1, 0x280⟩, ⟨0x1a7, 0x1a7, 1, 0x1a8⟩,
   ⟨0x1a9, 0x1a9, 1, 0x283⟩, ⟨0x1ac, 0x1ac, 1, 0x1ad⟩, ⟨0x1ae, 0x1ae, 1, 0x288⟩,
   ⟨0x1af, 0x1af, 1, 0x1b0⟩, ⟨0x1b1, 0x1b2, 1, 0x28a⟩, ⟨0x1b3, 0x1b5, 2, 0x1b4⟩,
   ⟨0x1b7, 0x1b7, 1, 0x292⟩, ⟨0x1b8, 0x1b8, 1, 0x1b9⟩, ⟨0x1bc, 0x1bc, 1, 0x1bd⟩,
   ⟨0x1c4, 0x1c4, 1, 0x1c6⟩, ⟨0x1c5, 0x1c5, 1, 0x1c6⟩, ⟨0x1c7, 0x1c7, 1, 0x1c9⟩,
   ⟨0x1c8, 0x1c8, 1, 0x1c9⟩, ⟨0x1ca, 0x1ca, 1, 0x1cc⟩, ⟨0x1cb, 0x1db, 2, 0x1cc⟩,
   ⟨0x1de, 0x1ee, 2, 0x1df⟩, ⟨0x1f1, 0x1f1, 1, 0x1f3⟩, ⟨0x1f2, 0x1f4, 2, 0x1f3⟩,
   ⟨0x1f6, 0x1f6, 1, 0x195⟩, ⟨0x1f7, 0x1f7, 1, 0x1bf⟩, ⟨0x1f8, 0x21e, 2, 0x1f9⟩,
   ⟨0x220, 0x220, 1, 0x19e⟩, ⟨0x222, 0x232, 2, 0x223⟩, ⟨0x23a, 0x23a, 1, 0x2c65⟩,
   ⟨0x23b, 0x23b, 1, 0x23c⟩, ⟨0x23d, 0x23d, 1, 0x19a⟩, ⟨0x23e, 0x23e, 1, 0x2c66⟩,
   ⟨0x241, 0x241, 1, 0x242⟩, ⟨0x243, 0x243, 1, 0x180⟩, ⟨0x244, 0x244, 1, 0x289⟩,
   ⟨0x245, 0x245, 1, 0x28c⟩, ⟨0x246, 0x24e, 2, 0x247⟩, ⟨0x370, 0x372, 2, 0x371⟩,
   ⟨0x376, 0x376, 1, 0x377⟩, ⟨0x37f, 0x37f, 1, 0x3f3⟩, ⟨0x386, 0x386, 1, 0x3ac⟩,
   ⟨0x388, 0x38a, 1, 0x3ad⟩, ⟨0x38c, 0x38c, 1, 0x3cc⟩, ⟨0x38e, 0x38f, 1, 0x3cd⟩,
   ⟨0x391, 0x3a1, 1, 0x3b1⟩, ⟨0x3a3, 0x3ab, 1, 0x3c3⟩, ⟨0x3cf, 0x3cf, 1, 0x3d7⟩,
   ⟨0x3d8, 0x3ee, 2, 0x3d9⟩, ⟨0x3f4, 0x3f4, 1, 0x3b8⟩, ⟨0x3f7, 0x3f7, 1, 0x3f8⟩,
   ⟨0x3f9, 0x3f9, 1, 0x3f2⟩, ⟨0x3fa, 0x3fa, 1, 0x3fb⟩, ⟨0x3fd, 0x3ff, 1, 0x37b⟩,
   ⟨0x400, 0x40f, 1, 0x450⟩, ⟨0x410, 0x42f, 1, 0x430⟩, ⟨0x460, 0x480, 2, 0x461⟩,
   ⟨0x48a, 0x4be, 2, 0x48b⟩, ⟨0x4c0, 0x4c0, 1, 0x4cf⟩, ⟨0x4c1, 0x4cd, 2, 0x4c2⟩,
   ⟨0x4d0, 0x52e, 2, 0x4d1⟩, ⟨0x531, 0x556, 1, 0x561⟩, ⟨0x10a0, 0x10c5, 1, 0x2d00⟩,
   ⟨0x10c7, 0x10c7, 1, 0x2d27⟩, ⟨0x10cd, 0x10cd, 1, 0x2d2d⟩, ⟨0x13a0, 0x13ef, 1, 0xab70⟩,
   ⟨0x13f0, 0x13f5, 1, 0x13f8⟩, ⟨0x1c90, 0x1cba, 1, 0x10d0⟩, ⟨0x1cbd, 0x1cbf, 1, 0x10fd⟩,
   ⟨0x1e00, 0x1e94, 2, 0x1e01⟩, ⟨0x1e9e, 0x1e9e, 1, 0xdf⟩, ⟨0x1ea0, 0x1efe, 2, 0x1ea1⟩,
   ⟨0x1f08, 0x1f0f, 1, 0x1f00⟩, ⟨0x1f18, 0x1f1d, 1, 0x1f10⟩, ⟨0x1f28, 0x1f2f, 1, 0x1f20⟩,
   ⟨0x1f38, 0x1f3f, 1, 0x1f30⟩, ⟨0x1f48, 0x1f4d, 1, 0x1f40⟩, ⟨0x1f59, 0x1f5f, 2, 0x1f51⟩,
   ⟨0x1f68, 0x1f6f, 1, 0x1f60⟩, ⟨0x1f88, 0x1f8f, 1, 0x1f80⟩, ⟨0x1f98, 0x1f9f, 1, 0x1f90⟩,
   ⟨0x1fa8, 0x1faf, 1, 0x1fa0⟩, ⟨0x1fb8, 0x1fb9, 1, 0x1fb0⟩, ⟨0x1fba, 0x1fbb, 1, 0x1f70⟩,
   ⟨0x1fbc, 0x1fbc, 1, 0x1fb3⟩, ⟨0x1fc8, 0x1fcb, 1, 0x1f72⟩, ⟨0x1fcc, 0x1fcc, 1, 0x1fc3⟩,
   ⟨0x1fd8, 0x1fd9, 1, 0x1fd0⟩, ⟨0x1fda, 0x1fdb, 1, 0x1f76⟩, ⟨0x1fe8, 0x1fe9, 1, 0x1fe0⟩,
   ⟨0x1fea, 0x1feb, 1, 0x1f7a⟩, ⟨0x1fec, 0x1fec, 1, 0x1fe5⟩, ⟨0x1ff8, 0x1ff9, 1, 0x1f78⟩,
   ⟨0x1ffa, 0x1ffb, 1, 0x1f7c⟩, ⟨0x1ffc, 0x1ffc, 1, 0x1ff3⟩, ⟨0x2126, 0x2126, 1, 0x3c9⟩,
   ⟨0x212a, 0x212a, 1, 0x6b⟩, ⟨0x212b, 0x212b, 1, 0xe5⟩, ⟨0x2132, 0x2132, 1, 0x214e⟩,
   ⟨0x2160, 0x216f, 1, 0x2170⟩, ⟨0x2183, 0x2183, 1, 0x2184⟩, ⟨0x24b6, 0x24cf, 1, 0x24d0⟩,
   ⟨0x2c00, 0x2c2f, 1, 0x2c30⟩, ⟨0x2c60, 0x2c60, 1, 0x2c61⟩, ⟨0x2c62, 0x2c62, 1, 0x26b⟩,
   ⟨0x2c63, 0x2c63, 1, 0x1d7d⟩, ⟨0x2c64, 0x2c64, 1, 0x27d⟩, ⟨0x2c67, 0x2c6b, 2, 0x2c68⟩,
   ⟨0x2c6d, 0x2c6d, 1, 0x251⟩, ⟨0x2c6e, 0x2c6e, 1, 0x271⟩, ⟨0x2c6f, 0x2c6f, 1, 0x250⟩,
   ⟨0x2c70, 0x2c70, 1, 0x252⟩, ⟨0x2c72, 0x2c72, 1, 0x2c73⟩, ⟨0x2c75, 0x2c75, 1, 0x2c76⟩,
   ⟨0x2c7e, 0x2c7f, 1, 0x23f⟩, ⟨0x2c80, 0x2ce2, 2, 0x2c81⟩, ⟨0x2ceb, 0x2ced, 2, 0x2cec⟩,
   ⟨0x2cf2, 0x2cf2, 1, 0x2cf3⟩, ⟨0xa640, 0xa66c, 2, 0xa641⟩, ⟨0xa680, 0xa69a, 2, 0xa681⟩,
   ⟨0xa722, 0xa72e, 2, 0xa723⟩, ⟨0xa732, 0xa76e, 2, 0xa733⟩, ⟨0xa779, 0xa77b, 2, 0xa77a⟩,
   ⟨0xa77d, 0xa77d, 1, 0x1d79⟩, ⟨0xa77e, 0xa786, 2, 0xa77f⟩, ⟨0xa78b, 0xa78b, 1, 0xa78c⟩,
   ⟨0xa78d, 0xa78d, 1, 0x265⟩, ⟨0xa790, 0xa792, 2, 0xa791⟩, ⟨0xa796, 0xa7a8, 2, 0xa797⟩,
   ⟨0xa7aa, 0xa7aa, 1, 0x266⟩, ⟨0xa7ab, 0xa7ab, 1, 0x25c⟩, ⟨0xa7ac, 0xa7ac, 1, 0x261⟩,
   ⟨0xa7ad, 0xa7ad, 1, 0x26c⟩, ⟨0xa7ae, 0xa7ae, 1, 0x26a⟩, ⟨0xa7b0, 0xa7b0, 1, 0x29e⟩,
   ⟨0xa7b1, 0xa7b1, 1, 0x287⟩, ⟨0xa7b2, 0xa7b2, 1, 0x29d⟩, ⟨0xa7b3, 0xa7b3, 1, 0xab53⟩,
   ⟨0xa7b4, 0xa7c2, 2, 0xa7b5⟩, ⟨0xa7c4, 0xa7c4, 1, 0xa794⟩, ⟨0xa7c5, 0xa7c5, 1, 0x282⟩,
   ⟨0xa7c6, 0xa7c6, 1, 0x1d8e⟩, ⟨0xa7c7, 0xa7c9, 2, 0xa7c8⟩, ⟨0xa7d0, 0xa7d0, 1, 0xa7d1⟩,
   ⟨0xa7d6, 0xa7d8, 2, 0xa7d7⟩, ⟨0xa7f5, 0xa7f5, 1, 0xa7f6⟩, ⟨0xff21, 0xff3a, 1, 0xff41⟩,
   ⟨0x10400, 0x10427, 1, 0x10428⟩, ⟨0x104b0, 0x104d3, 1, 0x104d8⟩, ⟨0x10570, 0x1057a, 1, 0x10597⟩,
   ⟨0x1057c, 0x1058a, 1, 0x105a3⟩, ⟨0x1058c, 0x10592, 1, 0x105b3⟩, ⟨0x10594, 0x10595, 1, 0x105bb⟩,
   ⟨0x10c80, 0x10cb2, 1, 0x10cc0⟩, ⟨0x118a0, 0x118bf, 1, 0x118c0⟩, ⟨0x16e40, 0x16e5f, 1, 0x16e60⟩,
   ⟨0x1e900, 0x1e921, 1, 0x1e922⟩]

/-- The simple upper-case mapping of the Unicode character database, version 15.0. -/
def upperRanges : List CaseRange :=
  [⟨0x61, 0x7a, 1, 0x41⟩, ⟨0xb5, 0xb5, 1, 0x39c⟩, ⟨0xe0, 0xf6, 1, 0xc0⟩, ⟨0xf8, 0xfe, 1, 0xd8⟩,
   ⟨0xff, 0xff, 1, 0x178⟩, ⟨0x101, 0x12f, 2, 0x100⟩, ⟨0x131, 0x131, 1, 0x49⟩,
   ⟨0x133, 0x137, 2, 0x132⟩, ⟨0x13a, 0x148, 2, 0x139⟩, ⟨0x14b, 0x177, 2, 0x14a⟩,
   ⟨0x17a, 0x17e, 2, 0x179⟩, ⟨0x17f, 0x17f, 1, 0x53⟩, ⟨0x180, 0x180, 1, 0x243⟩,
   ⟨0x183, 0x185, 2, 0x182⟩, ⟨0x188, 0x188, 1, 0x187⟩, ⟨0x18c, 0x18c, 1, 0x18b⟩,
   ⟨0x192, 0x192, 1, 0x191⟩, ⟨0x195, 0x195, 1, 0x1f6⟩, ⟨0x199, 0x199, 1, 0x198⟩,
   ⟨0x19a, 0x19a, 1, 0x23d⟩, ⟨0x19e, 0x19e, 1, 0x220⟩, ⟨0x1a1, 0x1a5, 2, 0x1a0⟩,
   ⟨0x1a8, 0x1a8, 1, 0x1a7⟩, ⟨0x1ad, 0x1ad, 1, 0x1ac⟩, ⟨0x1b0, 0x1b0, 1, 0x1af⟩,
   ⟨0x1b4, 0x1b6, 2, 0x1b3⟩, ⟨0x1b9, 0x1b9, 1, 0x1b8⟩, ⟨0x1bd, 0x1bd, 1, 0x1bc⟩,
   ⟨0x1bf, 0x1bf, 1, 0x1f7⟩, ⟨0x1c5, 0x1c5, 1, 0x1c4⟩, ⟨0x1c6, 0x1c6, 1, 0x1c4⟩,
   ⟨0x1c8, 0x1c8, 1, 0x1c7⟩, ⟨0x1c9, 0x1c9, 1, 0x1c7⟩, ⟨0x1cb, 0x1cb, 1, 0x1ca⟩,
   ⟨0x1cc, 0x1cc, 1, 0x1ca⟩, ⟨0x1ce, 0x1dc, 2, 0x1cd⟩, ⟨0x1dd, 0x1dd, 1, 0x18e⟩,
   ⟨0x1df, 0x1ef, 2, 0x1de⟩, ⟨0x1f2, 0x1f2, 1, 0x1f1⟩, ⟨0x1f3, 0x1f3, 1, 0x1f1⟩,
   ⟨0x1f5, 0x1f5, 1, 0x1f4⟩, ⟨0x1f9, 0x21f, 2, 0x1f8⟩, ⟨0x223, 0x233, 2, 0x222⟩,
   ⟨0x23c, 0x23c, 1, 0x23b⟩, ⟨0x23f, 0x240, 1, 0x2c7e⟩, ⟨0x242, 0x242, 1, 0x241⟩,
   ⟨0x247, 0x24f, 2, 0x246⟩, ⟨0x250, 0x250, 1, 0x2c6f⟩, ⟨0x251, 0x251, 1, 0x2c6d⟩,
   ⟨0x252, 0x252, 1, 0x2c70⟩, ⟨0x253, 0x253, 1, 0x181⟩, ⟨0x254, 0x254, 1, 0x186⟩,
   ⟨0x256, 0x257, 1, 0x189⟩, ⟨0x259, 0x259, 1, 0x18f⟩, ⟨0x25b, 0x25b, 1, 0x190⟩,
   ⟨0x25c, 0x25c, 1, 0xa7ab⟩, ⟨0x260, 0x260, 1, 0x193⟩, ⟨0x261, 0x261, 1, 0xa7ac⟩,
   ⟨0x263, 0x263, 1, 0x194⟩, ⟨0x265, 0x265, 1, 0xa78d⟩, ⟨0x266, 0x266, 1, 0xa7aa⟩,
   ⟨0x268, 0x268, 1, 0x197⟩, ⟨0x269, 0x269, 1, 0x196⟩, ⟨0x26a, 0x26a, 1, 0xa7ae⟩,
   ⟨0x26b, 0x26b, 1, 0x2c62⟩, ⟨0x26c, 0x26c, 1, 0xa7ad⟩, ⟨0x26f, 0x26f, 1, 0x19c⟩,
   ⟨0x271, 0x271, 1, 0x2c6e⟩, ⟨0x272, 0x272, 1, 0x19d⟩, ⟨0x275, 0x275, 1, 0x19f⟩,
   ⟨0x27d, 0x27d, 1, 0x2c64⟩, ⟨0x280, 0x280, 1, 0x1a6⟩, ⟨0x282, 0x282, 1, 0xa7c5⟩,
   ⟨0x283, 0x283, 1, 0x1a9⟩, ⟨0x287, 0x287, 1, 0xa7b1⟩, ⟨0x288, 0x288, 1, 0x1ae⟩,
   ⟨0x289, 0x289, 1, 0x244⟩, ⟨0x28a, 0x28b, 1, 0x1b1⟩, ⟨0x28c, 0x28c, 1, 0x245⟩,
   ⟨0x292, 0x292, 1, 0x1b7⟩, ⟨0x29d, 0x29d, 1, 0xa7b2⟩, ⟨0x29e, 0x29e, 1, 0xa7b0⟩,
   ⟨0x345, 0x345, 1, 0x399⟩, ⟨0x371, 0x373, 2, 0x370⟩, ⟨0x377, 0x377, 1, 0x376⟩,
   ⟨0x37b, 0x37d, 1, 0x3fd⟩, ⟨0x3ac, 0x3ac, 1, 0x386⟩, ⟨0x3ad, 0x3af, 1, 0x388⟩,
   ⟨0x3b1, 0x3c1, 1, 0x391⟩, ⟨0x3c2, 0x3c2, 1, 0x3a3⟩, ⟨0x3c3, 0x3cb, 1, 0x3a3⟩,
   ⟨0x3cc, 0x3cc, 1, 0x38c⟩, ⟨0x3cd, 0x3ce, 1, 0x38e⟩, ⟨0x3d0, 0x3d0, 1, 0x392⟩,
   ⟨0x3d1, 0x3d1, 1, 0x398⟩, ⟨0x3d5, 0x3d5, 1, 0x3a6⟩, ⟨0x3d6, 0x3d6, 1, 0x3a0⟩,
   ⟨0x3d7, 0x3d7, 1, 0x3cf⟩, ⟨0x3d9, 0x3ef, 2, 0x3d8⟩, ⟨0x3f0, 0x3f0, 1, 0x39a⟩,
   ⟨0x3f1, 0x3f1, 1, 0x3a1⟩, ⟨0x3f2, 0x3f2, 1, 0x3f9⟩, ⟨0x3f3, 0x3f3, 1, 0x37f⟩,
   ⟨0x3f5, 0x3f5, 1, 0x395⟩, ⟨0x3f8, 0x3f8, 1, 0x3f7⟩, ⟨0x3fb, 0x3fb, 1, 0x3fa⟩,
   ⟨0x430, 0x44f, 1, 0x410⟩, ⟨0x450, 0x45f, 1, 0x400⟩, ⟨0x461, 0x481, 2, 0x460⟩,
   ⟨0x48b, 0x4bf, 2, 0x48a⟩, ⟨0x4c2, 0x4ce, 2, 0x4c1⟩, ⟨0x4cf, 0x4cf, 1, 0x4c0⟩,
   ⟨0x4d1, 0x52f, 2, 0x4d0⟩, ⟨0x561, 0x586, 1, 0x531⟩, ⟨0x10d0, 0x10fa, 1, 0x1c90⟩,
   ⟨0x10fd, 0x10ff, 1, 0x1cbd⟩, ⟨0x13f8, 0x13fd, 1, 0x13f0⟩, ⟨0x1c80, 0x1c80, 1, 0x412⟩,
   ⟨0x1c81, 0x1c81, 1, 0x414⟩, ⟨0x1c82, 0x1c82, 1, 0x41e⟩, ⟨0x1c83, 0x1c84, 1, 0x421⟩,
   ⟨0x1c85, 0x1c85, 1, 0x422⟩, ⟨0x1c86, 0x1c86, 1, 0x42a⟩, ⟨0x1c87, 0x1c87, 1, 0x462⟩,
   ⟨0x1c88, 0x1c88, 1, 0xa64a⟩, ⟨0x1d79, 0x1d79, 1, 0xa77d⟩, ⟨0x1d7d, 0x1d7d, 1, 0x2c63⟩,
   ⟨0x1d8e, 0x1d8e, 1, 0xa7c6⟩, ⟨0x1e01, 0x1e95, 2, 0x1e00⟩, ⟨0x1e9b, 0x1e9b, 1, 0x1e60⟩,
   ⟨0x1ea1, 0x1eff, 2, 0x1ea0⟩, ⟨0x1f00, 0x1f07, 1, 0x1f08⟩, ⟨0x1f10, 0x1f15, 1, 0x1f18⟩,
   ⟨0x1f20, 0x1f27, 1, 0x1f28⟩, ⟨0x1f30, 0x1f37, 1, 0x1f38⟩, ⟨0x1f40, 0x1f45, 1, 0x1f48⟩,
   ⟨0x1f51, 0x1f57, 2, 0x1f59⟩, ⟨0x1f60, 0x1f67, 1, 0x1f68⟩, ⟨0x1f70, 0x1f71, 1, 0x1fba⟩,
   ⟨0x1f72, 0x1f75, 1, 0x1fc8⟩, ⟨0x1f76, 0x1f77, 1, 0x1fda⟩, ⟨0x1f78, 0x1f79, 1, 0x1ff8⟩,
   ⟨0x1f7a, 0x1f7b, 1, 0x1fea⟩, ⟨0x1f7c, 0x1f7d, 1, 0x1ffa⟩, ⟨0x1f80, 0x1f87, 1, 0x1f88⟩,
   ⟨0x1f90, 0x1f97, 1, 0x1f98⟩, ⟨0x1fa0, 0x1fa7, 1, 0x1fa8⟩, ⟨0x1fb0, 0x1fb1, 1, 0x1fb8⟩,
   ⟨0x1fb3, 0x1fb3, 1, 0x1fbc⟩, ⟨0x1fbe, 0x1fbe, 1, 0x399⟩, ⟨0x1fc3, 0x1fc3, 1, 0x1fcc⟩,
   ⟨0x1fd0, 0x1fd1, 1, 0x1fd8⟩, ⟨0x1fe0, 0x1fe1, 1, 0x1fe8⟩, ⟨0x1fe5, 0x1fe5, 1, 0x1fec⟩,
   ⟨0x1ff3, 0x1ff3, 1, 0x1ffc⟩, ⟨0x214e, 0x214e, 1, 0x2132⟩, ⟨0x2170, 0x217f, 1, 0x2160⟩,
   ⟨0x2184, 0x2184, 1, 0x2183⟩, ⟨0x24d0, 0x24e9, 1, 0x24b6⟩, ⟨0x2c30, 0x2c5f, 1, 0x2c00⟩,
   ⟨0x2c61, 0x2c61, 1, 0x2c60⟩, ⟨0x2c65, 0x2c65, 1, 0x23a⟩, ⟨0x2c66, 0x2c66, 1, 0x23e⟩,
   ⟨0x2c68, 0x2c6c, 2, 0x2c67⟩, ⟨0x2c73, 0x2c73, 1, 0x2c72⟩, ⟨0x2c76, 0x2c76, 1, 0x2c75⟩,
   ⟨0x2c81, 0x2ce3, 2, 0x2c80⟩, ⟨0x2cec, 0x2cee, 2, 0x2ceb⟩, ⟨0x2cf3, 0x2cf3, 1, 0x2cf2⟩,
   ⟨0x2d00, 0x2d25, 1, 0x10a0⟩, ⟨0x2d27, 0x2d27, 1, 0x10c7⟩, ⟨0x2d2d, 0x2d2d, 1, 0x10cd⟩,
   ⟨0xa641, 0xa66d, 2, 0xa640⟩, ⟨0xa681, 0xa69b, 2, 0xa680⟩, ⟨0xa723, 0xa72f, 2, 0xa722⟩,
   ⟨0xa733, 0xa76f, 2, 0xa732⟩, ⟨0xa77a, 0xa77c, 2, 0xa779⟩, ⟨0xa77f, 0xa787, 2, 0xa77e⟩,
   ⟨0xa78c, 0xa78c, 1, 0xa78b⟩, ⟨0xa791, 0xa793, 2, 0xa790⟩, ⟨0xa794, 0xa794, 1, 0xa7c4⟩,
   ⟨0xa797, 0xa7a9, 2, 0xa796⟩, ⟨0xa7b5, 0xa7c3, 2, 0xa7b4⟩, ⟨0xa7c8, 0xa7ca, 2, 0xa7c7⟩,
   ⟨0xa7d1, 0xa7d1, 1, 0xa7d0⟩, ⟨0xa7d7, 0xa7d9, 2, 0xa7d6⟩, ⟨0xa7f6, 0xa7f6, 1, 0xa7f5⟩,
   ⟨0xab53, 0xab53, 1, 0xa7b3⟩, ⟨0xab70, 0xabbf, 1, 0x13a0⟩, ⟨0xff41, 0xff5a, 1, 0xff21⟩,
   ⟨0x10428, 0x1044f, 1, 0x10400⟩, ⟨0x104d8, 0x104fb, 1, 0x104b0⟩, ⟨0x10597, 0x105a1, 1, 0x10570⟩,
   ⟨0x105a3, 0x105b1, 1, 0x1057c⟩, ⟨0x105b3, 0x105b9, 1, 0x1058c⟩, ⟨0x105bb, 0x105bc, 1, 0x10594⟩,
   ⟨0x10cc0, 0x10cf2, 1, 0x10c80⟩, ⟨0x118c0, 0x118df, 1, 0x118a0⟩, ⟨0x16e60, 0x16e7f, 1, 0x16e40⟩,
   ⟨0x1e922, 0x1e943, 1, 0x1e900⟩]

/-- The mapping a list of ranges describes: a code point outside all of them
stays where it is. -/
def mapCase (ranges : List CaseRange) (c : Char) : Char :=
  match ranges.find? (·.contains c.toNat) with
  | none => c
  | some range => Char.ofNat (range.shift c.toNat)

/-- `unicode.ToLower`. -/
def toLowerRune (c : Char) : Char := mapCase lowerRanges c

/-- `unicode.ToUpper`. -/
def toUpperRune (c : Char) : Char := mapCase upperRanges c

/-- The code points `unicode.IsSpace` accepts. -/
def spaceRunes : List Char :=
  [0x09, 0x0a, 0x0b, 0x0c, 0x0d, 0x20, 0x85, 0xa0, 0x1680, 0x2000, 0x2001, 0x2002, 0x2003, 0x2004,
   0x2005, 0x2006, 0x2007, 0x2008, 0x2009, 0x200a, 0x2028, 0x2029, 0x202f, 0x205f, 0x3000].map
    Char.ofNat

/-- `unicode.IsSpace`. -/
def isSpace (c : Char) : Bool := spaceRunes.contains c

/-! ## The mappings are idempotent -/

/-- No point of the first range is moved into the second. Ranges that do not
meet as intervals need no look at their points. -/
def CaseRange.clears (range other : CaseRange) : Bool :=
  Nat.blt range.imageEnd other.lo || Nat.blt other.hi range.image ||
    (List.range (range.hi - range.lo + 1)).all fun k =>
      !(range.contains (range.lo + k)) || !(other.contains (range.shift (range.lo + k)))

theorem CaseRange.contains_iff {range : CaseRange} {c : Nat} :
    range.contains c = true ↔
      range.lo ≤ c ∧ c ≤ range.hi ∧ (c - range.lo) % range.stride = 0 := by
  simp [CaseRange.contains, and_assoc]

theorem CaseRange.contains_shift_of_clears {range other : CaseRange} {c : Nat}
    (clears : range.clears other = true) (member : range.contains c = true) :
    other.contains (range.shift c) = false := by
  obtain ⟨lower, upper, -⟩ := contains_iff.mp member
  rw [Bool.eq_false_iff]
  intro inside
  obtain ⟨otherLower, otherUpper, -⟩ := contains_iff.mp inside
  simp only [CaseRange.shift] at otherLower otherUpper
  simp only [CaseRange.clears, CaseRange.imageEnd, Bool.or_eq_true, Nat.blt_eq, List.all_eq_true,
    List.mem_range] at clears
  rcases clears with (before | after) | pointwise
  · omega
  · omega
  · have here := pointwise (c - range.lo) (by omega)
    rw [Nat.add_sub_cancel' lower, member, inside] at here
    simp at here

/-- The lower-case images of the ranges avoid all ranges. -/
theorem lowerRanges_clear :
    (lowerRanges.all fun range => lowerRanges.all fun other => range.clears other) = true := by
  decide +kernel

/-- The images are code points, and none of them is white space. -/
def CaseRange.landsOnLetters (range : CaseRange) : Bool :=
  (Nat.blt range.imageEnd 0xd800 ||
    Nat.blt 0xdfff range.image && Nat.blt range.imageEnd 0x110000) &&
    spaceRunes.all fun space =>
      Nat.blt range.imageEnd space.toNat || Nat.blt space.toNat range.image

theorem lowerRanges_landOnLetters : lowerRanges.all CaseRange.landsOnLetters = true := by
  decide +kernel

/-- A letter either stays, or is moved by a range that contains it. -/
theorem mapCase_cases (ranges : List CaseRange) (c : Char) :
    (mapCase ranges c = c ∧ ∀ range ∈ ranges, range.contains c.toNat = false) ∨
      ∃ range ∈ ranges, range.contains c.toNat = true ∧
        mapCase ranges c = Char.ofNat (range.shift c.toNat) := by
  cases found : ranges.find? (·.contains c.toNat) with
  | none =>
      refine .inl ⟨by simp only [mapCase, found], fun range member => ?_⟩
      simpa using List.find?_eq_none.mp found range member
  | some range =>
      have inside := List.find?_some found
      exact .inr ⟨range, List.mem_of_find?_eq_some found, inside, by simp only [mapCase, found]⟩

theorem CaseRange.toNat_ofNat_shift {range : CaseRange} (lands : range.landsOnLetters = true)
    {c : Nat} (inside : range.contains c = true) :
    (Char.ofNat (range.shift c)).toNat = range.shift c := by
  simp only [CaseRange.landsOnLetters, CaseRange.imageEnd, Bool.and_eq_true, Bool.or_eq_true,
    Nat.blt_eq] at lands
  obtain ⟨lower, upper, -⟩ := CaseRange.contains_iff.mp inside
  have valid : (range.shift c).isValidChar := by
    simp only [CaseRange.shift, Nat.isValidChar]
    omega
  rw [Char.ofNat, dif_pos valid]
  rfl

/-- Ranges whose images avoid all of them map everything once. -/
theorem mapCase_mapCase {ranges : List CaseRange}
    (clear : (ranges.all fun range => ranges.all fun other => range.clears other) = true)
    (lands : ranges.all CaseRange.landsOnLetters = true) (c : Char) :
    mapCase ranges (mapCase ranges c) = mapCase ranges c := by
  rcases mapCase_cases ranges c with ⟨stays, -⟩ | ⟨range, member, inside, moves⟩
  · rw [stays, stays]
  · rcases mapCase_cases ranges (mapCase ranges c) with ⟨stays, -⟩ | ⟨other, member', inside', -⟩
    · exact stays
    · have clears := List.all_eq_true.mp (List.all_eq_true.mp clear range member) other member'
      have outside := CaseRange.contains_shift_of_clears clears inside
      have image := CaseRange.toNat_ofNat_shift (List.all_eq_true.mp lands range member) inside
      rw [moves, image, outside] at inside'
      exact absurd inside' (by simp)

/-- **Lower-casing twice is lower-casing once.** -/
theorem toLowerRune_toLowerRune (c : Char) : toLowerRune (toLowerRune c) = toLowerRune c :=
  mapCase_mapCase lowerRanges_clear lowerRanges_landOnLetters c

/-- **So is upper-casing.** -/
theorem toUpperRune_toUpperRune (c : Char) : toUpperRune (toUpperRune c) = toUpperRune c :=
  mapCase_mapCase (by decide +kernel) (by decide +kernel) c

/-- No letter is lower-cased to white space. -/
theorem eq_of_isSpace_toLowerRune {c : Char} (space : isSpace (toLowerRune c) = true) :
    toLowerRune c = c := by
  rcases mapCase_cases lowerRanges c with ⟨stays, -⟩ | ⟨range, member, inside, moves⟩
  · exact stays
  · have lands := List.all_eq_true.mp lowerRanges_landOnLetters range member
    simp only [CaseRange.landsOnLetters, CaseRange.imageEnd, Bool.and_eq_true, Bool.or_eq_true,
      Nat.blt_eq, List.all_eq_true] at lands
    have apart := lands.2 (toLowerRune c) (by simpa [isSpace] using space)
    obtain ⟨lower, upper, -⟩ := CaseRange.contains_iff.mp inside
    have image := CaseRange.toNat_ofNat_shift
      (List.all_eq_true.mp lowerRanges_landOnLetters range member) inside
    rw [toLowerRune, moves, image, CaseRange.shift] at apart
    omega

/-! ## Encoding and decoding -/

/-- The replacement character, read where a string is not valid UTF-8. -/
def runeError : Char := '�'

/-- The UTF-8 encoding of a list of runes. -/
def encode (rs : List Char) : Bytes := rs.flatMap String.utf8EncodeChar

@[simp] theorem encode_nil : encode [] = [] := rfl

@[simp] theorem encode_cons (c : Char) (rs : List Char) :
    encode (c :: rs) = String.utf8EncodeChar c ++ encode rs := rfl

theorem encode_append (first second : List Char) :
    encode (first ++ second) = encode first ++ encode second := by
  simp [encode]

/-- The rune whose encoding starts the string, when there is one. -/
def decodeRune? (s : Bytes) : Option Char := s.toByteArray.utf8DecodeChar? 0

theorem decodeRune?_append (c : Char) (s : Bytes) :
    decodeRune? (String.utf8EncodeChar c ++ s) = some c := by
  rw [decodeRune?, List.toByteArray_append]
  exact ByteArray.utf8DecodeChar?_utf8EncodeChar_append

theorem eq_append_of_decodeRune? {s : Bytes} {c : Char} (decoded : decodeRune? s = some c) :
    s = String.utf8EncodeChar c ++ s.drop c.utf8Size := by
  obtain ⟨rest, split⟩ := ByteArray.exists_of_utf8DecodeChar?_eq_some decoded
  have bytes := congrArg (fun b => b.data.toList) split
  simp only [List.data_toByteArray, ByteArray.data_append, Array.toList_append] at bytes
  have shape : s = String.utf8EncodeChar c ++ rest.data.toList := by simpa using bytes
  conv_lhs => rw [shape]
  rw [shape, ← String.length_utf8EncodeChar c, List.drop_left]

theorem utf8EncodeChar_ne_nil (c : Char) : String.utf8EncodeChar c ≠ [] := by
  intro empty
  have size := String.length_utf8EncodeChar c
  rw [empty] at size
  exact absurd size (Nat.ne_of_lt (Char.utf8Size_pos c))

/-- The number of bytes a string's leading rune takes. -/
def runeWidth (s : Bytes) : Nat :=
  match decodeRune? s with
  | some c => c.utf8Size
  | none => 1

/-- The loop that reads a string rune by rune; `fuel` bounds the number of runes. -/
def readLoop {α : Type} (read : Bytes → α) : Nat → Bytes → List α
  | 0, _ => []
  | _ + 1, [] => []
  | fuel + 1, b :: s =>
      read (b :: s) :: readLoop read fuel ((b :: s).drop (runeWidth (b :: s)))

/-- A string read as runes, as `range` over it does. -/
def runes (s : Bytes) : List Char :=
  readLoop (fun s => (decodeRune? s).getD runeError) s.length s

theorem runeWidth_pos (s : Bytes) : 0 < runeWidth s := by
  unfold runeWidth
  split
  · exact Char.utf8Size_pos _
  · exact Nat.one_pos

/-- The bound does not matter once it is at least the length. -/
theorem readLoop_eq {α : Type} (read : Bytes → α) {n m : Nat} {s : Bytes} (enough : s.length ≤ n)
    (enough' : s.length ≤ m) : readLoop read n s = readLoop read m s := by
  induction n generalizing m s with
  | zero =>
      cases s with
      | nil => cases m <;> rfl
      | cons b s => simp at enough
  | succ n ih =>
      cases s with
      | nil => cases m <;> rfl
      | cons b s =>
          cases m with
          | zero => simp at enough'
          | succ m =>
              have width := runeWidth_pos (b :: s)
              have rest : ((b :: s).drop (runeWidth (b :: s))).length ≤ s.length := by
                simp only [List.length_drop, List.length_cons]
                omega
              simp only [List.length_cons] at enough enough'
              simp only [readLoop]
              rw [ih (m := m) (by omega) (by omega)]

theorem readLoop_cons {α : Type} (read : Bytes → α) (b : UInt8) (s : Bytes) :
    readLoop read (b :: s).length (b :: s) = read (b :: s) ::
      readLoop read ((b :: s).drop (runeWidth (b :: s))).length
        ((b :: s).drop (runeWidth (b :: s))) := by
  have width := runeWidth_pos (b :: s)
  have rest : ((b :: s).drop (runeWidth (b :: s))).length ≤ s.length := by
    simp only [List.length_drop, List.length_cons]
    omega
  rw [readLoop_eq read (Nat.le_refl _) rest]
  rfl

theorem runes_cons (b : UInt8) (s : Bytes) :
    runes (b :: s) =
      (decodeRune? (b :: s)).getD runeError :: runes ((b :: s).drop (runeWidth (b :: s))) :=
  readLoop_cons _ b s

theorem runes_append (c : Char) (s : Bytes) :
    runes (String.utf8EncodeChar c ++ s) = c :: runes s := by
  have decoded := decodeRune?_append c s
  obtain ⟨b, rest, shape⟩ := List.exists_cons_of_ne_nil (utf8EncodeChar_ne_nil c)
  have drop : (String.utf8EncodeChar c ++ s).drop c.utf8Size = s := by
    rw [← String.length_utf8EncodeChar c, List.drop_left]
  rw [shape, List.cons_append] at decoded drop ⊢
  rw [runes_cons, runeWidth, decoded]
  simp only [Option.getD_some, drop]

/-- **Reading inverts encoding.** -/
theorem runes_encode (rs : List Char) : runes (encode rs) = rs := by
  induction rs with
  | nil => rfl
  | cons c rs ih => rw [encode_cons, runes_append, ih]

end Go

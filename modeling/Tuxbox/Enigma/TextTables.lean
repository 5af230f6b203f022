import Tuxbox.Lib.Bytes
import Mathlib.Data.List.Basic

/-!
# The coding tables

What the bytes from `0xA0` on stand for in the tables of ISO 8859 and ISO 6937,
and the pairs of an accent and a letter that stand for one character.
-/

namespace Tuxbox.Enigma.Text

/-! ## 8859-x to ucs-16 coding tables -/

def c88592 : List Nat :=
  [0xA0, 0x104, 0x2D8, 0x141, 0xA4, 0x13D, 0x15A, 0xA7, 0xA8, 0x160, 0x15E, 0x164, 0x179, 0xAD,
   0x17D, 0x17B, 0xB0, 0x105, 0x2DB, 0x142, 0xB4, 0x13E, 0x15B, 0x2C7, 0xB8, 0x161, 0x15F, 0x165,
   0x17A, 0x2DD, 0x17E, 0x17C, 0x154, 0xC1, 0xC2, 0x102, 0xC4, 0x139, 0x106, 0xC7, 0x10C, 0xC9,
   0x118, 0xCB, 0x11A, 0xCD, 0xCE, 0x10E, 0x110, 0x143, 0x147, 0xD3, 0xD4, 0x150, 0xD6, 0xD7, 0x158,
   0x16E, 0xDA, 0x170, 0xDC, 0xDD, 0x162, 0xDF, 0x155, 0xE1, 0xE2, 0x103, 0xE4, 0x13A, 0x107, 0xE7,
   0x10D, 0xE9, 0x119, 0xEB, 0x11B, 0xED, 0xEE, 0x10F, 0x111, 0x144, 0x148, 0xF3, 0xF4, 0x151, 0xF6,
   0xF7, 0x159, 0x16F, 0xFA, 0x171, 0xFC, 0xFD, 0x163, 0x2D9]

def c88593 : List Nat :=
  [0xA0, 0x126, 0x2D8, 0xA3, 0xA4, 0, 0x124, 0xA7, 0xA8, 0x130, 0x15E, 0x11E, 0x134, 0xAD, 0, 0x17B,
   0xB0, 0x127, 0xB2, 0xB3, 0xB4, 0xB5, 0x125, 0xB7, 0xB8, 0x131, 0x15F, 0x11F, 0x135, 0xBD, 0,
   0x17C, 0xC0, 0xC1, 0xC2, 0, 0xC4, 0x10A, 0x108, 0xC7, 0xC8, 0xC9, 0xCA, 0xCB, 0xCC, 0xCD, 0xCE,
   0xCF, 0, 0xD1, 0xD2, 0xD3, 0xD4, 0x120, 0xD6, 0xD7, 0x11C, 0xD9, 0xDA, 0xDB, 0xDC, 0x16C, 0x15C,
   0xDF, 0xE0, 0xE1, 0xE2, 0, 0xE4, 0x10B, 0x109, 0xE7, 0xE8, 0xE9, 0xEA, 0xEB, 0xEC, 0xED, 0xEE,
   0xEF, 0, 0xF1, 0xF2, 0xF3, 0xF4, 0x121, 0xF6, 0xF7, 0x11D, 0xF9, 0xFA, 0xFB, 0xFC, 0x16D, 0x15D,
   0x2D9]

def c88594 : List Nat :=
  [0xA0, 0x104, 0x138, 0x156, 0xA4, 0x128, 0x13B, 0xA7, 0xA8, 0x160, 0x112, 0x122, 0x166, 0xAD,
   0x17D, 0xAF, 0xB0, 0x105, 0x2DB, 0x157, 0xB4, 0x129, 0x13C, 0x2C7, 0xB8, 0x161, 0x113, 0x123,
   0x167, 0x14A, 0x17E, 0x14B, 0x100, 0xC1, 0xC2, 0xC3, 0xC4, 0xC5, 0xC6, 0x12E, 0x10C, 0xC9, 0x118,
   0xCB, 0x116, 0xCD, 0xCE, 0x12A, 0x110, 0x145, 0x14C, 0x136, 0xD4, 0xD5, 0xD6, 0xD7, 0xD8, 0x172,
   0xDA, 0xDB, 0xDC, 0x168, 0x16A, 0xDF, 0x101, 0xE1, 0xE2, 0xE3, 0xE4, 0xE5, 0xE6, 0x12F, 0x10D,
   0xE9, 0x119, 0xEB, 0x117, 0xED, 0xEE, 0x12B, 0x111, 0x146, 0x14D, 0x137, 0xF4, 0xF5, 0xF6, 0xF7,
   0xF8, 0x173, 0xFA, 0xFB, 0xFC, 0x169, 0x16B, 0x2D9]

def c88595 : List Nat :=
  [0xA0, 0x401, 0x402, 0x403, 0x404, 0x405, 0x406, 0x407, 0x408, 0x409, 0x40A, 0x40B, 0x40C, 0xAD,
   0x40E, 0x40F, 0x410, 0x411, 0x412, 0x413, 0x414, 0x415, 0x416, 0x417, 0x418, 0x419, 0x41A, 0x41B,
   0x41C, 0x41D, 0x41E, 0x41F, 0x420, 0x421, 0x422, 0x423, 0x424, 0x425, 0x426, 0x427, 0x428, 0x429,
   0x42A, 0x42B, 0x42C, 0x42D, 0x42E, 0x42F, 0x430, 0x431, 0x432, 0x433, 0x434, 0x435, 0x436, 0x437,
   0x438, 0x439, 0x43A, 0x43B, 0x43C, 0x43D, 0x43E, 0x43F, 0x440, 0x441, 0x442, 0x443, 0x444, 0x445,
   0x446, 0x447, 0x448, 0x449, 0x44A, 0x44B, 0x44C, 0x44D, 0x44E, 0x44F, 0x2116, 0x451, 0x452,
   0x453, 0x454, 0x455, 0x456, 0x457, 0x458, 0x459, 0x45A, 0x45B, 0x45C, 0xA7, 0x45E, 0x45F]

def c88596 : List Nat :=
  [0xA0, 0, 0, 0, 0xA4, 0, 0, 0, 0, 0, 0, 0, 0x60C, 0xAD, 0, 0, 0, 0, 0, 0, 0, 0, 0, 0, 0, 0, 0,
   0x61B, 0, 0, 0, 0x61F, 0, 0x621, 0x622, 0x623, 0x624, 0x625, 0x626, 0x627, 0x628, 0x629, 0x62A,
   0x62B, 0x62C, 0x62D, 0x62E, 0x62F, 0x630, 0x631, 0x632, 0x633, 0x634, 0x635, 0x636, 0x637, 0x638,
   0x639, 0x63A, 0, 0, 0, 0, 0, 0x640, 0x641, 0x642, 0x643, 0x644, 0x645, 0x646, 0x647, 0x648,
   0x649, 0x64A, 0x64B, 0x64C, 0x64D, 0x64E, 0x64F, 0x650, 0x651, 0x652, 0, 0, 0, 0, 0, 0, 0, 0, 0,
   0, 0, 0, 0]

def c88597 : List Nat :=
  [0xA0, 0x2018, 0x2019, 0xA3, 0x20AC, 0x20AF, 0xA6, 0xA7, 0xA8, 0xA9, 0x37A, 0xAB, 0xAC, 0xAD, 0,
   0x2015, 0xB0, 0xB1, 0xB2, 0xB3, 0x384, 0x385, 0x386, 0xB7, 0x388, 0x389, 0x38A, 0xBB, 0x38C,
   0xBD, 0x38E, 0x38F, 0x390, 0x391, 0x392, 0x393, 0x394, 0x395, 0x396, 0x397, 0x398, 0x399, 0x39A,
   0x39B, 0x39C, 0x39D, 0x39E, 0x39F, 0x3A0, 0x3A1, 0, 0x3A3, 0x3A4, 0x3A5, 0x3A6, 0x3A7, 0x3A8,
   0x3A9, 0x3AA, 0x3AB, 0x3AC, 0x3AD, 0x3AE, 0x3AF, 0x3B0, 0x3B1, 0x3B2, 0x3B3, 0x3B4, 0x3B5, 0x3B6,
   0x3B7, 0x3B8, 0x3B9, 0x3BA, 0x3BB, 0x3BC, 0x3BD, 0x3BE, 0x3BF, 0x3C0, 0x3C1, 0x3C2, 0x3C3, 0x3C4,
   0x3C5, 0x3C6, 0x3C7, 0x3C8, 0x3C9, 0x3CA, 0x3CB, 0x3CC, 0x3CD, 0x3CE, 0]

def c88598 : List Nat :=
  [0xA0, 0, 0xA2, 0xA3, 0xA4, 0xA5, 0xA6, 0xA7, 0xA8, 0xA9, 0xD7, 0xAB, 0xAC, 0xAD, 0xAE, 0xAF,
   0xB0, 0xB1, 0xB2, 0xB3, 0xB4, 0xB5, 0xB6, 0xB7, 0xB8, 0xB9, 0xF7, 0xBB, 0xBC, 0xBD, 0xBE, 0, 0,
   0, 0, 0, 0, 0, 0, 0, 0, 0, 0, 0, 0, 0, 0, 0, 0, 0, 0, 0, 0, 0, 0, 0, 0, 0, 0, 0, 0, 0, 0, 0x2017,
   0x5D0, 0x5D1, 0x5D2, 0x5D3, 0x5D4, 0x5D5, 0x5D6, 0x5D7, 0x5D8, 0x5D9, 0x5DA, 0x5DB, 0x5DC, 0x5DD,
   0x5DE, 0x5DF, 0x5E0, 0x5E1, 0x5E2, 0x5E3, 0x5E4, 0x5E5, 0x5E6, 0x5E7, 0x5E8, 0x5E9, 0x5EA, 0, 0,
   0x200E, 0x200F, 0]

def c88599 : List Nat :=
  [0xA0, 0xA1, 0xA2, 0xA3, 0xA4, 0xA5, 0xA6, 0xA7, 0xA8, 0xA9, 0xAA, 0xAB, 0xAC, 0xAD, 0xAE, 0xAF,
   0xB0, 0xB1, 0xB2, 0xB3, 0xB4, 0xB5, 0xB6, 0xB7, 0xB8, 0xB9, 0xBA, 0xBB, 0xBC, 0xBD, 0xBE, 0xBF,
   0xC0, 0xC1, 0xC2, 0xC3, 0xC4, 0xC5, 0xC6, 0xC7, 0xC8, 0xC9, 0xCA, 0xCB, 0xCC, 0xCD, 0xCE, 0xCF,
   0x11E, 0xD1, 0xD2, 0xD3, 0xD4, 0xD5, 0xD6, 0xD7, 0xD8, 0xD9, 0xDA, 0xDB, 0xDC, 0x130, 0x15E,
   0xDF, 0xE0, 0xE1, 0xE2, 0xE3, 0xE4, 0xE5, 0xE6, 0xE7, 0xE8, 0xE9, 0xEA, 0xEB, 0xEC, 0xED, 0xEE,
   0xEF, 0x11F, 0xF1, 0xF2, 0xF3, 0xF4, 0xF5, 0xF6, 0xF7, 0xF8, 0xF9, 0xFA, 0xFB, 0xFC, 0x131,
   0x15F, 0xFF]

def c885910 : List Nat :=
  [0xA0, 0x104, 0x112, 0x122, 0x12A, 0x128, 0x136, 0xA7, 0x13B, 0x110, 0x160, 0x166, 0x17D, 0xAD,
   0x16A, 0x14A, 0xB0, 0x105, 0x113, 0x123, 0x12B, 0x129, 0x137, 0xB7, 0x13C, 0x111, 0x161, 0x167,
   0x17E, 0x2015, 0x16B, 0x14B, 0x100, 0xC1, 0xC2, 0xC3, 0xC4, 0xC5, 0xC6, 0x12E, 0x10C, 0xC9,
   0x118, 0xCB, 0x116, 0xCD, 0xCE, 0xCF, 0xD0, 0x145, 0x14C, 0xD3, 0xD4, 0xD5, 0xD6, 0x168, 0xD8,
   0x172, 0xDA, 0xDB, 0xDC, 0xDD, 0xDE, 0xDF, 0x101, 0xE1, 0xE2, 0xE3, 0xE4, 0xE5, 0xE6, 0x12F,
   0x10D, 0xE9, 0x119, 0xEB, 0x117, 0xED, 0xEE, 0xEF, 0xF0, 0x146, 0x14D, 0xF3, 0xF4, 0xF5, 0xF6,
   0x169, 0xF8, 0x173, 0xFA, 0xFB, 0xFC, 0xFD, 0xFE, 0x138]

def c885911 : List Nat :=
  [0xA0, 0xE01, 0xE02, 0xE03, 0xE04, 0xE05, 0xE06, 0xE07, 0xE08, 0xE09, 0xE0A, 0xE0B, 0xE0C, 0xE0D,
   0xE0E, 0xE0F, 0xE10, 0xE11, 0xE12, 0xE13, 0xE14, 0xE15, 0xE16, 0xE17, 0xE18, 0xE19, 0xE1A, 0xE1B,
   0xE1C, 0xE1D, 0xE1E, 0xE1F, 0xE20, 0xE21, 0xE22, 0xE23, 0xE24, 0xE25, 0xE26, 0xE27, 0xE28, 0xE29,
   0xE2A, 0xE2B, 0xE2C, 0xE2D, 0xE2E, 0xE2F, 0xE30, 0xE31, 0xE32, 0xE33, 0xE34, 0xE35, 0xE36, 0xE37,
   0xE38, 0xE39, 0xE3A, 0, 0, 0, 0, 0xE3F, 0xE40, 0xE41, 0xE42, 0xE43, 0xE44, 0xE45, 0xE46, 0xE47,
   0xE48, 0xE49, 0xE4A, 0xE4B, 0xE4C, 0xE4D, 0xE4E, 0xE4F, 0xE50, 0xE51, 0xE52, 0xE53, 0xE54, 0xE55,
   0xE56, 0xE57, 0xE58, 0xE59, 0xE5A, 0xE5B, 0, 0, 0, 0]

def c885913 : List Nat :=
  [0xA0, 0x201D, 0xA2, 0xA3, 0xA4, 0x201E, 0xA6, 0xA7, 0xD8, 0xA9, 0x156, 0xAB, 0xAC, 0xAD, 0xAE,
   0xC6, 0xB0, 0xB1, 0xB2, 0xB3, 0x201C, 0xB5, 0xB6, 0xB7, 0xF8, 0xB9, 0x157, 0xBB, 0xBC, 0xBD,
   0xBE, 0xE6, 0x104, 0x12E, 0x100, 0x106, 0xC4, 0xC5, 0x118, 0x112, 0x10C, 0xC9, 0x179, 0x116,
   0x122, 0x136, 0x12A, 0x13B, 0x160, 0x143, 0x145, 0xD3, 0x14C, 0xD5, 0xD6, 0xD7, 0x172, 0x141,
   0x15A, 0x16A, 0xDC, 0x17B, 0x17D, 0xDF, 0x105, 0x12F, 0x101, 0x107, 0xE4, 0xE5, 0x119, 0x113,
   0x10D, 0xE9, 0x17A, 0x117, 0x123, 0x137, 0x12B, 0x13C, 0x161, 0x144, 0x146, 0xF3, 0x14D, 0xF5,
   0xF6, 0xF7, 0x173, 0x142, 0x15B, 0x16B, 0xFC, 0x17C, 0x17E, 0x2019]

def c885914 : List Nat :=
  [0xA0, 0x1E02, 0x1E03, 0xA3, 0x10A, 0x10B, 0x1E0A, 0xA7, 0x1E80, 0xA9, 0x1E82, 0x1E0B, 0x1EF2,
   0xAD, 0xAE, 0x178, 0x1E1E, 0x1E1F, 0x120, 0x121, 0x1E40, 0x1E41, 0xB6, 0x1E56, 0x1E81, 0x1E57,
   0x1E83, 0x1E60, 0x1EF3, 0x1E84, 0x1E85, 0x1E61, 0xC0, 0xC1, 0xC2, 0xC3, 0xC4, 0xC5, 0xC6, 0xC7,
   0xC8, 0xC9, 0xCA, 0xCB, 0xCC, 0xCD, 0xCE, 0xCF, 0x174, 0xD1, 0xD2, 0xD3, 0xD4, 0xD5, 0xD6,
   0x1E6A, 0xD8, 0xD9, 0xDA, 0xDB, 0xDC, 0xDD, 0x176, 0xDF, 0xE0, 0xE1, 0xE2, 0xE3, 0xE4, 0xE5,
   0xE6, 0xE7, 0xE8, 0xE9, 0xEA, 0xEB, 0xEC, 0xED, 0xEE, 0xEF, 0x175, 0xF1, 0xF2, 0xF3, 0xF4, 0xF5,
   0xF6, 0x1E6B, 0xF8, 0xF9, 0xFA, 0xFB, 0xFC, 0xFD, 0x177, 0xFF]

def c885915 : List Nat :=
  [0xA0, 0xA1, 0xA2, 0xA3, 0x20AC, 0xA5, 0x160, 0xA7, 0x161, 0xA9, 0xAA, 0xAB, 0xAC, 0xAD, 0xAE,
   0xAF, 0xB0, 0xB1, 0xB2, 0xB3, 0x17D, 0xB5, 0xB6, 0xB7, 0x17E, 0xB9, 0xBA, 0xBB, 0x152, 0x153,
   0x178, 0xBF, 0xC0, 0xC1, 0xC2, 0xC3, 0xC4, 0xC5, 0xC6, 0xC7, 0xC8, 0xC9, 0xCA, 0xCB, 0xCC, 0xCD,
   0xCE, 0xCF, 0xD0, 0xD1, 0xD2, 0xD3, 0xD4, 0xD5, 0xD6, 0xD7, 0xD8, 0xD9, 0xDA, 0xDB, 0xDC, 0xDD,
   0xDE, 0xDF, 0xE0, 0xE1, 0xE2, 0xE3, 0xE4, 0xE5, 0xE6, 0xE7, 0xE8, 0xE9, 0xEA, 0xEB, 0xEC, 0xED,
   0xEE, 0xEF, 0xF0, 0xF1, 0xF2, 0xF3, 0xF4, 0xF5, 0xF6, 0xF7, 0xF8, 0xF9, 0xFA, 0xFB, 0xFC, 0xFD,
   0xFE, 0xFF]

def c885916 : List Nat :=
  [0xA0, 0x104, 0x105, 0x141, 0x20AC, 0x201E, 0x160, 0xA7, 0x161, 0xA9, 0x218, 0xAB, 0x179, 0xAD,
   0x17A, 0x17B, 0xB0, 0xB1, 0x10C, 0x142, 0x17D, 0x201D, 0xB6, 0xB7, 0x17E, 0x10D, 0x219, 0xBB,
   0x152, 0x153, 0x178, 0x17C, 0xC0, 0xC1, 0xC2, 0x102, 0xC4, 0x106, 0xC6, 0xC7, 0xC8, 0xC9, 0xCA,
   0xCB, 0xCC, 0xCD, 0xCE, 0xCF, 0x110, 0x143, 0xD2, 0xD3, 0xD4, 0x150, 0xD6, 0x15A, 0x170, 0xD9,
   0xDA, 0xDB, 0xDC, 0x118, 0x21A, 0xDF, 0xE0, 0xE1, 0xE2, 0x103, 0xE4, 0x107, 0xE6, 0xE7, 0xE8,
   0xE9, 0xEA, 0xEB, 0xEC, 0xED, 0xEE, 0xEF, 0x111, 0x144, 0xF2, 0xF3, 0xF4, 0x151, 0xF6, 0x15B,
   0x171, 0xF9, 0xFA, 0xFB, 0xFC, 0x119, 0x21B, 0xFF]

def iso6937 : List Nat :=
  [0xA0, 0xA1, 0xA2, 0xA3, 0x20AC, 0xA5, 0, 0xA7, 0xA4, 0x2018, 0x201C, 0xAB, 0x2190, 0x2191,
   0x2192, 0x2193, 0xB0, 0xB1, 0xB2, 0xB3, 0xD7, 0xB5, 0xB6, 0xB7, 0xF7, 0x2019, 0x201D, 0xBB, 0xBC,
   0xBD, 0xBE, 0xBF, 0, 0xE002, 0xE003, 0xE004, 0xE005, 0xE006, 0xE007, 0xE008, 0xE009, 0xE00C,
   0xE00A, 0xE00B, 0, 0xE00D, 0xE00E, 0xE00F, 0x2015, 0xB9, 0xAE, 0xA9, 0x2122, 0x266A, 0xAC, 0xA6,
   0, 0, 0, 0, 0x215B, 0x215C, 0x215D, 0x215E, 0x2126, 0xC6, 0x110, 0xAA, 0x126, 0, 0x132, 0x13F,
   0x141, 0xD8, 0x152, 0xBA, 0xDE, 0x166, 0x14A, 0x149, 0x138, 0xE6, 0x111, 0xF0, 0x127, 0x131,
   0x133, 0x140, 0x142, 0xF8, 0x153, 0xDF, 0xFE, 0x167, 0x14B, 0xAD]

/-- The tables by their numbers; 12 is reserved. -/
def codingTable : Int → Option (List Nat)
  | 2 => some c88592
  | 3 => some c88593
  | 4 => some c88594
  | 5 => some c88595
  | 6 => some c88596
  | 7 => some c88597
  | 8 => some c88598
  | 9 => some c88599
  | 10 => some c885910
  | 11 => some c885911
  | 13 => some c885913
  | 14 => some c885914
  | 15 => some c885915
  | 16 => some c885916
  | _ => none

/-- `recode` has one table more. -/
def recodeTable (cp : Int) : Option (List Nat) :=
  if cp = 64 then some iso6937 else codingTable cp

/-- The character of a byte; 0 for none. -/
def recode (d : Byte) (cp : Int) : Nat :=
  if d < 0xA0 then d.toNat
  else
    match recodeTable cp with
    | some t => t.getD (d.toNat - 0xA0) 0
    | none => d.toNat

/-! ## Two Char Mapping -/

/-- The accents `doVideoTexSuppl` knows, each with the letters it goes on. -/
def videoTexSuppl : List (Byte × List (Byte × Nat)) :=
  [(0xC1, [(0x61, 224), (0x41, 192), (0x65, 232), (0x45, 200), (0x69, 236), (0x49, 204),
      (0x6F, 242), (0x4F, 210), (0x75, 249), (0x55, 217)]),
   (0xC2, [(0x61, 225), (0x41, 193), (0x65, 233), (0x45, 201), (0x69, 237), (0x49, 205),
      (0x6F, 243), (0x4F, 211), (0x75, 250), (0x55, 218), (0x79, 253), (0x59, 221), (0x63, 263),
      (0x43, 262), (0x6C, 314), (0x4C, 313), (0x6E, 324), (0x4E, 323), (0x72, 341), (0x52, 340),
      (0x73, 347), (0x53, 346), (0x7A, 378), (0x5A, 377)]),
   (0xC3, [(0x61, 226), (0x41, 194), (0x65, 234), (0x45, 202), (0x69, 238), (0x49, 206),
      (0x6F, 244), (0x4F, 212), (0x75, 251), (0x55, 219), (0x79, 375), (0x59, 374), (0x63, 265),
      (0x43, 264), (0x67, 285), (0x47, 284), (0x68, 293), (0x48, 292), (0x6A, 309), (0x4A, 308),
      (0x73, 349), (0x53, 348), (0x77, 373), (0x57, 372)]),
   (0xC4, [(0x61, 227), (0x41, 195), (0x6E, 241), (0x4E, 209), (0x69, 297), (0x49, 296),
      (0x6F, 245), (0x4F, 213), (0x75, 361), (0x55, 360)]),
   (0xC6, [(0x61, 259), (0x41, 258), (0x67, 287), (0x47, 286), (0x75, 365), (0x55, 364),
      (0x73, 353), (0x53, 352)]),
   (0xC7, [(0x63, 267), (0x43, 266), (0x65, 279), (0x45, 278), (0x67, 289), (0x47, 288),
      (0x49, 304), (0x7A, 380), (0x5A, 379)]),
   (0xC8, [(0x61, 228), (0x41, 196), (0x65, 235), (0x45, 203), (0x69, 239), (0x49, 207),
      (0x6F, 246), (0x4F, 214), (0x75, 252), (0x55, 220), (0x79, 255), (0x59, 376)]),
   (0xCA, [(0x61, 229), (0x41, 197), (0x75, 367), (0x55, 366)]),
   (0xCB, [(0x63, 231), (0x43, 199), (0x67, 291), (0x47, 290), (0x6B, 311), (0x4B, 310),
      (0x6C, 316), (0x4C, 315), (0x6E, 326), (0x4E, 325), (0x72, 343), (0x52, 342), (0x73, 351),
      (0x53, 350), (0x74, 355), (0x54, 354)]),
   (0xCD, [(0x6F, 337), (0x4F, 336), (0x75, 369), (0x55, 368)]),
   (0xCE, [(0x61, 261), (0x41, 260), (0x65, 281), (0x45, 280), (0x69, 303), (0x49, 302),
      (0x75, 371), (0x55, 370)]),
   (0xCF, [(0x63, 269), (0x43, 268), (0x64, 271), (0x44, 270), (0x65, 283), (0x45, 282),
      (0x6C, 318), (0x4C, 317), (0x6E, 328), (0x4E, 327), (0x72, 345), (0x52, 344), (0x73, 353),
      (0x53, 352), (0x74, 357), (0x54, 356), (0x7A, 382), (0x5A, 381)])]

/-- The character of an accent and a letter; 0 for none. -/
def doVideoTexSuppl (c1 c2 : Byte) : Nat :=
  (((videoTexSuppl.lookup c1).getD []).lookup c2).getD 0

/-! ## The entries -/

def codingTables : List (List Nat) :=
  [c88592, c88593, c88594, c88595, c88596, c88597, c88598, c88599, c885910, c885911, c885913,
   c885914, c885915, c885916]

theorem codingTable_mem {cp : Int} {t : List Nat} (h : codingTable cp = some t) :
    t ∈ codingTables := by
  unfold codingTable at h
  split at h <;> simp_all [codingTables]

theorem recodeTable_mem {cp : Int} {t : List Nat} (h : recodeTable cp = some t) :
    t ∈ iso6937 :: codingTables := by
  unfold recodeTable at h
  split at h
  · obtain rfl := Option.some.inj h
    exact List.mem_cons_self
  · exact List.mem_cons_of_mem _ (codingTable_mem h)

theorem codingTable_length {cp : Int} {t : List Nat} (h : codingTable cp = some t) :
    t.length = 96 := by
  have hall : ∀ t ∈ codingTables, t.length = 96 := by decide +kernel
  exact hall t (codingTable_mem h)

/-- Every entry is a character of the basic plane. -/
theorem recode_scalar (d : Byte) (cp : Int) :
    recode d cp < 0xD800 ∨ 0xDFFF < recode d cp ∧ recode d cp < 0x10000 := by
  have hall : ∀ t ∈ iso6937 :: codingTables, ∀ c ∈ t, c < 0xD800 ∨ 0xDFFF < c ∧ c < 0x10000 := by
    decide +kernel
  have hd := d.toNat_lt
  unfold recode
  split
  · omega
  · cases ht : recodeTable cp with
    | none =>
      simp only
      omega
    | some t =>
      simp only
      rw [List.getD_eq_getElem?_getD]
      cases hc : t[d.toNat - 0xA0]? with
      | none => exact .inl (by decide)
      | some c => exact hall t (recodeTable_mem ht) c (List.mem_of_getElem? hc)

theorem mem_of_lookup {β : Type} {l : List (Byte × β)} {k : Byte} {b : β}
    (h : l.lookup k = some b) : (k, b) ∈ l := by
  obtain ⟨l₁, l₂, rfl, -⟩ := List.lookup_eq_some_iff.mp h
  exact List.mem_append_right l₁ List.mem_cons_self

/-- An accented letter is in the Latin blocks. -/
theorem doVideoTexSuppl_lt (c1 c2 : Byte) : doVideoTexSuppl c1 c2 < 0x800 := by
  have hall : ∀ r ∈ videoTexSuppl, ∀ e ∈ r.2, e.2 < 0x800 := by decide +kernel
  unfold doVideoTexSuppl
  cases hr : videoTexSuppl.lookup c1 with
  | none => exact Nat.zero_lt_succ _
  | some r =>
    cases he : r.lookup c2 with
    | none => simp [he]
    | some e =>
      have hlow := hall _ (mem_of_lookup hr) _ (mem_of_lookup he)
      simpa [he] using hlow

/-- No two bytes have the same character, and none is below the table. -/
theorem codingTable_first {cp : Int} {t : List Nat} (h : codingTable cp = some t) :
    (∀ j < 96, t.getD j 0 ≠ 0 → t.findIdx? (· = t.getD j 0) = some j) ∧
      ∀ c ∈ t, c = 0 ∨ 0xA0 ≤ c := by
  have hall : ∀ t ∈ codingTables,
      (∀ j < 96, t.getD j 0 ≠ 0 → t.findIdx? (· = t.getD j 0) = some j) ∧
        ∀ c ∈ t, c = 0 ∨ 0xA0 ≤ c := by decide +kernel
  exact hall t (codingTable_mem h)

/-- What the first two of three bytes are taken for is no entry, and its low byte is below
the table. -/
theorem codingTable_high {cp : Int} {t : List Nat} (h : codingTable cp = some t) {c : Nat}
    (hc : c ∈ t) (hhigh : 0x800 ≤ c) : 0x800 + c / 64 ∉ t ∧ c / 64 % 256 < 0xA0 := by
  have hall : ∀ t ∈ codingTables, ∀ c ∈ t, 0x800 ≤ c →
      0x800 + c / 64 ∉ t ∧ c / 64 % 256 < 0xA0 := by decide +kernel
  exact hall t (codingTable_mem h) c hc hhigh

end Tuxbox.Enigma.Text

import Tuxbox.Lib.Bytes
import Tuxbox.Tuxtxt.Objects

/-! What a character of a page is in Unicode.

* `renderChar_cases`, `renderChar_swapInverted`: sixteen bits, whatever the colours are. -/
namespace Tuxbox.Tuxtxt

def C_G0S : Nat := 1

def NAT_SC : Nat := 14
def NAT_RB : Nat := 15
def NAT_UA : Nat := 16
def NAT_GR : Nat := 17
def NAT_HB : Nat := 18
def NAT_AR : Nat := 19

/-! ## Tables -/

def countryconversiontable : List Nat := [2, 5, 12, 6, 4, 9, 1, 10]

/-- Latin, Cyrillic, Greek and Arabic. -/
def G2table : List (List UInt16) := [
  [0x20, 0xA1, 0xA2, 0xA3, 0x24, 0xA5, 0x23, 0xA7, 0xA4, 0x2018, 0x201C, 0xAB, 0x2190, 0x2191,
   0x2192, 0x2193, 0xB0, 0xB1, 0xB2, 0xB3, 0xD7, 0xB5, 0xB6, 0xB7, 0xF7, 0x2019, 0x201D, 0xBB, 0xBC,
   0xBD, 0xBE, 0xBF, 0x20, 0x300, 0x301, 0x2C6, 0x303, 0x2C9, 0x2D8, 0x2D9, 0xA8, 0x2E, 0x2DA, 0xB8,
   0x5F, 0x2DD, 0x2DB, 0x2C7, 0x2014, 0xB9, 0xAE, 0xA9, 0x2122, 0x266A, 0x20AC, 0x2030, 0x3B1, 0x20,
   0x20, 0x20, 0x215B, 0x215C, 0x215D, 0x215E, 0x2126, 0xC6, 0xD0, 0xAA, 0x126, 0x20, 0x132, 0x13F,
   0x141, 0xD8, 0x152, 0xBA, 0xDE, 0x166, 0x14A, 0x149, 0x138, 0xE6, 0x111, 0xF0, 0x127, 0x131,
   0x133, 0x140, 0x142, 0xF8, 0x153, 0xDF, 0xFE, 0x167, 0x14B, 0x25A0],
  [0x20, 0xA1, 0xA2, 0xA3, 0x24, 0xA5, 0x20, 0xA7, 0x20, 0x2018, 0x201C, 0xAB, 0x2190, 0x2191,
   0x2192, 0x2193, 0xB0, 0xB1, 0xB2, 0xB3, 0xD7, 0xB5, 0xB6, 0xB7, 0xF7, 0x2019, 0x201D, 0xBB, 0xBC,
   0xBD, 0xBE, 0xBF, 0x20, 0x300, 0x301, 0x2C6, 0x2DC, 0x2C9, 0x2D8, 0x2D9, 0xA8, 0x2E, 0x2DA, 0xB8,
   0x5F, 0x2DD, 0x2DB, 0x2C7, 0x2014, 0xB9, 0xAE, 0xA9, 0x2122, 0x266A, 0x20AC, 0x2030, 0x3B1,
   0x141, 0x142, 0xDF, 0x215B, 0x215C, 0x215D, 0x215E, 0x44, 0x45, 0x46, 0x47, 0x49, 0x4A, 0x4B,
   0x4C, 0x4E, 0x51, 0x52, 0x53, 0x55, 0x56, 0x57, 0x5A, 0x64, 0x65, 0x66, 0x67, 0x69, 0x6A, 0x6B,
   0x6C, 0x6E, 0x71, 0x72, 0x73, 0x75, 0x76, 0x77, 0x7A],
  [0x20, 0x61, 0x62, 0xA3, 0x65, 0x68, 0x69, 0xA7, 0x3A, 0x2018, 0x201C, 0x6B, 0x2190, 0x2191,
   0x2192, 0x2193, 0xB0, 0xB1, 0xB2, 0xB3, 0xD7, 0x6D, 0x6E, 0x70, 0xF7, 0x2019, 0x201D, 0x74, 0xBC,
   0xBD, 0xBE, 0x78, 0x20, 0x300, 0x301, 0x2C6, 0x2DC, 0x2C9, 0x2D8, 0x2D9, 0xA8, 0x2E, 0x2DA, 0xB8,
   0x5F, 0x2DD, 0x2DB, 0x2C7, 0x3F, 0xB9, 0xAE, 0xA9, 0x2122, 0x266A, 0x20AC, 0x2030, 0x3B1, 0x38A,
   0x38E, 0x38F, 0x215B, 0x215C, 0x215D, 0x215E, 0x43, 0x44, 0x46, 0x47, 0x4A, 0x4C, 0x51, 0x52,
   0x53, 0x55, 0x56, 0x57, 0x59, 0x5A, 0x386, 0x389, 0x63, 0x64, 0x66, 0x67, 0x6A, 0x6C, 0x71, 0x72,
   0x73, 0x75, 0x76, 0x77, 0x79, 0x7A, 0x388, 0x25A0],
  [0x20, 0x639, 0xFEC9, 0xFE83, 0xFE85, 0xFE87, 0xFE8B, 0xFE89, 0xFB7C, 0xFB7D, 0xFB7A, 0xFB58,
   0xFB59, 0xFB56, 0xFB6D, 0xFB8E, 0x660, 0x661, 0x662, 0x663, 0x664, 0x665, 0x666, 0x667, 0x668,
   0x669, 0xFECE, 0xFECD, 0xFEFC, 0xFEEC, 0xFEEA, 0xFEE9, 0xE0, 0x41, 0x42, 0x43, 0x44, 0x45, 0x46,
   0x47, 0x48, 0x49, 0x4A, 0x4B, 0x4C, 0x4D, 0x4E, 0x4F, 0x50, 0x51, 0x52, 0x53, 0x54, 0x55, 0x56,
   0x57, 0x58, 0x59, 0x5A, 0xEB, 0xEA, 0xF9, 0xEE, 0xFECA, 0xE9, 0x61, 0x62, 0x63, 0x64, 0x65, 0x66,
   0x67, 0x68, 0x69, 0x6A, 0x6B, 0x6C, 0x6D, 0x6E, 0x6F, 0x70, 0x71, 0x72, 0x73, 0x74, 0x75, 0x76,
   0x77, 0x78, 0x79, 0x7A, 0xE2, 0xF4, 0xFB, 0xE7, 0x25A0]]

/-- Serbian and Croatian, Russian and Bulgarian, Ukrainian, Greek, Hebrew, Arabic. -/
def G0table : List (List UInt16) := [
  [0x20, 0x21, 0x22, 0x23, 0x24, 0x25, 0x26, 0x27, 0x28, 0x29, 0x2A, 0x2B, 0x2C, 0x2D, 0x2E, 0x2F,
   0x30, 0x31, 0x32, 0x33, 0x34, 0x35, 0x36, 0x37, 0x38, 0x39, 0x3A, 0x3B, 0x3C, 0x3D, 0x3E, 0x3F,
   0x427, 0x410, 0x411, 0x426, 0x414, 0x415, 0x424, 0x413, 0x425, 0x418, 0x408, 0x41A, 0x41B, 0x41C,
   0x41D, 0x41E, 0x41F, 0x40C, 0x420, 0x421, 0x422, 0x423, 0x412, 0x403, 0x409, 0x40A, 0x417, 0x40B,
   0x416, 0x402, 0x428, 0x40F, 0x447, 0x430, 0x431, 0x446, 0x434, 0x435, 0x444, 0x433, 0x445, 0x438,
   0x458, 0x43A, 0x43B, 0x43C, 0x43D, 0x43E, 0x43F, 0x45C, 0x440, 0x441, 0x442, 0x443, 0x432, 0x453,
   0x459, 0x45A, 0x437, 0x45B, 0x436, 0x452, 0x448, 0x25A0],
  [0x20, 0x21, 0x22, 0x23, 0x24, 0x25, 0x44B, 0x27, 0x28, 0x29, 0x2A, 0x2B, 0x2C, 0x2D, 0x2E, 0x2F,
   0x30, 0x31, 0x32, 0x33, 0x34, 0x35, 0x36, 0x37, 0x38, 0x39, 0x3A, 0x3B, 0x3C, 0x3D, 0x3E, 0x3F,
   0x42E, 0x410, 0x411, 0x426, 0x414, 0x415, 0x424, 0x413, 0x425, 0x418, 0x419, 0x41A, 0x41B, 0x41C,
   0x41D, 0x41E, 0x41F, 0x42F, 0x420, 0x421, 0x422, 0x423, 0x416, 0x412, 0x42C, 0x42A, 0x417, 0x428,
   0x42D, 0x429, 0x427, 0x42B, 0x44E, 0x430, 0x431, 0x446, 0x434, 0x435, 0x444, 0x433, 0x445, 0x438,
   0x439, 0x43A, 0x43B, 0x43C, 0x43D, 0x43E, 0x43F, 0x44F, 0x440, 0x441, 0x442, 0x443, 0x436, 0x432,
   0x44C, 0x44A, 0x437, 0x448, 0x44D, 0x449, 0x447, 0x25A0],
  [0x20, 0x21, 0x22, 0x23, 0x24, 0x25, 0x457, 0x27, 0x28, 0x29, 0x2A, 0x2B, 0x2C, 0x2D, 0x2E, 0x2F,
   0x30, 0x31, 0x32, 0x33, 0x34, 0x35, 0x36, 0x37, 0x38, 0x39, 0x3A, 0x3B, 0x3C, 0x3D, 0x3E, 0x3F,
   0x42E, 0x410, 0x411, 0x426, 0x414, 0x415, 0x424, 0x413, 0x425, 0x418, 0x419, 0x41A, 0x41B, 0x41C,
   0x41D, 0x41E, 0x41F, 0x42F, 0x420, 0x421, 0x422, 0x423, 0x416, 0x412, 0x42C, 0x406, 0x417, 0x428,
   0x404, 0x429, 0x427, 0x407, 0x44E, 0x430, 0x431, 0x446, 0x434, 0x435, 0x444, 0x433, 0x445, 0x438,
   0x439, 0x43A, 0x43B, 0x43C, 0x43D, 0x43E, 0x43F, 0x44F, 0x440, 0x441, 0x442, 0x443, 0x436, 0x432,
   0x44C, 0x456, 0x437, 0x448, 0x454, 0x449, 0x447, 0x25A0],
  [0x20, 0x21, 0x22, 0x23, 0x24, 0x25, 0x26, 0x27, 0x28, 0x29, 0x2A, 0x2B, 0x2C, 0x2D, 0x2E, 0x2F,
   0x30, 0x31, 0x32, 0x33, 0x34, 0x35, 0x36, 0x37, 0x38, 0x39, 0x3A, 0x3B, 0xAB, 0x3D, 0xBB, 0x3F,
   0x390, 0x391, 0x392, 0x393, 0x394, 0x395, 0x396, 0x397, 0x398, 0x399, 0x39A, 0x39B, 0x39C, 0x39D,
   0x39E, 0x39F, 0x3A0, 0x3A1, 0x384, 0x3A3, 0x3A4, 0x3A5, 0x3A6, 0x3A7, 0x3A8, 0x3A9, 0x3AA, 0x3AB,
   0x3AC, 0x3AD, 0x3AE, 0x3AF, 0x3B0, 0x3B1, 0x3B2, 0x3B3, 0x3B4, 0x3B5, 0x3B6, 0x3B7, 0x3B8, 0x3B9,
   0x3BA, 0x3BB, 0x3BC, 0x3BD, 0x3BE, 0x3BF, 0x3C0, 0x3C1, 0x3C2, 0x3C3, 0x3C4, 0x3C5, 0x3C6, 0x3C7,
   0x3C8, 0x3C9, 0x3CA, 0x3CB, 0x3CC, 0x3CD, 0x3CE, 0x25A0],
  [0x20, 0x21, 0x5F2, 0xA3, 0x24, 0x25, 0x26, 0x27, 0x28, 0x29, 0x2A, 0x2B, 0x2C, 0x2D, 0x2E, 0x2F,
   0x30, 0x31, 0x32, 0x33, 0x34, 0x35, 0x36, 0x37, 0x38, 0x39, 0x3A, 0x3B, 0x3C, 0x3D, 0x3E, 0x3F,
   0x40, 0x41, 0x42, 0x43, 0x44, 0x45, 0x46, 0x47, 0x48, 0x49, 0x4A, 0x4B, 0x4C, 0x4D, 0x4E, 0x4F,
   0x50, 0x51, 0x52, 0x53, 0x54, 0x55, 0x56, 0x57, 0x58, 0x59, 0x5A, 0x2190, 0xBD, 0x2192, 0x2191,
   0x23, 0x5D0, 0x5D1, 0x5D2, 0x5D3, 0x5D4, 0x5D5, 0x5D6, 0x5D7, 0x5D8, 0x5D9, 0x5DA, 0x5DB, 0x5DC,
   0x5DD, 0x5DE, 0x5DF, 0x5E0, 0x5E1, 0x5E2, 0x5E3, 0x5E4, 0x5E5, 0x5E6, 0x5E7, 0x5E8, 0x5E9, 0x5EA,
   0x20AA, 0x2551, 0xBE, 0xF7, 0x25A0],
  [0x20, 0x21, 0x5F2, 0xA3, 0x24, 0x66A, 0xFEF0, 0xFEF2, 0xFD3F, 0xFD3E, 0x2A, 0x2B, 0x2C, 0x2D,
   0x2E, 0x2F, 0x30, 0x31, 0x32, 0x33, 0x34, 0x35, 0x36, 0x37, 0x38, 0x39, 0x3A, 0x61B, 0x3E, 0x3D,
   0x3C, 0x61F, 0xFE94, 0x621, 0xFE92, 0x628, 0xFE98, 0x62A, 0xFE8E, 0xFE8D, 0xFE91, 0xFE93, 0xFE97,
   0xFE9B, 0xFE9F, 0xFEA3, 0xFEA7, 0xFEA9, 0x630, 0xFEAD, 0xFEAF, 0xFEB3, 0xFEB7, 0xFEBB, 0xFEBF,
   0xFEC1, 0xFEC5, 0xFECB, 0xFECF, 0xFE9C, 0xFEA0, 0xFEA4, 0xFEA8, 0x23, 0x640, 0xFED3, 0xFED7,
   0xFEDB, 0xFEDF, 0xFEE3, 0xFEE7, 0xFEEB, 0xFEED, 0xFEEF, 0xFEF3, 0xFE99, 0xFE9D, 0xFEA1, 0xFEA5,
   0xFEF4, 0xFEF0, 0xFECC, 0xFED0, 0xFED4, 0xFED1, 0xFED8, 0xFED5, 0xFED9, 0xFEE0, 0xFEDD, 0xFEE4,
   0xFEE1, 0xFEE8, 0xFEE5, 0xFEFB, 0x25A0]]

def nationaltable23 : List (List UInt16) := [
  [0x0023, 0x00A4],
  [0x0023, 0x016F],
  [0x00A3, 0x0024],
  [0x0023, 0x00F5],
  [0x00E9, 0x0457],
  [0x0023, 0x0024],
  [0x00A3, 0x0024],
  [0x0023, 0x0024],
  [0x0023, 0x0144],
  [0x00E7, 0x0024],
  [0x0023, 0x00A4],
  [0x0023, 0x00CB],
  [0x0023, 0x00A4],
  [0x20A4, 0x011F]]

def nationaltable40 : List UInt16 := [
  0x0040, 0x010D, 0x0040, 0x0161, 0x00E0, 0x00A7, 0x00E9, 0x0161, 0x0105, 0x00A1, 0x0162, 0x010C,
  0x00C9, 0x0130]

def nationaltable5b : List (List UInt16) := [
  [0x005B, 0x005C, 0x005D, 0x005E, 0x005F, 0x0060],
  [0x0165, 0x017E, 0x00FD, 0x00ED, 0x0159, 0x00E9],
  [0x2190, 0x00BD, 0x2192, 0x2191, 0x0023, 0x00AD],
  [0x00C4, 0x00D6, 0x017D, 0x00DC, 0x00D5, 0x0161],
  [0x0451, 0x00EA, 0x00F9, 0x00EE, 0x0023, 0x00E8],
  [0x00C4, 0x00D6, 0x00DC, 0x005E, 0x005F, 0x00B0],
  [0x00B0, 0x00E7, 0x2192, 0x2191, 0x0023, 0x00F9],
  [0x0117, 0x0119, 0x017D, 0x010D, 0x016B, 0x0161],
  [0x017B, 0x015A, 0x0141, 0x0107, 0x00F3, 0x0119],
  [0x00E1, 0x00E9, 0x00ED, 0x00F3, 0x00FA, 0x00BF],
  [0x00C2, 0x015E, 0x01CD, 0x01CF, 0x0131, 0x0163],
  [0x0106, 0x017D, 0x00D0, 0x0160, 0x0451, 0x010D],
  [0x00C4, 0x00D6, 0x00C5, 0x00DC, 0x005F, 0x00E9],
  [0x015E, 0x00D6, 0x00C7, 0x00DC, 0x011E, 0x0131]]

def nationaltable7b : List (List UInt16) := [
  [0x007B, 0x007C, 0x007D, 0x007E],
  [0x00E1, 0x011B, 0x00FA, 0x0161],
  [0x00BC, 0x2551, 0x00BE, 0x00F7],
  [0x00E4, 0x00F6, 0x017E, 0x00FC],
  [0x00E2, 0x00F4, 0x00FB, 0x00E7],
  [0x00E4, 0x00F6, 0x00FC, 0x00DF],
  [0x00E0, 0x00F3, 0x00E8, 0x00EC],
  [0x0105, 0x0173, 0x017E, 0x012F],
  [0x017C, 0x015B, 0x0142, 0x017A],
  [0x00FC, 0x00F1, 0x00E8, 0x00E0],
  [0x00E2, 0x015F, 0x01CE, 0x00EE],
  [0x0107, 0x017E, 0x0111, 0x0161],
  [0x00E4, 0x00F6, 0x00E5, 0x00FC],
  [0x015F, 0x00F6, 0x00E7, 0x00FC]]

def arrowtable : List UInt16 := [8592, 8594, 8593, 8595, 0x4F, 0x4B, 8592, 8592]

/-- The entries of `aShapes` that are a character; the others are drawn. -/
def shapeChar : Nat → Option Nat
  | 0x4d => some 0x25E6
  | 0x4e => some 0x25CF
  | 0x4f => some 0x25CB
  | 0x5b => some 0x2192
  | 0x5c => some 0x2190
  | 0x5d => some 0x2191
  | 0x5e => some 0x2193
  | 0x5f | 0x6e | 0x6f => some 0x0020
  | _ => none

/-! ## Character sets -/

/-- The character sets of the cache. Two characters are looked up behind `arrowtable`. -/
structure Charsets where
  national_subset : Fin 20
  national_subset_secondary : Fin 20
  behindArrows : Nat → UInt16

def designated (setG0G2 : Nat) : Nat :=
  match setG0G2 with
  | 0x20 => NAT_SC
  | 0x24 => NAT_RB
  | 0x25 => NAT_UA
  | 0x37 => NAT_GR
  | 0x55 => NAT_HB
  | 0x47 | 0x57 => NAT_AR
  | n => countryconversiontable.getD (n &&& 0x07) 0

/-- `national_subset_local` -/
def Charsets.nationalSubset (c : Charsets) (a : TstPageAttr) : Nat :=
  if a.charset = C_G0S then c.national_subset_secondary
  else if a.setG0G2 ≠ 0x3f then designated a.setG0G2
  else if a.setX26 then 0
  else c.national_subset

def G2row (nat : Nat) : Nat :=
  if nat = NAT_SC ∨ nat = NAT_RB ∨ nat = NAT_UA then 1
  else if nat = NAT_GR then 2
  else if nat = NAT_AR then 3
  else 0

/-- The national subsets that remap the complete area. -/
def G0row (nat : Nat) : Option Nat :=
  if nat = NAT_SC then some 0
  else if nat = NAT_RB then some 1
  else if nat = NAT_UA then some 2
  else if nat = NAT_GR then some 3
  else if nat = NAT_HB then some 4
  else if nat = NAT_AR then some 5
  else none

def entry (table : List (List UInt16)) (row i : Nat) : Nat := ((table.getD row []).getD i 0).toNat

/-- The switch at the end: the character, or what is returned after drawing. -/
def loadChar (c : Charsets) (nat char : Nat) : Except Int Nat :=
  if char = 0x00 ∨ char = 0x20 then .error (-3)
  else if char = 0x23 ∨ char = 0x24 then .ok (entry nationaltable23 nat (char - 0x23))
  else if char = 0x40 then .ok (nationaltable40.getD nat 0).toNat
  else if 0x5B ≤ char ∧ char ≤ 0x60 then .ok (entry nationaltable5b nat (char - 0x5B))
  else if 0x7B ≤ char ∧ char ≤ 0x7E then .ok (entry nationaltable7b nat (char - 0x7B))
  else if char = 0x7F ∨ 0xE0 ≤ char ∧ char ≤ 0xEC then .error 0
  else if 0xED ≤ char ∧ char ≤ 0xF6 then
    .ok ((arrowtable[char - 0xED]?).getD (c.behindArrows (char - 0xF5))).toNat
  else .ok char

def glyph (c : Charsets) (char : Nat) (a : TstPageAttr) : Except Int Nat :=
  if a.charset = C_G3 then
    if char < 0x20 ∨ 0x7d < char then .ok 0x20
    else match shapeChar char with
      | some u => .ok u
      | none => .error 0
  else if C_OFFSET_DRCS ≤ a.charset then .error 0
  else
    let nat := c.nationalSubset a
    let latin := 0x20 ≤ char ∧ char ≤ 0x7F
    if a.charset = C_G2 ∧ latin then .ok (entry G2table (G2row nat) (char - 0x20))
    else
      match G0row nat with
      | some row =>
        if latin then .ok (entry G0table row (char - 0x20)) else loadChar c nat char
      | none => loadChar c nat char

/-- `tuxtxt_RenderChar`: -1 for a cell that another one covers, 0 for what is drawn only. -/
def renderChar (c : Charsets) (Char : Byte) (a : TstPageAttr) : Int :=
  if Char = 0xFF then -1
  else if (a.charset = C_G1C ∨ a.charset = C_G1S) ∧ Char &&& 0xA0 = 0x20 then 0
  else
    match glyph c Char.toNat a with
    | .error r => r
    | .ok u => if u ≤ 0x20 then -2 else u

/-- It leaves the colours of an inverted cell exchanged. -/
def swapInverted (Char : Byte) (a : TstPageAttr) : TstPageAttr :=
  if Char ≠ 0xFF ∧ a.inverted then { a with fg := a.bg, bg := a.fg } else a

section
variable {c : Charsets} {Char : Byte} {a : TstPageAttr}

theorem swapInverted_twice : swapInverted Char (swapInverted Char a) = a := by
  unfold swapInverted
  by_cases h : Char ≠ 0xFF ∧ a.inverted
  · simp only [if_pos h]
  · simp only [if_neg h]

theorem renderChar_swapInverted (d : Byte) :
    renderChar c Char (swapInverted d a) = renderChar c Char a := by
  unfold swapInverted
  split_ifs <;> rfl

theorem entry_lt (table : List (List UInt16)) (row i : Nat) : entry table row i < 65536 :=
  UInt16.toNat_lt _

/-- A character of sixteen bits, or a value that is not positive. -/
def Loaded : Except Int Nat → Prop
  | .error r => r ≤ 0
  | .ok u => u < 65536

theorem loadChar_loaded {nat char : Nat} (hchar : char < 256) : Loaded (loadChar c nat char) := by
  unfold loadChar
  split_ifs
  · exact (by decide : (-3 : Int) ≤ 0)
  · exact entry_lt _ _ _
  · exact UInt16.toNat_lt _
  · exact entry_lt _ _ _
  · exact entry_lt _ _ _
  · exact Int.le_refl 0
  · exact UInt16.toNat_lt _
  · exact Nat.lt_trans hchar (by decide)

theorem shapeChar_lt {char u : Nat} (h : shapeChar char = some u) : u < 65536 := by
  unfold shapeChar at h
  split at h
  all_goals first | cases Option.some_inj.mp h; decide | exact nomatch h

theorem glyph_loaded {char : Nat} (hchar : char < 256) : Loaded (glyph c char a) := by
  unfold glyph
  dsimp only
  split
  · split
    · exact (by decide : 0x20 < 65536)
    · split
      · exact shapeChar_lt ‹_›
      · exact Int.le_refl 0
  · split
    · exact Int.le_refl 0
    · split
      · exact entry_lt _ _ _
      · split
        · split
          · exact entry_lt _ _ _
          · exact loadChar_loaded hchar
        · exact loadChar_loaded hchar

/-- A character of sixteen bits that is not a blank, or none. -/
theorem renderChar_cases (c : Charsets) (Char : Byte) (a : TstPageAttr) :
    renderChar c Char a ≤ 0 ∨ 0x20 < renderChar c Char a ∧ renderChar c Char a < 65536 := by
  unfold renderChar
  split_ifs with hff hmosaic
  · exact .inl (by decide)
  · exact .inl le_rfl
  · have hglyph := glyph_loaded (c := c) (a := a) Char.toNat_lt
    cases hloaded : glyph c Char.toNat a with
    | error r =>
      rw [hloaded] at hglyph
      exact .inl hglyph
    | ok u =>
      rw [hloaded] at hglyph
      have hlt : u < 65536 := hglyph
      dsimp only
      split_ifs <;> omega

end

end Tuxbox.Tuxtxt

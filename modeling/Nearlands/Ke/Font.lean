/-
  The default font (`BitFonts/font_8x12.h`): twelve rows of eight bits for each character below 128.

  The table is indexed by a `char`, which is signed: at a negative index lies whatever the compiler
  put before the table.
-/
import Mathlib.Data.List.GetD
import Mathlib.Data.Nat.Bitwise

namespace Nearlands.Ke

/-- `font_8x12`: one entry a character, bit `b` of row `r` for the pixel `b` from the left.  It is
    transcribed byte for byte, so that the facts about its margins are facts about this font. -/
def font8x12 : List (List UInt8) :=
  -- from 0x00
  [[0x00, 0x00, 0x00, 0x00, 0x00, 0x00, 0x00, 0x00, 0x00, 0x00, 0x00, 0x00],
   [0x00, 0x00, 0x00, 0x00, 0x00, 0x00, 0x00, 0x00, 0x00, 0x00, 0x00, 0x00],
   [0x00, 0x00, 0x00, 0x00, 0x00, 0x00, 0x00, 0x00, 0x00, 0x00, 0x00, 0x00],
   [0x00, 0x00, 0x00, 0x00, 0x00, 0x00, 0x00, 0x00, 0x00, 0x00, 0x00, 0x00],
   [0x00, 0x00, 0x00, 0x00, 0x00, 0x00, 0x00, 0x00, 0x00, 0x00, 0x00, 0x00],
   [0x00, 0x00, 0x00, 0x00, 0x00, 0x00, 0x00, 0x00, 0x00, 0x00, 0x00, 0x00],
   [0x00, 0x00, 0x00, 0x00, 0x00, 0x00, 0x00, 0x00, 0x00, 0x00, 0x00, 0x00],
   [0x00, 0x00, 0x00, 0x00, 0x00, 0x00, 0x00, 0x00, 0x00, 0x00, 0x00, 0x00],
   [0x00, 0x00, 0x00, 0x00, 0x00, 0x00, 0x00, 0x00, 0x00, 0x00, 0x00, 0x00],
   [0x00, 0x00, 0x00, 0x00, 0x00, 0x00, 0x00, 0x00, 0x00, 0x00, 0x00, 0x00],
   [0x00, 0x00, 0x00, 0x00, 0x00, 0x00, 0x00, 0x00, 0x00, 0x00, 0x00, 0x00],
   [0x00, 0x00, 0x00, 0x00, 0x00, 0x00, 0x00, 0x00, 0x00, 0x00, 0x00, 0x00],
   [0x00, 0x00, 0x00, 0x00, 0x00, 0x00, 0x00, 0x00, 0x00, 0x00, 0x00, 0x00],
   [0x00, 0x00, 0x00, 0x00, 0x00, 0x00, 0x00, 0x00, 0x00, 0x00, 0x00, 0x00],
   [0x00, 0x00, 0x00, 0x00, 0x00, 0x00, 0x00, 0x00, 0x00, 0x00, 0x00, 0x00],
   [0x00, 0x00, 0x00, 0x00, 0x00, 0x00, 0x00, 0x00, 0x00, 0x00, 0x00, 0x00],
  -- from 0x10
   [0x00, 0x00, 0x00, 0x00, 0x00, 0x00, 0x00, 0x00, 0x00, 0x00, 0x00, 0x00],
   [0x00, 0x00, 0x00, 0x00, 0x00, 0x00, 0x00, 0x00, 0x00, 0x00, 0x00, 0x00],
   [0x00, 0x00, 0x00, 0x00, 0x00, 0x00, 0x00, 0x00, 0x00, 0x00, 0x00, 0x00],
   [0x00, 0x00, 0x00, 0x00, 0x00, 0x00, 0x00, 0x00, 0x00, 0x00, 0x00, 0x00],
   [0x00, 0x00, 0x00, 0x00, 0x00, 0x00, 0x00, 0x00, 0x00, 0x00, 0x00, 0x00],
   [0x00, 0x00, 0x00, 0x00, 0x00, 0x00, 0x00, 0x00, 0x00, 0x00, 0x00, 0x00],
   [0x00, 0x00, 0x00, 0x00, 0x00, 0x00, 0x00, 0x00, 0x00, 0x00, 0x00, 0x00],
   [0x00, 0x00, 0x00, 0x00, 0x00, 0x00, 0x00, 0x00, 0x00, 0x00, 0x00, 0x00],
   [0x00, 0x00, 0x00, 0x00, 0x00, 0x00, 0x00, 0x00, 0x00, 0x00, 0x00, 0x00],
   [0x00, 0x00, 0x00, 0x00, 0x00, 0x00, 0x00, 0x00, 0x00, 0x00, 0x00, 0x00],
   [0x00, 0x00, 0x00, 0x00, 0x00, 0x00, 0x00, 0x00, 0x00, 0x00, 0x00, 0x00],
   [0x00, 0x00, 0x00, 0x00, 0x00, 0x00, 0x00, 0x00, 0x00, 0x00, 0x00, 0x00],
   [0x00, 0x00, 0x00, 0x00, 0x00, 0x00, 0x00, 0x00, 0x00, 0x00, 0x00, 0x00],
   [0x00, 0x00, 0x00, 0x00, 0x00, 0x00, 0x00, 0x00, 0x00, 0x00, 0x00, 0x00],
   [0x00, 0x00, 0x00, 0x00, 0x00, 0x00, 0x00, 0x00, 0x00, 0x00, 0x00, 0x00],
   [0x00, 0x00, 0x00, 0x00, 0x00, 0x00, 0x00, 0x00, 0x00, 0x00, 0x00, 0x00],
  -- from 0x20
   [0x00, 0x00, 0x00, 0x00, 0x00, 0x00, 0x00, 0x00, 0x00, 0x00, 0x00, 0x00],
   [0x00, 0x18, 0x18, 0x18, 0x18, 0x18, 0x18, 0x00, 0x18, 0x18, 0x00, 0x00],
   [0x00, 0x36, 0x36, 0x36, 0x00, 0x00, 0x00, 0x00, 0x00, 0x00, 0x00, 0x00],
   [0x00, 0x6C, 0x6C, 0xFE, 0x6C, 0x6C, 0x6C, 0xFE, 0x6C, 0x6C, 0x00, 0x00],
   [0x00, 0x30, 0xFC, 0x16, 0x16, 0x7C, 0xD0, 0xD0, 0x7E, 0x18, 0x00, 0x00],
   [0x00, 0x06, 0x66, 0x30, 0x30, 0x18, 0x18, 0x0C, 0xCC, 0xC0, 0x00, 0x00],
   [0x00, 0x1C, 0x36, 0x36, 0x1C, 0x6E, 0x7B, 0x33, 0x33, 0x6E, 0x00, 0x00],
   [0x00, 0x18, 0x18, 0x0C, 0x00, 0x00, 0x00, 0x00, 0x00, 0x00, 0x00, 0x00],
   [0x00, 0x30, 0x18, 0x0C, 0x0C, 0x0C, 0x0C, 0x0C, 0x18, 0x30, 0x00, 0x00],
   [0x00, 0x0C, 0x18, 0x30, 0x30, 0x30, 0x30, 0x30, 0x18, 0x0C, 0x00, 0x00],
   [0x00, 0x00, 0x66, 0x3C, 0xFF, 0x3C, 0x66, 0x00, 0x00, 0x00, 0x00, 0x00],
   [0x00, 0x00, 0x18, 0x18, 0x18, 0xFF, 0x18, 0x18, 0x18, 0x00, 0x00, 0x00],
   [0x00, 0x00, 0x00, 0x00, 0x00, 0x00, 0x00, 0x00, 0x18, 0x18, 0x0C, 0x00],
   [0x00, 0x00, 0x00, 0x00, 0x00, 0x7E, 0x00, 0x00, 0x00, 0x00, 0x00, 0x00],
   [0x00, 0x00, 0x00, 0x00, 0x00, 0x00, 0x00, 0x00, 0x18, 0x18, 0x00, 0x00],
   [0x00, 0x00, 0x60, 0x30, 0x30, 0x18, 0x18, 0x0C, 0x0C, 0x06, 0x00, 0x00],
  -- from 0x30
   [0x00, 0x3C, 0x66, 0x66, 0x76, 0x7E, 0x6E, 0x66, 0x66, 0x3C, 0x00, 0x00],
   [0x00, 0x18, 0x1C, 0x1E, 0x18, 0x18, 0x18, 0x18, 0x18, 0x7E, 0x00, 0x00],
   [0x00, 0x3C, 0x66, 0x66, 0x60, 0x30, 0x18, 0x0C, 0x06, 0x7E, 0x00, 0x00],
   [0x00, 0x3C, 0x66, 0x60, 0x60, 0x38, 0x60, 0x60, 0x66, 0x3C, 0x00, 0x00],
   [0x00, 0x30, 0x38, 0x3C, 0x36, 0x36, 0x7E, 0x30, 0x30, 0x30, 0x00, 0x00],
   [0x00, 0x7E, 0x06, 0x06, 0x3E, 0x60, 0x60, 0x60, 0x66, 0x3C, 0x00, 0x00],
   [0x00, 0x38, 0x0C, 0x06, 0x06, 0x3E, 0x66, 0x66, 0x66, 0x3C, 0x00, 0x00],
   [0x00, 0x7E, 0x60, 0x30, 0x30, 0x18, 0x18, 0x0C, 0x0C, 0x0C, 0x00, 0x00],
   [0x00, 0x3C, 0x66, 0x66, 0x66, 0x3C, 0x66, 0x66, 0x66, 0x3C, 0x00, 0x00],
   [0x00, 0x3C, 0x66, 0x66, 0x66, 0x7C, 0x60, 0x60, 0x30, 0x1C, 0x00, 0x00],
   [0x00, 0x00, 0x00, 0x18, 0x18, 0x00, 0x00, 0x00, 0x18, 0x18, 0x00, 0x00],
   [0x00, 0x00, 0x00, 0x18, 0x18, 0x00, 0x00, 0x00, 0x18, 0x18, 0x0C, 0x00],
   [0x00, 0x00, 0x60, 0x30, 0x18, 0x0C, 0x06, 0x0C, 0x18, 0x30, 0x60, 0x00],
   [0x00, 0x00, 0x00, 0x00, 0x7E, 0x00, 0x00, 0x7E, 0x00, 0x00, 0x00, 0x00],
   [0x00, 0x00, 0x06, 0x0C, 0x18, 0x30, 0x60, 0x30, 0x18, 0x0C, 0x06, 0x00],
   [0x00, 0x3C, 0x66, 0x66, 0x30, 0x18, 0x18, 0x00, 0x18, 0x18, 0x00, 0x00],
  -- from 0x40
   [0x00, 0x3C, 0x66, 0x76, 0x56, 0x76, 0x76, 0x06, 0x06, 0x3C, 0x00, 0x00],
   [0x00, 0x18, 0x3C, 0x66, 0x66, 0x66, 0x7E, 0x66, 0x66, 0x66, 0x00, 0x00],
   [0x00, 0x3E, 0x66, 0x66, 0x66, 0x3E, 0x66, 0x66, 0x66, 0x3E, 0x00, 0x00],
   [0x00, 0x3C, 0x66, 0x06, 0x06, 0x06, 0x06, 0x06, 0x66, 0x3C, 0x00, 0x00],
   [0x00, 0x1E, 0x36, 0x66, 0x66, 0x66, 0x66, 0x66, 0x36, 0x1E, 0x00, 0x00],
   [0x00, 0x7E, 0x06, 0x06, 0x06, 0x3E, 0x06, 0x06, 0x06, 0x7E, 0x00, 0x00],
   [0x00, 0x7E, 0x06, 0x06, 0x06, 0x3E, 0x06, 0x06, 0x06, 0x06, 0x00, 0x00],
   [0x00, 0x3C, 0x66, 0x06, 0x06, 0x76, 0x66, 0x66, 0x66, 0x7C, 0x00, 0x00],
   [0x00, 0x66, 0x66, 0x66, 0x66, 0x7E, 0x66, 0x66, 0x66, 0x66, 0x00, 0x00],
   [0x00, 0x7E, 0x18, 0x18, 0x18, 0x18, 0x18, 0x18, 0x18, 0x7E, 0x00, 0x00],
   [0x00, 0x78, 0x30, 0x30, 0x30, 0x30, 0x30, 0x36, 0x36, 0x1C, 0x00, 0x00],
   [0x00, 0x66, 0x36, 0x1E, 0x0E, 0x0E, 0x1E, 0x36, 0x66, 0x66, 0x00, 0x00],
   [0x00, 0x06, 0x06, 0x06, 0x06, 0x06, 0x06, 0x06, 0x06, 0x7E, 0x00, 0x00],
   [0x00, 0xC6, 0xEE, 0xFE, 0xD6, 0xD6, 0xC6, 0xC6, 0xC6, 0xC6, 0x00, 0x00],
   [0x00, 0x66, 0x66, 0x6E, 0x7E, 0x76, 0x66, 0x66, 0x66, 0x66, 0x00, 0x00],
   [0x00, 0x3C, 0x66, 0x66, 0x66, 0x66, 0x66, 0x66, 0x66, 0x3C, 0x00, 0x00],
  -- from 0x50
   [0x00, 0x3E, 0x66, 0x66, 0x66, 0x3E, 0x06, 0x06, 0x06, 0x06, 0x00, 0x00],
   [0x00, 0x3C, 0x66, 0x66, 0x66, 0x66, 0x66, 0x76, 0x36, 0x6C, 0x00, 0x00],
   [0x00, 0x3E, 0x66, 0x66, 0x66, 0x3E, 0x1E, 0x36, 0x66, 0x66, 0x00, 0x00],
   [0x00, 0x3C, 0x66, 0x06, 0x06, 0x3C, 0x60, 0x60, 0x66, 0x3C, 0x00, 0x00],
   [0x00, 0x7E, 0x18, 0x18, 0x18, 0x18, 0x18, 0x18, 0x18, 0x18, 0x00, 0x00],
   [0x00, 0x66, 0x66, 0x66, 0x66, 0x66, 0x66, 0x66, 0x66, 0x3C, 0x00, 0x00],
   [0x00, 0x66, 0x66, 0x66, 0x66, 0x66, 0x66, 0x3C, 0x3C, 0x18, 0x00, 0x00],
   [0x00, 0xC6, 0xC6, 0xC6, 0xC6, 0xD6, 0xD6, 0xFE, 0xEE, 0xC6, 0x00, 0x00],
   [0x00, 0x66, 0x66, 0x3C, 0x3C, 0x18, 0x3C, 0x3C, 0x66, 0x66, 0x00, 0x00],
   [0x00, 0x66, 0x66, 0x66, 0x3C, 0x18, 0x18, 0x18, 0x18, 0x18, 0x00, 0x00],
   [0x00, 0x7E, 0x60, 0x30, 0x30, 0x18, 0x0C, 0x0C, 0x06, 0x7E, 0x00, 0x00],
   [0x00, 0x3C, 0x0C, 0x0C, 0x0C, 0x0C, 0x0C, 0x0C, 0x0C, 0x3C, 0x00, 0x00],
   [0x00, 0x00, 0x06, 0x0C, 0x0C, 0x18, 0x18, 0x30, 0x30, 0x60, 0x00, 0x00],
   [0x00, 0x3C, 0x30, 0x30, 0x30, 0x30, 0x30, 0x30, 0x30, 0x3C, 0x00, 0x00],
   [0x00, 0x18, 0x3C, 0x66, 0x00, 0x00, 0x00, 0x00, 0x00, 0x00, 0x00, 0x00],
   [0x00, 0x00, 0x00, 0x00, 0x00, 0x00, 0x00, 0x00, 0x00, 0x00, 0xFF, 0x00],
  -- from 0x60
   [0x00, 0x18, 0x18, 0x30, 0x00, 0x00, 0x00, 0x00, 0x00, 0x00, 0x00, 0x00],
   [0x00, 0x00, 0x00, 0x3C, 0x60, 0x60, 0x7C, 0x66, 0x66, 0x7C, 0x00, 0x00],
   [0x00, 0x06, 0x06, 0x06, 0x3E, 0x66, 0x66, 0x66, 0x66, 0x3E, 0x00, 0x00],
   [0x00, 0x00, 0x00, 0x3C, 0x66, 0x06, 0x06, 0x06, 0x66, 0x3C, 0x00, 0x00],
   [0x00, 0x60, 0x60, 0x60, 0x7C, 0x66, 0x66, 0x66, 0x66, 0x7C, 0x00, 0x00],
   [0x00, 0x00, 0x00, 0x3C, 0x66, 0x66, 0x7E, 0x06, 0x66, 0x3C, 0x00, 0x00],
   [0x00, 0x38, 0x6C, 0x0C, 0x0C, 0x3E, 0x0C, 0x0C, 0x0C, 0x0C, 0x00, 0x00],
   [0x00, 0x00, 0x00, 0x7C, 0x66, 0x66, 0x66, 0x7C, 0x60, 0x66, 0x3C, 0x00],
   [0x00, 0x06, 0x06, 0x06, 0x3E, 0x66, 0x66, 0x66, 0x66, 0x66, 0x00, 0x00],
   [0x00, 0x18, 0x18, 0x00, 0x1C, 0x18, 0x18, 0x18, 0x18, 0x3C, 0x00, 0x00],
   [0x00, 0x30, 0x30, 0x00, 0x30, 0x30, 0x30, 0x30, 0x30, 0x36, 0x1C, 0x00],
   [0x00, 0x06, 0x06, 0x06, 0x66, 0x36, 0x1E, 0x1E, 0x36, 0x66, 0x00, 0x00],
   [0x00, 0x1C, 0x18, 0x18, 0x18, 0x18, 0x18, 0x18, 0x18, 0x3C, 0x00, 0x00],
   [0x00, 0x00, 0x00, 0x36, 0x7E, 0xD6, 0xD6, 0xD6, 0xC6, 0xC6, 0x00, 0x00],
   [0x00, 0x00, 0x00, 0x3E, 0x66, 0x66, 0x66, 0x66, 0x66, 0x66, 0x00, 0x00],
   [0x00, 0x00, 0x00, 0x3C, 0x66, 0x66, 0x66, 0x66, 0x66, 0x3C, 0x00, 0x00],
  -- from 0x70
   [0x00, 0x00, 0x00, 0x3E, 0x66, 0x66, 0x66, 0x3E, 0x06, 0x06, 0x06, 0x00],
   [0x00, 0x00, 0x00, 0x7C, 0x66, 0x66, 0x66, 0x7C, 0x60, 0x60, 0x60, 0x00],
   [0x00, 0x00, 0x00, 0x3A, 0x66, 0x06, 0x06, 0x06, 0x06, 0x06, 0x00, 0x00],
   [0x00, 0x00, 0x00, 0x3C, 0x66, 0x06, 0x3C, 0x60, 0x66, 0x3C, 0x00, 0x00],
   [0x00, 0x00, 0x0C, 0x0C, 0x3E, 0x0C, 0x0C, 0x0C, 0x6C, 0x38, 0x00, 0x00],
   [0x00, 0x00, 0x00, 0x66, 0x66, 0x66, 0x66, 0x66, 0x66, 0x7C, 0x00, 0x00],
   [0x00, 0x00, 0x00, 0x66, 0x66, 0x66, 0x66, 0x3C, 0x3C, 0x18, 0x00, 0x00],
   [0x00, 0x00, 0x00, 0xC6, 0xC6, 0xD6, 0xD6, 0xD6, 0x7E, 0x6C, 0x00, 0x00],
   [0x00, 0x00, 0x00, 0x66, 0x66, 0x3C, 0x18, 0x3C, 0x66, 0x66, 0x00, 0x00],
   [0x00, 0x00, 0x00, 0x66, 0x66, 0x66, 0x66, 0x7C, 0x60, 0x66, 0x3C, 0x00],
   [0x00, 0x00, 0x00, 0x7E, 0x60, 0x30, 0x18, 0x0C, 0x06, 0x7E, 0x00, 0x00],
   [0x00, 0x70, 0x18, 0x18, 0x18, 0x0E, 0x18, 0x18, 0x18, 0x70, 0x00, 0x00],
   [0x00, 0x18, 0x18, 0x18, 0x18, 0x00, 0x18, 0x18, 0x18, 0x18, 0x00, 0x00],
   [0x00, 0x0E, 0x18, 0x18, 0x18, 0x70, 0x18, 0x18, 0x18, 0x0E, 0x00, 0x00],
   [0x00, 0x00, 0x00, 0x6E, 0x3B, 0x00, 0x00, 0x00, 0x00, 0x00, 0x00, 0x00],
   [0x00, 0x00, 0x00, 0x00, 0x00, 0x00, 0x00, 0x00, 0x00, 0x00, 0x00, 0x00]]

/-- `font_8x12[c]`, where `beyond` is what lies before the table.  In C the access is undefined;
    here it gives whatever `beyond` says, and results about the screen are stated for every
    `beyond`. -/
def glyph (beyond : Int → Nat → UInt8) (c : Int8) : Nat → UInt8 :=
  if 0 ≤ c.toInt then fun r => (font8x12.getD c.toInt.toNat []).getD r 0 else beyond c.toInt

/-- Bit `b` of a row: `bmp[i] & (1 << j)`. -/
def bitSet (row : UInt8) (b : Nat) : Bool := row.toNat &&& 1 <<< b ≠ 0

/-- A row is eight bits wide. -/
theorem bitSet_lt {row : UInt8} {b : Nat} (h : bitSet row b = true) : b < 8 := by
  by_contra hb
  have hrow : row.toNat < 2 ^ b :=
    Nat.lt_of_lt_of_le row.toNat_lt (Nat.pow_le_pow_right (by decide) (Nat.le_of_not_lt hb))
  have hand : row.toNat &&& 1 <<< b = 0 := by
    rw [Nat.one_shiftLeft, Nat.and_two_pow, Nat.testBit_lt_two_pow hrow]
    simp
  simp [bitSet, hand] at h

/-- No glyph has a pixel in its first row, and none in its last.  The font is a fixed table, and
    this is read off it. -/
theorem font_margins : ∀ rows ∈ font8x12, rows.getD 0 0 = 0 ∧ rows.getD 11 0 = 0 := by
  decide +kernel

/-- The pixels of a character of the table lie in the rows between. -/
theorem glyph_rows {beyond : Int → Nat → UInt8} {c : Int8} (hc : 0 ≤ c.toInt) {r b : Nat}
    (hr : r < 12) (h : bitSet (glyph beyond c r) b = true) : 0 < r ∧ r < 11 := by
  have hmargins : (font8x12.getD c.toInt.toNat []).getD 0 0 = 0 ∧
      (font8x12.getD c.toInt.toNat []).getD 11 0 = 0 := by
    by_cases hlt : c.toInt.toNat < font8x12.length
    · rw [List.getD_eq_getElem _ _ hlt]
      exact font_margins _ (List.getElem_mem hlt)
    · rw [List.getD_eq_default _ _ (Nat.le_of_not_lt hlt)]
      exact ⟨rfl, rfl⟩
  have hzero : ∀ b, bitSet 0 b = false := by
    intro b
    simp [bitSet]
  rw [glyph, if_pos hc] at h
  constructor
  · by_contra h0
    obtain rfl : r = 0 := by omega
    rw [hmargins.1, hzero] at h
    cases h
  · by_contra h11
    obtain rfl : r = 11 := by omega
    rw [hmargins.2, hzero] at h
    cases h

end Nearlands.Ke

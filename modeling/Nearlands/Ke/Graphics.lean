/-
  Drawing on the screen (`ke/graphics.c`).

  The framebuffer is a canvas of words, numbered from `framebufferBase`.  The screen also keeps the
  indices at which the font was read.  Coordinates and indices are `u32` and wrap.

  A rectangle fills the visible places of its area, where the area ends at `x + width` as a `u32`
  (`drawRect_fills`).  In a mode whose scan lines fit, no index wraps, and a place of the screen has
  one index.
-/
import Nearlands.Ke.Font
import Nearlands.Lib.Canvas
import Nearlands.Lib.Word

namespace Nearlands.Ke

open Nearlands.Lib

/-- `GraphicsData`, as far as drawing reads it. -/
structure GraphicsData where
  init : Bool
  width : Nat
  height : Nat
  pixelsPerScanLine : Nat
  deriving DecidableEq, Repr

/-- The framebuffer, and the indices `c` of the accesses `font_8x12[c]`, newest first.  The log of
    the accesses is what bounds on the font are stated about; the canvas has one of its own for the
    writes. -/
structure Screen extends Canvas Nat Nat where
  glyphs : List Int

/-- One word of a rectangle: `fbPtr[j * pixelsPerScanLine + i] = color`, unless `i` is clipped.
    Only the column is tested here; the row is tested once for a whole line. -/
def drawPixel (g : GraphicsData) (color j i : Nat) (fb : Canvas Nat Nat) : Canvas Nat Nat :=
  if i < g.width then fb.put (w32 (j * g.pixelsPerScanLine + i)) (w32 color) else fb

/-- `KeGraphicsDrawRect(x, y, width, height, color)`.  Both loops end at a sum that is cut to a
    `u32`, so a rectangle whose end wraps around is empty in that direction. -/
def keGraphicsDrawRect (g : GraphicsData) (x y width height color : Nat) (fb : Canvas Nat Nat) :
    Canvas Nat Nat :=
  if g.init ≠ true then fb
  else
    countUp (fun j fb => if j < g.height then
        countUp (drawPixel g color j) x (w32 (x + width) - x) fb else fb)
      y (w32 (y + height) - y) fb

/-- `KeGraphicsDrawChar(c, x, y, size, color)`.  Columns 8 to 11 are tested too, although a row has
    only eight bits; no bit is set there (`bitSet_lt`). -/
def keGraphicsDrawChar (g : GraphicsData) (beyond : Int → Nat → UInt8) (c : Int8)
    (x y size color : Nat) (s : Screen) : Screen :=
  if g.init ≠ true then s
  else
    { s with
      toCanvas := countUp (fun i => countUp (fun j fb => if bitSet (glyph beyond c i) j then
          keGraphicsDrawRect g (w32 (x + j * size)) (w32 (y + i * size)) size size color fb else fb)
        0 12) 0 12 s.toCanvas
      glyphs := c.toInt :: s.glyphs }

/-- The loop of `KeGraphicsDrawString`: the bytes left, each converted to a `char`. -/
def drawBytes (g : GraphicsData) (beyond : Int → Nat → UInt8) (y size color : Nat) :
    List UInt8 → Nat → Screen → Screen
  | [], _, s => s
  | b :: bs, currentX, s => drawBytes g beyond y size color bs (w32 (currentX + w32 (size * 8)))
      (keGraphicsDrawChar g beyond b.toInt8 currentX y size color s)

/-- `KeGraphicsDrawString(string, x, y, size, color)`; a `QString` is its bytes. -/
def keGraphicsDrawString (g : GraphicsData) (beyond : Int → Nat → UInt8) (string : List UInt8)
    (x y size color : Nat) (s : Screen) : Screen :=
  if g.init ≠ true then s else drawBytes g beyond y size color string x s

/-- The loop of `KeGraphicsDrawStringRaw`, which ends at a zero byte. -/
def drawBytesRaw (g : GraphicsData) (beyond : Int → Nat → UInt8) (y size color : Nat) :
    List UInt8 → Nat → Screen → Screen
  | [], _, s => s
  | b :: bs, currentX, s =>
    if b = 0 then s
    else drawBytesRaw g beyond y size color bs (w32 (currentX + w32 (size * 8)))
      (keGraphicsDrawChar g beyond b.toInt8 currentX y size color s)

/-- `KeGraphicsDrawStringRaw(s, x, y, size, color)`, where `string` is the memory from `s` on, up to
    a zero byte at least. -/
def keGraphicsDrawStringRaw (g : GraphicsData) (beyond : Int → Nat → UInt8) (string : List UInt8)
    (x y size color : Nat) (s : Screen) : Screen :=
  if g.init ≠ true then s else drawBytesRaw g beyond y size color string x s

/-- A raw string is drawn up to its first zero byte. -/
theorem drawBytesRaw_eq (g : GraphicsData) (beyond : Int → Nat → UInt8) (y size color : Nat) :
    ∀ (string : List UInt8) (x : Nat) (s : Screen), drawBytesRaw g beyond y size color string x s =
      drawBytes g beyond y size color (string.takeWhile (· ≠ 0)) x s
  | [], _, _ => rfl
  | b :: bs, x, s => by
    rw [drawBytesRaw]
    by_cases hb : b = 0
    · rw [if_pos hb, List.takeWhile_cons_of_neg (by simpa using hb), drawBytes]
    · rw [if_neg hb, List.takeWhile_cons_of_pos (by simpa using hb), drawBytes, drawBytesRaw_eq]

/-- So the raw kind is the other one on the bytes before the first zero. -/
theorem drawStringRaw_eq (g : GraphicsData) (beyond : Int → Nat → UInt8) (string : List UInt8)
    (x y size color : Nat) (s : Screen) : keGraphicsDrawStringRaw g beyond string x y size color s =
      keGraphicsDrawString g beyond (string.takeWhile (· ≠ 0)) x y size color s := by
  rw [keGraphicsDrawStringRaw, drawBytesRaw_eq, keGraphicsDrawString]

/-! ## Places on the screen -/

/-- The scan lines hold the visible lines, and the framebuffer has no more than `2 ^ 32` words.  The
    last bound is what keeps the product `j * pixelsPerScanLine` and the index itself a `u32`. -/
structure GraphicsData.Mode (g : GraphicsData) : Prop where
  init : g.init = true
  line : g.width ≤ g.pixelsPerScanLine
  size : g.height * g.pixelsPerScanLine ≤ 2 ^ 32

/-- The indices of the visible pixels `(i, j)` of the area `A`. -/
def GraphicsData.Visible (g : GraphicsData) (A : Nat → Nat → Prop) (k : Nat) : Prop :=
  ∃ i j, i < g.width ∧ j < g.height ∧ A i j ∧ k = j * g.pixelsPerScanLine + i

variable {g : GraphicsData} {A B : Nat → Nat → Prop}

/-- Visible pixels lie in the framebuffer. -/
theorem GraphicsData.Mode.index_lt (hg : g.Mode) {i j : Nat} (hi : i < g.width) (hj : j < g.height) :
    j * g.pixelsPerScanLine + i < g.height * g.pixelsPerScanLine := by
  have hline := hg.line
  calc j * g.pixelsPerScanLine + i < j * g.pixelsPerScanLine + g.pixelsPerScanLine := by omega
    _ = (j + 1) * g.pixelsPerScanLine := (Nat.succ_mul ..).symm
    _ ≤ g.height * g.pixelsPerScanLine := Nat.mul_le_mul_right _ hj

/-- Areas that agree on the screen have the same visible indices. -/
theorem GraphicsData.visible_congr (h : ∀ i j, i < g.width → j < g.height → (A i j ↔ B i j))
    (k : Nat) : g.Visible A k ↔ g.Visible B k := by
  constructor
  · rintro ⟨i, j, hi, hj, hA, hk⟩
    exact ⟨i, j, hi, hj, (h i j hi hj).mp hA, hk⟩
  · rintro ⟨i, j, hi, hj, hB, hk⟩
    exact ⟨i, j, hi, hj, (h i j hi hj).mpr hB, hk⟩

/-- **Rectangles.**  The area of a rectangle ends where `x + width` and `y + height` do as `u32`.
    The loops are taken from the inside out: a line fills the visible places of its row, and the
    rows one after the other fill the rectangle.  Without `hg` an index could wrap around and two
    places would share a word. -/
theorem drawRect_fills (hg : g.Mode) (x y width height color : Nat) (fb : Canvas Nat Nat) :
    Canvas.Fills
      (g.Visible fun i j => x ≤ i ∧ i < w32 (x + width) ∧ y ≤ j ∧ j < w32 (y + height))
      (w32 color) fb (keGraphicsDrawRect g x y width height color fb) := by
  rw [keGraphicsDrawRect, if_neg (by simpa using hg.init)]
  have hrow : ∀ j fb, Canvas.Fills
      (fun k => ∃ i, x ≤ i ∧ i < x + (w32 (x + width) - x) ∧
        (i < g.width ∧ k = w32 (j * g.pixelsPerScanLine + i))) (w32 color) fb
      (countUp (drawPixel g color j) x (w32 (x + width) - x) fb) := fun j fb =>
    .countUp _ _ _ fun i _ _ fb => .test fun _ => .put ..
  refine (Canvas.Fills.countUp _ _ _ fun j _ _ fb => .test fun _ => hrow j fb).congr fun k => ?_
  constructor
  · rintro ⟨j, hy, hj, hheight, i, hx, hi, hwidth, rfl⟩
    have hindex := hg.index_lt hwidth hheight
    refine ⟨i, j, hwidth, hheight, ⟨hx, by omega, hy, by omega⟩, w32_of_lt ?_⟩
    exact Nat.lt_of_lt_of_le hindex hg.size
  · rintro ⟨i, j, hwidth, hheight, ⟨hx, hi, hy, hj⟩, rfl⟩
    have hindex := hg.index_lt hwidth hheight
    refine ⟨j, hy, by omega, hheight, i, hx, by omega, hwidth, (w32_of_lt ?_).symm⟩
    exact Nat.lt_of_lt_of_le hindex hg.size

/-- Below the first line, nothing visible lies near the end of a `u32`.  In the first line alone a
    place can have a large column, since a screen of one line may be `2 ^ 32` wide. -/
theorem GraphicsData.Mode.narrow (hg : g.Mode) {i j : Nat} (hi : i < g.width) (h0 : 0 < j)
    (hj : j < g.height) : i < 2 ^ 31 := by
  have hline := hg.line
  have hsize := hg.size
  have htwo : 2 * g.pixelsPerScanLine ≤ g.height * g.pixelsPerScanLine :=
    Nat.mul_le_mul_right _ (by omega)
  omega

/-- The square of a glyph's pixel; it may end where the coordinates do.  `x + size` may be `2 ^ 32`,
    which as a `u32` is 0 and would make the square empty; but then its columns are at least `2 ^
    31`, and below the first line none of those are visible (`narrow`).  This is why `0 < y` is
    asked. -/
theorem drawSquare_fills (hg : g.Mode) {x y size : Nat} (color : Nat) (fb : Canvas Nat Nat)
    (hx : x + size ≤ 2 ^ 32) (hsize : size ≤ 2 ^ 31) (h0 : 0 < y) (hy : y + size < 2 ^ 32) :
    Canvas.Fills (g.Visible fun i j => x ≤ i ∧ i < x + size ∧ y ≤ j ∧ j < y + size)
      (w32 color) fb (keGraphicsDrawRect g x y size size color fb) := by
  refine (drawRect_fills hg x y size size color fb).congr (GraphicsData.visible_congr ?_)
  intro i j hi hj
  rw [w32_of_lt hy]
  rcases Nat.eq_or_lt_of_le hx with heq | hlt
  · rw [heq]
    refine ⟨fun h => absurd h.2.1 (Nat.not_lt_zero i), fun h => ?_⟩
    have := hg.narrow hi (by omega) hj
    omega
  · rw [w32_of_lt hlt]

end Nearlands.Ke

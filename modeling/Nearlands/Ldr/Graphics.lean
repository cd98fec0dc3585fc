/-
  Clearing the screen of the loader (`ldr/graphics.c`).

  The loader draws as the kernel does (`Ke.keGraphicsDrawRect`), but `LdrGraphicsClear` has loops of
  its own, and its inner loop ends at the height of the screen, not at its width.  What each of the
  two ways fills is read off from its loops (`clear_fills`, `Ke.drawRect_fills`).  On a wide screen a
  strip at the right is left as it was, on a high one each line is written on beyond its end
  (`clear_iff`).
-/
import Nearlands.Ke.Graphics

namespace Nearlands.Ldr

open Nearlands.Lib Nearlands.Ke

/-- One word of `LdrGraphicsClear`; the test of its inner loop is on `j` again.  `i` runs, and `j`
    is tested: so the test of the inner loop is true or false for a whole line. -/
def clearPixel (g : Ke.GraphicsData) (color j i : Nat) (fb : Canvas Nat Nat) : Canvas Nat Nat :=
  if j < g.height then fb.put (w32 (j * g.pixelsPerScanLine + i)) (w32 color) else fb

/-- `LdrGraphicsClear(color)`.  The color is a `u32`. -/
def ldrGraphicsClear (g : Ke.GraphicsData) (color : Nat) (fb : Canvas Nat Nat) : Canvas Nat Nat :=
  if g.init ≠ true then fb
  else
    countUp (fun j fb => if j < g.height then
        countUp (clearPixel g color j) 0 g.height fb else fb)
      0 g.height fb

/-- `LdrGraphicsDrawRect(x, y, width, height, color)`, which reads as the kernel's. -/
def ldrGraphicsDrawRect (g : Ke.GraphicsData) (x y width height color : Nat) (fb : Canvas Nat Nat) :
    Canvas Nat Nat :=
  keGraphicsDrawRect g x y width height color fb

variable {g : Ke.GraphicsData}

/-- The words of a square as high and wide as the screen is high.  The words, not the pixels:
    indices are cut to 32 bits. -/
def Square (g : Ke.GraphicsData) (k : Nat) : Prop :=
  ∃ i j, i < g.height ∧ j < g.height ∧ k = w32 (j * g.pixelsPerScanLine + i)

/-- The words of the visible pixels. -/
def OnScreen (g : Ke.GraphicsData) (k : Nat) : Prop := g.Visible (fun _ _ => True) k

/-- What the loops of `LdrGraphicsClear` fill. -/
theorem clear_fills (hinit : g.init = true) (color : Nat) (fb : Canvas Nat Nat) :
    Canvas.Fills (Square g) (w32 color) fb (ldrGraphicsClear g color fb) := by
  rw [ldrGraphicsClear, if_neg (by simpa using hinit)]
  refine (Canvas.Fills.countUp _ _ _ fun j _ _ fb => .test fun _ => .countUp _ _ _ fun i _ _ fb =>
    .test fun _ => .put ..).congr fun k => ?_
  constructor
  · rintro ⟨j, -, -, hj, i, -, hi, -, hk⟩
    exact ⟨i, j, by omega, hj, hk⟩
  · rintro ⟨i, j, hi, hj, hk⟩
    exact ⟨j, by omega, by omega, hj, i, by omega, by omega, hj, hk⟩

/-- What a rectangle as large as the screen fills. -/
theorem drawScreen_fills (hg : g.Mode) (hw : g.pixelsPerScanLine < 2 ^ 32) (hh : g.height < 2 ^ 32)
    (color : Nat) (fb : Canvas Nat Nat) : Canvas.Fills (OnScreen g) (w32 color) fb
      (ldrGraphicsDrawRect g 0 0 g.width g.height color fb) := by
  have hline := hg.line
  refine (drawRect_fills hg 0 0 g.width g.height color fb).congr (GraphicsData.visible_congr ?_)
  intro i j hi hj
  rw [w32_of_lt (by omega), w32_of_lt (by omega)]
  simp only [iff_true]
  omega

/-- Two ways to fill places agree when what only one of them fills had the value before.  Two fills
    with one color can only differ where exactly one of them writes. -/
theorem fills_agree {P Q : Nat → Prop} {v : Nat} {fb c d : Canvas Nat Nat}
    (hc : Canvas.Fills P v fb c) (hd : Canvas.Fills Q v fb d) :
    c.cell = d.cell ↔ ∀ k, ¬ (P k ↔ Q k) → fb.cell k = v := by
  constructor
  · intro heq k hone
    have hk := congrFun heq k
    by_cases hP : P k
    · have hQ : ¬ Q k := fun hQ => hone (iff_of_true hP hQ)
      rw [← hd.kept k hQ, ← hk, hc.filled k hP]
    · have hQ : Q k := not_not.mp fun hQ => hone (iff_of_false hP hQ)
      rw [← hc.kept k hP, hk, hd.filled k hQ]
  · intro h
    funext k
    by_cases hP : P k <;> by_cases hQ : Q k
    · rw [hc.filled k hP, hd.filled k hQ]
    · rw [hc.filled k hP, hd.kept k hQ, h k fun hiff => hQ (hiff.mp hP)]
    · rw [hc.kept k hP, hd.filled k hQ, h k fun hiff => hP (hiff.mpr hQ)]
    · rw [hc.kept k hP, hd.kept k hQ]

/-! ## The words only one of the two writes -/

/-- On a screen wider than high they are right of the square; on one higher than wide they are the
    words behind the ends of the lines which are no pixels of the screen. -/
def OneSided (g : Ke.GraphicsData) (k : Nat) : Prop :=
  ∃ i j, j < g.height ∧ k = w32 (j * g.pixelsPerScanLine + i) ∧
    (g.height ≤ i ∧ i < g.width ∨ g.width ≤ i ∧ i < g.height ∧ ¬ OnScreen g k)

/-- Within the scan lines a pixel is known by its index. -/
theorem index_unique {w i j i' j' : Nat} (hi : i < w) (hi' : i' < w)
    (h : j * w + i = j' * w + i') : i = i' := by
  have hmod : (j * w + i) % w = (j' * w + i') % w := congrArg (· % w) h
  rwa [Nat.mul_add_mod_of_lt hi, Nat.mul_add_mod_of_lt hi'] at hmod

/-- The index of a visible pixel does not wrap. -/
theorem index_w32 (hg : g.Mode) {i j : Nat} (hi : i < g.width) (hj : j < g.height) :
    w32 (j * g.pixelsPerScanLine + i) = j * g.pixelsPerScanLine + i :=
  w32_of_lt (Nat.lt_of_lt_of_le (hg.index_lt hi hj) hg.size)

/-- The words where the two differ. -/
theorem oneSided_iff (hg : g.Mode) (k : Nat) : ¬ (Square g k ↔ OnScreen g k) ↔ OneSided g k := by
  have hline := hg.line
  constructor
  · intro hone
    by_cases hscreen : OnScreen g k
    · have hsquare : ¬ Square g k := fun hsquare => hone (iff_of_true hsquare hscreen)
      obtain ⟨i, j, hi, hj, -, hk⟩ := hscreen
      have hindex := index_w32 hg hi hj
      refine ⟨i, j, hj, hk.trans hindex.symm, .inl ⟨?_, hi⟩⟩
      exact Nat.le_of_not_lt fun hlt => hsquare ⟨i, j, hlt, hj, hk.trans hindex.symm⟩
    · have hsquare : Square g k := not_not.mp fun hsquare => hone (iff_of_false hsquare hscreen)
      obtain ⟨i, j, hi, hj, hk⟩ := hsquare
      refine ⟨i, j, hj, hk, .inr ⟨?_, hi, hscreen⟩⟩
      exact Nat.le_of_not_lt fun hlt => hscreen ⟨i, j, hlt, hj, trivial, hk.trans (index_w32 hg hlt hj)⟩
  · rintro ⟨i, j, hj, hk, ⟨hhigh, hi⟩ | ⟨-, hi, hscreen⟩⟩ hiff
    · have hscreen : OnScreen g k := ⟨i, j, hi, hj, trivial, hk.trans (index_w32 hg hi hj)⟩
      obtain ⟨i', j', hi', hj', hk'⟩ := hiff.mpr hscreen
      rw [hk, index_w32 hg hi hj, index_w32 hg (by omega) hj'] at hk'
      have := index_unique (by omega) (by omega) hk'
      omega
    · exact hscreen (hiff.mp ⟨i, j, hi, hj, hk⟩)

/-- No word is written by one of the two only.  The last case is a screen whose lines, taken
    together, are all words that there are: what is written beyond the end of the last line comes
    out at the first. -/
theorem oneSided_none (hg : g.Mode) (hw : g.pixelsPerScanLine < 2 ^ 32) :
    (∀ k, ¬ OneSided g k) ↔ g.width = g.height ∨ g.height = 0 ∨ g.width = g.pixelsPerScanLine ∧
      g.width < g.height ∧ g.height * g.pixelsPerScanLine = 2 ^ 32 := by
  have hline := hg.line
  have hsize := hg.size
  constructor
  · intro hnone
    rcases Nat.lt_trichotomy g.width g.height with hlt | heq | hgt
    · refine .inr (.inr ?_)
      by_cases hpad : g.width < g.pixelsPerScanLine
      · -- the word behind the first line
        refine absurd ⟨g.width, 0, by omega, rfl, .inr ⟨Nat.le_refl _, hlt, ?_⟩⟩ (hnone _)
        rintro ⟨i, j, hi, hj, -, hk⟩
        rw [w32_of_lt (by omega), Nat.zero_mul, Nat.zero_add] at hk
        cases j with
        | zero => omega
        | succ j =>
          rw [Nat.succ_mul] at hk
          omega
      · refine ⟨by omega, hlt, Nat.le_antisymm hsize (Nat.le_of_not_lt fun hroom => ?_)⟩
        -- the word behind the last line
        have hlast : (g.height - 1) * g.pixelsPerScanLine + g.width =
            g.height * g.pixelsPerScanLine := by
          rw [show g.width = g.pixelsPerScanLine by omega, ← Nat.succ_mul,
            show (g.height - 1).succ = g.height by omega]
        refine hnone _ ⟨g.width, g.height - 1, by omega, rfl, .inr ⟨Nat.le_refl _, hlt, ?_⟩⟩
        rintro ⟨i, j, hi, hj, -, hk⟩
        rw [hlast, w32_of_lt hroom] at hk
        have := hg.index_lt hi hj
        omega
    · exact .inl heq
    · refine .inr (.inl (Nat.eq_zero_of_not_pos fun hpos => ?_))
      exact hnone _ ⟨g.height, 0, hpos, rfl, .inl ⟨Nat.le_refl _, hgt⟩⟩
  · rintro h k ⟨i, j, hj, hk, hwide | ⟨hi, hhigh, hscreen⟩⟩
    · omega
    · obtain ⟨hfull, -, hall⟩ : _ ∧ _ ∧ _ := (h.resolve_left (by omega)).resolve_left (by omega)
      -- every index is one of a pixel
      have hlt : k < g.pixelsPerScanLine * g.height := by
        rw [Nat.mul_comm, hall, hk]
        exact Nat.mod_lt _ (by decide)
      refine hscreen ⟨k % g.pixelsPerScanLine, k / g.pixelsPerScanLine, ?_, ?_, trivial, ?_⟩
      · rw [hfull]
        exact Nat.mod_lt _ (Nat.pos_of_mul_pos_right (Nat.zero_lt_of_lt hlt))
      · exact Nat.div_lt_of_lt_mul hlt
      · rw [Nat.mul_comm, Nat.div_add_mod]

/-- **Clearing the screen.**  `LdrGraphicsClear` leaves the framebuffer that `LdrGraphicsDrawRect`
    of the whole screen leaves exactly when the words that only one of them writes had the color
    before; for all contents of the framebuffer it does so exactly on a square screen, on one
    without lines, and on one whose lines fill all `2 ^ 32` words.  The first part is about one
    framebuffer, the second about all of them.  The hypotheses are the mode of the screen: lines as
    long as the screen is wide or longer, and a framebuffer of at most `2 ^ 32` words. -/
theorem clear_iff (hinit : g.init = true) (hline : g.width ≤ g.pixelsPerScanLine)
    (hframe : g.height * g.pixelsPerScanLine ≤ 2 ^ 32) (hw : g.pixelsPerScanLine < 2 ^ 32)
    (hh : g.height < 2 ^ 32) :
    (∀ color fb, (ldrGraphicsClear g color fb).cell =
        (ldrGraphicsDrawRect g 0 0 g.width g.height color fb).cell ↔
      ∀ k, OneSided g k → fb.cell k = w32 color) ∧
    ((∀ color fb, (ldrGraphicsClear g color fb).cell =
        (ldrGraphicsDrawRect g 0 0 g.width g.height color fb).cell) ↔
      g.width = g.height ∨ g.height = 0 ∨ g.width = g.pixelsPerScanLine ∧ g.width < g.height ∧
        g.height * g.pixelsPerScanLine = 2 ^ 32) := by
  have hg : g.Mode := ⟨hinit, hline, hframe⟩
  have hone : ∀ color fb, (ldrGraphicsClear g color fb).cell =
      (ldrGraphicsDrawRect g 0 0 g.width g.height color fb).cell ↔
      ∀ k, OneSided g k → fb.cell k = w32 color := by
    intro color fb
    rw [fills_agree (clear_fills hinit color fb) (drawScreen_fills hg hw hh color fb)]
    exact forall_congr' fun k => by rw [oneSided_iff hg k]
  refine ⟨hone, ?_⟩
  rw [← oneSided_none hg hw]
  constructor
  · intro h k hk
    have hblack : 0 = w32 1 := (hone 1 ⟨fun _ => 0, []⟩).mp (h 1 ⟨fun _ => 0, []⟩) k hk
    exact absurd hblack (by decide)
  · exact fun h color fb => (hone color fb).mpr fun k hk => absurd hk (h k)

/-- Four pixels wide and two high. -/
def wide : Ke.GraphicsData := ⟨true, 4, 2, 4⟩

/-- On a wide screen of one color, clearing with that color leaves the same as the rectangle. -/
theorem clear_wide : (ldrGraphicsClear wide 7 ⟨fun _ => 7, []⟩).cell =
    (ldrGraphicsDrawRect wide 0 0 4 2 7 ⟨fun _ => 7, []⟩).cell :=
  ((clear_iff (g := wide) rfl (by decide) (by decide) (by decide) (by decide)).1 7 _).mpr
    fun _ _ => rfl

/-- **The strip that is left.**  Cleared to white, a black wide screen keeps a black pixel. -/
theorem clear_strip : ¬ ∀ color fb, (ldrGraphicsClear wide color fb).cell =
    (ldrGraphicsDrawRect wide 0 0 wide.width wide.height color fb).cell := by
  intro h
  have hpixel := congrFun (h 0xffffff ⟨fun _ => 0, []⟩) 2
  revert hpixel
  decide

end Nearlands.Ldr

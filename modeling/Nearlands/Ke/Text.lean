/-
  Text on the screen.

  A character is drawn as a square of `size` by `size` pixels for each bit of its glyph, and a
  string as its characters side by side.  For characters of the table (below 128) the pixels filled
  are the visible ones of these squares (`drawString_spec`).

  The bytes of a string are unsigned, and a `char` is not: a byte from 128 on becomes a negative
  index into the font.  So the accesses are in bounds exactly when all the bytes drawn are below 128
  (`glyph_lookup_iff`).
-/
import Nearlands.Ke.Graphics

namespace Nearlands.Ke

open Nearlands.Lib

variable {g : GraphicsData} {beyond : Int → Nat → UInt8} {x y size color : Nat}

/-! ## Characters -/

/-- Bit `b` in row `r` of the glyph of a character.  It is read from the table alone, and says
    nothing of memory around it. -/
def glyphBit (ch : UInt8) (r b : Nat) : Bool :=
  bitSet ((font8x12.getD ch.toNat []).getD r 0) b

/-- The pixels of a character at `(x, y)`.  Rows and columns of the glyph become squares of `size`
    pixels; nothing is clipped here, and coordinates do not wrap. -/
def InGlyph (ch : UInt8) (x y size i j : Nat) : Prop :=
  ∃ r < 12, ∃ b < 8, glyphBit ch r b ∧ x + b * size ≤ i ∧ i < x + b * size + size ∧
    y + r * size ≤ j ∧ j < y + r * size + size

/-- The pixels of a string at `(x, y)`.  The characters stand `8 * size` apart, in the order of the
    string. -/
def InText (string : List UInt8) (x y size i j : Nat) : Prop :=
  ∃ n, ∃ h : n < string.length, InGlyph string[n] (x + 8 * size * n) y size i j

/-- A byte below 128 is a nonnegative `char`. -/
theorem toInt8_of_lt {ch : UInt8} (h : ch < 128) : ch.toInt8.toInt = ch.toNat := by
  have hlt : ch.toNat < 128 := UInt8.lt_iff_toNat_lt.mp h
  show ch.toBitVec.toInt = ch.toBitVec.toNat
  rw [BitVec.toInt_eq_toNat_cond, if_pos (by rw [UInt8.toNat_toBitVec]; omega)]

/-- Any other byte is a negative one.  Its two's complement is the byte less 256. -/
theorem toInt8_of_ge {ch : UInt8} (h : ¬ ch < 128) : ch.toInt8.toInt < 0 := by
  have hge : 128 ≤ ch.toNat := Nat.le_of_not_lt fun hlt => h (UInt8.lt_iff_toNat_lt.mpr hlt)
  have hlt : ch.toNat < 256 := ch.toNat_lt
  show ch.toBitVec.toInt < 0
  rw [BitVec.toInt_eq_toNat_cond, if_neg (by rw [UInt8.toNat_toBitVec]; omega),
    UInt8.toNat_toBitVec]
  omega

/-- The access `font_8x12[c]` is in bounds exactly for the bytes below 128. -/
theorem index_iff (ch : UInt8) : 0 ≤ ch.toInt8.toInt ∧ ch.toInt8.toInt < 128 ↔ ch < 128 := by
  by_cases h : ch < 128
  · have hlt : ch.toNat < 128 := UInt8.lt_iff_toNat_lt.mp h
    rw [toInt8_of_lt h]
    exact iff_of_true (by omega) h
  · have hneg := toInt8_of_ge h
    exact iff_of_false (by omega) h

/-- For a character of the table, the bits drawn are those of its glyph. -/
theorem glyph_bit {ch : UInt8} (h : ch < 128) (r b : Nat) :
    bitSet (glyph beyond ch.toInt8 r) b = glyphBit ch r b := by
  have hidx := toInt8_of_lt h
  rw [glyph, if_pos (by omega), hidx, Int.toNat_natCast, glyphBit]

/-- **Characters.**  A character of the table fills the visible pixels of its glyph.  The first row
    of a glyph is empty (`font_margins`), so its squares lie below line 0, which is what
    `drawSquare_fills` asks; the last row is empty as well, so that the ends of the squares do not
    reach `2 ^ 32`. -/
theorem drawChar_fills (hg : g.Mode) {ch : UInt8} (hch : ch < 128) (hsize : 1 ≤ size)
    (hx : x + 8 * size ≤ 2 ^ 32) (hy : y + 12 * size ≤ 2 ^ 32) (color : Nat) (s : Screen) :
    Canvas.Fills (g.Visible (InGlyph ch x y size)) (w32 color) s.toCanvas
      (keGraphicsDrawChar g beyond ch.toInt8 x y size color s).toCanvas := by
  rw [keGraphicsDrawChar, if_neg (by simpa using hg.init)]
  -- one pixel of the glyph
  have hbit : ∀ r b fb, r < 12 → bitSet (glyph beyond ch.toInt8 r) b = true →
      Canvas.Fills (g.Visible fun i j => x + b * size ≤ i ∧ i < x + b * size + size ∧
        y + r * size ≤ j ∧ j < y + r * size + size) (w32 color) fb
        (keGraphicsDrawRect g (w32 (x + b * size)) (w32 (y + r * size)) size size color fb) := by
    intro r b fb hr hset
    have hb := bitSet_lt hset
    have hrow := glyph_rows (by rw [toInt8_of_lt hch]; omega) hr hset
    have hbsize : b * size + size ≤ 8 * size := by
      rw [← Nat.succ_mul]
      exact Nat.mul_le_mul_right _ hb
    have hrsize : r * size + size ≤ 11 * size := by
      rw [← Nat.succ_mul]
      exact Nat.mul_le_mul_right _ hrow.2
    have hrpos : 0 < r * size := Nat.mul_pos hrow.1 hsize
    have hright : x + b * size + size ≤ 2 ^ 32 := by omega
    have hbottom : y + r * size + size < 2 ^ 32 := by omega
    rw [w32_of_lt (x := x + b * size) (by omega), w32_of_lt (x := y + r * size) (by omega)]
    exact drawSquare_fills hg color fb hright (by omega) (by omega) hbottom
  refine (Canvas.Fills.countUp _ _ _ fun r _ hr fb => .countUp _ _ _ fun b _ _ fb =>
    .test fun hset => hbit r b fb (by omega) hset).congr fun k => ?_
  constructor
  · rintro ⟨r, -, hr, b, -, -, hset, i, j, hi, hj, harea, hk⟩
    exact ⟨i, j, hi, hj, ⟨r, by omega, b, bitSet_lt hset, glyph_bit hch r b ▸ hset, harea⟩, hk⟩
  · rintro ⟨i, j, hi, hj, ⟨r, hr, b, hb, hset, harea⟩, hk⟩
    exact ⟨r, by omega, by omega, b, by omega, by omega, (glyph_bit hch r b).trans hset,
      i, j, hi, hj, harea, hk⟩

/-! ## Strings -/

/-- The pixels of a string are those of its first character and those of the rest, moved by one
    character. -/
theorem inText_cons (ch : UInt8) (string : List UInt8) (i j : Nat) :
    InText (ch :: string) x y size i j ↔
      InGlyph ch x y size i j ∨ InText string (x + 8 * size) y size i j := by
  have hnext : ∀ n, x + 8 * size + 8 * size * n = x + 8 * size * (n + 1) := fun n => by
    rw [Nat.mul_succ]
    omega
  constructor
  · rintro ⟨n, hn, h⟩
    cases n with
    | zero => exact .inl h
    | succ n => exact .inr ⟨n, Nat.lt_of_succ_lt_succ hn, by rw [hnext]; exact h⟩
  · rintro (h | ⟨n, hn, h⟩)
    · exact ⟨0, Nat.zero_lt_succ _, h⟩
    · exact ⟨n + 1, Nat.succ_lt_succ hn, by rw [← hnext]; exact h⟩

/-- No pixel is in an empty string. -/
theorem notInText_nil (g : GraphicsData) (x y size k : Nat) : ¬ g.Visible (InText [] x y size) k := by
  rintro ⟨_, _, _, _, ⟨n, hn, -⟩, -⟩
  exact absurd hn (Nat.not_lt_zero n)

/-- The loop over the characters.  The induction is on the string, with the column of the first
    character free; the column is a `u32`, and the bound on the last glyph keeps it from wrapping
    before the last character is drawn. -/
theorem drawBytes_fills (hg : g.Mode) (hsize : 1 ≤ size) (color : Nat) :
    ∀ (string : List UInt8) (x : Nat) (s : Screen), (∀ ch ∈ string, ch < 128) →
      (∀ n < string.length, x + 8 * size * n + 8 * size ≤ 2 ^ 32 ∧ y + 12 * size ≤ 2 ^ 32) →
      Canvas.Fills (g.Visible (InText string x y size)) (w32 color) s.toCanvas
        (drawBytes g beyond y size color string x s).toCanvas
  | [], x, _, _, _ => .none (notInText_nil g x y size)
  | ch :: string, x, s, hbytes, hfits => by
    obtain ⟨hx, hy⟩ := hfits 0 (Nat.zero_lt_succ _)
    rw [drawBytes]
    have hfirst : Canvas.Fills (g.Visible (InGlyph ch x y size)) (w32 color) s.toCanvas
        (keGraphicsDrawChar g beyond ch.toInt8 x y size color s).toCanvas :=
      drawChar_fills hg (hbytes ch List.mem_cons_self) hsize hx hy color s
    have hnext : string ≠ [] → w32 (x + w32 (size * 8)) = x + 8 * size := by
      intro hne
      have hmore := (hfits 1 (Nat.succ_lt_succ (List.length_pos_iff.mpr hne))).1
      rw [w32_of_lt (x := size * 8) (by omega), w32_of_lt (by omega), Nat.mul_comm size]
    -- after the last character the position is not used, and may have wrapped
    have hrest : Canvas.Fills (g.Visible (InText string (x + 8 * size) y size)) (w32 color)
        (keGraphicsDrawChar g beyond ch.toInt8 x y size color s).toCanvas
        (drawBytes g beyond y size color string (w32 (x + w32 (size * 8)))
          (keGraphicsDrawChar g beyond ch.toInt8 x y size color s)).toCanvas := by
      by_cases hnil : string = []
      · subst hnil
        exact .none (notInText_nil g _ y size)
      · rw [hnext hnil]
        refine drawBytes_fills hg hsize color string _ _ (fun b hb => hbytes b (.tail _ hb)) ?_
        intro n hn
        have hmore := hfits (n + 1) (Nat.succ_lt_succ hn)
        rw [Nat.mul_succ] at hmore
        exact ⟨by omega, hmore.2⟩
    refine (hfirst.seq hrest).congr fun k => ?_
    constructor
    · rintro (⟨i, j, hi, hj, h, hk⟩ | ⟨i, j, hi, hj, h, hk⟩)
      · exact ⟨i, j, hi, hj, (inText_cons ch string i j).mpr (.inl h), hk⟩
      · exact ⟨i, j, hi, hj, (inText_cons ch string i j).mpr (.inr h), hk⟩
    · rintro ⟨i, j, hi, hj, h, hk⟩
      rcases (inText_cons ch string i j).mp h with h | h
      · exact .inl ⟨i, j, hi, hj, h, hk⟩
      · exact .inr ⟨i, j, hi, hj, h, hk⟩

/-- **Text.**  In a mode whose scan lines fit, a string of characters of the table whose glyphs lie
    below `2 ^ 32` has the visible pixels of its glyphs in the color, and no other word of the
    framebuffer is changed; nothing outside the framebuffer is written.  The hypotheses are the
    claim's: the framebuffer has a mode whose scan lines fit, the bytes are in the table, and the
    glyphs end below `2 ^ 32`.  The string need not lie on the screen: what is off it is clipped,
    and the second part then says that nothing is drawn for it. -/
theorem drawString_spec (hinit : g.init = true) (hline : g.width ≤ g.pixelsPerScanLine)
    (hframe : g.height * g.pixelsPerScanLine ≤ 2 ^ 32) {string : List UInt8}
    (hbytes : ∀ ch ∈ string, ch < 128) (hsize : 1 ≤ size)
    (hfits : ∀ n < string.length, x + 8 * size * n + 8 * size ≤ 2 ^ 32 ∧ y + 12 * size ≤ 2 ^ 32)
    (beyond : Int → Nat → UInt8) (color : Nat) (s : Screen) :
    (∀ i j, i < g.width → j < g.height → InText string x y size i j →
      (keGraphicsDrawString g beyond string x y size color s).cell (j * g.pixelsPerScanLine + i) =
        w32 color) ∧
    (∀ k, (¬ ∃ i j, i < g.width ∧ j < g.height ∧ InText string x y size i j ∧
        k = j * g.pixelsPerScanLine + i) →
      (keGraphicsDrawString g beyond string x y size color s).cell k = s.cell k) ∧
    ∃ log, (keGraphicsDrawString g beyond string x y size color s).writes = log ++ s.writes ∧
      ∀ k ∈ log, k < g.height * g.pixelsPerScanLine := by
  have hg : g.Mode := ⟨hinit, hline, hframe⟩
  rw [keGraphicsDrawString, if_neg (by simpa using hinit)]
  have h : Canvas.Fills (g.Visible (InText string x y size)) (w32 color) s.toCanvas
      (drawBytes g beyond y size color string x s).toCanvas :=
    drawBytes_fills hg hsize color string x s hbytes hfits
  refine ⟨fun i j hi hj htext => h.filled _ ⟨i, j, hi, hj, htext, rfl⟩, fun k => h.kept k, ?_⟩
  obtain ⟨log, heq, hlog⟩ := h.writes
  refine ⟨log, heq, fun k hk => ?_⟩
  obtain ⟨i, j, hi, hj, -, rfl⟩ := hlog k hk
  exact hg.index_lt hi hj

/-! ## Glyph lookup -/

/-- Each byte is looked up once, in order, as a `char`. -/
theorem drawBytes_glyphs (g : GraphicsData) (beyond : Int → Nat → UInt8) (y size color : Nat)
    (hinit : g.init = true) : ∀ (string : List UInt8) (x : Nat) (s : Screen),
    (drawBytes g beyond y size color string x s).glyphs =
      (string.map fun ch => ch.toInt8.toInt).reverse ++ s.glyphs
  | [], _, _ => rfl
  | ch :: string, x, s => by
    rw [drawBytes, drawBytes_glyphs g beyond y size color hinit string, keGraphicsDrawChar,
      if_neg (by simpa using hinit), List.map_cons, List.reverse_cons, List.append_assoc]
    rfl

/-- Every access is in bounds, seen from a log that was empty. -/
theorem lookup_iff (g : GraphicsData) (beyond : Int → Nat → UInt8) (string : List UInt8)
    (x y size color : Nat) {s : Screen} (hs : s.glyphs = []) :
    (∀ c ∈ (keGraphicsDrawString g beyond string x y size color s).glyphs, 0 ≤ c ∧ c < 128) ↔
      (g.init = true → ∀ ch ∈ string, ch < 128) := by
  rw [keGraphicsDrawString]
  by_cases hinit : g.init = true
  · rw [if_neg (by simpa using hinit), drawBytes_glyphs g beyond y size color hinit, hs,
      List.append_nil]
    refine ⟨fun h _ ch hch => (index_iff ch).mp (h _ ?_), fun h c hc => ?_⟩
    · exact List.mem_reverse.mpr (List.mem_map_of_mem hch)
    · obtain ⟨ch, hch, rfl⟩ := List.mem_map.mp (List.mem_reverse.mp hc)
      exact (index_iff ch).mpr (h hinit ch hch)
  · rw [if_pos hinit, hs]
    exact ⟨fun _ h => absurd h hinit, fun _ c hc => absurd hc (List.not_mem_nil)⟩

/-- **Glyph lookup.**  The font is read in bounds exactly when every byte drawn is below 128: all
    bytes of a `QString`, and those of a raw string up to the first zero byte.  The log begins
    empty, so that the accesses are those of this call.  Without a mode nothing is drawn, and
    nothing is looked up. -/
theorem glyph_lookup_iff (g : GraphicsData) (beyond : Int → Nat → UInt8) (string : List UInt8)
    (x y size color : Nat) {s : Screen} (hs : s.glyphs = []) :
    ((∀ c ∈ (keGraphicsDrawString g beyond string x y size color s).glyphs, 0 ≤ c ∧ c < 128) ↔
      (g.init = true → ∀ ch ∈ string, ch < 128)) ∧
    ((∀ c ∈ (keGraphicsDrawStringRaw g beyond string x y size color s).glyphs, 0 ≤ c ∧ c < 128) ↔
      (g.init = true → ∀ ch ∈ string.takeWhile (· ≠ 0), ch < 128)) := by
  rw [drawStringRaw_eq]
  exact ⟨lookup_iff g beyond string x y size color hs, lookup_iff g beyond _ x y size color hs⟩

/-! ## Two screens -/

/-- A screen of 16 by 16 pixels, with four words more in a scan line. -/
def small : GraphicsData := ⟨true, 16, 16, 20⟩

/-- A black screen. -/
def black : Screen := ⟨⟨fun _ => 0, []⟩, []⟩

/-- An exclamation mark is in the table. -/
theorem mark_lt : ∀ ch ∈ ([0x21] : List UInt8), ch < 128 := fun ch hch => by
  rw [List.mem_singleton.mp hch]
  decide

/-- So is each of two. -/
theorem marks_lt : ∀ ch ∈ ([0x21, 0x21] : List UInt8), ch < 128 :=
  List.forall_mem_cons.mpr ⟨by decide, mark_lt⟩

/-- Two exclamation marks from column 4 on, the second one cut off in the middle: in the second line
    columns 3 and 4 of a mark are set, so the pixels at 7, 8 and 15 are drawn, and the word behind the
    end of the line is left alone. -/
theorem drawString_mark :
    let s := keGraphicsDrawString small (fun _ _ => 0) [0x21, 0x21] 4 0 1 0xffffff black
    s.cell (20 + 7) = 0xffffff ∧ s.cell (20 + 8) = 0xffffff ∧ s.cell (20 + 15) = 0xffffff ∧
      s.cell (20 + 16) = 0 := by
  obtain ⟨hdrawn, hkept, -⟩ := drawString_spec (g := small) rfl (by decide) (by decide) marks_lt
    (x := 4) (y := 0) (Nat.le_refl 1) (by decide) (fun _ _ => 0) 0xffffff black
  refine ⟨hdrawn 7 1 (by decide) (by decide) ?_, hdrawn 8 1 (by decide) (by decide) ?_,
    hdrawn 15 1 (by decide) (by decide) ?_, hkept 36 ?_⟩
  · exact ⟨0, by decide, 1, by decide, 3, by decide, by decide, by decide⟩
  · exact ⟨0, by decide, 1, by decide, 4, by decide, by decide, by decide⟩
  · exact ⟨1, by decide, 1, by decide, 3, by decide, by decide, by decide⟩
  · rintro ⟨i, j, hi, hj, -, hk⟩
    change i < 16 at hi
    change 36 = j * 20 + i at hk
    omega

/-- Its lookups are in bounds, in either kind of string. -/
theorem lookup_mark :
    (∀ c ∈ (keGraphicsDrawString small (fun _ _ => 0) [0x21] 0 0 1 0xffffff black).glyphs,
      0 ≤ c ∧ c < 128) ∧
    ∀ c ∈ (keGraphicsDrawStringRaw small (fun _ _ => 0) [0x21] 0 0 1 0xffffff black).glyphs,
      0 ≤ c ∧ c < 128 := by
  have h := glyph_lookup_iff small (fun _ _ => 0) [0x21] 0 0 1 0xffffff (s := black) rfl
  exact ⟨h.1.mpr fun _ => mark_lt, h.2.mpr fun _ => mark_lt⟩

/-- **An index before the table.**  The byte `0xE4` is looked up at -28, in either kind of string. -/
theorem lookup_latin :
    (keGraphicsDrawString small (fun _ _ => 0) [0xE4] 0 0 1 0xffffff black).glyphs = [-28] ∧
    (keGraphicsDrawStringRaw small (fun _ _ => 0) [0xE4, 0] 0 0 1 0xffffff black).glyphs = [-28] ∧
    ¬ ∀ c ∈ (keGraphicsDrawString small (fun _ _ => 0) [0xE4] 0 0 1 0xffffff black).glyphs,
      0 ≤ c ∧ c < 128 := by
  refine ⟨rfl, rfl, fun h => ?_⟩
  exact absurd (h (-28) List.mem_cons_self).1 (by decide)

end Nearlands.Ke

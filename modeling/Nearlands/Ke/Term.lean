/-
  The terminal (`ke/term.c`).

  The terminal writes strings on the screen, when it owns it, and to the serial line.  Its state here
  also has a log of the lines drawn, a log of the indices at which the buffers of the strings were
  read, and whether it still runs: a loop that looks for a zero byte where there is none does not
  end, and nothing happens after that.

  Behind a string without a newline the cursor moves by the measured width of the string.  Drawing
  follows the length of a `QString`, and measuring its first zero byte; `puts_advances_iff` says when
  the two agree.
-/
import Nearlands.Ke.Graphics
import Nearlands.Qol.QString

namespace Nearlands.Ke

open Nearlands.Lib Nearlands.Qol

/-- `KeGraphicsMeasureTextSizeFromDefaultFont(string, size)`, with the index of the last byte it
    looks at. -/
def keGraphicsMeasureTextSizeFromDefaultFont (m : Bytes) (string size : Nat) : Option (Nat × Nat) :=
  untilNul m (fun r => (w32 (r.1 + w32 (size * 8)), r.2 + 1)) (2 ^ 64) string (0, 0)

/-- `GraphicsContextOwners`. -/
inductive GraphicsContextOwners
  | debugTerm | splashScreen
  deriving DecidableEq, Repr

/-- `Status`. -/
inductive Status
  | error | pass | warning | info | unknown | impinfo
  deriving DecidableEq, Repr

/-- `ColorPalette`. -/
inductive ColorPalette
  | background | text | error | pass | warning | info | impinfo
  deriving DecidableEq, Repr

/-- The initial `colorPalette`. -/
def defaultPalette : ColorPalette → Nat
  | .background => 0x112121
  | .text => 0xFFFFFF
  | .error => 0xFF0000
  | .pass => 0x00FF00
  | .warning => 0xFFFF00
  | .info => 0x00AAFF
  | .impinfo => 0xFDA172

/-- A string drawn, and where. -/
structure Line where
  x : Nat
  y : Nat
  str : QString

/-- The terminal and its devices.  The logs and the serial line are newest first. -/
structure Term where
  currentX : Nat
  currentY : Nat
  graphics : GraphicsData
  owners : GraphicsContextOwners
  colorPalette : ColorPalette → Nat
  screen : Screen
  serial : List UInt8
  lines : List Line
  reads : List Nat
  running : Bool

namespace Term

/-- The test `init == 1 && owners == OWNER_DEBUG_TERM`. -/
def owns (t : Term) : Bool := t.graphics.init && t.owners == .debugTerm

/-- `KeTermClear()`. -/
def keTermClear (t : Term) : Term :=
  let t := if t.owns then
      { t with screen.toCanvas := keGraphicsDrawRect t.graphics 0 0 t.graphics.width
                t.graphics.height (t.colorPalette .background) t.screen.toCanvas }
    else t
  { t with currentX := 10, currentY := 10, serial := 10 :: t.serial }

/-- One turn of `KeTermMoveDown`. -/
def moveDownLine (t : Term) : Term :=
  let t := { t with currentX := 10, currentY := w32 (t.currentY + 12) }
  if t.graphics.height ≤ t.currentY then t.keTermClear else t

/-- `KeTermMoveDown(amount)`. -/
def keTermMoveDown (amount : Nat) (t : Term) : Term := moveDownLine^[amount] t

/-- The first `n` indices of a buffer, read in order. -/
def readTo (t : Term) (n : Nat) : Term := { t with reads := (List.range n).reverse ++ t.reads }

/-- `KeGraphicsDrawString(str, termCurrentX, termCurrentY, 1, color)`. -/
def drawLine (beyond : Int → Nat → UInt8) (m : Bytes) (str : QString) (color : Nat) (t : Term) :
    Term :=
  { t.readTo str.length with
    screen := keGraphicsDrawString t.graphics beyond (str.bytes m) t.currentX t.currentY 1 color
      t.screen
    lines := ⟨t.currentX, t.currentY, str⟩ :: t.lines }

/-- `ArPrintToSerial(str)`. -/
def arPrintToSerial (m : Bytes) (str : QString) (t : Term) : Term :=
  { t.readTo str.length with serial := (str.bytes m).reverse ++ t.serial }

/-- The first part of `KeTermPuts`, up to the serial line. -/
def putsText (beyond : Int → Nat → UInt8) (m : Bytes) (str : QString) (color : Nat) (t : Term) :
    Term :=
  let t := if t.owns then
      (if t.graphics.height ≤ t.currentY then t.keTermClear else t).drawLine beyond m str color
    else t
  t.arPrintToSerial m str

/-- The cursor behind a string that is measured; without a zero byte the call does not return. -/
def advance (m : Bytes) (str : QString) (t : Term) : Term :=
  match keGraphicsMeasureTextSizeFromDefaultFont m str.buffer 1 with
  | none => { t with running := false }
  | some (size, last) => { t.readTo (last + 1) with currentX := w32 (t.currentX + size) }

/-- `KeTermPuts(addNewLine, str, color)`.  The test whether the screen is full comes before the
    drawing, and a newline moves the cursor without it; so the cursor may be below the screen
    between two calls. -/
def keTermPuts (beyond : Int → Nat → UInt8) (m : Bytes) (addNewLine : Bool) (str : QString)
    (color : Nat) (t : Term) : Term :=
  if t.running = false then t
  else
    let t := t.putsText beyond m str color
    if addNewLine then
      { t with currentX := 10, currentY := w32 (t.currentY + 12), serial := 10 :: t.serial }
    else if t.owns then t.advance m str else t

variable {t : Term} {beyond : Int → Nat → UInt8} {m : Bytes} {str : QString} {color : Nat}

/-! ## What is left alone -/

@[simp] theorem keTermClear_graphics (t : Term) : t.keTermClear.graphics = t.graphics := by
  unfold keTermClear
  split <;> rfl

@[simp] theorem keTermClear_owners (t : Term) : t.keTermClear.owners = t.owners := by
  unfold keTermClear
  split <;> rfl

@[simp] theorem keTermClear_lines (t : Term) : t.keTermClear.lines = t.lines := by
  unfold keTermClear
  split <;> rfl

@[simp] theorem keTermClear_reads (t : Term) : t.keTermClear.reads = t.reads := by
  unfold keTermClear
  split <;> rfl

@[simp] theorem keTermClear_running (t : Term) : t.keTermClear.running = t.running := by
  unfold keTermClear
  split <;> rfl

@[simp] theorem keTermClear_currentY (t : Term) : t.keTermClear.currentY = 10 := rfl

/-- Where the next string is drawn. -/
def drawn (t : Term) : Term := if t.graphics.height ≤ t.currentY then t.keTermClear else t

/-- **Strings on the screen.**  A terminal that owns the screen draws each string where `drawn` says,
    and reads it twice. -/
theorem putsText_spec (howns : t.owns = true) (beyond : Int → Nat → UInt8) (m : Bytes)
    (str : QString) (color : Nat) :
    let t' := t.putsText beyond m str color
    t'.currentX = t.drawn.currentX ∧ t'.currentY = t.drawn.currentY ∧ t'.graphics = t.graphics ∧
    t'.owners = t.owners ∧ t'.running = t.running ∧
    t'.lines = ⟨t.drawn.currentX, t.drawn.currentY, str⟩ :: t.lines ∧
    t'.reads = (List.range str.length).reverse ++ ((List.range str.length).reverse ++ t.reads) := by
  unfold putsText drawn
  rw [if_pos howns]
  dsimp only [arPrintToSerial, drawLine, readTo]
  split <;> simp

/-! ## Measuring -/

/-- The size measured is that of the bytes before the first zero byte. -/
theorem measure_eq (m : Bytes) (string : Nat) :
    keGraphicsMeasureTextSizeFromDefaultFont m string 1 =
      if m.strlen string < 2 ^ 64 then some (w32 (8 * m.strlen string), m.strlen string)
      else none := by
  have hsteps : ∀ n, (fun r : Nat × Nat => (w32 (r.1 + w32 (1 * 8)), r.2 + 1))^[n] (0, 0) =
      (w32 (8 * n), n) := by
    intro n
    induction n with
    | zero => rfl
    | succ n ih =>
      rw [Function.iterate_succ_apply', ih]
      simp only [w32, Prod.mk.injEq, and_true]
      omega
  rw [keGraphicsMeasureTextSizeFromDefaultFont, untilNul_eq]
  exact congrArg (fun r => if m.strlen string < 2 ^ 64 then some r else none) (hsteps _)

/-- A string without a newline moves the cursor by the width drawn, and is read as far as it goes. -/
structure Advances (str : QString) (t t' : Term) : Prop where
  returns : t'.running = true
  cursor : ∃ line, t'.lines = line :: t.lines ∧ line.str = str ∧
    t'.currentX = w32 (line.x + 8 * str.length)
  reads : ∃ new, t'.reads = new ++ t.reads ∧ ∀ i ∈ new, i < str.length

/-- **The cursor.**  `KeTermPuts(FALSE, str, color)` moves the cursor by the width drawn, and reads
    nothing behind the string, exactly when the first zero byte of the buffer lies in the string, a
    multiple of `2 ^ 29` before its end. -/
theorem puts_advances_iff (howns : t.owns = true) (hrun : t.running = true)
    (beyond : Int → Nat → UInt8) (m : Bytes) (str : QString) (color : Nat) :
    Advances str t (t.keTermPuts beyond m false str color) ↔
      m.strlen str.buffer < str.length ∧ 2 ^ 29 ∣ str.length - m.strlen str.buffer := by
  obtain ⟨hx, -, hgraphics, howners, hrunning, hlines, hreads⟩ :=
    putsText_spec howns beyond m str color
  have hput : t.keTermPuts beyond m false str color =
      (t.putsText beyond m str color).advance m str := by
    have howns' : (t.putsText beyond m str color).owns = true := by
      rwa [owns, hgraphics, howners]
    simp only [keTermPuts, hrun, Bool.true_eq_false, if_false, Bool.false_eq_true, howns', if_true]
  have hlength := str.length_lt
  rw [hput, advance, measure_eq]
  by_cases hends : m.strlen str.buffer < 2 ^ 64
  · rw [if_pos hends]
    dsimp only [readTo]
    constructor
    · rintro ⟨-, ⟨line, hline, -, hcursor⟩, new, hnew, hbound⟩
      dsimp only at hline hcursor hnew
      -- the byte at which measuring stopped
      have hlast : m.strlen str.buffer ∈ new := by
        rw [hreads, ← List.append_assoc, ← List.append_assoc] at hnew
        rw [← List.append_cancel_right hnew]
        simp
      have hlt := hbound _ hlast
      rw [hlines] at hline
      obtain ⟨rfl, -⟩ := List.cons.inj hline
      rw [hx] at hcursor
      dsimp only [w32] at hcursor
      exact ⟨hlt, by omega⟩
    · rintro ⟨hlt, hmul⟩
      refine ⟨hrunning.trans hrun, ⟨_, hlines, rfl, ?_⟩,
        (List.range (m.strlen str.buffer + 1)).reverse ++ ((List.range str.length).reverse ++
          (List.range str.length).reverse), ?_, ?_⟩
      · rw [hx]
        dsimp only [w32]
        omega
      · rw [hreads]
        simp only [List.append_assoc]
      · intro i hi
        simp only [List.mem_append, List.mem_reverse, List.mem_range] at hi
        omega
  · rw [if_neg hends]
    refine iff_of_false (fun h => absurd h.returns Bool.false_ne_true) fun h => ?_
    omega

/-- A terminal of 80 by 40 pixels that owns the screen, after `KeTermClear`. -/
def tiny : Term :=
  ⟨10, 10, ⟨true, 80, 40, 80⟩, .debugTerm, defaultPalette, ⟨⟨fun _ => 0, []⟩, []⟩, [], [], [], true⟩

/-- A string of `2 ^ 29` zero bytes: the cursor goes once around the screen coordinates. -/
theorem advances_zeros : Advances ⟨0x1000, 2 ^ 29, by decide⟩ tiny
    (tiny.keTermPuts (fun _ _ => 0) (fun _ => 0) false ⟨0x1000, 2 ^ 29, by decide⟩ 0) := by
  have hzero : Bytes.strlen (fun _ => 0) 0x1000 = 0 :=
    Nat.lt_one_iff.mp ((Bytes.strlenUpTo_lt_iff _ _ _ 1 (by decide)).mpr ⟨0, Nat.one_pos, rfl⟩)
  refine (puts_advances_iff (t := tiny) rfl rfl _ _ _ _).mpr ?_
  rw [hzero]
  decide

/-- The characters `ab` and a zero byte. -/
def letters : Bytes := fun a => if a = 0x1000 then 0x61 else if a = 0x1001 then 0x62 else 0

/-- **The slice that is measured too far.**  The first character of `ab` is drawn at 10, and the
    cursor is then at 26, behind both; the byte at index 2 was looked at. -/
theorem slice_overrun :
    let slice := qolSliceString ⟨0x1000, 2, by decide⟩ 1
    let t := tiny.keTermPuts (fun _ _ => 0) letters false slice 0
    slice.length = 1 ∧ t.currentX = 26 ∧ 2 ∈ t.reads ∧ ¬ Advances slice tiny t := by
  have hreads : 2 ∈ (tiny.keTermPuts (fun _ _ => 0) letters false
      (qolSliceString ⟨0x1000, 2, by decide⟩ 1) 0).reads := by decide +kernel
  refine ⟨by decide, by decide +kernel, hreads, fun h => ?_⟩
  obtain ⟨new, hnew, hbound⟩ := h.reads
  rw [hnew, show tiny.reads = [] from rfl, List.append_nil] at hreads
  exact absurd (hbound 2 hreads) (by decide)

end Term

end Nearlands.Ke

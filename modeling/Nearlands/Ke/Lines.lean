/-
  The lines of the terminal.

  A line is 12 pixels high.  The cursor goes down by 12 and back to 10, so that it stays 10 modulo
  12, and the tests for the end of the screen are that it has reached the height.  The line it is in
  may begin above that and end below: whether the last line fits depends on the height alone.  It
  does exactly for the heights that are 10 modulo 12, the largest of which, `2 ^ 32 - 6`, lets the
  cursor wrap around (`lines_fit_iff`).
-/
import Nearlands.Ke.Term
import Nearlands.Lib.Trace

namespace Nearlands.Ke

open Nearlands.Lib Nearlands.Qol

/-! ## `KeTermPrint` -/

/-- The tag in front of a text and the color of the tag: `"[-] "`, `"[+] "` or `"[!] "`. -/
def tagOf : Status → Option (List UInt8 × ColorPalette)
  | .error => some ([0x5B, 0x2D, 0x5D, 0x20], .error)
  | .pass => some ([0x5B, 0x2B, 0x5D, 0x20], .pass)
  | .info => some ([0x5B, 0x21, 0x5D, 0x20], .info)
  | .warning => some ([0x5B, 0x21, 0x5D, 0x20], .warning)
  | .impinfo => some ([0x5B, 0x21, 0x5D, 0x20], .impinfo)
  | .unknown => none

/-- The memory once `impl_vsnprintf` has filled the 256 bytes of `buffer`; it also holds the tags.
    That a zero byte lies in the buffer is what `npf_vsnprintf` promises for a buffer that is not
    empty, and `printArgs_eq` proves it for the formatter of the kernel. -/
structure Formatted where
  mem : Bytes
  buffer : Nat
  tag : Status → Nat
  text_ends : ∃ i < 256, mem (w64 (buffer + i)) = 0
  tag_holds : ∀ stat text color, tagOf stat = some (text, color) →
    (∀ i, ∀ h : i < text.length, mem (w64 (tag stat + i)) = text[i]) ∧
    mem (w64 (tag stat + text.length)) = 0

namespace Term

/-- `KeTermPuts(addNewLine, QSTR(p), color)`. -/
def putsRaw (beyond : Int → Nat → UInt8) (m : Bytes) (addNewLine : Bool) (p color : Nat) (t : Term) :
    Term :=
  match qolInitString m p with
  | none => { t with running := false }
  | some str => t.keTermPuts beyond m addNewLine str color

/-- `KeTermPrint(stat, str, ...)`; the formatter is what it makes of the format in `cstr`.  The
    format is cut to 127 bytes before it is used.  The tag is written as a string of its own, so
    that one print draws up to two strings, both at one height. -/
def keTermPrint (beyond : Int → Nat → UInt8) (format : List UInt8 → Formatted) (m : Bytes)
    (stat : Status) (str : QString) (t : Term) : Term :=
  if t.running = false then t
  else
    let t := t.readTo (min str.length 127)
    let f := format ((str.bytes m).take 127)
    let t := match tagOf stat with
      | some (_, palette) => t.putsRaw beyond f.mem false (f.tag stat) (t.colorPalette palette)
      | none => t
    if t.running = false then t
    else t.putsRaw beyond f.mem true f.buffer (t.colorPalette .text)

end Term

/-- The calls to the terminal.  The amount of a move is a `u32`, as in the source. -/
inductive TermCall
  | clear
  | moveDown (amount : UInt32)
  | puts (m : Bytes) (addNewLine : Bool) (str : QString) (color : Nat)
  | print (format : List UInt8 → Formatted) (m : Bytes) (stat : Status) (str : QString)

/-- What a call does. -/
def TermCall.run (beyond : Int → Nat → UInt8) : TermCall → Term → Term
  | .clear, t => t.keTermClear
  | .moveDown amount, t => t.keTermMoveDown amount.toNat
  | .puts m addNewLine str color, t => t.keTermPuts beyond m addNewLine str color
  | .print format m stat str, t => t.keTermPrint beyond format m stat str

/-- A call to a terminal that still runs.  A call to one that does not run is no step: the call
    before it has not returned. -/
def termStep (beyond : Int → Nat → UInt8) (t : Term) (c : TermCall) (t' : Term) : Prop :=
  t.running = true ∧ t' = c.run beyond t

/-- No line is cut off at the bottom. -/
def Term.Fit (t : Term) : Prop := ∀ line ∈ t.lines, line.y + 12 ≤ t.graphics.height

/-- A call that writes a text is not made in a line that is cut off.  At or below the bottom there
    is room, because the text then goes to a cleared screen. -/
def TermCall.Room (t : Term) : TermCall → Prop
  | .clear => True
  | .moveDown _ => True
  | .puts .. => t.currentY < t.graphics.height → t.currentY + 12 ≤ t.graphics.height
  | .print .. => t.currentY < t.graphics.height → t.currentY + 12 ≤ t.graphics.height

variable {beyond : Int → Nat → UInt8} {m : Bytes} {str : QString} {color : Nat} {t t' : Term}

/-! ## What the calls do to the lines -/

/-- A call that only moves the cursor. -/
structure Keeps (t t' : Term) : Prop where
  graphics : t'.graphics = t.graphics
  owners : t'.owners = t.owners
  lines : t'.lines = t.lines

/-- A call that draws lines, all where the first one is drawn. -/
structure Draws (t t' : Term) : Prop where
  graphics : t'.graphics = t.graphics
  owners : t'.owners = t.owners
  lines : ∃ new, new ≠ [] ∧ t'.lines = new ++ t.lines ∧
    ∀ line ∈ new, line.y = t.drawn.currentY
  cursor : t'.currentY = t.drawn.currentY ∨ t'.currentY = w32 (t.drawn.currentY + 12)

/-- Clearing draws no line. -/
theorem clear_keeps (t : Term) : Keeps t t.keTermClear :=
  ⟨t.keTermClear_graphics, t.keTermClear_owners, t.keTermClear_lines⟩

/-- A turn of moving down draws none either. -/
theorem moveDownLine_keeps (t : Term) : Keeps t t.moveDownLine := by
  unfold Term.moveDownLine
  dsimp only
  split
  · exact ⟨by simp, by simp, by simp⟩
  · exact ⟨rfl, rfl, rfl⟩

/-- Nor do all its turns. -/
theorem moveDown_keeps (amount : Nat) (t : Term) : Keeps t (t.keTermMoveDown amount) := by
  induction amount with
  | zero => exact ⟨rfl, rfl, rfl⟩
  | succ n ih =>
    rw [Term.keTermMoveDown, Function.iterate_succ_apply']
    have hlast := moveDownLine_keeps (Term.moveDownLine^[n] t)
    exact ⟨hlast.graphics.trans ih.graphics, hlast.owners.trans ih.owners,
      hlast.lines.trans ih.lines⟩

/-- Measuring moves the cursor to the right, or does not end. -/
theorem advance_keeps (m : Bytes) (str : QString) (t : Term) :
    Keeps t (t.advance m str) ∧ (t.advance m str).currentY = t.currentY := by
  unfold Term.advance
  split
  · exact ⟨⟨rfl, rfl, rfl⟩, rfl⟩
  · exact ⟨⟨rfl, rfl, rfl⟩, rfl⟩

/-- A text is one line, drawn where `drawn` says; the cursor then stays at that height, or goes one
    line down. -/
theorem puts_draws (beyond : Int → Nat → UInt8) (m : Bytes) (str : QString) (color : Nat)
    (howns : t.owns = true) (hrun : t.running = true) (addNewLine : Bool) :
    Draws t (t.keTermPuts beyond m addNewLine str color) ∧
    (t.keTermPuts beyond m addNewLine str color).currentY =
      if addNewLine then w32 (t.drawn.currentY + 12) else t.drawn.currentY := by
  obtain ⟨-, hy, hgraphics, howners, -, hlines, -⟩ :=
    Term.putsText_spec howns beyond m str color
  have hnew : ∀ line ∈ [(⟨t.drawn.currentX, t.drawn.currentY, str⟩ : Line)],
      line.y = t.drawn.currentY := fun line hline => by rw [List.mem_singleton.mp hline]
  unfold Term.keTermPuts
  rw [if_neg (by simp [hrun])]
  dsimp only
  split
  · have hnext : w32 ((t.putsText beyond m str color).currentY + 12) =
        w32 (t.drawn.currentY + 12) := by rw [hy]
    exact ⟨⟨hgraphics, howners, ⟨[_], List.cons_ne_nil _ _, hlines, hnew⟩, .inr hnext⟩, hnext⟩
  · split
    · obtain ⟨hkeep, hcur⟩ := advance_keeps m str (t.putsText beyond m str color)
      exact ⟨⟨hkeep.graphics.trans hgraphics, hkeep.owners.trans howners,
        ⟨[_], List.cons_ne_nil _ _, hkeep.lines.trans hlines, hnew⟩, .inl (hcur.trans hy)⟩,
        hcur.trans hy⟩
    · exact ⟨⟨hgraphics, howners, ⟨[_], List.cons_ne_nil _ _, hlines, hnew⟩, .inl hy⟩, hy⟩

/-- With a newline nothing is measured, and the call returns. -/
theorem puts_newline_running (howns : t.owns = true) (hrun : t.running = true) :
    (t.keTermPuts beyond m true str color).running = true := by
  obtain ⟨-, -, -, -, hrunning, -, -⟩ :=
    Term.putsText_spec howns beyond m str color
  unfold Term.keTermPuts
  rw [if_neg (by simp [hrun])]
  exact hrunning.trans hrun

/-- A zero byte lies in the buffer, and so the string is found. -/
theorem initString_some {m : Bytes} {p i : Nat} (hi : i < 256) (h : m (w64 (p + i)) = 0) :
    ∃ str, qolInitString m p = some str := by
  have hends : m.strlenUpTo p (2 ^ 64) < 2 ^ 64 :=
    (Bytes.strlenUpTo_lt_iff m (2 ^ 64) p (2 ^ 64) (Nat.le_refl _)).mpr ⟨i, by omega, h⟩
  unfold qolInitString qolGetStringLength
  split
  · exact ⟨_, rfl⟩
  · rw [untilNul_eq, if_pos hends]
    exact ⟨_, rfl⟩

/-! ## Lines that fit -/

/-- Nothing is drawn at or below the bottom. -/
theorem drawn_lt (h10 : 10 < t.graphics.height) : t.drawn.currentY < t.graphics.height := by
  unfold Term.drawn
  split
  · exact h10
  · omega

/-- A second text behind the first one. -/
theorem Draws.trans {t'' : Term} (h : Draws t t') (h10 : 10 < t.graphics.height)
    (hy : t'.currentY = t.drawn.currentY) (h' : Draws t' t'') : Draws t t'' := by
  have hlt := drawn_lt h10
  have hsame : t'.drawn.currentY = t.drawn.currentY := by
    unfold Term.drawn at hlt hy ⊢
    rw [if_neg (by rw [h.graphics, hy]; exact Nat.not_le_of_lt hlt), hy]
  obtain ⟨new, hne, hlines, hnew⟩ := h.lines
  obtain ⟨new', -, hlines', hnew'⟩ := h'.lines
  refine ⟨h'.graphics.trans h.graphics, h'.owners.trans h.owners, ⟨new' ++ new, ?_, ?_, ?_⟩, ?_⟩
  · exact fun hnil => hne (List.append_eq_nil_iff.mp hnil).2
  · rw [hlines', hlines, List.append_assoc]
  · intro line hline
    rcases List.mem_append.mp hline with hline | hline
    · exact (hnew' line hline).trans hsame
    · exact hnew line hline
  · rw [← hsame]
    exact h'.cursor

/-- A print draws one text or two, at one height: the tag does not move the cursor down. -/
theorem print_draws (howns : t.owns = true) (hrun : t.running = true)
    (h10 : 10 < t.graphics.height) (format : List UInt8 → Formatted) (stat : Status) :
    Draws t (t.keTermPrint beyond format m stat str) := by
  -- reading the format changes nothing that is drawn
  have hread : ∀ {t'}, Draws (t.readTo (min str.length 127)) t' → Draws t t' := by
    intro t' h
    have hsame : (t.readTo (min str.length 127)).drawn.currentY = t.drawn.currentY := by
      unfold Term.drawn Term.readTo
      dsimp only
      split <;> rfl
    have hcursor := h.cursor
    have hlines := h.lines
    rw [hsame] at hcursor hlines
    exact ⟨h.graphics, h.owners, hlines, hcursor⟩
  unfold Term.keTermPrint
  rw [if_neg (by simp [hrun])]
  dsimp only
  obtain ⟨i, hi, hends⟩ := (format ((str.bytes m).take 127)).text_ends
  obtain ⟨text, htext⟩ := initString_some hi hends
  refine hread ?_
  split
  · rename_i tag palette htag
    obtain ⟨-, hnul⟩ := (format ((str.bytes m).take 127)).tag_holds stat tag palette htag
    have hlength : tag.length < 256 := by
      cases stat <;> simp only [tagOf, Option.some.injEq, Prod.mk.injEq, reduceCtorEq] at htag <;>
        rw [← htag.1] <;> decide
    obtain ⟨tagged, htagged⟩ := initString_some hlength hnul
    have howns' : (t.readTo (min str.length 127)).owns = true := howns
    obtain ⟨hfirst, hy⟩ := puts_draws beyond (format ((str.bytes m).take 127)).mem tagged
      ((t.readTo (min str.length 127)).colorPalette palette) howns' hrun false
    simp only [Term.putsRaw, htagged, htext]
    split
    · exact hfirst
    · rename_i hrun'
      refine hfirst.trans h10 hy (puts_draws _ _ _ _ ?_ (Bool.not_eq_false _ ▸ hrun') true).1
      rwa [Term.owns, hfirst.graphics, hfirst.owners]
  · rw [if_neg (by simp [Term.readTo, hrun])]
    simp only [Term.putsRaw, htext]
    have howns' : (t.readTo (min str.length 127)).owns = true := howns
    exact (puts_draws _ _ _ _ howns' hrun true).1

/-- If nothing is drawn, the lines fit as they did. -/
theorem Keeps.fit (h : Keeps t t') : t'.Fit ↔ t.Fit := by
  rw [Term.Fit, h.lines, h.graphics, Term.Fit]

/-- A text in a line that is cut off does not fit.  One at or below the bottom is drawn at 10 after
    the screen was cleared, and there it fits, as the height is 22 at least. -/
theorem Draws.fit (h : Draws t t') (h22 : 22 ≤ t.graphics.height) :
    t'.Fit ↔ t.Fit ∧ (t.currentY < t.graphics.height → t.currentY + 12 ≤ t.graphics.height) := by
  obtain ⟨new, hne, hlines, hnew⟩ := h.lines
  have hline : t.drawn.currentY + 12 ≤ t.graphics.height ↔
      (t.currentY < t.graphics.height → t.currentY + 12 ≤ t.graphics.height) := by
    unfold Term.drawn
    split
    · rw [Term.keTermClear_currentY]
      omega
    · omega
  rw [← hline, Term.Fit, hlines, h.graphics]
  constructor
  · intro hall
    obtain ⟨line, hmem⟩ := List.exists_mem_of_ne_nil new hne
    have hfirst := hall line (List.mem_append_left _ hmem)
    rw [hnew line hmem] at hfirst
    exact ⟨fun l hl => hall l (List.mem_append_right _ hl), hfirst⟩
  · rintro ⟨hold, hfirst⟩ line hmem
    rcases List.mem_append.mp hmem with hmem | hmem
    · rw [hnew line hmem]
      exact hfirst
    · exact hold line hmem

/-- The terminal owns a screen, `g`. -/
structure Owner (g : GraphicsData) (t : Term) : Prop where
  graphics : t.graphics = g
  owners : t.owners = .debugTerm

variable {g : GraphicsData}

/-- It then draws what it writes. -/
theorem Owner.owns (h : Owner g t) (hinit : g.init = true) : t.owns = true := by
  simp [Term.owns, h.graphics, h.owners, hinit]

/-- **A call.**  It leaves the screen to the terminal, and its lines fit exactly when it has room. -/
theorem call_fit (hinit : g.init = true) (h22 : 22 ≤ g.height) {c : TermCall} (h : Owner g t)
    (hstep : termStep beyond t c t') : Owner g t' ∧ (t'.Fit ↔ t.Fit ∧ c.Room t) := by
  obtain ⟨hrun, rfl⟩ := hstep
  have howns := h.owns hinit
  have hheight : 22 ≤ t.graphics.height := by rwa [h.graphics]
  have hkeeps : ∀ {t'}, Keeps t t' → Owner g t' ∧ (t'.Fit ↔ t.Fit ∧ True) := fun hk =>
    ⟨⟨hk.graphics.trans h.graphics, hk.owners.trans h.owners⟩, by rw [and_true, hk.fit]⟩
  have hdraws : ∀ {t'}, Draws t t' → Owner g t' ∧ (t'.Fit ↔ t.Fit ∧
      (t.currentY < t.graphics.height → t.currentY + 12 ≤ t.graphics.height)) := fun hd =>
    ⟨⟨hd.graphics.trans h.graphics, hd.owners.trans h.owners⟩, hd.fit hheight⟩
  cases c with
  | clear => exact hkeeps (clear_keeps t)
  | moveDown amount => exact hkeeps (moveDown_keeps amount.toNat t)
  | puts m addNewLine str color => exact hdraws (puts_draws _ _ _ _ howns hrun addNewLine).1
  | print format m stat str => exact hdraws (print_draws howns hrun (by omega) format stat)

/-! ## Runs -/

/-- A terminal that owns the screen `g`, and has drawn nothing. -/
structure Fresh (g : GraphicsData) (t : Term) : Prop extends Owner g t where
  lines : t.lines = []
  running : t.running = true

/-- Clearing it leaves the screen to it. -/
theorem Fresh.owner (h : Fresh g t) : Owner g t.keTermClear :=
  ⟨(clear_keeps t).graphics.trans h.graphics, (clear_keeps t).owners.trans h.owners⟩

/-- It has no lines yet. -/
theorem Fresh.fit (h : Fresh g t) : t.keTermClear.Fit := by
  rw [(clear_keeps t).fit, Term.Fit, h.lines]
  simp

variable {t₀ : Term} {h : List TermCall}

/-- The screen stays the terminal's through a run. -/
theorem run_owner (hinit : g.init = true) (h22 : 22 ≤ g.height) (hfresh : Fresh g t₀)
    (ht : Trace (termStep beyond) t₀.keTermClear h t) : Owner g t :=
  Trace.inv (I := Owner g) hfresh.owner (fun _ _ _ ho hs => (call_fit hinit h22 ho hs).1) ht

/-- A run whose texts all have room. -/
def roomStep (beyond : Int → Nat → UInt8) (t : Term) (c : TermCall) (t' : Term) : Prop :=
  termStep beyond t c t' ∧ c.Room t

/-- The lines of a run fit exactly when its texts all have room.  By induction on the run, from
    `call_fit`: a line that is cut off stays in the log. -/
theorem run_fit (hinit : g.init = true) (h22 : 22 ≤ g.height) (hfresh : Fresh g t₀)
    (ht : Trace (termStep beyond) t₀.keTermClear h t) :
    t.Fit ↔ Trace (roomStep beyond) t₀.keTermClear h t := by
  induction ht with
  | start => exact iff_of_true hfresh.fit .start
  | snoc ht hs ih =>
    rename_i s s' c
    have hcall := (call_fit hinit h22 (run_owner hinit h22 hfresh ht) hs).2
    rw [hcall, ih]
    constructor
    · rintro ⟨hroom, hc⟩
      exact hroom.snoc ⟨hs, hc⟩
    · rintro (_ | ⟨hroom, -, hc⟩)
      have hdet : ∀ (s : Term) e t t', termStep beyond s e t → termStep beyond s e t' → t = t' :=
        fun _ _ _ _ h h' => h.2.trans h'.2.symm
      obtain rfl := Trace.unique hdet ht (hroom.mono fun _ _ _ h => h.1)
      exact ⟨hroom, hc⟩

/-! ## Heights whose last line fits -/

/-- The cursor where the last line fits: in a whole line, or right below the last one. -/
structure OnLine (t : Term) : Prop where
  line : t.currentY % 12 = 10
  above : t.currentY ≤ t.graphics.height

/-- A height at which it stays so.  The last bound leaves room for the cursor to go one line below
    the last one without a wrap. -/
structure Whole (height : Nat) : Prop where
  enough : 22 ≤ height
  last : height % 12 = 10
  small : height + 12 ≤ 2 ^ 32

/-- In a whole line there is room for a text: if the line begins above the bottom it also ends
    there, as both are 10 modulo 12. -/
theorem OnLine.room (hon : OnLine t) (hw : Whole t.graphics.height) (c : TermCall) : c.Room t := by
  obtain ⟨hline, habove⟩ := hon
  have hlast := hw.last
  cases c with
  | clear => trivial
  | moveDown amount => trivial
  | puts m addNewLine str color =>
    intro hlt
    omega
  | print format m stat str =>
    intro hlt
    omega

/-- The first line begins at 10. -/
theorem clear_onLine (hw : Whole t.graphics.height) : OnLine t.keTermClear := by
  have henough := hw.enough
  exact ⟨rfl, by rw [Term.keTermClear_graphics, Term.keTermClear_currentY]; omega⟩

/-- A line further down is a whole one too, or the first one again. -/
theorem moveDownLine_onLine (hw : Whole t.graphics.height) (hon : OnLine t) :
    OnLine t.moveDownLine := by
  obtain ⟨hline, habove⟩ := hon
  have hlast := hw.last
  have hsmall := hw.small
  have hnext : w32 (t.currentY + 12) = t.currentY + 12 := w32_of_lt (by omega)
  unfold Term.moveDownLine
  dsimp only
  split
  · exact clear_onLine hw
  · rename_i hlt
    refine ⟨?_, Nat.le_of_not_le hlt⟩
    dsimp only
    omega

/-- So is any number of lines further down. -/
theorem moveDown_onLine (hw : Whole t.graphics.height) (hon : OnLine t) (amount : Nat) :
    OnLine (t.keTermMoveDown amount) := by
  induction amount with
  | zero => exact hon
  | succ n ih =>
    rw [Term.keTermMoveDown, Function.iterate_succ_apply']
    exact moveDownLine_onLine (t := t.keTermMoveDown n)
      (by rwa [(moveDown_keeps n t).graphics]) ih

/-- A text leaves the cursor in its line or in the next one. -/
theorem Draws.onLine (hd : Draws t t') (hw : Whole t.graphics.height) (hon : OnLine t) :
    OnLine t' := by
  obtain ⟨hline, habove⟩ := hon
  have henough := hw.enough
  have hlast := hw.last
  have hsmall := hw.small
  have hdrawn : t.drawn.currentY % 12 = 10 ∧ t.drawn.currentY + 12 ≤ t.graphics.height := by
    unfold Term.drawn
    split
    · rw [Term.keTermClear_currentY]
      omega
    · omega
  have hnext : w32 (t.drawn.currentY + 12) = t.drawn.currentY + 12 := w32_of_lt (by omega)
  rcases hd.cursor with hy | hy
  · exact ⟨by omega, by rw [hd.graphics]; omega⟩
  · exact ⟨by omega, by rw [hd.graphics]; omega⟩

/-- At such a height the cursor stays in whole lines. -/
theorem run_onLine (hinit : g.init = true) (hw : Whole g.height) (hfresh : Fresh g t₀)
    (ht : Trace (termStep beyond) t₀.keTermClear h t) : OnLine t := by
  have hboth : Owner g t ∧ OnLine t := by
    refine Trace.inv (I := fun t => Owner g t ∧ OnLine t) ?_ ?_ ht
    · exact ⟨hfresh.owner, clear_onLine (by rwa [hfresh.graphics])⟩
    · rintro s c s' ⟨ho, hon⟩ hs
      refine ⟨(call_fit hinit hw.enough ho hs).1, ?_⟩
      obtain ⟨hrun, rfl⟩ := hs
      have hws : Whole s.graphics.height := by rwa [ho.graphics]
      have henough := hws.enough
      have howns := ho.owns hinit
      cases c with
      | clear => exact clear_onLine hws
      | moveDown amount => exact moveDown_onLine hws hon amount.toNat
      | puts m addNewLine str color => exact (puts_draws _ _ _ _ howns hrun addNewLine).1.onLine hws hon
      | print format m stat str =>
        exact (print_draws howns hrun (by omega) format stat).onLine hws hon
  exact hboth.2

/-! ## Heights whose last line is cut off -/

/-- Moving down where the screen does not end.  The induction is on the number of lines; `hfree`
    says that none of the lines on the way reaches the bottom, where the screen would be cleared. -/
theorem moveDown_cursor (t : Term) : ∀ n,
    (∀ k, 0 < k → k ≤ n → w32 (t.currentY + 12 * k) < t.graphics.height) → t.currentY < 2 ^ 32 →
    (t.keTermMoveDown n).currentY = w32 (t.currentY + 12 * n)
  | 0, _, hy => (w32_of_lt hy).symm
  | n + 1, hfree, hy => by
    have ih : (t.keTermMoveDown n).currentY = w32 (t.currentY + 12 * n) :=
      moveDown_cursor t n (fun k hk hn => hfree k hk (by omega)) hy
    have hnext : w32 ((t.keTermMoveDown n).currentY + 12) = w32 (t.currentY + 12 * (n + 1)) := by
      rw [ih]
      simp only [w32]
      omega
    have hlt : ¬ t.graphics.height ≤ w32 ((t.keTermMoveDown n).currentY + 12) := by
      rw [hnext]
      exact Nat.not_le_of_lt (hfree (n + 1) (Nat.succ_pos n) (Nat.le_refl _))
    rw [Term.keTermMoveDown, Function.iterate_succ_apply']
    show (t.keTermMoveDown n).moveDownLine.currentY = _
    unfold Term.moveDownLine
    dsimp only
    rw [(moveDown_keeps n t).graphics, if_neg hlt]
    exact hnext

/-- Moving down returns. -/
theorem moveDownLine_running (t : Term) : t.moveDownLine.running = t.running := by
  unfold Term.moveDownLine
  dsimp only
  split <;> simp

/-- For any number of lines. -/
theorem moveDown_running (n : Nat) (t : Term) : (t.keTermMoveDown n).running = t.running := by
  induction n with
  | zero => rfl
  | succ n ih =>
    rw [Term.keTermMoveDown, Function.iterate_succ_apply', moveDownLine_running]
    exact ih

/-- Some run brings the cursor to `y`. -/
def Reaches (beyond : Int → Nat → UInt8) (g : GraphicsData) (y : Nat) : Prop :=
  ∃ t₀ h t, Fresh g t₀ ∧ Trace (termStep beyond) t₀.keTermClear h t ∧ t.running = true ∧
    t.currentY = y

/-- Clearing brings it to 10. -/
theorem reaches_first (beyond : Int → Nat → UInt8) (g : GraphicsData) : Reaches beyond g 10 :=
  ⟨⟨10, 10, g, .debugTerm, defaultPalette, ⟨⟨fun _ => 0, []⟩, []⟩, [], [], [], true⟩, [], _,
    ⟨⟨rfl, rfl⟩, rfl, rfl⟩, .start, by simp, rfl⟩

/-- From there it can be moved down, where the screen does not end. -/
theorem Reaches.down {y n : Nat} (hinit : g.init = true) (h22 : 22 ≤ g.height)
    (hr : Reaches beyond g y) (hy : y < 2 ^ 32) (hn : n < 2 ^ 32)
    (hfree : ∀ k, 0 < k → k ≤ n → w32 (y + 12 * k) < g.height) :
    Reaches beyond g (w32 (y + 12 * n)) := by
  obtain ⟨t₀, h, t, hfresh, ht, hrun, rfl⟩ := hr
  have howner := run_owner hinit h22 hfresh ht
  have hamount : (UInt32.ofNat n).toNat = n := UInt32.toNat_ofNat_of_lt' hn
  refine ⟨t₀, .moveDown (UInt32.ofNat n) :: h, t.keTermMoveDown n, hfresh,
    ht.snoc ⟨hrun, ?_⟩, (moveDown_running n t).trans hrun, ?_⟩
  · rw [TermCall.run, hamount]
  · exact moveDown_cursor t n (by rwa [howner.graphics]) hy

/-- An empty text, at any address. -/
def noText : QString := qolInitStringEx null 0

/-- A text with a newline brings it to the next line, even if that is below the bottom. -/
theorem Reaches.newline {y : Nat} (hinit : g.init = true) (h22 : 22 ≤ g.height)
    (hr : Reaches beyond g y) (hy : y < g.height) : Reaches beyond g (w32 (y + 12)) := by
  obtain ⟨t₀, h, t, hfresh, ht, hrun, rfl⟩ := hr
  have howner := run_owner hinit h22 hfresh ht
  have howns := howner.owns hinit
  refine ⟨t₀, .puts (fun _ => 0) true noText 0 :: h, _, hfresh, ht.snoc ⟨hrun, rfl⟩,
    puts_newline_running howns hrun, ?_⟩
  refine (puts_draws _ _ _ _ howns hrun true).2.trans ?_
  rw [if_pos rfl, Term.drawn, if_neg (by rw [howner.graphics]; omega)]

/-- A text at a place where it is cut off. -/
theorem Reaches.cut {y : Nat} (hinit : g.init = true) (h22 : 22 ≤ g.height)
    (hr : Reaches beyond g y) (hy : y < g.height) (hcut : g.height < y + 12) :
    ∃ t₀ h t, Fresh g t₀ ∧ Trace (termStep beyond) t₀.keTermClear h t ∧ ¬ t.Fit := by
  obtain ⟨t₀, h, t, hfresh, ht, hrun, rfl⟩ := hr
  have howner := run_owner hinit h22 hfresh ht
  have hs : termStep beyond t (.puts (fun _ => 0) true noText 0) _ := ⟨hrun, rfl⟩
  refine ⟨t₀, _, _, hfresh, ht.snoc hs, fun hfit => ?_⟩
  have hroom := ((call_fit hinit h22 howner hs).2.mp hfit).2
  rw [TermCall.Room, howner.graphics] at hroom
  have := hroom hy
  omega

/-- **Where lines are cut off.**  At every other height.  If the height is not 10 modulo 12, the
    cursor is moved to the last line that begins on the screen, and it ends below.  At the height `2
    ^ 32 - 6` the cursor wraps around behind the last line, to a place which is not 10 modulo 12,
    and lines are then cut off as well. -/
theorem cut_exists (hinit : g.init = true) (h22 : 22 ≤ g.height) (hlt : g.height < 2 ^ 32)
    (hbad : ¬ (g.height % 12 = 10 ∧ g.height + 12 ≤ 2 ^ 32)) (beyond : Int → Nat → UInt8) :
    ∃ t₀ h t, Fresh g t₀ ∧ Trace (termStep beyond) t₀.keTermClear h t ∧ ¬ t.Fit := by
  have hfirst := reaches_first beyond g
  by_cases hlast : g.height % 12 = 10
  · -- behind the last line the cursor wraps around to 6, and then goes down in other lines
    have hheight : g.height = 2 ^ 32 - 6 := by omega
    have hbottom := hfirst.down (n := (g.height - 22) / 12) hinit h22 (by decide) (by omega)
      fun k _ hk => by rw [w32_of_lt (by omega)]; omega
    rw [w32_of_lt (by omega), show 10 + 12 * ((g.height - 22) / 12) = g.height - 12 by omega]
      at hbottom
    have hbelow := hbottom.newline hinit h22 (by omega)
    rw [w32_of_lt (by omega), show g.height - 12 + 12 = g.height by omega] at hbelow
    have hwrap : ∀ k, 0 < k → k ≤ (g.height - 10) / 12 + 1 →
        w32 (g.height + 12 * k) = 12 * k - 6 := by
      intro k h0 hk
      rw [w32]
      omega
    have hother := hbelow.down (n := (g.height - 10) / 12 + 1) hinit h22 hlt (by omega)
      fun k h0 hk => by rw [hwrap k h0 hk]; omega
    rw [hwrap _ (Nat.succ_pos _) (Nat.le_refl _)] at hother
    exact hother.cut hinit h22 (by omega) (by omega)
  · have hbottom := hfirst.down (n := (g.height - 11) / 12) hinit h22 (by decide) (by omega)
      fun k _ hk => by rw [w32_of_lt (by omega)]; omega
    rw [w32_of_lt (by omega)] at hbottom
    exact hbottom.cut hinit h22 (by omega) (by omega)

/-- **Lines.**  The lines of all runs fit on the screen exactly when its height is 10 modulo 12 (and
    not the largest such `u32`); those of one run do exactly when it makes no text where the line is
    cut off.  The height is asked to hold one line below the upper margin (22), and is a `u32`.  The
    first part is for all runs at once, the second is exact for each run; both are about lines the
    terminal draws, and so about a terminal that owns the screen. -/
theorem lines_fit_iff (hinit : g.init = true) (h22 : 22 ≤ g.height) (hlt : g.height < 2 ^ 32)
    (beyond : Int → Nat → UInt8) :
    ((∀ t₀, Fresh g t₀ → ∀ h t, Trace (termStep beyond) t₀.keTermClear h t → t.Fit) ↔
      g.height % 12 = 10 ∧ g.height + 12 ≤ 2 ^ 32) ∧
    ∀ t₀, Fresh g t₀ → ∀ h t, Trace (termStep beyond) t₀.keTermClear h t →
      (t.Fit ↔ Trace (roomStep beyond) t₀.keTermClear h t) := by
  refine ⟨⟨fun hall => ?_, fun hgood t₀ hfresh h t ht => ?_⟩,
    fun t₀ hfresh h t ht => run_fit hinit h22 hfresh ht⟩
  · by_contra hbad
    obtain ⟨t₀, h, t, hfresh, ht, hcut⟩ := cut_exists hinit h22 hlt hbad beyond
    exact hcut (hall t₀ hfresh h t ht)
  · have hw : Whole g.height := ⟨h22, hgood.1, hgood.2⟩
    rw [run_fit hinit h22 hfresh ht]
    clear h22
    induction ht with
    | start => exact .start
    | snoc ht hs ih =>
      refine ih.snoc ⟨hs, (run_onLine hinit hw hfresh ht).room ?_ _⟩
      rwa [(run_owner hinit hw.enough hfresh ht).graphics]

/-- A terminal of 80 by 22 pixels that owns the screen: it has one line. -/
def flat : Term := { Term.tiny with graphics := ⟨true, 80, 22, 80⟩ }

/-- The text `!!`, where memory is full of exclamation marks. -/
def marks : QString := qolInitStringEx 0x1000 2

/-- Two texts, each on the one line. -/
theorem flat_fit : (TermCall.run (fun _ _ => 0) (.puts (fun _ => 0x21) true marks 0)
    (TermCall.run (fun _ _ => 0) (.puts (fun _ => 0x21) true marks 0) flat.keTermClear)).Fit :=
  ((lines_fit_iff (g := flat.graphics) rfl (by decide) (by decide) fun _ _ => 0).1.mpr
    ⟨by decide, by decide⟩) flat ⟨⟨rfl, rfl⟩, rfl, rfl⟩ _ _
    ((Trace.start.snoc ⟨rfl, rfl⟩).snoc ⟨rfl, rfl⟩)

/-- **A line that is cut off.**  On a screen of 40 lines of pixels the third text line begins at 34
    and ends behind the screen. -/
theorem third_line_cut : ¬ ∀ t₀, Fresh Term.tiny.graphics t₀ → ∀ h t,
    Trace (termStep fun _ _ => 0) t₀.keTermClear h t → t.Fit := by
  intro hall
  have hrun : Trace (termStep fun _ _ => 0) Term.tiny.keTermClear
      [.puts (fun _ => 0x21) true marks 0, .moveDown 2] _ :=
    (Trace.start.snoc ⟨rfl, rfl⟩).snoc ⟨rfl, rfl⟩
  have hfit := hall Term.tiny ⟨⟨rfl, rfl⟩, rfl, rfl⟩ _ _ hrun
  exact absurd (hfit ⟨10, 34, marks⟩ List.mem_cons_self) (by decide +kernel)

end Nearlands.Ke

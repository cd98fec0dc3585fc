/-
  `KeTermPrint` with the formatter of the kernel.

  The format is copied into an array of 128 bytes and formatted into one of 256, and what is in there
  is written behind the tag of the status.  So of the format 127 bytes count, and of the text 255: on
  the serial line arrive the tag, that much of the text, and a newline (`print_serial`).

  What `Ke.Lines` says of a formatter that fills its buffer holds of this one: `printArgs_eq` gives the
  `Formatted` that a call leaves, and the call is the one of `Ke.Lines` with it.  The formatter is
  asked to return, which it does where the bytes of its text can be counted; a string argument may be
  longer than any count, although no more than 255 bytes of it are written.
-/
import Nearlands.Ke.Lines
import Nearlands.Npf.Stream

namespace Nearlands.Ke

open Nearlands.Lib Nearlands.Qol Nearlands.Npf

variable {m : Bytes} {p buffer : Nat} {bs : List UInt8} {t : Term} {args : Args}

/-- The bytes in front of the first zero byte. -/
def cString (bs : List UInt8) : List UInt8 := bs.takeWhile fun c => c ≠ 0

/-- `KeTermPrint(stat, str, ...)`; the array of 256 bytes is at `buffer`, and the tags where `tag`
    says.  It returns when the formatter does; what it does with the buffer is the code of
    `keTermPrint`, line by line. -/
def Term.keTermPrintArgs (beyond : Int → Nat → UInt8) (m : Bytes) (buffer : Nat) (tag : Status → Nat)
    (stat : Status) (str : QString) (args : Args) (t : Term) : Outcome Term :=
  if t.running = false then .done t
  else do
    let t := t.readTo (min str.length 127)
    let (mem, _) ← implVsnprintf m buffer 256 (cString ((str.bytes m).take 127)) args
    let t := match tagOf stat with
      | some (_, palette) => t.putsRaw beyond mem false (tag stat) (t.colorPalette palette)
      | none => t
    if t.running = false then return t
    else return t.putsRaw beyond mem true buffer (t.colorPalette .text)

/-! ## Strings in memory -/

/-- The bytes at `p`, with a zero byte behind them.  It is not at `NULL`, which `QSTR` would take
    for an empty string. -/
structure StringAt (m : Bytes) (p : Nat) (bs : List UInt8) : Prop where
  ne_null : p ≠ null
  nonzero : 0 ∉ bs
  short : bs.length < 2 ^ 64
  byte : ∀ i, ∀ h : i < bs.length, m (w64 (p + i)) = bs[i]
  ends : m (w64 (p + bs.length)) = 0

/-- Its length is that of the bytes. -/
theorem StringAt.strlen (h : StringAt m p bs) : m.strlen p = bs.length :=
  Bytes.strlen_eq h.short h.ends fun i hi hzero =>
    h.nonzero ((h.byte i hi).symm.trans hzero ▸ List.getElem_mem hi)

/-- `QSTR(p)` is such a string. -/
theorem StringAt.init (h : StringAt m p bs) :
    ∃ str, qolInitString m p = some str ∧ str.buffer = p ∧ str.bytes m = bs := by
  have hlen : m.strlenUpTo p (2 ^ 64) = bs.length := h.strlen
  have hcount : ∀ n, (fun length => w64 (length + 1))^[n] 0 = w64 n := by
    intro n
    induction n with
    | zero => rfl
    | succ n ih => rw [Function.iterate_succ_apply', ih, w64_add_w64]
  refine ⟨⟨p, bs.length, h.short⟩, ?_, rfl, ?_⟩
  · rw [qolInitString, qolGetStringLength, if_neg h.ne_null, untilNul_eq, hlen, if_pos h.short, hcount,
      w64_of_lt h.short, Option.map_some, qolInitStringEx]
    simp only [w64_of_lt h.short]
  · refine List.ext_getElem (by simp [QString.bytes]) fun i _ hi => ?_
    simp only [QString.bytes, List.getElem_map, List.getElem_range]
    exact h.byte i hi

/-! ## What arrives on the serial line -/

/-- Where the next string is written: a terminal that owns a full screen is cleared before. -/
def Term.ready (t : Term) : Term := if t.owns then t.drawn else t

/-- What a call leaves that writes a string. -/
structure Wrote (t t' : Term) (bs : List UInt8) : Prop where
  running : t'.running = true
  serial : t'.serial = bs.reverse ++ t.ready.serial
  owns : t'.owns = t.owns
  height : t'.graphics.height = t.graphics.height
  palette : t'.colorPalette = t.colorPalette

@[simp] theorem keTermClear_palette (t : Term) : t.keTermClear.colorPalette = t.colorPalette := by
  unfold Term.keTermClear
  split <;> rfl

/-- The bytes of the string go to the serial line, and a terminal that owns its screen stays where
    it drew them. -/
theorem putsText_wrote (hrun : t.running = true) (beyond : Int → Nat → UInt8) (m : Bytes)
    (str : QString) (color : Nat) : Wrote t (t.putsText beyond m str color) (str.bytes m) ∧
      (t.owns = true → (t.putsText beyond m str color).currentY = t.drawn.currentY) := by
  unfold Term.putsText Term.drawn
  by_cases howns : t.owns = true
  · refine ⟨⟨?_, ?_, ?_, ?_, ?_⟩, fun _ => ?_⟩
    · rw [if_pos howns]
      dsimp only [Term.arPrintToSerial, Term.drawLine, Term.readTo]
      split <;> simp [hrun]
    · rw [if_pos howns, Term.ready, if_pos howns, Term.drawn]
      rfl
    · rw [if_pos howns]
      dsimp only [Term.arPrintToSerial, Term.drawLine, Term.readTo, Term.owns]
      split <;> simp
    · rw [if_pos howns]
      dsimp only [Term.arPrintToSerial, Term.drawLine, Term.readTo]
      split <;> simp
    · rw [if_pos howns]
      dsimp only [Term.arPrintToSerial, Term.drawLine, Term.readTo]
      split <;> simp
    · rw [if_pos howns]
      rfl
  · refine ⟨⟨?_, ?_, ?_, ?_, ?_⟩, fun h => absurd h howns⟩
    · rw [if_neg howns]
      exact hrun
    · rw [if_neg howns, Term.ready, if_neg howns]
      rfl
    · rw [if_neg howns]
      rfl
    · rw [if_neg howns]
      rfl
    · rw [if_neg howns]
      rfl

/-- A string with a zero byte behind it. -/
theorem putsRaw_wrote (hrun : t.running = true) (h : StringAt m p bs) (beyond : Int → Nat → UInt8)
    (addNewLine : Bool) (color : Nat) :
    Wrote t (t.putsRaw beyond m addNewLine p color) (bs ++ if addNewLine then [10] else []) ∧
      (t.owns = true → addNewLine = false →
        (t.putsRaw beyond m addNewLine p color).currentY = t.drawn.currentY) := by
  obtain ⟨str, hinit, hbuffer, hbytes⟩ := h.init
  obtain ⟨hwrote, hcursor⟩ := putsText_wrote hrun beyond m str color
  rw [hbytes] at hwrote
  unfold Term.putsRaw
  rw [hinit]
  dsimp only
  rw [Term.keTermPuts, if_neg (by simp [hrun])]
  dsimp only
  cases addNewLine with
  | true =>
    refine ⟨⟨hwrote.running, ?_, hwrote.owns, hwrote.height, hwrote.palette⟩,
      fun _ h => absurd h (by decide)⟩
    show 10 :: (t.putsText beyond m str color).serial = _
    rw [hwrote.serial, if_pos rfl, List.reverse_append]
    rfl
  | false =>
    rw [if_neg Bool.false_ne_true, if_neg Bool.false_ne_true, List.append_nil]
    split
    · -- the string is measured
      have hmeasure := Term.measure_eq m str.buffer
      rw [hbuffer, h.strlen, if_pos h.short] at hmeasure
      rw [Term.advance, hbuffer, hmeasure]
      exact ⟨⟨hwrote.running, hwrote.serial, hwrote.owns, hwrote.height, hwrote.palette⟩,
        fun howns _ => hcursor howns⟩
    · exact ⟨hwrote, fun howns _ => hcursor howns⟩

/-! ## `KeTermPrint` -/

/-- A list that is stored with a zero byte. -/
theorem stringAt_store (hbs : 0 ∉ bs) (hp : p ≠ null) (hfit : p + bs.length < 2 ^ 64) :
    StringAt (m.store p (bs ++ [0])) p bs := by
  have hall : (bs ++ [0]).length = bs.length + 1 := by simp
  refine ⟨hp, hbs, by omega, fun i hi => ?_, ?_⟩
  · rw [w64_of_lt (by omega), Bytes.store_get (by omega) i (by omega), List.getElem_append_left hi]
  · rw [w64_of_lt (by omega), Bytes.store_get (by omega) _ (by omega),
      List.getElem_append_right (Nat.le_refl _)]
    simp

/-- A string off the array is still there. -/
theorem StringAt.store {text : List UInt8} (h : StringAt m p bs)
    (hoff : ∀ i ≤ bs.length, ¬ InBuffer buffer 256 (w64 (p + i))) (hbuffer : buffer ≠ 0)
    (hroom : buffer + 256 ≤ 2 ^ 64) (htext : text.length ≤ 256) :
    StringAt (m.store buffer text) p bs := by
  have hkept : Bytes.SameOff ⟨buffer, 256⟩ m (m.store buffer text) :=
    Bytes.store_sameOff text m buffer (Span.inside_prefix htext hroom)
  have hread : ∀ i ≤ bs.length, m.store buffer text (w64 (p + i)) = m (w64 (p + i)) :=
    fun i hi => hkept _ fun hhas => hoff i hi ⟨hbuffer, hhas.1, hhas.2⟩
  exact ⟨h.ne_null, h.nonzero, h.short, fun i hi => (hread i hi.le).trans (h.byte i hi),
    (hread _ (Nat.le_refl _)).trans h.ends⟩

/-- No zero byte is among them. -/
theorem cString_nonzero (bs : List UInt8) : 0 ∉ cString bs := fun h0 => by
  have htest := List.mem_takeWhile_imp h0
  exact absurd htest (by decide)

/-- The tag of a status is at its address, off the array.  The formatter writes to the array between
    the two, and the tag is read after that. -/
def TagAt (m : Bytes) (buffer : Nat) (tag : Status → Nat) (stat : Status) : Prop :=
  ∀ text palette, tagOf stat = some (text, palette) → StringAt m (tag stat) text ∧
    ∀ i ≤ text.length, ¬ InBuffer buffer 256 (w64 (tag stat + i))

/-- The bytes of the tag. -/
def tagText (stat : Status) : List UInt8 := ((tagOf stat).map Prod.fst).getD []

/-- Reading the format changes nothing that is seen. -/
theorem readTo_ready (t : Term) (n : Nat) : (t.readTo n).ready.serial = t.ready.serial := by
  unfold Term.ready Term.drawn
  have howns : (t.readTo n).owns = t.owns := rfl
  rw [howns]
  split
  · have hheight : (t.readTo n).graphics.height = t.graphics.height := rfl
    have hcursor : (t.readTo n).currentY = t.currentY := rfl
    rw [hheight, hcursor]
    split
    · unfold Term.keTermClear
      split <;> rfl
    · rfl
  · rfl

/-- Behind a tag nothing is cleared. -/
theorem ready_eq {t' : Term} (h10 : t.owns = true → 10 < t.graphics.height) (howns : t'.owns = t.owns)
    (hheight : t'.graphics.height = t.graphics.height)
    (hcursor : t.owns = true → t'.currentY = t.drawn.currentY) : t'.ready = t' := by
  unfold Term.ready
  split
  · rename_i h
    have hlow : t'.currentY < t'.graphics.height := by
      rw [hheight, hcursor (howns.symm.trans h)]
      exact drawn_lt (h10 (howns.symm.trans h))
    rw [Term.drawn, if_neg (by omega)]
  · rfl

/-- The tag of a status, and a line. -/
theorem tagged_wrote (hrun : t.running = true) (h10 : t.owns = true → 10 < t.graphics.height)
    {tag : Status → Nat} {stat : Status} (htag : ∀ text palette, tagOf stat = some (text, palette) →
      StringAt m (tag stat) text) (hline : StringAt m p bs) (beyond : Int → Nat → UInt8) :
    let t' := match tagOf stat with
      | some (_, palette) => t.putsRaw beyond m false (tag stat) (t.colorPalette palette)
      | none => t
    t'.running = true ∧ (t'.putsRaw beyond m true p (t'.colorPalette .text)).running = true ∧
      (t'.putsRaw beyond m true p (t'.colorPalette .text)).serial =
        (tagText stat ++ bs ++ [10]).reverse ++ t.ready.serial := by
  dsimp only
  cases hstat : tagOf stat with
  | none =>
    obtain ⟨hwrote, -⟩ := putsRaw_wrote hrun hline beyond true (t.colorPalette .text)
    refine ⟨hrun, hwrote.running, ?_⟩
    dsimp only
    rw [hwrote.serial, tagText, hstat, if_pos rfl]
    rfl
  | some r =>
    obtain ⟨text, palette⟩ := r
    obtain ⟨hfirst, hcursor⟩ := putsRaw_wrote hrun (htag text palette hstat) beyond false
      (t.colorPalette palette)
    dsimp only
    rw [if_neg Bool.false_ne_true, List.append_nil] at hfirst
    obtain ⟨hwrote, -⟩ := putsRaw_wrote hfirst.running hline beyond true
      ((t.putsRaw beyond m false (tag stat) (t.colorPalette palette)).colorPalette .text)
    have hready := ready_eq h10 hfirst.owns hfirst.height fun howns => hcursor howns rfl
    refine ⟨hfirst.running, hwrote.running, ?_⟩
    rw [hwrote.serial, hready, hfirst.serial, tagText, hstat, if_pos rfl, ← List.append_assoc,
      ← List.reverse_append, ← List.append_assoc]
    rfl

/-- With a formatter that fills its buffer, the call is the one with what it leaves there. -/
theorem keTermPrintArgs_eq {beyond : Int → Nat → UInt8} {f : Formatted} {stat : Status}
    {str : QString} {n : Int}
    (h : implVsnprintf m f.buffer 256 (cString ((str.bytes m).take 127)) args = .done (f.mem, n)) :
    t.keTermPrintArgs beyond m f.buffer f.tag stat str args =
      .done (t.keTermPrint beyond (fun _ => f) m stat str) := by
  unfold Term.keTermPrintArgs Term.keTermPrint
  split
  · rfl
  · rw [h]
    dsimp only [Outcome.done_bind]
    cases tagOf stat with
    | none => exact (apply_ite Outcome.done _ _ _).symm
    | some r => exact (apply_ite Outcome.done _ _ _).symm

/-- What a call needs of its format and its arguments: numbers that are `int`s, field widths that
    can be negated, strings that end and lie off the array of 256 bytes, and the tags in their
    place.  The bounds on numbers and widths are those of the `int` that `nanoprintf` reads them
    into; beyond them its arithmetic overflows, and the text is not defined. -/
structure Printable (m : Bytes) (buffer : Nat) (tag : Status → Nat) (format : List UInt8)
    (ps : List Piece) (args : Args) : Prop where
  reading : Reading format ps
  numbers : IntFormat format
  stars : StarsInt ps args
  strings : StringsOff (InBuffer buffer 256) m ps args
  tags : ∀ stat, TagAt m buffer tag stat
  ne_null : buffer ≠ 0
  room : buffer + 256 ≤ 2 ^ 64

/-- **The formatter fills its buffer**: where the bytes of the text can be counted, what it leaves
    is a `Formatted`, with the first 255 of them in the array, and the call is the one of `Ke.Lines`
    with it.  So `Formatted` is no assumption about the formatter: the part of `Ke.Lines` that takes
    any such memory covers this one. -/
theorem printArgs_eq {str : QString} {tag : Status → Nat} {ps : List Piece}
    (h : Printable m buffer tag (cString ((str.bytes m).take 127)) ps args) :
    ∃ (text : List UInt8) (f : Formatted), f.buffer = buffer ∧ f.tag = tag ∧
      f.mem = m.store buffer (text.take 255 ++ [0]) ∧ 0 ∉ text ∧
      npfVpprintf m (cString ((str.bytes m).take 127)) args =
        countInt text.length (text, args.skip (slots ps)) ∧
      ∀ (t : Term) (beyond : Int → Nat → UInt8) (stat : Status), t.running = true →
        t.keTermPrintArgs beyond m buffer tag stat str args =
          countInt text.length (t.keTermPrint beyond (fun _ => f) m stat str) := by
  obtain ⟨text, htext, hnonzero, hformat⟩ := npfVsnprintf_eq h.reading h.numbers (cString_nonzero _)
    h.room h.stars h.strings
  rw [if_neg (not_or.mpr ⟨h.ne_null, by decide⟩)] at hformat
  have hbuffer := h.ne_null
  have hroom := h.room
  have htake : (text.take 255).length ≤ 255 := by
    rw [List.length_take]
    omega
  have hlen : (text.take 255 ++ [0]).length ≤ 256 := by
    rw [List.length_append, List.length_singleton]
    omega
  -- the buffer holds a string that ends within it
  have hline : StringAt (m.store buffer (text.take 255 ++ [0])) buffer (text.take 255) :=
    stringAt_store (fun h0 => hnonzero (List.mem_of_mem_take h0)) hbuffer (by omega)
  have hends : ∃ i < 256, m.store buffer (text.take 255 ++ [0]) (w64 (buffer + i)) = 0 :=
    ⟨(text.take 255).length, by omega, hline.ends⟩
  -- and the tags are where they were
  have htags : ∀ stat tagged palette, tagOf stat = some (tagged, palette) →
      StringAt (m.store buffer (text.take 255 ++ [0])) (tag stat) tagged :=
    fun stat tagged palette htag => (h.tags stat tagged palette htag).1.store
      (h.tags stat tagged palette htag).2 hbuffer hroom hlen
  obtain ⟨f, hf, htag, hmem⟩ : ∃ f : Formatted, f.buffer = buffer ∧ f.tag = tag ∧
      f.mem = m.store buffer (text.take 255 ++ [0]) :=
    ⟨⟨_, buffer, tag, hends, fun stat tagged palette h =>
      ⟨(htags stat tagged palette h).byte, (htags stat tagged palette h).ends⟩⟩, rfl, rfl, rfl⟩
  refine ⟨text, f, hf, htag, hmem, hnonzero, htext, fun t beyond stat hrun => ?_⟩
  by_cases hshort : text.length < 2 ^ 31
  · rw [countInt_of_lt hshort] at hformat ⊢
    subst hf htag
    exact keTermPrintArgs_eq (hmem ▸ hformat)
  · -- too many bytes are counted, and nothing comes back
    rw [countInt, if_neg hshort] at hformat ⊢
    have hwild : implVsnprintf m buffer 256 (cString ((str.bytes m).take 127)) args = .wild := hformat
    rw [Term.keTermPrintArgs, if_neg (by simp [hrun]), hwild]
    rfl

/-- **`KeTermPrint` writes its text.**  On the serial line arrive the tag of the status, the first
    255 bytes of the text that the first 127 bytes of the format stand for, and a newline; and the
    call returns, where the bytes of the text can be counted.

    A terminal that owns a screen of at most 10 lines would be cleared between the tag and the text;
    so it is asked to have more.  One that only writes to the serial line may have any height.  The
    text is the one `npfVpprintf` makes of the format, for which `Npf.Spec` and `Npf.Print` say what
    it is. -/
theorem print_serial (hrun : t.running = true) (h10 : t.owns = true → 10 < t.graphics.height)
    {str : QString} {tag : Status → Nat} {ps : List Piece}
    (h : Printable m buffer tag (cString ((str.bytes m).take 127)) ps args)
    (beyond : Int → Nat → UInt8) (stat : Status) :
    ∃ text t', npfVpprintf m (cString ((str.bytes m).take 127)) args =
        countInt text.length (text, args.skip (slots ps)) ∧
      t.keTermPrintArgs beyond m buffer tag stat str args = countInt text.length t' ∧
      t'.running = true ∧
      t'.serial = (tagText stat ++ text.take 255 ++ [10]).reverse ++ t.ready.serial := by
  obtain ⟨text, f, hf, htag, hmem, hnonzero, htext, hcall⟩ := printArgs_eq h
  have hbuffer := h.ne_null
  have hroom := h.room
  have htake : (text.take 255).length ≤ 255 := by
    rw [List.length_take]
    omega
  have hlen : (text.take 255 ++ [0]).length ≤ 256 := by
    rw [List.length_append, List.length_singleton]
    omega
  have hline : StringAt f.mem f.buffer (text.take 255) := by
    rw [hmem, hf]
    exact stringAt_store (fun h0 => hnonzero (List.mem_of_mem_take h0)) hbuffer (by omega)
  have htags : ∀ tagged palette, tagOf stat = some (tagged, palette) →
      StringAt f.mem (f.tag stat) tagged := fun tagged palette hstat => by
    rw [hmem, htag]
    exact (h.tags stat tagged palette hstat).1.store (h.tags stat tagged palette hstat).2 hbuffer
      hroom hlen
  have hread : (t.readTo (min str.length 127)).running = true := hrun
  obtain ⟨hfirst, hrunning, hserial⟩ := tagged_wrote hread h10 htags hline beyond
  rw [readTo_ready] at hserial
  refine ⟨text, _, htext, (hcall t beyond stat hrun).trans (congrArg (countInt _) ?_), hrunning, hserial⟩
  rw [Term.keTermPrint, if_neg (by simp [hrun])]
  exact if_neg fun hstop => absurd (hfirst.symm.trans hstop) (by decide)

/-- A memory with the string `hi`, the format `%s`, and the tags. -/
def printMem : Bytes :=
  (((hiMem.store 0x3000 ['%'.toUInt8, 's'.toUInt8]).store 0x4000 [0x5B, 0x2D, 0x5D, 0x20]).store
    0x4100 [0x5B, 0x2B, 0x5D, 0x20]).store 0x4200 [0x5B, 0x21, 0x5D, 0x20]

/-- Where the tags are there. -/
def tagAddress : Status → Nat
  | .error => 0x4000
  | .pass => 0x4100
  | _ => 0x4200

/-- They are off the array. -/
theorem printMem_tags (stat : Status) : TagAt printMem 0x1000 tagAddress stat := by
  intro text palette h
  cases stat with
  | unknown => cases h
  | error | pass | info | warning | impinfo =>
    obtain ⟨rfl, -⟩ := Prod.mk.inj (Option.some.inj h)
    exact ⟨⟨by decide, by decide, by decide, by decide, by decide⟩, by decide⟩

/-- The string `hi` is two bytes long. -/
theorem printMem_length : stringLength printMem stringPlain.spec (unsigned 64 0x2000) = .done 2 := by
  refine Outcome.loop_count_of (Nat.zero_le 2) (by decide) (by decide) fun i _ hi => ?_
  interval_cases i <;> decide

/-- It is off the array as well. -/
theorem printMem_off :
    StringsOff (InBuffer 0x1000 256) printMem [.directive stringPlain] fun _ => 0x2000 := by
  have hdefaults : stringPlain.spec.defaults = stringPlain.spec := by decide
  refine ⟨fun _ => ?_, trivial⟩
  rw [stringPlain_args, hdefaults]
  refine ⟨2, printMem_length, fun i hi _ _ => ?_⟩
  interval_cases i <;> decide

/-- `KeTermPrint(TERM_STATUS_PASS, QSTR("%s"), "hi")`. -/
theorem print_serial_hi : ∃ t',
    Term.tiny.keTermPrintArgs (fun _ _ => 0) printMem 0x1000 tagAddress .pass ⟨0x3000, 2, by decide⟩
      (fun _ => 0x2000) = .done t' ∧
    t'.serial = ("[+] hi\n".toList.map Char.toUInt8).reverse := by
  have hformat : cString ((QString.bytes ⟨0x3000, 2, by decide⟩ printMem).take 127) =
      ['%'.toUInt8, 's'.toUInt8] := by decide
  have hprintable : Printable printMem 0x1000 tagAddress
      (cString ((QString.bytes ⟨0x3000, 2, by decide⟩ printMem).take 127))
      [.directive stringPlain] fun _ => 0x2000 := by
    rw [hformat]
    exact ⟨Reading.directive (d := stringPlain) .nil, .of_length (by decide),
      ⟨stringPlain_negatable _, trivial⟩, printMem_off, printMem_tags, by decide, by decide⟩
  obtain ⟨text, t', htext, hrun, -, hserial⟩ := print_serial (t := Term.tiny) rfl
    (fun _ => by decide) hprintable (fun _ _ => 0) .pass
  have hknown := stringPlain_text printMem (fun _ => 0x2000) printMem_length
  rw [hformat] at htext
  rw [htext, countInt_of_lt (show 2 < 2 ^ 31 by decide)] at hknown
  obtain rfl : text = ['h'.toUInt8, 'i'.toUInt8] :=
    (Prod.mk.inj (countInt_done hknown).2).1.trans (by decide)
  exact ⟨t', hrun, hserial.trans (by decide)⟩

end Nearlands.Ke

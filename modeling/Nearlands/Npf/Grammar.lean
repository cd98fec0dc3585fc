/-
  The language of formats, and that the formatter reads it.

  A `Directive` is a syntax tree: flags in any order, a field width, a precision, a length modifier
  and a conversion.  It has a text, and a specification that says what it means: a flag counts
  however often it is given, and `+` beats the blank.  Its numbers and its length are `int`s.
  `npf_parse_format_spec` accepts exactly the texts of directives (`npfParseFormatSpec_iff`),
  whatever comes behind them.

  A format is then a list of pieces, bytes and directives, and what is printed is what the pieces
  print, one behind the other, each with the arguments that the ones in front of it leave
  (`format_grammar`).  A percent sign that no directive follows is a byte like any other.  The crux
  is that the parser never takes back a byte: each of its stages stops at a byte that no later stage
  would take for its own, so that the parts of a directive can be read off its text.

  Digits that make no `int` overflow in the parser even where no conversion follows them.  So what a
  format prints is said of an `IntFormat`, in which no digits in a row do that.
-/
import Mathlib.Data.List.Infix
import Mathlib.Data.List.TakeWhile
import Nearlands.Npf.Print

namespace Nearlands.Npf

open Nearlands.Lib

/-! ## Bytes -/

/-- A byte is a flag. -/
def isFlag (c : UInt8) : Bool :=
  c ∈ ['-'.toUInt8, '0'.toUInt8, '+'.toUInt8, ' '.toUInt8, '#'.toUInt8]

/-- The conversions. -/
def convBytes : List UInt8 :=
  ['%'.toUInt8, 'c'.toUInt8, 's'.toUInt8, 'i'.toUInt8, 'd'.toUInt8, 'o'.toUInt8, 'u'.toUInt8,
    'X'.toUInt8, 'x'.toUInt8, 'F'.toUInt8, 'f'.toUInt8, 'E'.toUInt8, 'e'.toUInt8, 'G'.toUInt8,
    'g'.toUInt8, 'A'.toUInt8, 'a'.toUInt8, 'p'.toUInt8]

/-- A byte that stands for a conversion is in the list. -/
theorem mem_convBytes {c : UInt8} (h : (convOf c).isSome = true) : c ∈ convBytes := by
  by_contra hc
  simp only [convBytes, List.mem_cons, List.not_mem_nil, or_false, not_or] at hc
  simp only [convOf, hc, if_false, or_self, Option.isSome_none, Bool.false_eq_true] at h

/-- The first byte of the list, if there is one, is not one of those. -/
def Stops (p : UInt8 → Bool) (cs : List UInt8) : Prop := ∀ c ∈ cs.head?, p c = false

/-- Bytes of one kind, and then one of another: the loop over the first kind takes exactly those. -/
theorem takeWhile_stops {p : UInt8 → Bool} {ds cs : List UInt8} (hds : ∀ c ∈ ds, p c = true)
    (hcs : Stops p cs) : (ds ++ cs).takeWhile p = ds ∧ (ds ++ cs).dropWhile p = cs := by
  have htake : cs.takeWhile p = [] ∧ cs.dropWhile p = cs := by
    cases cs with
    | nil => exact ⟨rfl, rfl⟩
    | cons c cs =>
      have hc : ¬ p c = true := Bool.eq_false_iff.mp (hcs c rfl)
      exact ⟨List.takeWhile_cons_of_neg hc, List.dropWhile_cons_of_neg hc⟩
  rw [List.takeWhile_append_of_pos hds, List.dropWhile_append_of_pos hds, htake.1, htake.2,
    List.append_nil]
  exact ⟨rfl, rfl⟩

/-- What a loop leaves begins with a byte it does not take. -/
theorem stops_dropWhile (p : UInt8 → Bool) (cs : List UInt8) : Stops p (cs.dropWhile p) := by
  intro c hc
  have hnot := List.head?_dropWhile_not p cs
  rw [Option.mem_def.mp hc] at hnot
  simpa using hnot

/-! ## Stages of the parser -/

namespace FormatSpec

/-- What flags mean: a flag counts however often it is given, and `+` beats the blank. -/
def withFlags (s : FormatSpec) (fl : List UInt8) : FormatSpec :=
  { s with
    leftJustified := s.leftJustified || '-'.toUInt8 ∈ fl
    leadingZeroPad := s.leadingZeroPad || '0'.toUInt8 ∈ fl
    prepend := if '+'.toUInt8 ∈ fl then '+'.toUInt8
      else if ' '.toUInt8 ∈ fl ∧ s.prepend = 0 then ' '.toUInt8 else s.prepend
    altForm := s.altForm || '#'.toUInt8 ∈ fl }

/-- Without flags nothing changes. -/
@[simp] theorem withFlags_nil (s : FormatSpec) : s.withFlags [] = s := by simp [withFlags]

/-- The flags as numbers. -/
theorem flag_codes : '-'.toUInt8 = 45 ∧ '0'.toUInt8 = 48 ∧ '+'.toUInt8 = 43 ∧ ' '.toUInt8 = 32 ∧
    '#'.toUInt8 = 35 := by decide

/-- One flag, and then those behind it.  The byte is a flag, and a flag read first means the same as
    one in front of the list; the blank needs a look, as it only counts while there is no `+`. -/
theorem flag_some {s s' : FormatSpec} {c : UInt8} (h : s.flag c = some s') :
    isFlag c = true ∧ ∀ fl, s.withFlags (c :: fl) = s'.withFlags fl := by
  obtain ⟨hminus, hzero, hplus, hblank, hhash⟩ := flag_codes
  simp only [flag, isFlag, withFlags, hminus, hzero, hplus, hblank, hhash] at h ⊢
  split at h
  · rename_i hc
    obtain rfl := Option.some.inj h
    simp [hc]
  split at h
  · rename_i hc
    obtain rfl := Option.some.inj h
    simp [hc]
  split at h
  · rename_i hc
    obtain rfl := Option.some.inj h
    simp [hc]
  split at h
  · -- the blank gives way to a plus that is there already
    rename_i hc
    obtain rfl := Option.some.inj h
    split <;> simp_all
  split at h
  · rename_i hc
    obtain rfl := Option.some.inj h
    simp [hc]
  · cases h

/-- Where the loop ends, the byte is no flag. -/
theorem flag_none {s : FormatSpec} {c : UInt8} (h : s.flag c = none) : isFlag c = false := by
  simp only [isFlag, decide_eq_false_iff_not, List.mem_cons, List.not_mem_nil, or_false]
  rintro (rfl | rfl | rfl | rfl | rfl) <;> cases h

/-- The loop takes the flags that stand in front.  Together with `withFlags` this says that neither
    the order of the flags nor how often they come matters. -/
theorem flags_eq : ∀ (cs : List UInt8) (s : FormatSpec),
    flags cs s = (s.withFlags (cs.takeWhile isFlag), cs.dropWhile isFlag) := by
  intro cs
  induction cs with
  | nil => exact fun s => by simp [flags]
  | cons c cs ih =>
    intro s
    unfold flags
    cases hflag : s.flag c with
    | some s' =>
      obtain ⟨hc, hwith⟩ := flag_some hflag
      rw [List.takeWhile_cons_of_pos hc, List.dropWhile_cons_of_pos hc, hwith]
      exact ih s'
    | none =>
      have hc : ¬ isFlag c = true := Bool.eq_false_iff.mp (flag_none hflag)
      rw [List.takeWhile_cons_of_neg hc, List.dropWhile_cons_of_neg hc, withFlags_nil]

end FormatSpec

/-- The number that digits stand for. -/
def numeral (ds : List UInt8) : Nat := ds.foldl (fun n c => n * 10 + digitValue c) 0

/-- The loop takes the digits that stand in front. -/
theorem number_eq : ∀ (cs : List UInt8) (n : Nat), number n cs =
    ((cs.takeWhile isDigit).foldl (fun n c => n * 10 + digitValue c) n, cs.dropWhile isDigit) := by
  intro cs
  induction cs with
  | nil => exact fun n => rfl
  | cons c cs ih =>
    intro n
    unfold number
    split
    · rename_i hc
      rw [List.takeWhile_cons_of_pos hc, List.dropWhile_cons_of_pos hc]
      exact ih _
    · rename_i hc
      rw [List.takeWhile_cons_of_neg hc, List.dropWhile_cons_of_neg hc]
      rfl

/-- Digits, and then something else. -/
theorem number_append (ds : List UInt8) {cs : List UInt8} (hds : ∀ c ∈ ds, isDigit c = true)
    (hcs : Stops isDigit cs) : number 0 (ds ++ cs) = (numeral ds, cs) := by
  obtain ⟨htake, hdrop⟩ := takeWhile_stops hds hcs
  rw [number_eq, htake, hdrop]
  rfl

/-! ## Syntax trees -/

/-- A field width. -/
inductive Width
  | omitted
  | star
  /-- A number whose first digit is no flag. -/
  | literal (first : UInt8) (rest : List UInt8)

/-- A precision. -/
inductive Precision
  | omitted
  | star
  | literal (ds : List UInt8)
  | negative (ds : List UInt8)

namespace Width

/-- The bytes it is written with. -/
def text : Width → List UInt8
  | omitted => []
  | star => ['*'.toUInt8]
  | literal first rest => first :: rest

/-- The number, and how it is given.  A star stands for an argument, and its number here is 0. -/
def meaning : Width → Nat × FmtSpecOpt
  | omitted => (0, .none)
  | star => (0, .star)
  | literal first rest => (numeral (first :: rest), .literal)

/-- Digits are digits, and a zero in front would be a flag. -/
def Proper : Width → Prop
  | omitted | star => True
  | literal first rest => isDigit first = true ∧ isFlag first = false ∧ ∀ c ∈ rest, isDigit c = true

end Width

namespace Precision

/-- The bytes it is written with, the point in front. -/
def text : Precision → List UInt8
  | omitted => []
  | star => ['.'.toUInt8, '*'.toUInt8]
  | literal ds => '.'.toUInt8 :: ds
  | negative ds => '.'.toUInt8 :: '-'.toUInt8 :: ds

/-- A negative precision counts as not given, but its number is kept. -/
def meaning : Precision → Nat × FmtSpecOpt
  | omitted => (0, .none)
  | star => (0, .star)
  | literal ds => (numeral ds, .literal)
  | negative ds => (numeral ds, .none)

/-- What stands for a digit is one.  A precision without digits is 0, and is given. -/
def Proper : Precision → Prop
  | omitted | star => True
  | literal ds | negative ds => ∀ c ∈ ds, isDigit c = true

end Precision

/-- The bytes of a length modifier. -/
def LengthModifier.text : LengthModifier → List UInt8
  | .none => []
  | .short => ['h'.toUInt8]
  | .char => ['h'.toUInt8, 'h'.toUInt8]
  | .long => ['l'.toUInt8]
  | .longDouble => ['L'.toUInt8]

/-- A directive, from behind its percent sign.  Its numbers are `int`s, and so is its length with
    the percent sign. -/
structure Directive where
  flags : List UInt8
  width : Width
  precision : Precision
  modifier : LengthModifier
  conv : UInt8
  flags_proper : ∀ c ∈ flags, isFlag c = true
  width_proper : width.Proper
  width_int : width.meaning.1 < 2 ^ 31
  precision_proper : precision.Proper
  precision_int : precision.meaning.1 < 2 ^ 31
  conv_proper : (convOf conv).isSome = true
  short : flags.length + width.text.length + precision.text.length + modifier.text.length + 2 < 2 ^ 31

namespace Directive

/-- No flags are proper ones. -/
theorem flags_none : ∀ c ∈ ([] : List UInt8), isFlag c = true :=
  fun _ h => absurd h List.not_mem_nil

/-- A precision that is left out is the number 0. -/
theorem precision_none : Precision.omitted.meaning.1 < 2 ^ 31 := by decide

/-- The byte `d` stands for a conversion. -/
theorem conv_decimal : (convOf 'd'.toUInt8).isSome = true := by decide

/-- The text of a directive. -/
def text (d : Directive) : List UInt8 :=
  d.flags ++ (d.width.text ++ (d.precision.text ++ (d.modifier.text ++ [d.conv])))

/-- With the percent sign in front the length is an `int`, which the parser gives back. -/
theorem text_length (d : Directive) : d.text.length + 1 < 2 ^ 31 := by
  have hshort := d.short
  simp only [text, List.length_append, List.length_singleton]
  omega

/-- What a directive means. -/
def spec (d : Directive) : FormatSpec :=
  { FormatSpec.initial.withFlags d.flags with
    fieldWidth := d.width.meaning.1
    fieldWidthOpt := d.width.meaning.2
    prec := d.precision.meaning.1
    precOpt := d.precision.meaning.2
    lengthModifier := d.modifier
    convSpec := ((convOf d.conv).get d.conv_proper).1
    caseAdjust := ((convOf d.conv).get d.conv_proper).2 }

end Directive

/-! ## The stages read the parts of a directive -/

/-- Where the list has a first byte, it is one of these. -/
def Headed (bs cs : List UInt8) : Prop := ∀ c ∈ cs.head?, c ∈ bs

/-- A stage that takes none of these bytes stops there. -/
theorem Headed.stops {bs cs : List UInt8} {p : UInt8 → Bool} (h : Headed bs cs)
    (hp : ∀ c ∈ bs, p c = false) : Stops p cs := fun c hc => hp c (h c hc)

/-- A list begins with its first byte. -/
theorem headed_cons {bs cs : List UInt8} {c : UInt8} (h : c ∈ bs) : Headed bs (c :: cs) :=
  fun _ hc => Option.some.inj hc ▸ h

/-- The length modifiers. -/
def modifierBytes : List UInt8 := ['h'.toUInt8, 'l'.toUInt8, 'L'.toUInt8]

/-- What stands behind a precision. -/
def lastBytes : List UInt8 := modifierBytes ++ convBytes

/-- No conversion is written like a modifier. -/
theorem conv_ne_modifier : ∀ c ∈ convBytes,
    c ≠ 'h'.toUInt8 ∧ c ≠ 'l'.toUInt8 ∧ c ≠ 'L'.toUInt8 := by decide

/-- Nor is what stands behind a precision written like its point, its star or its sign. -/
theorem last_ne : ∀ c ∈ lastBytes, c ≠ '.'.toUInt8 ∧ c ≠ '*'.toUInt8 ∧ c ≠ '-'.toUInt8 := by decide

/-- A digit is neither a star nor a minus sign. -/
theorem digit_ne {c : UInt8} (h : isDigit c = true) : c ≠ '*'.toUInt8 ∧ c ≠ '-'.toUInt8 := by
  refine ⟨?_, ?_⟩
  · rintro rfl
    cases h
  · rintro rfl
    cases h

/-- A modifier and its conversion begin with a byte that may stand behind a precision. -/
theorem modifier_headed (m : LengthModifier) {c : UInt8} (cs : List UInt8) (hc : c ∈ convBytes) :
    Headed lastBytes (m.text ++ c :: cs) := by
  cases m with
  | none => exact headed_cons (List.mem_append_right _ hc)
  | short => exact headed_cons (by decide)
  | char => exact headed_cons (by decide)
  | long => exact headed_cons (by decide)
  | longDouble => exact headed_cons (by decide)

/-- The stage of the modifier reads it, and stops at the conversion. -/
theorem lengthOf_text (m : LengthModifier) {c : UInt8} (cs : List UInt8) (hc : c ∈ convBytes) :
    lengthOf (m.text ++ c :: cs) = (m, c :: cs) := by
  obtain ⟨hh, hl, hL⟩ := conv_ne_modifier c hc
  cases m with
  | none => simp [LengthModifier.text, lengthOf, hh, hl, hL]
  | short => simp [LengthModifier.text, lengthOf, shortOf, hh]
  | char => simp [LengthModifier.text, lengthOf, shortOf]
  | long => rfl
  | longDouble => rfl

/-- A precision begins with its point, or what is behind it comes first. -/
theorem precision_headed (p : Precision) {cs : List UInt8} (h : Headed lastBytes cs) :
    Headed ('.'.toUInt8 :: lastBytes) (p.text ++ cs) := by
  cases p with
  | omitted => exact fun c hc => List.mem_cons_of_mem _ (h c hc)
  | star => exact headed_cons List.mem_cons_self
  | literal ds => exact headed_cons List.mem_cons_self
  | negative ds => exact headed_cons List.mem_cons_self

/-- Digits behind the point. -/
theorem precisionOf_digits {ds cs : List UInt8} (hds : ∀ c ∈ ds, isDigit c = true)
    (h : Headed lastBytes cs) : precisionOf (ds ++ cs) = ((numeral ds, .literal), cs) := by
  have hnumber : number 0 (ds ++ cs) = (numeral ds, cs) :=
    number_append ds hds (h.stops (by decide))
  cases hall : ds ++ cs with
  | nil =>
    rw [hall] at hnumber
    obtain ⟨hvalue, hrest⟩ := Prod.mk.inj hnumber
    rw [← hvalue, ← hrest]
    rfl
  | cons c tail =>
    -- the first byte is a digit or stands behind the precision
    have hc : c ≠ '*'.toUInt8 ∧ c ≠ '-'.toUInt8 := by
      cases ds with
      | nil => exact (last_ne c (h c (by rw [← List.nil_append cs, hall]; rfl))).2
      | cons d ds =>
        obtain ⟨rfl, -⟩ := List.cons.inj hall
        exact digit_ne (hds d List.mem_cons_self)
    rw [hall] at hnumber
    rw [precisionOf, if_neg hc.1, if_neg hc.2, hnumber]

/-- The stage of the precision reads it, and stops behind it. -/
theorem precOf_text {p : Precision} {cs : List UInt8} (hp : p.Proper) (h : Headed lastBytes cs) :
    precOf (p.text ++ cs) = (p.meaning, cs) := by
  cases p with
  | omitted =>
    cases cs with
    | nil => rfl
    | cons c cs =>
      show precOf (c :: cs) = _
      rw [precOf, if_neg (last_ne c (h c rfl)).1]
      rfl
  | star => rfl
  | literal ds => exact precisionOf_digits hp h
  | negative ds =>
    show (((number 0 (ds ++ cs)).1, FmtSpecOpt.none), (number 0 (ds ++ cs)).2) = _
    rw [number_append ds hp (h.stops (by decide))]
    rfl

/-- So does the stage of the field width. -/
theorem fieldWidthOf_text {w : Width} {cs : List UInt8} (hw : w.Proper)
    (h : Headed ('.'.toUInt8 :: lastBytes) cs) : fieldWidthOf (w.text ++ cs) = (w.meaning, cs) := by
  cases w with
  | omitted =>
    cases cs with
    | nil => rfl
    | cons c cs =>
      have hc : c ∈ '.'.toUInt8 :: lastBytes := h c rfl
      have hnumber := number_append [] (fun _ hd => absurd hd List.not_mem_nil)
        (h.stops (p := isDigit) (by decide))
      have hstar : c ≠ '*'.toUInt8 := (by decide : ∀ c ∈ '.'.toUInt8 :: lastBytes, c ≠ '*'.toUInt8) c hc
      have hdigit : isDigit c = false := h.stops (p := isDigit) (by decide) c rfl
      show fieldWidthOf (c :: cs) = _
      rw [List.nil_append] at hnumber
      rw [fieldWidthOf, if_neg hstar, hnumber, hdigit]
      rfl
  | star => rfl
  | literal first rest =>
    obtain ⟨hfirst, -, hrest⟩ := hw
    have hnumber := number_append (first :: rest) (List.forall_mem_cons.mpr ⟨hfirst, hrest⟩)
      (h.stops (p := isDigit) (by decide))
    show fieldWidthOf (first :: (rest ++ cs)) = _
    rw [List.cons_append] at hnumber
    rw [fieldWidthOf, if_neg (digit_ne hfirst).1, hnumber, hfirst]
    rfl

/-- The loop over the flags stops in front of a field width, whose first digit is no zero. -/
theorem width_stops {w : Width} {cs : List UInt8} (hw : w.Proper)
    (h : Headed ('.'.toUInt8 :: lastBytes) cs) : Stops isFlag (w.text ++ cs) := by
  cases w with
  | omitted => exact h.stops (by decide)
  | star => exact fun c hc => Option.some.inj hc ▸ rfl
  | literal first rest => exact fun c hc => Option.some.inj hc ▸ hw.2.1

/-- The parser reads the text of a directive, and stops behind it.  The stages are taken one after
    the other, each with what the ones behind it begin with. -/
theorem npfParseFormatSpec_text (d : Directive) (rest : List UInt8) :
    npfParseFormatSpec (d.text ++ rest) = .done (some (d.spec, rest)) := by
  have hlength := d.text_length
  have hconv := mem_convBytes d.conv_proper
  have hlast := modifier_headed d.modifier rest hconv
  have hprec := precision_headed d.precision hlast
  have htext : d.text ++ rest = d.flags ++ (d.width.text ++ (d.precision.text ++
      (d.modifier.text ++ d.conv :: rest))) := by
    simp [Directive.text]
  obtain ⟨htake, hdrop⟩ := takeWhile_stops d.flags_proper (width_stops d.width_proper hprec)
  have hleft : ¬ 2 ^ 31 ≤ (d.text ++ rest).length - rest.length + 1 := by
    rw [List.length_append, Nat.add_sub_cancel]
    omega
  rw [htext] at hleft ⊢
  rw [npfParseFormatSpec, FormatSpec.flags_eq, htake, hdrop]
  dsimp only
  rw [fieldWidthOf_text d.width_proper hprec]
  dsimp only
  rw [precOf_text d.precision_proper hlast]
  dsimp only
  rw [lengthOf_text d.modifier rest hconv, if_neg (not_or.mpr
    ⟨Nat.not_le.mpr d.width_int, Nat.not_le.mpr d.precision_int⟩)]
  obtain ⟨r, hr⟩ := Option.isSome_iff_exists.mp d.conv_proper
  simp only [hr, Directive.spec, Option.get_some]
  rw [if_neg hleft]

/-! ## What is read is a directive -/

/-- What a loop takes is of its kind. -/
theorem mem_takeWhile {p : UInt8 → Bool} {cs : List UInt8} : ∀ c ∈ cs.takeWhile p, p c = true :=
  fun _ hc => List.mem_takeWhile_imp hc

/-- A number read is digits. -/
theorem number_split (cs : List UInt8) : ∃ ds rest, (∀ c ∈ ds, isDigit c = true) ∧
    cs = ds ++ rest ∧ number 0 cs = (numeral ds, rest) :=
  ⟨cs.takeWhile isDigit, cs.dropWhile isDigit, mem_takeWhile, List.takeWhile_append_dropWhile.symm,
    number_eq cs 0⟩

/-- What the stage of the field width reads is a field width, and the rest is left. -/
theorem fieldWidthOf_split {cs : List UInt8} (h : Stops isFlag cs) : ∃ (w : Width) (rest : List UInt8),
    w.Proper ∧ cs = w.text ++ rest ∧ fieldWidthOf cs = (w.meaning, rest) := by
  cases cs with
  | nil => exact ⟨.omitted, [], trivial, rfl, rfl⟩
  | cons c cs =>
    by_cases hstar : c = '*'.toUInt8
    · exact ⟨.star, cs, trivial, by rw [hstar]; rfl, by rw [fieldWidthOf, if_pos hstar]; rfl⟩
    · by_cases hdigit : isDigit c = true
      · obtain ⟨ds, rest, hds, hcs, hnumber⟩ := number_split (c :: cs)
        cases ds with
        | nil =>
          -- the loop takes the first digit at least
          have hlong := congrArg (fun r => r.2.length) hnumber
          rw [number_eq] at hlong
          simp only [List.dropWhile_cons_of_pos hdigit] at hlong
          have hshort : (cs.dropWhile isDigit).length ≤ cs.length := List.length_dropWhile_le isDigit cs
          rw [List.nil_append] at hcs
          rw [← hcs, List.length_cons] at hlong
          omega
        | cons d ds =>
          rw [List.cons_append] at hcs
          obtain ⟨rfl, rfl⟩ := List.cons.inj hcs
          refine ⟨.literal c ds, rest, ⟨hdigit, h c rfl, fun x hx => hds x (List.mem_cons_of_mem _ hx)⟩,
            rfl, ?_⟩
          rw [fieldWidthOf, if_neg hstar, hnumber, hdigit]
          rfl
      · refine ⟨.omitted, c :: cs, trivial, rfl, ?_⟩
        rw [fieldWidthOf, if_neg hstar, number, if_neg hdigit, Bool.eq_false_iff.mpr hdigit]
        rfl

/-- The same for what stands behind a point. -/
theorem precisionOf_split (cs : List UInt8) : ∃ (p : Precision) (rest : List UInt8), p.Proper ∧
    '.'.toUInt8 :: cs = p.text ++ rest ∧ precisionOf cs = (p.meaning, rest) := by
  cases cs with
  | nil =>
    exact ⟨.literal [], [], fun _ hc => absurd hc List.not_mem_nil, rfl, rfl⟩
  | cons c cs =>
    by_cases hstar : c = '*'.toUInt8
    · exact ⟨.star, cs, trivial, by rw [hstar]; rfl, by rw [precisionOf, if_pos hstar]; rfl⟩
    · by_cases hminus : c = '-'.toUInt8
      · obtain ⟨ds, rest, hds, hcs, hnumber⟩ := number_split cs
        refine ⟨.negative ds, rest, hds, by rw [hminus, hcs]; rfl, ?_⟩
        rw [precisionOf, if_neg hstar, if_pos hminus, hnumber]
        rfl
      · obtain ⟨ds, rest, hds, hcs, hnumber⟩ := number_split (c :: cs)
        refine ⟨.literal ds, rest, hds, by rw [hcs]; rfl, ?_⟩
        rw [precisionOf, if_neg hstar, if_neg hminus, hnumber]
        rfl

/-- And for a precision. -/
theorem precOf_split (cs : List UInt8) : ∃ (p : Precision) (rest : List UInt8), p.Proper ∧
    cs = p.text ++ rest ∧ precOf cs = (p.meaning, rest) := by
  cases cs with
  | nil => exact ⟨.omitted, [], trivial, rfl, rfl⟩
  | cons c cs =>
    by_cases hpoint : c = '.'.toUInt8
    · obtain ⟨p, rest, hp, hcs, hprec⟩ := precisionOf_split cs
      exact ⟨p, rest, hp, by rw [hpoint, hcs], by rw [precOf, if_pos hpoint, hprec]⟩
    · exact ⟨.omitted, c :: cs, trivial, rfl, by rw [precOf, if_neg hpoint]; rfl⟩

/-- And for a length modifier. -/
theorem lengthOf_split (cs : List UInt8) : ∃ (m : LengthModifier) (rest : List UInt8),
    cs = m.text ++ rest ∧ lengthOf cs = (m, rest) := by
  cases cs with
  | nil => exact ⟨.none, [], rfl, rfl⟩
  | cons c cs =>
    rw [lengthOf]
    split
    · rename_i hc
      subst hc
      cases cs with
      | nil => exact ⟨.short, [], rfl, rfl⟩
      | cons c cs =>
        rw [shortOf]
        split
        · rename_i hc
          subst hc
          exact ⟨.char, cs, rfl, rfl⟩
        · exact ⟨.short, c :: cs, rfl, rfl⟩
    split
    · rename_i hc
      subst hc
      exact ⟨.long, cs, rfl, rfl⟩
    split
    · rename_i hc
      subst hc
      exact ⟨.longDouble, cs, rfl, rfl⟩
    · exact ⟨.none, c :: cs, rfl, rfl⟩

/-! ## A text is the text of one directive -/

/-- A field width can be read off its bytes. -/
theorem Width.text_inj {w w' : Width} (hw : w.Proper) (hw' : w'.Proper) (h : w.text = w'.text) :
    w = w' := by
  cases w with
  | omitted => cases w' <;> first | rfl | cases h
  | star =>
    cases w' with
    | omitted => cases h
    | star => rfl
    | literal first rest => exact absurd (List.cons.inj h).1.symm (digit_ne hw'.1).1
  | literal first rest =>
    cases w' with
    | omitted => cases h
    | star => exact absurd (List.cons.inj h).1 (digit_ne hw.1).1
    | literal first' rest' =>
      obtain ⟨rfl, rfl⟩ := List.cons.inj h
      rfl

/-- So can a precision: a point and digits, a star, or a minus sign tell its kinds apart. -/
theorem Precision.text_inj {p p' : Precision} (hp : p.Proper) (hp' : p'.Proper)
    (h : p.text = p'.text) : p = p' := by
  have hne : ∀ {ds cs : List UInt8} {c : UInt8}, (∀ x ∈ ds, isDigit x = true) → ds = c :: cs →
      c ≠ '*'.toUInt8 ∧ c ≠ '-'.toUInt8 := fun hds heq =>
    digit_ne (hds _ (heq ▸ List.mem_cons_self))
  cases p with
  | omitted => cases p' <;> first | rfl | cases h
  | star =>
    cases p' with
    | omitted => cases h
    | star => rfl
    | literal ds => exact absurd rfl (hne hp' (List.cons.inj h).2.symm).1
    | negative ds => cases h
  | literal ds =>
    cases p' with
    | omitted => cases h
    | star => exact absurd rfl (hne hp (List.cons.inj h).2).1
    | literal ds' => rw [(List.cons.inj h).2]
    | negative ds' => exact absurd rfl (hne hp (List.cons.inj h).2).2
  | negative ds =>
    cases p' with
    | omitted => cases h
    | star => cases h
    | literal ds' => exact absurd rfl (hne hp' (List.cons.inj h).2.symm).2
    | negative ds' => rw [(List.cons.inj (List.cons.inj h).2).2]

/-- And a length modifier. -/
theorem LengthModifier.text_inj {l l' : LengthModifier} (h : l.text = l'.text) : l = l' := by
  cases l <;> cases l' <;> first | rfl | cases h

/-- A list begins with the text of one directive at most.  The stages of the parser are followed on
    both texts: each of them leaves the same, so the part in front of that is the same, and it can
    be read off its bytes. -/
theorem Directive.text_inj {d d' : Directive} {rest rest' : List UInt8}
    (h : d.text ++ rest = d'.text ++ rest') : d = d' ∧ rest = rest' := by
  obtain ⟨flags, width, precision, modifier, conv, hflags, hwidth, _, hprecision, _, hconv, _⟩ := d
  obtain ⟨flags', width', precision', modifier', conv', hflags', hwidth', _, hprecision', _, hconv',
    _⟩ := d'
  simp only [Directive.text, List.append_assoc, List.singleton_append] at h
  have hlast := modifier_headed modifier rest (mem_convBytes hconv)
  have hlast' := modifier_headed modifier' rest' (mem_convBytes hconv')
  have hprec := precision_headed precision hlast
  have hprec' := precision_headed precision' hlast'
  -- each stage leaves the same, so the parts in front of that are the same
  have htake := takeWhile_stops hflags (width_stops hwidth hprec)
  have htake' := takeWhile_stops hflags' (width_stops hwidth' hprec')
  rw [h] at htake
  obtain rfl := htake.1.symm.trans htake'.1
  have h₁ := List.append_cancel_left h
  have hf := fieldWidthOf_text hwidth hprec
  rw [h₁, fieldWidthOf_text hwidth' hprec', Prod.mk.injEq] at hf
  obtain rfl := Width.text_inj hwidth hwidth' (List.append_cancel_right (hf.2 ▸ h₁))
  have h₂ := List.append_cancel_left h₁
  have hp := precOf_text hprecision hlast
  rw [h₂, precOf_text hprecision' hlast', Prod.mk.injEq] at hp
  obtain rfl := Precision.text_inj hprecision hprecision' (List.append_cancel_right (hp.2 ▸ h₂))
  have h₃ := List.append_cancel_left h₂
  have hl := lengthOf_text modifier rest (mem_convBytes hconv)
  rw [h₃, lengthOf_text modifier' rest' (mem_convBytes hconv'), Prod.mk.injEq] at hl
  obtain rfl := hl.1
  obtain ⟨rfl, rfl⟩ := List.cons.inj (List.append_cancel_left h₃)
  exact ⟨rfl, rfl⟩

/-- **The parser accepts the texts of directives, and nothing else.** From right to left the stages
    read the parts of the directive; from left to right each stage splits off a part (the lemmas on
    `_split`), and the numbers are `int`s because the parser would have gone wrong otherwise. -/
theorem npfParseFormatSpec_iff {cs rest : List UInt8} {fs : FormatSpec} :
    npfParseFormatSpec cs = .done (some (fs, rest)) ↔
      ∃ d : Directive, cs = d.text ++ rest ∧ fs = d.spec := by
  refine ⟨fun h => ?_, fun ⟨d, hcs, hfs⟩ => by rw [hcs, hfs, npfParseFormatSpec_text]⟩
  -- each stage splits off a part, whatever comes behind it
  obtain ⟨w, cs₁, hw, hcs₁, hwidth⟩ := fieldWidthOf_split (stops_dropWhile isFlag cs)
  obtain ⟨p, cs₂, hp, hcs₂, hprec⟩ := precOf_split cs₁
  obtain ⟨m, cs₃, hcs₃, hlength⟩ := lengthOf_split cs₂
  simp only [npfParseFormatSpec, FormatSpec.flags_eq, hwidth, hprec, hlength] at h
  split at h
  · cases h
  rename_i hint
  obtain ⟨hwidthInt, hprecInt⟩ := not_or.mp hint
  cases cs₃ with
  | nil => cases h
  | cons c tail =>
    dsimp only at h
    cases hc : convOf c with
    | none =>
      rw [hc] at h
      cases h
    | some r =>
      rw [hc] at h
      dsimp only at h
      split at h
      · cases h
      rename_i hshort
      injection h with h
      obtain ⟨rfl, rfl⟩ := Prod.mk.inj (Option.some.inj h)
      -- put together the parts are the text
      have hcs : cs.takeWhile isFlag ++ (w.text ++ (p.text ++ (m.text ++ c :: tail))) = cs := by
        rw [← hcs₃, ← hcs₂, ← hcs₁, List.takeWhile_append_dropWhile]
      have hall := congrArg List.length hcs
      simp only [List.length_append, List.length_cons] at hall
      refine ⟨⟨cs.takeWhile isFlag, w, p, m, c, mem_takeWhile, hw, Nat.not_le.mp hwidthInt, hp,
        Nat.not_le.mp hprecInt, Option.isSome_iff_exists.mpr ⟨r, hc⟩, by omega⟩, ?_, ?_⟩
      · rw [Directive.text]
        simp only [List.append_assoc, List.singleton_append]
        exact hcs.symm
      · simp [Directive.spec, hc]

/-- What the parser counts in a format are `int`s: no digits in a row make a larger number, and the
    format is not longer.  This is asked of the whole format and not of its directives alone,
    because the parser also reads digits that no conversion follows. -/
structure IntFormat (format : List UInt8) : Prop where
  numerals : ∀ ds, ds <:+: format → (∀ c ∈ ds, isDigit c = true) → numeral ds < 2 ^ 31
  short : format.length < 2 ^ 31

/-- What stands behind is such a format again. -/
theorem IntFormat.suffix {format cs : List UInt8} (h : IntFormat format) (hcs : cs <:+ format) :
    IntFormat cs :=
  ⟨fun ds hds => h.numerals ds (hds.trans hcs.isInfix), Nat.lt_of_le_of_lt hcs.length_le h.short⟩

/-- Without its first byte it is one as well. -/
theorem IntFormat.tail {c : UInt8} {cs : List UInt8} (h : IntFormat (c :: cs)) : IntFormat cs :=
  h.suffix (List.suffix_cons c cs)

/-- A digit is less than ten. -/
theorem digitValue_lt {c : UInt8} (h : isDigit c = true) : digitValue c < 10 := by
  obtain ⟨hlow, hhigh⟩ := Bool.and_eq_true_iff.mp h
  have hle : c.toNat ≤ 57 := UInt8.le_iff_toNat_le.mp (of_decide_eq_true hhigh)
  rw [digitValue, UInt8.toNat_sub_of_le _ _ (of_decide_eq_true hlow)]
  exact Nat.lt_of_le_of_lt (Nat.sub_le_sub_right hle 48) (by decide)

/-- A number is less than the power of ten that it has digits for. -/
theorem numeral_lt {ds : List UInt8} : (∀ c ∈ ds, isDigit c = true) → numeral ds < 10 ^ ds.length := by
  induction ds using List.reverseRecOn with
  | nil => exact fun _ => Nat.one_pos
  | append_singleton ds c ih =>
    intro hds
    have hlow := ih fun x hx => hds x (List.mem_append_left _ hx)
    have hlast := digitValue_lt (hds c (List.mem_append_right _ List.mem_cons_self))
    rw [numeral, List.foldl_append, List.length_append, List.length_singleton, pow_succ]
    change numeral ds * 10 + digitValue c < _
    omega

/-- In a short format there is no room for a number that is no `int`. -/
theorem IntFormat.of_length {format : List UInt8} (h : format.length ≤ 9) : IntFormat format where
  numerals := fun ds hds hdigits => by
    have hlen : 10 ^ ds.length ≤ 10 ^ 9 := Nat.pow_le_pow_right (by decide) (hds.length_le.trans h)
    exact lt_of_lt_of_le (numeral_lt hdigits) (hlen.trans (by decide))
  short := by omega

/-- A field width in it is an `int`. -/
theorem IntFormat.width {w : Width} {rest : List UInt8} (h : IntFormat (w.text ++ rest))
    (hw : w.Proper) : w.meaning.1 < 2 ^ 31 := by
  cases w with
  | omitted | star => exact Nat.two_pow_pos 31
  | literal first ds =>
    exact h.numerals _ (List.prefix_append ..).isInfix (List.forall_mem_cons.mpr ⟨hw.1, hw.2.2⟩)

/-- And so is a precision. -/
theorem IntFormat.precision {p : Precision} {rest : List UInt8} (h : IntFormat (p.text ++ rest))
    (hp : p.Proper) : p.meaning.1 < 2 ^ 31 := by
  cases p with
  | omitted | star => exact Nat.two_pow_pos 31
  | literal ds => exact h.tail.numerals ds (List.prefix_append ..).isInfix hp
  | negative ds => exact h.tail.tail.numerals ds (List.prefix_append ..).isInfix hp

/-- There the parser never overflows.  It may find nothing, but it does not go wrong. -/
theorem IntFormat.parsed {cs : List UInt8} (h : IntFormat ('%'.toUInt8 :: cs)) :
    ∃ r, npfParseFormatSpec cs = .done r := by
  obtain ⟨w, cs₁, hw, hcs₁, hwidth⟩ := fieldWidthOf_split (stops_dropWhile isFlag cs)
  obtain ⟨p, cs₂, hp, hcs₂, hprec⟩ := precOf_split cs₁
  obtain ⟨m, cs₃, -, hlength⟩ := lengthOf_split cs₂
  have hdrop : IntFormat (w.text ++ cs₁) := hcs₁ ▸ h.tail.suffix (List.dropWhile_suffix isFlag)
  have hrest : IntFormat (p.text ++ cs₂) := hcs₂ ▸ hdrop.suffix (List.suffix_append ..)
  have hshort := h.short
  rw [List.length_cons] at hshort
  simp only [npfParseFormatSpec, FormatSpec.flags_eq, hwidth, hprec, hlength]
  rw [if_neg (not_or.mpr ⟨Nat.not_le.mpr (hdrop.width hw), Nat.not_le.mpr (hrest.precision hp)⟩)]
  cases cs₃ with
  | nil => exact ⟨none, rfl⟩
  | cons c tail =>
    dsimp only
    cases convOf c with
    | none => exact ⟨none, rfl⟩
    | some r =>
      dsimp only
      rw [if_neg (by omega)]
      exact ⟨_, rfl⟩

/-! ## Formats -/

/-- A piece of a format. -/
inductive Piece
  | byte (c : UInt8)
  | directive (d : Directive)

/-- The text of a piece. -/
def Piece.text : Piece → List UInt8
  | .byte c => [c]
  | .directive d => '%'.toUInt8 :: d.text

/-- A format read as pieces.  A percent sign is a byte only where no directive follows it, so that a
    format cannot be read in two ways (`Reading.unique`). -/
inductive Reading : List UInt8 → List Piece → Prop
  | nil : Reading [] []
  | byte {c : UInt8} {cs : List UInt8} {ps : List Piece} :
      (c = '%'.toUInt8 → ∀ (d : Directive) (rest : List UInt8), cs ≠ d.text ++ rest) →
      Reading cs ps → Reading (c :: cs) (.byte c :: ps)
  | directive {d : Directive} {cs : List UInt8} {ps : List Piece} :
      Reading cs ps → Reading ('%'.toUInt8 :: (d.text ++ cs)) (.directive d :: ps)

/-- What pieces print, and the arguments that they leave. -/
def printPieces (m : Bytes) : List Piece → Args → Outcome (List UInt8 × Args)
  | [], args => .done ([], args)
  | .byte c :: ps, args => do
    let (text, args) ← printPieces m ps args
    return (c :: text, args)
  | .directive d :: ps, args => do
    let (printed, args) ← printDirective m d.spec args
    let (text, args) ← printPieces m ps args
    return (printed ++ text, args)

/-- The texts of the pieces make up the format. -/
theorem Reading.text {cs : List UInt8} {ps : List Piece} (h : Reading cs ps) :
    ps.flatMap Piece.text = cs := by
  induction h with
  | nil => rfl
  | byte _ _ ih => rw [List.flatMap_cons, ih]; rfl
  | directive _ ih => rw [List.flatMap_cons, ih]; rfl

/-- Every format can be read.  The induction is on the length, since a directive takes more than one
    byte. -/
theorem reading_exists (n : Nat) : ∀ cs : List UInt8, cs.length ≤ n → ∃ ps, Reading cs ps := by
  induction n with
  | zero =>
    intro cs hn
    rw [List.length_eq_zero_iff.mp (Nat.le_zero.mp hn)]
    exact ⟨[], .nil⟩
  | succ n ih =>
    intro cs hn
    cases cs with
    | nil => exact ⟨[], .nil⟩
    | cons c cs =>
      rw [List.length_cons] at hn
      by_cases hd : c = '%'.toUInt8 ∧ ∃ (d : Directive) (rest : List UInt8), cs = d.text ++ rest
      · obtain ⟨rfl, d, rest, rfl⟩ := hd
        rw [List.length_append] at hn
        obtain ⟨ps, hps⟩ := ih rest (by omega)
        exact ⟨_, .directive hps⟩
      · obtain ⟨ps, hps⟩ := ih cs (by omega)
        exact ⟨_, .byte (fun hc d rest hcs => hd ⟨hc, d, rest, hcs⟩) hps⟩

/-- In one way only.  At a percent sign the texts of two directives would begin the same list, and
    then they are one directive (`Directive.text_inj`). -/
theorem Reading.unique {cs : List UInt8} {ps : List Piece} (h : Reading cs ps) :
    ∀ {ps'}, Reading cs ps' → ps = ps' := by
  induction h with
  | nil =>
    intro ps' h'
    cases h'
    rfl
  | @byte c cs ps hno _ ih =>
    intro ps' h'
    generalize hcs : c :: cs = format at h'
    cases h' with
    | nil => cases hcs
    | byte _ hps' =>
      obtain ⟨rfl, rfl⟩ := List.cons.inj hcs
      rw [ih hps']
    | directive hps' =>
      obtain ⟨hc, hrest⟩ := List.cons.inj hcs
      exact absurd hrest (hno hc _ _)
  | @directive d cs ps _ ih =>
    intro ps' h'
    generalize hcs : '%'.toUInt8 :: (d.text ++ cs) = format at h'
    cases h' with
    | nil => cases hcs
    | byte hno' _ =>
      obtain ⟨hc, hrest⟩ := List.cons.inj hcs
      exact absurd hrest.symm (hno' hc.symm _ _)
    | directive hps' =>
      obtain ⟨rfl, rfl⟩ := Directive.text_inj (List.cons.inj hcs).2
      rw [ih hps']

/-- At a byte the parser finds nothing. -/
theorem parseAt_byte {c : UInt8} {cs : List UInt8} (hint : IntFormat (c :: cs))
    (hno : c = '%'.toUInt8 → ∀ (d : Directive) (rest : List UInt8), cs ≠ d.text ++ rest) :
    parseAt c cs = .done none := by
  unfold parseAt
  split
  · rename_i hc
    subst hc
    obtain ⟨r, hr⟩ := hint.parsed
    cases r with
    | none => exact hr
    | some r =>
      obtain ⟨d, hcs, -⟩ := npfParseFormatSpec_iff.mp hr
      exact absurd hcs (hno rfl d _)
  · rfl

/-- And at a directive it finds that. -/
theorem parseAt_directive (d : Directive) (cs : List UInt8) :
    parseAt '%'.toUInt8 (d.text ++ cs) = .done (some (d.spec, cs)) := by
  rw [parseAt, if_pos rfl, npfParseFormatSpec_text]

/-- The loop prints the pieces, whatever fuel it has beyond the length of the format.  The induction
    is on the reading: at a byte the parser finds nothing, at a directive it finds that one and
    leaves what is behind it. -/
theorem vpprintfLoop_eq (m : Bytes) {cs : List UInt8} {ps : List Piece} (h : Reading cs ps) :
    ∀ {fuel : Nat} {args : Args}, IntFormat cs → cs.length ≤ fuel →
      vpprintfLoop m fuel cs args = printPieces m ps args := by
  induction h with
  | nil =>
    intro fuel args _ _
    cases fuel <;> rfl
  | @byte c cs ps hno _ ih =>
    intro fuel args hint hfuel
    obtain ⟨fuel, rfl⟩ := Nat.exists_eq_add_of_le' (Nat.le_trans (Nat.le_add_left 1 _) hfuel)
    rw [List.length_cons] at hfuel
    rw [vpprintfLoop, parseAt_byte hint hno, printPieces]
    dsimp only [Outcome.done_bind]
    rw [ih hint.tail (by omega)]
  | @directive d cs ps _ ih =>
    intro fuel args hint hfuel
    obtain ⟨fuel, rfl⟩ := Nat.exists_eq_add_of_le' (Nat.le_trans (Nat.le_add_left 1 _) hfuel)
    rw [List.length_cons, List.length_append] at hfuel
    rw [vpprintfLoop, parseAt_directive, printPieces]
    dsimp only [Outcome.done_bind]
    congr 1
    funext r
    rw [ih (hint.tail.suffix (List.suffix_append ..)) (by omega)]

/-- **The formatter speaks the language of formats.**  Every format can be read as pieces in exactly
    one way, and their texts make up the format.  Where its numbers are `int`s, `npf_vpprintf`
    prints what the pieces print, one behind the other, each with the arguments that those in front
    of it leave; and it counts all bytes in one `int`.  The bound on the numbers is the only
    condition.  What a format means is so defined without the parser: by its pieces, by
    `Directive.spec` and by `printDirective`. -/
theorem format_grammar (m : Bytes) (format : List UInt8) :
    ∃ ps, (∀ ps', Reading format ps' ↔ ps' = ps) ∧ ps.flatMap Piece.text = format ∧
      (IntFormat format → ∀ args, npfVpprintf m format args =
        printPieces m ps args >>= fun r => countInt r.1.length r) := by
  obtain ⟨ps, hps⟩ := reading_exists _ format (Nat.le_refl _)
  refine ⟨ps, fun ps' => ⟨fun h => h.unique hps, fun h => h ▸ hps⟩, hps.text, fun hint args => ?_⟩
  rw [npfVpprintf, vpprintfLoop_eq m hps hint (Nat.le_refl _)]

/-- `%-5d!`. -/
def leftFormat : List UInt8 := "%-5d!".toList.map Char.toUInt8

/-- Its directive. -/
def signedLeft : Directive where
  flags := ['-'.toUInt8]
  width := .literal '5'.toUInt8 []
  precision := .omitted
  modifier := .none
  conv := 'd'.toUInt8
  flags_proper := by decide
  width_proper := ⟨by decide, by decide, fun _ h => absurd h List.not_mem_nil⟩
  width_int := by decide
  precision_proper := trivial
  precision_int := Directive.precision_none
  conv_proper := Directive.conv_decimal
  short := by decide

/-- The directive, and then the byte. -/
theorem format_grammar_left : ∃ ps, ps = [.directive signedLeft, .byte '!'.toUInt8] ∧
    ∀ args, npfVpprintf (fun _ => 0) leftFormat args =
      printPieces (fun _ => 0) ps args >>= fun r => countInt r.1.length r := by
  obtain ⟨ps, hunique, -, hprint⟩ := format_grammar (fun _ => 0) leftFormat
  have hps : Reading leftFormat [.directive signedLeft, .byte '!'.toUInt8] :=
    .directive (d := signedLeft) (.byte (fun h => absurd h (by decide)) .nil)
  exact ⟨ps, ((hunique _).mp hps).symm, hprint (.of_length (by decide))⟩

end Nearlands.Npf

/-
  The directives of a format (`nanoprintf.h`), as the kernel configures the formatter: field widths,
  precisions, floats, the `h` modifiers and the alternative form are on; large integers, binary and
  writeback are off.

  `npf_parse_format_spec` reads a directive in five stages, one behind the other: the flags, the
  field width, the precision, the length modifier, the conversion.  Each stage here takes what is
  left of the format and gives back what it leaves.  A format is the bytes in front of its zero
  byte, so where the source reads that byte the list is empty.

  The numbers in a format are `int`s in the source, and so is the length of a directive that the
  parser gives back.  What does not fit into one is not defined there, and goes wrong here.  The
  stages themselves count without a bound: a number that is read digit by digit only grows, so that
  it overflowed on its way exactly where it is no `int` in the end, and the parser looks at it then.
-/
import Mathlib.Data.UInt
import Nearlands.Lib.Outcome

namespace Nearlands.Npf

open Nearlands.Lib

/-- What is said of the bytes in a list is decided on the list, not on all bytes that there are. -/
scoped instance (priority := high) decidableBytes (p : UInt8 → Prop) [DecidablePred p]
    (cs : List UInt8) : Decidable (∀ c ∈ cs, p c) := List.decidableBAll ..

/-- How a field width or a precision is given. -/
inductive FmtSpecOpt
  | none | literal | star
  deriving DecidableEq, Repr

/-- The length modifiers. -/
inductive LengthModifier
  | none | short | char | long | longDouble
  deriving DecidableEq, Repr

/-- The conversions. -/
inductive ConvSpec
  | percent | char | string | signedInt | octal | hexInt | unsignedInt | pointer
  | floatDec | floatSci | floatShortest | floatHex
  deriving DecidableEq, Repr

/-- `npf_format_spec_t`.  The sign to print is `prepend`, 0 where there is none; `caseAdjust` is
    added to capital letters. -/
structure FormatSpec where
  fieldWidth : Nat
  prec : Nat
  precOpt : FmtSpecOpt
  fieldWidthOpt : FmtSpecOpt
  leftJustified : Bool
  leadingZeroPad : Bool
  prepend : UInt8
  altForm : Bool
  caseAdjust : UInt8
  lengthModifier : LengthModifier
  convSpec : ConvSpec
  deriving DecidableEq, Repr

/-- `'a' - 'A'`. -/
def lowercase : UInt8 := 'a'.toUInt8 - 'A'.toUInt8

namespace FormatSpec

/-- The specification before the flags are read.  The stages behind the flags fill in what stands
    after `altForm`. -/
def initial : FormatSpec :=
  ⟨0, 0, .none, .none, false, false, 0, false, lowercase, .none, .percent⟩

/-- One turn of the loop over the flags; `none` is the `break`. -/
def flag (s : FormatSpec) (c : UInt8) : Option FormatSpec :=
  if c = '-'.toUInt8 then some { s with leftJustified := true }
  else if c = '0'.toUInt8 then some { s with leadingZeroPad := true }
  else if c = '+'.toUInt8 then some { s with prepend := '+'.toUInt8 }
  else if c = ' '.toUInt8 then some (if s.prepend = 0 then { s with prepend := ' '.toUInt8 } else s)
  else if c = '#'.toUInt8 then some { s with altForm := true }
  else none

/-- The loop over the flags.  What it leaves begins with a byte that is no flag. -/
def flags : List UInt8 → FormatSpec → FormatSpec × List UInt8
  | [], s => (s, [])
  | c :: cs, s =>
    match s.flag c with
    | some s' => flags cs s'
    | none => (s, c :: cs)

end FormatSpec

/-- `(*cur >= '0') && (*cur <= '9')`. -/
def isDigit (c : UInt8) : Bool := '0'.toUInt8 ≤ c && c ≤ '9'.toUInt8

/-- `*cur - '0'`. -/
def digitValue (c : UInt8) : Nat := (c - '0'.toUInt8).toNat

/-- The loop over the digits of a number, and what it leaves.  The sum is not cut: whether it is an
    `int` is looked at once the number is read. -/
def number : Nat → List UInt8 → Nat × List UInt8
  | n, [] => (n, [])
  | n, c :: cs => if isDigit c then number (n * 10 + digitValue c) cs else (n, c :: cs)

/-- The field width, and how it is given. -/
def fieldWidthOf : List UInt8 → (Nat × FmtSpecOpt) × List UInt8
  | [] => ((0, .none), [])
  | c :: cs =>
    if c = '*'.toUInt8 then ((0, .star), cs)
    else
      let r := number 0 (c :: cs)
      ((r.1, if isDigit c then .literal else .none), r.2)

/-- The precision behind its point.  Behind a minus sign the digits are read, but the precision
    counts as not given.  A point with nothing behind it is the precision 0. -/
def precisionOf : List UInt8 → (Nat × FmtSpecOpt) × List UInt8
  | [] => ((0, .literal), [])
  | c :: cs =>
    if c = '*'.toUInt8 then ((0, .star), cs)
    else if c = '-'.toUInt8 then
      let r := number 0 cs
      ((r.1, .none), r.2)
    else
      let r := number 0 (c :: cs)
      ((r.1, .literal), r.2)

/-- The precision, and how it is given. -/
def precOf : List UInt8 → (Nat × FmtSpecOpt) × List UInt8
  | [] => ((0, .none), [])
  | c :: cs => if c = '.'.toUInt8 then precisionOf cs else ((0, .none), c :: cs)

/-- Behind an `h`. -/
def shortOf : List UInt8 → LengthModifier × List UInt8
  | [] => (.short, [])
  | c :: cs => if c = 'h'.toUInt8 then (.char, cs) else (.short, c :: cs)

/-- The length modifier.  The modifiers `j`, `z` and `t` belong to large integers, which are off. -/
def lengthOf : List UInt8 → LengthModifier × List UInt8
  | [] => (.none, [])
  | c :: cs =>
    if c = 'h'.toUInt8 then shortOf cs
    else if c = 'l'.toUInt8 then (.long, cs)
    else if c = 'L'.toUInt8 then (.longDouble, cs)
    else (.none, c :: cs)

/-- The conversion that a byte stands for, with its `case_adjust`. -/
def convOf (c : UInt8) : Option (ConvSpec × UInt8) :=
  if c = '%'.toUInt8 then some (.percent, lowercase)
  else if c = 'c'.toUInt8 then some (.char, lowercase)
  else if c = 's'.toUInt8 then some (.string, lowercase)
  else if c = 'i'.toUInt8 ∨ c = 'd'.toUInt8 then some (.signedInt, lowercase)
  else if c = 'o'.toUInt8 then some (.octal, lowercase)
  else if c = 'u'.toUInt8 then some (.unsignedInt, lowercase)
  else if c = 'X'.toUInt8 then some (.hexInt, 0)
  else if c = 'x'.toUInt8 then some (.hexInt, lowercase)
  else if c = 'F'.toUInt8 then some (.floatDec, 0)
  else if c = 'f'.toUInt8 then some (.floatDec, lowercase)
  else if c = 'E'.toUInt8 then some (.floatSci, 0)
  else if c = 'e'.toUInt8 then some (.floatSci, lowercase)
  else if c = 'G'.toUInt8 then some (.floatShortest, 0)
  else if c = 'g'.toUInt8 then some (.floatShortest, lowercase)
  else if c = 'A'.toUInt8 then some (.floatHex, 0)
  else if c = 'a'.toUInt8 then some (.floatHex, lowercase)
  else if c = 'p'.toUInt8 then some (.pointer, lowercase)
  else none

/-- `npf_parse_format_spec(format, &spec)`, from behind the percent sign: the specification and what
    is left of the format, or `none` where the source returns 0.  It goes wrong where a field width,
    a precision or the length of the directive is no `int`; for the two numbers that is so whether a
    conversion follows them or not, since they are read before it. -/
def npfParseFormatSpec (format : List UInt8) : Outcome (Option (FormatSpec × List UInt8)) :=
  let (s, cur) := FormatSpec.flags format .initial
  let ((width, widthOpt), cur) := fieldWidthOf cur
  let ((prec, precOpt), cur) := precOf cur
  if 2 ^ 31 ≤ width ∨ 2 ^ 31 ≤ prec then .wild
  else
    let (modifier, cur) := lengthOf cur
    match cur with
    | [] => .done none
    | c :: cs =>
      match convOf c with
      | none => .done none
      | some (conv, adjust) =>
        -- `(int)(cur - format)`, which counts the percent sign too
        if 2 ^ 31 ≤ format.length - cs.length + 1 then .wild
        else .done (some ({ s with
          fieldWidth := width, fieldWidthOpt := widthOpt, prec := prec, precOpt := precOpt,
          lengthModifier := modifier, convSpec := conv, caseAdjust := adjust }, cs))

end Nearlands.Npf

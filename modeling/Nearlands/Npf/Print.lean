/-
  The text that `npf_vpprintf` prints (`nanoprintf.h`).

  `npf_vpprintf` gives its text away byte by byte, through a function of the caller.  The text here
  is the list of these bytes, for a caller that changes nothing that the formatter reads.  The
  arguments are slots of 64 bits, read one after the other: that is how a `va_list` is laid out where
  the kernel is compiled for, and there a `long` has 32 bits and a `long double` is a `double`.

  The memory is read where a string argument is.  The source computes in `int`s, and what does not
  fit into one goes wrong here: the length of a string, the negation of a field width that is the
  least of them, and the number of bytes, which `npf_putc_cnt` counts.  The one other place is the
  room in a field, from which the zeros of a precision are subtracted, and it overflows only where
  the directive alone has more bytes than can be counted.
-/
import Nearlands.Lib.Bytes
import Nearlands.Npf.Ftoa

namespace Nearlands.Npf

open Nearlands.Lib

/-- The arguments that are left, a slot each.  There is always another slot: which of them the
    caller filled is not known to the formatter either. -/
abbrev Args := Nat → Nat

/-- `va_arg`: the slots that are left behind the first one. -/
def Args.next (args : Args) : Args := fun i => args (i + 1)

/-- The signed number in the low bits of a slot. -/
def signed (bits slot : Nat) : Int := (slot : Int).bmod (2 ^ bits)

/-- The unsigned number there. -/
def unsigned (bits slot : Nat) : Nat := slot % 2 ^ bits

/-- The bits that a length modifier leaves of an integer; with the one for floats no argument is
    taken. -/
def LengthModifier.bits : LengthModifier → Option Nat
  | .none => some 32
  | .short => some 16
  | .char => some 8
  | .long => some 32
  | .longDouble => Option.none

/-- The conversions of floats. -/
def ConvSpec.isFloat : ConvSpec → Bool
  | .floatDec | .floatSci | .floatShortest | .floatHex => true
  | _ => false

/-- The conversions that drop the flag `0` where there is a precision. -/
def ConvSpec.isInteger : ConvSpec → Bool
  | .signedInt | .octal | .hexInt | .unsignedInt => true
  | _ => false

namespace FormatSpec

/-- A field width from an argument can be negated: it is not the least `int`, whose negation is
    none. -/
def Negatable (fs : FormatSpec) (args : Args) : Prop :=
  fs.fieldWidthOpt = .star → signed 32 (args 0) ≠ -2 ^ 31

instance (fs : FormatSpec) (args : Args) : Decidable (fs.Negatable args) :=
  inferInstanceAs (Decidable (_ → _))

/-- A field width from an argument: a negative one stands for the flag `-`. -/
def starWidth (fs : FormatSpec) (width : Int) : FormatSpec :=
  { fs with fieldWidth := width.natAbs, leftJustified := width < 0 || fs.leftJustified }

/-- A precision from an argument: a negative one counts as not given. -/
def starPrec (fs : FormatSpec) (prec : Int) : FormatSpec :=
  if prec < 0 then { fs with prec := 0, precOpt := .none } else { fs with prec := prec.toNat }

/-- The star arguments: first the field width, then the precision.  A precision is read from the
    slot behind the one of the field width, if both are stars. -/
def starArgs (fs : FormatSpec) (args : Args) : FormatSpec × Args :=
  let (fs, args) :=
    if fs.fieldWidthOpt = .star then (fs.starWidth (signed 32 (args 0)), args.next) else (fs, args)
  if fs.precOpt = .star then (fs.starPrec (signed 32 (args 0)), args.next) else (fs, args)

/-- The precision of a float or of a pointer where none is given. -/
def defaultPrec (fs : FormatSpec) : FormatSpec :=
  if fs.precOpt = .none ∧ fs.convSpec.isFloat then { fs with prec := 6 }
  else if fs.precOpt = .none ∧ fs.convSpec = .pointer then { fs with prec := (64 + 3) / 4 }
  else fs

/-- The flag `0` of an integer where a precision is given. -/
def dropZeroPad (fs : FormatSpec) : FormatSpec :=
  if fs.precOpt ≠ .none ∧ fs.convSpec.isInteger then { fs with leadingZeroPad := false } else fs

/-- What is not given. -/
def defaults (fs : FormatSpec) : FormatSpec := fs.defaultPrec.dropZeroPad

end FormatSpec

/-- A converted argument, and the specification as the conversion leaves it.  The payload is what
    the last loop prints of `cbuf`: from its start for a string, from its end for the others.  After
    the conversion of a float that is no number, or of an octal zero, the specification is no longer
    the one of the directive. -/
structure Converted where
  fs : FormatSpec
  payload : List UInt8
  signC : UInt8
  need0x : UInt8
  zero : Bool

/-- The length of the string at `s`, as far as the precision allows to look. -/
def stringLength (m : Bytes) (fs : FormatSpec) (s : Nat) : Outcome Nat :=
  Outcome.loop (fun len => (fs.precOpt = .none || len < fs.prec) && s ≠ 0 && m (w64 (s + len)) ≠ 0)
    (fun len => .done (len + 1)) (2 ^ 31) 0

/-- `%d` and `%i`. -/
def convertSigned (fs : FormatSpec) (val : Int) : Outcome Converted := do
  let signC := if val < 0 then '-'.toUInt8 else fs.prepend
  if val = 0 ∧ fs.precOpt ≠ .none ∧ fs.prec = 0 then return ⟨fs, [], signC, 0, true⟩
  else
    let (len, cbuf) ← npfUtoaRev val.natAbs .empty 10 fs.caseAdjust
    let payload ← cbuf.readBack len
    return ⟨fs, payload, signC, 0, val = 0⟩

/-- The base of an unsigned conversion. -/
def ConvSpec.base : ConvSpec → Nat
  | .octal => 8
  | .unsignedInt => 10
  | _ => 16

/-- The digits of an unsigned number; in the alternative form of octal a zero stands in front. -/
def unsignedDigits (fs : FormatSpec) (val : Nat) : Outcome (List UInt8) := do
  let (len, cbuf) ← npfUtoaRev val .empty fs.convSpec.base fs.caseAdjust
  if val ≠ 0 ∧ fs.altForm ∧ fs.convSpec = .octal then
    let cbuf ← cbuf.put len '0'.toUInt8
    cbuf.readBack (len + 1)
  else cbuf.readBack len

/-- `%o`, `%x`, `%u` and `%p`. -/
def convertUnsigned (fs : FormatSpec) (val : Nat) : Outcome Converted := do
  if val = 0 ∧ fs.precOpt ≠ .none ∧ fs.prec = 0 then
    -- nothing is printed, but for the single zero of octal
    let fs := if fs.convSpec = .octal ∧ fs.altForm then { fs with prec := 1 } else fs
    return ⟨fs, [], 0, 0, true⟩
  else
    let payload ← unsignedDigits fs val
    let need0x := if val ≠ 0 ∧ fs.altForm ∧ (fs.convSpec = .hexInt ∨ fs.convSpec = .pointer) then
      'X'.toUInt8 + fs.caseAdjust else 0
    return ⟨fs, payload, 0, need0x, val = 0⟩

/-- `%f`, `%e`, `%g` and `%a`, which all print decimals; words lose the flag `0`. -/
def convertFloat (fs : FormatSpec) (bin : Nat) : Outcome Converted := do
  let signC := if bin / 2 ^ 63 ≠ 0 then '-'.toUInt8 else fs.prepend
  let (len, cbuf) ← npfFtoaRev .empty fs bin
  let payload ← cbuf.readBack len.natAbs
  return ⟨if len < 0 then { fs with leadingZeroPad := false } else fs, payload, signC, 0,
    bin % 2 ^ 63 = 0⟩

/-- The argument that the conversion takes, converted, and the arguments behind it. -/
def convert (m : Bytes) (fs : FormatSpec) (args : Args) : Outcome (Converted × Args) :=
  match fs.convSpec with
  | .percent => .done (⟨fs, ['%'.toUInt8], 0, 0, false⟩, args)
  | .char =>
    let c := UInt8.ofNat (args 0)
    .done (⟨fs, if c ≠ 0 then [c] else [], 0, 0, false⟩, args.next)
  | .string => do
    let len ← stringLength m fs (unsigned 64 (args 0))
    return (⟨fs, (List.range len).map fun i => m (w64 (unsigned 64 (args 0) + i)), 0, 0, false⟩,
      args.next)
  | .signedInt =>
    match fs.lengthModifier.bits with
    | some bits => do
      let c ← convertSigned fs (signed bits (args 0))
      return (c, args.next)
    | none => do
      let c ← convertSigned fs 0
      return (c, args)
  | .pointer => do
    let c ← convertUnsigned fs (unsigned 64 (args 0))
    return (c, args.next)
  | .octal | .hexInt | .unsignedInt =>
    match fs.lengthModifier.bits with
    | some bits => do
      let c ← convertUnsigned fs (unsigned bits (args 0))
      return (c, args.next)
    | none => do
      let c ← convertUnsigned fs 0
      return (c, args)
  | .floatDec | .floatSci | .floatShortest | .floatHex => do
    let c ← convertFloat fs (unsigned 64 (args 0))
    return (c, args.next)

namespace Converted

/-- `pad_c`: the byte that fills the field, or 0. -/
def padC (c : Converted) : UInt8 :=
  if c.fs.fieldWidthOpt ≠ .none then
    if c.fs.leadingZeroPad ∧ ¬ c.fs.leftJustified then
      if c.fs.precOpt ≠ .none ∧ c.fs.prec = 0 ∧ c.zero then ' '.toUInt8 else '0'.toUInt8
    else ' '.toUInt8
  else 0

/-- `prec_pad`: the zeros in front of the payload. -/
def precPad (c : Converted) : Nat :=
  if c.fs.convSpec ≠ .string ∧ ¬ c.fs.convSpec.isFloat then c.fs.prec - c.payload.length else 0

/-- `field_pad`: how many bytes fill the field. -/
def fieldPad (c : Converted) : Nat :=
  c.fs.fieldWidth - c.payload.length - (if c.signC ≠ 0 then 1 else 0) -
    (if c.need0x ≠ 0 then 2 else 0) - c.precPad

/-- The sign, where there is one. -/
def sign (c : Converted) : List UInt8 := if c.signC ≠ 0 then [c.signC] else []

/-- The prefix of a hexadecimal number, where one is asked for. -/
def hexPrefix (c : Converted) : List UInt8 :=
  if c.need0x ≠ 0 then ['0'.toUInt8, c.need0x] else []

/-- The bytes that fill the field. -/
def fill (c : Converted) : List UInt8 := List.replicate c.fieldPad c.padC

/-- What is printed in front of the payload. -/
def front (c : Converted) : List UInt8 :=
  if ¬ c.fs.leftJustified ∧ c.padC ≠ 0 then
    -- zeros stand behind the sign and the prefix, blanks in front of the prefix
    if c.padC = '0'.toUInt8 then c.sign ++ c.hexPrefix ++ c.fill
    else c.fill ++ c.hexPrefix
  else c.hexPrefix

/-- The sign, where it is not yet printed. -/
def lateSign (c : Converted) : List UInt8 :=
  if ¬ c.fs.leftJustified ∧ c.padC = '0'.toUInt8 then [] else c.sign

/-- The payload, and what belongs to it. -/
def body (c : Converted) : List UInt8 :=
  if c.fs.convSpec = .string then c.payload
  else c.lateSign ++ List.replicate c.precPad '0'.toUInt8 ++ c.payload

/-- What fills the field of a number on the left. -/
def back (c : Converted) : List UInt8 :=
  if c.fs.leftJustified ∧ c.padC ≠ 0 then c.fill else []

/-- What is printed of a converted argument. -/
def text (c : Converted) : List UInt8 := c.front ++ c.body ++ c.back

end Converted

/-- `++pc_cnt->n`, `n` times: the count is an `int`, and overflows where there are too many bytes. -/
def countInt {α : Type} (n : Nat) (a : α) : Outcome α := if n < 2 ^ 31 then .done a else .wild

/-- What a directive prints, and the arguments that it leaves. -/
def printDirective (m : Bytes) (fs : FormatSpec) (args : Args) : Outcome (List UInt8 × Args) :=
  if fs.Negatable args then do
    let (fs, args) := fs.starArgs args
    let (c, args) ← convert m fs.defaults args
    countInt c.text.length (c.text, args)
  else .wild

/-- `(*cur != '%') ? 0 : npf_parse_format_spec(cur, &fs)`, at the byte `c` in front of `cs`. -/
def parseAt (c : UInt8) (cs : List UInt8) : Outcome (Option (FormatSpec × List UInt8)) :=
  if c = '%'.toUInt8 then npfParseFormatSpec cs else .done none

/-- The loop of `npf_vpprintf`: the text, and the arguments that are left.  A percent sign that the
    parser does not take is printed like any byte. -/
def vpprintfLoop (m : Bytes) : Nat → List UInt8 → Args → Outcome (List UInt8 × Args)
  | 0, [], args => .done ([], args)
  | 0, _ :: _, _ => .wild
  | _ + 1, [], args => .done ([], args)
  | fuel + 1, c :: cs, args => do
    let parsed ← parseAt c cs
    match parsed with
    | none => do
      let (text, args) ← vpprintfLoop m fuel cs args
      return (c :: text, args)
    | some (fs, cur) => do
      let (printed, args) ← printDirective m fs args
      let (text, args) ← vpprintfLoop m fuel cur args
      return (printed ++ text, args)

/-- `npf_vpprintf(pc, pc_ctx, format, args)`: the bytes given to `pc`.  Each turn of the loop takes a
    byte of the format at least.  The count only grows, so that it overflowed on its way where it is
    no `int` in the end. -/
def npfVpprintf (m : Bytes) (format : List UInt8) (args : Args) : Outcome (List UInt8 × Args) := do
  let (text, args) ← vpprintfLoop m format.length format args
  countInt text.length (text, args)

end Nearlands.Npf

/-
  Conversions between strings of bytes and of 16-bit units (`qol/qstring.c` of the loader).

  Both directions copy units up to a zero or up to the size of the buffer, and end with a zero.  A
  byte is a signed `char`, so that those from `0x80` on become the units `0xFF80` to `0xFFFF`.  These
  are no zeros, and their low bytes are what they came from: what goes there and back is the string,
  cut to the smaller of the two buffers (`wide_round_trip`).
-/
import Nearlands.Lib.Canvas
import Nearlands.Lib.Word

namespace Nearlands.Ldr

open Nearlands.Lib

section

variable {α β : Type} [DecidableEq α]

/-- The loop of both conversions, with `left` units of room for the next one; it returns the number
    of units copied.  The source ends at `nul`.  The room left is the fuel: the loop takes one unit
    per turn. -/
def convertLoop (unit : α → β) (nul : α) (source : Nat → α) : (left count : Nat) →
    Canvas Nat β → Nat × Canvas Nat β
  | 0, count, string => (count, string)
  | left + 1, count, string =>
    if source count ≠ nul then
      convertLoop unit nul source left (count + 1) (string.put count (unit (source count)))
    else (count, string)

/-- A conversion: the loop runs while `count < strSize - 1` as `u32`, and `nul'` ends the string.  A
    buffer of no units would make the room `2 ^ 32 - 1`; the results below ask for one unit at
    least. -/
def convert (unit : α → β) (nul : α) (nul' : β) (source : Nat → α) (string : Canvas Nat β)
    (strSize : Nat) : Canvas Nat β :=
  let r := convertLoop unit nul source (w32 (strSize + (2 ^ 32 - 1))) 0 string
  r.2.put r.1 nul'

end

/-- `(wchar)c`, where a `char` is signed. -/
def toWchar (c : UInt8) : UInt16 := c.toInt8.toInt16.toUInt16

/-- `QolWideStringToAnsiString(wideString, string, strSize)`. -/
def qolWideStringToAnsiString (wideString : Nat → UInt16) (string : Canvas Nat UInt8)
    (strSize : Nat) : Canvas Nat UInt8 :=
  convert UInt16.toUInt8 0 0 wideString string strSize

/-- `QolAnsiStringToWideString(ansiString, string, strSize)`. -/
def qolAnsiStringToWideString (ansiString : Nat → UInt8) (string : Canvas Nat UInt16)
    (strSize : Nat) : Canvas Nat UInt16 :=
  convert toWchar 0 0 ansiString string strSize

/-! ## One conversion -/

/-- The source ends with its first `nul`, at `len`. -/
structure EndsAt {α : Type} (nul : α) (source : Nat → α) (len : Nat) : Prop where
  zero : source len = nul
  nonzero : ∀ i < len, source i ≠ nul

section

variable {α β : Type} [DecidableEq α] {nul : α} {source : Nat → α} {len : Nat}

/-- From `string` to `string'` the units `k` to `n` were written, each once.  The log counts the
    writes, so that a unit which is written twice would show. -/
structure Copies (unit : α → β) (source : Nat → α) (k n : Nat) (string string' : Canvas Nat β) :
    Prop where
  copied : ∀ i, k ≤ i → i < n → string'.cell i = unit (source i)
  kept : ∀ i, i < k → string'.cell i = string.cell i
  writes : ∃ log, string'.writes = log ++ string.writes ∧ log.length = n - k ∧ ∀ i ∈ log, i < n

/-- The loop ends at the zero, or where there is no more room.  Induction on the room left. -/
theorem convertLoop_spec (unit : α → β) (hends : EndsAt nul source len) :
    ∀ (left count : Nat) (string : Canvas Nat β), count ≤ len →
    (convertLoop unit nul source left count string).1 = min len (count + left) ∧
    Copies unit source count (min len (count + left)) string
      (convertLoop unit nul source left count string).2
  | 0, count, string, hcount => by
    rw [Nat.add_zero, Nat.min_eq_right hcount]
    refine ⟨rfl, fun i hk hn => by omega, fun _ _ => rfl, [], rfl, (Nat.sub_self count).symm, ?_⟩
    simp
  | left + 1, count, string, hcount => by
    rw [convertLoop]
    rcases Nat.eq_or_lt_of_le hcount with rfl | hlt
    · rw [if_neg (by simp [hends.zero]), Nat.min_eq_left (Nat.le_add_right ..)]
      refine ⟨rfl, fun i hk hn => by omega, fun _ _ => rfl, [], rfl, (Nat.sub_self count).symm, ?_⟩
      simp
    · rw [if_pos (hends.nonzero count hlt)]
      obtain ⟨hend, hcopied, hkept, log, hlog, hlength, hbound⟩ :=
        convertLoop_spec unit hends left (count + 1) (string.put count (unit (source count))) hlt
      rw [show count + 1 + left = count + (left + 1) by omega] at *
      refine ⟨hend, fun i hk hn => ?_, fun i hi => ?_, log ++ [count], ?_, ?_, ?_⟩
      · rcases Nat.eq_or_lt_of_le hk with rfl | hk
        · rw [hkept count (Nat.lt_succ_self count)]
          exact Function.update_self ..
        · exact hcopied i hk hn
      · rw [hkept i (by omega)]
        exact Function.update_of_ne (by omega) ..
      · rw [hlog, List.append_assoc]
        rfl
      · rw [List.length_append, hlength, List.length_singleton]
        omega
      · intro i hi
        rcases List.mem_append.mp hi with hi | hi
        · exact hbound i hi
        · rw [List.mem_singleton.mp hi]
          omega

/-- **A conversion** leaves the units before the zero as far as there is room for them, and a zero;
    it writes no more units than the buffer has. -/
theorem convert_spec (unit : α → β) (nul' : β) (hends : EndsAt nul source len) (string : Canvas Nat β)
    {strSize : Nat} (hpos : 1 ≤ strSize) (hsize : strSize < 2 ^ 32) :
    let string' := convert unit nul nul' source string strSize
    (∀ i < min len (strSize - 1), string'.cell i = unit (source i)) ∧
    string'.cell (min len (strSize - 1)) = nul' ∧
    ∃ log, string'.writes = log ++ string.writes ∧ log.length ≤ strSize ∧ ∀ i ∈ log, i < strSize := by
  have hroom : w32 (strSize + (2 ^ 32 - 1)) = strSize - 1 := by
    rw [w32]
    omega
  obtain ⟨hend, hcopied, -, log, hlog, hlength, hbound⟩ :=
    convertLoop_spec unit hends (strSize - 1) 0 string (Nat.zero_le len)
  rw [Nat.zero_add] at *
  dsimp only [convert]
  rw [hroom, hend]
  refine ⟨fun i hi => ?_, Function.update_self .., min len (strSize - 1) :: log, ?_, ?_, ?_⟩
  · refine Eq.trans (Function.update_of_ne (Nat.ne_of_lt hi) ..) (hcopied i (Nat.zero_le i) hi)
  · rw [List.cons_append, ← hlog]
    rfl
  · rw [List.length_cons, hlength]
    omega
  · intro i hi
    rcases List.mem_cons.mp hi with rfl | hi
    · omega
    · have := hbound i hi
      omega

end

/-! ## There and back -/

/-- A byte comes back: the low byte of a sign extension is the byte. -/
theorem toUInt8_toWchar (c : UInt8) : (toWchar c).toUInt8 = c := by
  apply UInt8.eq_of_toBitVec_eq
  show (c.toBitVec.signExtend 16).setWidth 8 = c.toBitVec
  ext i hi
  have h16 : i < 16 := by omega
  rw [BitVec.getElem_setWidth, BitVec.getLsbD_eq_getElem h16, BitVec.getElem_signExtend, dif_pos hi]

/-- A byte that is not zero becomes a unit that is not zero. -/
theorem toWchar_ne_zero {c : UInt8} (hc : c ≠ 0) : toWchar c ≠ 0 := by
  intro h
  have hback := toUInt8_toWchar c
  rw [h] at hback
  exact hc hback.symm

/-- **There and back.**  A string of bytes, put into a buffer of `n` units and from there into one
    of `m` bytes, is cut to the smaller buffer; both end with a zero, and neither is overrun.  The
    conversions are generic in the unit: what is special about bytes is that they come back
    (`toUInt8_toWchar`) and that none becomes a zero on the way (`toWchar_ne_zero`). -/
theorem wide_round_trip {s : Nat → UInt8} {len n m : Nat} (hs : EndsAt 0 s len) (hn : 1 ≤ n)
    (hm : 1 ≤ m) (hn32 : n < 2 ^ 32) (hm32 : m < 2 ^ 32) (w : Canvas Nat UInt16)
    (t : Canvas Nat UInt8) :
    let w' := qolAnsiStringToWideString s w n
    let t' := qolWideStringToAnsiString w'.cell t m
    (∀ i < min len (min (n - 1) (m - 1)), t'.cell i = s i) ∧
    t'.cell (min len (min (n - 1) (m - 1))) = 0 ∧
    (∃ log, w'.writes = log ++ w.writes ∧ log.length ≤ n ∧ ∀ i ∈ log, i < n) ∧
    ∃ log, t'.writes = log ++ t.writes ∧ log.length ≤ m ∧ ∀ i ∈ log, i < m := by
  obtain ⟨hwide, hzero, hwrites⟩ := convert_spec toWchar 0 hs w hn hn32
  have hends : EndsAt 0 (convert toWchar 0 0 s w n).cell (min len (n - 1)) := by
    refine ⟨hzero, fun i hi => ?_⟩
    rw [hwide i hi]
    exact toWchar_ne_zero (hs.nonzero i (by omega))
  obtain ⟨hback, hzero', hwrites'⟩ := convert_spec UInt16.toUInt8 0 hends t hm hm32
  rw [Nat.min_assoc] at hback hzero'
  dsimp only [qolAnsiStringToWideString, qolWideStringToAnsiString]
  refine ⟨fun i hi => ?_, hzero', hwrites, hwrites'⟩
  calc (convert UInt16.toUInt8 0 0 (convert toWchar 0 0 s w n).cell t m).cell i
      = ((convert toWchar 0 0 s w n).cell i).toUInt8 := hback i hi
    _ = (toWchar (s i)).toUInt8 := by rw [hwide i (by omega)]
    _ = s i := toUInt8_toWchar (s i)

/-- The bytes `A`, `0x80`, `B` and a zero byte. -/
def accented (i : Nat) : UInt8 := [0x41, 0x80, 0x42].getD i 0

/-- The string has three bytes. -/
theorem accented_ends : EndsAt 0 accented 3 where
  zero := rfl
  nonzero := by decide

/-- Through three units, the last of them for the zero, into eight bytes: two bytes are left. -/
theorem accented_cut :
    let w' := qolAnsiStringToWideString accented ⟨fun _ => 7, []⟩ 3
    let t' := qolWideStringToAnsiString w'.cell ⟨fun _ => 7, []⟩ 8
    (∀ i < 2, t'.cell i = accented i) ∧ t'.cell 2 = 0 :=
  have h := wide_round_trip (n := 3) (m := 8) accented_ends
    (by decide) (by decide) (by decide) (by decide) ⟨fun _ => 7, []⟩ ⟨fun _ => 7, []⟩
  ⟨h.1, h.2.1⟩

end Nearlands.Ldr

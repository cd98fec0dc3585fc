/-
  The conversion buffer and `npf_utoa_rev` (`nanoprintf.h`).

  The formatter writes a number into an array of 23 bytes, lowest digit first, and prints the array
  from its end.  The array here knows which of its bytes were written: a write behind its end goes
  wrong, and so does a read of what was never written.
-/
import Mathlib.Data.Nat.Digits.Lemmas
import Nearlands.Lib.Outcome
import Nearlands.Npf.Spec

namespace Nearlands.Npf

open Nearlands.Lib

/-- `NANOPRINTF_CONVERSION_BUFFER_SIZE`. -/
def conversionBufferSize : Nat := 23

/-- The conversion buffer: the bytes that were written. -/
structure Cbuf where
  byte : Nat → Option UInt8

namespace Cbuf

/-- A new buffer: nothing is written. -/
def empty : Cbuf := ⟨fun _ => none⟩

/-- The buffer once byte `i` is written. -/
def set (b : Cbuf) (i : Nat) (c : UInt8) : Cbuf := ⟨Function.update b.byte i (some c)⟩

@[simp] theorem set_byte_self (b : Cbuf) (i : Nat) (c : UInt8) : (b.set i c).byte i = some c := by
  show Function.update b.byte i (some c) i = some c
  exact Function.update_self ..

theorem set_byte_of_ne (b : Cbuf) {i j : Nat} (c : UInt8) (h : j ≠ i) :
    (b.set i c).byte j = b.byte j := by
  show Function.update b.byte i (some c) j = b.byte j
  exact Function.update_of_ne h ..

/-- `buf[i] = c`. -/
def put (b : Cbuf) (i : Nat) (c : UInt8) : Outcome Cbuf :=
  if i < conversionBufferSize then .done (b.set i c) else .wild

/-- `buf[i]`. -/
def get (b : Cbuf) (i : Nat) : Outcome UInt8 :=
  match b.byte i with
  | some c => .done c
  | none => .wild

/-- `while (n-- > 0) { NPF_PUTC(buf[n]); }`. -/
def readBack (b : Cbuf) : Nat → Outcome (List UInt8)
  | 0 => .done []
  | n + 1 => do
    let c ← b.get n
    let cs ← b.readBack n
    return c :: cs

/-- The first bytes of the buffer are those of the list. -/
def Holds (b : Cbuf) (cs : List UInt8) : Prop :=
  ∀ i, ∀ h : i < cs.length, b.byte i = some cs[i]

variable {b : Cbuf} {cs : List UInt8} {c : UInt8} {i : Nat} {E : Prop}

theorem holds_nil (b : Cbuf) : b.Holds [] := fun _ h => absurd h (Nat.not_lt_zero _)

theorem sat_put {Q : Cbuf → Prop} (hi : i < conversionBufferSize) (hQ : Q (b.set i c)) :
    (b.put i c).Sat Q E := by
  rw [put, if_pos hi]
  exact hQ

theorem sat_get {Q : UInt8 → Prop} (hb : b.byte i = some c) (hQ : Q c) : (b.get i).Sat Q E := by
  rw [get, hb]
  exact hQ

/-- Writing one byte behind those that are held. -/
theorem Holds.put (h : b.Holds cs) (hi : cs.length < conversionBufferSize) :
    (b.put cs.length c).Sat (fun b' => b'.Holds (cs ++ [c])) E := by
  refine sat_put hi fun i hlt => ?_
  rw [List.length_append, List.length_singleton] at hlt
  rcases Nat.lt_or_eq_of_le (Nat.le_of_lt_succ hlt) with hi' | rfl
  · rw [set_byte_of_ne b c (Nat.ne_of_lt hi'), h i hi', List.getElem_append_left hi']
  · rw [set_byte_self, List.getElem_append_right (Nat.le_refl _)]
    simp

theorem Holds.left {ds : List UInt8} (h : b.Holds (cs ++ ds)) : b.Holds cs := fun i hi => by
  rw [h i (by rw [List.length_append]; omega), List.getElem_append_left hi]

/-- What is held is printed backwards. -/
theorem Holds.readBack : ∀ {cs : List UInt8}, b.Holds cs →
    b.readBack cs.length = .done cs.reverse := by
  intro cs
  induction cs using List.reverseRecOn with
  | nil => exact fun _ => rfl
  | append_singleton cs c ih =>
    intro h
    have hlast : b.byte cs.length = some c := by
      rw [h cs.length (by simp)]
      simp
    rw [List.length_append, List.length_singleton, Cbuf.readBack, get, hlast]
    simp [ih h.left]

end Cbuf

/-- A digit: `(d < 10) ? '0' : ('A' - 10 + case_adj)`, plus `d`. -/
def digitByte (caseAdj : UInt8) (d : Nat) : UInt8 :=
  (if d < 10 then '0'.toUInt8 else 'A'.toUInt8 - 10 + caseAdj) + UInt8.ofNat d

/-- What the loop of `npf_utoa_rev` changes. -/
structure Utoa where
  val : Nat
  n : Nat
  buf : Cbuf

/-- One turn of the loop of `npf_utoa_rev`. -/
def Utoa.turn (base : Nat) (caseAdj : UInt8) (s : Utoa) : Outcome Utoa := do
  let buf ← s.buf.put s.n (digitByte caseAdj (s.val % base))
  return ⟨s.val / base, s.n + 1, buf⟩

/-- `npf_utoa_rev(val, buf, base, case_adj)`: the number of digits, and the buffer. -/
def npfUtoaRev (val : Nat) (buf : Cbuf) (base : Nat) (caseAdj : UInt8) : Outcome (Nat × Cbuf) := do
  let s ← Utoa.turn base caseAdj ⟨val, 0, buf⟩
  let s ← Outcome.loop (fun s => s.val ≠ 0) (Utoa.turn base caseAdj) 64 s
  return (s.n, s.buf)

/-- The digits of a number, lowest first; zero has one. -/
def revDigits (base val : Nat) : List Nat := if val = 0 then [0] else Nat.digits base val

variable {base val : Nat}

theorem revDigits_ne_nil : revDigits base val ≠ [] := by
  unfold revDigits
  split
  · exact List.cons_ne_nil 0 []
  · rename_i h
    exact Nat.digits_ne_nil_iff_ne_zero.mpr h

/-- Each digit is below the base. -/
theorem revDigits_lt (hbase : 2 ≤ base) {d : Nat} (hd : d ∈ revDigits base val) : d < base := by
  unfold revDigits at hd
  split at hd
  · rw [List.mem_singleton.mp hd]
    omega
  · exact Nat.digits_lt_base hbase hd

/-- Together they are the number. -/
theorem ofDigits_revDigits : Nat.ofDigits base (revDigits base val) = val := by
  unfold revDigits
  split
  · rename_i h
    simp [h]
  · exact Nat.ofDigits_digits base val

/-- The first digit, and those of the rest. -/
theorem revDigits_eq (hbase : 2 ≤ base) :
    revDigits base val = val % base :: Nat.digits base (val / base) := by
  unfold revDigits
  split
  · rename_i h
    simp [h]
  · rename_i h
    exact Nat.digits_def' hbase (Nat.pos_of_ne_zero h)

/-- No number of 64 bits has more than 22 digits in a base from 8 on. -/
theorem revDigits_length (hbase : 8 ≤ base) (hval : val < 2 ^ 64) :
    (revDigits base val).length ≤ 22 := by
  unfold revDigits
  split
  · exact Nat.succ_le_succ (Nat.zero_le 21)
  · refine (Nat.digits_length_le_iff (by omega) val).mpr (lt_of_lt_of_le hval ?_)
    calc 2 ^ 64 ≤ 8 ^ 22 := by norm_num
      _ ≤ base ^ 22 := Nat.pow_le_pow_left hbase 22

/-- The digits written so far, and those to come. -/
def Utoa.Inv (base val : Nat) (caseAdj : UInt8) (s : Utoa) : Prop :=
  ∃ ds, revDigits base val = ds ++ Nat.digits base s.val ∧ s.n = ds.length ∧
    s.buf.Holds (ds.map (digitByte caseAdj))

/-- One turn writes one digit. -/
theorem Utoa.turn_inv {caseAdj : UInt8} {s : Utoa} {l : List Nat}
    (hlen : (revDigits base val).length ≤ conversionBufferSize)
    (hds : revDigits base val = l ++ s.val % base :: Nat.digits base (s.val / base))
    (hn : s.n = l.length) (hb : s.buf.Holds (l.map (digitByte caseAdj))) :
    (Utoa.turn base caseAdj s).Sat
      (fun s' => Utoa.Inv base val caseAdj s' ∧ s'.val = s.val / base) False := by
  have hroom : (l.map (digitByte caseAdj)).length < conversionBufferSize := by
    rw [hds, List.length_append, List.length_cons] at hlen
    rw [List.length_map]
    omega
  have hput := hb.put (E := False) (c := digitByte caseAdj (s.val % base)) hroom
  rw [List.length_map, ← hn] at hput
  refine hput.bind fun buf hbuf => ⟨⟨l ++ [s.val % base], ?_, ?_, ?_⟩, rfl⟩
  · rw [hds, List.append_assoc, List.singleton_append]
  · rw [hn, List.length_append, List.length_singleton]
  · rwa [List.map_append, List.map_singleton]

/-- **`npf_utoa_rev` writes the digits of the number**, and they fit. -/
theorem npfUtoaRev_sat {a : UInt8} (buf : Cbuf) (hbase : 2 ≤ base)
    (hlen : (revDigits base val).length ≤ conversionBufferSize) :
    (npfUtoaRev val buf base a).Sat
      (fun r => r.1 = (revDigits base val).length ∧
        r.2.Holds ((revDigits base val).map (digitByte a))) False := by
  have hsize : conversionBufferSize = 23 := rfl
  refine (Utoa.turn_inv (s := ⟨val, 0, buf⟩) (l := []) hlen (revDigits_eq hbase) rfl
    (Cbuf.holds_nil buf)).bind fun s ⟨hs, _⟩ => ?_
  have hturn : ∀ s : Utoa, Utoa.Inv base val a s → decide (s.val ≠ 0) = true →
      (Utoa.turn base a s).Sat (fun s' => Utoa.Inv base val a s' ∧
        (Nat.digits base s'.val).length < (Nat.digits base s.val).length) False := by
    intro s ⟨ds, hds, hn, hb⟩ ht
    have hne : 0 < s.val := Nat.pos_of_ne_zero (of_decide_eq_true ht)
    have hdef := Nat.digits_def' (b := base) hbase hne
    refine (Utoa.turn_inv hlen (hds.trans (by rw [hdef])) hn hb).imp fun s' h => ⟨h.1, ?_⟩
    rw [h.2, hdef, List.length_cons]
    exact Nat.lt_succ_self _
  have hfuel : (Nat.digits base s.val).length < 64 := by
    obtain ⟨ds, hds, -⟩ := hs
    rw [hds, List.length_append] at hlen
    omega
  refine (Outcome.Sat.loop hturn hs hfuel).bind fun s' ⟨⟨ds, hds, hn, hb⟩, hend⟩ => ?_
  have hzero : s'.val = 0 := not_not.mp (of_decide_eq_false hend)
  rw [hzero, Nat.digits_zero, List.append_nil] at hds
  rw [hds]
  exact ⟨hn, hb⟩

end Nearlands.Npf

/-
  Unsigned words, kept as natural numbers.

  Both programs compute with `u64`, which wraps modulo `2 ^ 64`.  A word is a `Nat` here and
  every operation that can wrap goes through `w64` (or `sub64` for a difference), so that the
  wrap stays visible in the model and the side conditions of the proofs are linear arithmetic
  for `omega`.  Screen coordinates are `u32`, and go through `w32`.
-/
import Mathlib.Algebra.Ring.Nat

namespace Nearlands.Lib

/-- Truncation to 64 bits: what a sum or a product of `u64` values is in C.  It stands at every
    place where the source could wrap, also where a lemma then shows that it does not. -/
def w64 (x : Nat) : Nat := x % 2 ^ 64

/-- `a - b` on 64-bit words.  Not the truncated difference of `Nat`: where `b` is larger the result
    wraps, as in the loop bound `pageCount - amount` of a page allocator. -/
def sub64 (a b : Nat) : Nat := (a + (2 ^ 64 - b % 2 ^ 64)) % 2 ^ 64

/-- Truncation to 32 bits.  Coordinates on the screen and the indices in an entity handle are
    `u32`. -/
def w32 (x : Nat) : Nat := x % 2 ^ 32

/-- The wrap is removed by a bound, which is the side condition that `omega` then proves. -/
theorem w32_of_lt {x : Nat} (h : x < 2 ^ 32) : w32 x = x := Nat.mod_eq_of_lt h

theorem w64_lt (x : Nat) : w64 x < 2 ^ 64 := Nat.mod_lt _ (by decide)

theorem w64_of_lt {x : Nat} (h : x < 2 ^ 64) : w64 x = x := Nat.mod_eq_of_lt h

/-- A wrapped summand may be replaced by the unwrapped one. -/
theorem w64_add_w64 (x y : Nat) : w64 (w64 x + y) = w64 (x + y) := by
  unfold w64; omega

/-- Below the minuend the difference is the one of `Nat`; the second bound is that of the type. -/
theorem sub64_of_le {a b : Nat} (hba : b ≤ a) (ha : a < 2 ^ 64) : sub64 a b = a - b := by
  unfold sub64; omega

theorem sub64_lt (a b : Nat) : sub64 a b < 2 ^ 64 := Nat.mod_lt _ (by decide)

end Nearlands.Lib

/-
  The first index that passes a test.

  `firstFrom p n i` is a loop over `n` indices, the first `i`, which ends at one that passes.  It
  finds exactly the least one (`firstFrom_eq_some`), and nothing exactly when there is none
  (`firstFrom_eq_none`).
-/
import Mathlib.Algebra.Ring.Nat

namespace Nearlands.Lib

/-- Look at `n` indices, the first `i`, for one that passes the test. -/
def firstFrom (p : Nat → Bool) : (n i : Nat) → Option Nat
  | 0, _ => none
  | n + 1, i => if p i then some i else firstFrom p n (i + 1)

variable {p : Nat → Bool}

/-- Nothing is found exactly when every index looked at fails the test.  The induction is on the
    number of turns left, with the first index free. -/
theorem firstFrom_eq_none : ∀ {n i : Nat},
    firstFrom p n i = none ↔ ∀ k, i ≤ k → k < i + n → p k = false
  | 0, i => iff_of_true rfl fun k hk hlt => by omega
  | n + 1, i => by
    rw [firstFrom]
    by_cases hp : p i = true
    · rw [if_pos hp]
      refine iff_of_false (Option.some_ne_none i) fun h => ?_
      rw [h i (Nat.le_refl i) (by omega)] at hp
      exact absurd hp Bool.false_ne_true
    · rw [if_neg hp, firstFrom_eq_none]
      constructor
      · intro h k hk hlt
        rcases Nat.eq_or_lt_of_le hk with rfl | hk
        · exact Bool.not_eq_true _ ▸ hp
        · exact h k hk (by omega)
      · exact fun h k hk hlt => h k (by omega) (by omega)

/-- What is found passes, was looked at, and is the least such index.  Both directions are needed:
    one reads a result of the loop, the other predicts it from the state. -/
theorem firstFrom_eq_some : ∀ {n i k : Nat}, firstFrom p n i = some k ↔
    i ≤ k ∧ k < i + n ∧ p k = true ∧ ∀ j, i ≤ j → j < k → p j = false
  | 0, i, k => iff_of_false (Option.some_ne_none k).symm fun h => by omega
  | n + 1, i, k => by
    rw [firstFrom]
    by_cases hp : p i = true
    · rw [if_pos hp, Option.some.injEq]
      constructor
      · rintro rfl
        exact ⟨Nat.le_refl i, by omega, hp, fun j hij hj => by omega⟩
      · rintro ⟨hik, -, -, hfirst⟩
        by_contra hne
        rw [hfirst i (Nat.le_refl i) (by omega)] at hp
        exact absurd hp Bool.false_ne_true
    · rw [if_neg hp, firstFrom_eq_some]
      have hpi : p i = false := Bool.not_eq_true _ ▸ hp
      constructor
      · rintro ⟨hik, hlt, hk, hfirst⟩
        refine ⟨by omega, by omega, hk, fun j hij hj => ?_⟩
        rcases Nat.eq_or_lt_of_le hij with rfl | hij
        · exact hpi
        · exact hfirst j hij hj
      · rintro ⟨hik, hlt, hk, hfirst⟩
        have hne : i ≠ k := by
          rintro rfl
          exact absurd (hpi.symm.trans hk) Bool.false_ne_true
        exact ⟨by omega, by omega, hk, fun j hij hj => hfirst j (by omega) hj⟩

end Nearlands.Lib

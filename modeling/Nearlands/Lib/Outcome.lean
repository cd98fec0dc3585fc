/-
  Computations with an error exit.

  A function in C either computes its value, or jumps to an exit that it has prepared, or does
  something that nothing is promised for: it writes past an array, reads what was never written, or
  its loop does not end.  `Outcome` has one constructor for each.  `Sat Q E` is the judgment about
  one: the value meets `Q`, the exit is taken only under `E`, and the third case does not happen.

  A loop runs on fuel, and running out of it is the third case; so the rule of the loop
  (`Sat.loop`) asks for a measure that goes down, and proves the end of the loop with the rest.
-/
import Mathlib.Tactic.Common

namespace Nearlands.Lib

universe u v

/-- How a computation ends.  `exit` is for a jump that the function itself prepared (`goto exit`),
    `wild` for what C does not define; a theorem that excludes `wild` says that the code has no such
    behaviour. -/
inductive Outcome (α : Type u) : Type u
  | done (a : α)
  | exit
  | wild
  deriving DecidableEq

namespace Outcome

variable {α : Type u} {β : Type v} {σ : Type u} {x : Outcome α} {f : α → Outcome β}
  {P Q : α → Prop} {R : β → Prop} {E E' : Prop}

/-- The second computation starts from the value of the first one. -/
def bind : Outcome α → (α → Outcome β) → Outcome β
  | done a, f => f a
  | exit, _ => exit
  | wild, _ => wild

instance : Monad Outcome where
  pure := done
  bind := bind

/-- A computation that is done hands its value on. -/
@[simp] theorem done_bind {β : Type u} (a : α) (f : α → Outcome β) : (done a >>= f) = f a := rfl

/-- `return` in a `do` block is `done`. -/
@[simp] theorem pure_eq (a : α) : (pure a : Outcome α) = done a := rfl

/-- Where the first computation takes the exit, the second one is what stands there.  It is the
    label at the end of a function, with the code behind it. -/
def orExit : Outcome α → Outcome α → Outcome α
  | exit, y => y
  | done a, _ => done a
  | wild, _ => wild

/-- The value meets `Q`, the exit is taken only under `E`, and nothing goes wrong.  `E` is what
    holds where the exit is taken; with `False` for it the computation has no exit. -/
def Sat : Outcome α → (α → Prop) → Prop → Prop
  | done a, Q, _ => Q a
  | exit, _, E => E
  | wild, _, _ => False

@[simp] theorem sat_done {a : α} : (done a).Sat Q E ↔ Q a := Iff.rfl

@[simp] theorem sat_exit : (exit : Outcome α).Sat Q E ↔ E := Iff.rfl

/-- Consequence: a weaker postcondition, and more reasons to take the exit. -/
theorem Sat.mono (h : x.Sat P E) (hQ : ∀ a, P a → Q a) (hE : E → E') : x.Sat Q E' := by
  cases x with
  | done a => exact hQ a h
  | exit => exact hE h
  | wild => exact h.elim

/-- Only the postcondition is weakened. -/
theorem Sat.imp (h : x.Sat P E) (hQ : ∀ a, P a → Q a) : x.Sat Q E := h.mono hQ id

/-- The rule of composition.  Each stage of a function is judged by itself, from what the one before
    it has left. -/
theorem Sat.bind {β : Type u} {f : α → Outcome β} {R : β → Prop} (h : x.Sat P E)
    (hf : ∀ a, P a → (f a).Sat R E) : (x >>= f).Sat R E := by
  cases x with
  | done a => exact hf a h
  | exit => exact h
  | wild => exact h.elim

/-- The rule of the exit. -/
theorem Sat.orExit {y : Outcome α} (h : x.Sat Q E) (hy : E → y.Sat Q E') : (x.orExit y).Sat Q E' := by
  cases x with
  | done a => exact h
  | exit => exact hy h
  | wild => exact h.elim

/-- A value that meets `Q`.  It is how a judgment becomes an equation about the result. -/
theorem Sat.value (h : x.Sat Q False) : ∃ a, x = done a ∧ Q a := by
  cases x with
  | done a => exact ⟨a, rfl, h⟩
  | exit => exact h.elim
  | wild => exact h.elim

/-- `while (test) body`.  The fuel is a bound on the number of turns that the model is given; the
    loop of the source has none. -/
def loop (test : σ → Bool) (body : σ → Outcome σ) : Nat → σ → Outcome σ
  | 0, _ => wild
  | fuel + 1, s => if test s then body s >>= loop test body fuel else done s

/-- The rule of the loop: the body keeps the invariant and makes the measure go down, and there is
    fuel for the measure.  The measure may be a bound on what is left to do, and need not be exact. -/
theorem Sat.loop {test : σ → Bool} {body : σ → Outcome σ} {I : σ → Prop} {size : σ → Nat}
    (hbody : ∀ s, I s → test s = true → (body s).Sat (fun s' => I s' ∧ size s' < size s) E)
    {fuel : Nat} : ∀ {s : σ}, I s → size s < fuel →
      (loop test body fuel s).Sat (fun s' => I s' ∧ test s' = false) E := by
  induction fuel with
  | zero => exact fun _ hsize => absurd hsize (Nat.not_lt_zero _)
  | succ fuel ih =>
    intro s hi hsize
    unfold Outcome.loop
    split
    · rename_i ht
      refine (hbody s hi ht).bind fun s' h' => ih h'.1 ?_
      have hless := h'.2
      omega
    · rename_i ht
      exact ⟨hi, Bool.eq_false_iff.mpr ht⟩

/-- A loop that counts ends at the first number that fails the test.  The loops that look for the
    end of something, such as the last digit that is not zero, are of this form. -/
theorem loop_count {test : Nat → Bool} : ∀ {fuel k n : Nat},
    loop test (fun i => done (i + 1)) fuel k = done n →
      k ≤ n ∧ test n = false ∧ ∀ i, k ≤ i → i < n → test i = true := by
  intro fuel
  induction fuel with
  | zero =>
    intro k n h
    cases h
  | succ fuel ih =>
    intro k n h
    rw [loop] at h
    by_cases ht : test k = true
    · rw [if_pos ht, done_bind] at h
      obtain ⟨hk, hn, hall⟩ := ih h
      refine ⟨by omega, hn, fun i hi hlt => ?_⟩
      rcases Nat.lt_or_eq_of_le hi with hlt' | rfl
      · exact hall i hlt' hlt
      · exact ht
    · rw [if_neg ht] at h
      injection h with h
      subst h
      exact ⟨Nat.le_refl k, Bool.eq_false_iff.mpr ht, fun i hi hlt => absurd hlt (by omega)⟩

/-- The converse: a number that fails the test, behind numbers that pass, is where the loop ends. -/
theorem loop_count_of {test : Nat → Bool} : ∀ {fuel k n : Nat}, k ≤ n → n < k + fuel →
    test n = false → (∀ i, k ≤ i → i < n → test i = true) →
      loop test (fun i => done (i + 1)) fuel k = done n := by
  intro fuel
  induction fuel with
  | zero => exact fun hk hn => absurd hn (by omega)
  | succ fuel ih =>
    intro k n hk hn hend hall
    rw [loop]
    rcases Nat.lt_or_eq_of_le hk with hlt | rfl
    · rw [if_pos (hall k (Nat.le_refl k) hlt), done_bind]
      exact ih hlt (by omega) hend fun i hi hin => hall i (by omega) hin
    · rw [if_neg (Bool.eq_false_iff.mp hend)]

/-- Only the numbers that are counted, and the last one, matter.  So a test that reads a buffer may
    be replaced by one that reads a list which agrees with it there. -/
theorem loop_count_congr {test t : Nat → Bool} : ∀ {fuel k n : Nat},
    loop test (fun i => done (i + 1)) fuel k = done n → (∀ i, k ≤ i → i ≤ n → t i = test i) →
      loop t (fun i => done (i + 1)) fuel k = done n := by
  intro fuel
  induction fuel with
  | zero =>
    intro k n h _
    cases h
  | succ fuel ih =>
    intro k n h hsame
    have hk := (loop_count h).1
    rw [loop] at h ⊢
    rw [hsame k (Nat.le_refl k) hk]
    by_cases ht : test k = true
    · rw [if_pos ht, done_bind] at h ⊢
      exact ih h fun i hi hn => hsame i (by omega) hn
    · rw [if_neg ht] at h ⊢
      exact h

end Outcome

end Nearlands.Lib

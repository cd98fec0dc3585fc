/-
  One call of the page allocator, whatever it is asked for.

  `Grants` says what an allocation of at most `pageCount` pages does.  A caller that asks for more
  makes the bound of the search wrap around, and then the run may begin beyond the last page and
  even beyond the last address.  What is left of `Grants` is `TakesAt`: the run begins at the first
  start that passes the tests, the whole window is marked, and nothing is unmarked.

  The address such a run is given out with is that of a lower page, `wrapped i`, and a free of the
  address clears the pages from there on.
-/
import Nearlands.Pmm.Runs

namespace Nearlands.Pmm

open Nearlands.Lib

/-! ## Pages and addresses -/

/-- The page whose address page `i` is given out with.  Addresses have 64 bits, so page numbers have
    52. -/
def wrapped (i : Nat) : Nat := i % 2 ^ 52

/-- The page of an address is below page `2 ^ 52`. -/
theorem wrapped_lt (i : Nat) : wrapped i < 2 ^ 52 := Nat.mod_lt _ (by decide)

/-- A page that has an address of its own. -/
theorem wrapped_of_lt {i : Nat} (h : i < 2 ^ 52) : wrapped i = i := Nat.mod_eq_of_lt h

/-- The address of that page is the same. -/
theorem wrapped_wrapped (i : Nat) : wrapped (wrapped i) = wrapped i := wrapped_of_lt (wrapped_lt i)

/-- A page, its address, and the page of that. -/
theorem pageLocation_wrapped (i : Nat) :
    getPageLocationFromAddress (getAddressFromPageLocation i) = wrapped i := by
  rw [getPageLocationFromAddress, getAddressFromPageLocation, w64, pageSize, wrapped]
  omega

/-- The address is `NULL` for the multiples of `2 ^ 52` and for no other page. -/
theorem address_ne_null (i : Nat) : getAddressFromPageLocation i ≠ null ↔ wrapped i ≠ 0 := by
  rw [getAddressFromPageLocation, w64, pageSize, wrapped]
  show ¬ _ = 0 ↔ _
  omega

/-! ## Allocation -/

/-- The start `k` passes the tests for `n` pages.  It is `Accepts` with a window that may wrap. -/
def State.Passes (s : State) (n k : Nat) : Prop :=
  wrapped k ≠ 0 ∧ s.used k = false ∧
    ∀ t, t < n → w64 (k + t) % 8 = 0 → s.used (w64 (k + t)) = false

/-- The test of the code is this predicate. -/
theorem passes_iff (s : State) (n k : Nat) : s.multiTest n k = true ↔ s.Passes n k := by
  rw [multiTest_eq_true, address_ne_null, State.Passes]

/-- A start passes when the whole window behind it is clear.  The converse does not hold: a start
    may pass although its window is in use. -/
theorem passes_of_clear {s : State} {n k : Nat} (hn : 0 < n) (hlt : k + n ≤ 2 ^ 64)
    (h0 : wrapped k ≠ 0) (hwin : ∀ q, k ≤ q → q < k + n → s.used q = false) : s.Passes n k := by
  refine ⟨h0, hwin k (Nat.le_refl k) (by omega), fun t ht _ => ?_⟩
  rw [w64_of_lt (by omega)]
  exact hwin (k + t) (by omega) (by omega)

/-- An allocation of `n` pages that took `s` to `s'` found them at page `i`, whatever `n` is.
    Unlike `Grants` it does not say that only the window is marked, since a wrapped window may be
    all of memory. -/
structure TakesAt (s : State) (n i : Nat) (s' : State) : Prop where
  bound : i ≤ sub64 s.pageCount n
  passes : s.Passes n i
  first : ∀ k, s.Passes n k → i ≤ k
  start : s'.used i = true
  window : ∀ t, t < n → s'.used (w64 (i + t)) = true
  keeps : ∀ q, s.used q = true → s'.used q = true

/-- The marking loop unmarks nothing.  Whatever is marked twice stays marked. -/
theorem markWindow_keeps (i : Nat) : ∀ (n j : Nat) (s : State) (q : Nat), s.used q = true →
    (State.markWindow i n j s).used q = true := by
  intro n
  induction n with
  | zero => exact fun _ _ _ h => h
  | succ n ih =>
    intro j s q h
    refine ih (j + 1) _ q ?_
    rw [used_incrementPageUsage, used_setBitmap, h, Bool.or_true]

/-- It marks its window, wrapped around or not. -/
theorem markWindow_marks (i : Nat) : ∀ (n j : Nat) (s : State) (t : Nat), t < n →
    (State.markWindow i n j s).used (w64 (i + (j + t))) = true := by
  intro n
  induction n with
  | zero => exact fun _ _ t ht => absurd ht (Nat.not_lt_zero t)
  | succ n ih =>
    intro j s t ht
    cases t with
    | zero =>
      refine markWindow_keeps i n (j + 1) _ _ ?_
      rw [used_incrementPageUsage, used_setBitmap, Nat.add_zero, decide_eq_true rfl, Bool.true_or]
    | succ t =>
      have hrest := ih (j + 1) (s.setBitmap (w64 (i + j))).incrementPageUsage t
        (Nat.lt_of_succ_lt_succ ht)
      rw [show j + 1 + t = j + (t + 1) by omega] at hrest
      exact hrest

/-- **One allocation**: `NULL` and no change when no start passes, or a run at the first that does.
    It holds for every amount and every fuel with which the scan ends. -/
theorem mmAllocateMultiplePages_takes {s s' : State} {fuel n addr : Nat}
    (h : s.mmAllocateMultiplePages fuel n = some (s', addr)) :
    (addr = null ∧ s' = s ∧ ∀ k, k ≤ sub64 s.pageCount n → ¬ s.Passes n k) ∨
    ∃ i, addr = getAddressFromPageLocation i ∧ addr ≠ null ∧ TakesAt s n i s' := by
  rw [State.mmAllocateMultiplePages] at h
  obtain ⟨r, hr, hres⟩ := Option.map_eq_some_iff.mp h
  have hhit := multiScan_found s n _ fuel 0 r (by decide) (fun _ hk => absurd hk (Nat.not_lt_zero _)) hr
  cases hf : r.found with
  | none =>
    simp only [hf, Prod.mk.injEq] at hres
    refine Or.inl ⟨hres.2.symm, hres.1.symm, fun k hk hpass => ?_⟩
    rw [hf] at hhit
    have hno := hhit k hk
    rw [(passes_iff s n k).mpr hpass] at hno
    exact absurd hno (by decide)
  | some i =>
    rw [hf] at hhit
    simp only [hf, Prod.mk.injEq] at hres
    obtain ⟨rfl, rfl⟩ := hres
    obtain ⟨hle, htest, hmin⟩ := hhit
    have hpass := (passes_iff s n i).mp htest
    refine Or.inr ⟨i, rfl, (address_ne_null i).mpr hpass.1, hle, hpass, fun k hk => ?_, ?_,
      fun t ht => ?_, fun q hq => ?_⟩
    · by_contra hlt
      have hno := hmin k (Nat.lt_of_not_le hlt)
      rw [(passes_iff s n k).mpr hk] at hno
      exact absurd hno (by decide)
    · refine markWindow_keeps i n 0 _ i ?_
      rw [used_setBitmap, decide_eq_true rfl, Bool.true_or]
    · have hmark := markWindow_marks i n 0 (s.setBitmap i) t ht
      rwa [Nat.zero_add] at hmark
    · refine markWindow_keeps i n 0 _ q ?_
      rw [used_setBitmap, hq, Bool.or_true]

/-- An allocation unmarks nothing, whether it found pages or not. -/
theorem mmAllocateMultiplePages_keeps {s s' : State} {fuel n addr : Nat}
    (h : s.mmAllocateMultiplePages fuel n = some (s', addr)) :
    ∀ q, s.used q = true → s'.used q = true := by
  rcases mmAllocateMultiplePages_takes h with ⟨-, rfl, -⟩ | ⟨i, -, -, ht⟩
  · exact fun _ hq => hq
  · exact ht.keeps

/-- An allocation that did not answer `NULL` found pages at the address it answered. -/
theorem mmAllocateMultiplePages_found {s s' : State} {fuel n addr : Nat}
    (h : s.mmAllocateMultiplePages fuel n = some (s', addr)) (hne : addr ≠ null) :
    ∃ i, addr = getAddressFromPageLocation i ∧ TakesAt s n i s' := by
  rcases mmAllocateMultiplePages_takes h with ⟨hnull, -⟩ | ⟨i, hi, -, ht⟩
  · exact absurd hnull hne
  · exact ⟨i, hi, ht⟩

/-- `NULL` means that no start passes.  So a refusal says something about all of memory, also for a
    request that is too large. -/
theorem mmAllocateMultiplePages_null_iff {s s' : State} {fuel n addr : Nat}
    (h : s.mmAllocateMultiplePages fuel n = some (s', addr)) :
    addr = null ↔ ∀ k, k ≤ sub64 s.pageCount n → ¬ s.Passes n k := by
  rcases mmAllocateMultiplePages_takes h with ⟨hnull, -, hnone⟩ | ⟨i, -, hne, ht⟩
  · exact ⟨fun _ => hnone, fun _ => hnull⟩
  · exact ⟨fun hnull => absurd hnull hne, fun hnone => absurd ht.passes (hnone i ht.bound)⟩

/-! ## Free -/

/-- **One free** of a run that was given out with page `i`.  The page of the address is the wrapped
    one, and that is where the loop begins. -/
theorem used_mmFreeMultiplePages (s : State) (i : Nat) {n : Nat} (hn : n ≤ 2 ^ 63) (q : Nat) :
    (s.mmFreeMultiplePages (getAddressFromPageLocation i) n).1.used q =
      (!decide (wrapped i ≤ q ∧ q < wrapped i + n) && s.used q) := by
  have hlt : wrapped i < 2 ^ 52 := Nat.mod_lt _ (by decide)
  show (State.clearWindow _ n 0 s).used q = _
  rw [pageLocation_wrapped, used_clearWindow _ n 0 s q (by omega), Nat.add_zero]

/-- A free unmarks nothing outside its run, -/
theorem free_keeps {s : State} {i n q : Nat} (hn : n ≤ 2 ^ 63) (hq : s.used q = true)
    (hout : ¬ (wrapped i ≤ q ∧ q < wrapped i + n)) :
    (s.mmFreeMultiplePages (getAddressFromPageLocation i) n).1.used q = true := by
  rw [used_mmFreeMultiplePages s i hn, decide_eq_false hout, hq]
  rfl

/-- leaves nothing marked in it, -/
theorem free_clears (s : State) {i n q : Nat} (hn : n ≤ 2 ^ 63) (hle : wrapped i ≤ q)
    (hlt : q < wrapped i + n) :
    (s.mmFreeMultiplePages (getAddressFromPageLocation i) n).1.used q = false := by
  rw [used_mmFreeMultiplePages s i hn, decide_eq_true ⟨hle, hlt⟩]
  rfl

/-- and marks nothing. -/
theorem free_clear {s : State} {i n q : Nat} (hn : n ≤ 2 ^ 63) (hq : s.used q = false) :
    (s.mmFreeMultiplePages (getAddressFromPageLocation i) n).1.used q = false := by
  rw [used_mmFreeMultiplePages s i hn, hq, Bool.and_false]

end Nearlands.Pmm

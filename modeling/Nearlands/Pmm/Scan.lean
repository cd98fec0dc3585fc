/-
  What the two scans find.

  Both allocators are a first-fit search, and both searches are `List.find?` over consecutive
  starts (`singleScan_found`, `multiScan_found`); what differs is the test.  `Accepts s n i` is
  the test `MmAllocateMultiplePages(n)` really makes of a start `i`: its address is not `NULL`,
  its own bit is clear, and no used page of the window sits at a multiple of 8.  For `n = 1`
  that is also the test of `MmAllocateSinglePage`, so one notion (`FirstFit`) specifies both.

  The second half says what an allocation does to the state, once and for all: `Grants`.
-/
import Nearlands.Pmm.Bits
import Nearlands.Lib.Region

namespace Nearlands.Pmm

open Nearlands.Lib

/-! ## The test of a start -/

/-- The start `i` passes the tests of `MmAllocateMultiplePages(n)`.  The pages behind the first one
    are looked at only at multiples of 8. -/
def State.Accepts (s : State) (n i : Nat) : Prop :=
  getAddressFromPageLocation i ≠ null ∧ s.used i = false ∧
    ∀ k, i ≤ k → k < i + n → k % 8 = 0 → s.used k = false

/-- The test of `MmAllocateSinglePage`. -/
def State.singleTest (s : State) (i : Nat) : Bool :=
  decide (s.getBitInBitmap i = CLEAR) && decide (getAddressFromPageLocation i ≠ null)

/-- The test of `MmAllocateMultiplePages`. -/
def State.multiTest (s : State) (n i : Nat) : Bool :=
  s.singleTest i && (s.windowScan i n 0).2

/-- One page is accepted by either search for the same reason. -/
theorem singleTest_iff (s : State) (i : Nat) : s.singleTest i = true ↔ s.Accepts 1 i := by
  rw [State.singleTest, State.Accepts]
  simp only [Bool.and_eq_true, decide_eq_true_eq, getBitInBitmap_eq_CLEAR]
  constructor
  · rintro ⟨hclear, haddr⟩
    refine ⟨haddr, hclear, fun k hik hki _ => ?_⟩
    obtain rfl : k = i := by omega
    exact hclear
  · rintro ⟨haddr, hclear, _⟩
    exact ⟨hclear, haddr⟩

/-- The inner loop succeeds when no masked byte of the window equals `SET`. -/
theorem windowScan_valid (s : State) (i : Nat) : ∀ n j,
    (s.windowScan i n j).2 = true ↔ ∀ t, t < n → s.getBitInBitmap (w64 (i + (j + t))) ≠ SET := by
  intro n
  induction n with
  | zero => simp [State.windowScan]
  | succ n ih =>
    intro j
    rw [State.windowScan]
    by_cases hset : s.getBitInBitmap (w64 (i + j)) = SET
    · simp only [hset, if_true, Bool.false_eq_true, false_iff]
      exact fun hall => hall 0 (by omega) hset
    · simp only [if_neg hset, ih (j + 1)]
      constructor
      · intro hrest t ht
        cases t with
        | zero => exact hset
        | succ t =>
          have := hrest t (by omega)
          rwa [show j + 1 + t = j + (t + 1) by omega] at this
      · intro hall t ht
        have := hall (t + 1) (by omega)
        rwa [show j + (t + 1) = j + 1 + t by omega] at this

/-- The test of a start, whether or not its window wraps.  It is the form without a bound, for
    requests that are larger than memory. -/
theorem multiTest_eq_true (s : State) (n i : Nat) : s.multiTest n i = true ↔
    getAddressFromPageLocation i ≠ null ∧ s.used i = false ∧
      ∀ t, t < n → w64 (i + t) % 8 = 0 → s.used (w64 (i + t)) = false := by
  rw [State.multiTest, State.singleTest, Bool.and_eq_true, Bool.and_eq_true, decide_eq_true_eq,
    decide_eq_true_eq, getBitInBitmap_eq_CLEAR, windowScan_valid]
  have hpage : ∀ t, s.getBitInBitmap (w64 (i + (0 + t))) ≠ SET ↔
      (w64 (i + t) % 8 = 0 → s.used (w64 (i + t)) = false) := by
    intro t
    rw [Nat.zero_add, Ne, getBitInBitmap_eq_SET]
    cases s.used (w64 (i + t)) <;> simp
  constructor
  · rintro ⟨⟨hclear, haddr⟩, hwin⟩
    exact ⟨haddr, hclear, fun t ht => (hpage t).mp (hwin t ht)⟩
  · rintro ⟨haddr, hclear, hwin⟩
    exact ⟨⟨hclear, haddr⟩, fun t ht => (hpage t).mpr (hwin t ht)⟩

/-- For a window that does not wrap the test is `Accepts`. -/
theorem multiTest_iff (s : State) {n i : Nat} (hlt : i + n ≤ 2 ^ 64) :
    s.multiTest n i = true ↔ s.Accepts n i := by
  rw [multiTest_eq_true, State.Accepts]
  refine and_congr_right fun _ => and_congr_right fun _ => ?_
  constructor
  · intro hwin k hik hki hk8
    have hk := hwin (k - i) (by omega)
    rw [w64_of_lt (by omega), show i + (k - i) = k by omega] at hk
    exact hk hk8
  · intro hwin t ht ht8
    rw [w64_of_lt (by omega)] at ht8 ⊢
    exact hwin (i + t) (by omega) (by omega) ht8

/-! ## The scans as searches -/

/-- The single-page scan is a search for the first start that passes. -/
theorem singleScan_found (s : State) : ∀ n i,
    (s.singleScan n i).found = (List.range' i n).find? s.singleTest := by
  intro n
  induction n with
  | zero => intro i; rfl
  | succ n ih =>
    intro i
    rw [List.range'_succ, List.find?_cons]
    unfold State.singleScan State.singleTest
    by_cases hclear : s.getBitInBitmap i = CLEAR
    · by_cases haddr : getAddressFromPageLocation i = null
      · simp only [hclear, haddr, if_true, Scan.after, ih (i + 1), ne_eq, not_true_eq_false,
          decide_true, decide_false, Bool.and_false]
        rfl
      · simp [hclear, haddr]
    · simp only [if_neg hclear, Scan.after, ih (i + 1), decide_eq_false hclear, Bool.false_and]
      rfl

/-- The bits that one turn of the multi-page scan reads. -/
def State.turnReads (s : State) (n i : Nat) : List Nat :=
  if s.singleTest i = true then i :: (s.windowScan i n 0).1 else [i]

/-- One turn of the multi-page scan.  With this equation the loop has two cases instead of five. -/
theorem multiScan_succ (s : State) (n T fuel i : Nat) :
    s.multiScan n T (fuel + 1) i =
      if i ≤ T then
        if s.multiTest n i = true then some ⟨s.turnReads n i, some i⟩
        else (s.multiScan n T fuel (w64 (i + 1))).map (Scan.after (s.turnReads n i))
      else some ⟨[], none⟩ := by
  rw [State.multiScan, State.multiTest, State.turnReads, State.singleTest]
  by_cases hclear : s.getBitInBitmap i = CLEAR
  · by_cases haddr : getAddressFromPageLocation i = null
    · simp [hclear, haddr]
    · simp [hclear, haddr]
  · simp [hclear]

/-- The start `j` is the first one up to `T` that passes; `none` when there is none.  The bound `T`
    is inclusive, as in the source. -/
def State.FirstHit (s : State) (n T : Nat) : Option Nat → Prop
  | some j => j ≤ T ∧ s.multiTest n j = true ∧ ∀ k, k < j → s.multiTest n k = false
  | none => ∀ k, k ≤ T → s.multiTest n k = false

/-- **A multi-page scan that ends has found the first start that passes.**  Induction on the fuel;
    nothing below `i` passes, which also holds after a wrap to 0. -/
theorem multiScan_found (s : State) (n T : Nat) :
    ∀ fuel i r, i < 2 ^ 64 → (∀ k, k < i → s.multiTest n k = false) →
      s.multiScan n T fuel i = some r → s.FirstHit n T r.found := by
  intro fuel
  induction fuel with
  | zero => intro i r _ _ h; exact nomatch h
  | succ fuel ih =>
    intro i r hi hbelow h
    rw [multiScan_succ] at h
    by_cases hle : i ≤ T
    · rw [if_pos hle] at h
      cases htest : s.multiTest n i with
      | true =>
        rw [htest, if_pos rfl, Option.some.injEq] at h
        rw [← h]
        exact ⟨hle, htest, hbelow⟩
      | false =>
        rw [htest, if_neg (by decide)] at h
        obtain ⟨r', hr', rfl⟩ := Option.map_eq_some_iff.mp h
        refine ih (w64 (i + 1)) r' (w64_lt _) (fun k hk => ?_) hr'
        rcases Nat.lt_or_ge (i + 1) (2 ^ 64) with hlt | hge
        · rw [w64_of_lt hlt] at hk
          rcases Nat.lt_succ_iff_lt_or_eq.mp hk with hk | rfl
          · exact hbelow k hk
          · exact htest
        · rw [show i + 1 = 2 ^ 64 by omega, show w64 (2 ^ 64) = 0 from rfl] at hk
          exact absurd hk (Nat.not_lt_zero k)
    · rw [if_neg hle, Option.some.injEq] at h
      rw [← h]
      exact fun k hk => hbelow k (by omega)

/-- The multi-page scan ends within as many steps as there are starts, plus one.  For the wrapped
    bound `2 ^ 64 - 1` there is no such lemma: the loop is then endless if nothing passes. -/
theorem multiScan_total (s : State) (n : Nat) {T : Nat} (hT : T + 1 < 2 ^ 64) :
    ∀ fuel i, i ≤ T + 1 → T + 1 - i < fuel → ∃ r, s.multiScan n T fuel i = some r := by
  intro fuel
  induction fuel with
  | zero => intro i _ h; exact absurd h (Nat.not_lt_zero _)
  | succ fuel ih =>
    intro i hi hfuel
    rw [multiScan_succ]
    by_cases hle : i ≤ T
    · rw [if_pos hle, w64_of_lt (by omega)]
      obtain ⟨r, hr⟩ := ih (i + 1) (by omega) (by omega)
      rw [hr]
      split
      · exact ⟨_, rfl⟩
      · exact ⟨_, rfl⟩
    · rw [if_neg hle]
      exact ⟨_, rfl⟩

/-! ## First fit -/

/-- `i` is the first start below the bound that passes; `none` when there is none.  Its window lies
    in the bitmap, which `FirstHit` does not say. -/
def State.FirstFit (s : State) (n : Nat) : Option Nat → Prop
  | some i => i + n ≤ s.pageCount ∧ s.Accepts n i ∧ ∀ i', i' < i → ¬ s.Accepts n i'
  | none => ∀ i, i + n ≤ s.pageCount → ¬ s.Accepts n i

/-- There is one first fit.  The search therefore has one answer, and a condition may speak of "the"
    window that will be granted. -/
theorem State.FirstFit.unique {s : State} {n i i' : Nat} (h : s.FirstFit n (some i))
    (h' : s.FirstFit n (some i')) : i = i' := by
  rcases Nat.lt_trichotomy i i' with hlt | heq | hgt
  · exact absurd h.2.1 (h'.2.2 i hlt)
  · exact heq
  · exact absurd h'.2.1 (h.2.2 i' hgt)

/-- The first start that the multi-page test accepts is the first fit.  The request is no larger
    than memory, and so the bound has not wrapped. -/
theorem firstFit_of_firstHit {s : State} {n : Nat} (hn : n ≤ s.pageCount)
    {found : Option Nat} (h : s.FirstHit n (s.pageCount - n) found) : s.FirstFit n found := by
  have hpc := s.pageCount_lt
  have htest : ∀ i, i + n ≤ s.pageCount → (s.multiTest n i = true ↔ s.Accepts n i) :=
    fun i hi => multiTest_iff s (by omega)
  have hfail : ∀ i, i + n ≤ s.pageCount → s.multiTest n i = false → ¬ s.Accepts n i := by
    intro i hi hno hacc
    rw [(htest i hi).mpr hacc] at hno
    exact absurd hno (by decide)
  cases found with
  | some i =>
    obtain ⟨hi, hok, hmin⟩ := h
    exact ⟨by omega, (htest i (by omega)).mp hok, fun k hk => hfail k (by omega) (hmin k hk)⟩
  | none => exact fun i hi => hfail i hi (h i (by omega))

/-- A search over all starts below the bound with the code's test is a first fit. -/
theorem firstFit_find (s : State) {n : Nat} {test : Nat → Bool}
    (htest : ∀ i, i + n ≤ s.pageCount → (test i = true ↔ s.Accepts n i)) (hn : n ≤ s.pageCount) :
    s.FirstFit n ((List.range' 0 (s.pageCount - n + 1)).find? test) := by
  cases hf : (List.range' 0 (s.pageCount - n + 1)).find? test with
  | some i =>
    obtain ⟨hi, hmem, hmin⟩ := List.find?_range'_eq_some.mp hf
    have hb := (List.mem_range'_1.mp hmem).2
    refine ⟨by omega, (htest i (by omega)).mp hi, fun i' hlt hacc => ?_⟩
    have hno := hmin i' (Nat.zero_le _) hlt
    rw [(htest i' (by omega)).mpr hacc] at hno
    exact absurd hno (by decide)
  | none =>
    intro i hi hacc
    have hno := List.find?_range'_eq_none.mp hf i (Nat.zero_le _) (by omega)
    rw [(htest i hi).mpr hacc] at hno
    exact absurd hno (by decide)

/-! ## What an allocation does -/

/-- An allocation of `n` pages took `s` to `s'` and returned `addr`: either there was no fit and
    nothing changed, or the window at the first fit is marked and its address returned.  It is the
    specification of both allocators: marking is all they do, and where is decided by `FirstFit`.
    That the window was clear is not part of it, because the search does not establish it. -/
def Grants (s : State) (n : Nat) (s' : State) (addr : Nat) : Prop :=
  (s.FirstFit n none ∧ s' = s ∧ addr = null) ∨
  ∃ i, s.FirstFit n (some i) ∧ addr = getAddressFromPageLocation i ∧ s'.statics = s.statics ∧
    ∀ q, s'.used q = (decide (i ≤ q ∧ q < i + n) || s.used q)

/-- **`MmAllocateSinglePage` grants one page.** For one page the window is the start itself, whose
    bit has been seen to be clear. -/
theorem mmAllocateSinglePage_grants (s : State) :
    Grants s 1 s.mmAllocateSinglePage.1 s.mmAllocateSinglePage.2 := by
  have hfit : s.FirstFit 1 (s.singleScan s.pageCount 0).found := by
    rw [singleScan_found]
    rcases Nat.eq_zero_or_pos s.pageCount with h0 | hpos
    · rw [h0]
      exact fun i hi => absurd hi (by omega)
    · have := firstFit_find s (n := 1) (fun i _ => singleTest_iff s i) hpos
      rwa [Nat.sub_add_cancel hpos] at this
  rw [State.mmAllocateSinglePage]
  cases hf : (s.singleScan s.pageCount 0).found with
  | none =>
    rw [hf] at hfit
    exact Or.inl ⟨hfit, rfl, rfl⟩
  | some i =>
    rw [hf] at hfit
    refine Or.inr ⟨i, hfit, rfl, by simp, fun q => ?_⟩
    have hiff : q = i ↔ i ≤ q ∧ q < i + 1 := by omega
    simp [hiff]

/-- **`MmAllocateMultiplePages(n)` grants `n` pages**, whenever its scan ends.  The hypotheses
    exclude a request for nothing and one for more than there is, which behave differently;
    `Pmm.Calls` is about those. -/
theorem mmAllocateMultiplePages_grants {s s' : State} {fuel n addr : Nat} (h1 : 1 ≤ n)
    (hn : n ≤ s.pageCount) (h : s.mmAllocateMultiplePages fuel n = some (s', addr)) :
    Grants s n s' addr := by
  have hpc := s.pageCount_lt
  rw [State.mmAllocateMultiplePages] at h
  rw [sub64_of_le hn hpc] at h
  obtain ⟨r, hr, hres⟩ := Option.map_eq_some_iff.mp h
  have hfit : s.FirstFit n r.found :=
    firstFit_of_firstHit hn (multiScan_found s n _ fuel 0 r (by decide)
      (fun _ hk => absurd hk (Nat.not_lt_zero _)) hr)
  cases hf : r.found with
  | none =>
    rw [hf] at hfit
    simp only [hf, Prod.mk.injEq] at hres
    exact Or.inl ⟨hfit, hres.1.symm, hres.2.symm⟩
  | some i =>
    rw [hf] at hfit
    simp only [hf, Prod.mk.injEq] at hres
    obtain ⟨rfl, rfl⟩ := hres
    refine Or.inr ⟨i, hfit, rfl, by simp, fun q => ?_⟩
    have hib := hfit.1
    rw [used_markWindow i n 0 _ q (by omega), used_setBitmap, ← Bool.or_assoc, ← Bool.decide_or]
    congr 2
    apply propext
    omega

/-- **Totality**: for a request of at most `pageCount` pages the scan ends.  The fuel is one turn
    for each page, and one for the test that ends the loop. -/
theorem mmAllocateMultiplePages_total (s : State) {fuel n : Nat} (h1 : 1 ≤ n)
    (hn : n ≤ s.pageCount) (hfuel : s.pageCount < fuel) :
    ∃ s' addr, s.mmAllocateMultiplePages fuel n = some (s', addr) := by
  have hpc := s.pageCount_lt
  rw [State.mmAllocateMultiplePages]
  rw [sub64_of_le hn hpc]
  obtain ⟨r, hr⟩ := multiScan_total s n (T := s.pageCount - n) (by omega) fuel 0 (Nat.zero_le _)
    (by omega)
  simp only [hr, Option.map_some]
  cases r.found with
  | some i => exact ⟨_, _, rfl⟩
  | none => exact ⟨_, _, rfl⟩

/-- A granted page is neither `NULL` nor outside the bitmap.  The first is the guard against a null
    address, the second the bound of the loop. -/
theorem State.FirstFit.bounds {s : State} {n i : Nat} (h : s.FirstFit n (some i)) :
    1 ≤ i ∧ i + n ≤ s.pageCount := by
  refine ⟨?_, h.1⟩
  rcases Nat.eq_zero_or_pos i with rfl | hpos
  · exact absurd (by decide) h.2.1.1
  · exact hpos

end Nearlands.Pmm

/-
  Which bits `MmAllocateMultiplePages` reads.

  The bound of its scan is `pageCount - amount`, a difference of `u64` that the loop compares with
  `<=`.  For a request between 1 page and `pageCount` the last start is the right one and no window
  reaches past the bitmap.  For 0 pages the scan goes on to bit `pageCount`; for more than there
  are the difference wraps and nothing stops the scan but a window it accepts, which then lies
  past the end.  And a window may be accepted although it holds used pages (`State.Accepts`).

  `Bounded` is what one would expect of every call, `bounded_iff` the requests that get it.
-/
import Nearlands.Pmm.Runs

namespace Nearlands.Pmm

open Nearlands.Lib

variable {s : State} {n T : Nat}

/-- The `n` pages from `i` on are pages of the bitmap, page 0 not among them, and clear.  All pages
    of the run are looked at, as the code does not. -/
def State.ClearRun (s : State) (n i : Nat) : Prop :=
  1 ≤ i ∧ i + n ≤ s.pageCount ∧ ∀ k, i ≤ k → k < i + n → s.used k = false

/-- The call ends, has read only bits of the bitmap, and where no run is clear it returns `NULL` and
    changes nothing.  A request that can be met is not asked to be met well here; that is
    `SafeGrant`. -/
def Bounded (s : State) (n : Nat) : Prop :=
  ∃ fuel r, s.multiScan n (sub64 s.pageCount n) fuel 0 = some r ∧
    (∀ b ∈ r.reads, b < s.pageCount) ∧
    ((¬ ∃ i, s.ClearRun n i) → s.mmAllocateMultiplePages fuel n = some (s, null))

/-! ## The reads of a turn -/

/-- The inner loop reads bits of its window only. -/
theorem mem_windowScan (s : State) (i : Nat) : ∀ n j, ∀ b ∈ (s.windowScan i n j).1,
    ∃ t, t < n ∧ b = w64 (i + (j + t)) := by
  intro n
  induction n with
  | zero => intro j b hb; exact absurd hb List.not_mem_nil
  | succ n ih =>
    intro j b hb
    rw [State.windowScan] at hb
    have hfirst : b = w64 (i + j) → ∃ t, t < n + 1 ∧ b = w64 (i + (j + t)) :=
      fun h => ⟨0, Nat.succ_pos n, h⟩
    by_cases hset : s.getBitInBitmap (w64 (i + j)) = SET
    · simp only [hset, if_true] at hb
      exact hfirst (List.mem_singleton.mp hb)
    · simp only [if_neg hset] at hb
      rcases List.mem_cons.mp hb with hb | hb
      · exact hfirst hb
      · obtain ⟨t, ht, hbt⟩ := ih (j + 1) b hb
        exact ⟨t + 1, Nat.succ_lt_succ ht, by rw [hbt]; congr 1; omega⟩

/-- When it accepts the window it has read all of it.  So a window past the end of the bitmap is not
    accepted without reading there. -/
theorem windowScan_reads_all (s : State) (i : Nat) : ∀ n j, (s.windowScan i n j).2 = true →
    ∀ t, t < n → w64 (i + (j + t)) ∈ (s.windowScan i n j).1 := by
  intro n
  induction n with
  | zero => intro j _ t ht; exact absurd ht (Nat.not_lt_zero t)
  | succ n ih =>
    intro j hok t ht
    rw [State.windowScan] at hok ⊢
    by_cases hset : s.getBitInBitmap (w64 (i + j)) = SET
    · simp only [hset, if_true] at hok
      exact absurd hok (by decide)
    · simp only [if_neg hset] at hok ⊢
      cases t with
      | zero => exact List.mem_cons_self
      | succ t =>
        have hrest := ih (j + 1) hok t (Nat.lt_of_succ_lt_succ ht)
        rw [show j + 1 + t = j + (t + 1) by omega] at hrest
        exact List.mem_cons_of_mem _ hrest

/-- A turn reads the bit of its start. -/
theorem start_mem_turnReads (s : State) (n i : Nat) : i ∈ s.turnReads n i := by
  rw [State.turnReads]
  split
  · exact List.mem_cons_self
  · exact List.mem_singleton.mpr rfl

/-- A turn reads its start and bits of its window. -/
theorem mem_turnReads {i b : Nat} (hb : b ∈ s.turnReads n i) :
    b = i ∨ ∃ t, t < n ∧ b = w64 (i + t) := by
  rw [State.turnReads] at hb
  split at hb
  · rcases List.mem_cons.mp hb with hb | hb
    · exact Or.inl hb
    · obtain ⟨t, ht, hbt⟩ := mem_windowScan s i n 0 b hb
      rw [Nat.zero_add] at hbt
      exact Or.inr ⟨t, ht, hbt⟩
  · exact Or.inl (List.mem_singleton.mp hb)

/-- A turn that accepts its start has read the whole window. -/
theorem window_mem_turnReads {i : Nat} (h : s.multiTest n i = true) {t : Nat} (ht : t < n) :
    w64 (i + t) ∈ s.turnReads n i := by
  rw [State.multiTest, Bool.and_eq_true] at h
  have hall := windowScan_reads_all s i n 0 h.2 t ht
  rw [Nat.zero_add] at hall
  rw [State.turnReads, if_pos h.1]
  exact List.mem_cons_of_mem _ hall

/-! ## The reads of a call -/

/-- For a request of 1 to `pageCount` pages no read is past the bitmap.  Starts and windows end
    below `pageCount`, because the bound is the true difference. -/
theorem multiScan_reads (hn : 1 ≤ n) (hT : T + n = s.pageCount) :
    ∀ fuel i r, i ≤ T + 1 → s.multiScan n T fuel i = some r → ∀ b ∈ r.reads, b < s.pageCount := by
  have hpc := s.pageCount_lt
  intro fuel
  induction fuel with
  | zero => intro i r _ h; exact nomatch h
  | succ fuel ih =>
    intro i r hi h b hb
    rw [multiScan_succ] at h
    by_cases hle : i ≤ T
    · rw [if_pos hle] at h
      have hturn : b ∈ s.turnReads n i → b < s.pageCount := by
        intro hb
        rcases mem_turnReads hb with rfl | ⟨t, ht, rfl⟩
        · omega
        · rw [w64_of_lt (by omega)]
          omega
      split at h
      · rw [Option.some.injEq] at h
        rw [← h] at hb
        exact hturn hb
      · obtain ⟨r', hr', rfl⟩ := Option.map_eq_some_iff.mp h
        rw [w64_of_lt (by omega)] at hr'
        rcases List.mem_append.mp hb with hb | hb
        · exact hturn hb
        · exact ih (i + 1) r' (by omega) hr' b hb
    · rw [if_neg hle, Option.some.injEq] at h
      rw [← h] at hb
      exact absurd hb List.not_mem_nil

/-- A scan whose bound is not below `pageCount` reads past the bitmap, unless it accepts a window
    that ends before.  Only an accepted window ends the scan, and it has been read to its end. -/
theorem multiScan_stays (hT : s.pageCount ≤ T) :
    ∀ fuel i r, i ≤ s.pageCount → s.multiScan n T fuel i = some r →
      (∀ b ∈ r.reads, b < s.pageCount) →
      ∃ j, j < s.pageCount ∧ s.multiTest n j = true ∧ ∀ t, t < n → w64 (j + t) < s.pageCount := by
  have hpc := s.pageCount_lt
  intro fuel
  induction fuel with
  | zero => intro i r _ h; exact nomatch h
  | succ fuel ih =>
    intro i r hi h hreads
    rw [multiScan_succ, if_pos (Nat.le_trans hi hT)] at h
    cases htest : s.multiTest n i with
    | true =>
      rw [htest, if_pos rfl, Option.some.injEq] at h
      rw [← h] at hreads
      exact ⟨i, hreads i (start_mem_turnReads s n i), htest,
        fun t ht => hreads _ (window_mem_turnReads htest ht)⟩
    | false =>
      rw [htest, if_neg (by decide)] at h
      obtain ⟨r', hr', rfl⟩ := Option.map_eq_some_iff.mp h
      have hlt := hreads i (List.mem_append_left _ (start_mem_turnReads s n i))
      rw [w64_of_lt (by omega)] at hr'
      exact ih (i + 1) r' hlt hr' fun b hb => hreads b (List.mem_append_right _ hb)

/-- For 0 pages the scan ends at the first clear page, and reads nothing behind it.  A window of no
    pages is always accepted. -/
theorem multiScan_zero {j : Nat} (hj : j ≤ T) (hj64 : j < 2 ^ 64) (hclear : s.multiTest 0 j = true) :
    ∀ d i, i + d = j → ∃ fuel r, s.multiScan 0 T fuel i = some r ∧ ∀ b ∈ r.reads, b ≤ j := by
  have hturn : ∀ i, i ≤ j → ∀ b ∈ s.turnReads 0 i, b ≤ j := by
    intro i hi b hb
    rcases mem_turnReads hb with rfl | ⟨t, ht, -⟩
    · exact hi
    · exact absurd ht (Nat.not_lt_zero t)
  intro d
  induction d with
  | zero =>
    intro i hi
    obtain rfl : i = j := hi
    refine ⟨1, ⟨s.turnReads 0 i, some i⟩, ?_, hturn i (Nat.le_refl i)⟩
    rw [multiScan_succ, if_pos hj, if_pos hclear]
  | succ d ih =>
    intro i hi
    obtain ⟨fuel, r, hr, hreads⟩ := ih (i + 1) (by omega)
    refine ⟨fuel + 1, ?_⟩
    rw [multiScan_succ, if_pos (by omega)]
    split
    · exact ⟨_, rfl, hturn i (by omega)⟩
    · rw [w64_of_lt (by omega), hr]
      refine ⟨_, rfl, fun b hb => ?_⟩
      rcases List.mem_append.mp hb with hb | hb
      · exact hturn i (by omega) b hb
      · exact hreads b hb

/-! ## Which requests are bounded -/

/-- The page is clear and has an address that is not `NULL`. -/
theorem multiTest_zero_iff (s : State) (i : Nat) : s.multiTest 0 i = true ↔
    getAddressFromPageLocation i ≠ null ∧ s.used i = false := by
  rw [State.multiTest, show (s.windowScan i 0 0).2 = true from rfl, Bool.and_true, State.singleTest,
    Bool.and_eq_true, decide_eq_true_eq, decide_eq_true_eq, getBitInBitmap_eq_CLEAR]
  exact and_comm

/-- A request for 0 pages stays inside the bitmap when a page below `pageCount` can be had.
    Otherwise the scan reads bit `pageCount`, since its bound is not below that. -/
theorem bounded_zero_iff : Bounded s 0 ↔
    ∃ i, i < s.pageCount ∧ getAddressFromPageLocation i ≠ null ∧ s.used i = false := by
  have hpc := s.pageCount_lt
  have hT : sub64 s.pageCount 0 = s.pageCount := sub64_of_le (Nat.zero_le _) hpc
  constructor
  · rintro ⟨fuel, r, hr, hreads, -⟩
    rw [hT] at hr
    obtain ⟨j, hj, htest, -⟩ := multiScan_stays (Nat.le_refl _) fuel 0 r (Nat.zero_le _) hr hreads
    exact ⟨j, hj, (multiTest_zero_iff s j).mp htest⟩
  · rintro ⟨i, hi, hpage⟩
    obtain ⟨fuel, r, hr, hreads⟩ := multiScan_zero (T := s.pageCount) (by omega) (by omega)
      ((multiTest_zero_iff s i).mpr hpage) i 0 (Nat.zero_add i)
    refine ⟨fuel, r, by rw [hT]; exact hr, fun b hb => ?_, fun hno => ?_⟩
    · exact Nat.lt_of_le_of_lt (hreads b hb) hi
    · -- no pages are a clear run anywhere
      refine absurd ⟨1, Nat.le_refl 1, by omega, fun k h1 h2 => ?_⟩ hno
      omega

/-- A request for more pages than there are always leaves the bitmap.  The bound has wrapped; and a
    window of more pages than there are cannot end inside. -/
theorem not_bounded_of_gt (hn : s.pageCount < n) (hlt : n < 2 ^ 64) : ¬ Bounded s n := by
  rintro ⟨fuel, r, hr, hreads, -⟩
  have hT : s.pageCount ≤ sub64 s.pageCount n := by
    rw [sub64]
    omega
  obtain ⟨j, hj, -, hwin⟩ := multiScan_stays hT fuel 0 r (Nat.zero_le _) hr hreads
  -- the window holds page `pageCount`
  have hend := hwin (s.pageCount - j) (by omega)
  rw [show j + (s.pageCount - j) = s.pageCount by omega, w64_of_lt s.pageCount_lt] at hend
  exact absurd hend (Nat.lt_irrefl _)

/-- Any other request is refused properly when no window is accepted that should not be.  What is
    left is the flaw of the test: a window that is accepted although no run is clear. -/
theorem bounded_pos_iff (h1 : 1 ≤ n) (hn : n ≤ s.pageCount) :
    Bounded s n ↔ s.FirstFit n none ∨ ∃ i, s.ClearRun n i := by
  have hpc := s.pageCount_lt
  constructor
  · rintro ⟨fuel, r, -, -, hnull⟩
    by_contra hno
    obtain ⟨hfit, hrun⟩ := not_or.mp hno
    rcases mmAllocateMultiplePages_grants h1 hn (hnull hrun) with ⟨hnone, -, -⟩ | ⟨i, hi, haddr, -⟩
    · exact hfit hnone
    · exact hi.2.1.1 haddr.symm
  · intro hcond
    obtain ⟨s', addr, hres⟩ := mmAllocateMultiplePages_total s h1 hn (Nat.lt_succ_self _)
    obtain ⟨r, hr⟩ := multiScan_total s n (T := s.pageCount - n) (by omega) (s.pageCount + 1) 0
      (Nat.zero_le _) (by omega)
    refine ⟨s.pageCount + 1, r, by rw [sub64_of_le hn hpc]; exact hr,
      multiScan_reads h1 (by omega) _ 0 r (Nat.zero_le _) hr, fun hno => ?_⟩
    have hnone := hcond.resolve_right hno
    rw [hres]
    rcases mmAllocateMultiplePages_grants h1 hn hres with ⟨-, rfl, rfl⟩ | ⟨i, hi, -⟩
    · rfl
    · exact absurd hi.2.1 (hnone i hi.1)

/-- **Which requests are bounded.**  `MmAllocateMultiplePages(n)` ends, reads bits of the bitmap
    only, and refuses properly where no `n` pages in a row are clear, exactly when `n` is 0 and some
    page can be had, or `n` is at most `pageCount` and there is either a clear run or no window that
    the test accepts.  The two parts have different reasons.  For 0 the bound of the loop is one too
    large, which shows when nothing before it ends the scan; for more than `pageCount` the
    difference of the bound wraps; and in between the reads are right, but the test of the window
    lets used pages pass. -/
theorem bounded_iff (hn : n < 2 ^ 64) : Bounded s n ↔
    (n = 0 ∧ ∃ i, i < s.pageCount ∧ getAddressFromPageLocation i ≠ null ∧ s.used i = false) ∨
    (1 ≤ n ∧ n ≤ s.pageCount ∧ (s.FirstFit n none ∨ ∃ i, s.ClearRun n i)) := by
  rcases Nat.eq_zero_or_pos n with rfl | h1
  · rw [bounded_zero_iff]
    constructor
    · exact fun h => Or.inl ⟨rfl, h⟩
    · rintro (⟨-, h⟩ | ⟨h, -⟩)
      · exact h
      · exact absurd h (by decide)
  · rcases Nat.lt_or_ge s.pageCount n with hgt | hle
    · constructor
      · exact fun h => absurd h (not_bounded_of_gt hgt hn)
      · rintro (⟨h, -⟩ | ⟨-, h, -⟩)
        · omega
        · omega
    · rw [bounded_pos_iff h1 hle]
      constructor
      · exact fun h => Or.inr ⟨h1, hle, h⟩
      · rintro (⟨h, -⟩ | ⟨-, -, h⟩)
        · omega
        · exact h

/-- Three of sixteen clear pages, and one more than there are. -/
theorem bounded_clear16 : Bounded clear16 3 ∧ ¬ Bounded clear16 17 := by
  constructor
  · refine (bounded_iff (by decide)).mpr (Or.inr ⟨by decide, by decide, Or.inr ⟨1, ?_⟩⟩)
    exact ⟨Nat.le_refl 1, by decide, fun _ _ _ => by simp [State.used, clear16]⟩
  · intro h
    rcases (bounded_iff (by decide)).mp h with ⟨h, -⟩ | ⟨-, h, -⟩
    · exact absurd h (by decide)
    · exact absurd h (by decide)

/-- Asked for seventeen pages of sixteen, the allocator reads on past the bitmap and hands out
    what it finds there. -/
theorem seventeen_of_sixteen : ¬ Bounded clear16 17 ∧
    (clear16.mmAllocateMultiplePages 3 17).map Prod.snd = some 0x1000 :=
  ⟨not_bounded_of_gt (by decide) (by decide), by decide⟩

end Nearlands.Pmm

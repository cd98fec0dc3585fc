/-
  `MmReallocatePages` (`mm/amd64pc/pmm.c`).

  A reallocation takes a new run, clears it, copies the old run into it and frees the old run.  The
  copy is of all the pages of the OLD run, whatever the size of the new one.  So it does what it is
  for when the new run is at least as large (`realloc_moves_iff`), and a run that shrinks is copied
  over what lies behind the new one (`realloc_overwrites_next_run`).

  The bitmap is the allocator's own; the memory here is everything else, and `writes` are the
  accesses of `memset` and `memcpy`.
-/
import Nearlands.Pmm.Calls
import Nearlands.Lib.Bytes

namespace Nearlands.Pmm

open Nearlands.Lib

/-! ## The program -/

/-- What a call of `MmReallocatePages` leaves and returns.  The writes are newest first.  The state
    of the allocator and the memory of everybody else are separate, since the bitmap is not where
    clients may write. -/
structure Reallocated where
  pmm : State
  mem : Bytes
  writes : List Span
  newMemory : Nat

/-- `MmReallocatePages(memory, prevSizeInPages, newSizeInPages)`; `none` when the scan for the new
    run does not end within `fuel`.  The size of the copy is that of the old run. -/
def State.mmReallocatePages (fuel : Nat) (s : State) (mem : Bytes)
    (memory prevSizeInPages newSizeInPages : Nat) : Option Reallocated :=
  (s.mmAllocateMultiplePages fuel newSizeInPages).map fun r =>
    let s := r.1
    let newMemory := r.2
    if newMemory = null then ⟨s, mem, [], null⟩
    else
      let zeroed := w64 (newSizeInPages * pageSize)
      let mem := mem.memset newMemory 0 zeroed
      let writes := [⟨newMemory, zeroed⟩]
      if memory ≠ null then
        let copied := w64 (prevSizeInPages * pageSize)
        let mem := mem.memcpy newMemory memory copied
        let writes := ⟨newMemory, copied⟩ :: writes
        let s := (s.mmFreeMultiplePages memory prevSizeInPages).1
        ⟨s, mem, writes, newMemory⟩
      else ⟨s, mem, writes, newMemory⟩

/-! ## What it is for -/

/-- The pages of the old run; `NULL` has none.  The source tests the pointer and not the size. -/
def oldPages (memory prev : Nat) : Nat := if memory = null then 0 else prev

/-- The old run has moved: its first pages are in the new run and the rest of that is zero, the old
    run and nothing else has been freed since the new one was taken, and only the new run was
    written.  That the write stays inside the new run is part of it: without `within` the rest would
    be true of a copy that spoils the neighbour as well. -/
structure Moved (fuel : Nat) (s : State) (mem : Bytes) (memory prev new : Nat) (r : Reallocated) :
    Prop where
  copied : ∀ j, j < min (oldPages memory prev) new * pageSize →
    r.mem (r.newMemory + j) = mem (memory + j)
  cleared : ∀ j, min (oldPages memory prev) new * pageSize ≤ j → j < new * pageSize →
    r.mem (r.newMemory + j) = 0
  freed : ∃ s₁, s.mmAllocateMultiplePages fuel new = some (s₁, r.newMemory) ∧
    ∀ p, r.pmm.used p = (!decide ((pagesOf (memory, oldPages memory prev)).Has p) && s₁.used p)
  within : ∀ w ∈ r.writes, w.Inside (runRegion (r.newMemory, new))

/-- Nothing has happened.  In particular the old run is still there, so the caller has lost
    nothing. -/
structure Untouched (s : State) (mem : Bytes) (r : Reallocated) : Prop where
  pmm : r.pmm = s
  mem : r.mem = mem
  writes : r.writes = []

/-- A reallocation either returned `NULL` and did nothing, or moved the run.  It is a disjunction
    over the answer and not over the size. -/
def Moves (fuel : Nat) (s : State) (mem : Bytes) (memory prev new : Nat) (r : Reallocated) : Prop :=
  (r.newMemory = null ∧ Untouched s mem r) ∨
    (r.newMemory ≠ null ∧ Moved fuel s mem memory prev new r)

/-! ## What it does -/

section

variable {fuel memory prev new addr : Nat} {s s₁ : State} {mem : Bytes} {live : List (Nat × Nat)}

/-- The bytes of a run, as a number that does not wrap.  A run ends in the address space, so its
    size in bytes is a word. -/
theorem run_bytes (h : Fresh live new addr) : w64 (new * pageSize) = new * pageSize := by
  have hfits := h.fits
  rw [w64_of_lt (by rw [pageSize]; omega)]

/-- Without an old run: the new one is zero. -/
theorem moved_null (halloc : s.mmAllocateMultiplePages fuel new = some (s₁, addr))
    (hfresh : Fresh live new addr) :
    Moved fuel s mem null prev new
      ⟨s₁, mem.memset addr 0 (new * pageSize), [⟨addr, new * pageSize⟩], addr⟩ where
  copied := by
    intro j hj
    rw [oldPages, if_pos rfl, Nat.zero_min, Nat.zero_mul] at hj
    exact absurd hj (Nat.not_lt_zero j)
  cleared := fun j _ hj => Bytes.memset_get mem 0 (Nat.le_of_lt hfresh.fits) j hj
  freed := by
    refine ⟨s₁, halloc, fun p => ?_⟩
    rw [oldPages, if_pos rfl, decide_eq_false (by unfold pagesOf Region.Has; dsimp only; omega)]
    rfl
  within := by
    intro w hw
    obtain rfl := List.mem_singleton.mp hw
    exact Span.inside_prefix (Nat.le_refl _) (Nat.le_of_lt hfresh.fits)

/-- A run copied over zeros, which are more: what is in front and what is behind.  The two areas do
    not overlap, since the new run is apart from the old one. -/
theorem copied_over_zeros (mem : Bytes) {n k : Nat} (hk : k ≤ n) (hnew : addr + n ≤ 2 ^ 64)
    (hold : memory + k ≤ 2 ^ 64) (hapart : Region.Apart ⟨addr, n⟩ ⟨memory, k⟩) :
    (∀ j, j < k → (mem.memset addr 0 n).memcpy addr memory k (addr + j) = mem (memory + j)) ∧
    ∀ j, k ≤ j → j < n → (mem.memset addr 0 n).memcpy addr memory k (addr + j) = 0 := by
  have hfront : Region.Within ⟨addr, k⟩ ⟨addr, n⟩ := ⟨Nat.le_refl addr, Nat.add_le_add_left hk addr⟩
  constructor
  · intro j hj
    have hcopy := Bytes.memcpy_get (mem.memset addr 0 n) (by omega) hold
      (hapart.within hfront ⟨Nat.le_refl _, Nat.le_refl _⟩) j hj
    have hsrc : ¬ Region.Has ⟨addr, n⟩ (memory + j) :=
      hapart.symm.not_has ⟨Nat.le_add_right memory j, Nat.add_lt_add_left hj memory⟩
    rw [hcopy]
    exact Bytes.memset_sameOff mem 0 (Span.inside_prefix (Nat.le_refl n) hnew) _ hsrc
  · intro j hkj hjn
    have hout : ¬ Region.Has ⟨addr, k⟩ (addr + j) := fun h => Nat.not_lt.mpr hkj
      (Nat.lt_of_add_lt_add_left h.2)
    have hsame := Bytes.memcpy_sameOff (mem.memset addr 0 n) memory
      (Span.inside_prefix (Nat.le_refl k) (by omega)) (addr + j) hout
    rw [hsame]
    exact Bytes.memset_get mem 0 hnew j hjn

/-- With an old run that fits: it is copied over the zeros.  The old run is freed with the size it
    was taken with, and nothing else is. -/
theorem moved_run (halloc : s.mmAllocateMultiplePages fuel new = some (s₁, addr))
    (hfresh : Fresh live new addr) (hmem : (memory, prev) ∈ live) (hold : Fresh [] prev memory)
    (hle : prev ≤ new) :
    Moved fuel s mem memory prev new
      ⟨(s₁.mmFreeMultiplePages memory prev).1,
        (mem.memset addr 0 (new * pageSize)).memcpy addr memory (prev * pageSize),
        [⟨addr, prev * pageSize⟩, ⟨addr, new * pageSize⟩], addr⟩ := by
  have hbytes : prev * pageSize ≤ new * pageSize := Nat.mul_le_mul_right _ hle
  have hnew : addr + new * pageSize ≤ 2 ^ 64 := Nat.le_of_lt hfresh.fits
  have hprev : memory + prev * pageSize ≤ 2 ^ 64 := Nat.le_of_lt hold.fits
  have hall : oldPages memory prev = prev := if_neg hold.nonnull
  obtain ⟨hfront, hback⟩ := copied_over_zeros mem hbytes hnew hprev (hfresh.apart (memory, prev) hmem)
  constructor
  · intro j hj
    rw [hall, Nat.min_eq_left hle] at hj
    exact hfront j hj
  · intro j hle' hlt
    rw [hall, Nat.min_eq_left hle] at hle'
    exact hback j hle' hlt
  · refine ⟨s₁, halloc, ?_⟩
    rw [hall]
    refine (mmFreeMultiplePages_releases s₁ memory prev).2 ?_
    show memory / pageSize + prev ≤ 2 ^ 64
    rw [pageSize] at hprev ⊢
    omega
  · intro w hw
    rcases List.mem_cons.mp hw with rfl | hw
    · exact Span.inside_prefix hbytes hnew
    · obtain rfl := List.mem_singleton.mp hw
      exact Span.inside_prefix (Nat.le_refl _) hnew

/-- A run that shrinks is copied beyond the end of the new one.  The last byte of the copy lies
    behind the end of the new run. -/
theorem shrink_writes_outside (hfresh : Fresh live new addr) (hlt : new < prev) :
    ¬ Span.Inside ⟨addr, prev * pageSize⟩ (runRegion (addr, new)) := by
  intro hinside
  have hfits := hfresh.fits
  obtain ⟨-, hend⟩ := hinside (new * pageSize) (Nat.mul_lt_mul_of_pos_right hlt (by decide))
  rw [w64_of_lt hfits] at hend
  exact absurd hend (Nat.lt_irrefl _)

/-- **A reallocation does what it is for unless the run shrinks.**  The allocator answers `NULL` or
    a run that overlaps none in use; the old run is one of these.  The third alternative is a
    refusal, in terms of the bitmap: no start passes the test.  Where the run shrinks and the
    allocator does not refuse, `memcpy` writes `prev - new` pages behind the new run, whoever has
    them. -/
theorem realloc_moves_iff (halloc : s.mmAllocateMultiplePages fuel new = some (s₁, addr))
    (hanswer : addr = null ∨ Fresh live new addr)
    (hlive : memory = null ∨ (memory, prev) ∈ live ∧ Fresh [] prev memory) :
    ∃ r, s.mmReallocatePages fuel mem memory prev new = some r ∧
      (Moves fuel s mem memory prev new r ↔
        memory = null ∨ prev ≤ new ∨ ∀ k, k ≤ sub64 s.pageCount new → ¬ s.Passes new k) := by
  rw [State.mmReallocatePages, halloc, Option.map_some, ← mmAllocateMultiplePages_null_iff halloc]
  refine ⟨_, rfl, ?_⟩
  dsimp only
  rcases hanswer with hnull | hfresh
  · have hsame : s₁ = s := by
      rcases mmAllocateMultiplePages_takes halloc with ⟨-, hs, -⟩ | ⟨_, -, hne, -⟩
      · exact hs
      · exact absurd hnull hne
    rw [if_pos hnull]
    exact ⟨fun _ => Or.inr (Or.inr hnull), fun _ => Or.inl ⟨rfl, hsame, rfl, rfl⟩⟩
  rw [if_neg hfresh.nonnull, run_bytes hfresh]
  rcases hlive with rfl | ⟨hmem, hold⟩
  · rw [if_neg (by simp)]
    exact ⟨fun _ => Or.inl rfl, fun _ => Or.inr ⟨hfresh.nonnull, moved_null halloc hfresh⟩⟩
  rw [if_pos hold.nonnull, run_bytes hold]
  constructor
  · rintro (⟨hnull, -⟩ | ⟨-, hmoved⟩)
    · exact absurd hnull hfresh.nonnull
    · refine Or.inr (Or.inl (Nat.le_of_not_lt fun hlt => ?_))
      exact shrink_writes_outside hfresh hlt (hmoved.within _ List.mem_cons_self)
  · rintro (hnull | hle | hnull)
    · exact absurd hnull hold.nonnull
    · exact Or.inr ⟨hfresh.nonnull, moved_run halloc hfresh hmem hold hle⟩
    · exact absurd hnull hfresh.nonnull

end

/-! ## A run of two pages and its neighbour -/

/-- 24 pages: a run of two at page 1, page 3 free, a run of one at page 4. -/
def twoRuns : State := ⟨24, 24, 3, 0, fun i => if i = 0 then 0b10110 else 0, 3, by decide⟩

def twoRunsHeld : List (Nat × Nat) := [(0x1000, 2), (0x4000, 1)]

/-- The second page of the first run begins with a 1. -/
def twoRunsMemory : Bytes := fun a => if a = 0x2000 then 1 else 0

/-- The state after an allocation whose answer is known. -/
theorem twoRuns_allocates (n addr : Nat)
    (h : (twoRuns.mmAllocateMultiplePages 25 n).map Prod.snd = some addr) :
    ∃ s₁, twoRuns.mmAllocateMultiplePages 25 n = some (s₁, addr) := by
  obtain ⟨⟨s₁, a⟩, hs, rfl⟩ := Option.map_eq_some_iff.mp h
  exact ⟨s₁, hs⟩

/-- Page 3 is a run of its own. -/
theorem twoRuns_fresh : Fresh twoRunsHeld 1 0x3000 where
  aligned := by decide
  nonnull := by decide
  fits := by decide
  apart := by decide

/-- The second run keeps its size: it moves to page 3. -/
theorem twoRuns_move : ∃ r, twoRuns.mmReallocatePages 25 twoRunsMemory 0x4000 1 1 = some r ∧
    Moves 25 twoRuns twoRunsMemory 0x4000 1 1 r := by
  obtain ⟨s₁, halloc⟩ := twoRuns_allocates 1 0x3000 (by decide)
  have hheld : (0x4000, 1) ∈ twoRunsHeld ∧ Fresh [] 1 0x4000 :=
    ⟨by decide, by decide, by decide, by decide, fun _ h => absurd h List.not_mem_nil⟩
  obtain ⟨r, hr, hiff⟩ : ∃ r, twoRuns.mmReallocatePages 25 twoRunsMemory 0x4000 1 1 = some r ∧
      (Moves 25 twoRuns twoRunsMemory 0x4000 1 1 r ↔ _) :=
    realloc_moves_iff halloc (Or.inr twoRuns_fresh) (Or.inr hheld)
  exact ⟨r, hr, hiff.mpr (Or.inr (Or.inl (by decide)))⟩

/-- **A run that shrinks overwrites its neighbour**: the first run goes from two pages to one, its
    new page is page 3, and the run of page 4, which is none of its business, gets the second page
    of the old one. -/
theorem realloc_overwrites_next_run :
    Fresh twoRunsHeld 1 0x3000 ∧
    ∃ r, twoRuns.mmReallocatePages 25 twoRunsMemory 0x1000 2 1 = some r ∧ r.newMemory = 0x3000 ∧
      r.mem 0x4000 ≠ twoRunsMemory 0x4000 := by
  obtain ⟨s₁, halloc⟩ := twoRuns_allocates 1 0x3000 (by decide)
  refine ⟨twoRuns_fresh, ?_⟩
  rw [State.mmReallocatePages, halloc, Option.map_some]
  refine ⟨_, rfl, ?_⟩
  dsimp only
  rw [if_neg (by decide), if_pos (by decide)]
  refine ⟨rfl, ?_⟩
  have hcopy : (twoRunsMemory.memset 0x3000 0 0x1000).memcpy 0x3000 0x1000 0x2000 (0x3000 + 0x1000) =
      twoRunsMemory.memset 0x3000 0 0x1000 (0x1000 + 0x1000) :=
    Bytes.memcpy_get _ (by decide) (by decide) (by decide) 0x1000 (by decide)
  have hkept : twoRunsMemory.memset 0x3000 0 0x1000 0x2000 = 1 :=
    Bytes.memset_sameOff _ 0 (Span.inside_prefix (Nat.le_refl 0x1000) (by decide)) 0x2000 (by decide)
  have hone : (twoRunsMemory.memset 0x3000 0 0x1000).memcpy 0x3000 0x1000 0x2000 0x4000 = 1 :=
    hcopy.trans hkept
  rw [show w64 (1 * pageSize) = 0x1000 from rfl, show w64 (2 * pageSize) = 0x2000 from rfl]
  dsimp only
  rw [hone]
  decide

end Nearlands.Pmm

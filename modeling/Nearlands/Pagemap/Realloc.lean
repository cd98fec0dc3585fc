/-
  Out of memory, with the page map.

  `MmAllocateMultiplePages` of the page map returns 1 when it finds no run, and its callers compare
  with `NULL`.  So `MmReallocatePages` (`mm/amd64pc/pmm.c`) takes 1 for the address of a new run: it
  clears the bytes from there on, copies the old run over them and frees it.  The failure is never
  reported as the callers expect (`out_of_memory`).

  The map is the allocator's own; the memory here is everything else, and `writes` are the accesses
  of `memset` and `memcpy`.
-/
import Nearlands.Lib.Bytes
import Nearlands.Pagemap.Runs

namespace Nearlands.Pagemap

open Nearlands.Lib

/-- What a call of `MmReallocatePages` leaves and returns.  The writes are newest first. -/
structure Reallocated where
  pmm : State
  mem : Bytes
  writes : List Span
  newMemory : Nat

/-- `MmReallocatePages(memory, prevSizeInPages, newSizeInPages)`.  It does not return when the
    allocation does not.  The result of the free is not looked at. -/
def State.mmReallocatePages (s : State) (mem : Bytes)
    (memory prevSizeInPages newSizeInPages : Nat) : Option Reallocated :=
  (s.mmAllocateMultiplePages newSizeInPages).map fun r =>
    let s := r.1
    let newMemory := r.2
    if newMemory = null then ⟨s, mem, [], null⟩
    else
      let zeroed := w64 (newSizeInPages * pageSize)
      let mem := mem.memset newMemory 0 zeroed
      let writes := [⟨newMemory, zeroed⟩]
      if memory ≠ null then
        let copied := w64 (prevSizeInPages * pageSize)
        let mem := mem.memcpy newMemory memory copied
        let writes := ⟨newMemory, copied⟩ :: writes
        let s := (s.mmFreeMultiplePages memory prevSizeInPages).1
        ⟨s, mem, writes, newMemory⟩
      else ⟨s, mem, writes, newMemory⟩

/-- `NULL` is returned, and flags and counter are as before. -/
def AllocReports (s : State) (n : Nat) : Prop := s.mmAllocateMultiplePages n = some (s, null)

/-- `NULL` is returned, nothing is written, and flags, counter and memory are as before. -/
def ReallocReports (s : State) (mem : Bytes) (memory prev new : Nat) : Prop :=
  s.mmReallocatePages mem memory prev new = some ⟨s, mem, [], null⟩

/-- No `n` free entries in a row follow each other.  Unlike `State.RunAt` it makes no exception for
    address 0, so that it says what the pages are and not what the search sees. -/
def NoRun (s : State) (n : Nat) : Prop :=
  ¬ ∃ i, i + n ≤ s.pageMapAmount ∧ (∀ k < n, s.isFree (i + k) = true) ∧
    ∀ k, k + 1 < n → s.address (i + (k + 1)) = s.address (i + k) + pageSize

variable {s s' : State} {n memory prev : Nat} {mem : Bytes}

/-- What is taken was free. -/
theorem taken_ne {i : Nat} (hpos : 1 ≤ n) (ht : s.Allocates n i s') : s' ≠ s := by
  rintro rfl
  have hbefore := ht.free 0 hpos
  rw [ht.inside (i + 0) (Nat.le_refl i) (Nat.add_lt_add_left hpos i)] at hbefore
  exact Bool.false_ne_true hbefore

/-- An allocation that does nothing returns 1.  Either an allocation takes a run, and then some flag
    changes, or it returns 1 and not `NULL`. -/
theorem not_allocReports (hpos : 1 ≤ n) (hle : n ≤ s.pageMapAmount) : ¬ AllocReports s n := by
  intro h
  rcases State.alloc_cases hpos hle with ⟨i, heq, ht⟩ | ⟨heq, -⟩
  · rw [AllocReports, heq] at h
    exact taken_ne hpos ht (Prod.mk.inj (Option.some.inj h)).1
  · rw [AllocReports, heq] at h
    exact absurd (Prod.mk.inj (Option.some.inj h)).2 (by decide)

/-- A reallocation that returns `NULL` got it from the allocation.  If the allocation returned
    `NULL`, it did so with the address of a run it took, and the state is not the one before. -/
theorem not_reallocReports (hpos : 1 ≤ n) (hle : n ≤ s.pageMapAmount) :
    ¬ ReallocReports s mem memory prev n := by
  intro h
  obtain ⟨r, halloc, hr⟩ := Option.map_eq_some_iff.mp h
  obtain ⟨s', addr⟩ := r
  dsimp only at hr
  by_cases hnull : addr = null
  · rw [if_pos hnull] at hr
    obtain ⟨rfl, -, -, -⟩ := Reallocated.mk.inj hr
    subst hnull
    exact not_allocReports hpos hle halloc
  · rw [if_neg hnull] at hr
    split at hr
    · exact hnull (Reallocated.mk.inj hr).2.2.2
    · exact hnull (Reallocated.mk.inj hr).2.2.2

/-- In a map of different pages, none of them page 0, an allocation without a run returns 1. -/
theorem alloc_none (hp : Paged s) (hpos : 1 ≤ n) (hle : n ≤ s.pageMapAmount) (hnone : NoRun s n) :
    s.mmAllocateMultiplePages n = some (s, 1) := by
  rcases State.alloc_cases hpos hle with ⟨i, -, ht⟩ | ⟨heq, -⟩
  · refine absurd ⟨i, ht.inMap, ht.free, fun k hk => ?_⟩ hnone
    rw [run_address hp ht.toRunAt ht.inMap _ hk,
      run_address hp ht.toRunAt ht.inMap _ (Nat.lt_of_succ_lt hk), Nat.succ_mul, Nat.add_assoc]
  · exact heq

/-- **Out of memory.**  When there is no run, neither function reports it: not one of the states
    with as many entries lets them return `NULL` and leave everything as it was.  In a map of
    different pages, none of them page 0, they return 1, and a reallocation writes there.  The first
    two parts ask nothing of the map: whatever the entries are, a failure is not reported.  The
    third says what happens instead, in a map as init leaves it. -/
theorem out_of_memory (hpos : 1 ≤ n) (hle : n ≤ s.pageMapAmount) (hnone : NoRun s n) (mem : Bytes)
    (memory prev : Nat) :
    ¬ AllocReports s n ∧ ¬ ReallocReports s mem memory prev n ∧
    (Paged s → s.mmAllocateMultiplePages n = some (s, 1) ∧
      ∃ r, s.mmReallocatePages mem memory prev n = some r ∧ r.newMemory = 1 ∧
        ⟨1, w64 (n * pageSize)⟩ ∈ r.writes) := by
  refine ⟨not_allocReports hpos hle, not_reallocReports hpos hle, fun hp => ?_⟩
  have halloc := alloc_none hp hpos hle hnone
  refine ⟨halloc, ?_⟩
  rw [State.mmReallocatePages, halloc, Option.map_some]
  dsimp only
  rw [if_neg (by decide)]
  refine ⟨_, rfl, ?_⟩
  split
  · exact ⟨rfl, List.mem_cons_of_mem _ List.mem_cons_self⟩
  · exact ⟨rfl, List.mem_cons_self⟩

/-- Three pages, the middle one of them not free. -/
def split : State := ⟨fun i => 0x1000 * (i + 1), fun i => i != 1, 3, 0, three_lt⟩

/-- Two of them are free, but not two in a row. -/
theorem split_noRun : NoRun split 2 := by
  rintro ⟨i, hi, hfree, -⟩
  have h0 := hfree 0 (by decide)
  have h1 := hfree 1 (by decide)
  simp only [split, bne_iff_ne] at hi h0 h1
  omega

/-- Neither function reports that. -/
theorem split_out : ¬ AllocReports split 2 ∧ ¬ ReallocReports split (fun _ => 7) 0x2000 1 2 :=
  have h := out_of_memory (by decide) (by decide) split_noRun (fun _ => 7) 0x2000 1
  ⟨h.1, h.2.1⟩

/-- **The address 1.**  An allocation of two pages returns 1, and a reallocation of the middle page
    writes two pages from there on and gives the middle page back. -/
theorem split_one : NoRun split 2 ∧ split.mmAllocateMultiplePages 2 = some (split, 1) ∧
    split.mmReallocatePages (fun _ => 7) 0x2000 1 2 =
      some ⟨(split.mmFreeMultiplePages 0x2000 1).1,
        (Bytes.memset (fun _ => 7) 1 0 0x2000).memcpy 1 0x2000 0x1000,
        [⟨1, 0x1000⟩, ⟨1, 0x2000⟩], 1⟩ ∧
    (split.mmFreeMultiplePages 0x2000 1).1.isFree 1 = true ∧ ¬ AllocReports split 2 := by
  have halloc : split.mmAllocateMultiplePages 2 = some (split, 1) :=
    State.alloc_of_none (by decide +kernel) (by decide)
  refine ⟨split_noRun, halloc, by rw [State.mmReallocatePages, halloc]; rfl, by decide +kernel, ?_⟩
  rw [AllocReports, halloc]
  exact fun h => absurd (Prod.mk.inj (Option.some.inj h)).2 (by decide)

end Nearlands.Pagemap

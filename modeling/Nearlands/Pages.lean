/-
  The page allocator as its clients see it.

  The heap, the page tables and the entity store take pages from `MmAllocateMultiplePages` and
  `MmAllocateSinglePage` and give them back.  What they rely on is stated here and not more: an
  answer is `NULL` or a run of pages that overlaps no run still held.  Calls are logged, newest
  first, and the runs held are read off the log.
-/
import Nearlands.Types
import Nearlands.Lib.Region

namespace Nearlands

open Nearlands.Lib

/-- A call of the page allocator; an allocation with its answer.  A free names the amount too, since
    the allocator keeps no record of it. -/
inductive PageCall
  | allocate (amount addr : Nat)
  | free (addr amount : Nat)
  deriving DecidableEq, Repr

/-- The runs held after the calls, as (address, pages).  One entry is removed by a free, the first
    that matches; two equal runs are never held together. -/
def held : List PageCall → List (Nat × Nat)
  | [] => []
  | .allocate amount addr :: log => if addr = null then held log else (addr, amount) :: held log
  | .free addr amount :: log => (held log).erase (addr, amount)

/-- What a client holds after an allocation, as (address, amount); `NULL` adds nothing.  It is how a
    step of a client is written down without a case distinction on the answer. -/
def hold (a : Nat × Nat) (live : List (Nat × Nat)) : List (Nat × Nat) :=
  if a.1 = null then live else a :: live

/-- A refused allocation adds nothing. -/
@[simp] theorem hold_null (amount : Nat) (live : List (Nat × Nat)) :
    hold (null, amount) live = live := rfl

/-- One that was granted adds its run. -/
theorem hold_some {a : Nat × Nat} (h : a.1 ≠ null) (live : List (Nat × Nat)) :
    hold a live = a :: live := if_neg h

/-- The bytes of a run.  As a region of bytes, so that the separation of runs and that of what lies
    in them are one notion. -/
def runRegion (a : Nat × Nat) : Region := ⟨a.1, a.2 * pageSize⟩

/-- `addr` is a new run of `amount` pages.  Its end is an address, as the end of every C object
    is: a run that touched `2 ^ 64` would have `NULL` for its end. -/
structure Fresh (runs : List (Nat × Nat)) (amount addr : Nat) : Prop where
  aligned : addr % 0x1000 = 0
  nonnull : addr ≠ null
  fits : addr + amount * 0x1000 < 2 ^ 64
  apart : ∀ r ∈ runs, (runRegion (addr, amount)).Apart (runRegion r)

/-- The answers the page allocator may give: `NULL`, or a new run.  It is a condition on one call:
    after each answer the runs held are others. -/
def Answers (runs : List (Nat × Nat)) (pages : Nat → Nat) : Prop :=
  ∀ amount, pages amount = null ∨ Fresh runs amount (pages amount)

@[simp] theorem held_nil : held [] = [] := rfl

/-- The run of an allocation that was granted stands in front. -/
theorem held_allocate {amount addr : Nat} (h : addr ≠ null) (log : List PageCall) :
    held (.allocate amount addr :: log) = (addr, amount) :: held log := if_neg h

/-- What is held was answered to a request for as many pages.  The log therefore has the request for
    every run, which says how many pages it is. -/
theorem allocate_of_held {r : Nat × Nat} : ∀ {log : List PageCall}, r ∈ held log →
    .allocate r.2 r.1 ∈ log
  | [], h => nomatch h
  | .allocate amount addr :: log, h => by
    by_cases h0 : addr = null
    · subst h0
      exact List.mem_cons_of_mem _ (allocate_of_held h)
    · rw [held_allocate h0] at h
      rcases List.mem_cons.mp h with rfl | h
      · exact List.mem_cons_self
      · exact List.mem_cons_of_mem _ (allocate_of_held h)
  | .free _ _ :: log, h => List.mem_cons_of_mem _ (allocate_of_held (List.mem_of_mem_erase h))

end Nearlands

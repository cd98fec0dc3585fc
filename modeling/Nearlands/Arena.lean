/-
  Arenas (`mm/amd64pc/arena.c`): one piece of heap memory, handed out from the bottom.

  An arena is a record of four fields; the calls it makes to the heap are made by its callers
  here, which pass the answer in (`mem` for an allocation, `status` for a free).
-/
import Nearlands.Types

namespace Nearlands

open Nearlands.Lib

/-- `Arena`.  `used` is the top: what lies below it was handed out. -/
structure Arena where
  base : Nat
  size : Nat
  sizeInpages : Nat
  used : Nat
  deriving DecidableEq, Repr

namespace Arena

/-- All fields zero, as `memset` leaves them. -/
def zero : Arena := ⟨0, 0, 0, 0⟩

/-- `MmCreateArena(arena, size)`, where the heap answers `mem`.  `sizeInpages` is a `u32`.  The
    fields are filled before the answer is looked at, so an arena that was refused its memory has a
    size and no base. -/
def mmCreateArena (arena : Arena) (mem size : Nat) : Arena × NearStatus :=
  let arena := { arena with size, sizeInpages := inPages size % 2 ^ 32, base := mem }
  if mem = null then (arena, .outOfMemory) else ({ arena with used := 0 }, .success)

/-- `MmPushMemoryFromArena(arena, size)`.  The sum is compared after it was made, so it may have
    wrapped.  An arena without a base answers `NULL`, whatever its size. -/
def mmPushMemoryFromArena (arena : Arena) (size : Nat) : Arena × Nat :=
  if arena.base = null then (arena, null)
  else if arena.size < w64 (arena.used + size) then (arena, null)
  else ({ arena with used := w64 (arena.used + size) }, w64 (arena.base + arena.used))

/-- `MmPopMemoryFromArena(arena, size)`.  A pop does not know what was pushed last; it takes bytes
    away from the top. -/
def mmPopMemoryFromArena (arena : Arena) (size : Nat) : Arena :=
  if arena.used ≤ size then { arena with used := 0 } else { arena with used := arena.used - size }

/-- `MmResetArena(arena)`. -/
def mmResetArena (arena : Arena) : Arena := { arena with used := 0 }

/-- `MmDestroyArena(arena)`, where `MmFreeGeneralMemory` returned `status`.  The status is kept in a
    `boolean`, so that `STATUS_SUCCESS`, which is 0, reads as `FALSE`.  The code goes on only where
    the flag is `TRUE`, which is where the heap refused the free. -/
def mmDestroyArena (arena : Arena) (status : NearStatus) : Arena × Bool :=
  let result := !status.nrSuccess
  if result = false then (arena, false)
  else ({ arena with size := 0, sizeInpages := 0, base := 0 }, true)

/-- A fresh arena: its base is what the heap answered, and nothing is used.  It needs no assumption
    on the answer: `NULL` becomes the base as any other. -/
theorem zero_create (mem size : Nat) :
    (zero.mmCreateArena mem size).1 = ⟨mem, size, inPages size % 2 ^ 32, 0⟩ := by
  rw [mmCreateArena]
  dsimp only
  split <;> rfl

variable {arena : Arena} {size : Nat}

/-- What a push that answers a pointer has checked and done.  A push is two tests and an edit; users
    of an arena need nothing else of it. -/
theorem push_cases (h : (arena.mmPushMemoryFromArena size).2 ≠ null) :
    arena.base ≠ null ∧ w64 (arena.used + size) ≤ arena.size ∧
    arena.mmPushMemoryFromArena size =
      ({ arena with used := w64 (arena.used + size) }, w64 (arena.base + arena.used)) := by
  rw [mmPushMemoryFromArena] at h ⊢
  by_cases h0 : arena.base = null
  · rw [if_pos h0] at h
    exact absurd rfl h
  · rw [if_neg h0] at h ⊢
    by_cases hsize : arena.size < w64 (arena.used + size)
    · rw [if_pos hsize] at h
      exact absurd rfl h
    · rw [if_neg hsize]
      exact ⟨h0, by omega, rfl⟩

/-- When a push answers a pointer, in an arena that lies in memory.  The two hypotheses are what the
    creation established and every push keeps; without them the sum of base and top could be 0, and
    the answer would look like a refusal. -/
theorem push_iff (arena : Arena) (size : Nat)
    (hfits : arena.base ≠ null → arena.base + arena.size < 2 ^ 64)
    (hused : arena.used ≤ arena.size) : (arena.mmPushMemoryFromArena size).2 ≠ null ↔
      arena.base ≠ null ∧ w64 (arena.used + size) ≤ arena.size := by
  refine ⟨fun h => ⟨(push_cases h).1, (push_cases h).2.1⟩, fun ⟨hbase, hsize⟩ => ?_⟩
  have hlt := hfits hbase
  rw [mmPushMemoryFromArena, if_neg hbase, if_neg (Nat.not_lt_of_le hsize)]
  show w64 (arena.base + arena.used) ≠ null
  rw [w64_of_lt (by omega)]
  rw [null] at hbase ⊢
  omega

end Arena

end Nearlands

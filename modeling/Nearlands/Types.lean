/-
  What every part of the kernel shares: status codes, the null pointer, pages, and the memory
  map the loader hands over.

  Pointers and `u64` values are naturals below `2 ^ 64` (see `Nearlands.Lib.Word`).
-/
import Nearlands.Lib.Word

namespace Nearlands

open Nearlands.Lib

/-- `NearStatus`, in the order of the source.  Most of them are not used by the functions modelled
    here; the list is complete so that the numbers are those of the source. -/
inductive NearStatus
  | success | unknown | outOfMemory
  | initFail | cantCreateEcsComp
  | cantCreateEntity | notEnoughMemory
  | noValidMemory | notFound | invalidPmlEntry
  | notMapped | uacpiInitFail | acpiNamespaceFail
  | acpiGpeFail | rebootFailed | shutdownFailed
  | invalidAddress | accessDenied | cantFindHeader
  | pmmFail | vmmFail | gallocFail | tooLarge
  | invalidHandle | invalidEntity | notImplemented
  deriving DecidableEq, Repr

/-- `NR_SUCCESS`.  The macro that callers test statuses with. -/
def NearStatus.nrSuccess (x : NearStatus) : Bool := x == .success

/-- `NULL`. -/
@[reducible] def null : Nat := 0

/-- `PAGE_SIZE`. -/
@[reducible] def pageSize : Nat := 0x1000

/-- `IN_PAGES(x)`: `((x + (PAGE_SIZE - 1)) / PAGE_SIZE)` on `u64`.  The sum wraps for the last page
    of the address space, which makes the result 0 there. -/
def inPages (x : Nat) : Nat := w64 (x + (pageSize - 1)) / pageSize

/-- Without a wrap `IN_PAGES` rounds up.  All sizes that a memory map or an image can describe are
    below that. -/
theorem inPages_of_lt {x : Nat} (h : x + 0xFFF < 2 ^ 64) : inPages x = (x + 0xFFF) / 0x1000 := by
  show w64 (x + 0xFFF) / 0x1000 = _
  rw [w64_of_lt h]

/-- Whole pages stay what they are.  The sum may come within a page of the end, but it does not wrap
    for whole pages. -/
theorem inPages_aligned {x : Nat} (hx : x % 0x1000 = 0) (hlt : x < 2 ^ 64) :
    inPages x = x / 0x1000 := by
  rw [inPages_of_lt (by omega)]; omega

/-! ## The boot memory map -/

/-- `BootMemoryEntryTypes`.  The loader folds the types of the firmware into these three. -/
inductive BootMemoryEntryType
  | free | used | acpi
  deriving DecidableEq, Repr

/-- `BootMemoryMapEntry`.  Base and size in bytes; nothing says that they are multiples of a page. -/
structure BootMemoryMapEntry where
  base : Nat
  size : Nat
  type : BootMemoryEntryType
  deriving DecidableEq, Repr

/-- `BootMemoryMap`: `amountOfEntries` is the length of `memEntries`.  The kernel only reads it, so
    it is a value. -/
structure BootMemoryMap where
  memEntries : List BootMemoryMapEntry
  deriving DecidableEq, Repr

end Nearlands

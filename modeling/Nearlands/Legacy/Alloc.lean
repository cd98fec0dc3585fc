/-
  The legacy heap (`mm/amd64pc/legacyalloc.c`, under `USE_LEGACY_ALLOC`).

  Memory is carved upwards from `allocCur`.  Every chunk has a `FreeList` header in memory; the
  chunks that were freed are chained from `head`, and an allocation takes the first one of them that
  is large enough.  The size of a header counts the header itself.

  Memory is bytes, for a caller writes where it likes in what it was given, and `FreeMemory` takes
  for a header whatever lies before the pointer.  The page allocator is a parameter, `pages :
  amount ↦ answer`.  An operation that does not come back, because the lock is held or the walk does
  not end, is `none`.
-/
import Nearlands.Pages
import Nearlands.Lib.Packed

namespace Nearlands.Legacy

open Nearlands.Lib

/-- The fields of `FreeList`.  `header` is written and never read; the others are what the walk, the
    free and the split look at. -/
inductive Field
  | address | next | prev | header | size | memSize | magic | isFree
  deriving DecidableEq, Repr

/-- `FreeList`, packed.  The record is packed, so that a header may lie at any address, and its last
    field ends at byte 39. -/
def freeList : Layout Field where
  offset
    | .address => 0
    | .next => 8
    | .prev => 16
    | .header => 24
    | .size => 32
    | .memSize => 34
    | .magic => 36
    | .isFree => 38
  size
    | .address | .next | .prev | .header => 8
    | .size | .memSize | .magic => 2
    | .isFree => 1
  total := 39
  inside := by rintro ⟨⟩ <;> decide
  apart := by rintro ⟨⟩ ⟨⟩ <;> decide

/-- `sizeof(FreeList)`. -/
@[reducible] def sizeofFreeList : Nat := 39

/-- `FREELIST_HEADER_MAGIC`. -/
@[reducible] def freeListHeaderMagic : Nat := 0x6767

/-- `allowFrees`, which nothing sets.  With it false the heap would only ever carve. -/
def allowFrees : Bool := true

/-- The statics of `legacyalloc.c` and memory.  The last three fields are for the record only: the
    calls of the page allocator, where `InitFreeList` made a header, and the header of the chunk
    that was handed out last.  A header need not be where one was made: `field` reads whatever is in
    memory. -/
structure State where
  allocSpinLock : Bool
  allocBase : Nat
  allocCur : Nat
  allocLimit : Nat
  head : Nat
  tail : Nat
  mem : Bytes
  pageLog : List PageCall
  headers : List Nat
  taken : Nat

namespace State

/-- The statics before `MmInitGeneralAllocator`.  The fields `headers` and `taken` say what is known
    of a chunk without trusting memory. -/
def zero (mem : Bytes) : State := ⟨false, null, null, null, null, null, mem, [], [], null⟩

/-- `list->f`. -/
def field (s : State) (list : Nat) (f : Field) : Nat := freeList.get s.mem list f

/-- `list->f = v`. -/
def setField (s : State) (list : Nat) (f : Field) (v : Nat) : State :=
  { s with mem := freeList.set s.mem list f v }

/-- `memset(header, 0, sizeof(FreeList))`. -/
def clearHeader (s : State) (header : Nat) : State :=
  { s with mem := s.mem.memset header 0 sizeofFreeList }

/-! ## The lock -/

/-- `KeAcquireSpinLock(&allocSpinLock)`: with one processor at work, a lock that is held is not
    released while it is waited for. -/
def keAcquireSpinLock (s : State) : Option State :=
  if s.allocSpinLock then none else some { s with allocSpinLock := true }

/-- `KeReleaseSpinLock(&allocSpinLock)`. -/
def keReleaseSpinLock (s : State) : State := { s with allocSpinLock := false }

/-! ## The list -/

/-- `AddToFreeList(list)`.  The chunk is written first, and then the chunk before it and the two
    statics. -/
def addToFreeList (s : State) (list : Nat) : State :=
  let s := s.setField list .next null
  let s := s.setField list .prev s.tail
  let s := if s.tail ≠ null then s.setField s.tail .next list else s
  let s := { s with tail := list }
  if s.head = null then { s with head := list } else s

/-- `RemoveFromFreeList(list)`.  The statics are moved before the links are changed, and both links
    of the chunk are read before either neighbour is written. -/
def removeFromFreeList (s : State) (list : Nat) : State :=
  let s := if list = s.head then { s with head := s.field list .next } else s
  let s := if list = s.tail then { s with tail := s.field list .prev } else s
  let prev := s.field list .prev
  let next := s.field list .next
  let s := if prev ≠ null then s.setField prev .next next else s
  let s := if next ≠ null then s.setField next .prev prev else s
  let s := s.setField list .prev null
  s.setField list .next null

/-- `FreeMemory(address)`.  A chunk whose front was taken has its memory elsewhere than behind its
    header; what lies before that memory then need not be a header at all. -/
def freeMemory (s : State) (address : Nat) : State × NearStatus :=
  if address = null then (s, .invalidAddress)
  else if allowFrees = false then (s, .accessDenied)
  else
    let header := sub64 address sizeofFreeList
    if header = null then (s, .cantFindHeader)
    else if s.field header .magic ≠ freeListHeaderMagic then (s, .cantFindHeader)
    else
      let s := s.setField header .isFree 1
      (s.addToFreeList header, .success)

/-! ## Memory to carve from -/

/-- What `ReinitGeneralAllocator(minSize)` asks the page allocator for: `PAGE_SIZE` more pages than
    the size takes.  It is `PAGE_SIZE` pages, and not one, that is added to the pages of the size:
    16 MiB on top of every request. -/
def pagesAsked (minSize : Nat) : Nat := w64 (inPages minSize + pageSize)

/-- `ReinitGeneralAllocator(minSize)`.  Of all the pages only the first is between `allocCur` and
    the limit, but what is carved there may go beyond it. -/
def reinitGeneralAllocator (s : State) (pages : Nat → Nat) (minSize : Nat) : State × Bool :=
  let mem := pages (pagesAsked minSize)
  let s := { s with allocBase := mem, pageLog := .allocate (pagesAsked minSize) mem :: s.pageLog }
  if mem = null then (s, false)
  else ({ s with allocCur := mem, allocLimit := w64 (mem + pageSize) }, true)

/-- `InitFreeList(header, isFree, totalSize, memSize, address)`.  The size and the requested size
    are cut to 16 bits when they are written. -/
def initFreeList (s : State) (header : Nat) (isFree : Bool) (totalSize memSize address : Nat) :
    State :=
  let s := s.setField header .magic freeListHeaderMagic
  let s := s.setField header .isFree isFree.toNat
  let s := s.setField header .address address
  let s := s.setField header .size totalSize
  let s := s.setField header .memSize memSize
  let s := s.setField header .header header
  { s with headers := header :: s.headers }

/-- `MmInitGeneralAllocator()`; `page` is the answer of `MmAllocateSinglePage`. -/
def mmInitGeneralAllocator (s : State) (page : Nat) : State × NearStatus :=
  let s := { s with allocSpinLock := false, allocBase := page,
                    pageLog := .allocate 1 page :: s.pageLog }
  if page = null then (s, .outOfMemory)
  else ({ s with allocCur := page, allocLimit := w64 (page + pageSize) }, .success)

/-! ## Allocation -/

/-- The loop of `MmAllocateGeneralMemory`, at `cur`: the chunk that is taken, or `NULL`.  A chunk in
    the list that is not free would be passed over; there is none, as the invariant says. -/
def scan (s : State) (size : Nat) : Nat → Nat → Option Nat
  | 0, _ => none
  | fuel + 1, cur =>
    if cur = null then some null
    else if s.field cur .isFree = 1 then
      if s.field cur .size < size then s.scan size fuel (s.field cur .next) else some cur
    else s.scan size fuel (s.field cur .next)

/-- The branch of the loop for a chunk of the size.  The header that is handed out keeps its old
    requested size. -/
def takeWhole (s : State) (cur : Nat) : State × Nat :=
  let s := s.removeFromFreeList cur
  let s := s.setField cur .isFree 0
  ({ s with taken := cur }, s.field cur .address)

/-- The branch of the loop for a larger chunk.  The front of the chunk's memory becomes a header and
    the new chunk; the old header stays where it is, and its memory is what remains.  Whether that
    is enough for the header of a later split is not asked. -/
def takeFront (s : State) (cur allocSize size : Nat) : State × Nat :=
  let allocAddr := s.field cur .address
  let s := s.setField cur .size (sub64 (s.field cur .size) size)
  let s := s.setField cur .address (w64 (s.field cur .address + size))
  let header := allocAddr
  let s := s.clearHeader header
  let allocAddr := w64 (allocAddr + sizeofFreeList)
  let s := s.initFreeList header false size allocSize allocAddr
  ({ s with taken := header }, allocAddr)

/-- A header at `allocCur`, which moves behind it. -/
def carveHeader (s : State) (isFree : Bool) (totalSize memSize : Nat) : State :=
  let header := s.allocCur
  let s := s.clearHeader header
  let s := { s with allocCur := w64 (s.allocCur + sizeofFreeList) }
  s.initFreeList header isFree totalSize memSize s.allocCur

/-- What is left up to the limit becomes a chunk of the list.  The amount may be larger than 16 bits
    can say. -/
def freeLeftover (s : State) : State :=
  let amountUntilLimit := sub64 s.allocLimit s.allocCur
  if amountUntilLimit ≥ sizeofFreeList then
    let s := s.carveHeader true amountUntilLimit (sub64 amountUntilLimit sizeofFreeList)
    (s.freeMemory s.allocCur).1
  else s

/-- `expanding heap outreach`; what `ReinitGeneralAllocator` returns is not looked at.  So a refused
    run leaves `allocCur` where it was, and the carving goes on there, beyond the limit. -/
def expand (s : State) (pages : Nat → Nat) (size : Nat) : State :=
  (s.freeLeftover.reinitGeneralAllocator pages size).1

/-- The end of `MmAllocateGeneralMemory`: a new chunk at `allocCur`. -/
def carve (s : State) (allocSize size : Nat) : State × Nat :=
  let header := s.allocCur
  let s := s.carveHeader false size allocSize
  let prev := s.allocCur
  ({ s with allocCur := w64 (s.allocCur + allocSize), taken := header }, prev)

/-- `MmAllocateGeneralMemory(allocSize)`.  The source walks the list first and carves when it finds
    nothing. -/
def mmAllocateGeneralMemory (s : State) (pages : Nat → Nat) (allocSize : Nat) :
    Option (State × Nat) :=
  s.keAcquireSpinLock.bind fun s =>
    let size := w64 (allocSize + sizeofFreeList)
    (if allowFrees = true then s.scan size (2 ^ 64) s.head else some null).bind fun cur =>
      let r :=
        if cur ≠ null then
          if s.field cur .size = size then s.takeWhole cur else s.takeFront cur allocSize size
        else
          let s := if w64 (s.allocCur + size) ≥ s.allocLimit then s.expand pages size else s
          s.carve allocSize size
      some (r.1.keReleaseSpinLock, r.2)

/-- `MmFreeGeneralMemory(address)`: a free that fails returns with the lock held.  After that no
    call comes back (`Legacy.Lock`). -/
def mmFreeGeneralMemory (s : State) (address : Nat) : Option (State × NearStatus) :=
  s.keAcquireSpinLock.bind fun s =>
    let r := s.freeMemory address
    if r.2.nrSuccess then some (r.1.keReleaseSpinLock, r.2) else some r

end State

end Nearlands.Legacy

/-
  The general heap (`mm/amd64pc/alloc.c`).

  Memory is carved from blocks, runs of pages that begin with a `BlockHeader`; every chunk begins
  with an `AllocHeader`.  Blocks are chained from `bHead`, FREE chunks from `aHead`.  The headers
  live inside the memory they describe.  Here they are two stores, `blockAt` and `allocAt`, from
  the address of a header to its fields: a write to one header leaves the others alone.  That is
  what memory does as long as headers do not overlap each other or the payloads, which is the
  invariant of `Heap/Inv`.

  The page allocator is a parameter, `pages : amount ↦ answer`, and its calls are logged.  Loops
  run on fuel; `none` means that it ran out.
-/
import Nearlands.Pages
import Nearlands.Lib.DList

namespace Nearlands.Heap

open Nearlands.Lib

/-- `SPLIT_SAFE(x)`: `((x + 15) / 16) * 16` on `u64`.  For the last fifteen values below `2 ^ 64`
    the sum wraps and the result is 0. -/
def splitSafe (x : Nat) : Nat := w64 (x + 15) / 16 * 16

/-- `BlockHeader`.  `base` is where the memory behind the header begins, `amountUsed` how much of it
    has been carved, and `allocCounter` how many of its chunks are live. -/
structure BlockHeader where
  base : Nat
  size : Nat
  amountUsed : Nat
  allocCounter : Int
  next : Nat
  prev : Nat
  deriving DecidableEq, Repr

/-- `AllocHeader`.  `header` is the block the chunk is in, `base` the address that clients have; the
    links are in use only while the chunk is free. -/
structure AllocHeader where
  header : Nat
  base : Nat
  size : Nat
  next : Nat
  prev : Nat
  isFree : Bool
  deriving DecidableEq, Repr

/-- `sizeof(BlockHeader)` and `sizeof(AllocHeader)`. -/
@[reducible] def sizeofBlockHeader : Nat := 48

/-- Both structures have six fields of 8 bytes, the boolean padded. -/
@[reducible] def sizeofAllocHeader : Nat := 48

/-- The statics of `alloc.c`, the headers in memory, and the calls made to the page allocator.
    Headers of addresses that are no headers are there as well; what they hold is unknown and never
    used. -/
structure State where
  bHead : Nat
  bTail : Nat
  aHead : Nat
  aTail : Nat
  blockAt : Nat → BlockHeader
  allocAt : Nat → AllocHeader
  pageLog : List PageCall

/-- Write fields of the block header at `a`.  The function sees the old fields, so that an
    assignment to one of them leaves the others. -/
def State.setBlock (s : State) (a : Nat) (f : BlockHeader → BlockHeader) : State :=
  { s with blockAt := fun x => if x = a then f (s.blockAt a) else s.blockAt x }

/-- Write fields of the chunk header at `a`. -/
def State.setAlloc (s : State) (a : Nat) (f : AllocHeader → AllocHeader) : State :=
  { s with allocAt := fun x => if x = a then f (s.allocAt a) else s.allocAt x }

/-! ## The lists -/

/-- `AddBlockHeader(header)`.  The assignments are in the order of the source, which links the new
    header before it becomes the tail. -/
def State.addBlockHeader (s : State) (header : Nat) : State :=
  let s := if s.bHead = null then { s with bHead := header } else s
  let s := s.setBlock header fun b => { b with prev := s.bTail }
  let s := if s.bTail ≠ null then s.setBlock s.bTail fun b => { b with next := header } else s
  let s := { s with bTail := header }
  s.setBlock header fun b => { b with next := null }

/-- `RemoveBlockHeader(header)`.  Both links of the header are read first, as it may be head and
    tail at once. -/
def State.removeBlockHeader (s : State) (header : Nat) : State :=
  let prev := (s.blockAt header).prev
  let next := (s.blockAt header).next
  let s := if s.bHead = header then { s with bHead := next } else s
  let s := if s.bTail = header then { s with bTail := prev } else s
  let s := if prev ≠ null then s.setBlock prev fun b => { b with next := next } else s
  let s := if next ≠ null then s.setBlock next fun b => { b with prev := prev } else s
  s.setBlock header fun b => { b with prev := null, next := null }

/-- `AddAllocHeader(header)`.  The same code for the other chain. -/
def State.addAllocHeader (s : State) (header : Nat) : State :=
  let s := if s.aHead = null then { s with aHead := header } else s
  let s := s.setAlloc header fun a => { a with prev := s.aTail }
  let s := if s.aTail ≠ null then s.setAlloc s.aTail fun a => { a with next := header } else s
  let s := { s with aTail := header }
  s.setAlloc header fun a => { a with next := null }

/-- `RemoveAllocHeader(header)`. -/
def State.removeAllocHeader (s : State) (header : Nat) : State :=
  let prev := (s.allocAt header).prev
  let next := (s.allocAt header).next
  let s := if s.aHead = header then { s with aHead := next } else s
  let s := if s.aTail = header then { s with aTail := prev } else s
  let s := if prev ≠ null then s.setAlloc prev fun a => { a with next := next } else s
  let s := if next ≠ null then s.setAlloc next fun a => { a with prev := prev } else s
  s.setAlloc header fun a => { a with prev := null, next := null }

/-! ## Blocks -/

/-- `CreateBlock(allocSize)`.  The request includes the header, whose size is taken off again for
    the block; nothing checks that there is room for it. -/
def State.createBlock (s : State) (pages : Nat → Nat) (allocSize : Nat) : State × NearStatus :=
  let size := splitSafe allocSize
  let headerSize := splitSafe sizeofBlockHeader
  let sizeInPages := inPages size
  let mem := pages sizeInPages
  let s := { s with pageLog := .allocate sizeInPages mem :: s.pageLog }
  if mem = null then (s, .outOfMemory)
  else
    let s := s.setBlock mem fun b =>
      { b with size := sub64 size headerSize, base := w64 (mem + headerSize), amountUsed := 0,
               allocCounter := 0 }
    (s.addBlockHeader mem, .success)

/-- `DeleteBlockHeader(header)`.  The size and the address of the run are worked out from the
    header, so what is given back is what was taken only if rounding loses nothing. -/
def State.deleteBlockHeader (s : State) (header : Nat) : State × NearStatus :=
  let headerSize := splitSafe sizeofBlockHeader
  let size := splitSafe (w64 ((s.blockAt header).size + headerSize))
  let sizeInPages := inPages size
  let s := s.removeBlockHeader header
  let mem := sub64 (s.blockAt header).base headerSize
  ({ s with pageLog := .free mem sizeInPages :: s.pageLog }, .success)

/-- `CarveMemoryFromBlock(header, size)`.  There is no check; the caller has compared with what
    remains. -/
def State.carveMemoryFromBlock (s : State) (header size : Nat) : State × Nat :=
  let mem := w64 ((s.blockAt header).base + (s.blockAt header).amountUsed)
  (s.setBlock header fun b => { b with amountUsed := w64 (b.amountUsed + size) }, mem)

/-! ## Allocation -/

/-- One more live chunk in the block. -/
def State.incrementCounter (s : State) (header : Nat) : State :=
  s.setBlock header fun b => { b with allocCounter := b.allocCounter + 1 }

/-- One live chunk less in the block. -/
def State.decrementCounter (s : State) (header : Nat) : State :=
  s.setBlock header fun b => { b with allocCounter := b.allocCounter - 1 }

/-- The branch of `GetMemoryFromFreeList` that takes a chunk as it is.  The chunk keeps its size,
    which may be a header more than was asked for. -/
def State.reuseChunk (s : State) (header : Nat) : State × Nat :=
  let bHeader := (s.allocAt header).header
  let s := s.setAlloc header fun a => { a with isFree := false }
  let s := s.incrementCounter bHeader
  let s := s.removeAllocHeader header
  (s, (s.allocAt header).base)

/-- The branch of `GetMemoryFromFreeList` that takes the front of a larger chunk.  The rest gets a
    header of its own inside the old chunk, and both the difference and the address are `u64`. -/
def State.splitChunk (s : State) (header size : Nat) : State × Nat :=
  let aHeaderSize := splitSafe sizeofAllocHeader
  let bHeader := (s.allocAt header).header
  let s := s.setAlloc header fun a => { a with isFree := false }
  let s := s.incrementCounter bHeader
  let oldSize := (s.allocAt header).size
  let s := s.setAlloc header fun a => { a with size := size }
  let s := s.removeAllocHeader header
  let whatToReturn := (s.allocAt header).base
  let newHeader := w64 ((s.allocAt header).base + size)
  let s := s.setAlloc newHeader fun a =>
    { a with size := splitSafe (sub64 (sub64 oldSize size) aHeaderSize),
             base := w64 (newHeader + aHeaderSize), isFree := true, header := bHeader }
  (s.addAllocHeader newHeader, whatToReturn)

/-- The loop of `GetMemoryFromFreeList`, at `header`.  First fit among three tests; a chunk that is
    larger but cannot be split is passed over. -/
def State.freeListScan (s : State) (size : Nat) : Nat → Nat → Option (State × Nat)
  | 0, _ => none
  | fuel + 1, header =>
    let aHeaderSize := splitSafe sizeofAllocHeader
    if header = null then some (s, null)
    else if (s.allocAt header).size = size ∨
        (s.allocAt header).size = w64 (size + aHeaderSize) then
      some (s.reuseChunk header)
    else if (s.allocAt header).size > size ∧ ¬ size ≤ aHeaderSize ∧
        ¬ sub64 (s.allocAt header).size size ≤ aHeaderSize then
      some (s.splitChunk header size)
    else s.freeListScan size fuel (s.allocAt header).next

/-- `GetMemoryFromFreeList(allocSize)`.  The size is rounded up before anything is compared, so
    chunks stay multiples of 16. -/
def State.getMemoryFromFreeList (fuel : Nat) (s : State) (allocSize : Nat) :
    Option (State × Nat) :=
  s.freeListScan (splitSafe allocSize) fuel s.aHead

/-- `remaining`: the difference as an `i64`, and zero when that is not positive.  A difference that
    is negative as an `i64` means that nothing is left. -/
def BlockHeader.remaining (b : BlockHeader) : Nat :=
  let d := sub64 b.size b.amountUsed
  if d < 2 ^ 63 then d else 0

/-- The branch of `AllocateFreshMemory` that carves a new chunk.  `size` includes the header; the
    chunk gets what is left of it. -/
def State.carveChunk (s : State) (header size : Nat) : State × Nat :=
  let aHeaderSize := splitSafe sizeofAllocHeader
  let (s, aHeader) := s.carveMemoryFromBlock header size
  let mem := w64 (aHeader + aHeaderSize)
  let s := s.setAlloc aHeader fun a =>
    { a with size := sub64 size aHeaderSize, base := mem, isFree := false, header := header }
  (s.incrementCounter header, mem)

/-- The loop of `AllocateFreshMemory` over the blocks, at `header`. -/
def State.blockScan (s : State) (size : Nat) : Nat → Nat → Option (State × Nat)
  | 0, _ => none
  | fuel + 1, header =>
    if header = null then some (s, null)
    else if (s.blockAt header).remaining ≥ size then some (s.carveChunk header size)
    else s.blockScan size fuel (s.blockAt header).next

/-- `AllocateFreshMemory(allocSize)`.  The free list is tried first, and blocks only if it has
    nothing. -/
def State.allocateFreshMemory (fuel : Nat) (s : State) (allocSize : Nat) :
    Option (State × Nat) :=
  (s.getMemoryFromFreeList fuel allocSize).bind fun r =>
    if r.2 ≠ null then some r
    else r.1.blockScan (splitSafe (w64 (allocSize + splitSafe sizeofAllocHeader))) fuel r.1.bHead

/-- The statics before `MmInitGeneralAllocator`, over headers with any contents. -/
def State.zero (blockAt : Nat → BlockHeader) (allocAt : Nat → AllocHeader) : State :=
  ⟨null, null, null, null, blockAt, allocAt, []⟩

/-- `MmInitGeneralAllocator()`.  It asks for ten bytes, header included, and so gets one page; what
    that means for the size of the first block is said in `Heap.Sizes`. -/
def State.mmInitGeneralAllocator (s : State) (pages : Nat → Nat) : State × NearStatus :=
  s.createBlock pages 10

/-- `MmAllocateGeneralMemory(allocSize)`.  One retry, in the new block; where that is too small the
    answer is `NULL` and the block stays. -/
def State.mmAllocateGeneralMemory (fuel : Nat) (s : State) (pages : Nat → Nat)
    (allocSize : Nat) : Option (State × Nat) :=
  (s.allocateFreshMemory fuel allocSize).bind fun r =>
    if r.2 ≠ null then some r
    else
      let created := r.1.createBlock pages (w64 (allocSize + pageSize))
      if created.2.nrSuccess then created.1.allocateFreshMemory fuel allocSize
      else some (created.1, null)

/-! ## Freeing -/

/-- The loop of `MmFreeGeneralMemory` that drops a block's chunks from the free list.  The next
    chunk is read before the present one is unlinked, which clears its links. -/
def State.dropChunks (bHeader : Nat) : Nat → Nat → State → Option State
  | 0, _, _ => none
  | fuel + 1, aHeaderL, s =>
    if aHeaderL = null then some s
    else if (s.allocAt aHeaderL).header = bHeader then
      let next := (s.allocAt aHeaderL).next
      State.dropChunks bHeader fuel next (s.removeAllocHeader aHeaderL)
    else State.dropChunks bHeader fuel (s.allocAt aHeaderL).next s

/-- `MmFreeGeneralMemory(address)`.  The header is found by subtraction, so any address has one; the
    flag in it is the only check. -/
def State.mmFreeGeneralMemory (fuel : Nat) (s : State) (address : Nat) :
    Option (State × NearStatus) :=
  if address = null then some (s, .invalidAddress)
  else
    let aHeader := sub64 address (splitSafe sizeofAllocHeader)
    if (s.allocAt aHeader).isFree = true then some (s, .accessDenied)
    else
      let bHeader := (s.allocAt aHeader).header
      let s := s.decrementCounter bHeader
      if (s.blockAt bHeader).allocCounter ≤ 0 then
        (State.dropChunks bHeader fuel s.aHead s).map
          fun s => ((s.deleteBlockHeader bHeader).1, .success)
      else
        let s := s.setAlloc aHeader fun a => { a with isFree := true }
        some (s.addAllocHeader aHeader, .success)

end Nearlands.Heap

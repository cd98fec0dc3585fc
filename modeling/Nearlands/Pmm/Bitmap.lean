/-
  The bitmap physical memory manager (`mm/amd64pc/pmms/bitmap.c`).

  One bit a page: bit `p` lives in byte `p / 8` of the storage at `bitmap`, at position `p % 8`,
  and is set while page `p` is in use.  The storage is the memory behind a raw pointer, so it is
  a function on all byte indices, without an end: whether an access stays below `bitmapSize` is
  something to prove, not something the model enforces.  The scans therefore also return the
  bits they read, in order.

  The two allocators test a bit differently.  `GET_BIT_IN_BITMAP` yields the masked byte, `0` or
  `2 ^ (bit % 8)`; comparing it with `CLEAR` (0) is right at every position, comparing it with
  `SET` (1) only at position 0.
-/
import Nearlands.Types

namespace Nearlands.Pmm

open Nearlands.Lib

/-- The statics of `bitmap.c`.  `bytes i` is `bitmap[i]`.  `bitmap` is where the storage lies, for
    the init that places it; the bytes themselves are indexed from 0, as the macros index them. -/
structure State where
  pageCount : Nat
  usablePageCount : Nat
  bitmapSize : Nat
  bitmap : Nat
  bytes : Nat → UInt8
  pageUsed : Nat
  /-- `pageCount` is a `u64`. -/
  pageCount_lt : pageCount < 2 ^ 64

/-- `SET` and `CLEAR` are `TRUE` and `FALSE`, compared with integers. -/
@[reducible] def SET : Nat := 1

@[reducible] def CLEAR : Nat := 0

/-- `1u << (bit % 8)`, as a byte.  The shift is by less than 8, so the byte loses nothing that the
    `unsigned` of the source would keep. -/
def mask (bit : Nat) : UInt8 := 1 <<< UInt8.ofNat (bit % 8)

/-- `SET_BITMAP(bit)`.  The macro has no brackets around `bit`; all its uses pass a name. -/
def State.setBitmap (s : State) (bit : Nat) : State :=
  { s with bytes := fun i => if i = bit / 8 then s.bytes i ||| mask bit else s.bytes i }

/-- `CLEAR_BITMAP(bit)`. -/
def State.clearBitmap (s : State) (bit : Nat) : State :=
  { s with bytes := fun i => if i = bit / 8 then s.bytes i &&& ~~~ mask bit else s.bytes i }

/-- `GET_BIT_IN_BITMAP(bit)`: the masked byte, an `int`.  It is not a truth value: a set bit at
    position 3 gives 8. -/
def State.getBitInBitmap (s : State) (bit : Nat) : Nat :=
  (s.bytes (bit / 8)).toNat &&& (1 <<< (bit % 8))

/-- `INCREMENT_PAGE_USAGE()`.  The counter stops at the number of pages, so it can only say too
    little. -/
def State.incrementPageUsage (s : State) : State :=
  if s.pageUsed < s.pageCount then { s with pageUsed := s.pageUsed + 1 } else s

/-- `DECREMENT_PAGE_USAGE()`.  And at 0, whatever is given back twice. -/
def State.decrementPageUsage (s : State) : State :=
  if s.pageUsed > 0 then { s with pageUsed := s.pageUsed - 1 } else s

/-- `GetPageLocationFromAddress(address)`: the page that the address is on, whether or not there is
    a bit for it. -/
def getPageLocationFromAddress (address : Nat) : Nat := address / pageSize

/-- `GetAddressFromPageLocation(pageLocation)`.  The product wraps from page `2 ^ 52` on, and is
    `NULL` for page 0 and for page `2 ^ 52`. -/
def getAddressFromPageLocation (pageLocation : Nat) : Nat := w64 (pageLocation * pageSize)

/-- `MarkBitInBitmapFromAddress(address, setOrClear)`. -/
def State.markBitInBitmapFromAddress (s : State) (address : Nat) (setOrClear : Bool) : State :=
  let page := getPageLocationFromAddress address
  if setOrClear = true then s.setBitmap page else s.clearBitmap page

/-! ## Allocation -/

/-- Outcome of a scan of the bitmap: the bits read, in order, and the start it settled on.  The list
    of reads is what shows that no bit outside the bitmap is looked at; the source has no such
    list. -/
structure Scan where
  reads : List Nat
  found : Option Nat
  deriving DecidableEq, Repr

/-- The scan went over `bits` before what `r` reports. -/
def Scan.after (bits : List Nat) (r : Scan) : Scan := { r with reads := bits ++ r.reads }

/-- The loop of `MmAllocateSinglePage`, with `n` values of `i` to go.  A clear page whose address is
    `NULL` is passed over. -/
def State.singleScan (s : State) : Nat → Nat → Scan
  | 0, _ => ⟨[], none⟩
  | n + 1, i =>
    if s.getBitInBitmap i = CLEAR then
      if getAddressFromPageLocation i = null then (s.singleScan n (i + 1)).after [i]
      else ⟨[i], some i⟩
    else (s.singleScan n (i + 1)).after [i]

/-- `MmAllocateSinglePage()`: the new state and the address, or `NULL`.  Statistics apart, a
    successful call sets one bit. -/
def State.mmAllocateSinglePage (s : State) : State × Nat :=
  match (s.singleScan s.pageCount 0).found with
  | some i => ((s.setBitmap i).incrementPageUsage, getAddressFromPageLocation i)
  | none => (s, null)

/-- The inner test loop of `MmAllocateMultiplePages` with `n` values of `j` to go: the bits it
    reads and `valid`.  It breaks at the first bit whose masked byte EQUALS `SET`. -/
def State.windowScan (s : State) (i : Nat) : Nat → Nat → List Nat × Bool
  | 0, _ => ([], true)
  | n + 1, j =>
    let k := w64 (i + j)
    if s.getBitInBitmap k = SET then ([k], false)
    else
      let r := s.windowScan i n (j + 1)
      (k :: r.1, r.2)

/-- The outer loop of `MmAllocateMultiplePages`.  `i` is a `u64`, so with the bound `trueAmount = 2
    ^ 64 - 1` it never ends on its own: `none` is a scan that ran out of fuel.  The bit at `i` is
    tested against `CLEAR` and those of the window against `SET`, and these are two different
    tests. -/
def State.multiScan (s : State) (amount trueAmount : Nat) : Nat → Nat → Option Scan
  | 0, _ => none
  | n + 1, i =>
    if i ≤ trueAmount then
      if s.getBitInBitmap i = CLEAR then
        if getAddressFromPageLocation i = null then
          (s.multiScan amount trueAmount n (w64 (i + 1))).map (Scan.after [i])
        else
          let w := s.windowScan i amount 0
          if w.2 = true then some ⟨i :: w.1, some i⟩
          else (s.multiScan amount trueAmount n (w64 (i + 1))).map (Scan.after (i :: w.1))
      else (s.multiScan amount trueAmount n (w64 (i + 1))).map (Scan.after [i])
    else some ⟨[], none⟩

/-- The marking loop of `MmAllocateMultiplePages`, with `n` values of `j` to go.  Every page of the
    window is counted, also one that was marked before. -/
def State.markWindow (i : Nat) : Nat → Nat → State → State
  | 0, _, s => s
  | n + 1, j, s => markWindow i n (j + 1) (s.setBitmap (w64 (i + j))).incrementPageUsage

/-- `MmAllocateMultiplePages(amount)`; `none` when the scan does not end within `fuel`.  The
    difference `pageCount - amount` wraps when more is asked for than there is.  The first page is
    marked twice, before the loop and in it, and counted once. -/
def State.mmAllocateMultiplePages (fuel : Nat) (s : State) (amount : Nat) : Option (State × Nat) :=
  let trueAmount := sub64 s.pageCount amount
  (s.multiScan amount trueAmount fuel 0).map fun r =>
    match r.found with
    | some i => (State.markWindow i amount 0 (s.setBitmap i), getAddressFromPageLocation i)
    | none => (s, null)

/-! ## Freeing -/

/-- `MmFreeSinglePage(pageAddress)`.  Nothing is checked, neither that the page is in the bitmap nor
    that it was in use. -/
def State.mmFreeSinglePage (s : State) (pageAddress : Nat) : State × NearStatus :=
  let index := getPageLocationFromAddress pageAddress
  ((s.clearBitmap index).decrementPageUsage, .success)

/-- The loop of `MmFreeMultiplePages`, with `n` values of `i` to go. -/
def State.clearWindow (index : Nat) : Nat → Nat → State → State
  | 0, _, s => s
  | n + 1, i, s => clearWindow index n (i + 1) (s.clearBitmap (w64 (index + i))).decrementPageUsage

/-- `MmFreeMultiplePages(pageAddress, amount)`.  The amount is the caller's word; it may reach into
    the pages of somebody else. -/
def State.mmFreeMultiplePages (s : State) (pageAddress amount : Nat) : State × NearStatus :=
  (State.clearWindow (getPageLocationFromAddress pageAddress) amount 0 s, .success)

/-- `MmReturnPageUsed()`. -/
def State.mmReturnPageUsed (s : State) : Nat := s.pageUsed

end Nearlands.Pmm

/-
  `MmInitPhysicalMemoryManager` of the page map.

  Init counts the pages of the FREE entries, cuts the storage of the page map out of the first of
  them that is large enough, and then lists the pages of the entries as they are after that.  An
  entry that begins at address 0 loses its first page.  The pages are those `j` with
  `base <= j < base + size`, where the end is a `u64`: an entry that ends at `2 ^ 64` has none.

  The map is a value here: its entries are read as they were handed over, which is the case when the
  memory that holds them is not part of what init overwrites.
-/
import Nearlands.Lib.Bytes
import Nearlands.Pagemap.Alloc

namespace Nearlands.Pagemap

open Nearlands.Lib

/-! ## The program -/

/-- `(x + (PAGE_SIZE - 1)) & ~(PAGE_SIZE - 1)`. -/
def alignUp (x : Nat) : Nat := w64 (x + (pageSize - 1)) / pageSize * pageSize

/-- `x & ~(PAGE_SIZE - 1)`. -/
def alignDown (x : Nat) : Nat := x / pageSize * pageSize

/-- `sizeof(PageMap)`, which is packed. -/
@[reducible] def sizeofPageMap : Nat := 9

/-- The values of `j` in `for(j = base; j < stop; j += PAGE_SIZE)`; from a page on there are no more
    than `2 ^ 52`. -/
def pageLoop : (fuel j stop : Nat) → List Nat
  | 0, _, _ => []
  | fuel + 1, j, stop => if j < stop then j :: pageLoop fuel (w64 (j + pageSize)) stop else []

/-- The pages of an entry. -/
def entryLoop (base size : Nat) : List Nat := pageLoop (2 ^ 52) base (w64 (base + size))

/-- An entry at address 0 loses its first page. -/
def skipPageZero (e : BootMemoryMapEntry) : BootMemoryMapEntry :=
  if e.base = 0 then
    { e with base := w64 (e.base + pageSize), size := sub64 e.size pageSize }
  else e

/-- The counting pass: the entries it leaves, and `pageMapAmount`. -/
def countPass : List BootMemoryMapEntry → Nat → List BootMemoryMapEntry × Nat
  | [], pageMapAmount => ([], pageMapAmount)
  | e :: es, pageMapAmount =>
    if e.type ≠ .free then
      let r := countPass es pageMapAmount
      (e :: r.1, r.2)
    else
      let e := skipPageZero e
      let r := countPass es (w64 (pageMapAmount + (entryLoop e.base e.size).length))
      (e :: r.1, r.2)

/-- The search for the storage: `pageMap`, `NULL` when there is none, and the entries it leaves. -/
def placePass (pageMapAmount : Nat) : List BootMemoryMapEntry → Nat × List BootMemoryMapEntry
  | [] => (null, [])
  | e :: es =>
    if e.type ≠ .free then
      let r := placePass pageMapAmount es
      (r.1, e :: r.2)
    else
      let e := skipPageZero e
      let pagemapSize := w64 (pageMapAmount * sizeofPageMap)
      if e.size ≥ pagemapSize then
        let pmsizeAligned := alignUp pagemapSize
        (e.base, { e with size := sub64 e.size pmsizeAligned, base := w64 (e.base + pmsizeAligned) }
          :: es)
      else
        let r := placePass pageMapAmount es
        (r.1, e :: r.2)

/-- The pages of the filling pass, in order. -/
def fillPages (es : List BootMemoryMapEntry) : List Nat :=
  (es.filter (·.type = .free)).flatMap fun e => entryLoop (alignUp e.base) (alignDown e.size)

/-- The writes of the filling pass, from `pageMap[curPageMap]` on. -/
def fillMap : List Nat → Nat → State → State
  | [], _, s => s
  | j :: js, curPageMap, s =>
    fillMap js (curPageMap + 1)
      { s with address := upd s.address curPageMap j, isFree := upd s.isFree curPageMap true }

/-- The memory from `pageMap` on, read as page map entries of 9 bytes. -/
def mapAt (mem : Bytes) (pageMap pageMapAmount : Nat) (h : pageMapAmount < 2 ^ 64) : State where
  address := fun i => mem.read (w64 (pageMap + i * sizeofPageMap)) 8
  isFree := fun i => (mem (w64 (pageMap + i * sizeofPageMap + 8))).toNat % 2 == 1
  pageMapAmount := pageMapAmount
  pageUsed := 0
  pageMapAmount_lt := h

/-- The amount counted is a `u64`, which is the bound the state of the allocator carries. -/
theorem countPass_lt : ∀ (es : List BootMemoryMapEntry) (n : Nat), n < 2 ^ 64 →
    (countPass es n).2 < 2 ^ 64
  | [], _, h => h
  | e :: es, n, h => by
    rw [countPass]
    split
    · exact countPass_lt es n h
    · exact countPass_lt es _ (w64_lt _)

/-- What init leaves and returns. -/
structure Initialised where
  pageMap : Nat
  pmm : State
  status : NearStatus

/-- `MmInitPhysicalMemoryManager(memMap)`, on statics that are still zero.  The entries of `memMap`
    are kept as a value: the code reads them once more when it fills the page map, after it has written
    to the storage it cut out of a free entry (`placePass`), and here these writes do not reach the
    entries.  So everything below is about boots whose entries do not themselves lie in memory that the
    map calls free; `Ldr.Handover` says when the loader gives such a map. -/
def mmInitPhysicalMemoryManager (mem : Bytes) (memMap : BootMemoryMap) : Initialised :=
  let counted := countPass memMap.memEntries 0
  let hlt := countPass_lt memMap.memEntries 0 (by decide)
  if counted.2 = 0 then ⟨null, mapAt mem null counted.2 hlt, .noValidMemory⟩
  else
    let placed := placePass counted.2 counted.1
    if placed.1 = null then ⟨null, mapAt mem null counted.2 hlt, .notEnoughMemory⟩
    else
      ⟨placed.1, fillMap (fillPages placed.2) 0 (mapAt mem placed.1 counted.2 hlt), .success⟩

/-! ## Pages -/

/-- The loop as a list of known length.  With aligned bounds the loop takes the addresses from `j`
    on a page at a time and stops at `stop`, so that its length is the difference in pages; `hfuel`
    asks for as many turns as that.  The induction is on the fuel, and `stop < 2 ^ 64` keeps the
    step from wrapping around before the test is made. -/
theorem pageLoop_eq : ∀ {fuel j stop : Nat}, j % 0x1000 = 0 → stop < 2 ^ 64 →
    stop % 0x1000 = 0 → stop ≤ j + fuel * 0x1000 →
    pageLoop fuel j stop = (List.range ((stop - j) / 0x1000)).map fun k => j + k * 0x1000
  | 0, j, stop, hj, hlt, hstop, hfuel => by
    rw [pageLoop, show (stop - j) / 0x1000 = 0 by omega]
    rfl
  | fuel + 1, j, stop, hj, hlt, hstop, hfuel => by
    rw [pageLoop]
    by_cases hjs : j < stop
    · have hnext : w64 (j + pageSize) = j + 0x1000 := by
        rw [pageSize, w64_of_lt (by omega)]
      have hlength : (stop - j) / 0x1000 = (stop - (j + 0x1000)) / 0x1000 + 1 := by omega
      rw [if_pos hjs, hnext, pageLoop_eq (by omega) hlt hstop (by omega), hlength,
        List.range_succ_eq_map, List.map_cons, List.map_map]
      have hfirst : j + 0 * 0x1000 = j := by rw [Nat.zero_mul, Nat.add_zero]
      have hrest : ∀ k, j + 0x1000 + k * 0x1000 = j + k.succ * 0x1000 := fun k => by
        rw [Nat.succ_mul]
        omega
      exact congrArg₂ List.cons hfirst.symm (List.map_congr_left fun k _ => hrest k)
    · rw [if_neg hjs, show (stop - j) / 0x1000 = 0 by omega]
      rfl

/-- An entry of whole pages that does not wrap around. -/
theorem entryLoop_eq {base size : Nat} (hb : base % 0x1000 = 0) (hs : size % 0x1000 = 0)
    (hfit : base + size < 2 ^ 64) :
    entryLoop base size = (List.range (size / 0x1000)).map fun k => base + k * 0x1000 := by
  rw [entryLoop, w64_of_lt hfit, pageLoop_eq hb hfit (by omega) (by omega)]
  congr 3
  omega

/-- One that ends at `2 ^ 64` has no pages in the loop.  The sum `base + size` is then 0 as a `u64`,
    and the first test fails: such an entry is FREE memory that the page map never sees. -/
theorem entryLoop_top {base size : Nat} (hfit : base + size = 2 ^ 64) : entryLoop base size = [] := by
  rw [entryLoop, hfit, show w64 (2 ^ 64) = 0 from rfl]
  exact if_neg (Nat.not_lt_zero base)

/-- Rounding up leaves an aligned address alone. -/
theorem alignUp_of_mod {x : Nat} (hx : x % 0x1000 = 0) (hlt : x < 2 ^ 64) : alignUp x = x := by
  rw [alignUp, pageSize, w64_of_lt (by omega)]
  omega

/-- So does rounding down. -/
theorem alignDown_of_mod {x : Nat} (hx : x % 0x1000 = 0) : alignDown x = x := by
  rw [alignDown, pageSize]
  omega

end Nearlands.Pagemap

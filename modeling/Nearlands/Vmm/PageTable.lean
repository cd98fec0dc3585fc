/-
  The page tables (`mm/amd64pc/vmm.c`).

  A table is a page of 512 words; `words page i` is the word `i` of the page at an address.  All
  table pointers are page-aligned: `PARSE_ENTRY_VALUE` masks the low bits away.

  `MmAllocateSinglePage` is a tape: the answers it will give, in order, `NULL` for a failure and
  `NULL` for ever once the tape is at its end.  Every pattern of successes and failures is a tape.
  The invalidation of the TLB has no effect on the tables and is left out.
-/
import Nearlands.Types
import Nearlands.Lib.Radix

namespace Nearlands.Vmm

open Nearlands.Lib

/-- The words of memory, and the answers of the page allocator to come. -/
structure State where
  words : Nat → Nat → Nat
  tape : List Nat

/-- The bit of an entry that says there is something behind it. -/
@[reducible] def PG_PRESENT : Nat := 0x1

/-- The bit that allows writes.  The kernel sets it in every entry that it makes. -/
@[reducible] def PG_READ_WRITE : Nat := 0x2

/-- `HHDM_OFFSET`.  The kernel image lies here; the direct map that the name promises is not made by
    this code. -/
@[reducible] def HHDM_OFFSET : Nat := 0xFFFFFF8000000000

/-- `GET_PML4_ENTRY(x)`. -/
def getPml4Entry (x : Nat) : Nat := (x &&& (0x1ff <<< 39)) >>> 39

/-- `GET_PDPT_ENTRY(x)`. -/
def getPdptEntry (x : Nat) : Nat := (x &&& (0x1ff <<< 30)) >>> 30

/-- `GET_PD_ENTRY(x)`. -/
def getPdEntry (x : Nat) : Nat := (x &&& (0x1ff <<< 21)) >>> 21

/-- `GET_PT_ENTRY(x)`. -/
def getPtEntry (x : Nat) : Nat := (x &&& (0x1ff <<< 12)) >>> 12

/-- `PARSE_ENTRY_VALUE(x)`: `x & ~0xFFF`, the `int` sign-extended to 64 bits.  Bits 12 to 63 stay,
    with them the no-execute bit and the bits that hardware ignores; the code here never sets any of
    these. -/
def parseEntryValue (x : Nat) : Nat := x &&& 0xFFFFFFFFFFFFF000

/-- `MmAllocateSinglePage()`.  An answer is used up by being asked for, whether or not it is a
    page. -/
def State.mmAllocateSinglePage (s : State) : State × Nat :=
  match s.tape with
  | [] => (s, null)
  | address :: tape => ({ s with tape := tape }, address)

/-- `GetNextLevel(pml, entry, flags)`.  The flags are passed and not used.  The index is always
    below 512, being nine bits of an address, so that the first test never fails. -/
def State.getNextLevel (s : State) (pml entry _flags : Nat) : State × NearStatus :=
  if entry ≥ 512 then (s, .invalidPmlEntry)
  else
    let (s, address) := s.mmAllocateSinglePage
    if address = null then (s, .outOfMemory)
    else
      -- `memset(address, 0, PAGE_SIZE)`, then the entry
      let words := Radix.write (Radix.clear s.words address) pml entry
        (address ||| PG_PRESENT ||| PG_READ_WRITE)
      ({ s with words := words }, .success)

/-- `if(pml[entry] == 0x0) GetNextLevel(pml, entry, flags)`.  A level is recognised by its entry
    being zero, not by its present bit; for entries that this code wrote the two agree
    (`Inv.present_iff`). -/
def State.ensureLevel (s : State) (pml entry flags : Nat) : State × NearStatus :=
  if s.words pml entry = 0 then s.getNextLevel pml entry flags else (s, .success)

/-- `MmMapPage(table, physAddr, virtAddr, flags)`; `pml4` is `table->pml4`.  Three levels are made
    sure of, and each may fail; what was made until then stays.  The entry of the page is written
    without a look at what was there. -/
def State.mmMapPage (s : State) (pml4 physAddr virtAddr flags : Nat) : State × NearStatus :=
  let pml4Entry := getPml4Entry virtAddr
  let pdptEntry := getPdptEntry virtAddr
  let pdEntry := getPdEntry virtAddr
  let ptEntry := getPtEntry virtAddr
  let r := s.ensureLevel pml4 pml4Entry (flags ||| PG_READ_WRITE)
  if r.2.nrSuccess = false then r
  else
    let pdpt := parseEntryValue (r.1.words pml4 pml4Entry)
    let r := r.1.ensureLevel pdpt pdptEntry (flags ||| PG_READ_WRITE)
    if r.2.nrSuccess = false then r
    else
      let pd := parseEntryValue (r.1.words pdpt pdptEntry)
      let r := r.1.ensureLevel pd pdEntry flags
      if r.2.nrSuccess = false then r
      else
        let pt := parseEntryValue (r.1.words pd pdEntry)
        let words := Radix.write r.1.words pt ptEntry
          (physAddr ||| PG_PRESENT ||| PG_READ_WRITE)
        ({ r.1 with words := words }, .success)

/-- `MmUnmapPage(table, virtAddr)`.  The last entry is not read: where the way down exists, the page
    counts as mapped. -/
def State.mmUnmapPage (s : State) (pml4 virtAddr : Nat) : State × NearStatus :=
  let pml4Entry := getPml4Entry virtAddr
  let pdptEntry := getPdptEntry virtAddr
  let pdEntry := getPdEntry virtAddr
  let ptEntry := getPtEntry virtAddr
  if s.words pml4 pml4Entry = 0 then (s, .notMapped)
  else
    let pdpt := parseEntryValue (s.words pml4 pml4Entry)
    if s.words pdpt pdptEntry = 0 then (s, .notMapped)
    else
      let pd := parseEntryValue (s.words pdpt pdptEntry)
      if s.words pd pdEntry = 0 then (s, .notMapped)
      else
        let pt := parseEntryValue (s.words pd pdEntry)
        ({ s with words := Radix.write s.words pt ptEntry 0 }, .success)

/-- `MmCheckIfPageIsMapped(table, virtAddr)`. -/
def State.mmCheckIfPageIsMapped (s : State) (pml4 virtAddr : Nat) : Bool :=
  let pml4Entry := getPml4Entry virtAddr
  let pdptEntry := getPdptEntry virtAddr
  let pdEntry := getPdEntry virtAddr
  let ptEntry := getPtEntry virtAddr
  if s.words pml4 pml4Entry = 0 then false
  else
    let pdpt := parseEntryValue (s.words pml4 pml4Entry)
    if s.words pdpt pdptEntry = 0 then false
    else
      let pd := parseEntryValue (s.words pdpt pdptEntry)
      if s.words pd pdEntry = 0 then false
      else
        let pt := parseEntryValue (s.words pd pdEntry)
        if s.words pt ptEntry = 0 then false else true

/-! ## The hardware -/

/-- The entry has its present bit set. -/
def present (x : Nat) : Prop := x &&& PG_PRESENT ≠ 0

instance (x : Nat) : Decidable (present x) := inferInstanceAs (Decidable (_ ≠ _))

/-- The 4-level walk: the physical page of a virtual address, by present bits.  This is what the
    processor does, as far as the physical page is concerned; pages larger than 4 KiB are not made
    by this code, and their bit is not looked at. -/
def State.walk (s : State) (pml4 virtAddr : Nat) : Option Nat :=
  let pml4e := s.words pml4 (getPml4Entry virtAddr)
  if present pml4e then
    let pdpte := s.words (parseEntryValue pml4e) (getPdptEntry virtAddr)
    if present pdpte then
      let pde := s.words (parseEntryValue pdpte) (getPdEntry virtAddr)
      if present pde then
        let pte := s.words (parseEntryValue pde) (getPtEntry virtAddr)
        if present pte then some (parseEntryValue pte) else none
      else none
    else none
  else none

/-! ## The bits of entries and addresses -/

/-- Masking nine bits and shifting them down. -/
theorem and_shift_eq (x k : Nat) : (x &&& (0x1ff <<< k)) >>> k = x / 2 ^ k % 512 := by
  rw [Nat.shiftRight_and_distrib, Nat.shiftLeft_shiftRight, Nat.shiftRight_eq_div_pow]
  exact Nat.and_two_pow_sub_one_eq_mod _ 9

/-- Bits 39 to 47. -/
theorem getPml4Entry_eq (x : Nat) : getPml4Entry x = x / 2 ^ 39 % 512 := and_shift_eq x 39

/-- Bits 30 to 38. -/
theorem getPdptEntry_eq (x : Nat) : getPdptEntry x = x / 2 ^ 30 % 512 := and_shift_eq x 30

/-- Bits 21 to 29. -/
theorem getPdEntry_eq (x : Nat) : getPdEntry x = x / 2 ^ 21 % 512 := and_shift_eq x 21

/-- Bits 12 to 20. -/
theorem getPtEntry_eq (x : Nat) : getPtEntry x = x / 2 ^ 12 % 512 := and_shift_eq x 12

/-- The entry that leads to an aligned page. -/
theorem entry_eq {x : Nat} (h : x % 0x1000 = 0) : x ||| PG_PRESENT ||| PG_READ_WRITE = x + 3 := by
  have h1 : 2 ^ 12 * (x / 2 ^ 12) = x := by omega
  rw [Nat.or_assoc, ← h1]
  exact (Nat.two_pow_add_eq_or_of_lt (by decide) _).symm

/-- So the hardware follows the entry. -/
theorem present_entry {x : Nat} (h : x % 0x1000 = 0) :
    present (x ||| PG_PRESENT ||| PG_READ_WRITE) := by
  rw [present, PG_PRESENT]
  rw [entry_eq h, Nat.and_one_is_mod]
  omega

/-- An entry that was written is present, also with an address that is not aligned. -/
theorem present_written (x : Nat) : present (x ||| PG_PRESENT ||| PG_READ_WRITE) := by
  have hbit : (x ||| PG_PRESENT ||| PG_READ_WRITE).testBit 0 = true := by
    rw [Nat.testBit_or, Nat.testBit_or, show PG_PRESENT.testBit 0 = true from rfl, Bool.or_true,
      Bool.true_or]
  rw [present, PG_PRESENT, Nat.and_one_is_mod, Nat.mod_two_ne_zero]
  exact of_decide_eq_true (Nat.testBit_zero _ ▸ hbit)

/-- So an entry that was written is not taken for an empty one. -/
theorem written_ne_zero (x : Nat) : x ||| PG_PRESENT ||| PG_READ_WRITE ≠ 0 := by
  intro h0
  have hpres := present_written x
  rw [h0] at hpres
  exact hpres rfl

/-- Masking rounds down to a page. -/
theorem parseEntryValue_eq {x : Nat} (h : x < 2 ^ 64) : parseEntryValue x = x / 0x1000 * 0x1000 := by
  have hmask : (0xFFFFFFFFFFFFF000 : Nat) = (2 ^ 52 - 1) * 2 ^ 12 := by decide
  rw [parseEntryValue]
  refine Nat.eq_of_testBit_eq fun i => ?_
  rw [hmask, Nat.testBit_and, Nat.testBit_mul_two_pow, Nat.testBit_two_pow_sub_one,
    show x / 0x1000 * 0x1000 = x / 2 ^ 12 * 2 ^ 12 by rfl, Nat.testBit_mul_two_pow,
    Nat.testBit_div_two_pow]
  by_cases h12 : 12 ≤ i
  · rw [Nat.sub_add_cancel h12]
    by_cases h64 : i < 64
    · simp [h12, show i - 12 < 52 by omega]
    · have hbig : x.testBit i = false :=
        Nat.testBit_lt_two_pow (Nat.lt_of_lt_of_le h (Nat.pow_le_pow_right (by decide) (by omega)))
      simp [hbig]
  · simp [h12]

/-- The entry leads to its page. -/
theorem parseEntryValue_entry {x : Nat} (h : x % 0x1000 = 0) (hx : x < 2 ^ 64) :
    parseEntryValue (x ||| PG_PRESENT ||| PG_READ_WRITE) = x := by
  rw [entry_eq h, parseEntryValue_eq (by omega)]
  omega

end Nearlands.Vmm

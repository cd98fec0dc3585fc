/-
  The kernel image in memory (`nearmonia`, `ldr/peldr.c`).

  The loader follows pointers into the file it has read: the headers are where numbers of the file
  say they are, in whatever memory is there.  So the model has a whole memory, and every header
  field is read from it when the code reads it, after whatever was written before.  `reads` has
  the bytes read through a pointer into the file, `writes` the bytes written by
  `LoadSectionsIntoMemory`.  The loader is built for `x86_64-pc-win32-coff`: a `long` has 32 bits.
  What `LdrTermPrint` does to the screen and the serial line is left out, but it reads the name of
  a section as a string.
-/
import Nearlands.Lib.Bytes

namespace Nearlands.Ldr

open Nearlands.Lib

/-! ## The headers -/

/-- A field of a header.  Headers are not parsed into records: a field is read from memory each time
    the source reads it, as a section may have been written over it in the meantime. -/
structure Field where
  offset : Nat
  size : Nat
  deriving DecidableEq, Repr

/-- The bytes of the field in a header at `base`. -/
def Field.span (f : Field) (base : Nat) : Span := ⟨base + f.offset, f.size⟩

/-- The field of a header at `base`.  Little-endian, as the machine has it. -/
def Field.get (f : Field) (m : Bytes) (base : Nat) : Nat := m.read (base + f.offset) f.size

/-- `IMAGE_DOS_HEADER.e_lfanew`, behind 30 `WORD`s. -/
def eLfanew : Field := ⟨30 * 2, 4⟩

/-- `IMAGE_NT_HEADERS64.FileHeader.NumberOfSections`. -/
def numberOfSections : Field := ⟨4 + 2, 2⟩

/-- `FileHeader.SizeOfOptionalHeader`. -/
def sizeOfOptionalHeader : Field := ⟨4 + 16, 2⟩

/-- `FIELD_OFFSET(IMAGE_NT_HEADERS64, OptionalHeader)`. -/
@[reducible] def optionalHeader : Nat := 4 + 20

/-- `OptionalHeader.AddressOfEntryPoint`. -/
def addressOfEntryPoint : Field := ⟨optionalHeader + 16, 4⟩

/-- `OptionalHeader.ImageBase`. -/
def imageBase : Field := ⟨optionalHeader + 24, 8⟩

/-- `OptionalHeader.SizeOfImage`. -/
def sizeOfImage : Field := ⟨optionalHeader + 56, 4⟩

/-- `IMAGE_SECTION_HEADER.Misc.VirtualSize`, behind the 8 bytes of `Name`. -/
def virtualSize : Field := ⟨8, 4⟩

/-- `IMAGE_SECTION_HEADER.VirtualAddress`. -/
def virtualAddress : Field := ⟨12, 4⟩

/-- `IMAGE_SECTION_HEADER.SizeOfRawData`. -/
def sizeOfRawData : Field := ⟨16, 4⟩

/-- `IMAGE_SECTION_HEADER.PointerToRawData`. -/
def pointerToRawData : Field := ⟨20, 4⟩

/-- `sizeof(IMAGE_SECTION_HEADER)`. -/
@[reducible] def sizeofSectionHeader : Nat := 40

/-- `sizeof(BootInfo)`. -/
@[reducible] def sizeofBootInfo : Nat := 96

/-- A `LONG` as an offset to a pointer.  `e_lfanew` is a `LONG`: a file may point backwards from its
    beginning, and the loader follows. -/
def signExtend (x : Nat) : Nat := if x < 2 ^ 31 then x else x + (2 ^ 64 - 2 ^ 32)

/-- `"MZ"`. -/
def mzSignature : List UInt8 := [0x4D, 0x5A]

/-- `"PE\0\0"`. -/
def peSignature : List UInt8 := [0x50, 0x45, 0, 0]

/-- `".ldr"`. -/
def ldrName : List UInt8 := [0x2E, 0x6C, 0x64, 0x72]

/-! ## The program -/

/-- Memory, and the accesses made so far, newest first.  The two lists are not in the source.  They
    are what the claims about bounds speak of, and no function reads them. -/
structure Loading where
  mem : Bytes
  reads : List Span
  writes : List Span

namespace Loading

/-- A field of a header in the file. -/
def field (l : Loading) (base : Nat) (f : Field) : Loading × Nat :=
  ({ l with reads := f.span base :: l.reads }, f.get l.mem base)

/-- `memcmp` of bytes of the file with a string.  It stops at the first difference, so that only
    what was compared is read. -/
def memcmp (l : Loading) (p : Nat) (s : List UInt8) : Loading × Int :=
  ({ l with reads := ⟨p, l.mem.memcmpReads p s⟩ :: l.reads }, l.mem.memcmp p s)

/-- `LdrTermPrint` of a string of the file: it looks for its end.  Nothing stops it at the end of
    the eight bytes that a name has, or of the file. -/
def ldrTermPrint (l : Loading) (p : Nat) : Loading :=
  { l with reads := ⟨p, l.mem.strlen p + 1⟩ :: l.reads }

/-- A fill, with the place that it goes to. -/
def memset (l : Loading) (dst : Nat) (c : UInt8) (n : Nat) : Loading :=
  { l with mem := l.mem.memset dst c n, writes := ⟨dst, n⟩ :: l.writes }

/-- A copy from the loader's own memory, with the place that it goes to. -/
def memcpy (l : Loading) (dst src n : Nat) : Loading :=
  { l with mem := l.mem.memcpy dst src n, writes := ⟨dst, n⟩ :: l.writes }

/-- `memcpy` from the file. -/
def memcpyContent (l : Loading) (dst src n : Nat) : Loading :=
  { l.memcpy dst src n with reads := ⟨src, n⟩ :: l.reads }

/-- One turn of the loop of `LoadSectionsIntoMemory`.  The order is that of the source: zeros first,
    then the name, then a copy whose size nobody has compared with the size of the zeros.  The
    address is read again after the zeroing. -/
def loadSection (l : Loading) (content bInfo base secHeader : Nat) : Loading :=
  let (l, address) := l.field secHeader virtualAddress
  let (l, size) := l.field secHeader virtualSize
  let l := l.memset (base + address) 0 size
  let l := l.ldrTermPrint secHeader
  let (l, cmp) := l.memcmp secHeader ldrName
  let (l, address) := l.field secHeader virtualAddress
  if cmp = 0 then l.memcpy (base + address) bInfo sizeofBootInfo
  else
    let (l, pointer) := l.field secHeader pointerToRawData
    let (l, size) := l.field secHeader sizeOfRawData
    l.memcpyContent (base + address) (content + pointer) size

/-- The loop from turn `i` on, with at most `fuel` turns.  `NumberOfSections` is read before every
    turn, since the turn before may have written over it. -/
def loadSections (l : Loading) (content ntHeader bInfo base : Nat) : Nat → Nat → Nat → Loading
  | 0, _, _ => l
  | fuel + 1, i, secHeader =>
    let (l, number) := l.field ntHeader numberOfSections
    if i < number then
      (l.loadSection content bInfo base secHeader).loadSections content ntHeader bInfo base fuel
        (i + 1) (secHeader + sizeofSectionHeader)
    else l

/-- `GET_FIRST_SECTION(ntHeader)`. -/
def getFirstSection (l : Loading) (ntHeader : Nat) : Loading × Nat :=
  let (l, size) := l.field ntHeader sizeOfOptionalHeader
  (l, ntHeader + optionalHeader + size)

/-- `LoadSectionsIntoMemory(content, ntHeader, bInfo)`; `NumberOfSections` is a `WORD`.  No fuel is
    missed: the counter passes every value of a `WORD` within `2 ^ 16` turns. -/
def loadSectionsIntoMemory (l : Loading) (content ntHeader bInfo : Nat) : Loading :=
  let (l, base) := l.field ntHeader imageBase
  let (l, secHeader) := l.getFirstSection ntHeader
  l.loadSections content ntHeader bInfo base (2 ^ 16) 0 secHeader

end Loading

/-! ## One section -/

section turn

variable (m : Bytes) (content bInfo base secHeader : Nat)

/-- Memory after the zeroing of a section. -/
def zeroed : Bytes :=
  m.memset (base + virtualAddress.get m secHeader) 0 (virtualSize.get m secHeader)

/-- The section gets the `BootInfo`.  The comparison is of four bytes, so `.ldrx` is such a section,
    too. -/
def IsLdr : Prop := m.memcmp secHeader ldrName = 0

instance : Decidable (IsLdr m secHeader) := inferInstanceAs (Decidable (_ = _))

/-- How many bytes are copied into the section. -/
def copySize : Nat :=
  if IsLdr m secHeader then sizeofBootInfo else sizeOfRawData.get m secHeader

/-- Memory after the copy.  This comes after the zeroing, which may have changed the header itself. -/
def copied : Bytes :=
  m.memcpy (base + virtualAddress.get m secHeader)
    (if IsLdr m secHeader then bInfo else content + pointerToRawData.get m secHeader)
    (copySize m secHeader)

/-- What the zeroing and the copy write. -/
def zeroSpan : Span := ⟨base + virtualAddress.get m secHeader, virtualSize.get m secHeader⟩

/-- The bytes that the copy writes, from where the zeros began. -/
def copySpan : Span := ⟨base + virtualAddress.get m secHeader, copySize m secHeader⟩

/-- What is read of the header before the copy. -/
def headerReads : List Span :=
  [virtualAddress.span secHeader, ⟨secHeader, m.memcmpReads secHeader ldrName⟩,
    ⟨secHeader, m.strlen secHeader + 1⟩]

/-- What is read for the copy. -/
def copyReads : List Span :=
  if IsLdr m secHeader then []
  else [⟨content + pointerToRawData.get m secHeader, sizeOfRawData.get m secHeader⟩,
    sizeOfRawData.span secHeader, pointerToRawData.span secHeader]

end turn

/-- What one turn does.  All fields of the header are read in the memory that the zeroing has left,
    but for the first two. -/
theorem loadSection_eq (l : Loading) (content bInfo base secHeader : Nat) :
    l.loadSection content bInfo base secHeader =
      { mem := copied (zeroed l.mem base secHeader) content bInfo base secHeader
        reads := copyReads (zeroed l.mem base secHeader) content secHeader ++
          (headerReads (zeroed l.mem base secHeader) secHeader ++
            virtualSize.span secHeader :: virtualAddress.span secHeader :: l.reads)
        writes := copySpan (zeroed l.mem base secHeader) base secHeader ::
          zeroSpan l.mem base secHeader :: l.writes } := by
  rw [copied, copyReads, copySpan, copySize]
  rcases Decidable.em (IsLdr (zeroed l.mem base secHeader) secHeader) with hldr | hldr
  · rw [if_pos hldr, if_pos hldr, if_pos hldr]
    show ite (IsLdr (zeroed l.mem base secHeader) secHeader) _ _ = _
    rw [if_pos hldr]
    rfl
  · rw [if_neg hldr, if_neg hldr, if_neg hldr]
    show ite (IsLdr (zeroed l.mem base secHeader) secHeader) _ _ = _
    rw [if_neg hldr]
    dsimp only [Loading.field, Loading.memset, Loading.ldrTermPrint, Loading.memcmp,
      Loading.memcpyContent, Loading.memcpy]
    rfl

/-! ## The loop -/

section loop

variable (content ntHeader bInfo base : Nat)

/-- One turn of the loop, with the test that lets it begin. -/
def Loading.turn (l : Loading) (secHeader : Nat) : Loading :=
  (l.field ntHeader numberOfSections).1.loadSection content bInfo base secHeader

variable {content ntHeader bInfo base}

/-- One turn, and the rest of the loop. -/
theorem loadSections_succ (l : Loading) (fuel i secHeader : Nat) :
    l.loadSections content ntHeader bInfo base (fuel + 1) i secHeader =
      if i < numberOfSections.get l.mem ntHeader then
        (l.turn content ntHeader bInfo base secHeader).loadSections content ntHeader bInfo base
          fuel (i + 1) (secHeader + sizeofSectionHeader)
      else (l.field ntHeader numberOfSections).1 := rfl

/-- It is a `WORD`. -/
theorem numberOfSections_lt (m : Bytes) (ntHeader : Nat) :
    numberOfSections.get m ntHeader < 2 ^ 16 := Bytes.read_lt m 2 _

/-- What has been read and written stays in the books. -/
theorem loadSection_grow (content bInfo base : Nat) (l : Loading) (secHeader : Nat) :
    l.reads ⊆ (l.loadSection content bInfo base secHeader).reads ∧
    l.writes ⊆ (l.loadSection content bInfo base secHeader).writes := by
  rw [loadSection_eq]
  constructor
  · intro a ha
    exact List.mem_append_right _ (List.mem_append_right _
      (List.mem_cons_of_mem _ (List.mem_cons_of_mem _ ha)))
  · intro a ha
    exact List.mem_cons_of_mem _ (List.mem_cons_of_mem _ ha)

/-- So does what the loop has read and written. -/
theorem loadSections_grow : ∀ (fuel i secHeader : Nat) (l : Loading),
    let l' := l.loadSections content ntHeader bInfo base fuel i secHeader
    l.reads ⊆ l'.reads ∧ l.writes ⊆ l'.writes := by
  intro fuel
  induction fuel with
  | zero =>
    intro i secHeader l
    exact ⟨List.Subset.refl l.reads, List.Subset.refl l.writes⟩
  | succ fuel ih =>
    intro i secHeader l
    dsimp only
    rw [loadSections_succ]
    split
    · obtain ⟨hr, hw⟩ := loadSection_grow content bInfo base (l.field ntHeader numberOfSections).1
        secHeader
      obtain ⟨hr', hw'⟩ := ih (i + 1) (secHeader + sizeofSectionHeader)
        (l.turn content ntHeader bInfo base secHeader)
      exact ⟨fun a ha => hr' (hr (List.mem_cons_of_mem _ ha)), fun a ha => hw' (hw ha)⟩
    · exact ⟨List.subset_cons_self _ l.reads, List.Subset.refl l.writes⟩

end loop

end Nearlands.Ldr

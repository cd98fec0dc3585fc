/-
  The memory map that the loader makes (`nearmonia`, `mm/amd64pc/mem.c`).

  `MmRetrieveCurrentMemoryMap` asks the firmware for its descriptors and the key of the map, and
  copies them to pool memory: a record of four numbers, `MemoryMap`, and an array of entries that the
  record points to.  Both are bytes here, as they are in the machine.  The loader reads the key back
  from them when it leaves the boot services, the kernel reads the entries, and in between the image
  of the kernel is written to wherever its headers say.

  When the function returns, the record and the array hold what the snapshot was (`Holds`), since the
  firmware gives out no byte twice; and as long as nobody writes to them, they do
  (`Holds.kept`).
-/
import Nearlands.Lib.Packed
import Nearlands.Ldr.BootServices

namespace Nearlands.Ldr

open Nearlands.Lib Nearlands.Vmm

/-! ## The two records -/

/-- The fields of `MemoryMap`.  Four numbers of eight bytes each, the first of them an address. -/
inductive MapField
  | memEntries | amountOfEntries | sizeOfEntireMemory | mapKey
  deriving DecidableEq, Repr

/-- `MemoryMap`, which the kernel reads as its `BootMemoryMap`. -/
def memoryMapRecord : Layout MapField where
  offset
    | .memEntries => 0
    | .amountOfEntries => 8
    | .sizeOfEntireMemory => 16
    | .mapKey => 24
  size _ := 8
  total := 32
  inside := by rintro ⟨⟩ <;> decide
  apart := by rintro ⟨⟩ ⟨⟩ <;> decide

/-- The fields of `MemoryMapEntry`.  The last one is an `enum`, of four bytes. -/
inductive EntryField
  | base | size | type
  deriving DecidableEq, Repr

/-- `MemoryMapEntry`, four bytes longer than its fields. -/
def memoryMapEntryRecord : Layout EntryField where
  offset
    | .base => 0
    | .size => 8
    | .type => 16
  size
    | .base | .size => 8
    | .type => 4
  total := 24
  inside := by rintro ⟨⟩ <;> decide
  apart := by rintro ⟨⟩ ⟨⟩ <;> decide

/-- `sizeof(MemoryMap)`. -/
@[reducible] def sizeofMemoryMap : Nat := 32

/-- `sizeof(MemoryMapEntry)`. -/
@[reducible] def sizeofMemoryMapEntry : Nat := 24

/-- A `MemoryEntryTypes` as a number.  The numbers are those of the `enum`, from 0 on. -/
def typeNumber : BootMemoryEntryType → Nat
  | .free => 0
  | .used => 1
  | .acpi => 2

/-- And back; the kernel compares with `BOOT_MEM_TYPE_FREE` only. -/
def typeOfNumber : Nat → BootMemoryEntryType
  | 0 => .free
  | 1 => .used
  | _ => .acpi

/-- A type comes back from its number. -/
theorem typeOfNumber_typeNumber (t : BootMemoryEntryType) : typeOfNumber (typeNumber t) = t := by
  cases t <;> rfl

/-- `&memMap->memEntries[i]`.  The address of the array is read from the record each time, as in the
    source. -/
def entryAddress (m : Bytes) (memMap i : Nat) : Nat :=
  memoryMapRecord.get m memMap .memEntries + i * sizeofMemoryMapEntry

/-- The entry at an address. -/
def readEntry (m : Bytes) (x : Nat) : BootMemoryMapEntry :=
  ⟨memoryMapEntryRecord.get m x .base, memoryMapEntryRecord.get m x .size,
    typeOfNumber (memoryMapEntryRecord.get m x .type)⟩

/-- The entries of the map at `memMap`, as the kernel reads them.  The kernel trusts both numbers of
    the record. -/
def entriesAt (m : Bytes) (memMap : Nat) : List BootMemoryMapEntry :=
  (List.range (memoryMapRecord.get m memMap .amountOfEntries)).map fun i =>
    readEntry m (entryAddress m memMap i)

/-! ## The program -/

/-- The `switch` over the type of a descriptor.  Boot services memory counts as used, although the
    firmware will not need it any more. -/
def memoryEntryType (type : Nat) : BootMemoryEntryType :=
  if type = EfiConventionalMemory then .free
  else if type = EfiACPIMemoryNVS ∨ type = EfiACPIReclaimMemory then .acpi
  else .used

/-- The entry that a descriptor becomes. -/
def EfiMemoryDescriptor.entry (d : EfiMemoryDescriptor) : BootMemoryMapEntry :=
  ⟨d.physicalStart, d.size, memoryEntryType d.type⟩

/-- What `MmRetrieveCurrentMemoryMap` has after its second `GetMemoryMap`.  The descriptors and the
    key are those of one moment; the allocation of the entries comes after it. -/
structure Snapshot where
  efiMemMap : Nat
  memMap : Nat
  descriptors : List EfiMemoryDescriptor
  mapKey : Nat

/-- `amountOfEntries * sizeof(MemoryMapEntry)`. -/
def Snapshot.entriesSize (n : Snapshot) : Nat := n.descriptors.length * sizeofMemoryMapEntry

/-- One turn of the loop over the descriptors; `memMap->memEntries` is read for every store.  The
    source fills the entry field by field, and adds its size to the total in between. -/
def storeEntry (memMap i : Nat) (m : Bytes) (d : EfiMemoryDescriptor) : Bytes :=
  let m := memoryMapEntryRecord.set m (entryAddress m memMap i) .base d.physicalStart
  let m := memoryMapEntryRecord.set m (entryAddress m memMap i) .size d.size
  let m := memoryMapRecord.set m memMap .sizeOfEntireMemory
    (memoryMapRecord.get m memMap .sizeOfEntireMemory +
      memoryMapEntryRecord.get m (entryAddress m memMap i) .size)
  memoryMapEntryRecord.set m (entryAddress m memMap i) .type (typeNumber (memoryEntryType d.type))

/-- The loop, from descriptor `i` on. -/
def storeEntries (memMap : Nat) (m : Bytes) : Nat → List EfiMemoryDescriptor → Bytes
  | _, [] => m
  | i, d :: ds => storeEntries memMap (storeEntry memMap i m d) (i + 1) ds

/-- What `MmRetrieveCurrentMemoryMap` writes once `AllocatePool` has put the address of the array
    into the record.  The key is stored last. -/
def Snapshot.fill (n : Snapshot) (memEntries : Nat) (m : Bytes) : Bytes :=
  let m := memoryMapRecord.set m n.memMap .memEntries memEntries
  let m := m.memset (memoryMapRecord.get m n.memMap .memEntries) 0 n.entriesSize
  let m := memoryMapRecord.set m n.memMap .amountOfEntries n.descriptors.length
  let m := storeEntries n.memMap m 0 n.descriptors
  memoryMapRecord.set m n.memMap .mapKey n.mapKey

namespace BootServices

variable {σ : Type} (b : BootServices σ)

/-- `MmRetrieveCurrentMemoryMap` up to its second `GetMemoryMap`.  Room for eight descriptors more
    than there are is asked for, since the allocation of the buffer may add some. -/
def takeSnapshot (s : Session σ) : Session σ × Option Snapshot :=
  let memMapSize := b.mapSize s.state + b.descriptorSize * 8
  match b.takePool s EfiLoaderData memMapSize with
  | (s, none) => (s, none)
  | (s, some efiMemMap) =>
    match b.takePool s EfiLoaderData sizeofMemoryMap with
    | (s, none) => (b.givePool s efiMemMap, none)
    | (s, some memMap) =>
      let s := b.edit s fun m => m.memset memMap 0 sizeofMemoryMap
      match b.getMemoryMap s.state memMapSize with
      | none => (b.givePool (b.givePool s efiMemMap) memMap, none)
      | some (descriptors, mapKey) => (s, some ⟨efiMemMap, memMap, descriptors, mapKey⟩)

/-- `MmRetrieveCurrentMemoryMap()`, with the address of the record.  Here the map may change once
    more: the snapshot is taken, and then memory for the entries is allocated. -/
def mmRetrieveCurrentMemoryMap (s : Session σ) : Session σ × Option Nat :=
  match b.takeSnapshot s with
  | (s, none) => (s, none)
  | (s, some n) =>
    match b.takePool s EfiLoaderData n.entriesSize with
    | (s, none) => (b.givePool (b.givePool s n.efiMemMap) n.memMap, none)
    | (s, some memEntries) => (b.edit s (n.fill memEntries), some n.memMap)

end BootServices

/-! ## What is written -/

section turn

variable {m : Bytes} {memMap x y i : Nat} {d : EfiMemoryDescriptor}

/-! Each record seen by a write to the other one, or to another entry. -/

/-- A write to an entry leaves the record as it is. -/
theorem record_of_entry (hmap : memMap + 32 ≤ 2 ^ 64) (hx : x + 24 ≤ 2 ^ 64)
    (hoff : Region.Apart ⟨memMap, 32⟩ ⟨x, 24⟩) (m : Bytes) (f : EntryField) (v : Nat)
    (g : MapField) : memoryMapRecord.get (memoryMapEntryRecord.set m x f v) memMap g =
      memoryMapRecord.get m memMap g :=
  Layout.get_sameOff (L := memoryMapRecord) (Layout.set_sameOff (L := memoryMapEntryRecord) hx m f v)
    hmap hoff g

/-- A write to the record leaves an entry as it is. -/
theorem entry_of_record (hmap : memMap + 32 ≤ 2 ^ 64) (hx : x + 24 ≤ 2 ^ 64)
    (hoff : Region.Apart ⟨memMap, 32⟩ ⟨x, 24⟩) (m : Bytes) (f : MapField) (v : Nat)
    (g : EntryField) : memoryMapEntryRecord.get (memoryMapRecord.set m memMap f v) x g =
      memoryMapEntryRecord.get m x g :=
  Layout.get_sameOff (L := memoryMapEntryRecord) (Layout.set_sameOff (L := memoryMapRecord) hmap m f v)
    hx hoff.symm g

/-- A write to an entry leaves the others as they are. -/
theorem entry_of_other (hx : x + 24 ≤ 2 ^ 64) (hy : y + 24 ≤ 2 ^ 64)
    (hxy : Region.Apart ⟨y, 24⟩ ⟨x, 24⟩) (m : Bytes) (f : EntryField) (v : Nat) (g : EntryField) :
    memoryMapEntryRecord.get (memoryMapEntryRecord.set m x f v) y g =
      memoryMapEntryRecord.get m y g :=
  Layout.get_sameOff (L := memoryMapEntryRecord)
    (Layout.set_sameOff (L := memoryMapEntryRecord) hx m f v) hy hxy g

/-- A write to one number of the record leaves the others as they are. -/
theorem record_field (hmap : memMap + 32 ≤ 2 ^ 64) (m : Bytes) (v : Nat) {f g : MapField}
    (hne : g ≠ f) : memoryMapRecord.get (memoryMapRecord.set m memMap f v) memMap g =
      memoryMapRecord.get m memMap g :=
  Layout.get_set_field (L := memoryMapRecord) hmap m v hne

/-- A number that was written is read back. -/
theorem record_same (hmap : memMap + 32 ≤ 2 ^ 64) (m : Bytes) (f : MapField) {v : Nat}
    (hv : v < 2 ^ 64) : memoryMapRecord.get (memoryMapRecord.set m memMap f v) memMap f = v :=
  (Layout.get_set_same (L := memoryMapRecord) hmap m f v).trans (Nat.mod_eq_of_lt hv)

/-- A write to one field of an entry leaves the others as they are. -/
theorem entry_field (hx : x + 24 ≤ 2 ^ 64) (m : Bytes) (v : Nat) {f g : EntryField} (hne : g ≠ f) :
    memoryMapEntryRecord.get (memoryMapEntryRecord.set m x f v) x g =
      memoryMapEntryRecord.get m x g :=
  Layout.get_set_field (L := memoryMapEntryRecord) hx m v hne

/-- A field that was written is read back. -/
theorem entry_same (hx : x + 24 ≤ 2 ^ 64) (m : Bytes) (f : EntryField) {v : Nat}
    (hv : v < 256 ^ memoryMapEntryRecord.size f) :
    memoryMapEntryRecord.get (memoryMapEntryRecord.set m x f v) x f = v :=
  (Layout.get_set_same (L := memoryMapEntryRecord) hx m f v).trans (Nat.mod_eq_of_lt hv)

/-- What one turn does when entry `i` is at `x`, off the record: none of its stores touches the
    address of the array, so all of them go to the same entry. -/
theorem storeEntry_eq (hmap : memMap + 32 ≤ 2 ^ 64) (hx : x + 24 ≤ 2 ^ 64)
    (hoff : Region.Apart ⟨memMap, 32⟩ ⟨x, 24⟩) (hentry : entryAddress m memMap i = x) :
    storeEntry memMap i m d =
      let m := memoryMapEntryRecord.set m x .base d.physicalStart
      let m := memoryMapEntryRecord.set m x .size d.size
      let m := memoryMapRecord.set m memMap .sizeOfEntireMemory
        (memoryMapRecord.get m memMap .sizeOfEntireMemory + memoryMapEntryRecord.get m x .size)
      memoryMapEntryRecord.set m x .type (typeNumber (memoryEntryType d.type)) := by
  have hkept : ∀ (m : Bytes) (f : EntryField) (v : Nat), entryAddress m memMap i = x →
      entryAddress (memoryMapEntryRecord.set m x f v) memMap i = x := by
    intro m f v h
    rw [entryAddress, record_of_entry hmap hx hoff]
    exact h
  have hsum : ∀ (m : Bytes) (v : Nat), entryAddress m memMap i = x →
      entryAddress (memoryMapRecord.set m memMap .sizeOfEntireMemory v) memMap i = x := by
    intro m v h
    rw [entryAddress, record_field hmap m v (by decide)]
    exact h
  have h₁ := hkept m .base d.physicalStart hentry
  have h₂ := hkept _ .size d.size h₁
  rw [storeEntry]
  dsimp only
  rw [hentry, h₁, h₂, hsum _ _ h₂]

/-- The other numbers of the record stay. -/
theorem storeEntry_record (hmap : memMap + 32 ≤ 2 ^ 64) (hx : x + 24 ≤ 2 ^ 64)
    (hoff : Region.Apart ⟨memMap, 32⟩ ⟨x, 24⟩) (hentry : entryAddress m memMap i = x)
    {f : MapField} (hf : f ≠ .sizeOfEntireMemory) :
    memoryMapRecord.get (storeEntry memMap i m d) memMap f = memoryMapRecord.get m memMap f := by
  rw [storeEntry_eq hmap hx hoff hentry]
  dsimp only
  rw [record_of_entry hmap hx hoff, record_field hmap _ _ hf, record_of_entry hmap hx hoff,
    record_of_entry hmap hx hoff]

/-- So does every other entry. -/
theorem storeEntry_other (hmap : memMap + 32 ≤ 2 ^ 64) (hx : x + 24 ≤ 2 ^ 64)
    (hoff : Region.Apart ⟨memMap, 32⟩ ⟨x, 24⟩) (hentry : entryAddress m memMap i = x)
    (hy : y + 24 ≤ 2 ^ 64) (hyoff : Region.Apart ⟨memMap, 32⟩ ⟨y, 24⟩)
    (hxy : Region.Apart ⟨y, 24⟩ ⟨x, 24⟩) :
    readEntry (storeEntry memMap i m d) y = readEntry m y := by
  have hget : ∀ f, memoryMapEntryRecord.get (storeEntry memMap i m d) y f =
      memoryMapEntryRecord.get m y f := by
    intro f
    rw [storeEntry_eq hmap hx hoff hentry]
    dsimp only
    rw [entry_of_other hx hy hxy, entry_of_record hmap hy hyoff, entry_of_other hx hy hxy,
      entry_of_other hx hy hxy]
  rw [readEntry, readEntry, hget, hget, hget]

/-- And the entry is what the descriptor becomes. -/
theorem storeEntry_same (hmap : memMap + 32 ≤ 2 ^ 64) (hx : x + 24 ≤ 2 ^ 64)
    (hoff : Region.Apart ⟨memMap, 32⟩ ⟨x, 24⟩) (hentry : entryAddress m memMap i = x)
    (hstart : d.physicalStart < 2 ^ 64) :
    readEntry (storeEntry memMap i m d) x = d.entry := by
  have hsize : d.size < 2 ^ 64 := w64_lt _
  have htype : typeNumber (memoryEntryType d.type) < 256 ^ 4 := by
    cases memoryEntryType d.type <;> decide
  rw [storeEntry_eq hmap hx hoff hentry, readEntry, EfiMemoryDescriptor.entry]
  dsimp only
  rw [entry_same hx _ .type htype, typeOfNumber_typeNumber,
    entry_field hx _ _ (show EntryField.base ≠ .type by decide),
    entry_field hx _ _ (show EntryField.size ≠ .type by decide),
    entry_of_record hmap hx hoff, entry_of_record hmap hx hoff,
    entry_field hx _ _ (show EntryField.base ≠ .size by decide), entry_same hx _ .base hstart,
    entry_same hx _ .size hsize]

end turn

/-! ## What the map holds -/

section map

variable {n : Snapshot} {a i : Nat} {m m' : Bytes}

/-- The entries below `i` are in the array at `a`, and the record has its length.  The invariant of
    the loop over the descriptors. -/
structure StoredUpTo (n : Snapshot) (a i : Nat) (m : Bytes) : Prop where
  memEntries : memoryMapRecord.get m n.memMap .memEntries = a
  amountOfEntries : memoryMapRecord.get m n.memMap .amountOfEntries = n.descriptors.length
  entries : ∀ j < i, ∀ h : j < n.descriptors.length,
    readEntry m (a + j * sizeofMemoryMapEntry) = n.descriptors[j].entry

/-- The map in memory is what the snapshot was. -/
structure Holds (n : Snapshot) (a : Nat) (m : Bytes) : Prop
    extends StoredUpTo n a n.descriptors.length m where
  mapKey : memoryMapRecord.get m n.memMap .mapKey = n.mapKey

/-- The record and the array do not wrap around and share no byte.  Both are allocations, so that
    this is a fact about the firmware (`Documented`). -/
structure Placed (n : Snapshot) (a : Nat) : Prop where
  record : n.memMap + sizeofMemoryMap ≤ 2 ^ 64
  address : a < 2 ^ 64
  array : a + n.entriesSize ≤ 2 ^ 64
  disjoint : Disjoint ⟨a, n.entriesSize⟩ ⟨n.memMap, sizeofMemoryMap⟩

/-- Entry `i` of the array. -/
theorem Placed.entry (h : Placed n a) (hi : i < n.descriptors.length) :
    a + i * 24 + 24 ≤ 2 ^ 64 ∧ Region.Apart ⟨n.memMap, 32⟩ ⟨a + i * 24, 24⟩ := by
  have harray : a + n.descriptors.length * 24 ≤ 2 ^ 64 := h.array
  refine ⟨by omega, ?_⟩
  by_contra hnot
  -- a byte in both
  refine h.disjoint (max (a + i * 24) n.memMap) ?_ ?_
  · show a ≤ _ ∧ _ < a + n.descriptors.length * 24
    unfold Region.Apart at hnot
    dsimp only at hnot
    omega
  · show n.memMap ≤ _ ∧ _ < n.memMap + 32
    unfold Region.Apart at hnot
    dsimp only at hnot
    omega

/-- **The loop.** Induction on the descriptors left. -/
theorem StoredUpTo.entries_stored (hp : Placed n a)
    (hstart : ∀ d ∈ n.descriptors, d.physicalStart < 2 ^ 64) : ∀ (ds : List EfiMemoryDescriptor)
    (i : Nat) (m : Bytes), n.descriptors.drop i = ds → i ≤ n.descriptors.length →
      StoredUpTo n a i m →
      StoredUpTo n a n.descriptors.length (storeEntries n.memMap m i ds) := by
  intro ds
  induction ds with
  | nil =>
    intro i m hdrop hi h
    obtain rfl : i = n.descriptors.length := Nat.le_antisymm hi (List.drop_eq_nil_iff.mp hdrop)
    exact h
  | cons d ds ih =>
    intro i m hdrop hi h
    have hlt : i < n.descriptors.length := by
      by_contra hge
      rw [List.drop_eq_nil_iff.mpr (Nat.not_lt.mp hge)] at hdrop
      cases hdrop
    rw [List.drop_eq_getElem_cons hlt] at hdrop
    injection hdrop with hd hds
    subst hd
    obtain ⟨hx, hoff⟩ := hp.entry hlt
    have hentry : entryAddress m n.memMap i = a + i * 24 := by rw [entryAddress, h.memEntries]
    refine ih (i + 1) _ hds hlt ⟨?_, ?_, fun j hj hjlt => ?_⟩
    · rw [storeEntry_record hp.record hx hoff hentry (by decide)]
      exact h.memEntries
    · rw [storeEntry_record hp.record hx hoff hentry (by decide)]
      exact h.amountOfEntries
    · rcases Nat.lt_succ_iff_lt_or_eq.mp hj with hj | rfl
      · obtain ⟨hy, hyoff⟩ := hp.entry hjlt
        rw [storeEntry_other hp.record hx hoff hentry hy hyoff (Or.inl (by dsimp only; omega))]
        exact h.entries j hj hjlt
      · exact storeEntry_same hp.record hx hoff hentry (hstart _ (List.getElem_mem hlt))

/-- **The map is written.** -/
theorem Snapshot.fill_holds (hp : Placed n a)
    (hstart : ∀ d ∈ n.descriptors, d.physicalStart < 2 ^ 64) (hkey : n.mapKey < 2 ^ 64)
    (m : Bytes) : Holds n a (n.fill a m) := by
  have hrecord : n.memMap + 32 ≤ 2 ^ 64 := hp.record
  have hlength : n.descriptors.length < 2 ^ 64 := by
    have harray : a + n.descriptors.length * 24 ≤ 2 ^ 64 := hp.array
    omega
  have hptr : memoryMapRecord.get (memoryMapRecord.set m n.memMap .memEntries a) n.memMap
      .memEntries = a :=
    record_same hrecord m .memEntries hp.address
  rw [Snapshot.fill, hptr]
  -- the zeroing of the array leaves the record
  have hzero : memoryMapRecord.get ((memoryMapRecord.set m n.memMap .memEntries a).memset a 0
      n.entriesSize) n.memMap .memEntries = a := by
    refine (Layout.get_congr (L := memoryMapRecord) hrecord (fun x hx => ?_) _).trans hptr
    exact Bytes.memset_sameOff _ 0 (Span.inside_prefix (Nat.le_refl _) hp.array) x
      fun hin => hp.disjoint x hin hx
  have h0 : StoredUpTo n a 0 (memoryMapRecord.set ((memoryMapRecord.set m n.memMap .memEntries
      a).memset a 0 n.entriesSize) n.memMap .amountOfEntries n.descriptors.length) := by
    refine ⟨?_, ?_, fun j hj => absurd hj (Nat.not_lt_zero j)⟩
    · rw [record_field hrecord _ _ (by decide)]
      exact hzero
    · exact record_same hrecord _ _ hlength
  have h := StoredUpTo.entries_stored hp hstart n.descriptors 0 _ rfl (Nat.zero_le _) h0
  refine ⟨⟨?_, ?_, fun j hj hjlt => ?_⟩, ?_⟩
  · rw [record_field hrecord _ _ (by decide)]
    exact h.memEntries
  · rw [record_field hrecord _ _ (by decide)]
    exact h.amountOfEntries
  · rw [← h.entries j hj hjlt]
    obtain ⟨hx, hoff⟩ := hp.entry hjlt
    rw [readEntry, readEntry, entry_of_record hrecord hx hoff, entry_of_record hrecord hx hoff,
      entry_of_record hrecord hx hoff]
  · exact record_same hrecord _ _ hkey

/-- The bytes of the record, and those of the array. -/
def Snapshot.recordSpan (n : Snapshot) : Span := ⟨n.memMap, sizeofMemoryMap⟩

/-- The array at `a` has an entry for each descriptor. -/
def Snapshot.arraySpan (n : Snapshot) (a : Nat) : Span := ⟨a, n.entriesSize⟩

/-- A record in bytes that stay. -/
theorem get_of_sameOn {ι : Type} {L : Layout ι} {x : Nat} (h : Bytes.SameOn ⟨x, L.total⟩ m m')
    (f : ι) : L.get m' x f = L.get m x f := by
  refine Bytes.SameOn.read (h.mono (k := L.offset f) rfl ?_)
  exact L.inside f

/-- **What nobody writes to stays.** The two spans are all that the map consists of. -/
theorem Holds.kept (h : Holds n a m) (hrecord : Bytes.SameOn n.recordSpan m m')
    (harray : Bytes.SameOn (n.arraySpan a) m m') : Holds n a m' := by
  have hget : ∀ f, memoryMapRecord.get m' n.memMap f = memoryMapRecord.get m n.memMap f :=
    get_of_sameOn (L := memoryMapRecord) hrecord
  refine ⟨⟨(hget _).trans h.memEntries, (hget _).trans h.amountOfEntries, fun j hj hjlt => ?_⟩,
    (hget _).trans h.mapKey⟩
  have hsame : Bytes.SameOn ⟨a + j * sizeofMemoryMapEntry, 24⟩ m m' := by
    refine harray.mono rfl ?_
    show j * 24 + 24 ≤ n.descriptors.length * 24
    omega
  have hentry : ∀ f, memoryMapEntryRecord.get m' (a + j * sizeofMemoryMapEntry) f =
      memoryMapEntryRecord.get m (a + j * sizeofMemoryMapEntry) f :=
    get_of_sameOn (L := memoryMapEntryRecord) hsame
  rw [← h.entries j hj hjlt, readEntry, readEntry, hentry, hentry, hentry]

/-- What the kernel reads. -/
theorem Holds.entriesAt (h : Holds n a m) :
    entriesAt m n.memMap = n.descriptors.map EfiMemoryDescriptor.entry := by
  rw [Ldr.entriesAt, h.amountOfEntries]
  refine List.ext_getElem (by simp) fun j hj hj' => ?_
  rw [List.length_map, List.length_range] at hj
  rw [List.getElem_map, List.getElem_map, List.getElem_range, entryAddress, h.memEntries]
  exact h.entries j hj hj

end map

end Nearlands.Ldr

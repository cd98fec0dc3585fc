/-
  Loading the kernel (`nearmonia`, `ldr/peldr.c`).

  `LdrPeLoadPEImageAsKernel` from the file's content on: `content` is what `SFsReadFileContent`
  returned.  It is cut in two where the results about it want a state to speak of: `prepare` is all
  up to the call of `LoadSectionsIntoMemory`, with the ways into `LdrPanic` (which never returns),
  and the rest loads the sections, calls `ExitBootServices` and jumps.  The key for that call is read
  from the memory map when the sections have been loaded.  A `NULL` memory map is found out by nobody
  before its key is read.
-/
import Nearlands.Ldr.MemoryMap
import Nearlands.Ldr.PeImage

namespace Nearlands.Ldr

open Nearlands.Lib Nearlands.Vmm

/-- `BootGraphicsData`. -/
structure BootGraphicsData where
  init : Bool
  framebufferBase : Nat
  framebufferSize : Nat
  width : Nat
  height : Nat
  pixelsPerScanLine : Nat

/-- `BootInfo`; `memMap` is an address.  The kernel reads it from where a `.ldr` section was laid. -/
structure BootInfo where
  graphicsData : BootGraphicsData
  memMap : Nat
  hhdmOffset : Nat
  kernelLocVirt : Nat
  kernelLocPhys : Nat
  kernelSizeInPages : Nat
  typeOfBoot : Nat
  rsdp : Nat

/-- The layout in memory. -/
def BootGraphicsData.bytes (g : BootGraphicsData) : List UInt8 :=
  Bytes.ofNat g.init.toNat 8 ++ Bytes.ofNat g.framebufferBase 8 ++
    Bytes.ofNat g.framebufferSize 8 ++ Bytes.ofNat g.width 4 ++ Bytes.ofNat g.height 4 ++
    Bytes.ofNat g.pixelsPerScanLine 8

/-- The record, field after field: 96 bytes without gaps. -/
def BootInfo.bytes (info : BootInfo) : List UInt8 :=
  info.graphicsData.bytes ++ Bytes.ofNat info.memMap 8 ++ Bytes.ofNat info.hhdmOffset 8 ++
    Bytes.ofNat info.kernelLocVirt 8 ++ Bytes.ofNat info.kernelLocPhys 8 ++
    Bytes.ofNat info.kernelSizeInPages 8 ++ Bytes.ofNat info.typeOfBoot 8 ++
    Bytes.ofNat info.rsdp 8

/-- What `LdrPeLoadPEImageAsKernel` finds.  The file is `length` bytes at `content`, in the memory
    of a machine whose physical addresses have 52 bits; `bInfo` is the address of the local
    variable, `tables` are the page tables so far.  The two bounds are of the machine and of C:
    memory has addresses of 52 bits, and a local variable does not wrap around. -/
structure Setup where
  content : Nat
  length : Nat
  bInfo : Nat
  pml4 : Nat
  tables : Nat → Nat → Nat
  graphics : BootGraphicsData
  rsdp : Nat
  physical : content + length ≤ 2 ^ 52
  stack : bInfo + sizeofBootInfo ≤ 2 ^ 64

/-- The bytes of the file. -/
def Setup.file (e : Setup) : Region := ⟨e.content, e.length⟩

/-- The local variable `bInfo` when all its fields are set. -/
def Setup.bootInfo (e : Setup) (physBase pages : Nat) (memmap : Option Nat) : BootInfo where
  graphicsData := e.graphics
  memMap := memmap.getD null
  hhdmOffset := HHDM_OFFSET
  kernelLocVirt := HHDM_OFFSET
  kernelLocPhys := physBase
  kernelSizeInPages := pages
  typeOfBoot := 1
  rsdp := e.rsdp

/-- When `LoadSectionsIntoMemory` is called; `mapped` is the session when
    `MmRetrieveCurrentMemoryMap` was called, and `memmap` is the address that it returned.  It is
    where the proofs pause: all that the firmware has to do with is over but for one call. -/
structure Ready (σ : Type) where
  mapped : Session σ
  session : Session σ
  loading : Loading
  ntHeader : Nat
  amountOfPagesForImage : Nat
  kernelEntry : Nat
  memmap : Option Nat

/-- When `KernelEntry` is called: the accesses of the loader, the session when `ExitBootServices`
    was called, and what that call did (not even called with a `NULL` map).  The jump itself is left
    out, being assembly. -/
structure Loaded (σ : Type) where
  ready : Ready σ
  loading : Loading
  session : Session σ
  exit : Option (σ × Bool)

/-- The two signatures; with the address of the NT headers.  The messages are those of `LdrPanic`.
    That the NT headers lie in the file is not checked. -/
def checkImage (l : Loading) (content : Nat) : Except String (Loading × Nat) :=
  if content = null then .error "Kernel image is empty or corrupted! Please Reboot"
  else
    let (l, mz) := l.memcmp content mzSignature
    if mz ≠ 0 then .error "Kernel image isn't of PE type! (failed at MZ) Please Reboot"
    else
      let (l, lfanew) := l.field content eLfanew
      let ntHeader := content + signExtend lfanew
      let (l, pe) := l.memcmp ntHeader peSignature
      if pe ≠ 0 then .error "Kernel image isn't of PE type! (failed at PE) Please Reboot"
      else .ok (l, ntHeader)

namespace BootServices

variable {σ : Type} (b : BootServices σ)

/-- `LdrPeLoadPEImageAsKernel` up to the call of `LoadSectionsIntoMemory`.  The file has been read
    before; what is left is to check it, to get and map pages for the image, to retrieve the memory
    map and to set up `bInfo`.  Each failure is a panic, but for a memory map that is `NULL`. -/
def prepare (e : Setup) (s : Session σ) : Except String (Ready σ) :=
  match checkImage ⟨b.memory s.state, [], []⟩ e.content with
  | .error message => .error message
  | .ok (l, ntHeader) =>
    let (l, size) := l.field ntHeader sizeOfImage
    let (l, base) := l.field ntHeader imageBase
    let amountOfPagesForImage := (size + 4095) / 4096
    match b.takePages s EfiLoaderData amountOfPagesForImage with
    | (_, none) => .error "Not enough memory to load kernel!"
    | (s, some physBase) =>
      let r := b.mapHigherHalf s e.tables e.pml4 physBase (amountOfPagesForImage * 4096)
      if r.2.2 = false then .error "Couldn't map higher half memory pages for kernel!"
      else
        let mapped := r.1
        let (l, entry) := Loading.field ⟨b.memory mapped.state, l.reads, l.writes⟩ ntHeader
          addressOfEntryPoint
        let (s, memmap) := b.mmRetrieveCurrentMemoryMap mapped
        let info := e.bootInfo physBase amountOfPagesForImage memmap
        .ok
          { mapped := mapped
            session := s
            loading := ⟨(b.memory s.state).store e.bInfo info.bytes, l.reads, l.writes⟩
            ntHeader := ntHeader
            amountOfPagesForImage := amountOfPagesForImage
            kernelEntry := w64 (base + entry)
            memmap := memmap }

/-- From `LoadSectionsIntoMemory` to the jump; `memmap->mapKey` is read in between.  The key is the
    one that memory holds by then, whoever wrote it. -/
def finish (e : Setup) (r : Ready σ) : Loaded σ :=
  let loading := r.loading.loadSectionsIntoMemory e.content r.ntHeader e.bInfo
  let state := b.write r.session.state loading.mem
  { ready := r
    loading := loading
    session := ⟨state, r.session.obtained⟩
    exit := r.memmap.map fun map =>
      b.exitBootServices state (memoryMapRecord.get loading.mem map .mapKey) }

/-- `LdrPeLoadPEImageAsKernel(path)`. -/
def ldrPeLoadPEImageAsKernel (e : Setup) (s : Session σ) : Except String (Loaded σ) :=
  match b.prepare e s with
  | .error message => .error message
  | .ok r => .ok (b.finish e r)

end BootServices

/-- This is the size that is copied into a `.ldr` section. -/
theorem BootInfo.bytes_length (info : BootInfo) : info.bytes.length = sizeofBootInfo := by
  simp only [BootInfo.bytes, BootGraphicsData.bytes, List.length_append, Bytes.length_ofNat]

/-! ## The checks -/

section checks

variable {l l' : Loading} {content ntHeader : Nat}

/-- What the checks leave behind: the signatures are there, and have been read whole.  The fields
    read so far are listed, newest first. -/
theorem checkImage_ok (h : checkImage l content = .ok (l', ntHeader)) :
    content ≠ null ∧ l.mem.memcmp content mzSignature = 0 ∧
    ntHeader = content + signExtend (eLfanew.get l.mem content) ∧
    l.mem.memcmp ntHeader peSignature = 0 ∧
    l' = ⟨l.mem, ⟨ntHeader, 4⟩ :: eLfanew.span content :: ⟨content, 2⟩ :: l.reads, l.writes⟩ := by
  rw [checkImage] at h
  split at h
  · cases h
  · rename_i hnull
    dsimp only [Loading.memcmp, Loading.field] at h
    split at h
    · cases h
    · rename_i hmz
      split at h
      · cases h
      · rename_i hpe
        have hmz := not_ne_iff.mp hmz
        have hpe := not_ne_iff.mp hpe
        cases h
        rw [Bytes.memcmpReads_of_eq hmz, Bytes.memcmpReads_of_eq hpe]
        exact ⟨hnull, hmz, rfl, hpe, rfl⟩

end checks

/-! ## What the first part leaves -/

/-- What is known when `LoadSectionsIntoMemory` is called.  Nothing was written through pointers of
    the file yet; the reads are those of seven header fields and signatures. -/
structure Prepared {σ : Type} (b : BootServices σ) (e : Setup) (s : Session σ) (r : Ready σ) :
    Prop where
  nonnull : e.content ≠ null
  mz : (b.memory s.state).memcmp e.content mzSignature = 0
  nt : r.ntHeader = e.content + signExtend (eLfanew.get (b.memory s.state) e.content)
  pe : (b.memory s.state).memcmp r.ntHeader peSignature = 0
  pages : r.amountOfPagesForImage = (sizeOfImage.get (b.memory s.state) r.ntHeader + 4095) / 4096
  reads : r.loading.reads =
    [addressOfEntryPoint.span r.ntHeader, imageBase.span r.ntHeader, sizeOfImage.span r.ntHeader,
      ⟨r.ntHeader, 4⟩, eLfanew.span e.content, ⟨e.content, 2⟩]
  writes : r.loading.writes = []
  mapped : ∃ physBase tables,
    (b.takePages s EfiLoaderData r.amountOfPagesForImage).2 = some physBase ∧
    b.mapHigherHalf (b.takePages s EfiLoaderData r.amountOfPagesForImage).1 e.tables e.pml4 physBase
      (r.amountOfPagesForImage * 4096) = (r.mapped, tables, true)
  memmap : b.mmRetrieveCurrentMemoryMap r.mapped = (r.session, r.memmap)
  mem : ∃ physBase, r.loading.mem = (b.memory r.session.state).store e.bInfo
    (e.bootInfo physBase r.amountOfPagesForImage r.memmap).bytes

/-- What the first part establishes when no panic is met. -/
theorem prepare_ok {σ : Type} {b : BootServices σ} {e : Setup} {s : Session σ} {r : Ready σ}
    (h : b.prepare e s = .ok r) : Prepared b e s r := by
  rw [BootServices.prepare] at h
  cases hcheck : checkImage ⟨b.memory s.state, [], []⟩ e.content with
  | error message => rw [hcheck] at h; cases h
  | ok checked =>
    obtain ⟨l, ntHeader⟩ := checked
    obtain ⟨hnull, hmz, hnt, hpe, rfl⟩ := checkImage_ok hcheck
    rw [hcheck] at h
    dsimp only [Loading.field] at h
    -- each step has succeeded: the pages, the map of the image, the memory map
    generalize hpages : (sizeOfImage.get (b.memory s.state) ntHeader + 4095) / 4096 = pages at h
    cases hbase : (b.takePages s EfiLoaderData pages).2 with
    | none =>
      rw [← Prod.mk.eta (p := b.takePages s EfiLoaderData pages), hbase] at h
      cases h
    | some physBase =>
      rw [← Prod.mk.eta (p := b.takePages s EfiLoaderData pages), hbase] at h
      dsimp only at h
      generalize hmap : b.mapHigherHalf (b.takePages s EfiLoaderData pages).1 e.tables e.pml4
        physBase (pages * 4096) = map at h
      obtain ⟨mapped, tables, result⟩ := map
      cases result with
      | false => cases h
      | true =>
        dsimp only at h
        generalize hmemmap : b.mmRetrieveCurrentMemoryMap mapped = retrieved at h
        obtain ⟨s', memmap⟩ := retrieved
        cases h
        constructor
        · exact hnull
        · exact hmz
        · exact hnt
        · exact hpe
        · exact hpages.symm
        · rfl
        · rfl
        · exact ⟨physBase, tables, hbase, hmap⟩
        · exact hmemmap
        · refine ⟨physBase, ?_⟩
          dsimp only

/-- What the whole leaves. -/
theorem load_ok {σ : Type} {b : BootServices σ} {e : Setup} {s : Session σ} {r : Loaded σ}
    (h : b.ldrPeLoadPEImageAsKernel e s = .ok r) :
    Prepared b e s r.ready ∧ r = b.finish e r.ready := by
  rw [BootServices.ldrPeLoadPEImageAsKernel] at h
  cases hprep : b.prepare e s with
  | error message => rw [hprep] at h; cases h
  | ok ready =>
    rw [hprep] at h
    cases h
    exact ⟨prepare_ok hprep, rfl⟩

/-! ## A machine to run on

  A firmware that gives out pages upwards from `nextPage`, all conventional memory up to 1 MiB, and
  pool memory upwards from there on, out of memory of its own.  `rekey` is what an allocation does to
  the map key. -/

/-- The state of the firmware.  The two bounds keep pages and pool apart, which is what makes
    allocations new. -/
structure Plain where
  mem : Bytes
  nextPage : Nat
  nextPool : Nat
  key : Nat
  page : nextPage ≤ 0x100000
  pool : 0x100000 ≤ nextPool

/-- The firmware.  The key is a `UINTN`, so it wraps around.  It is documented (`plain_documented`),
    whatever `rekey` is, and small enough to be computed with. -/
def plain (rekey : Nat → Nat) : BootServices Plain where
  memory s := s.mem
  write s m := { s with mem := m }
  memoryMap s :=
    [⟨EfiLoaderData, 0, s.nextPage / 4096⟩,
      ⟨EfiConventionalMemory, s.nextPage, (0x100000 - s.nextPage) / 4096⟩,
      ⟨EfiLoaderData, 0x100000, 0x100⟩]
  mapKey s := w64 s.key
  allocated s t := ∀ x, t.Has x → x < s.nextPage ∨ 0x100000 ≤ x ∧ x < s.nextPool
  descriptorSize := 48
  allocatePages s _ n :=
    if h : s.nextPage + n * 4096 ≤ 0x100000 then
      ({ s with nextPage := s.nextPage + n * 4096, key := rekey s.key, page := h },
        some s.nextPage)
    else (s, none)
  allocatePool s _ n :=
    if s.nextPool + n ≤ 0x200000 then
      ({ s with
          nextPool := s.nextPool + n
          key := rekey s.key
          pool := Nat.le_trans s.pool (Nat.le_add_right _ _) }, some s.nextPool)
    else (s, none)
  freePool s _ := s
  exitBootServices s key := (s, key == w64 s.key)

/-- An image at `0x10000` with one section; its optional header has the usual 240 bytes. -/
def sampleImage (base address size rawSize rawPointer : Nat) : Bytes :=
  let nt := 0x10040
  let section₀ := nt + optionalHeader + 240
  let m : Bytes := Bytes.store (fun _ => 0) 0x10000 mzSignature
  let m := m.store (0x10000 + eLfanew.offset) (Bytes.ofNat 0x40 4)
  let m := m.store nt peSignature
  let m := m.store (nt + numberOfSections.offset) (Bytes.ofNat 1 2)
  let m := m.store (nt + sizeOfOptionalHeader.offset) (Bytes.ofNat 240 2)
  let m := m.store (nt + imageBase.offset) (Bytes.ofNat base 8)
  let m := m.store (nt + sizeOfImage.offset) (Bytes.ofNat 0x1000 4)
  let m := m.store section₀ [0x2E, 0x74, 0x65, 0x78, 0x74]
  let m := m.store (section₀ + virtualSize.offset) (Bytes.ofNat size 4)
  let m := m.store (section₀ + virtualAddress.offset) (Bytes.ofNat address 4)
  let m := m.store (section₀ + sizeOfRawData.offset) (Bytes.ofNat rawSize 4)
  m.store (section₀ + pointerToRawData.offset) (Bytes.ofNat rawPointer 4)

/-- A loader that has read 512 bytes of file. -/
def sampleSetup : Setup where
  content := 0x10000
  length := 0x200
  bInfo := 0x8000
  pml4 := 0x9000
  tables := fun _ _ => 0
  graphics := ⟨false, 0, 0, 0, 0, 0⟩
  rsdp := 0
  physical := by decide
  stack := by decide

/-- The firmware has given out the pages up to `0x20000`. -/
def sampleSession (m : Bytes) : Session Plain :=
  ⟨⟨m, 0x20000, 0x100000, 1, by decide, Nat.le_refl _⟩,
    [⟨0x10000, 0x210⟩, ⟨0x8000, sizeofBootInfo⟩]⟩

/-- A result that has been computed.  So an example can be evaluated by `decide` and then spoken
    about. -/
theorem ok_of_computed {ε α : Type} {x : Except ε α} {p : α → Bool}
    (h : x.toOption.map p = some true) : ∃ a, x = .ok a ∧ p a = true := by
  cases x with
  | error _ => cases h
  | ok a => exact ⟨a, rfl, Option.some.inj h⟩

end Nearlands.Ldr

/-
  The boot services (`nearmonia`, `EFI/UefiSpec.h`).

  The firmware is not part of the repository: `BootServices` is any firmware, a state type with
  the calls the loader makes, and `Documented` is what the specification says of them.  An
  allocation or a free may change the memory map and its key in any way, and may write any memory
  that is the firmware's own; but an allocation takes memory that nobody has, what is allocated is
  not described as conventional memory, and `ExitBootServices` succeeds with the current key and
  only with it.  A session is the state of the firmware with the memory the loader has obtained.

  The descriptors that `GetMemoryMap` returns are values here, not bytes: the loader reads them from
  a buffer of its own, and between the call and the reading it only writes to other allocations.
-/
import Nearlands.Lib.Bytes
import Nearlands.Ldr.Paging

namespace Nearlands.Ldr

open Nearlands.Lib Nearlands.Vmm

/-! ## The firmware -/

/-- The type the loader gives to the pages of its tables. -/
@[reducible] def EfiLoaderCode : Nat := 1

/-- The type of the image and of pool memory. -/
@[reducible] def EfiLoaderData : Nat := 2

/-- Memory that nobody has. -/
@[reducible] def EfiConventionalMemory : Nat := 7

/-- Tables of the firmware that may be given up once they were read. -/
@[reducible] def EfiACPIReclaimMemory : Nat := 9

/-- Memory that the firmware wants to keep. -/
@[reducible] def EfiACPIMemoryNVS : Nat := 10

/-- What is read of an `EFI_MEMORY_DESCRIPTOR`. -/
structure EfiMemoryDescriptor where
  type : Nat
  physicalStart : Nat
  numberOfPages : Nat
  deriving DecidableEq, Repr

/-- Size in bytes, as the loader computes it. -/
def EfiMemoryDescriptor.size (d : EfiMemoryDescriptor) : Nat := w64 (d.numberOfPages * 4096)

/-- The bytes that a descriptor describes. -/
def EfiMemoryDescriptor.region (d : EfiMemoryDescriptor) : Region := ⟨d.physicalStart, d.size⟩

/-- A firmware.  `none` stands for a status other than `EFI_SUCCESS`; `write` is a write of the
    loader to memory.  `allocated` says of a region that it is an allocation, or a part of one, that
    has not been freed; no call returns it, it is what the other clauses speak about.  All functions
    are arbitrary: what they do is the matter of `Documented`, and a result about the loader holds
    for every firmware that keeps to it. -/
structure BootServices (σ : Type) where
  memory : σ → Bytes
  write : σ → Bytes → σ
  memoryMap : σ → List EfiMemoryDescriptor
  mapKey : σ → Nat
  allocated : σ → Region → Prop
  descriptorSize : Nat
  allocatePages : σ → (type pages : Nat) → σ × Option Nat
  allocatePool : σ → (type size : Nat) → σ × Option Nat
  freePool : σ → Nat → σ
  exitBootServices : σ → (mapKey : Nat) → σ × Bool

/-- The state of the firmware, and what the loader has obtained from it, newest first: what it has
    allocated, and its stack.  The list is the loader's own account, by which it can be said what
    the kernel should not be told is free. -/
structure Session (σ : Type) where
  state : σ
  obtained : List Region

/-- The two share no byte. -/
def Disjoint (r s : Region) : Prop := ∀ a, r.Has a → ¬ s.Has a

namespace BootServices

variable {σ : Type} (b : BootServices σ)

/-- What comes to the regions held with the answer of an allocation. -/
def grant (answer : Option Nat) (size : Nat) (rs : List Region) : List Region :=
  match answer with
  | none => rs
  | some a => ⟨a, size⟩ :: rs

/-- What an allocation of `size` bytes in state `s` does: what was allocated still is, and an answer
    is an address of as many bytes that nobody had.  Nothing is said of the state otherwise: the map
    and the key may have changed. -/
structure Allocates (s : σ) (size : Nat) (r : σ × Option Nat) : Prop where
  keeps : ∀ t, b.allocated s t → b.allocated r.1 t
  granted : ∀ a, r.2 = some a → b.allocated r.1 ⟨a, size⟩
  address : ∀ a, r.2 = some a → a < 2 ^ 64 ∧ a + size ≤ 2 ^ 64
  new : ∀ a, r.2 = some a → ∀ t, b.allocated s t → Disjoint ⟨a, size⟩ t

/-- What the specification says.  Nothing is said of the memory map and the key after an allocation,
    and nothing of what it does to memory.  `conventional` is the clause that a memory map is for,
    and `exit` the one that makes the key matter. -/
structure Documented : Prop where
  write_memory : ∀ s m, b.memory (b.write s m) = m
  write_map : ∀ s m, b.memoryMap (b.write s m) = b.memoryMap s
  write_key : ∀ s m, b.mapKey (b.write s m) = b.mapKey s
  write_allocated : ∀ s m t, b.allocated s t → b.allocated (b.write s m) t
  conventional : ∀ s t, b.allocated s t → ∀ d ∈ b.memoryMap s, d.type = EfiConventionalMemory →
    Disjoint t d.region
  start : ∀ s, ∀ d ∈ b.memoryMap s, d.physicalStart < 2 ^ 64
  key : ∀ s, b.mapKey s < 2 ^ 64
  pages : ∀ s type n, b.Allocates s (n * 4096) (b.allocatePages s type n)
  pool : ∀ s type n, b.Allocates s n (b.allocatePool s type n)
  exit : ∀ s key, (b.exitBootServices s key).2 = true ↔ key = b.mapKey s

/-! ## Calls with their bookkeeping -/

/-- `AllocatePages`, entered in the account. -/
def takePages (s : Session σ) (type pages : Nat) : Session σ × Option Nat :=
  let r := b.allocatePages s.state type pages
  (⟨r.1, grant r.2 (pages * 4096) s.obtained⟩, r.2)

/-- `AllocatePool`, entered in the account. -/
def takePool (s : Session σ) (type size : Nat) : Session σ × Option Nat :=
  let r := b.allocatePool s.state type size
  (⟨r.1, grant r.2 size s.obtained⟩, r.2)

/-- `FreePool`, and the region leaves the account. -/
def givePool (s : Session σ) (a : Nat) : Session σ :=
  ⟨b.freePool s.state a, s.obtained.filter fun r => r.base ≠ a⟩

/-- The loader writes to memory.  Writes go through the firmware's state because memory is part of
    it. -/
def edit (s : Session σ) (f : Bytes → Bytes) : Session σ :=
  ⟨b.write s.state (f (b.memory s.state)), s.obtained⟩

/-- The size `GetMemoryMap` asks for. -/
def mapSize (s : σ) : Nat := (b.memoryMap s).length * b.descriptorSize

/-- `GetMemoryMap` with a buffer of `size` bytes: the descriptors and the key.  A buffer that is too
    small is the only way to fail. -/
def getMemoryMap (s : σ) (size : Nat) : Option (List EfiMemoryDescriptor × Nat) :=
  if b.mapSize s ≤ size then some (b.memoryMap s, b.mapKey s) else none

/-- What the next `n` calls of `AllocatePages(…, EfiLoaderCode, 1, …)` answer.  The walk of the
    tables takes its pages from a tape; this is the tape that the firmware would provide. -/
def pageTape (s : Session σ) : Nat → List Nat
  | 0 => []
  | n + 1 =>
    let r := b.takePages s EfiLoaderCode 1
    r.2.getD null :: pageTape r.1 n

/-- The session after `n` of these calls. -/
def afterPages (s : Session σ) : Nat → Session σ
  | 0 => s
  | n + 1 => afterPages (b.takePages s EfiLoaderCode 1).1 n

/-- `MmMapHigherHalfMemoryForKernel` with the answers of the firmware; a page needs at most three
    new tables.  Pages that the tape had and the walk did not ask for were never allocated: the
    session is the one after those that it took. -/
def mapHigherHalf (s : Session σ) (words : Nat → Nat → Nat) (pml4 address kernSize : Nat) :
    Session σ × (Nat → Nat → Nat) × Bool :=
  let tape := b.pageTape s (3 * ((kernSize + 0xFFF) / 0x1000))
  let r := mmMapHigherHalfMemoryForKernel ⟨words, tape⟩ pml4 address kernSize
  (b.afterPages s (tape.length - r.1.tape.length), r.1.words, r.2)

end BootServices

/-! ## What the loader holds -/

/-- What is answered comes to what has been obtained. -/
theorem grant_suffix (answer : Option Nat) (size : Nat) (rs : List Region) :
    rs <:+ BootServices.grant answer size rs := by
  cases answer with
  | none => exact List.suffix_refl rs
  | some a => exact List.suffix_cons _ rs

section sound

variable {σ : Type} {b : BootServices σ} {s : Session σ}

/-- What the loader has obtained is allocated.  It lasts through every call of the loader, which
    only frees what it obtained by name. -/
def BootServices.Sound (b : BootServices σ) (s : Session σ) : Prop :=
  ∀ t ∈ s.obtained, b.allocated s.state t

theorem BootServices.Allocates.sound {size : Nat} {r : σ × Option Nat}
    (ha : b.Allocates s.state size r) (h : b.Sound s) :
    b.Sound ⟨r.1, BootServices.grant r.2 size s.obtained⟩ := by
  intro t ht
  obtain ⟨s', answer⟩ := r
  cases answer with
  | none => exact ha.keeps t (h t ht)
  | some a =>
    rcases List.mem_cons.mp ht with rfl | ht
    · exact ha.granted a rfl
    · exact ha.keeps t (h t ht)

theorem afterPages_obtained : ∀ (n : Nat) (s : Session σ),
    s.obtained <:+ (b.afterPages s n).obtained
  | 0, s => List.suffix_refl s.obtained
  | n + 1, s => by
    have hfirst : s.obtained <:+ (b.takePages s EfiLoaderCode 1).1.obtained := grant_suffix _ _ _
    exact hfirst.trans (afterPages_obtained n _)

theorem mapHigherHalf_obtained (s : Session σ) (words : Nat → Nat → Nat)
    (pml4 address kernSize : Nat) :
    s.obtained <:+ (b.mapHigherHalf s words pml4 address kernSize).1.obtained :=
  afterPages_obtained _ s

variable (hb : b.Documented)

include hb

theorem takePages_sound (h : b.Sound s) (type pages : Nat) :
    b.Sound (b.takePages s type pages).1 := (hb.pages _ _ _).sound h

theorem takePool_sound (h : b.Sound s) (type size : Nat) :
    b.Sound (b.takePool s type size).1 := (hb.pool _ _ _).sound h

theorem edit_sound (h : b.Sound s) (f : Bytes → Bytes) : b.Sound (b.edit s f) :=
  fun t ht => hb.write_allocated _ _ t (h t ht)

theorem afterPages_sound : ∀ {n : Nat} {s : Session σ}, b.Sound s → b.Sound (b.afterPages s n)
  | 0, _, h => h
  | n + 1, _, h => afterPages_sound (n := n) (takePages_sound hb h EfiLoaderCode 1)

theorem mapHigherHalf_sound (h : b.Sound s) (words : Nat → Nat → Nat)
    (pml4 address kernSize : Nat) :
    b.Sound (b.mapHigherHalf s words pml4 address kernSize).1 := afterPages_sound hb h

end sound

end Nearlands.Ldr

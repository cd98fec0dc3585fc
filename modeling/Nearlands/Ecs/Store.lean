/-
  The entity component store (`ecs/ecs.c`).

  `archeTypeArray` points to an array of archetypes in pages, each archetype points to an array
  of entities in pages, and each entity holds an arena of the general heap with its components.
  Both arrays grow by `MmReallocatePages`.  Slots of deleted entities wait in a queue of heap
  nodes.

  Memory is kept by kind: arrays of archetypes, arrays of entities and the array of component
  sizes by the address they begin at, queue nodes by their address, and component data as bytes.
  Memory of one kind is written through that kind only, as long as no two objects overlap; that
  they do not is `objects_apart` in `Ecs/Runs`.  Arrays inside a record have `ECS_COMP_SIZE`
  entries and are functions of the index here.

  What the page allocator and the heap answer to a call comes in as an argument, and `memLog`
  lists the calls.
-/
import Nearlands.Arena
import Nearlands.Lib.AllocLog

namespace Nearlands.Ecs

open Nearlands.Lib

/-- `MAX_COMPONENT` and `ECS_COMP_SIZE`. -/
@[reducible] def maxComponent : Nat := 512

@[reducible] def ecsCompSize : Nat := 10

/-- `Entity`.  The two arrays have ten entries in the source; beyond, the model does not follow it. -/
structure Entity where
  componentTypes : Nat → Nat
  arena : Arena
  components : Nat → Nat
  componentAmount : Nat
  alive : Bool

/-- `EntityFreeList`. -/
structure EntityFreeList where
  index : Nat
  next : Nat

/-- `ArcheType`.  Its `arena` is never used and is left out. -/
structure ArcheType where
  components : Nat → Nat
  entities : Nat
  freeList : Nat
  initial : Nat
  capacity : Nat
  size : Nat
  sizeInPages : Nat
  index : Nat
  componentAmount : Nat

/-- Records of zeros. -/
def Entity.zero : Entity := ⟨fun _ => 0, .zero, fun _ => 0, 0, false⟩

def ArcheType.zero : ArcheType := ⟨fun _ => 0, 0, 0, 0, 0, 0, 0, 0, 0⟩

/-- `sizeof(ArcheType)`, `sizeof(Entity)` and `sizeof(EntityFreeList)`. -/
@[reducible] def sizeofArcheType : Nat := 112

@[reducible] def sizeofEntity : Nat := 144

@[reducible] def sizeofEntityFreeList : Nat := 16

/-- The statics of `ecs.c`, the objects they lead to, and the calls made to the allocators. -/
structure State where
  archeTypeArray : Nat
  ataIndex : Nat
  ataCapacity : Nat
  ataSize : Nat
  ataSizeInPages : Nat
  componentSizeArr : Nat
  curComponentIndex : Nat
  archeTypesAt : Nat → Nat → ArcheType
  entitiesAt : Nat → Nat → Entity
  sizesAt : Nat → Nat → Nat
  nodeAt : Nat → EntityFreeList
  bytes : Nat → UInt8
  memLog : List AllocCall

/-- `archeTypeArray[i]`. -/
def State.archeType (s : State) (i : Nat) : ArcheType := s.archeTypesAt s.archeTypeArray i

/-- `archeTypeArray[i].entities[j]`. -/
def State.entity (s : State) (i j : Nat) : Entity := s.entitiesAt (s.archeType i).entities j

/-- `componentSizeArr[c]`. -/
def State.componentSize (s : State) (c : Nat) : Nat := s.sizesAt s.componentSizeArr c

/-- Write fields of `archeTypeArray[i]`.  The array is written at the address where it is, so
    another array that began there would change as well; `objects_apart` says that there is none. -/
def State.setArcheType (s : State) (i : Nat) (f : ArcheType → ArcheType) : State :=
  let array := upd (s.archeTypesAt s.archeTypeArray) i (f (s.archeType i))
  { s with archeTypesAt := upd s.archeTypesAt s.archeTypeArray array }

/-- Write fields of `archeTypeArray[i].entities[j]`. -/
def State.setEntity (s : State) (i j : Nat) (f : Entity → Entity) : State :=
  let array := upd (s.entitiesAt (s.archeType i).entities) j (f (s.entity i j))
  { s with entitiesAt := upd s.entitiesAt (s.archeType i).entities array }

/-- Write fields of a queue node. -/
def State.setNode (s : State) (a : Nat) (f : EntityFreeList → EntityFreeList) : State :=
  { s with nodeAt := upd s.nodeAt a (f (s.nodeAt a)) }

section writes

variable {s : State} {i i' j : Nat}

@[simp] theorem archeType_set (f : ArcheType → ArcheType) :
    (s.setArcheType i f).archeType i = f (s.archeType i) := by
  show upd s.archeTypesAt _ (upd _ i _) s.archeTypeArray i = _
  rw [upd_same, upd_same]

theorem archeType_set_other (f : ArcheType → ArcheType) (h : i' ≠ i) :
    (s.setArcheType i f).archeType i' = s.archeType i' := by
  show upd s.archeTypesAt _ (upd _ i _) s.archeTypeArray i' = _
  rw [upd_same, upd_other h]
  rfl

theorem setArcheType_congr {s s' : State} (hs : s = s') {f g : ArcheType → ArcheType}
    (h : f (s.archeType i) = g (s.archeType i)) : s.setArcheType i f = s'.setArcheType i g := by
  subst hs
  unfold State.setArcheType
  rw [h]

theorem entitiesAt_set (f : Entity → Entity) :
    (s.setEntity i j f).entitiesAt (s.archeType i).entities =
      upd (s.entitiesAt (s.archeType i).entities) j (f (s.entity i j)) := upd_same

theorem entitiesAt_set_other (f : Entity → Entity) {b : Nat} (h : b ≠ (s.archeType i).entities) :
    (s.setEntity i j f).entitiesAt b = s.entitiesAt b := upd_other h

end writes

/-! ## Memory -/

/-- A call to an allocator is logged.  The log is the whole of what the allocators and this store
    have to do with each other. -/
def State.logged (s : State) (c : AllocCall) : State := { s with memLog := c :: s.memLog }

@[simp] theorem archeType_logged (s : State) (c : AllocCall) (i : Nat) :
    (s.logged c).archeType i = s.archeType i := rfl

/-- `MmAllocateMultiplePages(amount)`, answered with `mem`. -/
def State.mmAllocateMultiplePages (s : State) (amount mem : Nat) : State :=
  s.logged (.take mem (amount * pageSize))

/-- `MmAllocateGeneralMemory(size)`, answered with `mem`. -/
def State.mmAllocateGeneralMemory (s : State) (size mem : Nat) : State :=
  s.logged (.take mem size)

/-- `MmFreeGeneralMemory(address)`, on an address the heap handed out or `NULL`. -/
def State.mmFreeGeneralMemory (s : State) (address : Nat) : State × NearStatus :=
  if address = null then (s, .invalidAddress)
  else (s.logged (.give address), .success)

/-- The calls of `MmReallocatePages(memory, …, newSizeInPages)`, answered with `newMemory`.  A
    refused run gives nothing back, so the old array stays, and its pointer is lost by the caller. -/
def reallocLog (memory newSizeInPages newMemory : Nat) (log : List AllocCall) : List AllocCall :=
  let log := .take newMemory (newSizeInPages * pageSize) :: log
  if newMemory = null then log
  else if memory = null then log
  else .give memory :: log

/-- What `MmReallocatePages(memory, prevSizeInPages, newSizeInPages)` does to arrays of records of
    `sizeof` bytes: `memset` clears the new run, then `memcpy` copies the old one.  A record that
    only partly lies in the bytes cleared or copied is taken to be left out.  That the new run is
    cleared first matters: `alive` of an entity that was never written is read. -/
def reallocArrays {α : Type} (zero : α) (sizeof : Nat) (memory prevSizeInPages newSizeInPages
    newMemory : Nat) (arrays : Nat → Nat → α) : Nat → Nat → α :=
  if newMemory = null then arrays
  else
    let cleared := upd arrays newMemory fun i =>
      if (i + 1) * sizeof ≤ w64 (newSizeInPages * pageSize) then zero else arrays newMemory i
    if memory = null then cleared
    else upd cleared newMemory fun i =>
      if (i + 1) * sizeof ≤ w64 (prevSizeInPages * pageSize) then cleared memory i
      else cleared newMemory i

/-! ## Components -/

/-- `EcsGetNewComponentIndex()`; the subtraction is made in an `int`.  Nothing in the repository
    calls it; an id that it hands out counts as registered, and its size is whatever the page held. -/
def State.ecsGetNewComponentIndex (s : State) : State × Nat :=
  let cur := (s.curComponentIndex + 1) % 2 ^ 16
  ({ s with curComponentIndex := cur }, (cur + (2 ^ 16 - 1)) % 2 ^ 16)

/-- `EcsCreateNewComponent(size)` when it has its array.  At 512 components registering fails with
    id 0, which is the id of no component. -/
def State.registerComponent (s : State) (size : Nat) : State × Nat :=
  let index := s.curComponentIndex
  if maxComponent ≤ index then (s, 0)
  else
    let array := upd (s.sizesAt s.componentSizeArr) index size
    ({ s with sizesAt := upd s.sizesAt s.componentSizeArr array,
              curComponentIndex := (s.curComponentIndex + 1) % 2 ^ 16 }, index)

/-- `EcsCreateNewComponent(size)`, where the page allocator answers `mem` if it is asked.  The array
    has one page, and `MAX_COMPONENT` sizes of 8 bytes fill it. -/
def State.ecsCreateNewComponent (s : State) (mem size : Nat) : State × Nat :=
  let s := if s.componentSizeArr = null then
      { s.mmAllocateMultiplePages 1 mem with componentSizeArr := mem } else s
  if s.componentSizeArr = null then (s, 0) else s.registerComponent size

/-- `EcsCompareComponents(component1, componentAmount1, component2, componentAmount2)`.  Lists are
    compared in order, so the same components in another order are another archetype. -/
def ecsCompareComponents (component1 : Nat → Nat) (componentAmount1 : Nat)
    (component2 : Nat → Nat) (componentAmount2 : Nat) : Bool :=
  if componentAmount1 ≠ componentAmount2 then false
  else (List.range componentAmount1).all fun i => component1 i == component2 i

/-- `EcsGetSizeOfAllComponents(components, componentAmount)`.  The amount is a `u8`: what a caller
    passes is cut to 8 bits, so of a list of 256 entries none is added up. -/
def State.ecsGetSizeOfAllComponents (s : State) (components : Nat → Nat) (componentAmount : Nat) :
    Nat :=
  (List.range (componentAmount % 2 ^ 8)).foldl (fun componentSize i =>
    if s.curComponentIndex ≤ components i then componentSize
    else w64 (componentSize + s.componentSize (components i))) 0

/-- The entries of `componentSizeArr` that `EcsGetSizeOfAllComponents` reads: the same turns. -/
def State.ecsGetSizeOfAllComponentsReads (s : State) (components : Nat → Nat)
    (componentAmount : Nat) : List Nat :=
  (List.range (componentAmount % 2 ^ 8)).filterMap fun i =>
    if s.curComponentIndex ≤ components i then none else some (components i)

/-! ## Handles -/

/-- `EcsEncodeHandle(archeTypeIndex, entityIndex)`; both are `u32`.  An index that is 32 bits or
    more loses its upper bits here, without a word. -/
def ecsEncodeHandle (archeTypeIndex entityIndex : Nat) : Nat :=
  (archeTypeIndex % 2 ^ 32) <<< 32 ||| entityIndex % 2 ^ 32

/-- `EcsDecodeHandle(handle, …)`. -/
def ecsDecodeHandle (handle : Nat) : Nat × Nat := ((handle >>> 32) % 2 ^ 32, handle % 2 ^ 32)

/-! ## Archetypes -/

/-- The first part of `EcsGetArcheType`: a full array moves to a larger run of pages.  `none` is
    `KePanic`.  The pointer is overwritten before it is tested, but after `KePanic` nobody looks. -/
def State.growArcheTypes (s : State) (newMemory : Nat) : Option State :=
  if s.ataCapacity ≤ s.ataIndex then
    let newAtCapacity := if s.ataCapacity = 0 then 15 else w64 (s.ataCapacity * 3)
    let newAtSize := w64 (newAtCapacity * sizeofArcheType)
    let newAtSizeInPages := inPages newAtSize
    let s := { s with
      archeTypesAt := reallocArrays .zero sizeofArcheType s.archeTypeArray s.ataSizeInPages
        newAtSizeInPages newMemory s.archeTypesAt
      memLog := reallocLog s.archeTypeArray newAtSizeInPages newMemory s.memLog
      archeTypeArray := newMemory }
    if newMemory = null then none
    else some { s with ataSize := newAtSize, ataCapacity := newAtCapacity,
                       ataSizeInPages := newAtSizeInPages }
  else some s

/-- The test in the loop of `EcsGetArcheType`. -/
def State.isArcheType (s : State) (components : Nat → Nat) (componentAmount i : Nat) : Bool :=
  if (s.archeType i).componentAmount ≠ componentAmount then false
  else ecsCompareComponents components componentAmount (s.archeType i).components
    (s.archeType i).componentAmount

/-- The loop of `EcsGetArcheType`: the first archetype with this component list.  The search takes
    time linear in the number of archetypes, and the first hit is the answer. -/
def State.findArcheType (s : State) (components : Nat → Nat) (componentAmount : Nat) : Option Nat :=
  (List.range s.ataIndex).find? (s.isArcheType components componentAmount)

/-- `EcsGetArcheType(components, componentAmount)`, returning the index.  The growth comes first, so
    a full array grows even when the list is found. -/
def State.ecsGetArcheType (s : State) (newMemory : Nat) (components : Nat → Nat)
    (componentAmount : Nat) : Option (State × Nat) :=
  match s.growArcheTypes newMemory with
  | none => none
  | some s =>
    match s.findArcheType components componentAmount with
    | some i => some (s, i)
    | none =>
      let s' := s.setArcheType s.ataIndex fun _ =>
        { ArcheType.zero with
          components := fun i => if i < componentAmount then components i else 0
          componentAmount, initial := null, freeList := null }
      some ({ s' with ataIndex := w64 (s.ataIndex + 1) }, s.ataIndex)

/-! ## Creating an entity -/

/-- What the allocators answer to one call of `EcsCreateEntity`: the page allocator for the array
    of archetypes and for the array of entities, the heap for the arena. -/
structure Answers where
  archeTypes : Nat
  entities : Nat
  arena : Nat

/-- The growth of the entity array in `EcsCreateEntity`; `false` is the return of
    `STATUS_OUT_OF_MEMORY`.  Here the pointer is overwritten too, and the caller goes on with an
    archetype whose array is at `NULL` (`Ecs.Failures`). -/
def State.growEntities (s : State) (newMemory i : Nat) : State × Bool :=
  let archeType := s.archeType i
  if archeType.capacity ≤ archeType.index then
    let newCapacity := if archeType.capacity = 0 then 15 else w64 (archeType.capacity * 3)
    let newSize := w64 (newCapacity * sizeofEntity)
    let newSizeInPages := inPages newSize
    let s := { s with
      entitiesAt := reallocArrays .zero sizeofEntity archeType.entities archeType.sizeInPages
        newSizeInPages newMemory s.entitiesAt
      memLog := reallocLog archeType.entities newSizeInPages newMemory s.memLog }
    let s := s.setArcheType i fun a => { a with entities := newMemory }
    if newMemory = null then (s, false)
    else (s.setArcheType i fun a =>
      { a with size := newSize, capacity := newCapacity, sizeInPages := newSizeInPages }, true)
  else (s, true)

/-- The choice of a slot in `EcsCreateEntity`: the oldest deleted one, else a new one. -/
def State.takeSlot (s : State) (i : Nat) : State × Nat :=
  let initial := (s.archeType i).initial
  if initial ≠ null then
    let s := s.setArcheType i fun a => { a with initial := (s.nodeAt initial).next }
    let enIndex := (s.nodeAt initial).index
    ((s.mmFreeGeneralMemory initial).1, enIndex)
  else
    (s.setArcheType i fun a => { a with index := (a.index + 1) % 2 ^ 32 }, (s.archeType i).index)

/-- One turn of the loop of `EcsCreateEntity`: component `i` is pushed; the pointer is returned. -/
def pushComponent (size components : Nat → Nat) (i : Nat) (entity : Entity) : Entity × Nat :=
  let push := entity.arena.mmPushMemoryFromArena (size (components i))
  ({ entity with
      componentTypes := upd entity.componentTypes i (components i)
      arena := push.1
      components := upd entity.components i push.2 }, push.2)

/-- The loop over the `n` components from index `i` on; `false` when a push answered `NULL`. -/
def fillComponents (size components : Nat → Nat) : Nat → Nat → Entity → Entity × Bool
  | 0, _, entity => (entity, true)
  | n + 1, i, entity =>
    let pushed := pushComponent size components i entity
    if pushed.2 = null then (pushed.1, false)
    else fillComponents size components n (i + 1) pushed.1

/-- The slot before the loop: zeros, an arena of `size` bytes at `mem`, and the amount, which the
    entity keeps in a `u8`. -/
def preparedEntity (mem size componentAmount : Nat) : Entity :=
  { Entity.zero with
    arena := (Arena.zero.mmCreateArena mem size).1, componentAmount := componentAmount % 2 ^ 8 }

/-- The last part of `EcsCreateEntity`: fill the slot.  `componentAmount` is a `u64` here, and cut to
    a `u8` by `EcsGetSizeOfAllComponents`. -/
def State.fillSlot (s : State) (mem i j : Nat) (components : Nat → Nat) (componentAmount : Nat) :
    State × Except NearStatus Nat :=
  let size := s.ecsGetSizeOfAllComponents components componentAmount
  let s := s.mmAllocateGeneralMemory size mem
  let filled := fillComponents s.componentSize components componentAmount 0
    (preparedEntity mem size componentAmount)
  if filled.2 = false then (s.setEntity i j fun _ => filled.1, .error .outOfMemory)
  else (s.setEntity i j fun _ => { filled.1 with alive := true }, .ok (ecsEncodeHandle i j))

/-- `EcsCreateEntity(handle, components, componentAmount)`: the status and, with
    `STATUS_SUCCESS`, the handle written.  `none` is `KePanic`. -/
def State.ecsCreateEntity (s : State) (a : Answers) (components : Nat → Nat)
    (componentAmount : Nat) : Option (State × Except NearStatus Nat) :=
  match s.ecsGetArcheType a.archeTypes components (componentAmount % 2 ^ 8) with
  | none => none
  | some (s, i) =>
    let grown := s.growEntities a.entities i
    if grown.2 = false then some (grown.1, .error .outOfMemory)
    else
      let taken := grown.1.takeSlot i
      some (taken.1.fillSlot a.arena i taken.2 components componentAmount)

/-! ## Using an entity -/

/-- `EcsGetEntity(entity, entityRef)`: the indices of the entity found. -/
def State.ecsGetEntity (s : State) (entityRef : Nat) : Except NearStatus (Nat × Nat) :=
  let archeTypeIndex := (ecsDecodeHandle entityRef).1
  let entityIndex := (ecsDecodeHandle entityRef).2
  if s.ataIndex ≤ archeTypeIndex then .error .invalidHandle
  else if (s.archeType archeTypeIndex).index ≤ entityIndex then .error .invalidHandle
  else if (s.entity archeTypeIndex entityIndex).alive = false then .error .invalidEntity
  else .ok (archeTypeIndex, entityIndex)

/-- A record that is read. -/
inductive Access
  | archeType (i : Nat)
  | entity (i j : Nat)

/-- The records `EcsGetEntity(entity, entityRef)` reads, check by check. -/
def State.ecsGetEntityReads (s : State) (entityRef : Nat) : List Access :=
  let archeTypeIndex := (ecsDecodeHandle entityRef).1
  let entityIndex := (ecsDecodeHandle entityRef).2
  if s.ataIndex ≤ archeTypeIndex then []
  else if (s.archeType archeTypeIndex).index ≤ entityIndex then [.archeType archeTypeIndex]
  else [.archeType archeTypeIndex, .entity archeTypeIndex entityIndex]

/-- `&archeTypeArray[i].entities[j]`. -/
def State.entityAddr (s : State) (i j : Nat) : Nat := (s.archeType i).entities + j * sizeofEntity

/-- The bytes of a record. -/
def Access.region (s : State) : Access → Region
  | .archeType i => ⟨s.archeTypeArray + i * sizeofArcheType, sizeofArcheType⟩
  | .entity i j => ⟨s.entityAddr i j, sizeofEntity⟩

/-- What `EcsGetEntity` gives its callers: they refuse a status that is not `STATUS_SUCCESS` and a
    `NULL` entity alike. -/
def State.resolve (s : State) (entityRef : Nat) : Option (Nat × Nat) :=
  match s.ecsGetEntity entityRef with
  | .error _ => none
  | .ok (i, j) => if s.entityAddr i j = null then none else some (i, j)

/-- The loop over `componentTypes`: the first index with this type. -/
def Entity.find (entity : Entity) (component : Nat) : Option Nat :=
  (List.range entity.componentAmount).find? fun i => entity.componentTypes i == component

/-- `EcsAddComponentDataToEntity(entityRef, component, componentData)`.  A `NULL` component
    returns `FALSE`, which as a status is `STATUS_SUCCESS`. -/
def State.ecsAddComponentDataToEntity (s : State) (entityRef component : Nat)
    (componentData : Nat → UInt8) : State × NearStatus :=
  match s.resolve entityRef with
  | none => (s, .invalidHandle)
  | some (i, j) =>
    match (s.entity i j).find component with
    | none => (s, .notFound)
    | some index =>
      let dest := (s.entity i j).components index
      if dest = null then (s, .success)
      else
        ({ s with bytes := fun x => if dest ≤ x ∧ x < dest + s.componentSize component then
            componentData (x - dest) else s.bytes x }, .success)

/-- `EcsGetComponent(component, entityRef, componentType)`: the pointer written. -/
def State.ecsGetComponent (s : State) (entityRef componentType : Nat) : Except NearStatus Nat :=
  match s.resolve entityRef with
  | none => .error .invalidHandle
  | some (i, j) =>
    match (s.entity i j).find componentType with
    | none => .error .notFound
    | some index => .ok ((s.entity i j).components index)

/-! ## Deleting an entity -/

/-- The first part of `EcsDeleteEntity`: the arena goes, the types are cleared, the slot is dead. -/
def State.killSlot (s : State) (i j : Nat) : State :=
  let freed := s.mmFreeGeneralMemory (s.entity i j).arena.base
  freed.1.setEntity i j fun entity =>
    { entity with
      arena := (entity.arena.mmDestroyArena freed.2).1
      componentTypes := fun k => if k < entity.componentAmount then 0 else entity.componentTypes k
      alive := false }

/-- The second part of `EcsDeleteEntity`: the slot is appended to the queue, in a heap node at
    `mem`. -/
def State.queueSlot (s : State) (mem i j : Nat) : State × NearStatus :=
  let s := s.mmAllocateGeneralMemory sizeofEntityFreeList mem
  if mem = null then (s, .outOfMemory)
  else
    let s := s.setNode mem fun _ => ⟨j, null⟩
    if (s.archeType i).initial = null then
      (s.setArcheType i fun a => { a with initial := mem, freeList := mem }, .success)
    else
      let s := s.setNode (s.archeType i).freeList fun node => { node with next := mem }
      (s.setArcheType i fun a => { a with freeList := (s.nodeAt a.freeList).next }, .success)

/-- `EcsDeleteEntity(entityHandle)`, where the heap answers `mem` for the queue node. -/
def State.ecsDeleteEntity (s : State) (mem entityHandle : Nat) : State × NearStatus :=
  match s.resolve entityHandle with
  | none => (s, .invalidHandle)
  | some (i, j) => (s.killSlot i j).queueSlot mem i j

end Nearlands.Ecs

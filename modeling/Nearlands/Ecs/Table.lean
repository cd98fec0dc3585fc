/-
  The store as a table.

  What the entity store is for: archetypes in rows, each with its component list, its slots and the
  queue of slots to be reused.  In the table a slot is one of four things: an entity that is
  alive, with its arena and the pointers to its components; a free slot, with the queue node that
  names it; lost, dead and in no queue; or, inside `EcsCreateEntity`, taken and not yet written.

  `Shows s own t` says that the records in memory are the table `t`: the arrays are large enough
  and lie in pages that are held, the queue of each archetype runs through the nodes of its free
  slots, and no two objects share memory (`own` names the owner of every address in use).  Pages
  and pointers to arrays are gone from the table: that an array moves cannot be seen there.
-/
import Nearlands.Ecs.Store
import Nearlands.Lib.Fifo

namespace Nearlands.Ecs

open Nearlands.Lib Nearlands.Lib.AllocLog

/-- The first `n` entries of an array.  Arrays inside records are functions of the index here; this
    cuts one to its length. -/
def listOf (f : Nat → Nat) (n : Nat) : List Nat := (List.range n).map f

@[simp] theorem length_listOf (f : Nat → Nat) (n : Nat) : (listOf f n).length = n := by
  simp [listOf]

/-- A list depends on the entries below its length only. -/
theorem listOf_congr {f g : Nat → Nat} {n : Nat} (h : ∀ k < n, f k = g k) :
    listOf f n = listOf g n :=
  List.map_congr_left fun k hk => h k (List.mem_range.mp hk)

/-- Lists of one length that are equal have equal entries. -/
theorem listOf_inj {f g : Nat → Nat} {n : Nat} (h : listOf f n = listOf g n) :
    ∀ k < n, f k = g k := fun k hk =>
  List.map_inj_left.mp h k (List.mem_range.mpr hk)

/-- An array read from a list gives the list back. -/
theorem listOf_getD (l : List Nat) : listOf (fun k => l.getD k 0) l.length = l := by
  refine List.ext_getElem (by simp) fun k h _ => ?_
  have hk : k < l.length := by simpa using h
  simp [listOf, hk]

/-! ## The table -/

/-- A slot of an archetype.  Of a live entity the table keeps the arena and the component pointers,
    of a free slot the node that leads to it.  There is nothing to keep of a lost one: no call
    reaches it again. -/
inductive Slot
  | alive (arena : Region) (components : List Nat)
  | queued (node : Nat)
  | lost
  | taken

/-- An archetype: its component list, the number of slots used so far, the free slots in order of
    their deletion, and the slots.  The queue holds slots, not nodes: which node stands for a slot
    is in the slot (`Row.nodeOf`). -/
structure Row where
  comps : List Nat
  index : Nat
  queue : List Nat
  slot : Nat → Slot

/-- `count` archetypes. -/
structure Table where
  count : Nat
  row : Nat → Row

/-- The queue node of a free slot. -/
def Row.nodeOf (r : Row) (j : Nat) : Nat :=
  match r.slot j with
  | .queued n => n
  | _ => null

/-- The node of a slot that waits is the one recorded with it. -/
theorem Row.nodeOf_eq {r : Row} {j n : Nat} (h : r.slot j = .queued n) : r.nodeOf j = n := by
  rw [Row.nodeOf]
  rw [h]

/-- A slot is put to another use. -/
def Row.setSlot (r : Row) (j : Nat) (v : Slot) : Row := { r with slot := upd r.slot j v }

/-- The slot for the next entity: the one free for longest, else a new one.  The index is a `u32`
    and wraps; `NoWrap` is where that is kept out. -/
def Row.take (r : Row) : Row × Nat :=
  match r.queue with
  | j :: queue => ({ r with queue, slot := upd r.slot j .taken }, j)
  | [] => ({ r with index := (r.index + 1) % 2 ^ 32, slot := upd r.slot r.index .taken }, r.index)

/-- The slot `j` becomes the youngest free one.  The oldest is used first: `Row.take` takes from the
    other end. -/
def Row.enqueue (r : Row) (j node : Nat) : Row :=
  { r with queue := r.queue ++ [j], slot := upd r.slot j (.queued node) }

/-- A row is replaced. -/
def Table.setRow (t : Table) (i : Nat) (r : Row) : Table := { t with row := upd t.row i r }

/-- An archetype with no slots is added. -/
def Table.addRow (t : Table) (comps : List Nat) : Table :=
  ⟨t.count + 1, upd t.row t.count ⟨comps, 0, [], fun _ => .lost⟩⟩

/-- The table with row `i` in it; it is added when it is the next one.  This is the effect of
    `EcsGetArcheType` on the table, with its answer `i`: the array may have moved on the way, which
    is not to be seen here. -/
def Table.withRow (t : Table) (comps : List Nat) (i : Nat) : Table :=
  if i < t.count then t else t.addRow comps

/-- The next slot of row `i` is used as `v`.  `EcsCreateEntity` in one step, as far as the table
    goes: a slot is taken, and then it is an entity that is alive or a slot that is lost. -/
def Table.put (t : Table) (i : Nat) (v : Slot) : Table :=
  t.setRow i ((t.row i).take.1.setSlot (t.row i).take.2 v)

@[simp] theorem Table.row_setRow (t : Table) (i : Nat) (r : Row) : (t.setRow i r).row i = r :=
  upd_same

/-- Other rows stay. -/
theorem Table.row_setRow_other {t : Table} {i i' : Nat} (r : Row) (h : i' ≠ i) :
    (t.setRow i r).row i' = t.row i' := upd_other h

@[simp] theorem Table.setRow_setRow (t : Table) (i : Nat) (r r' : Row) :
    (t.setRow i r).setRow i r' = t.setRow i r' := by
  have h : upd (upd t.row i r) i r' = upd t.row i r' := by
    funext x
    by_cases hx : x = i
    · rw [hx, upd_same, upd_same]
    · rw [upd_other hx, upd_other hx, upd_other hx]
  unfold Table.setRow
  rw [h]

@[simp] theorem Row.take_comps (r : Row) : r.take.1.comps = r.comps := by
  rw [Row.take]
  split <;> rfl

/-- A slot that was chosen is taken, and the others stay. -/
theorem Row.take_slot (r : Row) : r.take.1.slot = upd r.slot r.take.2 .taken := by
  rw [Row.take]
  split <;> rfl

/-- The only slot that can appear is the one chosen. -/
theorem Row.lt_of_take {r : Row} {j : Nat} (h : j < r.take.1.index) (hj : j ≠ r.take.2) :
    j < r.index := by
  rw [Row.take] at h hj
  split at h
  · exact h
  · rename_i hq
    rw [hq] at hj
    dsimp only at h hj
    omega

/-- The slot chosen is none that is alive, and it is there unless the index has wrapped.  The
    hypothesis is that the queue holds the free slots (`RowIs.mem_queue`), so that a slot which
    comes from it is dead, and one which does not is new. -/
theorem Row.take_spec {r : Row}
    (hq : ∀ j, j ∈ r.queue ↔ j < r.index ∧ ∃ n, r.slot j = .queued n) :
    (r.take.2 < r.index → ∃ n, r.slot r.take.2 = .queued n) ∧
    (r.index ≤ r.take.1.index → r.take.2 < r.take.1.index) := by
  rw [Row.take]
  split
  · rename_i j queue heq
    obtain ⟨hlt, hn⟩ := (hq j).mp (by rw [heq]; exact List.mem_cons_self)
    exact ⟨fun _ => hn, fun _ => hlt⟩
  · dsimp only
    exact ⟨fun h => absurd h (Nat.lt_irrefl _), fun h => by omega⟩

/-! ## What the records mean -/

/-- Who owns a piece of memory: the array of archetypes, the array of entities of an archetype, a
    slot (its arena, or the node that queues it), the array of component sizes.

    Memory that is held has one owner, so that different owners have memory apart; what an owner has
    is told by the records. -/
inductive Owner
  | archeTypes
  | entities (i : Nat)
  | slot (i j : Nat)
  | sizes
  deriving DecidableEq

/-- What the meaning of a record depends on: the memory held, its owners, and the queue nodes.
    Memory of records themselves is not in it: `RowIs` and `SlotIs` are told the records they speak
    of. -/
structure Ground where
  log : List AllocCall
  own : Nat → Option Owner
  nodeAt : Nat → EntityFreeList

/-- An array that grew from nothing through `15, 45, 135, …` records of `sizeof` bytes, in pages
    that belong to `o`.  The capacity starts at 15 and is tripled whenever it is reached.  The run
    of pages holds all entries of the capacity, which is what `room` in `RowIs` and `Shows` builds
    on. -/
inductive ArrayIs (log : List AllocCall) (own : Nat → Option Owner) (o : Owner) (sizeof : Nat) :
    (capacity base sizeInPages : Nat) → Prop
  | empty {pages : Nat} : ArrayIs log own o sizeof 0 null pages
  | grown {base pages : Nat} (k : Nat) : base ≠ null → 15 * 3 ^ k * sizeof ≤ pages * pageSize →
      Owns log own o ⟨base, pages * pageSize⟩ → ArrayIs log own o sizeof (15 * 3 ^ k) base pages

/-- What an entity record means, in slot `j` of archetype `i` with component list `comps`.  A live
    entity need not have an arena: a list of no components asks the heap for nothing, and the answer
    to that may be `NULL`. -/
inductive SlotIs (g : Ground) (i j : Nat) (comps : List Nat) (e : Entity) : Slot → Prop
  | alive {arena : Region} : e.alive = true → listOf e.componentTypes e.componentAmount = comps →
      e.arena.base = arena.base → (arena.base ≠ null → Owns g.log g.own (.slot i j) arena) →
      SlotIs g i j comps e (.alive arena (listOf e.components e.componentAmount))
  | queued {node : Nat} : e.alive = false → (g.nodeAt node).index = j →
      Owns g.log g.own (.slot i j) ⟨node, sizeofEntityFreeList⟩ → SlotIs g i j comps e (.queued node)
  | lost : e.alive = false → SlotIs g i j comps e .lost
  | taken : SlotIs g i j comps e .taken

/-- The queue of an archetype.  `initial` is where nodes are taken, and `freeList` where they are
    appended. -/
def ArcheType.fifo (a : ArcheType) (nodeAt : Nat → EntityFreeList) : Fifo :=
  ⟨a.initial, a.freeList, fun n => (nodeAt n).next⟩

/-- What an archetype record with the entities `es` means.  The last four fields are where it could
    go wrong: the array has room for every slot in use; the nodes from `initial` on are those of the
    queue, in order; the queue has exactly the slots that are free; and every record means what the
    table says. -/
structure RowIs (g : Ground) (i : Nat) (a : ArcheType) (es : Nat → Entity) (r : Row) : Prop where
  comps : listOf a.components a.componentAmount = r.comps
  index : a.index = r.index
  index_lt : r.index < 2 ^ 32
  room : r.index ≤ a.capacity
  array : ArrayIs g.log g.own (.entities i) sizeofEntity a.capacity a.entities a.sizeInPages
  queue : (a.fifo g.nodeAt).Is (r.queue.map r.nodeOf)
  mem_queue : ∀ j, j ∈ r.queue ↔ j < r.index ∧ ∃ n, r.slot j = .queued n
  slots : ∀ j < r.index, SlotIs g i j r.comps (es j) (r.slot j)

/-- What the meaning of the records of a state depends on. -/
@[reducible] def State.ground (s : State) (own : Nat → Option Owner) : Ground :=
  ⟨s.memLog, own, s.nodeAt⟩

/-- The records of `s` are the table `t`.  `distinct` is what makes an index a name for a component
    list, and `room` what keeps every write to an archetype inside the array. -/
structure Shows (s : State) (own : Nat → Option Owner) (t : Table) : Prop where
  good : Good s.memLog
  count : s.ataIndex = t.count
  room : t.count ≤ s.ataCapacity
  array : ArrayIs s.memLog own .archeTypes sizeofArcheType s.ataCapacity s.archeTypeArray
    s.ataSizeInPages
  row : ∀ i < t.count,
    RowIs (s.ground own) i (s.archeType i) (s.entitiesAt (s.archeType i).entities) (t.row i)
  distinct : ∀ i < t.count, ∀ i' < t.count, (t.row i).comps = (t.row i').comps → i = i'
  sizes : s.componentSizeArr ≠ null →
    Owns s.memLog own .sizes ⟨s.componentSizeArr, 1 * pageSize⟩

/-! ## Frames -/

/-- From one log to another, every owner but `x` keeps what it has.  The frame condition of this
    store.  A call acts for one owner at a time, and what belongs to the others survives the call by
    `RowIs.keep` and `SlotIs.keep`, without a look at addresses. -/
def Keeps (x : Owner) (log : List AllocCall) (own : Nat → Option Owner) (log' : List AllocCall)
    (own' : Nat → Option Owner) : Prop :=
  ∀ o r, o ≠ x → Owns log own o r → Owns log' own' o r

section frames

variable {x : Owner} {log log' : List AllocCall} {own own' : Nat → Option Owner}

/-- Nothing happened. -/
theorem Keeps.refl (x : Owner) (log : List AllocCall) (own : Nat → Option Owner) :
    Keeps x log own log own := fun _ _ _ h => h

/-- One thing after the other. -/
theorem Keeps.trans {log'' : List AllocCall} {own'' : Nat → Option Owner}
    (h : Keeps x log own log' own') (h' : Keeps x log' own' log'' own'') :
    Keeps x log own log'' own'' := fun o r ho hr => h' o r ho (h o r ho hr)

/-- An answer that is new, or `NULL`, is given to `x`. -/
theorem Keeps.take {base size : Nat} (hg : Good (.take base size :: log)) :
    Keeps x log own (.take base size :: log) (upd own base (some x)) := by
  intro o r _ hr
  by_cases h0 : base = 0
  · subst h0
    have hne : r.base ≠ 0 := (Good.fits (show Good log from hg.2) r hr.held).1
    exact ⟨hr.held, by rw [upd_other hne]; exact hr.owner⟩
  · exact hr.take h0 (hg.1 h0) _

/-- `x` gives back its region. -/
theorem Keeps.give {r : Region} (h : Owns log own x r) :
    Keeps x log own (.give r.base :: log) own := fun _ _ ho hr => hr.give h ho

/-- An array of another owner stays. -/
theorem ArrayIs.keep {o : Owner} {sizeof capacity base pages : Nat}
    (h : ArrayIs log own o sizeof capacity base pages) (hk : Keeps x log own log' own')
    (ho : o ≠ x) : ArrayIs log' own' o sizeof capacity base pages := by
  cases h with
  | empty => exact .empty
  | grown k hne hle hown => exact .grown k hne hle (hk _ _ ho hown)

/-- Arrays of different owners begin at different addresses.  So a write through one of them is not
    seen through the other. -/
theorem ArrayIs.base_ne {o o' : Owner} {sizeof sizeof' cap base pages cap' base' pages' : Nat}
    (h : ArrayIs log own o sizeof cap base pages)
    (h' : ArrayIs log own o' sizeof' cap' base' pages') (hne : o ≠ o') (h0 : base ≠ null) :
    base ≠ base' := by
  cases h with
  | empty => exact absurd rfl h0
  | grown k _ _ hown =>
    cases h' with
    | empty => exact h0
    | grown k' _ _ hown' => exact hown.ne_base hown' hne

/-- An array with room for something is somewhere. -/
theorem ArrayIs.base_ne_null {o : Owner} {sizeof cap base pages : Nat}
    (h : ArrayIs log own o sizeof cap base pages) (hc : cap ≠ 0) : base ≠ null := by
  cases h with
  | empty => exact absurd rfl hc
  | grown k h0 _ _ => exact h0

/-- A capacity is a word.  The run held for it ends below `2 ^ 64`, so tripling a capacity has not
    wrapped so far. -/
theorem ArrayIs.capacity_lt {o : Owner} {sizeof cap base pages : Nat}
    (h : ArrayIs log own o sizeof cap base pages) (hg : Good log) (hs : 0 < sizeof) :
    cap < 2 ^ 64 := by
  cases h with
  | empty => exact Nat.two_pow_pos 64
  | grown k _ hle hown =>
    have hfits := (hg.fits _ hown.held).2
    dsimp only at hfits
    calc 15 * 3 ^ k ≤ 15 * 3 ^ k * sizeof := Nat.le_mul_of_pos_right _ hs
      _ ≤ pages * pageSize := hle
      _ < 2 ^ 64 := by omega

variable {g g' : Ground} {i j : Nat} {comps : List Nat} {e : Entity} {v : Slot} {a : ArcheType}
  {es : Nat → Entity} {r : Row}

/-- A slot stays what it is while its owner keeps its memory and its node its index.  The node
    matters only when the slot is queued, and then it is memory of the slot. -/
theorem SlotIs.keep (h : SlotIs g i j comps e v) (hk : Keeps x g.log g.own g'.log g'.own)
    (hx : Owner.slot i j ≠ x)
    (hnode : ∀ n, Owns g.log g.own (.slot i j) ⟨n, sizeofEntityFreeList⟩ →
      (g'.nodeAt n).index = (g.nodeAt n).index) : SlotIs g' i j comps e v := by
  cases h with
  | alive ha ht hb hown => exact .alive ha ht hb fun h0 => hk _ _ hx (hown h0)
  | queued ha hn hown => exact .queued ha ((hnode _ hown).trans hn) (hk _ _ hx hown)
  | lost ha => exact .lost ha
  | taken => exact .taken

/-- The nodes of a queue belong to the free slots.  This is how the queue inherits the separation of
    memory: two nodes are two owners. -/
theorem RowIs.node_owned (h : RowIs g i a es r) {n : Nat} (hn : n ∈ r.queue.map r.nodeOf) :
    ∃ j < r.index, r.slot j = .queued n ∧
      Owns g.log g.own (.slot i j) ⟨n, sizeofEntityFreeList⟩ := by
  obtain ⟨j, hj, rfl⟩ := List.mem_map.mp hn
  obtain ⟨hlt, n, hslot⟩ := (h.mem_queue j).mp hj
  have hs := h.slots j hlt
  rw [hslot] at hs
  rw [Row.nodeOf_eq hslot]
  cases hs with
  | queued _ _ hown => exact ⟨j, hlt, hslot, hown⟩

/-- A row stays what it is while `x` is neither its array nor one of its slots. -/
theorem RowIs.keep (h : RowIs g i a es r) (hk : Keeps x g.log g.own g'.log g'.own)
    (hx : x ≠ .entities i) (hxs : ∀ j, x ≠ .slot i j)
    (hnode : ∀ n j, Owns g.log g.own (.slot i j) ⟨n, sizeofEntityFreeList⟩ →
      g'.nodeAt n = g.nodeAt n) : RowIs g' i a es r where
  comps := h.comps
  index := h.index
  index_lt := h.index_lt
  room := h.room
  array := h.array.keep hk hx.symm
  queue := by
    refine h.queue.congr fun n hn => ?_
    obtain ⟨j, -, -, hown⟩ := h.node_owned hn
    exact congrArg EntityFreeList.next (hnode n j hown)
  mem_queue := h.mem_queue
  slots := fun j hj => (h.slots j hj).keep hk (hxs j).symm fun n hown =>
    congrArg EntityFreeList.index (hnode n j hown)

/-- The queue has no repetitions. -/
theorem RowIs.nodup (h : RowIs g i a es r) : r.queue.Nodup := h.queue.nodup.of_map

/-- Different archetypes keep their entities in different arrays. -/
theorem RowIs.entities_ne {i' : Nat} {a' : ArcheType} {es' : Nat → Entity} {r' : Row}
    (h : RowIs g i a es r) (h' : RowIs g i' a' es' r') (hne : i ≠ i') (h0 : a.entities ≠ null) :
    a.entities ≠ a'.entities :=
  h.array.base_ne h'.array (fun he => hne (Owner.entities.inj he)) h0

end frames

end Nearlands.Ecs

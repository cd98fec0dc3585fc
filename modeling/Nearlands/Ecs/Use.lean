/-
  Using and deleting entities.

  A handle resolves when it names a slot of the table that is alive (`resolve_iff`).  The two
  functions that read or write components then search the component list of that slot, and
  `EcsDeleteEntity` first makes the slot lost, then queues it (`delete_cases`).
-/
import Nearlands.Ecs.Create
import Mathlib.Data.List.Find

namespace Nearlands.Ecs

open Nearlands.Lib Nearlands.Lib.AllocLog

variable {s s' : State} {own : Nat → Option Owner} {t : Table} {i j : Nat}

/-! ## Handles -/

/-- The handle as a number in base `2 ^ 32`. -/
theorem ecsEncodeHandle_eq (i j : Nat) :
    ecsEncodeHandle i j = i % 2 ^ 32 * 2 ^ 32 + j % 2 ^ 32 := by
  rw [ecsEncodeHandle]
  rw [← Nat.shiftLeft_add_eq_or_of_lt (Nat.mod_lt _ (Nat.two_pow_pos 32)), Nat.shiftLeft_eq]

/-- Its two digits. -/
theorem ecsDecodeHandle_eq (h : Nat) :
    ecsDecodeHandle h = (h / 2 ^ 32 % 2 ^ 32, h % 2 ^ 32) := by
  rw [ecsDecodeHandle]
  rw [Nat.shiftRight_eq_div_pow]

/-- Decoding undoes encoding on 32-bit indices. -/
theorem decode_encode (hi : i < 2 ^ 32) (hj : j < 2 ^ 32) :
    ecsDecodeHandle (ecsEncodeHandle i j) = (i, j) := by
  rw [ecsDecodeHandle_eq, ecsEncodeHandle_eq, Nat.mod_eq_of_lt hi, Nat.mod_eq_of_lt hj]
  refine Prod.ext ?_ ?_
  · show (i * 2 ^ 32 + j) / 2 ^ 32 % 2 ^ 32 = i
    omega
  · show (i * 2 ^ 32 + j) % 2 ^ 32 = j
    omega

/-- Every 64-bit value is the handle of what it decodes to.  So there is no value that is not the
    handle of some slot, and validity must be decided by the table. -/
theorem encode_decode {h : Nat} (hh : h < 2 ^ 64) :
    ecsEncodeHandle (ecsDecodeHandle h).1 (ecsDecodeHandle h).2 = h := by
  rw [ecsDecodeHandle_eq, ecsEncodeHandle_eq]
  dsimp only
  omega

/-! ## What resolves -/

/-- Slot `j` of row `i` is an entity that is alive. -/
structure Table.AliveAt (t : Table) (i j : Nat) (arena : Region) (ptrs : List Nat) : Prop where
  row : i < t.count
  index : j < (t.row i).index
  slot : (t.row i).slot j = .alive arena ptrs

/-- No slot is in the hands of `EcsCreateEntity`.  Between two calls it is always so: a slot is
    taken only while `EcsCreateEntity` runs. -/
def Table.Settled (t : Table) : Prop := ∀ i < t.count, ∀ j < (t.row i).index, (t.row i).slot j ≠ .taken

/-- A slot has one arena and one list of pointers. -/
theorem Table.AliveAt.unique {a a' : Region} {p p' : List Nat} (h : t.AliveAt i j a p)
    (h' : t.AliveAt i j a' p') : a = a' ∧ p = p' :=
  Slot.alive.inj (h.slot.symm.trans h'.slot)

/-- The record of an entity that is alive. -/
theorem Shows.alive (h : Shows s own t) {a : Region} {p : List Nat} (ha : t.AliveAt i j a p) :
    (s.entity i j).alive = true ∧
    listOf (s.entity i j).componentTypes (s.entity i j).componentAmount = (t.row i).comps ∧
    listOf (s.entity i j).components (s.entity i j).componentAmount = p ∧
    (s.entity i j).arena.base = a.base ∧ (a.base ≠ null → Owns s.memLog own (.slot i j) a) := by
  have hs := (h.row i ha.row).slots j ha.index
  rw [ha.slot] at hs
  rw [State.entity]
  generalize s.entitiesAt (s.archeType i).entities j = e at hs ⊢
  generalize hv : Slot.alive a p = v at hs
  cases hs with
  | alive h1 h2 h3 h4 =>
    obtain ⟨rfl, rfl⟩ := Slot.alive.inj hv
    exact ⟨h1, h2, rfl, h3, h4⟩
  | queued _ _ _ => cases hv
  | lost _ => cases hv
  | taken => cases hv

/-- The flag of a record is that of its slot.  Where no slot is taken, dead records are those of
    free and lost slots. -/
theorem Shows.alive_iff (h : Shows s own t) (hset : t.Settled) (hi : i < t.count)
    (hj : j < (t.row i).index) :
    (s.entity i j).alive = true ↔ ∃ a p, t.AliveAt i j a p := by
  refine ⟨fun hal => ?_, fun ⟨a, p, ha⟩ => (h.alive ha).1⟩
  have hs := (h.row i hi).slots j hj
  cases hv : (t.row i).slot j with
  | alive a p => exact ⟨a, p, hi, hj, hv⟩
  | queued n =>
    rw [hv] at hs
    cases hs with
    | queued hdead _ _ => exact absurd (hdead.symm.trans hal) nofun
  | lost =>
    rw [hv] at hs
    cases hs with
    | lost hdead => exact absurd (hdead.symm.trans hal) nofun
  | taken => exact absurd hv (hset i hi j hj)

/-- **What `EcsGetEntity` finds.** Every test of the function is passed by a live slot, and fails
    for some reason for any other value. -/
theorem ecsGetEntity_iff (h : Shows s own t) (hset : t.Settled) (x : Nat) :
    s.ecsGetEntity x = .ok (i, j) ↔ ecsDecodeHandle x = (i, j) ∧ ∃ a p, t.AliveAt i j a p := by
  unfold State.ecsGetEntity
  dsimp only
  obtain ⟨i', j'⟩ := ecsDecodeHandle x
  dsimp only
  by_cases hi : s.ataIndex ≤ i'
  · rw [if_pos hi]
    refine ⟨nofun, fun ⟨he, a, p, ha⟩ => ?_⟩
    obtain ⟨rfl, rfl⟩ := Prod.mk.inj he
    rw [h.count] at hi
    exact absurd ha.row (Nat.not_lt.mpr hi)
  · rw [if_neg hi]
    have hi' : i' < t.count := by rw [← h.count]; exact Nat.lt_of_not_le hi
    rw [(h.row i' hi').index]
    by_cases hj : (t.row i').index ≤ j'
    · rw [if_pos hj]
      refine ⟨nofun, fun ⟨he, a, p, ha⟩ => ?_⟩
      obtain ⟨rfl, rfl⟩ := Prod.mk.inj he
      exact absurd ha.index (Nat.not_lt.mpr hj)
    · rw [if_neg hj]
      have hal := h.alive_iff hset hi' (Nat.lt_of_not_le hj)
      by_cases hd : (s.entity i' j').alive = false
      · rw [if_pos hd]
        refine ⟨nofun, fun ⟨he, hex⟩ => ?_⟩
        obtain ⟨rfl, rfl⟩ := Prod.mk.inj he
        exact absurd ((hal.mpr hex).symm.trans hd) nofun
      · rw [if_neg hd]
        refine ⟨fun he => ?_, fun ⟨he, _⟩ => by rw [he]⟩
        obtain ⟨rfl, rfl⟩ := Prod.mk.inj (Except.ok.inj he)
        exact ⟨rfl, hal.mp (Bool.eq_true_of_not_eq_false hd)⟩

/-- The entity found is not at `NULL`.  The source tests the address of the entity, which can only
    be `NULL` when the array is. -/
theorem Shows.entityAddr_ne (h : Shows s own t) {a : Region} {p : List Nat}
    (ha : t.AliveAt i j a p) : (s.archeType i).capacity ≠ 0 ∧ s.entityAddr i j ≠ null := by
  have hrow := h.row i ha.row
  have hcap : (s.archeType i).capacity ≠ 0 := by
    have := hrow.room
    have := ha.index
    omega
  refine ⟨hcap, fun h0 => hrow.array.base_ne_null hcap ?_⟩
  rw [State.entityAddr, null] at h0
  rw [null]
  omega

/-- **What a handle resolves to.** What is returned is a record, so nothing is read from a slot that
    is not in use. -/
theorem resolve_iff (h : Shows s own t) (hset : t.Settled) (x : Nat) :
    s.resolve x = some (i, j) ↔ ecsDecodeHandle x = (i, j) ∧ ∃ a p, t.AliveAt i j a p := by
  rw [← ecsGetEntity_iff h hset]
  rw [State.resolve]
  cases hget : s.ecsGetEntity x with
  | error st => exact ⟨nofun, nofun⟩
  | ok ij =>
    obtain ⟨i', j'⟩ := ij
    obtain ⟨-, a, p, ha⟩ := (ecsGetEntity_iff h hset x).mp hget
    dsimp only
    rw [if_neg (h.entityAddr_ne ha).2]
    exact ⟨fun he => by rw [Option.some.inj he], fun he => by rw [Except.ok.inj he]⟩

/-- A handle that names no entity does not resolve. -/
theorem resolve_none (h : Shows s own t) (hset : t.Settled) {x : Nat}
    (hdead : ∀ a p, ¬ t.AliveAt (ecsDecodeHandle x).1 (ecsDecodeHandle x).2 a p) :
    s.resolve x = none := by
  cases hres : s.resolve x with
  | none => rfl
  | some ij =>
    obtain ⟨i, j⟩ := ij
    obtain ⟨he, a, p, ha⟩ := (resolve_iff h hset x).mp hres
    apply absurd ha
    have := hdead a p
    rw [he] at this
    exact this

/-! ## Components -/

/-- The pointer to the first component of type `c`, in a list of types and pointers.  When a
    component is twice in a list, the second one is never found. -/
def pointerTo (comps ptrs : List Nat) (c : Nat) : Option Nat :=
  ((List.range comps.length).find? fun k => arrayOf comps k == c).map (arrayOf ptrs)

/-- The search in a record is the search in the table. -/
theorem Shows.pointer (h : Shows s own t) {a : Region} {p : List Nat} (ha : t.AliveAt i j a p)
    (c : Nat) :
    ((s.entity i j).find c).map (s.entity i j).components = pointerTo (t.row i).comps p c := by
  obtain ⟨-, htypes, hptrs, -, -⟩ := h.alive ha
  have hget : ∀ (f : Nat → Nat) (n k : Nat), k < n → arrayOf (listOf f n) k = f k := by
    intro f n k hk
    rw [arrayOf, listOf]
    simp [hk]
  rw [Entity.find, pointerTo]
  rw [← htypes, ← hptrs, length_listOf]
  have hfind : (List.range (s.entity i j).componentAmount).find?
      (fun k => arrayOf (listOf (s.entity i j).componentTypes (s.entity i j).componentAmount) k == c) =
      (List.range (s.entity i j).componentAmount).find?
        (fun k => (s.entity i j).componentTypes k == c) :=
    List.find?_congr fun k hk => by rw [hget _ _ k (List.mem_range.mp hk)]
  rw [hfind]
  cases hk : (List.range (s.entity i j).componentAmount).find?
      fun k => (s.entity i j).componentTypes k == c with
  | none => rfl
  | some k =>
    have hlt := List.mem_range.mp (List.mem_of_find?_eq_some hk)
    rw [Option.map_some, Option.map_some, hget _ _ k hlt]

/-- **Reading.**  `EcsGetComponent` answers the pointer in the table. -/
theorem ecsGetComponent_spec (h : Shows s own t) (hset : t.Settled) {x : Nat} {a : Region}
    {p : List Nat} (hx : ecsDecodeHandle x = (i, j)) (ha : t.AliveAt i j a p) (c : Nat) :
    s.ecsGetComponent x c = match pointerTo (t.row i).comps p c with
      | none => .error .notFound
      | some q => .ok q := by
  have hres : s.resolve x = some (i, j) := (resolve_iff h hset x).mpr ⟨hx, a, p, ha⟩
  rw [State.ecsGetComponent]
  rw [hres, ← h.pointer ha c]
  dsimp only
  cases (s.entity i j).find c <;> rfl

/-- The store with new component data. -/
def State.withBytes (s : State) (bytes : Nat → UInt8) : State := { s with bytes }

/-- **Writing.**  What `EcsAddComponentDataToEntity` does on an entity that is alive.  Where the
    pointer is not `NULL` the bytes of one component are replaced, and the pointer of a live entity
    never is. -/
theorem ecsAdd_spec (h : Shows s own t) (hset : t.Settled) {x : Nat} {a : Region}
    {p : List Nat} (hx : ecsDecodeHandle x = (i, j)) (ha : t.AliveAt i j a p) (c : Nat)
    (data : Nat → UInt8) :
    s.ecsAddComponentDataToEntity x c data = match pointerTo (t.row i).comps p c with
      | none => (s, .notFound)
      | some q =>
        if q = null then (s, .success)
        else (s.withBytes fun y => if q ≤ y ∧ y < q + s.componentSize c then data (y - q)
            else s.bytes y, .success) := by
  have hres : s.resolve x = some (i, j) := (resolve_iff h hset x).mpr ⟨hx, a, p, ha⟩
  rw [State.ecsAddComponentDataToEntity]
  rw [hres, ← h.pointer ha c]
  dsimp only
  cases (s.entity i j).find c <;> rfl

/-- Writing component data writes nothing else.  In any store and with any handle: records, queues
    and logs stay. -/
theorem ecsAdd_withBytes (s : State) (x c : Nat) (data : Nat → UInt8) :
    ∃ bytes, (s.ecsAddComponentDataToEntity x c data).1 = s.withBytes bytes := by
  rw [State.ecsAddComponentDataToEntity]
  split
  · exact ⟨s.bytes, rfl⟩
  · split
    · exact ⟨s.bytes, rfl⟩
    · dsimp only
      split
      · exact ⟨s.bytes, rfl⟩
      · exact ⟨_, rfl⟩

/-- Component data is no part of the table. -/
theorem Shows.withBytes (h : Shows s own t) (bytes : Nat → UInt8) :
    Shows (s.withBytes bytes) own t :=
  ⟨h.good, h.count, h.room, h.array, h.row, h.distinct, h.sizes⟩

/-! ## Deleting -/

/-- The first half of `EcsDeleteEntity`: the arena goes back and the slot is lost.  From here until
    the node is there, the slot is in no queue. -/
theorem killSlot_shows (h : Shows s own t) {a : Region} {p : List Nat} (ha : t.AliveAt i j a p) :
    SameData s (s.killSlot i j) ∧
    Shows (s.killSlot i j) own (t.setRow i ((t.row i).setSlot j .lost)) := by
  obtain ⟨-, -, -, hbase, hown⟩ := h.alive ha
  have hj : j ∉ (t.row i).queue := by
    intro hin
    obtain ⟨-, n, hn⟩ := ((h.row i ha.row).mem_queue j).mp hin
    rw [ha.slot] at hn
    cases hn
  -- one case for an arena and one for the entity that got none
  have hcases : ∃ log', (s.mmFreeGeneralMemory (s.entity i j).arena.base).1 = s.withLog log' ∧
      Good log' ∧ Keeps (.slot i j) s.memLog own log' own := by
    rw [State.mmFreeGeneralMemory]
    rw [hbase]
    by_cases h0 : a.base = null
    · rw [if_pos h0]
      exact ⟨s.memLog, rfl, h.good, Keeps.refl _ _ _⟩
    · rw [if_neg h0]
      exact ⟨.give a.base :: s.memLog, rfl, h.good, Keeps.give (hown h0)⟩
  obtain ⟨log', hfree, hgood, hkeep⟩ := hcases
  unfold State.killSlot
  dsimp only
  rw [hfree]
  exact ⟨⟨rfl, rfl, rfl, rfl⟩,
    h.setSlot (v := .lost) ha.row (h.entityAddr_ne ha).1 hkeep hgood hj
      (fun _ => Slot.noConfusion) (.lost rfl)⟩

/-- The registry takes memory, or nobody does: the table stays.  The array of sizes belongs to no
    row, so no row has to be looked at again. -/
theorem Shows.relog (h : Shows s own t) {log' : List AllocCall} {own' : Nat → Option Owner}
    (hg : Good log') (hk : Keeps .sizes s.memLog own log' own') {arr : Nat}
    (harr : arr ≠ null → Owns log' own' .sizes ⟨arr, 1 * pageSize⟩) :
    Shows { s with memLog := log', componentSizeArr := arr } own' t :=
  ⟨hg, h.count, h.room, h.array.keep hk nofun,
    fun i hi => (h.row i hi).keep hk nofun (fun _ => nofun) fun _ _ _ => rfl, h.distinct, harr⟩

/-- A refused allocation changes nothing. -/
theorem Shows.refused (h : Shows s own t) (size : Nat) :
    Shows (s.withLog (.take null size :: s.memLog)) own t :=
  h.relog (show Good (.take null size :: s.memLog) from ⟨fun h0 => absurd rfl h0, h.good⟩)
    (fun _ _ _ ho => ho.refused size) fun h0 => (h.sizes h0).refused size

/-- The nodes after a new node `mem` for slot `j` was appended behind `last`, if there is one.  The
    first case is the empty queue, where `last` is a node of long ago and is not written. -/
def appended (nodeAt : Nat → EntityFreeList) (first last mem j : Nat) : Nat → EntityFreeList :=
  if first = null then upd nodeAt mem ⟨j, null⟩
  else upd (upd nodeAt mem ⟨j, null⟩) last { upd nodeAt mem ⟨j, null⟩ last with next := mem }

/-- Reading one field of updated nodes. -/
theorem upd_next (nodeAt : Nat → EntityFreeList) (a : Nat) (v : EntityFreeList) :
    (fun n => (upd nodeAt a v n).next) = upd (fun n => (nodeAt n).next) a v.next := by
  funext n
  by_cases hn : n = a
  · rw [hn, upd_same, upd_same]
  · rw [upd_other hn, upd_other hn]

section appended

variable {nodeAt : Nat → EntityFreeList} {first last mem n : Nat}

/-- The `next` fields after an append are those of the queue after a push. -/
theorem appended_next :
    (fun n => (appended nodeAt first last mem j n).next) =
      ((Fifo.mk first last fun n => (nodeAt n).next).push mem).next := by
  rw [appended, Fifo.push]
  by_cases h0 : first = null
  · rw [if_pos h0, if_pos h0]
    exact upd_next _ _ _
  · rw [if_neg h0, if_neg h0]
    dsimp only
    rw [upd_next, upd_next]

/-- Appending leaves the slots that the other nodes name. -/
theorem appended_index (hn : n ≠ mem) :
    (appended nodeAt first last mem j n).index = (nodeAt n).index := by
  rw [appended]
  split
  · rw [upd_other hn]
  · by_cases hl : n = last
    · rw [hl, upd_same, ← hl, upd_other hn]
    · rw [upd_other hl, upd_other hn]

/-- The new node names its slot. -/
theorem appended_new : (appended nodeAt first last mem j mem).index = j := by
  rw [appended]
  split
  · rw [upd_same]
  · by_cases hl : mem = last
    · rw [← hl, upd_same, upd_same]
    · rw [upd_other hl, upd_same]

/-- Apart from the last node and the new one, no node is written. -/
theorem appended_other (hn : n ≠ mem) (hl : first ≠ null → n ≠ last) :
    appended nodeAt first last mem j n = nodeAt n := by
  rw [appended]
  split
  · exact upd_other hn
  · rename_i h0
    rw [upd_other (hl h0), upd_other hn]

end appended

/-- What the append does to the records: a push on the queue of the archetype.  What is one push on
    a queue takes three writes in C, to the new node, to the last one, and to the archetype. -/
theorem queueSlot_eq (s : State) {mem : Nat} (hmem : mem ≠ null) (i j : Nat) :
    s.queueSlot mem i j =
      (({ s with
          memLog := .take mem sizeofEntityFreeList :: s.memLog
          nodeAt := appended s.nodeAt (s.archeType i).initial (s.archeType i).freeList mem j }
        : State).setArcheType i fun a =>
          { a with
            initial := ((a.fifo s.nodeAt).push mem).first
            freeList := ((a.fifo s.nodeAt).push mem).last }, .success) := by
  rw [State.queueSlot]
  dsimp only
  rw [if_neg hmem]
  by_cases h0 : (s.archeType i).initial = null
  · -- the node is the only one of its queue
    have happ : appended s.nodeAt (s.archeType i).initial (s.archeType i).freeList mem j =
        upd s.nodeAt mem ⟨j, null⟩ := if_pos h0
    have hpush : ((s.archeType i).fifo s.nodeAt).push mem =
        ⟨mem, mem, upd (fun n => (s.nodeAt n).next) mem 0⟩ := if_pos h0
    apply (if_pos h0).trans
    rw [happ]
    refine congrArg (·, NearStatus.success) (setArcheType_congr rfl ?_)
    show _ = { s.archeType i with
      initial := (((s.archeType i).fifo s.nodeAt).push mem).first
      freeList := (((s.archeType i).fifo s.nodeAt).push mem).last }
    rw [hpush]
    rfl
  · -- the node is hung behind the last one
    have happ : appended s.nodeAt (s.archeType i).initial (s.archeType i).freeList mem j =
        upd (upd s.nodeAt mem ⟨j, null⟩) (s.archeType i).freeList
          { upd s.nodeAt mem ⟨j, null⟩ (s.archeType i).freeList with next := mem } := if_neg h0
    have hpush : ((s.archeType i).fifo s.nodeAt).push mem = ⟨(s.archeType i).initial, mem,
        upd (upd (fun n => (s.nodeAt n).next) mem 0) (s.archeType i).freeList mem⟩ := if_neg h0
    apply (if_neg h0).trans
    rw [happ]
    refine congrArg (·, NearStatus.success) (setArcheType_congr rfl ?_)
    show { s.archeType i with freeList := (upd (upd s.nodeAt mem ⟨j, null⟩)
        (s.archeType i).freeList { upd s.nodeAt mem ⟨j, null⟩ (s.archeType i).freeList with
          next := mem } (s.archeType i).freeList).next } = { s.archeType i with
      initial := (((s.archeType i).fifo s.nodeAt).push mem).first
      freeList := (((s.archeType i).fifo s.nodeAt).push mem).last }
    rw [hpush, upd_same]

/-- The new node is the last one. -/
theorem Row.enqueue_nodes {r : Row} {mem : Nat} (hj : j ∉ r.queue) :
    (r.enqueue j mem).queue.map (r.enqueue j mem).nodeOf = r.queue.map r.nodeOf ++ [mem] := by
  have hlast : (r.enqueue j mem).nodeOf j = mem := Row.nodeOf_eq upd_same
  show (r.queue ++ [j]).map _ = _
  rw [List.map_append, List.map_singleton, hlast, nodeOf_map rfl hj]

/-- The slots in the queue are still the used ones that wait. -/
theorem Row.mem_enqueue {r : Row} {mem : Nat}
    (hq : ∀ k, k ∈ r.queue ↔ k < r.index ∧ ∃ n, r.slot k = .queued n) (hj : j < r.index) (k : Nat) :
    k ∈ (r.enqueue j mem).queue ↔
      k < (r.enqueue j mem).index ∧ ∃ n, (r.enqueue j mem).slot k = .queued n := by
  show k ∈ r.queue ++ [j] ↔ k < r.index ∧ ∃ n, upd r.slot j (.queued mem) k = .queued n
  rw [List.mem_append, List.mem_singleton]
  by_cases hk : k = j
  · rw [hk, upd_same]
    exact ⟨fun _ => ⟨hj, mem, rfl⟩, fun _ => Or.inr rfl⟩
  · rw [upd_other hk, ← hq k]
    exact ⟨fun ho => ho.resolve_right hk, Or.inl⟩

/-- **The second half of `EcsDeleteEntity`**, with a node: the lost slot is queued.  The lost slot
    gets a node, and its queue a last element; the node is new memory, so it is none of the nodes
    there are. -/
theorem queueSlot_shows (h : Shows s own t) (hi : i < t.count) (hj : j < (t.row i).index)
    (hslot : (t.row i).slot j = .lost) {mem : Nat} (hmem : mem ≠ null)
    (hg : Good (.take mem sizeofEntityFreeList :: s.memLog)) :
    (s.queueSlot mem i j).2 = .success ∧ SameData s (s.queueSlot mem i j).1 ∧
    Shows (s.queueSlot mem i j).1 (upd own mem (some (.slot i j)))
      (t.setRow i ((t.row i).enqueue j mem)) := by
  have hrow := h.row i hi
  have hnotin : j ∉ (t.row i).queue := by
    intro hin
    obtain ⟨-, n, hn⟩ := (hrow.mem_queue j).mp hin
    rw [hslot] at hn
    cases hn
  have hkeep : Keeps (.slot i j) s.memLog own (.take mem sizeofEntityFreeList :: s.memLog)
      (upd own mem (some (.slot i j))) := Keeps.take hg
  -- the new node is none of the nodes in use
  have hnew : ∀ {o n}, Owns s.memLog own o ⟨n, sizeofEntityFreeList⟩ → n ≠ mem := fun ho =>
    (hg.1 hmem).new _ ho.held
  have hmemq : mem ∉ (t.row i).queue.map (t.row i).nodeOf := by
    intro hin
    obtain ⟨j', -, -, ho⟩ := hrow.node_owned hin
    exact hnew ho rfl
  have hpush := hrow.queue.push hmem hmemq
  rw [queueSlot_eq s hmem]
  refine ⟨rfl, ⟨rfl, rfl, rfl, rfl⟩, ?_⟩
  apply h.edit hi (Or.inr ⟨j, rfl⟩)
  case hk => exact hkeep
  case hg => exact hg
  case ha => exact ⟨rfl, rfl, rfl, rfl⟩
  case hd => exact ⟨rfl, rfl, rfl, rfl⟩
  case hother => exact fun i' _ hne => ⟨archeType_set_other _ hne, rfl⟩
  case hnode =>
    intro i' hne n j' ho
    refine appended_other (hnew ho) fun h0 => ?_
    -- the last node belongs to a slot of row `i`
    have hne0 : (t.row i).queue.map (t.row i).nodeOf ≠ [] := fun hnil =>
      h0 (hrow.queue.first_eq_zero.mpr hnil)
    have hlast : (s.archeType i).freeList = _ := hrow.queue.last hne0
    obtain ⟨j₁, -, -, ho₁⟩ := hrow.node_owned (List.getLast_mem hne0)
    rw [← hlast] at ho₁
    exact ho.ne_base ho₁ fun he => hne (Owner.slot.inj he).1
  case hcomps => rfl
  rw [archeType_set]
  refine ⟨hrow.comps, hrow.index, hrow.index_lt, hrow.room, hrow.array.keep hkeep nofun, ?_,
    fun j' => ?_, ?_⟩
  · rw [Row.enqueue_nodes hnotin]
    show Fifo.Is ⟨_, _, fun n => (appended _ _ _ mem j n).next⟩ _
    rw [appended_next]
    exact hpush
  · exact Row.mem_enqueue hrow.mem_queue hj j'
  · refine hrow.slots_set hkeep (fun n j' _ ho => appended_index (hnew ho))
      (fun _ hj' _ => hj') (fun _ _ => rfl) fun _ => ?_
    have hdead := hrow.slots j hj
    rw [hslot] at hdead
    cases hdead with
    | lost hdead => exact .queued hdead appended_new (Owns.new hmem _)

/-- What `EcsDeleteEntity` returns for the slot `j`, and what its row is then.  Either way the
    entity is gone; the status tells whether its slot will come back. -/
inductive Deleted (r : Row) (j mem : Nat) : NearStatus → Row → Prop
  | queued : mem ≠ null → Deleted r j mem .success ((r.setSlot j .lost).enqueue j mem)
  | lost : mem = null → Deleted r j mem .outOfMemory (r.setSlot j .lost)

/-- **What `EcsDeleteEntity` can do**: nothing, when the handle names no entity that is alive, and
    else the slot of that entity is queued, or lost when there is no memory for the node.  A handle
    that is refused is refused before anything was changed. -/
theorem delete_cases (h : Shows s own t) (hset : t.Settled) {mem x : Nat} {st : NearStatus}
    (hres : s.ecsDeleteEntity mem x = (s', st)) (hg : Good s'.memLog) :
    ((∀ a p, ¬ t.AliveAt (ecsDecodeHandle x).1 (ecsDecodeHandle x).2 a p) ∧ s' = s ∧
      st = .invalidHandle) ∨
    ∃ i j a p, ecsDecodeHandle x = (i, j) ∧ t.AliveAt i j a p ∧ SameData s s' ∧
      ∃ own' r, Shows s' own' (t.setRow i r) ∧ Deleted (t.row i) j mem st r := by
  rw [State.ecsDeleteEntity] at hres
  cases hx : s.resolve x with
  | none =>
    rw [hx] at hres
    obtain ⟨rfl, rfl⟩ := Prod.mk.inj hres
    refine Or.inl ⟨fun a p ha => ?_, rfl, rfl⟩
    have := (resolve_iff h hset x).mpr ⟨rfl, a, p, ha⟩
    rw [hx] at this
    cases this
  | some ij =>
    obtain ⟨i, j⟩ := ij
    rw [hx] at hres
    dsimp only at hres
    obtain ⟨he, a, p, ha⟩ := (resolve_iff h hset x).mp hx
    obtain ⟨hd, hkill⟩ := killSlot_shows h ha
    refine Or.inr ⟨i, j, a, p, he, ha, ?_⟩
    -- without memory for the node the slot is lost, and the call says so
    by_cases hmem : mem = null
    · subst hmem
      have hnone : (s.killSlot i j).queueSlot null i j =
          ((s.killSlot i j).withLog (.take null sizeofEntityFreeList :: (s.killSlot i j).memLog),
            .outOfMemory) := rfl
      rw [hnone] at hres
      obtain ⟨rfl, rfl⟩ := Prod.mk.inj hres
      exact ⟨⟨hd.bytes, hd.sizeArr, hd.sizesAt, hd.cur⟩, own, _, hkill.refused _, .lost rfl⟩
    · have hgood : Good (.take mem sizeofEntityFreeList :: (s.killSlot i j).memLog) := by
        rw [queueSlot_eq _ hmem] at hres
        obtain ⟨rfl, -⟩ := Prod.mk.inj hres
        exact hg
      obtain ⟨hst, hd', hqueue⟩ := queueSlot_shows (j := j) hkill ha.row
        (by rw [Table.row_setRow]; exact ha.index) (by rw [Table.row_setRow]; exact upd_same) hmem
        hgood
      rw [hres] at hst hd' hqueue
      obtain rfl : st = .success := hst
      rw [Table.row_setRow, Table.setRow_setRow] at hqueue
      exact ⟨hd.trans hd', _, _, hqueue, .queued hmem⟩

/-! ## Components are registered -/

/-- What `EcsCreateNewComponent` does with its array: the table stays, and so do the sizes of the
    components registered before. -/
theorem registerComponent_shows (h : Shows s own t) (size : Nat) :
    (s.registerComponent size).1.bytes = s.bytes ∧ Shows (s.registerComponent size).1 own t ∧
    (s.registerComponent size).1.componentSizeArr = s.componentSizeArr ∧
    s.curComponentIndex ≤ (s.registerComponent size).1.curComponentIndex ∧
    ∀ c < s.curComponentIndex, (s.registerComponent size).1.componentSize c = s.componentSize c := by
  rw [State.registerComponent]
  by_cases hfull : maxComponent ≤ s.curComponentIndex
  · rw [if_pos hfull]
    exact ⟨rfl, h, rfl, Nat.le_refl _, fun _ _ => rfl⟩
  · rw [if_neg hfull]
    rw [maxComponent] at hfull
    refine ⟨rfl, ⟨h.good, h.count, h.room, h.array, h.row, h.distinct, h.sizes⟩, rfl, ?_,
      fun c hc => ?_⟩
    · show s.curComponentIndex ≤ (s.curComponentIndex + 1) % 2 ^ 16
      omega
    · show upd s.sizesAt _ (upd _ _ size) s.componentSizeArr c = _
      rw [upd_same, upd_other (Nat.ne_of_lt hc)]
      rfl

/-- **What `EcsCreateNewComponent` does**: the table stays, and the sizes of the components that
    were registered stay. -/
theorem ecsCreateNewComponent_shows (h : Shows s own t) {mem size id : Nat}
    (hmem : s.componentSizeArr = null → mem ≠ null)
    (hres : s.ecsCreateNewComponent mem size = (s', id)) (hg : Good s'.memLog) :
    s'.bytes = s.bytes ∧ (∃ own', Shows s' own' t) ∧ s'.componentSizeArr ≠ null ∧
    s.curComponentIndex ≤ s'.curComponentIndex ∧
    (s.componentSizeArr ≠ null → ∀ c < s.curComponentIndex,
      s'.componentSize c = s.componentSize c) := by
  rw [State.ecsCreateNewComponent] at hres
  by_cases h0 : s.componentSizeArr = null
  · rw [if_pos h0] at hres
    replace hmem := hmem h0
    replace hres := (if_neg hmem).symm.trans hres
    have hlog : ∀ s₁ : State, (s₁.registerComponent size).1.memLog = s₁.memLog := by
      intro s₁
      rw [State.registerComponent]
      dsimp only
      split <;> rfl
    have hgood : Good (.take mem (1 * pageSize) :: s.memLog) := by
      have := hlog { s.mmAllocateMultiplePages 1 mem with componentSizeArr := mem }
      rw [hres] at this
      rw [this] at hg
      exact hg
    obtain ⟨hb, hshow, harr, hcur, -⟩ := registerComponent_shows (h.relog hgood (Keeps.take hgood)
      fun _ => Owns.new hmem _) size
    rw [show ({ s with memLog := .take mem (1 * pageSize) :: s.memLog, componentSizeArr := mem }
      : State).registerComponent size = (s', id) from hres] at hb hshow harr hcur
    exact ⟨hb, ⟨_, hshow⟩, harr ▸ hmem, hcur, fun h1 => absurd h0 h1⟩
  · rw [if_neg h0] at hres
    replace hres := (if_neg h0).symm.trans hres
    obtain ⟨hb, hshow, harr, hcur, hsize⟩ := registerComponent_shows h size
    rw [hres] at hb hshow harr hcur hsize
    exact ⟨hb, ⟨_, hshow⟩, harr ▸ h0, hcur, fun _ => hsize⟩

end Nearlands.Ecs

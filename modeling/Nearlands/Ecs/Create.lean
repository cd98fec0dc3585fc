/-
  Creating an entity.

  `EcsCreateEntity` goes through five phases: room for an archetype, the archetype, room for an
  entity, a slot, and the entity in it.  Each has a lemma that says which table it shows; the two
  for room are in `Ecs/Growth`.  `create_cases` puts them together and says all that a call can
  do.
-/
import Nearlands.Ecs.Growth

namespace Nearlands.Ecs

open Nearlands.Lib Nearlands.Lib.AllocLog

variable {s s' : State} {own : Nat → Option Owner} {t : Table} {i : Nat}

/-! ## The archetype -/

/-- The comparison of `EcsCompareComponents` is equality of the lists.  So the order of a list
    matters: two archetypes may hold the same components in different orders. -/
theorem ecsCompareComponents_iff {f g : Nat → Nat} {m n : Nat} :
    ecsCompareComponents f m g n = true ↔ listOf f m = listOf g n := by
  rw [ecsCompareComponents]
  by_cases hmn : m = n
  · subst hmn
    rw [if_neg (fun h => h rfl), List.all_eq_true]
    refine ⟨fun h => listOf_congr fun k hk => ?_, fun h k hk => ?_⟩
    · exact beq_iff_eq.mp (h k (List.mem_range.mpr hk))
    · exact beq_iff_eq.mpr (listOf_inj h k (List.mem_range.mp hk))
  · rw [if_pos hmn]
    refine ⟨nofun, fun h => absurd ?_ hmn⟩
    rw [← length_listOf f m, h, length_listOf]

/-- The test of the search. -/
theorem isArcheType_iff (h : Shows s own t) (components : Nat → Nat) (n : Nat) (hi : i < t.count) :
    s.isArcheType components n i = true ↔ (t.row i).comps = listOf components n := by
  rw [State.isArcheType]
  rw [← (h.row i hi).comps]
  by_cases hne : (s.archeType i).componentAmount ≠ n
  · rw [if_pos hne]
    refine ⟨nofun, fun he => absurd ?_ hne⟩
    have hlen := congrArg List.length he
    simpa using hlen
  · rw [if_neg hne, ecsCompareComponents_iff]
    exact eq_comm

/-- The search finds the row with the component list, if there is one.  It finds the first, and
    since no two rows have the same list, the only one. -/
theorem findArcheType_spec (h : Shows s own t) (components : Nat → Nat) (n : Nat) :
    (∀ i, s.findArcheType components n = some i →
      i < t.count ∧ (t.row i).comps = listOf components n) ∧
    (s.findArcheType components n = none → ∀ i < t.count, (t.row i).comps ≠ listOf components n) := by
  rw [State.findArcheType]
  rw [h.count]
  refine ⟨fun i hfind => ?_, fun hfind i hi => ?_⟩
  · have hi := List.mem_range.mp (List.mem_of_find?_eq_some hfind)
    exact ⟨hi, (isArcheType_iff h components n hi).mp (List.find?_some hfind)⟩
  · have hno := List.find?_eq_none.mp hfind i (List.mem_range.mpr hi)
    exact fun he => hno ((isArcheType_iff h components n hi).mpr he)

/-- A row for a component list that has none.  The record behind the last one is written whole, so
    that what was there before does not matter. -/
theorem Shows.addRow (h : Shows s own t) (hroom : t.count < s.ataCapacity) {components : Nat → Nat}
    {n : Nat} (hnew : ∀ i < t.count, (t.row i).comps ≠ listOf components n) {a : ArcheType}
    (ha : a = { ArcheType.zero with
      components := fun i => if i < n then components i else 0, componentAmount := n }) :
    Shows { s.setArcheType t.count fun _ => a with ataIndex := w64 (t.count + 1) } own
      (t.addRow (listOf components n)) := by
  have hlt := h.array.capacity_lt h.good (by decide)
  have hlast : (t.addRow (listOf components n)).row t.count =
      ⟨listOf components n, 0, [], fun _ => .lost⟩ := upd_same
  have hold : ∀ i < t.count, (t.addRow (listOf components n)).row i = t.row i := fun i hi =>
    upd_other (Nat.ne_of_lt hi)
  have hcases : ∀ i < t.count + 1, i < t.count ∨ i = t.count := fun i hi => by omega
  refine ⟨h.good, w64_of_lt (by omega), hroom, h.array, fun i hi => ?_, fun i hi i' hi' he => ?_,
    h.sizes⟩
  · rcases hcases i hi with hi | rfl
    · rw [hold i hi]
      have harch : State.archeType { s.setArcheType t.count fun _ => a with
          ataIndex := w64 (t.count + 1) } i = s.archeType i :=
        archeType_set_other (s := s) (fun _ => a) (Nat.ne_of_lt hi)
      rw [harch]
      exact h.row i hi
    · rw [hlast]
      have harch : State.archeType { s.setArcheType t.count fun _ => a with
          ataIndex := w64 (t.count + 1) } t.count = a := archeType_set (s := s) fun _ => a
      rw [harch]
      subst ha
      exact ⟨listOf_congr fun k hk => if_pos hk, rfl, Nat.two_pow_pos 32, Nat.le_refl _, .empty,
        Fifo.is_nil _ _, fun j => ⟨nofun, fun hj => absurd hj.1 (Nat.not_lt_zero j)⟩,
        fun j hj => absurd hj (Nat.not_lt_zero j)⟩
  · rcases hcases i hi with hi | rfl <;> rcases hcases i' hi' with hi' | rfl
    · rw [hold i hi, hold i' hi'] at he
      exact h.distinct i hi i' hi' he
    · rw [hold i hi, hlast] at he
      exact absurd he (hnew i hi)
    · rw [hold i' hi', hlast] at he
      exact absurd he.symm (hnew i' hi')
    · rfl

/-- **The archetype.**  `EcsGetArcheType` answers the row with the component list, adding it when
    there is none, and leaves the archetypes there were.  A search, and perhaps a growth before it
    and a record after it.  The growth happens whenever the array is full, whether or not the list
    is found. -/
theorem ecsGetArcheType_shows (h : Shows s own t) {mem n : Nat} {components : Nat → Nat}
    (hres : s.ecsGetArcheType mem components n = some (s', i)) (hg : Good s'.memLog) :
    SameData s s' ∧ i < (t.withRow (listOf components n) i).count ∧
    ((t.withRow (listOf components n) i).row i).comps = listOf components n ∧
    (∀ i' < t.count, s'.archeType i' = s.archeType i') ∧
    ∃ own', Shows s' own' (t.withRow (listOf components n) i) := by
  rw [State.ecsGetArcheType] at hres
  cases hgrow : s.growArcheTypes mem with
  | none => rw [hgrow] at hres; cases hres
  | some s₁ =>
    rw [hgrow] at hres
    dsimp only at hres
    cases hfind : s₁.findArcheType components n with
    | some i₁ =>
      rw [hfind] at hres
      obtain ⟨rfl, rfl⟩ := Prod.mk.inj (Option.some.inj hres)
      obtain ⟨own₁, h₁, -, hd, hsame⟩ := growArcheTypes_shows h hgrow hg
      obtain ⟨hi, hcomps⟩ := (findArcheType_spec h₁ components n).1 _ hfind
      rw [Table.withRow, if_pos hi]
      exact ⟨hd, hi, hcomps, hsame, own₁, h₁⟩
    | none =>
      rw [hfind] at hres
      obtain ⟨rfl, rfl⟩ := Prod.mk.inj (Option.some.inj hres)
      obtain ⟨own₁, h₁, hroom, hd, hsame⟩ := growArcheTypes_shows h hgrow hg
      have hnew := (findArcheType_spec h₁ components n).2 hfind
      rw [h₁.count, Table.withRow, if_neg (Nat.lt_irrefl _)]
      exact ⟨hd.trans ⟨rfl, rfl, rfl, rfl⟩, Nat.lt_succ_self _, congrArg Row.comps upd_same,
        fun i' hi' => (archeType_set_other (s := s₁) (fun _ => { ArcheType.zero with
          components := fun i => if i < n then components i else 0
          componentAmount := n }) (Nat.ne_of_lt hi')).trans (hsame i' hi'),
        own₁, h₁.addRow hroom hnew rfl⟩

/-! ## The slot -/

/-- One slot is put to another use, and the others stay.  The two frames are what a call may change:
    memory of this slot, and nodes of no other slot. -/
theorem RowIs.slots_set {g g' : Ground} {a : ArcheType} {es es' : Nat → Entity} {r : Row} {j n : Nat}
    {v : Slot} (h : RowIs g i a es r) (hk : Keeps (.slot i j) g.log g.own g'.log g'.own)
    (hnode : ∀ n j', j' ≠ j → Owns g.log g.own (.slot i j') ⟨n, sizeofEntityFreeList⟩ →
      (g'.nodeAt n).index = (g.nodeAt n).index)
    (hold : ∀ j' < n, j' ≠ j → j' < r.index) (hes : ∀ j', j' ≠ j → es' j' = es j')
    (hnew : j < n → SlotIs g' i j r.comps (es' j) v) :
    ∀ j' < n, SlotIs g' i j' r.comps (es' j') (upd r.slot j v j') := by
  intro j' hj'
  by_cases hjj : j' = j
  · subst hjj
    rw [upd_same]
    exact hnew hj'
  · rw [upd_other hjj, hes j' hjj]
    exact (h.slots j' (hold j' hj' hjj)).keep hk (fun he => hjj (Owner.slot.inj he).2)
      fun n hown => hnode n j' hjj hown

/-- The nodes of other slots are the same. -/
theorem nodeOf_map {r r' : Row} {j : Nat} {v : Slot} (hslot : r'.slot = upd r.slot j v)
    {queue : List Nat} (hj : j ∉ queue) : queue.map r'.nodeOf = queue.map r.nodeOf := by
  refine List.map_congr_left fun j' hj' => ?_
  have hne : j' ≠ j := fun he => hj (he.subst hj')
  unfold Row.nodeOf
  rw [hslot, upd_other hne]

/-- The node of a slot in the queue. -/
theorem RowIs.queued {g : Ground} {a : ArcheType} {es : Nat → Entity} {r : Row} {j : Nat}
    (h : RowIs g i a es r) (hj : j ∈ r.queue) : j < r.index ∧ r.slot j = .queued (r.nodeOf j) ∧
      (es j).alive = false ∧ (g.nodeAt (r.nodeOf j)).index = j ∧
      Owns g.log g.own (.slot i j) ⟨r.nodeOf j, sizeofEntityFreeList⟩ := by
  obtain ⟨hlt, n, hslot⟩ := (h.mem_queue j).mp hj
  have hs := h.slots j hlt
  rw [hslot] at hs
  rw [Row.nodeOf_eq hslot]
  cases hs with
  | queued ha hn hown => exact ⟨hlt, hslot, ha, hn, hown⟩

/-- A slot of a row, by what the queue says of it. -/
theorem slot_eq_queued {slot : Nat → Slot} {j j' : Nat} {v : Slot} (hv : ∀ n, v ≠ .queued n) :
    (∃ n, upd slot j v j' = .queued n) ↔ j' ≠ j ∧ ∃ n, slot j' = .queued n := by
  by_cases hjj : j' = j
  · subst hjj
    rw [upd_same]
    exact ⟨fun ⟨n, hn⟩ => absurd hn (hv n), fun h => absurd rfl h.1⟩
  · rw [upd_other hjj]
    exact ⟨fun h => ⟨hjj, h⟩, fun h => h.2⟩

/-- A slot when the queue is empty: a new one. -/
theorem takeSlot_new (h : Shows s own t) (hi : i < t.count)
    (hroom : (t.row i).index < (s.archeType i).capacity) (hq : (t.row i).queue = []) :
    (s.takeSlot i).2 = (t.row i).take.2 ∧ SameData s (s.takeSlot i).1 ∧
    Shows (s.takeSlot i).1 own (t.setRow i (t.row i).take.1) := by
  have hrow := h.row i hi
  rw [State.takeSlot, Row.take]
  dsimp only
  rw [hq]
  have hnone : (s.archeType i).initial = null := hrow.queue.first_eq_zero.mpr (by rw [hq]; rfl)
  have hlt := hrow.index_lt
  -- the counter goes up by one, or wraps to 0, and then no slot is below it
  have hwrap : ∀ j' < ((t.row i).index + 1) % 2 ^ 32, j' ≠ (t.row i).index →
      j' < (t.row i).index := fun j' hj' hne => by omega
  rw [if_neg (fun h0 => h0 hnone)]
  refine ⟨hrow.index, ⟨rfl, rfl, rfl, rfl⟩, ?_⟩
  apply h.edit hi (Or.inr ⟨(t.row i).index, rfl⟩)
  case hk => exact Keeps.refl _ _ _
  case hg => exact h.good
  case ha => exact ⟨rfl, rfl, rfl, rfl⟩
  case hd => exact ⟨rfl, rfl, rfl, rfl⟩
  case hother => exact fun i' _ hne => ⟨archeType_set_other _ hne, rfl⟩
  case hnode => exact fun _ _ _ _ _ => rfl
  case hcomps => rfl
  rw [archeType_set]
  refine ⟨hrow.comps, ?_, Nat.mod_lt _ (Nat.two_pow_pos 32), ?_, hrow.array, ?_, fun j' => ?_, ?_⟩
  · show ((s.archeType i).index + 1) % 2 ^ 32 = _
    rw [hrow.index]
  · show ((t.row i).index + 1) % 2 ^ 32 ≤ (s.archeType i).capacity
    omega
  · have hqueue := hrow.queue
    rw [hq] at hqueue
    exact hqueue
  · have hmem := hrow.mem_queue j'
    rw [hq] at hmem
    rw [slot_eq_queued (v := .taken) fun _ => Slot.noConfusion]
    constructor
    · intro hj'
      exact absurd hj' List.not_mem_nil
    · rintro ⟨hj', hne, hn⟩
      exact hmem.mpr ⟨hwrap j' hj' hne, hn⟩
  · exact hrow.slots_set (Keeps.refl _ _ _) (fun _ _ _ _ => rfl) hwrap (fun _ _ => rfl)
      fun _ => .taken

/-- A slot when the queue is not empty: that of the first node, which goes back to the heap.  Giving
    the node back to the heap frees memory of this slot only; the next node becomes `initial`, and
    the queue without its first element is a queue. -/
theorem takeSlot_queued (h : Shows s own t) (hi : i < t.count) {j : Nat} {queue : List Nat}
    (hq : (t.row i).queue = j :: queue) :
    (s.takeSlot i).2 = (t.row i).take.2 ∧ SameData s (s.takeSlot i).1 ∧
    Shows (s.takeSlot i).1 own (t.setRow i (t.row i).take.1) := by
  have hrow := h.row i hi
  rw [State.takeSlot, Row.take]
  dsimp only
  rw [hq]
  have hqueue := hrow.queue
  have hnd := hrow.nodup
  rw [hq, List.map_cons] at hqueue
  rw [hq] at hnd
  -- the first node is that of slot `j`, and the rest is still a queue
  obtain ⟨hinit, hpop⟩ := hqueue.pop
  obtain ⟨hlt, -, -, hidx, hown⟩ := hrow.queued (j := j) (by rw [hq]; exact List.mem_cons_self)
  have hinit : (s.archeType i).initial = (t.row i).nodeOf j := hinit
  have h0 : (s.archeType i).initial ≠ null := by
    rw [hinit]; exact (h.good.fits _ hown.held).1
  have hj : j ∉ queue := (List.nodup_cons.mp hnd).1
  rw [if_pos h0, State.mmFreeGeneralMemory, if_neg h0]
  refine ⟨by rw [hinit]; exact hidx, ⟨rfl, rfl, rfl, rfl⟩, ?_⟩
  -- the node goes back to the heap; nothing else changes its owner
  have hkeep : Keeps (.slot i j) s.memLog own (.give (s.archeType i).initial :: s.memLog) own := by
    rw [hinit]; exact Keeps.give hown
  apply h.edit hi (Or.inr ⟨j, rfl⟩)
  case hk => exact hkeep
  case hg => exact h.good
  case ha => exact ⟨rfl, rfl, rfl, rfl⟩
  case hd => exact ⟨rfl, rfl, rfl, rfl⟩
  case hother =>
    exact fun i' _ hne => ⟨(archeType_logged _ _ _).trans (archeType_set_other _ hne), rfl⟩
  case hnode => exact fun _ _ _ _ _ => rfl
  case hcomps => rfl
  rw [archeType_logged, archeType_set]
  refine ⟨hrow.comps, hrow.index, hrow.index_lt, hrow.room,
    hrow.array.keep hkeep Owner.noConfusion, ?_, fun j' => ?_, ?_⟩
  · rw [nodeOf_map rfl hj]
    exact hpop
  · have hmem := hrow.mem_queue j'
    rw [hq, List.mem_cons] at hmem
    -- slot `j` is taken now, and no other slot leaves the queue
    rw [slot_eq_queued (v := .taken) fun _ => Slot.noConfusion]
    constructor
    · intro hj'
      have hne : j' ≠ j := fun he => hj (he.subst hj')
      obtain ⟨hlt', hn⟩ := hmem.mp (Or.inr hj')
      exact ⟨hlt', hne, hn⟩
    · rintro ⟨hj', hne, hn⟩
      exact (hmem.mpr ⟨hj', hn⟩).resolve_left hne
  · exact hrow.slots_set hkeep (fun _ _ _ _ => rfl) (fun _ hj' _ => hj') (fun _ _ => rfl)
      fun _ => .taken

/-- **A slot.**  The choice of a slot is `Row.take`.  The hypothesis `hroom` is for the first case,
    where a new slot is written behind the last one. -/
theorem takeSlot_shows (h : Shows s own t) (hi : i < t.count)
    (hroom : (t.row i).index < (s.archeType i).capacity) :
    (s.takeSlot i).2 = (t.row i).take.2 ∧ SameData s (s.takeSlot i).1 ∧
    Shows (s.takeSlot i).1 own (t.setRow i (t.row i).take.1) := by
  cases hq : (t.row i).queue with
  | nil => exact takeSlot_new h hi hroom hq
  | cons j queue => exact takeSlot_queued h hi hq

/-- The state with another log. -/
def State.withLog (s : State) (log : List AllocCall) : State := { s with memLog := log }

/-- **A slot is written.**  The record of slot `j` and what it owns change, and nothing else.  The
    general form of every write to an entity record: the queue does not have the slot, so it stays a
    queue. -/
theorem Shows.setSlot (h : Shows s own t) (hi : i < t.count) {j : Nat} {v : Slot}
    {log' : List AllocCall} {own' : Nat → Option Owner} (hcap : (s.archeType i).capacity ≠ 0)
    (hk : Keeps (.slot i j) s.memLog own log' own') (hg : Good log') (hj : j ∉ (t.row i).queue)
    (hv : ∀ n, v ≠ .queued n) {f : Entity → Entity}
    (hnew : SlotIs ⟨log', own', s.nodeAt⟩ i j (t.row i).comps (f (s.entity i j)) v) :
    Shows ((s.withLog log').setEntity i j f) own' (t.setRow i ((t.row i).setSlot j v)) := by
  have hrow := h.row i hi
  have h0 := hrow.array.base_ne_null hcap
  have harch : ∀ i', ((s.withLog log').setEntity i j f).archeType i' = s.archeType i' :=
    fun _ => rfl
  apply h.edit hi (Or.inr ⟨j, rfl⟩)
  case hk => exact hk
  case hg => exact hg
  case ha => exact ⟨rfl, rfl, rfl, rfl⟩
  case hd => exact ⟨rfl, rfl, rfl, rfl⟩
  case hother =>
    intro i' hi' hne
    refine ⟨harch i', ?_⟩
    -- two archetypes have different arrays
    exact entitiesAt_set_other (s := s.withLog log') f
      (hrow.entities_ne (h.row i' hi') hne.symm h0).symm
  case hnode => exact fun _ _ _ _ _ => rfl
  case hcomps => rfl
  have hes : ((s.withLog log').setEntity i j f).entitiesAt (s.archeType i).entities =
      upd (s.entitiesAt (s.archeType i).entities) j (f (s.entity i j)) :=
    entitiesAt_set (s := s.withLog log') f
  rw [harch, hes]
  refine ⟨hrow.comps, hrow.index, hrow.index_lt, hrow.room, hrow.array.keep hk nofun, ?_,
    fun j' => ?_, ?_⟩
  · have hnodes : (t.row i).queue.map ((t.row i).setSlot j v).nodeOf =
        (t.row i).queue.map (t.row i).nodeOf := nodeOf_map rfl hj
    show Fifo.Is _ ((t.row i).queue.map _)
    rw [hnodes]
    exact hrow.queue
  · show j' ∈ (t.row i).queue ↔ j' < (t.row i).index ∧ ∃ n, upd (t.row i).slot j v j' = .queued n
    rw [slot_eq_queued hv, hrow.mem_queue j']
    refine ⟨fun ⟨hlt, hn⟩ => ⟨hlt, fun he => ?_, hn⟩, fun ⟨hlt, _, hn⟩ => ⟨hlt, hn⟩⟩
    exact hj (he.subst ((hrow.mem_queue j').mpr ⟨hlt, hn⟩))
  · exact hrow.slots_set hk (fun _ _ _ _ => rfl) (fun _ hj' _ => hj') (fun _ hne => upd_other hne)
      fun _ => by rw [upd_same]; exact hnew

/-! ## The entity -/

/-- The sum of the first `k` sizes: where component `k` begins in its arena. -/
def offset (g : Nat → Nat) (k : Nat) : Nat := (listOf g k).sum

/-- One component more. -/
theorem offset_succ (g : Nat → Nat) (k : Nat) : offset g (k + 1) = offset g k + g k := by
  simp [offset, listOf, List.range_succ]

/-- Component `k` ends before a later one begins.  So components do not overlap: each one has its
    place, and the next begins behind it or later. -/
theorem offset_add_le (g : Nat → Nat) {k n : Nat} (h : k < n) : offset g k + g k ≤ offset g n := by
  induction n with
  | zero => omega
  | succ n ih =>
    rw [offset_succ]
    rcases Nat.lt_succ_iff_lt_or_eq.mp h with hk | rfl
    · have := ih hk
      omega
    · exact Nat.le_refl _

/-- The size of an arena is the sum of the sizes, when all components are registered and the amount
    is not cut.  An id that is not registered would be left out of the sum, and still be pushed. -/
theorem ecsGetSizeOfAllComponents_eq {components : Nat → Nat} {n : Nat} (hn : n < 2 ^ 8)
    (hreg : ∀ k < n, components k < s.curComponentIndex) :
    s.ecsGetSizeOfAllComponents components n =
      w64 (offset (fun k => s.componentSize (components k)) n) := by
  rw [State.ecsGetSizeOfAllComponents, Nat.mod_eq_of_lt hn]
  clear hn
  induction n with
  | zero => rfl
  | succ n ih =>
    have hn := hreg n (Nat.lt_succ_self n)
    rw [List.range_succ, List.foldl_append, ih fun k hk => hreg k (Nat.lt_succ_of_lt hk),
      offset_succ]
    show (if s.curComponentIndex ≤ components n then _ else _) = _
    rw [if_neg (by omega), w64_add_w64]

/-- Where `EcsCreateEntity` puts component `k` in an arena at `mem`.  Both sums wrap, as those of
    the arena do. -/
def placed (size components : Nat → Nat) (mem k : Nat) : Nat :=
  w64 (mem + w64 (offset (fun m => size (components m)) k))

/-- A push that succeeds. -/
theorem pushComponent_cases {size components : Nat → Nat} {i : Nat} {e : Entity}
    (h : (pushComponent size components i e).2 ≠ null) : e.arena.base ≠ null ∧
    (pushComponent size components i e).1 = { e with
      componentTypes := upd e.componentTypes i (components i)
      arena := { e.arena with used := w64 (e.arena.used + size (components i)) }
      components := upd e.components i (w64 (e.arena.base + e.arena.used)) } := by
  obtain ⟨hbase, -, hres⟩ := Arena.push_cases h
  refine ⟨hbase, ?_⟩
  rw [pushComponent]
  rw [hres]

/-- What the loop has done when it has pushed the components below `i` in the arena at `mem`.  The
    arrays beyond `i` are not mentioned: they hold what the record held before. -/
structure Pushed (size components : Nat → Nat) (mem i : Nat) (e : Entity) : Prop where
  base : e.arena.base = mem
  types : ∀ k < i, e.componentTypes k = components k
  placed : ∀ k < i, e.components k = placed size components mem k

/-- One turn. -/
theorem Pushed.succ {size components : Nat → Nat} {mem i : Nat} {e : Entity}
    (h : Pushed size components mem i e)
    (hused : e.arena.used = w64 (offset (fun m => size (components m)) i))
    (hpush : (pushComponent size components i e).2 ≠ null) :
    Pushed size components mem (i + 1) (pushComponent size components i e).1 ∧
    (pushComponent size components i e).1.arena.used =
      w64 (offset (fun m => size (components m)) (i + 1)) := by
  obtain ⟨-, hres⟩ := pushComponent_cases hpush
  rw [hres]
  refine ⟨⟨h.base, fun k hk => ?_, fun k hk => ?_⟩, ?_⟩
  · show upd e.componentTypes i (components i) k = _
    by_cases hki : k = i
    · rw [hki, upd_same]
    · rw [upd_other hki]
      exact h.types k (by omega)
  · show upd e.components i (w64 (e.arena.base + e.arena.used)) k = _
    by_cases hki : k = i
    · rw [hki, upd_same, h.base, hused]
      rfl
    · rw [upd_other hki]
      exact h.placed k (by omega)
  · show w64 (e.arena.used + size (components i)) = _
    rw [hused, w64_add_w64, offset_succ]

/-- The loop leaves the amount and the flag. -/
theorem fillComponents_keeps (size components : Nat → Nat) : ∀ (n i : Nat) (e : Entity),
    (fillComponents size components n i e).1.componentAmount = e.componentAmount ∧
    (fillComponents size components n i e).1.alive = e.alive := by
  intro n
  induction n with
  | zero => exact fun _ _ => ⟨rfl, rfl⟩
  | succ n ih =>
    intro i e
    rw [fillComponents]
    split
    · exact ⟨rfl, rfl⟩
    · exact ih (i + 1) _

/-- **The loop.**  When it succeeds the components lie one after the other.  Induction on the number
    of turns left; `Pushed` says what the turns so far have done. -/
theorem fillComponents_spec (size components : Nat → Nat) (mem : Nat) : ∀ (n i : Nat) (e : Entity),
    Pushed size components mem i e →
    e.arena.used = w64 (offset (fun m => size (components m)) i) →
    (fillComponents size components n i e).2 = true → (0 < n → mem ≠ null) ∧
      Pushed size components mem (i + n) (fillComponents size components n i e).1 := by
  intro n
  induction n with
  | zero => exact fun i e hdone _ _ => ⟨fun h => absurd h (Nat.lt_irrefl 0), hdone⟩
  | succ n ih =>
    intro i e hdone hused
    rw [fillComponents]
    by_cases hpush : (pushComponent size components i e).2 = null
    · rw [if_pos hpush]
      nofun
    · rw [if_neg hpush]
      obtain ⟨hbase, -⟩ := pushComponent_cases hpush
      obtain ⟨hdone', hused'⟩ := hdone.succ hused hpush
      intro htrue
      have hall := (ih (i + 1) _ hdone' hused' htrue).2
      rw [show i + (n + 1) = i + 1 + n by omega]
      exact ⟨fun _ => hdone.base ▸ hbase, hall⟩

/-- The component list as the array `EcsCreateEntity` is given. -/
@[reducible] def arrayOf (comps : List Nat) (k : Nat) : Nat := comps.getD k 0

/-- Within the list the array has its entries. -/
theorem arrayOf_eq {comps : List Nat} {k : Nat} (hk : k < comps.length) :
    arrayOf comps k = comps[k] := by
  simp [hk]

/-- Every entry that counts is one of the list. -/
theorem arrayOf_mem {comps : List Nat} {k : Nat} (hk : k < comps.length) :
    arrayOf comps k ∈ comps := by
  rw [arrayOf_eq hk]
  exact List.getElem_mem hk

/-- The size `EcsCreateEntity` asks for, and the component pointers it sets, in an arena at `mem`. -/
def State.arenaFor (s : State) (mem : Nat) (comps : List Nat) : Region :=
  ⟨mem, s.ecsGetSizeOfAllComponents (arrayOf comps) comps.length⟩

/-- The pointers that the loop sets, each where its component begins in the arena. -/
def State.pointersFor (s : State) (mem : Nat) (comps : List Nat) : List Nat :=
  listOf (placed s.componentSize (arrayOf comps) mem) comps.length

/-- What is returned for the slot `j` of row `i`, and what the slot is then.  There are two ways
    out, and both have used the slot: either it is an entity with all its components, or it is
    lost. -/
inductive Filled (s : State) (mem i j : Nat) (comps : List Nat) : Except NearStatus Nat → Slot → Prop
  | made : (comps ≠ [] → mem ≠ null) → Filled s mem i j comps (.ok (ecsEncodeHandle i j))
      (.alive (s.arenaFor mem comps) (s.pointersFor mem comps))
  | failed : Filled s mem i j comps (.error .outOfMemory) .lost

/-- A slot that was filled is not left taken. -/
theorem Filled.ne_taken {mem j : Nat} {comps : List Nat} {r : Except NearStatus Nat} {v : Slot}
    (hf : Filled s mem i j comps r v) : v ≠ .taken := by
  cases hf <;> nofun

/-- The entity that the loop leaves in the slot, and whether it succeeded. -/
def State.filling (s : State) (mem : Nat) (comps : List Nat) : Entity × Bool :=
  fillComponents s.componentSize (arrayOf comps) comps.length 0
    (preparedEntity mem (s.arenaFor mem comps).size comps.length)

/-- The length of a list that fits is a `u8`. -/
theorem length_mod {comps : List Nat} (hlen : comps.length ≤ ecsCompSize) :
    comps.length % 2 ^ 8 = comps.length := by
  unfold ecsCompSize at hlen
  omega

/-- The two ways out of `EcsCreateEntity` once a slot is taken.  The loop has no way to fail but a
    push that is refused, and then the record is left as the loop left it, with the flag clear. -/
theorem fillSlot_eq (s : State) (mem i j : Nat) (comps : List Nat) :
    s.fillSlot mem i j (arrayOf comps) comps.length =
      if (s.filling mem comps).2 = false then
        ((s.withLog (.take mem (s.arenaFor mem comps).size :: s.memLog)).setEntity i j
          fun _ => (s.filling mem comps).1, .error .outOfMemory)
      else ((s.withLog (.take mem (s.arenaFor mem comps).size :: s.memLog)).setEntity i j
        fun _ => { (s.filling mem comps).1 with alive := true }, .ok (ecsEncodeHandle i j)) := by
  rw [State.fillSlot]
  rfl

/-- The arena that `EcsCreateEntity` asked for is new. -/
theorem fillSlot_good {mem j : Nat} {comps : List Nat}
    (hg : Good (s.fillSlot mem i j (arrayOf comps) comps.length).1.memLog) :
    Good (.take mem (s.arenaFor mem comps).size :: s.memLog) := by
  rw [fillSlot_eq s mem i j comps] at hg
  split at hg <;> exact hg

/-- The entity before the loop. -/
theorem preparedEntity_eq {comps : List Nat} (hlen : comps.length ≤ ecsCompSize) (mem size : Nat) :
    preparedEntity mem size comps.length = { Entity.zero with
      arena := ⟨mem, size, inPages size % 2 ^ 32, 0⟩, componentAmount := comps.length } := by
  rw [preparedEntity]
  rw [Arena.zero_create, length_mod hlen]

/-- A slot that is taken is in no queue. -/
theorem RowIs.not_queued {g : Ground} {ar : ArcheType} {es : Nat → Entity} {r : Row} {j : Nat}
    (h : RowIs g i ar es r) (hslot : r.slot j = .taken) : j ∉ r.queue := by
  intro hin
  obtain ⟨-, n, hn⟩ := (h.mem_queue j).mp hin
  rw [hslot] at hn
  cases hn

/-- A slot that is taken and not filled is lost.  This needs no bound on the list: whatever was
    written into the record, its flag is clear. -/
theorem fillSlot_lost (h : Shows s own t) (hi : i < t.count) {mem j n : Nat}
    {components : Nat → Nat} (hcap : (s.archeType i).capacity ≠ 0)
    (hslot : (t.row i).slot j = .taken) {st : NearStatus}
    (hfail : (s.fillSlot mem i j components n).2 = .error st)
    (hg : Good (s.fillSlot mem i j components n).1.memLog) :
    SameData s (s.fillSlot mem i j components n).1 ∧ ∃ own',
      Shows (s.fillSlot mem i j components n).1 own' (t.setRow i ((t.row i).setSlot j .lost)) := by
  let size := s.ecsGetSizeOfAllComponents components n
  let filled := fillComponents s.componentSize components n 0 (preparedEntity mem size n)
  have hdead : filled.1.alive = false := by
    rw [(fillComponents_keeps s.componentSize components n 0 _).2]
    rfl
  have hfill : s.fillSlot mem i j components n =
      ((s.withLog (.take mem size :: s.memLog)).setEntity i j fun _ => filled.1,
        .error .outOfMemory) := by
    rw [State.fillSlot] at hfail ⊢
    dsimp only at hfail ⊢
    split at hfail
    · exact if_pos ‹_›
    · cases hfail
  rw [hfill] at hg ⊢
  exact ⟨⟨rfl, rfl, rfl, rfl⟩, _, h.setSlot (v := .lost) (f := fun _ => filled.1) hi hcap
    (Keeps.take hg) hg ((h.row i hi).not_queued hslot) nofun (.lost hdead)⟩

/-- **The entity.**  A taken slot is filled, or lost. -/
theorem fillSlot_shows (h : Shows s own t) (hi : i < t.count) {mem j : Nat} {comps : List Nat}
    (hcap : (s.archeType i).capacity ≠ 0) (hslot : (t.row i).slot j = .taken)
    (hcomps : (t.row i).comps = comps) (hlen : comps.length ≤ ecsCompSize)
    (hg : Good (s.fillSlot mem i j (arrayOf comps) comps.length).1.memLog) :
    SameData s (s.fillSlot mem i j (arrayOf comps) comps.length).1 ∧ ∃ own' v,
      Shows (s.fillSlot mem i j (arrayOf comps) comps.length).1 own'
        (t.setRow i ((t.row i).setSlot j v)) ∧
      Filled s mem i j comps (s.fillSlot mem i j (arrayOf comps) comps.length).2 v := by
  have hj := (h.row i hi).not_queued hslot
  have hentity := preparedEntity_eq hlen mem (s.arenaFor mem comps).size
  have hgood := fillSlot_good hg
  let filled := s.filling mem comps
  -- the loop over the components gives up, or it has pushed all of them
  by_cases hfail : filled.2 = false
  · have herror : (s.fillSlot mem i j (arrayOf comps) comps.length).2 = .error .outOfMemory := by
      rw [fillSlot_eq s mem i j comps, if_pos hfail]
    obtain ⟨hd, own', h'⟩ := fillSlot_lost h hi hcap hslot herror hg
    rw [herror]
    exact ⟨hd, own', .lost, h', .failed⟩
  · rw [fillSlot_eq s mem i j comps, if_neg hfail]
    have hsame : filled.1.componentAmount = comps.length :=
      (fillComponents_keeps _ _ _ _ _).1.trans (by rw [hentity])
    obtain ⟨hmem, hpushed⟩ : (0 < comps.length → mem ≠ null) ∧
        Pushed s.componentSize (arrayOf comps) mem comps.length filled.1 := by
      have hspec := fillComponents_spec s.componentSize (arrayOf comps) mem comps.length 0
        (preparedEntity mem (s.arenaFor mem comps).size comps.length)
        ⟨by rw [hentity], fun _ hk => absurd hk (Nat.not_lt_zero _),
          fun _ hk => absurd hk (Nat.not_lt_zero _)⟩ (by rw [hentity]; rfl)
        (Bool.eq_true_of_not_eq_false hfail)
      rwa [Nat.zero_add] at hspec
    have htypes : listOf filled.1.componentTypes filled.1.componentAmount = comps := by
      rw [hsame, listOf_congr hpushed.types, listOf_getD]
    have hplaced : listOf filled.1.components filled.1.componentAmount =
        s.pointersFor mem comps := by
      rw [hsame, listOf_congr hpushed.placed]
      rfl
    -- so the slot shows the entity, in an arena that is its own
    have hnew : SlotIs ⟨.take mem (s.arenaFor mem comps).size :: s.memLog,
          upd own mem (some (.slot i j)), s.nodeAt⟩ i j (t.row i).comps
        { filled.1 with alive := true }
        (.alive (s.arenaFor mem comps) (s.pointersFor mem comps)) := by
      rw [← hplaced]
      exact .alive rfl (htypes.trans hcomps.symm) hpushed.base fun h0 => Owns.new h0 _
    exact ⟨⟨rfl, rfl, rfl, rfl⟩, _, _,
      h.setSlot (v := .alive (s.arenaFor mem comps) (s.pointersFor mem comps))
        (f := fun _ => { filled.1 with alive := true }) hi hcap (Keeps.take hgood) hgood hj nofun
        hnew,
      .made fun hne => hmem (List.length_pos_iff.mpr hne)⟩

/-! ## The whole call -/

/-- Growing logs its calls in front of those before. -/
theorem growEntities_log (s : State) (mem i : Nat) :
    s.memLog <:+ (s.growEntities mem i).1.memLog := by
  have hcons : ∀ (c : AllocCall) (log : List AllocCall), log <:+ c :: log :=
    fun c log => List.suffix_cons c log
  have hrealloc : ∀ memory pages, s.memLog <:+ reallocLog memory pages mem s.memLog := by
    intro memory pages
    unfold reallocLog
    dsimp only
    split
    · exact hcons _ _
    · split
      · exact hcons _ _
      · exact (hcons _ _).trans (hcons _ _)
  rw [State.growEntities]
  dsimp only
  split
  · split <;> exact hrealloc _ _
  · exact List.suffix_refl _

/-- So does taking a slot, and it leaves the capacity alone. -/
theorem takeSlot_log (s : State) (i : Nat) : s.memLog <:+ (s.takeSlot i).1.memLog ∧
    ((s.takeSlot i).1.archeType i).capacity = (s.archeType i).capacity := by
  rw [State.takeSlot]
  dsimp only
  by_cases h0 : (s.archeType i).initial ≠ null
  · rw [if_pos h0, State.mmFreeGeneralMemory, if_neg h0]
    exact ⟨List.suffix_cons _ _, by rw [archeType_logged, archeType_set]⟩
  · rw [if_neg h0]
    exact ⟨List.suffix_refl _, by rw [archeType_set]⟩

/-- So does filling it. -/
theorem fillSlot_log (s : State) (mem i j : Nat) (components : Nat → Nat) (n : Nat) :
    s.memLog <:+ (s.fillSlot mem i j components n).1.memLog := by
  rw [State.fillSlot]
  dsimp only
  split <;> exact List.suffix_cons _ _

/-- Sizes are looked up in the registry only. -/
theorem SameData.filled {mem i j : Nat} {comps : List Nat} {r : Except NearStatus Nat} {v : Slot}
    (h : SameData s s') (hf : Filled s' mem i j comps r v) : Filled s mem i j comps r v := by
  have hsize : s'.componentSize = s.componentSize := funext h.componentSize
  have harena : s'.arenaFor mem comps = s.arenaFor mem comps := by
    unfold State.arenaFor State.ecsGetSizeOfAllComponents
    rw [hsize, h.cur]
  have hptr : s'.pointersFor mem comps = s.pointersFor mem comps := by
    unfold State.pointersFor
    rw [hsize]
  cases hf with
  | made h0 => rw [harena, hptr]; exact .made h0
  | failed => exact .failed

/-- The entity array has room, or the page allocator grants more.  The condition looks at the
    archetype that the search finds, which is known before the call from the lists that are stored. -/
def State.Grows (s : State) (a : Answers) (comps : List Nat) : Prop :=
  ∀ s₁ i, s.ecsGetArcheType a.archeTypes (arrayOf comps) comps.length = some (s₁, i) →
    (s₁.archeType i).capacity ≤ (s₁.archeType i).index → a.entities ≠ null

/-- The parts of a call of `EcsCreateEntity` with any amount; the log of every part is a part of the
    last log.  Every answer is judged by the last log (`Good`), so those of the parts are known to
    be in order, too. -/
theorem creation_parts {a : Answers} {components : Nat → Nat} {n : Nat} {r : Except NearStatus Nat}
    (hres : s.ecsCreateEntity a components n = some (s', r)) :
    ∃ s₁ i, s.ecsGetArcheType a.archeTypes components (n % 2 ^ 8) = some (s₁, i) ∧
    ((s', r) = if (s₁.growEntities a.entities i).2 = false then
        ((s₁.growEntities a.entities i).1, .error .outOfMemory)
      else ((s₁.growEntities a.entities i).1.takeSlot i).1.fillSlot a.arena i
        ((s₁.growEntities a.entities i).1.takeSlot i).2 components n) ∧
    (s₁.growEntities a.entities i).1.memLog <:+ s'.memLog := by
  rw [State.ecsCreateEntity] at hres
  cases hget : s.ecsGetArcheType a.archeTypes components (n % 2 ^ 8) with
  | none => rw [hget] at hres; cases hres
  | some p =>
    obtain ⟨s₁, i⟩ := p
    rw [hget] at hres
    dsimp only at hres
    refine ⟨s₁, i, rfl, ?_⟩
    split at hres
    · obtain ⟨rfl, rfl⟩ := Prod.mk.inj (Option.some.inj hres)
      rw [if_pos ‹_›]
      exact ⟨rfl, List.suffix_refl _⟩
    · obtain ⟨rfl, rfl⟩ := Prod.mk.inj (Option.some.inj hres)
      rw [if_neg ‹_›]
      exact ⟨rfl, (takeSlot_log _ _).1.trans (fillSlot_log _ _ _ _ _ _)⟩

/-- For a list that fits. -/
theorem create_parts {a : Answers} {comps : List Nat} (hlen : comps.length ≤ ecsCompSize)
    {r : Except NearStatus Nat}
    (hres : s.ecsCreateEntity a (arrayOf comps) comps.length = some (s', r)) :
    ∃ s₁ i, s.ecsGetArcheType a.archeTypes (arrayOf comps) comps.length = some (s₁, i) ∧
    ((s', r) = if (s₁.growEntities a.entities i).2 = false then
        ((s₁.growEntities a.entities i).1, .error .outOfMemory)
      else ((s₁.growEntities a.entities i).1.takeSlot i).1.fillSlot a.arena i
        ((s₁.growEntities a.entities i).1.takeSlot i).2 (arrayOf comps) comps.length) ∧
    (s₁.growEntities a.entities i).1.memLog <:+ s'.memLog := by
  have hparts := creation_parts hres
  rwa [length_mod hlen] at hparts

/-- What has happened in `EcsCreateEntity` before the slot is filled, when the page allocator does
    not refuse: a row `i` with the component list is there or was added, and its next slot is taken.
    The amount is not bounded: the lookup is made with its last eight bits, and only the filling
    uses all of it. -/
theorem creation_taken (h : Shows s own t) {a : Answers} {components : Nat → Nat} {n : Nat}
    (he : ∀ s₁ i, s.ecsGetArcheType a.archeTypes components (n % 2 ^ 8) = some (s₁, i) →
      (s₁.archeType i).capacity ≤ (s₁.archeType i).index → a.entities ≠ null)
    {r : Except NearStatus Nat} (hres : s.ecsCreateEntity a components n = some (s', r))
    (hg : Good s'.memLog) {L : List Nat} (hL : L = listOf components (n % 2 ^ 8)) :
    ∃ s₁ own₁ i s₂ own₂,
      s.ecsGetArcheType a.archeTypes components (n % 2 ^ 8) = some (s₁, i) ∧
      Shows s₁ own₁ (t.withRow L i) ∧ i < (t.withRow L i).count ∧ ((t.withRow L i).row i).comps = L ∧
      SameData s s₂ ∧
      ((s₁.growEntities a.entities i).1.takeSlot i).2 = ((t.withRow L i).row i).take.2 ∧
      Shows s₂ own₂ ((t.withRow L i).setRow i ((t.withRow L i).row i).take.1) ∧
      (s₂.archeType i).capacity ≠ 0 ∧
      (s', r) = s₂.fillSlot a.arena i ((t.withRow L i).row i).take.2 components n := by
  obtain ⟨s₁, i, hget, hparts, hlog⟩ := creation_parts hres
  have hgood := hg.suffix hlog
  obtain ⟨hd₁, hi, hcomps, -, own₁, h₁⟩ := ecsGetArcheType_shows h hget
    (hgood.suffix (growEntities_log _ _ _))
  rw [← hL] at hi hcomps h₁
  obtain ⟨hgrown, hd₂, own₂, h₂, hroom⟩ := growEntities_shows h₁ hi (he s₁ i hget) hgood
  rw [hgrown, if_neg (by decide)] at hparts
  obtain ⟨hj, hd₃, h₃⟩ := takeSlot_shows h₂ hi hroom
  have hcap : (((s₁.growEntities a.entities i).1.takeSlot i).1.archeType i).capacity ≠ 0 := by
    rw [(takeSlot_log _ i).2]
    exact Nat.ne_of_gt (Nat.lt_of_le_of_lt (Nat.zero_le _) hroom)
  refine ⟨s₁, own₁, i, _, own₂, hget, h₁, hi, hcomps, (hd₁.trans hd₂).trans hd₃, hj, h₃, hcap, ?_⟩
  rw [← hj]
  exact hparts

/-- For a list that fits. -/
theorem create_taken (h : Shows s own t) {a : Answers} {comps : List Nat} (he : s.Grows a comps)
    (hlen : comps.length ≤ ecsCompSize) {r : Except NearStatus Nat}
    (hres : s.ecsCreateEntity a (arrayOf comps) comps.length = some (s', r))
    (hg : Good s'.memLog) :
    ∃ s₁ own₁ i s₂ own₂, s.ecsGetArcheType a.archeTypes (arrayOf comps) comps.length = some (s₁, i) ∧
      Shows s₁ own₁ (t.withRow comps i) ∧ i < (t.withRow comps i).count ∧
      ((t.withRow comps i).row i).comps = comps ∧ SameData s s₂ ∧
      Shows s₂ own₂ ((t.withRow comps i).setRow i ((t.withRow comps i).row i).take.1) ∧
      (s₂.archeType i).capacity ≠ 0 ∧
      (s', r) = s₂.fillSlot a.arena i ((t.withRow comps i).row i).take.2 (arrayOf comps)
        comps.length := by
  have hmod := length_mod hlen
  obtain ⟨s₁, own₁, i, s₂, own₂, hget, h₁, hi, hcomps, hd, -, hrest⟩ :=
    creation_taken h (L := comps) (by rw [hmod]; exact he) hres hg
      (by rw [hmod]; exact (listOf_getD comps).symm)
  rw [hmod] at hget
  exact ⟨s₁, own₁, i, s₂, own₂, hget, h₁, hi, hcomps, hd, hrest⟩

/-- **What `EcsCreateEntity` can do** when the page allocator does not refuse: a row with the
    component list is there or is added, its next slot is used, and the entity in it is made or
    lost.  `Filled` leaves open which of the two it was: `create_ok_iff` settles that by the sizes
    and the answer of the heap. -/
theorem create_cases (h : Shows s own t) {a : Answers} {comps : List Nat} (he : s.Grows a comps)
    (hlen : comps.length ≤ ecsCompSize) {r : Except NearStatus Nat}
    (hres : s.ecsCreateEntity a (arrayOf comps) comps.length = some (s', r))
    (hg : Good s'.memLog) :
    SameData s s' ∧ ∃ own' i v, i < (t.withRow comps i).count ∧
      ((t.withRow comps i).row i).comps = comps ∧
      Shows s' own' ((t.withRow comps i).put i v) ∧
      Filled s a.arena i ((t.withRow comps i).row i).take.2 comps r v ∧
      ∃ s₁ own₁, s.ecsGetArcheType a.archeTypes (arrayOf comps) comps.length = some (s₁, i) ∧
        Shows s₁ own₁ (t.withRow comps i) := by
  obtain ⟨s₁, own₁, i, s₂, own₂, hget, h₁, hi, hcomps, hd, h₂, hcap, hfill⟩ :=
    create_taken h he hlen hres hg
  obtain ⟨rfl, rfl⟩ := Prod.mk.inj hfill
  obtain ⟨hd', own', v, h', hf⟩ := fillSlot_shows h₂ hi hcap
    (by rw [Table.row_setRow, Row.take_slot, upd_same])
    (by rw [Table.row_setRow, Row.take_comps, hcomps]) hlen hg
  rw [Table.row_setRow, Table.setRow_setRow] at h'
  exact ⟨hd.trans hd', own', i, v, hi, hcomps, h', hd.filled hf, s₁, own₁, hget, h₁⟩

end Nearlands.Ecs

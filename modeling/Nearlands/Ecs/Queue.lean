/-
  The queues of free slots.

  `waiting i calls` reads off the calls which slots of archetype `i` were deleted and have had no
  entity since, in the order of their deletion.  An archetype keeps them in a queue of heap nodes:
  `EcsDeleteEntity` appends, behind `freeList`, and `EcsCreateEntity` takes the first, at `initial`.
  When the queue runs empty `freeList` is left where it was, and is not looked at again before it is
  written.

  What the queue can lose is a slot that was taken for an entity that is then not made.  With memory
  for the asking that takes a list that does not fit: the amount goes to `EcsGetArcheType` as a `u8`,
  so that 257 components are looked up as one, take a slot of that archetype, and then run out of
  arena.  So the queues are kept exactly by the creations that find no slot waiting or make their
  entity (`queues_iff`).
-/
import Nearlands.Ecs.Bounds

namespace Nearlands.Ecs

open Nearlands.Lib Nearlands.Lib.AllocLog

/-! ## The calls -/

/-- The archetype and the slot that `EcsCreateEntity` takes.  These are values inside the function,
    told to the outside so that a history can speak of them: a creation that fails returns no
    handle, but it has used a slot. -/
def State.slotTaken (s : State) (a : Answers) (components : Nat → Nat) (componentAmount : Nat) :
    Option (Nat × Nat) :=
  (s.ecsGetArcheType a.archeTypes components (componentAmount % 2 ^ 8)).map fun found =>
    (found.2, ((found.1.growEntities a.entities found.2).1.takeSlot found.2).2)

/-- A call, with its arguments, what the allocators answer and what is returned; and of a creation
    the archetype and the slot it takes.  The answers of the allocators come with the call, so that
    a history can be replayed. -/
inductive SlotCall
  | register (mem size : Nat)
  | create (a : Answers) (comps : List Nat) (i j : Nat) (result : Except NearStatus Nat)
  | delete (mem handle : Nat) (status : NearStatus)

/-- One call, over allocators that answer with new memory.  Memory is granted whenever it is asked
    for, so what goes wrong here goes wrong without a refusal. -/
inductive SlotStep : State → SlotCall → State → Prop
  | register {s s' : State} {mem size id : Nat} : mem ≠ null →
      s.ecsCreateNewComponent mem size = (s', id) → Good s'.memLog →
      SlotStep s (.register mem size) s'
  | create {s s' : State} {a : Answers} {comps : List Nat} {i j : Nat}
      {r : Except NearStatus Nat} : a.archeTypes ≠ null → a.entities ≠ null → a.arena ≠ null →
      s.slotTaken a (arrayOf comps) comps.length = some (i, j) →
      s.ecsCreateEntity a (arrayOf comps) comps.length = some (s', r) → Good s'.memLog →
      SlotStep s (.create a comps i j r) s'
  | delete {s s' : State} {mem h : Nat} {st : NearStatus} : mem ≠ null →
      s.ecsDeleteEntity mem h = (s', st) → Good s'.memLog → SlotStep s (.delete mem h st) s'

/-- The slots of archetype `i` that were deleted and have had no entity since, oldest first.  A
    creation that fails is passed over: the slot it took has no entity, so it still waits by this
    definition, and the queue no longer has it. -/
def waiting (i : Nat) : List SlotCall → List Nat
  | [] => []
  | .create _ _ i' j (.ok _) :: calls =>
    if i' = i then (waiting i calls).filter (· != j) else waiting i calls
  | .delete _ handle .success :: calls =>
    if (ecsDecodeHandle handle).1 = i then waiting i calls ++ [(ecsDecodeHandle handle).2]
    else waiting i calls
  | _ :: calls => waiting i calls

/-- The queue of archetype `i` holds `slots`: `initial` leads through nodes that are allocated, the
    last of which is `freeList`.  The chain is read from `initial`, and its last node must be the
    one behind which the next deletion appends. -/
def State.Queue (s : State) (i : Nat) (slots : List Nat) : Prop :=
  ∃ nodes, ((s.archeType i).fifo s.nodeAt).Is nodes ∧
    nodes.map (fun n => (s.nodeAt n).index) = slots ∧
    ∀ n ∈ nodes, (⟨n, sizeofEntityFreeList⟩ : Region) ∈ held s.memLog

/-- The queues hold the slots that wait, each once; and when `EcsDeleteEntity` appends to a queue,
    the node it writes is allocated.  The last field is about a deletion that is yet to come:
    `EcsDeleteEntity` frees the arena first, and the node at `freeList` must outlive that. -/
structure State.QueuesKept (s : State) (calls : List SlotCall) : Prop where
  queue : ∀ i < s.ataIndex, s.Queue i (waiting i calls)
  once : ∀ i < s.ataIndex, (waiting i calls).Nodup
  append : ∀ h i j, s.resolve h = some (i, j) → (s.archeType i).initial ≠ null →
    (⟨(s.archeType i).freeList, sizeofEntityFreeList⟩ : Region) ∈ held (s.killSlot i j).memLog

/-- The call does not leave the arrays of an archetype and an entity.  The component list of a
    creation is an array of `u16` with an amount, and the loop writes that many entries into arrays
    of ten.  Beyond that the source writes into the next field, which is not modelled. -/
def State.InArrays (s : State) : SlotCall → Prop
  | .create a comps _ _ _ => comps.length % 2 ^ 8 ≤ ecsCompSize ∧
      ∀ k < comps.length, s.Reaches a.arena (arrayOf comps) comps.length k → k < ecsCompSize
  | .register _ _ | .delete _ _ _ => True

/-- A creation finds no slot waiting, or its list fits in an entity and in the arena.  The first
    alternative is about the state before the call, as found by the search the call itself will
    make; the second is about the list. -/
def State.Refills (s : State) : SlotCall → Prop
  | .create _ comps _ _ _ =>
    (∀ i < s.ataIndex, s.isArcheType (arrayOf comps) (comps.length % 2 ^ 8) i = true →
      (s.archeType i).initial = null) ∨
    comps.length ≤ ecsCompSize ∧ (comps ≠ [] → s.Fits comps)
  | .register _ _ | .delete _ _ _ => True

variable {s s' : State} {own own' : Nat → Option Owner} {t t' : Table} {i j mem : Nat}
  {comps : List Nat} {calls : List SlotCall} {e : SlotCall}

/-! ## Queues of the table -/

/-- The queue of row `i`; a row that is not there has none. -/
def Table.queue (t : Table) (i : Nat) : List Nat := if i < t.count then (t.row i).queue else []

theorem Table.queue_of_lt (hi : i < t.count) : t.queue i = (t.row i).queue := if_pos hi

/-- A new row has an empty queue. -/
theorem Table.queue_withRow (t : Table) (comps : List Nat) (i i' : Nat) :
    (t.withRow comps i).queue i' = t.queue i' := by
  rw [Table.withRow]
  split
  · rfl
  · by_cases hc : i' = t.count
    · subst hc
      rw [Table.queue, Table.queue, if_neg (Nat.lt_irrefl _),
        if_pos (show t.count < (t.addRow comps).count from Nat.lt_succ_self _)]
      exact congrArg Row.queue upd_same
    · have hrow : (t.addRow comps).row i' = t.row i' := upd_other hc
      have hlt : i' < (t.addRow comps).count ↔ i' < t.count := by
        show i' < t.count + 1 ↔ i' < t.count
        omega
      rw [Table.queue, Table.queue, hrow]
      simp only [hlt]

/-- The queue of a row that is replaced. -/
theorem Table.queue_setRow (hi : i < t.count) (r : Row) (i' : Nat) :
    (t.setRow i r).queue i' = if i' = i then r.queue else t.queue i' := by
  by_cases hii : i' = i
  · subst hii
    rw [if_pos rfl, Table.queue_of_lt (show i' < (t.setRow i' r).count from hi), Table.row_setRow]
  · rw [if_neg hii, Table.queue, Table.queue, Table.row_setRow_other r hii]
    rfl

/-- The slot taken is the first that waits, if one does.  Of an empty queue nothing is taken, and
    the tail of it is empty again. -/
theorem Row.take_queue (r : Row) : r.take.1.queue = r.queue.tail ∧
    ∀ j queue, r.queue = j :: queue → r.take.2 = j := by
  rw [Row.take]
  cases r.queue with
  | nil => exact ⟨rfl, fun _ _ h => absurd h.symm (List.cons_ne_nil _ _)⟩
  | cons j queue => exact ⟨rfl, fun _ _ h => (List.cons.inj h).1⟩

/-- Without its first element a list with no repetitions has all others. -/
theorem tail_eq_filter {l : List Nat} (hnd : l.Nodup) (hhead : ∀ k q, l = k :: q → j = k) :
    l.tail = l.filter (· != j) := by
  cases l with
  | nil => rfl
  | cons k q =>
    obtain rfl := hhead k q rfl
    obtain ⟨hnot, -⟩ := List.nodup_cons.mp hnd
    rw [List.filter_cons_of_neg (by simp), List.tail_cons]
    refine (List.filter_eq_self.mpr fun x hx => ?_).symm
    exact bne_iff_ne.mpr fun he => hnot (he ▸ hx)

/-- A list that is its tail is empty. -/
theorem nil_of_tail {l : List Nat} (h : l.tail = l) : l = [] := by
  cases l with
  | nil => rfl
  | cons x l => exact absurd h.symm (List.cons_ne_self x l)

/-- A slot is used. -/
theorem Table.queue_put (hi : i < t.count) (v : Slot) (i' : Nat) :
    (t.put i v).queue i' = if i' = i then (t.queue i).tail else t.queue i' := by
  rw [Table.put, Table.queue_setRow hi, Table.queue_of_lt hi]
  rw [show ((t.row i).take.1.setSlot (t.row i).take.2 v).queue = (t.row i).queue.tail from
    (t.row i).take_queue.1]

/-- **The queue of an archetype** is that of its row. -/
theorem Shows.queue_iff (h : Shows s own t) (hi : i < t.count) {slots : List Nat} :
    s.Queue i slots ↔ slots = (t.row i).queue := by
  have hrow := h.row i hi
  constructor
  · rintro ⟨nodes, hnodes, hslots, -⟩
    exact (h.freeList hi).mp ⟨nodes, hnodes.links, hslots.symm⟩
  · rintro rfl
    obtain ⟨nodes, hlinks, hslots⟩ := (h.freeList hi).mpr rfl
    obtain rfl := hlinks.unique hrow.queue.links
    refine ⟨_, hrow.queue, hslots.symm, fun n hn => ?_⟩
    obtain ⟨j, -, -, hown⟩ := hrow.node_owned hn
    exact hown.held

/-- No slot waits twice. -/
theorem Shows.queue_nodup (h : Shows s own t) (i : Nat) : (t.queue i).Nodup := by
  rw [Table.queue]
  split
  · exact (h.row i ‹_›).nodup
  · exact List.nodup_nil

/-- `initial` is null when no slot waits. -/
theorem Shows.initial_iff (h : Shows s own t) (hi : i < t.count) :
    (s.archeType i).initial = null ↔ t.queue i = [] := by
  rw [Table.queue_of_lt hi]
  exact (h.row i hi).queue.first_eq_zero.trans List.map_eq_nil_iff

/-- The node behind which a slot is appended is allocated, also after the arena is gone.  `freeList`
    names the last node of the queue, so it belongs to a slot that is free, and the arena that goes
    belongs to one that is alive. -/
theorem Shows.append (h : Shows s own t) (hset : t.Settled) {x : Nat}
    (hx : s.resolve x = some (i, j)) (h0 : (s.archeType i).initial ≠ null) :
    (⟨(s.archeType i).freeList, sizeofEntityFreeList⟩ : Region) ∈ held (s.killSlot i j).memLog := by
  obtain ⟨-, a, p, ha⟩ := (resolve_iff h hset x).mp hx
  have hi : i < (t.setRow i ((t.row i).setSlot j .lost)).count := ha.row
  obtain ⟨-, hkill⟩ := killSlot_shows h ha
  have hrow := hkill.row i hi
  have harche : (s.killSlot i j).archeType i = s.archeType i := by
    rw [State.killSlot, State.mmFreeGeneralMemory]
    split <;> rfl
  have hne : ((t.setRow i ((t.row i).setSlot j .lost)).row i).queue.map
      ((t.setRow i ((t.row i).setSlot j .lost)).row i).nodeOf ≠ [] := by
    refine fun hnil => h0 ?_
    rw [← harche]
    exact hrow.queue.first_eq_zero.mpr hnil
  obtain ⟨k, -, -, hown⟩ := hrow.node_owned (List.getLast_mem hne)
  rw [← hrow.queue.last hne] at hown
  have hheld := hown.held
  rw [show (((s.killSlot i j).archeType i).fifo (s.killSlot i j).nodeAt).last =
    (s.archeType i).freeList from congrArg ArcheType.freeList harche] at hheld
  exact hheld

/-- **The queues are kept** when those of the table hold the slots that wait. -/
theorem Shows.kept_iff (h : Shows s own t) (hset : t.Settled) :
    s.QueuesKept calls ↔ ∀ i < t.count, t.queue i = waiting i calls := by
  have hcount := h.count
  constructor
  · intro hkept i hi
    rw [Table.queue_of_lt hi]
    exact ((h.queue_iff hi).mp (hkept.queue i (hcount.symm ▸ hi))).symm
  · intro hall
    have hqueue : ∀ i < s.ataIndex, waiting i calls = (t.row i).queue := by
      intro i hi
      rw [hcount] at hi
      rw [← hall i hi, Table.queue_of_lt hi]
    refine ⟨fun i hi => (h.queue_iff (hcount ▸ hi)).mpr (hqueue i hi), fun i hi => ?_,
      fun x i j hx h0 => h.append hset hx h0⟩
    rw [hqueue i hi]
    exact (h.row i (hcount ▸ hi)).nodup

/-! ## One call -/

/-- When an entity is made in the arena that was granted.  Here the length of the list is not
    bounded, unlike in `create_ok_iff`. -/
theorem fill_ok_iff {mem : Nat} (hmem : mem ≠ null)
    (hin : ∀ k < comps.length, s.Reaches mem (arrayOf comps) comps.length k → k < ecsCompSize)
    (hg : Good (s.fillSlot mem i j (arrayOf comps) comps.length).1.memLog) :
    (∃ x, (s.fillSlot mem i j (arrayOf comps) comps.length).2 = .ok x) ↔
      comps.length ≤ ecsCompSize ∧ (comps ≠ [] → s.Fits comps) := by
  by_cases hlen : comps.length ≤ ecsCompSize
  · rw [fillSlot_ok_iff hg]
    exact ⟨fun hfits => ⟨hlen, fun hne => (hfits hne).2⟩, fun hfits hne => ⟨hmem, hfits.2 hne⟩⟩
  · -- the loop would have come to a turn behind the arrays
    refine iff_of_false (fun ⟨x, hx⟩ => ?_) fun hfits => hlen hfits.1
    have hlt := Nat.lt_of_not_le hlen
    exact absurd (hin ecsCompSize hlt (fillSlot_reaches hg hx ecsCompSize (Nat.le_of_lt hlt)))
      (Nat.lt_irrefl _)

/-- A slot that is taken is filled, or lost. -/
theorem fill_shows (h : Shows s own t) (hi : i < t.count) {mem : Nat}
    (hcap : (s.archeType i).capacity ≠ 0) (hslot : (t.row i).slot j = .taken)
    (hcomps : (t.row i).comps = listOf (arrayOf comps) (comps.length % 2 ^ 8))
    (hlen : ∀ x, (s.fillSlot mem i j (arrayOf comps) comps.length).2 = .ok x →
      comps.length ≤ ecsCompSize)
    (hg : Good (s.fillSlot mem i j (arrayOf comps) comps.length).1.memLog) :
    SameData s (s.fillSlot mem i j (arrayOf comps) comps.length).1 ∧ ∃ own' v, v ≠ .taken ∧
      (v ≠ .lost → ∃ x, (s.fillSlot mem i j (arrayOf comps) comps.length).2 = .ok x) ∧
      Shows (s.fillSlot mem i j (arrayOf comps) comps.length).1 own'
        (t.setRow i ((t.row i).setSlot j v)) := by
  cases hr : (s.fillSlot mem i j (arrayOf comps) comps.length).2 with
  | error st =>
    obtain ⟨hd, own', h'⟩ := fillSlot_lost h hi hcap hslot hr hg
    exact ⟨hd, own', .lost, nofun, fun hne => absurd rfl hne, h'⟩
  | ok x =>
    have hlen := hlen x hr
    rw [length_mod hlen, listOf_getD] at hcomps
    obtain ⟨hd, own', v, h', hf⟩ := fillSlot_shows h hi hcap hslot hcomps hlen hg
    exact ⟨hd, own', v, hf.ne_taken, fun _ => ⟨x, rfl⟩, h'⟩

/-- What a call does to the table.  The list `L` is the one looked up, which is `comps` cut to as
    many entries as a `u8` counts.  For short lists the two are the same. -/
inductive SlotMoves (s s' : State) (t : Table) : SlotCall → Table → Prop
  | register {mem size : Nat} : SlotMoves s s' t (.register mem size) t
  | create {a : Answers} {comps L : List Nat} {i : Nat} {v : Slot} {r : Except NearStatus Nat} :
      SameData s s' → L = listOf (arrayOf comps) (comps.length % 2 ^ 8) →
      i < (t.withRow L i).count → ((t.withRow L i).row i).comps = L →
      (∀ i' < t.count, (t.row i').comps = L ↔ i' = i) → (v ≠ .lost → ∃ x, r = .ok x) →
      ((∃ x, r = .ok x) ↔ comps.length ≤ ecsCompSize ∧ (comps ≠ [] → s.Fits comps)) →
      SlotMoves s s' t (.create a comps i ((t.withRow L i).row i).take.2 r) ((t.withRow L i).put i v)
  | refused {mem h : Nat} : SameData s s' → SlotMoves s s' t (.delete mem h .invalidHandle) t
  | delete {mem h i j : Nat} {a : Region} {p : List Nat} : SameData s s' →
      ecsDecodeHandle h = (i, j) → t.AliveAt i j a p →
      SlotMoves s s' t (.delete mem h .success)
        (t.setRow i (((t.row i).setSlot j .lost).enqueue j mem))

/-- **A creation** uses the next slot of the row with its list. -/
theorem creation_moves (h : Shows s own t) (hset : t.Settled) {a : Answers}
    {r : Except NearStatus Nat} (hs : SlotStep s (.create a comps i j r) s')
    (hin : s.InArrays (.create a comps i j r)) :
    ∃ own' t', Shows s' own' t' ∧ t'.Settled ∧ SlotMoves s s' t (.create a comps i j r) t' := by
  obtain ⟨L, hL⟩ : ∃ L, L = listOf (arrayOf comps) (comps.length % 2 ^ 8) := ⟨_, rfl⟩
  cases hs with
  | create _ hent harena htaken hres hg =>
    obtain ⟨s₁, own₁, i', s₂, own₂, hget, h₁, hi, hcomps, hd, hj, h₂, hcap, hfill⟩ :=
      creation_taken h (fun _ _ _ _ => hent) hres hg hL
    rw [State.slotTaken, hget] at htaken
    obtain ⟨rfl, rfl⟩ := Prod.mk.inj (Option.some.inj htaken)
    obtain ⟨rfl, rfl⟩ := Prod.mk.inj hfill
    have hok := fill_ok_iff (s := s₂) harena (fun k hk hreach => hin.2 k hk (hd.reaches.mp hreach)) hg
    rw [hd.fits] at hok
    obtain ⟨hd', own', v, hv, hmade, h'⟩ := fill_shows h₂ hi hcap
      (by rw [Table.row_setRow, Row.take_slot, upd_same])
      (by rw [Table.row_setRow, Row.take_comps, hcomps, hL]) (fun x hx => (hok.mp ⟨x, hx⟩).1) hg
    rw [Table.row_setRow, Table.setRow_setRow] at h'
    refine ⟨own', _, h', (hset.withRow L i').put hv, ?_⟩
    rw [hj]
    refine .create (hd.trans hd') hL hi hcomps (fun i hlt => ?_) hmade hok
    -- no other row has the list
    have hext := t.extends_withRow L i'
    constructor
    · intro he
      exact h₁.distinct i (Nat.lt_of_lt_of_le hlt hext.count) i' hi
        ((hext.comps i hlt).trans (he.trans hcomps.symm))
    · rintro rfl
      exact (hext.comps i hlt).symm.trans hcomps

/-- **What a call does.** -/
theorem slotStep_moves (h : Shows s own t) (hset : t.Settled) (hs : SlotStep s e s')
    (hin : s.InArrays e) :
    ∃ own' t', Shows s' own' t' ∧ t'.Settled ∧ SlotMoves s s' t e t' := by
  cases hs with
  | register hmem hres hg =>
    obtain ⟨-, ⟨own', h'⟩, -⟩ := ecsCreateNewComponent_shows h (fun _ => hmem) hres hg
    exact ⟨own', t, h', hset, .register⟩
  | create hat hent harena htaken hres hg =>
    exact creation_moves h hset (.create hat hent harena htaken hres hg) hin
  | delete hmem hres hg =>
    rcases delete_cases h hset hres hg with
      ⟨-, rfl, rfl⟩ | ⟨i, j, a, p, he, ha, hd, own', r, h', hdel⟩
    · exact ⟨own, t, h, hset, .refused ⟨rfl, rfl, rfl, rfl⟩⟩
    · have hset' := hset.deleted hdel
      cases hdel with
      | lost hnull => exact absurd hnull hmem
      | queued _ => exact ⟨own', _, h', hset', .delete hd he ha⟩

/-! ## What it does to the queues -/

/-- No archetype with the list has a slot waiting when the queue of its row is empty. -/
theorem none_waiting_iff (h : Shows s own t) {components : Nat → Nat} {n : Nat}
    (hrow : ∀ i' < t.count, (t.row i').comps = listOf components n ↔ i' = i) :
    (∀ i' < s.ataIndex, s.isArcheType components n i' = true → (s.archeType i').initial = null) ↔
      t.queue i = [] := by
  rw [h.count]
  constructor
  · intro hall
    by_cases hi : i < t.count
    · exact (h.initial_iff hi).mp
        (hall i hi ((isArcheType_iff h components n hi).mpr ((hrow i hi).mpr rfl)))
    · exact if_neg hi
  · intro hnil i' hi' htest
    obtain rfl := (hrow i' hi').mp ((isArcheType_iff h components n hi').mp htest)
    exact (h.initial_iff hi').mpr hnil

/-- The queues of the table hold the slots that wait. -/
def Table.Waits (t : Table) (calls : List SlotCall) : Prop := ∀ i, t.queue i = waiting i calls

/-- The first slot that waits is used. -/
theorem queue_used (h : Shows s own t) {L : List Nat} (hi : i < (t.withRow L i).count) (v : Slot) :
    (∀ i', ((t.withRow L i).put i v).queue i' = if i' = i then (t.queue i).tail else t.queue i') ∧
    (t.queue i).tail = (t.queue i).filter (· != ((t.withRow L i).row i).take.2) := by
  refine ⟨fun i' => ?_, tail_eq_filter (h.queue_nodup i) fun k q hq => ?_⟩
  · rw [Table.queue_put hi, Table.queue_withRow, Table.queue_withRow]
  · rw [← Table.queue_withRow t L i i, Table.queue_of_lt hi] at hq
    exact (Row.take_queue _).2 k q hq

/-- **A call** keeps the queues when it refills, and only then.  The queue loses its first slot in
    any case, `waiting` only when the entity is made.  They stay equal when there was none to lose,
    or when the entity is made. -/
theorem SlotMoves.waits (h : Shows s own t) (hw : t.Waits calls) (hm : SlotMoves s s' t e t') :
    (s.Refills e → t'.Waits (e :: calls)) ∧
    ((∀ i < t'.count, t'.queue i = waiting i (e :: calls)) → s.Refills e) := by
  cases hm with
  | register => exact ⟨fun _ => hw, fun _ => trivial⟩
  | refused _ => exact ⟨fun _ => hw, fun _ => trivial⟩
  | @delete mem x i j a p _ he ha =>
    refine ⟨fun _ i' => ?_, fun _ => trivial⟩
    rw [Table.queue_setRow ha.row]
    by_cases hii : i' = i
    · subst hii
      rw [if_pos rfl, show waiting i' (.delete mem x .success :: calls) =
        waiting i' calls ++ [(ecsDecodeHandle x).2] from if_pos (congrArg Prod.fst he), ← hw,
        Table.queue_of_lt ha.row, he]
      rfl
    · rw [if_neg hii, hw]
      refine (if_neg fun hfst => hii ?_).symm
      rw [← hfst, he]
  | @create a comps L i v r _ hL hi _ hrow _ hok =>
    have hnone := none_waiting_iff h (hL ▸ hrow)
    obtain ⟨hqueue, hfirst⟩ := queue_used h hi v
    cases r with
    | ok x =>
      refine ⟨fun _ i' => ?_, fun _ => .inr (hok.mp ⟨x, rfl⟩)⟩
      rw [hqueue]
      by_cases hii : i' = i
      · subst hii
        rw [if_pos rfl, hfirst, hw]
        exact (if_pos rfl).symm
      · rw [if_neg hii, hw]
        exact (if_neg fun he => hii he.symm).symm
    | error st =>
      -- the slot is gone from the queue, and no entity is made
      refine ⟨fun hrefills i' => ?_, fun hall => .inl (hnone.mpr ?_)⟩
      · have hnil : t.queue i = [] := hnone.mp (hrefills.resolve_right fun hfits => by
          obtain ⟨x, hx⟩ := hok.mpr hfits
          cases hx)
        rw [hqueue]
        by_cases hii : i' = i
        · rw [if_pos hii, hnil, hii]
          exact hnil.symm.trans (hw i)
        · rw [if_neg hii]
          exact hw i'
      · have hkept := hall i hi
        rw [hqueue, if_pos rfl] at hkept
        exact nil_of_tail (hkept.trans (hw i).symm)

/-! ## Runs -/

/-- **The queues.**  After a run of calls that stay in the arrays and refill, the queue of every
    archetype holds the slots that were deleted and have had no entity since, in the order of their
    deletion and each once, and what `EcsDeleteEntity` appends to is allocated.  The next call in
    the arrays keeps that exactly when it refills.  The condition is about the call and the state
    before it, so it can be checked before the call is made.  That a queue keeps its order through
    growth and deletion is the easy half; the hard one is that a slot which is taken is either
    filled or none of those that wait. -/
theorem queues_iff {s₀ : State} (h0 : Started s₀) {es : List SlotCall}
    (run : Trace (fun s e s' => SlotStep s e s' ∧ s.InArrays e ∧ s.Refills e) s₀ es s) :
    s.QueuesKept es ∧ ∀ e s', SlotStep s e s' → s.InArrays e →
      (s'.QueuesKept (e :: es) ↔ s.Refills e) := by
  obtain ⟨own, t, h, hset, hw⟩ : ∃ own t, Shows s own t ∧ t.Settled ∧ t.Waits es := by
    refine run.history_inv (I := fun es s => ∃ own t, Shows s own t ∧ t.Settled ∧ t.Waits es) ?_ ?_
    · exact ⟨_, _, Shows.start h0, fun i hi => absurd hi (Nat.not_lt_zero i), fun _ => rfl⟩
    · rintro es s e s' - ⟨own, t, h, hset, hw⟩ ⟨hs, hin, hrefills⟩
      obtain ⟨own', t', h', hset', hm⟩ := slotStep_moves h hset hs hin
      exact ⟨own', t', h', hset', (hm.waits h hw).1 hrefills⟩
  refine ⟨(h.kept_iff hset).mpr fun i _ => hw i, fun e s' hs hin => ?_⟩
  obtain ⟨own', t', h', hset', hm⟩ := slotStep_moves h hset hs hin
  obtain ⟨hkept, hback⟩ := hm.waits h hw
  rw [h'.kept_iff hset']
  exact ⟨hback, fun hrefills i _ => hkept hrefills i⟩

/-! ## Short lists

When the components are registered before the first entity, a list of at most `ECS_COMP_SIZE`
components always refills: a slot of its archetype that waits has had an entity, so the list fits. -/

/-- Components are registered before the first archetype is there, and the lists are short.  Sizes
    are fixed before the first archetype, so that a list which fitted once fits ever after. -/
def State.Short (s : State) : SlotCall → Prop
  | .register _ _ => s.ataIndex = 0
  | .create _ comps _ _ _ => comps.length ≤ ecsCompSize
  | .delete _ _ _ => True

/-- An entity was made in the row. -/
def Row.Made (r : Row) : Prop := ∃ j < r.index, r.slot j ≠ .lost

/-- The lists of rows in which an entity was made fit.  A row in which nothing was ever made has no
    slot to wait, so nothing is asked of it. -/
def RowsFit (s : State) (t : Table) : Prop :=
  ∀ i < t.count, (t.row i).Made → (t.row i).comps ≠ [] → s.Fits (t.row i).comps

/-- Short lists stay in the arrays. -/
theorem State.Short.inArrays (h : s.Short e) : s.InArrays e := by
  cases e with
  | register => trivial
  | delete => trivial
  | create a comps i j r =>
    have hle : comps.length ≤ ecsCompSize := h
    exact ⟨(Nat.mod_le _ _).trans hle, fun k hk _ => Nat.lt_of_lt_of_le hk hle⟩

/-- A slot is used; the row had an entity, or it has one now. -/
theorem Row.Made.of_take {r : Row} {v : Slot} (h : (r.take.1.setSlot r.take.2 v).Made) :
    v ≠ .lost ∨ r.Made := by
  obtain ⟨j, hj, hslot⟩ := h
  rw [show (r.take.1.setSlot r.take.2 v).slot = upd r.take.1.slot r.take.2 v from rfl] at hslot
  by_cases hjj : j = r.take.2
  · rw [hjj, upd_same] at hslot
    exact .inl hslot
  · rw [upd_other hjj, Row.take_slot, upd_other hjj] at hslot
    exact .inr ⟨j, Row.lt_of_take hj hjj, hslot⟩

/-- A new row has had no entity. -/
theorem Table.withRow_made {L : List Nat} {i' : Nat} (hi : i' < (t.withRow L i).count)
    (h : ((t.withRow L i).row i').Made) : i' < t.count ∧ (t.withRow L i).row i' = t.row i' := by
  rw [Table.withRow] at hi h ⊢
  by_cases hlt : i < t.count
  · rw [if_pos hlt] at hi ⊢
    exact ⟨hi, rfl⟩
  · rw [if_neg hlt] at hi h ⊢
    have hi : i' < t.count + 1 := hi
    by_cases hc : i' = t.count
    · rw [hc, show (t.addRow L).row t.count = ⟨L, 0, [], fun _ => .lost⟩ from upd_same] at h
      obtain ⟨j, hj, -⟩ := h
      exact absurd hj (Nat.not_lt_zero j)
    · exact ⟨by omega, upd_other hc⟩

/-- A short list refills.  A slot that waits has had an entity, so the row was made in, and its list
    fits. -/
theorem RowsFit.refills (hfit : RowsFit s t) (h : Shows s own t) (hshort : s.Short e) :
    s.Refills e := by
  cases e with
  | register => trivial
  | delete => trivial
  | create a comps i j r =>
    have hlen : comps.length ≤ ecsCompSize := hshort
    by_cases hnone : ∀ i < s.ataIndex,
        s.isArcheType (arrayOf comps) (comps.length % 2 ^ 8) i = true → (s.archeType i).initial = null
    · exact .inl hnone
    · push Not at hnone
      obtain ⟨k, hk, htest, h0⟩ := hnone
      rw [h.count] at hk
      have hcomps := (isArcheType_iff h _ _ hk).mp htest
      rw [length_mod hlen, listOf_getD] at hcomps
      -- a slot of the row waits
      obtain ⟨m, hm⟩ := List.exists_mem_of_ne_nil _ (mt (h.initial_iff hk).mpr h0)
      rw [Table.queue_of_lt hk] at hm
      obtain ⟨hlt, n, hslot⟩ := ((h.row k hk).mem_queue m).mp hm
      refine .inr ⟨hlen, fun hne => ?_⟩
      rw [← hcomps] at hne ⊢
      exact hfit k hk ⟨m, hlt, by rw [hslot]; nofun⟩ hne

/-- **A call** with a short list leaves the lists fitting. -/
theorem SlotMoves.fit (h : Shows s own t) (hfit : RowsFit s t) (hshort : s.Short e)
    (hm : SlotMoves s s' t e t') : RowsFit s' t' := by
  cases hm with
  | register =>
    -- components are registered before there is an archetype
    have h0 : s.ataIndex = 0 := hshort
    intro i hi
    rw [← h.count, h0] at hi
    exact absurd hi (Nat.not_lt_zero i)
  | refused hd => exact fun i hi hmade hne => hd.fits.mpr (hfit i hi hmade hne)
  | @delete mem x i j a p hd he ha =>
    intro i' hi' hmade hne
    rw [hd.fits]
    by_cases hii : i' = i
    · subst hii
      rw [Table.row_setRow] at hne ⊢
      exact hfit i' hi' ⟨j, ha.index, by rw [ha.slot]; nofun⟩ hne
    · rw [Table.row_setRow_other _ hii] at hmade hne ⊢
      exact hfit i' hi' hmade hne
  | @create a comps L i v r hd hL hi hcomps _ hmade hok =>
    have hlen : comps.length ≤ ecsCompSize := hshort
    have hold : ∀ i' < (t.withRow L i).count, ((t.withRow L i).row i').Made →
        ((t.withRow L i).row i').comps ≠ [] → s.Fits ((t.withRow L i).row i').comps := by
      intro i' hi' hmade hne
      obtain ⟨hlt, heq⟩ := Table.withRow_made hi' hmade
      rw [heq] at hmade hne ⊢
      exact hfit i' hlt hmade hne
    intro i' hi' hnow hne
    rw [hd.fits]
    by_cases hii : i' = i
    · subst hii
      rw [Table.put, Table.row_setRow] at hnow hne ⊢
      rw [show (((t.withRow L i').row i').take.1.setSlot ((t.withRow L i').row i').take.2 v).comps =
        ((t.withRow L i').row i').comps from Row.take_comps _] at hne ⊢
      rcases hnow.of_take with hv | hwas
      · -- the entity was made, so its list fits
        rw [hcomps, hL, length_mod hlen, listOf_getD] at hne ⊢
        exact (hok.mp (hmade hv)).2 hne
      · exact hold i' hi' hwas hne
    · rw [Table.put, Table.row_setRow_other _ hii] at hnow hne ⊢
      exact hold i' hi' hnow hne

/-- **Short lists.**  After a run in which all components are registered before the first entity and
    no list is longer than `ECS_COMP_SIZE`, the queues are kept. -/
theorem queues_of_short {s₀ : State} (h0 : Started s₀) {es : List SlotCall}
    (run : Trace (fun s e s' => SlotStep s e s' ∧ s.Short e) s₀ es s) : s.QueuesKept es := by
  obtain ⟨own, t, h, hset, hw, -⟩ :
      ∃ own t, Shows s own t ∧ t.Settled ∧ t.Waits es ∧ RowsFit s t := by
    refine run.history_inv (I := fun es s =>
      ∃ own t, Shows s own t ∧ t.Settled ∧ t.Waits es ∧ RowsFit s t) ?_ ?_
    · exact ⟨_, _, Shows.start h0, fun i hi => absurd hi (Nat.not_lt_zero i), fun _ => rfl,
        fun i hi => absurd hi (Nat.not_lt_zero i)⟩
    · rintro es s e s' - ⟨own, t, h, hset, hw, hfit⟩ ⟨hs, hshort⟩
      obtain ⟨own', t', h', hset', hm⟩ := slotStep_moves h hset hs hshort.inArrays
      exact ⟨own', t', h', hset', (hm.waits h hw).1 (hfit.refills h hshort), hm.fit h hfit hshort⟩
  exact (h.kept_iff hset).mpr fun i _ => hw i

/-! An entity of one component is made and deleted. -/

/-- The calls that lead there. -/
def callsOfOne : List SlotCall :=
  [.delete 0x300000 0 .success, .create ⟨0x100000, 0x101000, 0x200000⟩ [1] 0 0 (.ok 0),
    .register 0x1000 8]

theorem storeWithFree_reached :
    Trace (fun s e s' => SlotStep s e s' ∧ s.InArrays e ∧ s.Refills e) startedStore callsOfOne
      storeWithFree := by
  have hid : startedStore.ecsCreateNewComponent 0x1000 8 = (storeWithSize, 1) :=
    Prod.ext rfl (by decide)
  have hregister : SlotStep startedStore (.register 0x1000 8) storeWithSize :=
    .register (by decide) hid (by decide)
  have hcreate : SlotStep storeWithSize
      (.create ⟨0x100000, 0x101000, 0x200000⟩ [1] 0 0 (.ok 0)) storeWithCell :=
    .create (by decide) (by decide) (by decide) (by decide) (afterCreate_eq rfl) (by decide)
  have hdelete : SlotStep storeWithCell (.delete 0x300000 0 .success) storeWithFree :=
    .delete (by decide) (Prod.ext rfl (by decide)) (by decide)
  refine ((Trace.start.snoc ⟨hregister, trivial, trivial⟩).snoc ⟨hcreate, ?_, ?_⟩).snoc
    ⟨hdelete, trivial, trivial⟩
  · exact ⟨by decide, fun k hk _ => Nat.lt_of_lt_of_le hk (by decide)⟩
  · exact .inl fun i hi => absurd hi (Nat.not_lt_zero i)

/-- The slot waits. -/
theorem queues_first : storeWithFree.Queue 0 [0] ∧ storeWithFree.QueuesKept callsOfOne := by
  have hkept := (queues_iff startedStore_started storeWithFree_reached).1
  exact ⟨hkept.queue 0 (by decide), hkept⟩

/-- A list of 257 components, all of them the one that is registered. -/
def tooMany : List Nat := List.replicate 257 1

/-- One more than a `u8` can count. -/
theorem length_tooMany : tooMany.length = 257 := List.length_replicate

/-- The list as the array that the call is given. -/
theorem arrayOf_tooMany : arrayOf tooMany = fun k => if k < 257 then 1 else 0 := by
  funext k
  by_cases hk : k < 257
  · rw [if_pos hk, arrayOf_eq (by rw [length_tooMany]; exact hk)]
    exact List.getElem_replicate _
  · rw [if_neg hk, arrayOf, List.getD_eq_getElem?_getD,
      List.getElem?_eq_none (by rw [length_tooMany]; omega)]
    rfl

/-- The store after a creation with that list. -/
def storeWithLost : State :=
  ((storeWithFree.ecsCreateEntity ⟨0x102000, 0x103000, 0x400000⟩
    (fun k => if k < 257 then 1 else 0) 257).map Prod.fst).getD storeWithFree

theorem storeWithLost_reached : SlotStep storeWithFree
    (.create ⟨0x102000, 0x103000, 0x400000⟩ tooMany 0 0 (.error .outOfMemory)) storeWithLost := by
  refine .create (by decide) (by decide) (by decide) ?_ ?_ (by decide)
  · rw [arrayOf_tooMany, length_tooMany]
    decide
  · rw [arrayOf_tooMany, length_tooMany]
    have hres : (storeWithFree.ecsCreateEntity ⟨0x102000, 0x103000, 0x400000⟩
        (fun k => if k < 257 then 1 else 0) 257).map Prod.snd = some (.error .outOfMemory) := rfl
    obtain ⟨⟨s', r⟩, hsome, hr⟩ := Option.map_eq_some_iff.mp hres
    obtain rfl : r = .error .outOfMemory := hr
    rw [storeWithLost, hsome]
    rfl

/-- **A slot that is forgotten.**  A creation with 257 components takes the slot that waits, and then
    has no room for the second one: nothing is written behind an array, the slot that was deleted has
    no entity, and the queue is empty. -/
theorem slot_forgotten : ∃ s₀ es s, Started s₀ ∧
    Trace (fun s e s' => SlotStep s e s' ∧ s.InArrays e) s₀ es s ∧
    waiting 0 es = [0] ∧ 0 < s.ataIndex ∧ 0 < (s.archeType 0).index ∧
    (s.entity 0 0).alive = false ∧ s.Queue 0 [] ∧ ¬ s.QueuesKept es := by
  have hempty : storeWithLost.Queue 0 [] := ⟨[], Fifo.is_nil _ _, rfl, nofun⟩
  have hindex : 0 < storeWithLost.ataIndex := by decide
  refine ⟨startedStore, _, storeWithLost, startedStore_started,
    (storeWithFree_reached.mono fun _ _ _ h => ⟨h.1, h.2.1⟩).snoc ⟨storeWithLost_reached, ?_⟩, rfl,
    hindex, by decide, by decide, hempty, fun hkept => ?_⟩
  · refine ⟨by rw [length_tooMany]; decide, fun k _ hreach => ?_⟩
    by_contra hk
    have hk : 10 ≤ k := Nat.le_of_not_lt hk
    -- the second component does not fit
    have hroom := (hreach 1 (by omega)).2
    rw [arrayOf_tooMany, length_tooMany] at hroom
    exact absurd hroom (by decide)
  · -- the chain from `initial` is one, and it is empty
    obtain ⟨nodes, hnodes, hslots, -⟩ := hkept.queue 0 hindex
    obtain rfl : nodes = [] := hnodes.first_eq_zero.mp (by decide)
    cases hslots

end Nearlands.Ecs

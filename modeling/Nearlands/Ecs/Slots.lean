/-
  Slots that get lost.

  A slot below the index of its archetype should be alive, or wait on the free list to be used
  again.  `EcsCreateEntity` takes its slot before it asks the heap for the arena, and
  `EcsDeleteEntity` marks the slot dead before it asks for the queue node; when the heap refuses,
  neither puts the slot back.  So the slots stay usable exactly as long as the heap grants both
  (`slots_iff`), and each refusal costs a slot for good.

  In the table a slot is usable when it is not `lost` (`usable_iff`).
-/
import Nearlands.Ecs.Data
import Nearlands.Ecs.Failures

namespace Nearlands.Ecs

open Nearlands.Lib Nearlands.Lib.AllocLog

/-! ## The system -/

/-- A call, with its arguments and what the allocators answer.  Unlike an event of `Ecs.Runs` it has
    no result: whether the call succeeds is what is to be found out. -/
inductive Request
  | register (mem size : Nat)
  | create (a : Answers) (comps : List Nat)
  | delete (mem handle : Nat)

/-- One call, over allocators that answer with new memory or refuse.  The heap and the page
    allocator may refuse at will; if they answer, it is with memory that nobody holds (`Good`). -/
inductive Serves : State → Request → State → Prop
  | register {s s' : State} {mem size id : Nat} : s.ecsCreateNewComponent mem size = (s', id) →
      Good s'.memLog → Serves s (.register mem size) s'
  | create {s s' : State} {a : Answers} {comps : List Nat} {r : Except NearStatus Nat} :
      s.ecsCreateEntity a (arrayOf comps) comps.length = some (s', r) → Good s'.memLog →
      Serves s (.create a comps) s'
  | delete {s s' : State} {mem h : Nat} {st : NearStatus} : h < 2 ^ 64 →
      s.ecsDeleteEntity mem h = (s', st) → Good s'.memLog → Serves s (.delete mem h) s'

/-- The components fit in an entity and its archetype, and the slots of the archetype are not given
    up: the page allocator grants a full array a larger one, and the index does not wrap.  These are
    the ways to lose a slot that have nothing to do with the heap, and `create_bounds_iff` and
    `Ecs.Failures` are about them. -/
def State.Regular (s : State) : Request → Prop
  | .create a comps => comps.length ≤ ecsCompSize ∧ s.Safe a comps
  | .register _ _ | .delete _ _ => True

/-- The components fit in the arena: every sum of the first sizes is at most its size.  With sums
    that do not wrap this is always so: the sums grow, and the last is the size.  A sum that wraps
    can exceed the size of the arena it is pushed to. -/
def State.Fits (s : State) (comps : List Nat) : Prop :=
  ∀ k < comps.length, w64 (offset (fun m => s.componentSize (arrayOf comps m)) (k + 1)) ≤
    s.ecsGetSizeOfAllComponents (arrayOf comps) comps.length

/-- The heap grants what is asked for: an arena in which the components fit, and the node for a slot
    that is deleted. -/
def State.Granted (s : State) : Request → Prop
  | .create a comps => s.Grows a comps → comps ≠ [] → a.arena ≠ null ∧ s.Fits comps
  | .delete mem h => s.resolve h ≠ none → mem ≠ null
  | .register _ _ => True

/-- The free list of archetype `i`: the slots named by the nodes that `initial` leads to.  The list
    is what a reader of memory finds who starts at `initial`, so `freeList` plays no part. -/
def State.FreeList (s : State) (i : Nat) (slots : List Nat) : Prop :=
  ∃ nodes, Fifo.Links (fun n => (s.nodeAt n).next) (s.archeType i).initial nodes ∧
    slots = nodes.map fun n => (s.nodeAt n).index

/-- Every slot below an index is alive and not on the free list, or dead and on it once.  A lost
    slot is dead and on no list, so that `free.count j = 1` fails for it. -/
def State.Usable (s : State) : Prop :=
  ∀ i < s.ataIndex, ∃ free, s.FreeList i free ∧ ∀ j < (s.archeType i).index,
    ((s.entity i j).alive = true ∧ j ∉ free) ∨ ((s.entity i j).alive = false ∧ free.count j = 1)

variable {s s' : State} {own own' : Nat → Option Owner} {t t' : Table} {i j mem : Nat}
  {comps : List Nat}

/-! ## Lost slots -/

/-- No slot is lost. -/
@[reducible] def Table.Kept (t : Table) : Prop := t.All (· ≠ .lost)

/-- The free list in memory is the queue of the row. -/
theorem Shows.freeList (h : Shows s own t) (hi : i < t.count) {free : List Nat} :
    s.FreeList i free ↔ free = (t.row i).queue := by
  have hrow := h.row i hi
  have hnodes : ((t.row i).queue.map (t.row i).nodeOf).map (fun n => (s.nodeAt n).index) =
      (t.row i).queue := by
    rw [List.map_map]
    refine (List.map_congr_left fun j hj => ?_).trans (List.map_id _)
    obtain ⟨hlt, n, hslot⟩ := (hrow.mem_queue j).mp hj
    have hs := hrow.slots j hlt
    rw [hslot] at hs
    show (s.nodeAt ((t.row i).nodeOf j)).index = j
    rw [Row.nodeOf_eq hslot]
    cases hs with
    | queued _ hindex _ => exact hindex
  constructor
  · rintro ⟨nodes, hlinks, rfl⟩
    rw [hlinks.unique hrow.queue.links, hnodes]
  · rintro rfl
    exact ⟨_, hrow.queue.links, hnodes.symm⟩

/-- **The slots are usable when the table has lost none.** From left to right a lost slot would have
    to be on the list, which holds queued slots only. -/
theorem usable_iff (h : Shows s own t) (hset : t.Settled) : s.Usable ↔ t.Kept := by
  constructor
  · intro husable i hi j hj hlost
    have hrow := h.row i hi
    obtain ⟨free, hfree, hslots⟩ := husable i (h.count.symm ▸ hi)
    rw [(h.freeList hi).mp hfree, hrow.index] at hslots
    have hs := hrow.slots j hj
    rw [hlost] at hs
    cases hs with
    | lost hdead =>
      -- a lost slot is dead and in no queue
      rcases hslots j hj with ⟨halive, -⟩ | ⟨-, hcount⟩
      · exact absurd (hdead.symm.trans halive) nofun
      · have hmem : j ∈ (t.row i).queue := List.count_pos_iff.mp (by omega)
        obtain ⟨-, n, hn⟩ := (hrow.mem_queue j).mp hmem
        exact absurd (hlost.symm.trans hn) nofun
  · intro hkept i hi
    rw [h.count] at hi
    have hrow := h.row i hi
    refine ⟨(t.row i).queue, (h.freeList hi).mpr rfl, fun j hj => ?_⟩
    rw [hrow.index] at hj
    have hs := hrow.slots j hj
    cases hslot : (t.row i).slot j with
    | alive a p =>
      rw [hslot] at hs
      cases hs with
      | alive halive _ _ _ =>
        refine .inl ⟨halive, fun hmem => ?_⟩
        obtain ⟨-, n, hn⟩ := (hrow.mem_queue j).mp hmem
        exact absurd (hslot.symm.trans hn) nofun
    | queued n =>
      rw [hslot] at hs
      cases hs with
      | queued hdead _ _ =>
        exact .inr ⟨hdead, List.count_eq_one_of_mem hrow.nodup
          ((hrow.mem_queue j).mpr ⟨hj, n, hslot⟩)⟩
    | lost => exact absurd hslot (hkept i hi j hj)
    | taken => exact absurd hslot (hset i hi j hj)

/-! ## When a creation succeeds -/

/-- Component `k` fits in an arena of `bytes` bytes at `mem`, behind those before it.  The arena
    refuses a push that would go beyond its size, and any push when it has no memory. -/
def PushFits (sizes components : Nat → Nat) (mem bytes k : Nat) : Prop :=
  mem ≠ null ∧ w64 (offset (fun m => sizes (components m)) (k + 1)) ≤ bytes

/-- What the loop of `EcsCreateEntity` has in hand before turn `i`.  `le` is what keeps the test of
    the arena from being fooled by a sum that wrapped earlier. -/
structure Pushing (sizes components : Nat → Nat) (mem bytes i : Nat) (e : Entity) : Prop where
  base : e.arena.base = mem
  room : e.arena.size = bytes
  used : e.arena.used = w64 (offset (fun m => sizes (components m)) i)
  le : e.arena.used ≤ bytes

section pushing

variable {sizes components : Nat → Nat} {bytes : Nat} {e : Entity}

/-- Before the first turn nothing is used. -/
theorem Pushing.start (sizes components : Nat → Nat) (mem bytes amount : Nat) :
    Pushing sizes components mem bytes 0 (preparedEntity mem bytes amount) := by
  refine ⟨?_, ?_, ?_, ?_⟩ <;> rw [preparedEntity, Arena.zero_create]
  · rfl
  · exact Nat.zero_le bytes

/-- When a push is granted. -/
theorem Pushing.push_iff (h : Pushing sizes components mem bytes i e)
    (hfits : mem ≠ null → mem + bytes < 2 ^ 64) :
    (pushComponent sizes components i e).2 ≠ null ↔ PushFits sizes components mem bytes i := by
  have hpush := e.arena.push_iff (sizes (components i)) (by rw [h.base, h.room]; exact hfits)
    (by rw [h.room]; exact h.le)
  rw [h.base, h.room, h.used, w64_add_w64, ← offset_succ fun m => sizes (components m)] at hpush
  exact hpush

/-- One turn. -/
theorem Pushing.succ (h : Pushing sizes components mem bytes i e)
    (hfits : mem ≠ null → mem + bytes < 2 ^ 64)
    (hpush : (pushComponent sizes components i e).2 ≠ null) :
    Pushing sizes components mem bytes (i + 1) (pushComponent sizes components i e).1 := by
  have hroom := ((h.push_iff hfits).mp hpush).2
  have hused : w64 (e.arena.used + sizes (components i)) =
      w64 (offset (fun m => sizes (components m)) (i + 1)) := by
    rw [h.used, w64_add_w64, offset_succ]
  rw [(pushComponent_cases hpush).2]
  refine ⟨h.base, h.room, hused, ?_⟩
  show w64 (e.arena.used + sizes (components i)) ≤ bytes
  rw [hused]
  exact hroom

/-- **When the loop succeeds**: every push is granted.  Induction on the number of components left. -/
theorem fillComponents_iff (hfits : mem ≠ null → mem + bytes < 2 ^ 64) : ∀ (n i : Nat) (e : Entity),
    Pushing sizes components mem bytes i e →
    ((fillComponents sizes components n i e).2 = true ↔
      ∀ k, i ≤ k → k < i + n → PushFits sizes components mem bytes k) := by
  intro n
  induction n with
  | zero => exact fun i e _ => ⟨fun _ k _ _ => by omega, fun _ => rfl⟩
  | succ n ih =>
    intro i e h
    rw [fillComponents]
    by_cases hnull : (pushComponent sizes components i e).2 = null
    · rw [if_pos hnull]
      refine ⟨fun hfalse => absurd hfalse Bool.false_ne_true, fun hall => ?_⟩
      exact absurd hnull ((h.push_iff hfits).mpr (hall i (Nat.le_refl i) (by omega)))
    · rw [if_neg hnull, ih (i + 1) _ (h.succ hfits hnull)]
      constructor
      · intro hall k hik hk
        rcases Nat.eq_or_lt_of_le hik with rfl | hik
        · exact (h.push_iff hfits).mp hnull
        · exact hall k hik (by omega)
      · exact fun hall k hik hk => hall k (by omega) (by omega)

end pushing

/-- **When a slot is filled**: there are no components, or they fit in an arena.  With no components
    nothing is pushed, so that a refused arena does not matter. -/
theorem fillSlot_ok_iff
    (hg : Good (s.fillSlot mem i j (arrayOf comps) comps.length).1.memLog) :
    (∃ x, (s.fillSlot mem i j (arrayOf comps) comps.length).2 = .ok x) ↔
      (comps ≠ [] → mem ≠ null ∧ s.Fits comps) := by
  have hloop : (s.filling mem comps).2 = true ↔ ∀ k, 0 ≤ k → k < 0 + comps.length →
      PushFits s.componentSize (arrayOf comps) mem (s.arenaFor mem comps).size k :=
    fillComponents_iff (fun h0 => ((fillSlot_good hg).1 h0).fits) comps.length 0 _
      (Pushing.start _ _ mem _ comps.length)
  have hpushes : (s.filling mem comps).2 = true ↔ (comps ≠ [] → mem ≠ null ∧ s.Fits comps) := by
    rw [hloop]
    constructor
    · intro hall hne
      have hpos := List.length_pos_iff.mpr hne
      exact ⟨(hall 0 (Nat.le_refl 0) (by omega)).1, fun k hk =>
        (hall k (Nat.zero_le k) (by omega)).2⟩
    · intro hall k _ hk
      have hne : comps ≠ [] := List.length_pos_iff.mp (by omega)
      exact ⟨(hall hne).1, (hall hne).2 k (by omega)⟩
  rw [← hpushes, fillSlot_eq s mem i j comps]
  by_cases hfail : (s.filling mem comps).2 = false
  · rw [if_pos hfail, hfail]
    exact ⟨fun ⟨x, hx⟩ => absurd hx nofun, nofun⟩
  · rw [if_neg hfail]
    exact ⟨fun _ => Bool.eq_true_of_not_eq_false hfail, fun _ => ⟨_, rfl⟩⟩

/-! ## One call -/

/-- Whether components fit depends on the registry only. -/
theorem SameData.fits (hd : SameData s s') : s'.Fits comps ↔ s.Fits comps := by
  unfold State.Fits State.ecsGetSizeOfAllComponents
  rw [show s'.componentSize = s.componentSize from funext hd.componentSize, hd.cur]

/-- **When a creation succeeds.** -/
theorem create_ok_iff (h : Shows s own t) {a : Answers} (he : s.Grows a comps)
    (hlen : comps.length ≤ ecsCompSize) {r : Except NearStatus Nat}
    (hres : s.ecsCreateEntity a (arrayOf comps) comps.length = some (s', r))
    (hg : Good s'.memLog) :
    (∃ x, r = .ok x) ↔ (comps ≠ [] → a.arena ≠ null ∧ s.Fits comps) := by
  obtain ⟨_, _, i, s₂, _, -, -, -, -, hd, -, -, hfill⟩ := create_taken h he hlen hres hg
  rw [show s' = _ from congrArg Prod.fst hfill] at hg
  rw [show r = _ from congrArg Prod.snd hfill, fillSlot_ok_iff hg, hd.fits]

/-- The slot that a creation uses is kept when the creation succeeds.  The slot is used in either
    case; what the creation returns tells whether as an entity or as a slot that nobody can reach. -/
theorem create_kept (h : Shows s own t) (hkept : t.Kept) {a : Answers} (he : s.Grows a comps)
    (hreg : s.Regular (.create a comps)) {r : Except NearStatus Nat}
    (hres : s.ecsCreateEntity a (arrayOf comps) comps.length = some (s', r))
    (hg : Good s'.memLog) :
    ∃ own' i v, Shows s' own' ((t.withRow comps i).put i v) ∧ v ≠ .taken ∧
      (((t.withRow comps i).put i v).Kept ↔ ∃ x, r = .ok x) := by
  obtain ⟨hlen, hsafe⟩ := hreg
  obtain ⟨-, own', i, v, hi, -, h', hf, s₁, own₁, hget, h₁⟩ := create_cases h he hlen hres hg
  refine ⟨own', i, v, h', hf.ne_taken, ?_⟩
  cases hf with
  | made _ => exact iff_of_true ((hkept.withRow comps i).put nofun) ⟨_, rfl⟩
  | failed =>
    refine iff_of_false (fun hall => ?_) fun ⟨_, hx⟩ => absurd hx nofun
    -- the slot used lies below the index
    have hslot := (Row.take_spec (h₁.row i hi).mem_queue).2
      (h₁.slot_number hi (hsafe (s₁, i) hget).2)
    have hrow : ((t.withRow comps i).put i .lost).row i =
        ((t.withRow comps i).row i).take.1.setSlot ((t.withRow comps i).row i).take.2 .lost :=
      Table.row_setRow _ _ _
    refine hall i hi ((t.withRow comps i).row i).take.2 ?_ ?_
    · rw [hrow]
      exact hslot
    · rw [hrow]
      exact upd_same

/-- **One call** loses no slot when the heap grants what is asked for, and else it loses one.  For a
    creation the crux is `create_ok_iff`, for a deletion that a slot is enqueued only with a node. -/
theorem serves_kept (h : Shows s own t) (hset : t.Settled) (hkept : t.Kept) {e : Request}
    (hs : Serves s e s') (hreg : s.Regular e) :
    ∃ own' t', Shows s' own' t' ∧ t'.Settled ∧ (t'.Kept ↔ s.Granted e) := by
  cases hs with
  | register hres hg =>
    obtain ⟨own', h'⟩ := register_shows h hres hg
    exact ⟨own', t, h', hset, iff_of_true hkept trivial⟩
  | @create _ a comps r hres hg =>
    by_cases he : s.Grows a comps
    · obtain ⟨own', i, v, h', hv, hiff⟩ := create_kept h hkept he hreg hres hg
      refine ⟨own', _, h', (hset.withRow comps i).put hv, ?_⟩
      rw [hiff, create_ok_iff h he hreg.1 hres hg]
      exact ⟨fun hall _ => hall, fun hall => hall he⟩
    · -- without an array no slot is taken
      obtain ⟨own', i, h', -⟩ := create_refused h hreg.1 hreg.2 he hres hg
      exact ⟨own', _, h', hset.withRow comps i,
        iff_of_true (hkept.withRow comps i) fun hgrows => absurd hgrows he⟩
  | @delete _ mem x st hx hres hg =>
    rcases delete_cases h hset hres hg with
      ⟨hdead, rfl, -⟩ | ⟨i, j, a, p, he, ha, -, own', r, h', hdel⟩
    · exact ⟨own, t, h, hset, iff_of_true hkept fun hne => absurd (resolve_none h hset hdead) hne⟩
    · refine ⟨own', _, h', hset.deleted hdel, ?_⟩
      have hne : s.resolve x ≠ none := by
        rw [(resolve_iff h hset x).mpr ⟨he, a, p, ha⟩]
        nofun
      have hslot := hdel.slot
      by_cases hmem : mem = null
      · rw [if_pos hmem] at hslot
        refine iff_of_false (fun hall => ?_) fun hgranted => hgranted hne hmem
        refine hall i ha.row j ?_ ?_
        · rw [Table.row_setRow]
          cases hdel <;> exact ha.index
        · rw [Table.row_setRow]
          exact hslot
      · rw [if_neg hmem] at hslot
        refine iff_of_true (hkept.deleted hdel ?_) fun _ => hmem
        rw [hslot]
        nofun

/-- **Slots.**  In every state of a run of calls, all of which are regular and granted what they ask
    the heap for, every slot below the index of its archetype is alive, or dead and on the free list
    once.  The next regular call keeps that exactly when the heap grants what it asks for.  The last
    equivalence is about the next call alone: in a state where all slots are usable, `Granted` can
    be decided before the call is made, from the arguments and the answers of the heap. -/
theorem slots_iff {s₀ : State} (h0 : Started s₀) {es : List Request}
    (run : Trace (fun s e s' => Serves s e s' ∧ s.Regular e ∧ s.Granted e) s₀ es s) :
    s.Usable ∧ ∀ e s', Serves s e s' → s.Regular e → (s'.Usable ↔ s.Granted e) := by
  obtain ⟨own, t, h, hset, hkept⟩ : ∃ own t, Shows s own t ∧ t.Settled ∧ t.Kept := by
    refine run.inv (I := fun s => ∃ own t, Shows s own t ∧ t.Settled ∧ t.Kept) ?_ ?_
    · exact ⟨_, _, Shows.start h0, fun i hi => absurd hi (Nat.not_lt_zero i),
        fun i hi => absurd hi (Nat.not_lt_zero i)⟩
    · rintro s e s' ⟨own, t, h, hset, hkept⟩ ⟨hs, hreg, hgranted⟩
      obtain ⟨own', t', h', hset', hiff⟩ := serves_kept h hset hkept hs hreg
      exact ⟨own', t', h', hset', hiff.mpr hgranted⟩
  refine ⟨(usable_iff h hset).mpr hkept, fun e s' hs hreg => ?_⟩
  obtain ⟨own', t', h', hset', hiff⟩ := serves_kept h hset hkept hs hreg
  rw [usable_iff h' hset', hiff]

/-! Two entities of one component: the first is made, and then deleted; the heap refuses the arena of
    the other one. -/

/-- Registering a component is a call. -/
theorem storeWithSize_served : Serves startedStore (.register 0x1000 8) storeWithSize := by
  have hres : startedStore.ecsCreateNewComponent 0x1000 8 = (storeWithSize, 1) :=
    Prod.ext rfl (by decide)
  exact .register hres (by decide)

/-- So is the creation of an entity with it. -/
theorem storeWithCell_served :
    Serves storeWithSize (.create ⟨0x100000, 0x101000, 0x200000⟩ [1]) storeWithCell :=
  .create (r := .ok 0) (afterCreate_eq rfl) (by decide)

/-- The node for the slot is granted. -/
theorem slots_first :
    storeWithCell.Usable ∧ (storeWithCell.ecsDeleteEntity 0x300000 0).1.Usable := by
  have hregular : storeWithSize.Regular (.create ⟨0x100000, 0x101000, 0x200000⟩ [1]) :=
    ⟨by decide, by decide⟩
  have hfits : storeWithSize.Fits [1] := by
    intro k hk
    obtain rfl : k = 0 := Nat.lt_one_iff.mp hk
    decide
  have hdelete : Serves storeWithCell (.delete 0x300000 0)
      (storeWithCell.ecsDeleteEntity 0x300000 0).1 := .delete (by decide) rfl (by decide)
  have h := slots_iff startedStore_started
    ((Trace.start.snoc ⟨storeWithSize_served, trivial, trivial⟩).snoc
      ⟨storeWithCell_served, hregular, fun _ _ => ⟨by decide, hfits⟩⟩)
  exact ⟨h.1, (h.2 _ _ hdelete trivial).mpr fun _ => by decide⟩

/-- The state after a creation without an arena. -/
def storeWithoutArena : State := storeWithSize.afterCreate ⟨0x100000, 0x101000, null⟩ [1]

/-- A slot that is dead while the free list is empty. -/
theorem not_usable (hi : i < s.ataIndex) (hempty : (s.archeType i).initial = null)
    (hj : j < (s.archeType i).index) (hdead : (s.entity i j).alive = false) : ¬ s.Usable := by
  intro husable
  obtain ⟨free, ⟨nodes, hlinks, rfl⟩, hslots⟩ := husable i hi
  rw [hempty] at hlinks
  obtain rfl : nodes = [] := hlinks.unique rfl
  rcases hslots j hj with ⟨halive, -⟩ | ⟨-, hcount⟩
  · exact absurd (hdead.symm.trans halive) nofun
  · cases hcount

/-- **Slots that are lost.**  A creation whose arena is refused leaves a dead slot that is on no free
    list, and so does a deletion whose node is refused. -/
theorem slots_lost :
    (∃ s₀ es s, Started s₀ ∧ Trace Serves s₀ es s ∧
      (∃ s₁ a comps, Serves s₁ (.create a comps) s ∧ a.arena = null) ∧ ¬ s.Usable) ∧
    ∃ s₀ es s, Started s₀ ∧ Trace Serves s₀ es s ∧
      (∃ s₁ h, Serves s₁ (.delete null h) s) ∧ ¬ s.Usable := by
  have hcreate : Serves storeWithSize (.create ⟨0x100000, 0x101000, null⟩ [1]) storeWithoutArena :=
    .create (r := .error .outOfMemory) (afterCreate_eq rfl) (by decide)
  have hdelete : Serves storeWithCell (.delete null 0) (storeWithCell.ecsDeleteEntity null 0).1 :=
    .delete (by decide) rfl (by decide)
  refine ⟨⟨startedStore, _, storeWithoutArena, startedStore_started,
    (Trace.start.snoc storeWithSize_served).snoc hcreate, ⟨_, _, _, hcreate, rfl⟩, ?_⟩,
    startedStore, _, _, startedStore_started,
    ((Trace.start.snoc storeWithSize_served).snoc storeWithCell_served).snoc hdelete,
    ⟨_, _, hdelete⟩, ?_⟩
  · exact not_usable (i := 0) (j := 0) (by decide) (by decide) (by decide) (by decide)
  · exact not_usable (i := 0) (j := 0) (by decide) (by decide) (by decide) (by decide)

end Nearlands.Ecs

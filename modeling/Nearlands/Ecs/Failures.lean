/-
  Creations that fail.

  `EcsCreateEntity` can fail in three places.  When the heap refuses the arena, the slot it took is
  lost and nothing else has changed.  When the page allocator refuses the first array of an
  archetype, nothing has changed at all.  But when it refuses to make an array larger, the pointer
  to the old array has already been overwritten with `NULL`: every entity of the archetype is gone
  (`failed_creation_loses_entities`).  In runs where that does not happen a failed creation changes
  nothing for the entities there are (`failed_creation_hurts_nobody`).

  Three things are asked of a creation.  The first is necessary, as `refused_growth_loses_array`
  shows: whenever a full array is refused, all entities of the archetype are lost.  So is the last:
  a creation that takes slot `2 ^ 32 - 1` sets the slot counter to 0 and no handle of the archetype
  resolves any more (`wrapped_counter_loses_slots`).  The bound on the length of the list is another
  kind: a list of more than `ECS_COMP_SIZE` types is written past the end of the arrays of the
  entity, which C leaves undefined, and nothing is said of what comes after that.
-/
import Nearlands.Ecs.Runs

namespace Nearlands.Ecs

open Nearlands.Lib Nearlands.Lib.AllocLog

variable {s s' s'' : State} {own : Nat → Option Owner} {t : Table} {i j : Nat}

/-! ## The system, with refusals -/

/-- A full array of entities is not refused a larger one, and the next slot has a number of 32 bits.
    The first part allows the first array to be refused, as no entity is lost then. -/
def ArcheType.Safe (archeType : ArcheType) (a : Answers) : Prop :=
  (archeType.capacity ≤ archeType.index → a.entities = null → archeType.capacity = 0) ∧
  (archeType.initial = null → archeType.index + 1 < 2 ^ 32)

instance (archeType : ArcheType) (a : Answers) : Decidable (archeType.Safe a) :=
  inferInstanceAs (Decidable (_ ∧ _))

/-- The archetype that `EcsCreateEntity` uses is safe.  It is decided before the call: the search
    that finds the archetype is the one the call will make. -/
def State.Safe (s : State) (a : Answers) (comps : List Nat) : Prop :=
  ∀ found ∈ s.ecsGetArcheType a.archeTypes (arrayOf comps) comps.length,
    (found.1.archeType found.2).Safe a

instance (s : State) (a : Answers) (comps : List Nat) : Decidable (s.Safe a comps) :=
  inferInstanceAs (Decidable (∀ found ∈ s.ecsGetArcheType _ _ _, (found.1.archeType found.2).Safe a))

/-- One call, over allocators that may refuse any request. -/
inductive Attempt : State → Event → State → Prop
  | register {s s' : State} {mem size id : Nat} : s.ecsCreateNewComponent mem size = (s', id) →
      Good s'.memLog → Attempt s (.register size id) s'
  | create {s s' : State} {a : Answers} {comps : List Nat} {r : Except NearStatus Nat} :
      comps.length ≤ ecsCompSize → s.Safe a comps →
      s.ecsCreateEntity a (arrayOf comps) comps.length = some (s', r) → Good s'.memLog →
      Attempt s (.create comps r) s'
  | delete {s s' : State} {h : Nat} {st : NearStatus} : Step s (.delete h st) s' →
      Attempt s (.delete h st) s'
  | add {s s' : State} {h c : Nat} {data : Nat → UInt8} {st : NearStatus} :
      Step s (.add h c data st) s' → Attempt s (.add h c data st) s'

/-- The entity `(i, j)` has the same component types, pointers and data.  The amounts are in the
    lists, which are cut to them. -/
structure SameEntity (s s' : State) (i j : Nat) : Prop where
  types : listOf (s'.entity i j).componentTypes (s'.entity i j).componentAmount =
    listOf (s.entity i j).componentTypes (s.entity i j).componentAmount
  pointers : listOf (s'.entity i j).components (s'.entity i j).componentAmount =
    listOf (s.entity i j).components (s.entity i j).componentAmount
  size : ∀ c, s'.componentSize c = s.componentSize c
  bytes : s'.bytes = s.bytes

/-! ## One call -/

/-- What a creation keeps: the entities that are alive, their rows and all component data.  Slots
    that are free may be used: what has to stay is what is alive. -/
structure Undisturbed (s s' : State) (t t' : Table) : Prop where
  data : SameData s s'
  rows : t.Extends t'
  alive : ∀ i j a p, t.AliveAt i j a p → t'.AliveAt i j a p

/-- What several calls in a row leave alone, they leave alone together. -/
theorem Undisturbed.trans {t' t'' : Table} (h : Undisturbed s s' t t')
    (h' : Undisturbed s' s'' t' t'') : Undisturbed s s'' t t'' :=
  ⟨h.data.trans h'.data, h.rows.trans h'.rows, fun i j a p ha => h'.alive i j a p (h.alive i j a p ha)⟩

/-- The array of component sizes is asked for and refused. -/
theorem ecsCreateNewComponent_refused (h : Shows s own t) (h0 : s.componentSizeArr = null)
    (size : Nat) : Shows (s.ecsCreateNewComponent null size).1 own t := by
  have hres : (s.ecsCreateNewComponent null size).1 =
      { s.mmAllocateMultiplePages 1 null with componentSizeArr := null } := by
    rw [State.ecsCreateNewComponent, if_pos h0]
    rfl
  have hkept := h.refused (1 * pageSize)
  rw [hres]
  exact ⟨hkept.good, hkept.count, hkept.room, hkept.array, hkept.row, hkept.distinct,
    fun hne => absurd rfl hne⟩

/-- `EcsCreateNewComponent` keeps the table, whatever the page allocator answers. -/
theorem register_shows (h : Shows s own t) {mem size id : Nat}
    (hres : s.ecsCreateNewComponent mem size = (s', id)) (hg : Good s'.memLog) :
    ∃ own', Shows s' own' t := by
  by_cases h0 : s.componentSizeArr = null → mem ≠ null
  · obtain ⟨-, hshow, -⟩ := ecsCreateNewComponent_shows h h0 hres hg
    exact hshow
  · obtain ⟨h0, hmem⟩ := Classical.not_imp.mp h0
    rw [not_not.mp hmem] at hres
    have h' := ecsCreateNewComponent_refused h h0 size
    rw [hres] at h'
    exact ⟨own, h'⟩

/-- The row a creation uses has a slot with a number of 32 bits. -/
theorem Shows.slot_number (h : Shows s own t) (hi : i < t.count)
    (hsafe : (s.archeType i).initial = null → (s.archeType i).index + 1 < 2 ^ 32) :
    (t.row i).index ≤ (t.row i).take.1.index := by
  have hrow := h.row i hi
  rw [Row.take]
  split
  · exact Nat.le_refl _
  · rename_i hq
    have hlt := hsafe (hrow.queue.first_eq_zero.mpr (by rw [hq]; rfl))
    rw [hrow.index] at hlt
    show _ ≤ ((t.row i).index + 1) % 2 ^ 32
    omega

/-- The page allocator refuses the first array of an archetype: the archetype is there, and no slot
    is taken.  The new row stays behind, with no slots and no array; the next creation finds it and
    asks again. -/
theorem create_refused (h : Shows s own t) {a : Answers} {comps : List Nat}
    (hlen : comps.length ≤ ecsCompSize) (hsafe : s.Safe a comps) (hno : ¬ s.Grows a comps)
    {r : Except NearStatus Nat}
    (hres : s.ecsCreateEntity a (arrayOf comps) comps.length = some (s', r))
    (hg : Good s'.memLog) :
    ∃ own' i, Shows s' own' (t.withRow comps i) ∧ SameData s s' := by
  obtain ⟨s₁, i, hget, hparts, hlog⟩ := create_parts hlen hres
  obtain ⟨hfull, hnull⟩ : (s₁.archeType i).capacity ≤ (s₁.archeType i).index ∧
      a.entities = null := by
    by_contra hsome
    refine hno fun s₂ i₂ hget₂ hfull hnull => hsome ?_
    obtain ⟨rfl, rfl⟩ := Prod.mk.inj (Option.some.inj (hget.symm.trans hget₂))
    exact ⟨hfull, hnull⟩
  have hcap := (hsafe (s₁, i) hget).1 hfull hnull
  obtain ⟨hd₁, hi, -, -, own₁, h₁⟩ := ecsGetArcheType_shows h hget
    (hg.suffix ((growEntities_log _ _ _).trans hlog))
  rw [listOf_getD] at hi h₁
  obtain ⟨hfailed, hd₂, h₂⟩ := growEntities_refused h₁ hi hcap
  rw [hnull, if_pos hfailed] at hparts
  obtain ⟨rfl, -⟩ := Prod.mk.inj hparts
  exact ⟨own₁, i, h₂, hd₁.trans hd₂⟩

/-- **What a creation keeps**, whether it fails or not.  Both ways to fail are here: a first array
    that is refused, and a slot that is not filled. -/
theorem create_undisturbed (h : Shows s own t) (hset : t.Settled) {a : Answers} {comps : List Nat}
    (hlen : comps.length ≤ ecsCompSize) (hsafe : s.Safe a comps) {r : Except NearStatus Nat}
    (hres : s.ecsCreateEntity a (arrayOf comps) comps.length = some (s', r))
    (hg : Good s'.memLog) :
    ∃ own' t', Shows s' own' t' ∧ t'.Settled ∧ Undisturbed s s' t t' := by
  by_cases hgrows : s.Grows a comps
  · -- the page allocator does not refuse
    obtain ⟨hd, own', i, v, hi, -, h', hf, s₁, own₁, hget, h₁⟩ := create_cases h hgrows hlen hres hg
    obtain ⟨-, -, hstay⟩ := put_alive (v := v) hi (h₁.row i hi).mem_queue
      (h₁.slot_number hi (hsafe (s₁, i) hget).2)
    refine ⟨own', _, h', (hset.withRow _ _).put hf.ne_taken, hd,
      ⟨(t.extends_withRow _ _).count, (put_comps hi).2⟩, ?_⟩
    rintro i' j' a' p' ha
    exact hstay i' j' a' p' ((withRow_alive comps i).mpr ha)
  · -- it refuses the first array of the archetype
    obtain ⟨own', i, h', hd⟩ := create_refused h hlen hsafe hgrows hres hg
    refine ⟨own', _, h', hset.withRow _ _, hd, t.extends_withRow comps i, ?_⟩
    rintro i' j' a' p' ha
    exact (withRow_alive comps i).mpr ha

/-- Every call leads from a state that shows a table to another one. -/
theorem attempt_shows (h : Shows s own t) (hset : t.Settled) {e : Event} (hs : Attempt s e s') :
    ∃ own' t', Shows s' own' t' ∧ t'.Settled := by
  cases hs with
  | register hres hg =>
    obtain ⟨own', h'⟩ := register_shows h hres hg
    exact ⟨own', t, h', hset⟩
  | create hlen hsafe hres hg =>
    obtain ⟨own', t', h', hset', -⟩ := create_undisturbed h hset hlen hsafe hres hg
    exact ⟨own', t', h', hset'⟩
  | delete hs =>
    obtain ⟨own', t', h', hset', -⟩ := step_moves h hset hs
    exact ⟨own', t', h', hset'⟩
  | add hs =>
    obtain ⟨own', t', h', hset', -⟩ := step_moves h hset hs
    exact ⟨own', t', h', hset'⟩

/-! ## Runs -/

/-- Every state of such a run shows a table. -/
theorem attempts_show {s₀ : State} (h0 : Started s₀) {es : List Event}
    (run : Trace Attempt s₀ es s) : ∃ own t, Shows s own t ∧ t.Settled := by
  refine run.inv (I := fun s => ∃ own t, Shows s own t ∧ t.Settled) ?_ ?_
  · exact ⟨_, _, Shows.start h0, fun i hi => absurd hi (Nat.not_lt_zero i)⟩
  · rintro s e s' ⟨own, t, h, hset⟩ hs
    exact attempt_shows h hset hs

/-- A run of creations disturbs nobody. -/
theorem creations_undisturbed (h : Shows s own t) (hset : t.Settled) {es : List Event}
    (run : Trace Attempt s es s') (hcreates : ∀ e ∈ es, ∃ comps r, e = .create comps r) :
    ∃ own' t', Shows s' own' t' ∧ t'.Settled ∧ Undisturbed s s' t t' := by
  induction run with
  | start => exact ⟨own, t, h, hset, .refl s, .refl t, fun _ _ _ _ ha => ha⟩
  | @snoc es s₁ s₂ e _ hs ih =>
    obtain ⟨own₁, t₁, h₁, hset₁, hu₁⟩ := ih fun e he => hcreates e (List.mem_cons_of_mem _ he)
    obtain ⟨comps, r, rfl⟩ := hcreates e List.mem_cons_self
    cases hs with
    | create hlen hsafe hres hg =>
      obtain ⟨own₂, t₂, h₂, hset₂, hu₂⟩ := create_undisturbed h₁ hset₁ hlen hsafe hres hg
      exact ⟨own₂, t₂, h₂, hset₂, hu₁.trans hu₂⟩

/-- An entity that is alive in both tables is the same.  The records may have moved with their
    array, and still hold the same. -/
theorem Undisturbed.sameEntity {own' : Nat → Option Owner} {t' : Table} (h : Shows s own t)
    (h' : Shows s' own' t') (hu : Undisturbed s s' t t') {a : Region} {p : List Nat}
    (ha : t.AliveAt i j a p) : SameEntity s s' i j := by
  obtain ⟨-, htypes, hptrs, -, -⟩ := h.alive ha
  obtain ⟨-, htypes', hptrs', -, -⟩ := h'.alive (hu.alive i j a p ha)
  constructor
  · rw [htypes, htypes', hu.rows.comps i ha.row]
  · rw [hptrs, hptrs']
  · exact hu.data.componentSize
  · exact hu.data.bytes

/-- **A failed creation hurts nobody else.**  In every run in which no array of entities is lost:
    after an `EcsCreateEntity` that fails, and after any further creations, every handle that
    resolved before resolves to the same entity, with the same component types, pointers and
    data.  `Attempt` lets the allocators refuse any request of any call, but for the one growth that
    `ArcheType.Safe` names.  The failing call and the creations after it are one run, of which
    `creations_undisturbed` says that it leaves the entities alone: a slot is given to a new entity
    only when it is free or was never in use, and neither kind resolves. -/
theorem failed_creation_hurts_nobody {s₀ : State} (h0 : Started s₀) {es es' : List Event}
    (run : Trace Attempt s₀ es s) {comps : List Nat} {st : NearStatus}
    (hfail : Attempt s (.create comps (.error st)) s') (run' : Trace Attempt s' es' s'')
    (hcreates : ∀ e ∈ es', ∃ comps r, e = .create comps r) {h : Nat}
    (hget : s.ecsGetEntity h = .ok (i, j)) :
    s''.ecsGetEntity h = .ok (i, j) ∧ SameEntity s s'' i j ∧
    ∀ c, s''.ecsGetComponent h c = s.ecsGetComponent h c := by
  obtain ⟨own, t, hsh, hset⟩ := attempts_show h0 run
  have hall : Trace Attempt s (es' ++ [.create comps (.error st)]) s'' :=
    (Trace.start.snoc hfail).append run'
  obtain ⟨own', t', hsh', hset', hu⟩ := creations_undisturbed hsh hset hall (by
    intro e he
    rcases List.mem_append.mp he with he | he
    · exact hcreates e he
    · exact ⟨_, _, List.mem_singleton.mp he⟩)
  obtain ⟨hx, a, p, ha⟩ := (ecsGetEntity_iff hsh hset h).mp hget
  have ha' := hu.alive i j a p ha
  refine ⟨(ecsGetEntity_iff hsh' hset' h).mpr ⟨hx, a, p, ha'⟩, hu.sameEntity hsh hsh' ha, ?_⟩
  intro c
  rw [ecsGetComponent_spec hsh hset hx ha, ecsGetComponent_spec hsh' hset' hx ha',
    hu.rows.comps i ha.row]

/-! A run in which the archetype of the second creation gets no array. -/

/-- A creation, as a call. -/
theorem attempt_create {a : Answers} {comps : List Nat} {r : Except NearStatus Nat}
    (hlen : comps.length ≤ ecsCompSize) (hsafe : s.Safe a comps)
    (hres : (s.ecsCreateEntity a (arrayOf comps) comps.length).map (·.2) = some r)
    (hg : Good (s.afterCreate a comps).memLog) :
    Attempt s (.create comps r) (s.afterCreate a comps) :=
  .create hlen hsafe (afterCreate_eq hres) hg

/-- The first entity is still there. -/
theorem failed_creation_hurts_nobody_first :
    (storeWithOne.afterCreate ⟨0, 0, 0⟩ [7]).ecsGetEntity 0 = .ok (0, 0) := by
  have h1 : Attempt startedStore (.create [] (.ok 0)) storeWithOne :=
    attempt_create (by decide) (by decide) rfl (by decide)
  have h2 : Attempt storeWithOne (.create [7] (.error .outOfMemory))
      (storeWithOne.afterCreate ⟨0, 0, 0⟩ [7]) :=
    attempt_create (by decide) (by decide) rfl (by decide)
  exact (failed_creation_hurts_nobody startedStore_started (Trace.start.snoc h1) h2 Trace.start
    (fun _ he => absurd he List.not_mem_nil) rfl).1

/-! ## Entities that are lost -/

/-- What `EcsGetEntity` finds is what the handle says. -/
theorem ecsGetEntity_decode {h : Nat} (hget : s.ecsGetEntity h = .ok (i, j)) :
    ecsDecodeHandle h = (i, j) := by
  rw [State.ecsGetEntity] at hget
  split at hget
  · cases hget
  · split at hget
    · cases hget
    · split at hget
      · cases hget
      · exact Except.ok.inj hget

/-- **What a refusal does to a full array.**  The creation fails, the archetype has no entities any
    more, and the handle of its first slot resolves no longer.  The slot is the one handle that is
    sure to exist; that of any other slot fails for the same reason, a null array. -/
theorem refused_growth_loses_array {a : Answers} {comps : List Nat} {r : Except NearStatus Nat}
    (hlen : comps.length ≤ ecsCompSize)
    (hres : s.ecsCreateEntity a (arrayOf comps) comps.length = some (s', r)) {s₁ : State}
    (hget : s.ecsGetArcheType a.archeTypes (arrayOf comps) comps.length = some (s₁, i))
    (hfull : (s₁.archeType i).capacity ≤ (s₁.archeType i).index) (hnull : a.entities = null)
    (hi : i < 2 ^ 32) :
    r = .error .outOfMemory ∧ (s'.archeType i).entities = null ∧
    s'.resolve (ecsEncodeHandle i 0) = none := by
  obtain ⟨s₂, i₂, hget₂, hparts, -⟩ := create_parts hlen hres
  obtain ⟨rfl, rfl⟩ := Prod.mk.inj (Option.some.inj (hget.symm.trans hget₂))
  obtain ⟨hfailed, hlost⟩ : (s₁.growEntities null i).2 = false ∧
      ((s₁.growEntities null i).1.archeType i).entities = null := by
    rw [State.growEntities, if_pos hfull, if_pos rfl, archeType_set]
    exact ⟨rfl, rfl⟩
  rw [hnull, if_pos hfailed] at hparts
  obtain ⟨rfl, rfl⟩ := Prod.mk.inj hparts
  refine ⟨rfl, hlost, ?_⟩
  have haddr : (s₁.growEntities null i).1.entityAddr i 0 = null := by
    rw [State.entityAddr, hlost]
    rfl
  rw [State.resolve]
  split
  · rfl
  · rename_i i' j' hok
    have hdec := ecsGetEntity_decode hok
    rw [decode_encode hi (by decide)] at hdec
    obtain ⟨rfl, rfl⟩ := Prod.mk.inj hdec
    exact if_pos haddr

/-- **What the last slot number does to an archetype.**  A creation that is given slot `2 ^ 32 - 1`,
    and comes that far, sets the slot counter to 0, whether or not it then finds memory for its
    data: no handle of the archetype resolves any more.  The test of the slot against the index is
    what fails them, since no number is below 0. -/
theorem wrapped_counter_loses_slots {a : Answers} {comps : List Nat} {r : Except NearStatus Nat}
    (hlen : comps.length ≤ ecsCompSize)
    (hres : s.ecsCreateEntity a (arrayOf comps) comps.length = some (s', r)) {s₁ : State}
    (hget : s.ecsGetArcheType a.archeTypes (arrayOf comps) comps.length = some (s₁, i))
    (hgrown : (s₁.growEntities a.entities i).2 = true) (hempty : (s₁.archeType i).initial = null)
    (hlast : (s₁.archeType i).index + 1 = 2 ^ 32) (hi : i < 2 ^ 32) :
    (s'.archeType i).index = 0 ∧
    ∀ j < 2 ^ 32, ∀ found, s'.ecsGetEntity (ecsEncodeHandle i j) ≠ .ok found := by
  obtain ⟨s₂, i₂, hget₂, hparts, -⟩ := create_parts hlen hres
  obtain ⟨rfl, rfl⟩ := Prod.mk.inj (Option.some.inj (hget.symm.trans hget₂))
  rw [if_neg (by rw [hgrown]; decide)] at hparts
  -- growing the array changes neither the queue nor the counter
  have hkept : ((s₁.growEntities a.entities i).1.archeType i).initial = (s₁.archeType i).initial ∧
      ((s₁.growEntities a.entities i).1.archeType i).index = (s₁.archeType i).index := by
    rw [State.growEntities]
    dsimp only
    split
    · split
      · rw [archeType_set]
        exact ⟨rfl, rfl⟩
      · rw [archeType_set, archeType_set]
        exact ⟨rfl, rfl⟩
    · exact ⟨rfl, rfl⟩
  -- the queue is empty, so the slot is that of the counter, which wraps
  have hindex : (s'.archeType i).index = 0 := by
    have htaken : ((s₁.growEntities a.entities i).1.takeSlot i).1.archeType i =
        { (s₁.growEntities a.entities i).1.archeType i with index := 0 } := by
      rw [State.takeSlot, hkept.1, hempty, if_neg (not_not.mpr rfl), archeType_set, hkept.2, hlast]
      rfl
    have hfilled : s' = _ := congrArg Prod.fst hparts
    rw [hfilled, State.fillSlot]
    dsimp only
    split
    · exact congrArg ArcheType.index htaken
    · exact congrArg ArcheType.index htaken
  refine ⟨hindex, fun j hj found hok => ?_⟩
  rw [State.ecsGetEntity, decode_encode hi hj] at hok
  dsimp only at hok
  split at hok
  · cases hok
  · rw [hindex, if_pos (Nat.zero_le j)] at hok
    cases hok

/-- The store after `n` creations of entities without components. -/
def storeWith : Nat → State
  | 0 => startedStore
  | n + 1 => (storeWith n).afterCreate ⟨0x100000, 0x101000, 0⟩ []

theorem storeWith_reached (n : Nat) (hn : n ≤ 15) :
    ∃ es, Trace Step startedStore es (storeWith n) := by
  have hmade : ∀ n < 15, ((storeWith n).ecsCreateEntity ⟨0x100000, 0x101000, 0⟩ (arrayOf [])
      0).map (·.2.toOption) = some (some n) := by decide +kernel
  have hgood : ∀ n < 15, Good (storeWith (n + 1)).memLog := by decide +kernel
  induction n with
  | zero => exact ⟨[], .start⟩
  | succ n ih =>
    obtain ⟨es, run⟩ := ih (Nat.le_of_succ_le hn)
    exact ⟨_, run.snoc (step_create (by decide) (hmade n hn) (hgood n hn))⟩

/-- **A failed creation that loses all entities.**  After 15 creations handle 0 resolves; the 16th is
    refused a larger array, returns `STATUS_OUT_OF_MEMORY`, and then handle 0 does not resolve. -/
theorem failed_creation_loses_entities : ∃ s₀ s s' es, Started s₀ ∧ Trace Step s₀ es s ∧
    s.ecsGetEntity 0 = .ok (0, 0) ∧
    (∃ a, s.ecsCreateEntity a (arrayOf []) 0 = some (s', .error .outOfMemory)) ∧
    Good s'.memLog ∧ s'.ecsGetEntity 0 = .error .invalidEntity ∧ s'.resolve 0 = none := by
  obtain ⟨es, run⟩ := storeWith_reached 15 (Nat.le_refl _)
  refine ⟨startedStore, storeWith 15, (storeWith 15).afterCreate ⟨0, 0, 0⟩ [], es,
    startedStore_started, run, ?_, ⟨⟨0, 0, 0⟩, ?_⟩, ?_, ?_, ?_⟩
  · rfl
  · rfl
  · decide +kernel
  · rfl
  · rfl

end Nearlands.Ecs

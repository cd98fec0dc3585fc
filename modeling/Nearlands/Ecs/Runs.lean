/-
  Runs of the entity store.

  A run registers components, creates and deletes entities and writes component data, in any order,
  over allocators that answer with new memory only.  The page allocator does not refuse; the heap
  may.  `step_moves` says what a step does to the table: it is the one lemma about all operations,
  and every result about runs starts from it.

  Then come the two results about handles.  `handles_valid`: a handle resolves exactly while its
  entity lives.  `stale_handles_stay_dead`: the handle of a deleted entity stays dead until the
  store gives it out again, which it does (`handle_comes_back`), for a handle is the number of a
  slot and slots are reused.
-/
import Nearlands.Ecs.Use
import Nearlands.Lib.Trace

namespace Nearlands.Ecs

open Nearlands.Lib Nearlands.Lib.AllocLog

/-! ## The system -/

/-- A call, with its arguments and what it returned.  A refused allocation shows in the result only:
    the event does not say what the allocators answered. -/
inductive Event
  | register (size id : Nat)
  | create (comps : List Nat) (result : Except NearStatus Nat)
  | delete (handle : Nat) (status : NearStatus)
  | add (handle component : Nat) (data : Nat → UInt8) (status : NearStatus)

/-- One call.  A creation needs its two arrays, since a refused one may lose all entities of an
    archetype or panic; an arena or a queue node may be refused.  Handles are any 64-bit values, not
    only such as were given out. -/
inductive Step : State → Event → State → Prop
  | register {s s' : State} {mem size id : Nat} : mem ≠ null →
      s.ecsCreateNewComponent mem size = (s', id) → Good s'.memLog → Step s (.register size id) s'
  | create {s s' : State} {a : Answers} {comps : List Nat} {r : Except NearStatus Nat} :
      a.archeTypes ≠ null → a.entities ≠ null → comps.length ≤ ecsCompSize →
      s.ecsCreateEntity a (arrayOf comps) comps.length = some (s', r) → Good s'.memLog →
      Step s (.create comps r) s'
  | delete {s s' : State} {mem h : Nat} {st : NearStatus} : h < 2 ^ 64 →
      s.ecsDeleteEntity mem h = (s', st) → Good s'.memLog → Step s (.delete h st) s'
  | add {s s' : State} {h c : Nat} {data : Nat → UInt8} {st : NearStatus} : h < 2 ^ 64 →
      s.ecsAddComponentDataToEntity h c data = (s', st) → Step s (.add h c data st) s'

/-- The lists of a run fit into the records. -/
theorem Step.length {s s' : State} {e : Event} (hs : Step s e s') {comps : List Nat}
    {r : Except NearStatus Nat} (he : e = .create comps r) : comps.length ≤ ecsCompSize := by
  cases hs with
  | create _ _ hlen _ _ =>
    injection he with he _
    exact he ▸ hlen
  | _ => cases he

/-- The statics as the program starts with them, over memory with any contents.  Only statics are
    initialised.  What the pages will hold is arbitrary, and the source clears what it reads. -/
structure Started (s : State) : Prop where
  array : s.archeTypeArray = null
  index : s.ataIndex = 0
  capacity : s.ataCapacity = 0
  sizeArr : s.componentSizeArr = null
  cur : s.curComponentIndex = 1
  log : Good s.memLog

/-- What a call does to the table.  For a creation and a deletion the table after the call is a
    function of the table before and of the result.  `mem` is the arena or the queue node of the
    call, which only the table remembers. -/
inductive Moves (s s' : State) (t : Table) : Event → Table → Prop
  | register {size id : Nat} : s'.bytes = s.bytes → s'.componentSizeArr ≠ null →
      s.curComponentIndex ≤ s'.curComponentIndex →
      (s.componentSizeArr ≠ null → ∀ c < s.curComponentIndex,
        s'.componentSize c = s.componentSize c) → Moves s s' t (.register size id) t
  | create {mem i : Nat} {v : Slot} {comps : List Nat} {r : Except NearStatus Nat} : SameData s s' →
      i < (t.withRow comps i).count → ((t.withRow comps i).row i).comps = comps →
      Filled s mem i ((t.withRow comps i).row i).take.2 comps r v →
      Moves s s' t (.create comps r) ((t.withRow comps i).put i v)
  | refused {h : Nat} : h < 2 ^ 64 → s' = s →
      (∀ a p, ¬ t.AliveAt (ecsDecodeHandle h).1 (ecsDecodeHandle h).2 a p) →
      Moves s s' t (.delete h .invalidHandle) t
  | delete {h i j mem : Nat} {a : Region} {p : List Nat} {st : NearStatus} {r : Row} :
      h < 2 ^ 64 → SameData s s' → ecsDecodeHandle h = (i, j) → t.AliveAt i j a p →
      Deleted (t.row i) j mem st r → Moves s s' t (.delete h st) (t.setRow i r)
  | add {h c : Nat} {data : Nat → UInt8} {st : NearStatus} : h < 2 ^ 64 →
      s.ecsAddComponentDataToEntity h c data = (s', st) → Moves s s' t (.add h c data st) t

variable {s s' : State} {own : Nat → Option Owner} {t t' : Table} {i j i' j' : Nat} {e : Event}

/-! ## Slots that are alive -/

section alive

variable {a : Region} {p : List Nat} {v : Slot} {comps : List Nat}

/-- A new row has no entities. -/
theorem withRow_alive (comps : List Nat) (i : Nat) :
    (t.withRow comps i).AliveAt i' j' a p ↔ t.AliveAt i' j' a p := by
  rw [Table.withRow]
  by_cases hi : i < t.count
  · rw [if_pos hi]
  · rw [if_neg hi]
    constructor
    · rintro ⟨hrow, hindex, hslot⟩
      by_cases hc : i' = t.count
      · rw [hc] at hindex
        rw [show (t.addRow comps).row t.count = ⟨comps, 0, [], fun _ => .lost⟩ from upd_same] at hindex
        exact absurd hindex (Nat.not_lt_zero _)
      · rw [show (t.addRow comps).row i' = t.row i' from upd_other hc] at hindex hslot
        have hrow : i' < t.count + 1 := hrow
        exact ⟨by omega, hindex, hslot⟩
    · rintro ⟨hrow, hindex, hslot⟩
      have hrow' : (t.addRow comps).row i' = t.row i' := upd_other (Nat.ne_of_lt hrow)
      exact ⟨Nat.lt_succ_of_lt hrow, by rw [hrow']; exact hindex, by rw [hrow']; exact hslot⟩

/-- What is alive after a slot was used: the entity in it, and what was alive.  Read backwards: a
    creation brings nobody to life but its own entity. -/
theorem put_alive_of (h : (t.put i v).AliveAt i' j' a p) :
    ((i', j') = (i, (t.row i).take.2) ∧ v = .alive a p) ∨ t.AliveAt i' j' a p := by
  obtain ⟨hrow, hindex, hslot⟩ := h
  by_cases hi : i' = i
  · subst hi
    rw [Table.put] at hindex hslot
    rw [Table.row_setRow] at hindex hslot
    have hslot' : upd (t.row i').take.1.slot (t.row i').take.2 v j' = .alive a p := hslot
    by_cases hj : j' = (t.row i').take.2
    · subst hj
      rw [upd_same] at hslot'
      exact Or.inl ⟨rfl, hslot'⟩
    · rw [upd_other hj, Row.take_slot, upd_other hj] at hslot'
      refine Or.inr ⟨hrow, ?_, hslot'⟩
      exact Row.lt_of_take hindex hj
  · rw [Table.put] at hindex hslot
    rw [Table.row_setRow_other _ hi] at hindex hslot
    exact Or.inr ⟨hrow, hindex, hslot⟩

/-- When the index does not wrap, the slot used was free and everything that was alive stays.  The
    hypothesis on the index is what `NoWrap` provides.  Without it the slot used could be one that
    is alive, since the counter begins at 0 again. -/
theorem put_alive (hi : i < t.count)
    (hq : ∀ j, j ∈ (t.row i).queue ↔ j < (t.row i).index ∧ ∃ n, (t.row i).slot j = .queued n)
    (hgrow : (t.row i).index ≤ (t.row i).take.1.index) :
    (∀ a p, ¬ t.AliveAt i (t.row i).take.2 a p) ∧
    (∀ a p, v = .alive a p → (t.put i v).AliveAt i (t.row i).take.2 a p) ∧
    ∀ i' j' a p, t.AliveAt i' j' a p → (t.put i v).AliveAt i' j' a p := by
  obtain ⟨hfree, hvisible⟩ := Row.take_spec hq
  have hnone : ∀ a p, ¬ t.AliveAt i (t.row i).take.2 a p := by
    intro a p ha
    obtain ⟨n, hn⟩ := hfree ha.index
    rw [ha.slot] at hn
    cases hn
  have hrow : (t.put i v).row i = (t.row i).take.1.setSlot (t.row i).take.2 v := Table.row_setRow _ _ _
  refine ⟨hnone, fun a p hv => ⟨hi, ?_, ?_⟩, fun i' j' a p ha => ?_⟩
  · rw [hrow]
    exact hvisible hgrow
  · rw [hrow]
    exact upd_same.trans hv
  · by_cases hii : i' = i
    · subst hii
      have hj : j' ≠ (t.row i').take.2 := fun he => hnone a p (he ▸ ha)
      refine ⟨hi, ?_, ?_⟩
      · rw [hrow]
        exact Nat.lt_of_lt_of_le ha.index hgrow
      · rw [hrow]
        show upd (t.row i').take.1.slot (t.row i').take.2 v j' = _
        rw [upd_other hj, Row.take_slot, upd_other hj]
        exact ha.slot
    · have hrow' : (t.put i v).row i' = t.row i' := Table.row_setRow_other _ hii
      exact ⟨ha.row, by rw [hrow']; exact ha.index, by rw [hrow']; exact ha.slot⟩

/-- After a deletion the slot is dead and the others are what they were. -/
theorem deleted_alive {mem : Nat} {st : NearStatus} {r : Row} (hd : Deleted (t.row i) j mem st r) :
    (t.setRow i r).AliveAt i' j' a p ↔ t.AliveAt i' j' a p ∧ (i', j') ≠ (i, j) := by
  -- either way only slot `j` has changed, and nothing is alive there
  have hr : r.index = (t.row i).index ∧ (∀ a p, r.slot j ≠ .alive a p) ∧
      ∀ j', j' ≠ j → r.slot j' = (t.row i).slot j' := by
    cases hd with
    | queued _ =>
      refine ⟨rfl, fun a p h => ?_, fun j' hj => ?_⟩
      · have h : upd (upd (t.row i).slot j .lost) j (.queued mem) j = .alive a p := h
        rw [upd_same] at h
        cases h
      · show upd (upd (t.row i).slot j .lost) j (.queued mem) j' = _
        rw [upd_other hj, upd_other hj]
    | lost _ =>
      refine ⟨rfl, fun a p h => ?_, fun j' hj => upd_other hj⟩
      have h : upd (t.row i).slot j .lost j = .alive a p := h
      rw [upd_same] at h
      cases h
  obtain ⟨hindex, hdead, hother⟩ := hr
  by_cases hi : i' = i
  · subst hi
    by_cases hj : j' = j
    · subst hj
      refine ⟨fun ha => ?_, fun ha => absurd rfl ha.2⟩
      have hslot := ha.slot
      rw [Table.row_setRow] at hslot
      exact absurd hslot (hdead a p)
    · have hne : (i', j') ≠ (i', j) := fun he => hj (Prod.mk.inj he).2
      refine ⟨fun ⟨h1, h2, h3⟩ => ⟨⟨h1, ?_, ?_⟩, hne⟩, fun ⟨⟨h1, h2, h3⟩, _⟩ => ⟨h1, ?_, ?_⟩⟩
      · rw [Table.row_setRow, hindex] at h2
        exact h2
      · rw [Table.row_setRow, hother j' hj] at h3
        exact h3
      · rw [Table.row_setRow, hindex]
        exact h2
      · rw [Table.row_setRow, hother j' hj]
        exact h3
  · have hne : (i', j') ≠ (i, j) := fun he => hi (Prod.mk.inj he).1
    have hrow : (t.setRow i r).row i' = t.row i' := Table.row_setRow_other _ hi
    refine ⟨fun ⟨h1, h2, h3⟩ => ⟨⟨h1, ?_, ?_⟩, hne⟩, fun ⟨⟨h1, h2, h3⟩, _⟩ => ⟨h1, ?_, ?_⟩⟩
    · rw [hrow] at h2; exact h2
    · rw [hrow] at h3; exact h3
    · rw [hrow]; exact h2
    · rw [hrow]; exact h3

end alive

/-! ## One step -/

/-- At the start there is nothing, and an empty table shows it. -/
theorem Shows.start (h : Started s) :
    Shows s (fun _ => none) ⟨0, fun _ => ⟨[], 0, [], fun _ => .lost⟩⟩ where
  good := h.log
  count := h.index
  room := Nat.zero_le _
  array := by rw [h.capacity, h.array]; exact .empty
  row := fun i hi => absurd hi (Nat.not_lt_zero i)
  distinct := fun i hi => absurd hi (Nat.not_lt_zero i)
  sizes := fun h0 => absurd h.sizeArr h0

/-- All slots of the table are of a kind.  The general form of an invariant about slots; `Settled`
    and `Kept` are two of this kind. -/
def Table.All (t : Table) (P : Slot → Prop) : Prop :=
  ∀ i < t.count, ∀ j < (t.row i).index, P ((t.row i).slot j)

section all

variable {P : Slot → Prop}

/-- A slot is used. -/
theorem Table.All.put (h : t.All P) {v : Slot} (hv : P v) : (t.put i v).All P := by
  intro i' hi' j' hj'
  by_cases hii : i' = i
  · subst hii
    have hrow : (t.put i' v).row i' = (t.row i').take.1.setSlot (t.row i').take.2 v :=
      Table.row_setRow _ _ _
    rw [hrow] at hj' ⊢
    show P (upd (t.row i').take.1.slot (t.row i').take.2 v j')
    by_cases hj : j' = (t.row i').take.2
    · rw [hj, upd_same]
      exact hv
    · rw [upd_other hj, Row.take_slot, upd_other hj]
      exact h i' hi' j' (Row.lt_of_take hj' hj)
  · have hrow : (t.put i v).row i' = t.row i' := Table.row_setRow_other _ hii
    rw [hrow] at hj' ⊢
    exact h i' hi' j' hj'

/-- A row without slots is added. -/
theorem Table.All.withRow (h : t.All P) (comps : List Nat) (i : Nat) :
    (t.withRow comps i).All P := by
  rw [Table.withRow]
  split
  · exact h
  · intro i' hi' j' hj'
    by_cases hc : i' = t.count
    · rw [hc, show (t.addRow comps).row t.count = ⟨comps, 0, [], fun _ => .lost⟩ from upd_same] at hj'
      exact absurd hj' (Nat.not_lt_zero _)
    · have hrow : (t.addRow comps).row i' = t.row i' := upd_other hc
      rw [hrow] at hj' ⊢
      have hi' : i' < t.count + 1 := hi'
      exact h i' (by omega) j' hj'

/-- A slot is deleted. -/
theorem Table.All.deleted (h : t.All P) {mem : Nat} {st : NearStatus} {r : Row}
    (hd : Deleted (t.row i) j mem st r) (hj : P (r.slot j)) : (t.setRow i r).All P := by
  intro i' hi' j' hj'
  by_cases hii : i' = i
  · subst hii
    rw [Table.row_setRow] at hj' ⊢
    by_cases hjj : j' = j
    · rw [hjj]
      exact hj
    have hother : r.index = (t.row i').index ∧ r.slot j' = (t.row i').slot j' := by
      cases hd with
      | queued _ => exact ⟨rfl, (upd_other hjj).trans (upd_other hjj)⟩
      | lost _ => exact ⟨rfl, upd_other hjj⟩
    rw [hother.2]
    exact h i' hi' j' (hother.1 ▸ hj')
  · rw [Table.row_setRow_other _ hii] at hj' ⊢
    exact h i' hi' j' hj'

end all

/-- A slot that is used is not left in the hands of `EcsCreateEntity`. -/
theorem Table.Settled.put (h : t.Settled) {v : Slot} (hv : v ≠ .taken) : (t.put i v).Settled :=
  Table.All.put (P := (· ≠ .taken)) h hv

/-- A new row has no slots at all. -/
theorem Table.Settled.withRow (h : t.Settled) (comps : List Nat) (i : Nat) :
    (t.withRow comps i).Settled :=
  Table.All.withRow (P := (· ≠ .taken)) h comps i

/-- What a deleted slot is then. -/
theorem Deleted.slot {r r' : Row} {mem : Nat} {st : NearStatus} (hd : Deleted r j mem st r') :
    r'.slot j = if mem = null then .lost else .queued mem := by
  cases hd with
  | queued hmem =>
    rw [if_neg hmem]
    exact upd_same
  | lost hmem =>
    rw [if_pos hmem]
    exact upd_same

/-- A deletion leaves a slot queued or lost. -/
theorem Table.Settled.deleted (h : t.Settled) {mem : Nat} {st : NearStatus} {r : Row}
    (hd : Deleted (t.row i) j mem st r) : (t.setRow i r).Settled := by
  refine Table.All.deleted (P := (· ≠ .taken)) h hd ?_
  rw [hd.slot]
  split <;> nofun

/-- **What a step does.**  From a state that shows a table, every call goes to a state that shows
    the table it makes of it.  A case for each call: the operations are proved one by one in
    `Ecs.Create` and `Ecs.Use`, and nothing beyond this point looks at a record. -/
theorem step_moves (h : Shows s own t) (hset : t.Settled) (hs : Step s e s') :
    ∃ own' t', Shows s' own' t' ∧ t'.Settled ∧ Moves s s' t e t' := by
  cases hs with
  | register hmem hres hg =>
    obtain ⟨hb, ⟨own', h'⟩, harr, hcur, hsize⟩ := ecsCreateNewComponent_shows h (fun _ => hmem) hres hg
    exact ⟨own', t, h', hset, .register hb harr hcur hsize⟩
  | create _ he hlen hres hg =>
    obtain ⟨hd, own', i, v, hi, hcomps, h', hf, -⟩ :=
      create_cases h (fun _ _ _ _ => he) hlen hres hg
    exact ⟨own', _, h', (hset.withRow _ i).put hf.ne_taken, .create hd hi hcomps hf⟩
  | delete hx hres hg =>
    rcases delete_cases h hset hres hg with
      ⟨hdead, rfl, rfl⟩ | ⟨i, j, a, p, he, ha, hd, own', r, h', hdel⟩
    · exact ⟨own, t, h, hset, .refused hx rfl hdead⟩
    · exact ⟨own', _, h', hset.deleted hdel, .delete hx hd he ha hdel⟩
  | @add _ x c data st hx hres =>
    obtain ⟨bytes, hb⟩ := ecsAdd_withBytes s x c data
    rw [hres] at hb
    obtain rfl : s' = s.withBytes bytes := hb
    exact ⟨own, t, h.withBytes bytes, hset, .add hx hres⟩

/-- Every state of a run shows a table.  So whatever is true of all tables is true of all stores
    that a run reaches. -/
theorem run_shows {s₀ : State} (h0 : Started s₀) {es : List Event} (run : Trace Step s₀ es s) :
    ∃ own t, Shows s own t ∧ t.Settled := by
  refine run.inv (I := fun s => ∃ own t, Shows s own t ∧ t.Settled) ?_ ?_
  · exact ⟨_, _, Shows.start h0, fun i hi => absurd hi (Nat.not_lt_zero i)⟩
  · intro s e s' ⟨own, t, h, hset⟩ hs
    obtain ⟨own', t', h', hset', -⟩ := step_moves h hset hs
    exact ⟨own', t', h', hset'⟩

/-- **Objects never overlap.**  In every state of a run the arrays, arenas and queue nodes in use
    are apart from each other: each kind of record may be kept in a store of its own.  Memory is
    kept by kind in the model, where the machine has one memory: this is why the two agree. -/
theorem objects_apart {s₀ : State} (h0 : Started s₀) {es : List Event} (run : Trace Step s₀ es s) :
    ∃ own t, Shows s own t ∧ ∀ o o' r r', o ≠ o' → Owns s.memLog own o r → Owns s.memLog own o' r' →
      r.Apart r' := by
  obtain ⟨own, t, h, -⟩ := run_shows h0 run
  exact ⟨own, t, h, fun o o' r r' hne ho ho' => ho.apart ho' h.good hne⟩

/-! A concrete run, for the examples below: an entity without components is created, deleted and
    created again. -/

/-- The store at the start, over memory that holds zeros. -/
def startedStore : State :=
  ⟨null, 0, 0, 0, 0, null, 1, fun _ _ => .zero, fun _ _ => .zero, fun _ _ => 0, fun _ => ⟨0, 0⟩,
    fun _ => 0, []⟩

/-- The statics have their initial values. -/
theorem startedStore_started : Started startedStore := ⟨rfl, rfl, rfl, rfl, rfl, trivial⟩

/-- The state after a creation. -/
def State.afterCreate (s : State) (a : Answers) (comps : List Nat) : State :=
  ((s.ecsCreateEntity a (arrayOf comps) comps.length).map Prod.fst).getD s

/-- The state after a creation, from what it returned. -/
theorem afterCreate_eq {a : Answers} {comps : List Nat} {r : Except NearStatus Nat}
    (hres : (s.ecsCreateEntity a (arrayOf comps) comps.length).map (·.2) = some r) :
    s.ecsCreateEntity a (arrayOf comps) comps.length = some (s.afterCreate a comps, r) := by
  obtain ⟨⟨s', r'⟩, hsome, hr⟩ := Option.map_eq_some_iff.mp hres
  obtain rfl : r' = r := hr
  rw [State.afterCreate, hsome]
  rfl

/-- A creation that returned a handle, as a step. -/
theorem step_create {s : State} {a : Answers} {comps : List Nat} {h : Nat}
    (ha : a.archeTypes ≠ null ∧ a.entities ≠ null ∧ comps.length ≤ ecsCompSize)
    (hres : (s.ecsCreateEntity a (arrayOf comps) comps.length).map (·.2.toOption) = some (some h))
    (hg : Good (s.afterCreate a comps).memLog) :
    Step s (.create comps (.ok h)) (s.afterCreate a comps) := by
  obtain ⟨⟨s', r⟩, hsome, hr⟩ := Option.map_eq_some_iff.mp hres
  cases r with
  | error st => cases hr
  | ok h' =>
    obtain rfl : h' = h := Option.some.inj hr
    have hafter := afterCreate_eq (a := a) (r := .ok h') (by rw [hsome]; rfl)
    exact .create ha.1 ha.2.1 ha.2.2 hafter hg

/-- The three states: created in pages at 1 MiB with an arena at 2 MiB, deleted with a queue node
    at 3 MiB, created again with an arena at 4 MiB. -/
def storeWithOne : State := startedStore.afterCreate ⟨0x100000, 0x101000, 0x200000⟩ []

def storeWithNone : State := (storeWithOne.ecsDeleteEntity 0x300000 0).1

def storeWithAnother : State := storeWithNone.afterCreate ⟨0x102000, 0x103000, 0x400000⟩ []

/-- The first creation gives handle 0. -/
theorem storeWithOne_reached :
    Trace Step startedStore [.create [] (.ok 0)] storeWithOne :=
  Trace.start.snoc (step_create (by decide) (by decide) (by decide))

/-- The deletion finds memory for its node. -/
theorem storeWithNone_reached : Step storeWithOne (.delete 0 .success) storeWithNone :=
  .delete (by decide)
    (show storeWithOne.ecsDeleteEntity 0x300000 0 = _ from Prod.ext rfl (by decide)) (by decide)

/-- The store with one registered component, in a page at 4 KiB, then an entity with it, and then the
    slot of that entity in the queue, in a node at 3 MiB. -/
def storeWithSize : State := (startedStore.ecsCreateNewComponent 0x1000 8).1

def storeWithCell : State := storeWithSize.afterCreate ⟨0x100000, 0x101000, 0x200000⟩ [1]

def storeWithFree : State := (storeWithCell.ecsDeleteEntity 0x300000 0).1

/-! ## Handles are valid exactly while their entities live -/

/-- The entities created and not deleted, newest first, each with its handle and the component list
    it was created with.  `EcsDeleteEntity` ends an entity also when it then finds no memory for the
    queue node.  This reads the history from the newest event back, and knows nothing of the store. -/
def live : List Event → List (Nat × List Nat)
  | [] => []
  | .create comps (.ok h) :: es => (h, comps) :: live es
  | .delete h st :: es => if st = .invalidHandle then live es else (live es).filter (·.1 ≠ h)
  | _ :: es => live es

/-- Fewer than `2 ^ 32` archetypes and slots: the `u32` counter of no archetype wraps. -/
structure NoWrap (s s' : State) : Prop where
  count : s'.ataIndex < 2 ^ 32
  index : ∀ i < s.ataIndex, (s.archeType i).index ≤ (s'.archeType i).index

/-- A step with fewer than `2 ^ 32` archetypes and slots. -/
def SmallStep (s : State) (e : Event) (s' : State) : Prop := Step s e s' ∧ NoWrap s s'

/-- The list `L` names the entities that are alive in the table.  A name is a handle below `2 ^ 64`,
    decoded into a row and a slot; the list belonging to it is that of the row, so an entity keeps
    the components it was created with. -/
structure Names (t : Table) (L : List (Nat × List Nat)) : Prop where
  nodup : (L.map Prod.fst).Nodup
  mem : ∀ h comps, (h, comps) ∈ L ↔ h < 2 ^ 64 ∧
    (t.row (ecsDecodeHandle h).1).comps = comps ∧
    ∃ a p, t.AliveAt (ecsDecodeHandle h).1 (ecsDecodeHandle h).2 a p

/-- A handle is on the list when its slot is alive. -/
theorem Names.mem_handles {L : List (Nat × List Nat)} (h : Names t L) (x : Nat) :
    x ∈ L.map Prod.fst ↔ x < 2 ^ 64 ∧
      ∃ a p, t.AliveAt (ecsDecodeHandle x).1 (ecsDecodeHandle x).2 a p := by
  refine ⟨fun hx => ?_, fun ⟨hlt, hal⟩ => ?_⟩
  · obtain ⟨⟨x, comps⟩, hmem, rfl⟩ := List.mem_map.mp hx
    obtain ⟨hlt, -, hal⟩ := (h.mem x comps).mp hmem
    exact ⟨hlt, hal⟩
  · exact List.mem_map.mpr ⟨(x, _), (h.mem x _).mpr ⟨hlt, rfl, hal⟩, rfl⟩

/-- A creation adds the new entity.  Indices below `2 ^ 32` are what makes the new handle decode to
    its own slot. -/
theorem Names.create {L : List (Nat × List Nat)} (h : Names t L) {comps : List Nat} {a : Region}
    {p : List Nat} (hi32 : i < 2 ^ 32) (hj32 : j < 2 ^ 32)
    (hnew : ∀ a p, ¬ t.AliveAt i j a p)
    (halive : ∀ i' j' a' p', t'.AliveAt i' j' a' p' ↔
      ((i', j') = (i, j) ∧ a' = a ∧ p' = p) ∨ t.AliveAt i' j' a' p')
    (hrow : (t'.row i).comps = comps) (hrows : ∀ i' < t.count, (t'.row i').comps = (t.row i').comps) :
    Names t' ((ecsEncodeHandle i j, comps) :: L) := by
  have hdec := decode_encode hi32 hj32
  have hlt : ecsEncodeHandle i j < 2 ^ 64 := by
    rw [ecsEncodeHandle_eq]
    omega
  refine ⟨List.nodup_cons.mpr ⟨fun hin => ?_, h.nodup⟩, fun x c => ?_⟩
  · obtain ⟨-, a', p', ha⟩ := (h.mem_handles _).mp hin
    rw [hdec] at ha
    exact hnew a' p' ha
  · rw [List.mem_cons, h.mem x c]
    refine ⟨fun hx => ?_, fun ⟨hx, hc, a', p', ha⟩ => ?_⟩
    · rcases hx with he | ⟨hx, hc, a', p', ha⟩
      · obtain ⟨rfl, rfl⟩ := Prod.mk.inj he
        rw [hdec]
        exact ⟨hlt, hrow, a, p, (halive i j a p).mpr (Or.inl ⟨rfl, rfl, rfl⟩)⟩
      · exact ⟨hx, (hrows _ ha.row).trans hc, a', p', (halive _ _ a' p').mpr (Or.inr ha)⟩
    · rcases (halive _ _ a' p').mp ha with ⟨he, -, -⟩ | ha
      · have hxe := encode_decode hx
        obtain ⟨h1, h2⟩ := Prod.mk.inj he
        rw [h1] at hc
        rw [h1, h2] at hxe
        exact Or.inl (Prod.ext hxe.symm (hc.symm.trans hrow))
      · exact Or.inr ⟨hx, (hrows _ ha.row).symm.trans hc, a', p', ha⟩

/-- A deletion takes its entity away. -/
theorem Names.delete {L : List (Nat × List Nat)} (h : Names t L) {x : Nat} (hx : x < 2 ^ 64)
    (halive : ∀ i' j' a p, t'.AliveAt i' j' a p ↔
      t.AliveAt i' j' a p ∧ (i', j') ≠ ecsDecodeHandle x)
    (hrows : ∀ i', (t'.row i').comps = (t.row i').comps) :
    Names t' (L.filter (·.1 ≠ x)) := by
  refine ⟨h.nodup.sublist (List.filter_sublist.map _), fun y c => ?_⟩
  rw [List.mem_filter, h.mem y c, hrows]
  have hsame : y < 2 ^ 64 → ((decide (y ≠ x)) = true ↔
      ((ecsDecodeHandle y).1, (ecsDecodeHandle y).2) ≠ ecsDecodeHandle x) := by
    intro hy
    rw [decide_eq_true_iff]
    refine not_congr ⟨fun he => by rw [he], fun he => ?_⟩
    have he : ecsDecodeHandle y = ecsDecodeHandle x := he
    rw [← encode_decode hy, ← encode_decode hx, he]
  refine ⟨fun ⟨⟨hy, hc, a, p, ha⟩, hne⟩ => ⟨hy, hc, a, p, (halive _ _ a p).mpr ⟨ha, (hsame hy).mp hne⟩⟩,
    fun ⟨hy, hc, a, p, ha⟩ => ?_⟩
  obtain ⟨ha, hne⟩ := (halive _ _ a p).mp ha
  exact ⟨⟨hy, hc, a, p, ha⟩, (hsame hy).mpr hne⟩

/-- The entities are the same. -/
theorem Names.congr {L : List (Nat × List Nat)} (h : Names t L)
    (halive : ∀ i' j' a p, t'.AliveAt i' j' a p ↔ t.AliveAt i' j' a p)
    (hrows : ∀ i' < t.count, (t'.row i').comps = (t.row i').comps) : Names t' L := by
  refine ⟨h.nodup, fun x c => (h.mem x c).trans ?_⟩
  refine and_congr_right fun _ => ⟨fun ⟨hc, a, p, ha⟩ => ?_, fun ⟨hc, a, p, ha⟩ => ?_⟩
  · exact ⟨(hrows _ ha.row).trans hc, a, p, (halive _ _ a p).mpr ha⟩
  · have ha' := (halive _ _ a p).mp ha
    exact ⟨(hrows _ ha'.row).symm.trans hc, a, p, ha'⟩

/-- The row an entity is created in is an old one or the next one.  In a row that was there, or in a
    new one behind the last. -/
theorem withRow_cases {comps : List Nat} (hi : i < (t.withRow comps i).count) :
    (i < t.count ∧ t.withRow comps i = t) ∨ (i = t.count ∧ t.withRow comps i = t.addRow comps) := by
  rw [Table.withRow] at hi ⊢
  by_cases hlt : i < t.count
  · rw [if_pos hlt]
    exact Or.inl ⟨hlt, rfl⟩
  · rw [if_neg hlt] at hi ⊢
    have hi : i < t.count + 1 := hi
    exact Or.inr ⟨by omega, rfl⟩

/-- A creation keeps the component lists of the rows there were. -/
theorem put_comps {comps : List Nat} {v : Slot} (hi : i < (t.withRow comps i).count) :
    (((t.withRow comps i).put i v).row i).comps = ((t.withRow comps i).row i).comps ∧
    ∀ i' < t.count, (((t.withRow comps i).put i v).row i').comps = (t.row i').comps := by
  have hrow : ((t.withRow comps i).put i v).row i =
      ((t.withRow comps i).row i).take.1.setSlot ((t.withRow comps i).row i).take.2 v :=
    Table.row_setRow _ _ _
  have hcomps : (((t.withRow comps i).put i v).row i).comps = ((t.withRow comps i).row i).comps := by
    rw [hrow]
    exact Row.take_comps _
  refine ⟨hcomps, fun i' hi' => ?_⟩
  by_cases hii : i' = i
  · rw [hii, hcomps]
    rcases withRow_cases hi with ⟨-, he⟩ | ⟨he, -⟩
    · rw [he]
    · omega
  · rw [show ((t.withRow comps i).put i v).row i' = (t.withRow comps i).row i' from
      Table.row_setRow_other _ hii]
    rcases withRow_cases hi with ⟨-, he⟩ | ⟨-, he⟩
    · rw [he]
    · rw [he]
      exact congrArg Row.comps (upd_other (Nat.ne_of_lt hi'))

/-- The rows there were keep their component lists.  Rows are never removed and never get another
    list; this is the part of a table that only grows. -/
structure Table.Extends (t t' : Table) : Prop where
  count : t.count ≤ t'.count
  comps : ∀ i < t.count, (t'.row i).comps = (t.row i).comps

/-- Nothing happened. -/
theorem Table.Extends.refl (t : Table) : t.Extends t := ⟨Nat.le_refl _, fun _ _ => rfl⟩

/-- One thing after the other. -/
theorem Table.Extends.trans {t'' : Table} (h : t.Extends t') (h' : t'.Extends t'') :
    t.Extends t'' :=
  ⟨h.count.trans h'.count, fun i hi =>
    (h'.comps i (Nat.lt_of_lt_of_le hi h.count)).trans (h.comps i hi)⟩

/-- A row that is added is behind those there were. -/
theorem Table.extends_withRow (t : Table) (comps : List Nat) (i : Nat) :
    t.Extends (t.withRow comps i) := by
  rw [Table.withRow]
  split
  · exact .refl t
  · constructor
    · exact Nat.le_succ _
    · intro i' hi'
      exact congrArg Row.comps (upd_other (Nat.ne_of_lt hi'))

/-- No call changes the list of a row. -/
theorem moves_extends (hm : Moves s s' t e t') : t.Extends t' := by
  cases hm with
  | register => exact .refl t
  | refused => exact .refl t
  | add => exact .refl t
  | create _ hi _ _ => exact ⟨(t.extends_withRow _ _).count, (put_comps hi).2⟩
  | @delete h i j mem a p st r _ _ _ _ hd =>
    constructor
    · exact Nat.le_refl _
    · intro i' _
      rcases eq_or_ne i' i with rfl | hne
      · rw [Table.row_setRow]
        cases hd <;> rfl
      · rw [Table.row_setRow_other _ hne]

/-- The queue of the row an entity is created in, and its index when it does not wrap. -/
theorem create_row (h : Shows s own t) {own' : Nat → Option Owner} {comps : List Nat} {v : Slot}
    (hi : i < (t.withRow comps i).count) (h' : Shows s' own' ((t.withRow comps i).put i v))
    (hw : NoWrap s s') :
    (∀ j, j ∈ ((t.withRow comps i).row i).queue ↔ j < ((t.withRow comps i).row i).index ∧
      ∃ n, ((t.withRow comps i).row i).slot j = .queued n) ∧
    ((t.withRow comps i).row i).index ≤ ((t.withRow comps i).row i).take.1.index := by
  rcases withRow_cases hi with ⟨hlt, he⟩ | ⟨hc, he⟩
  · have hindex := hw.index i (by rw [h.count]; exact hlt)
    rw [(h.row i hlt).index, (h'.row i hi).index] at hindex
    rw [show ((t.withRow comps i).put i v).row i =
      ((t.withRow comps i).row i).take.1.setSlot ((t.withRow comps i).row i).take.2 v from
        Table.row_setRow _ _ _] at hindex
    rw [he] at hindex ⊢
    exact ⟨(h.row i hlt).mem_queue, hindex⟩
  · rw [he, hc, show (t.addRow comps).row t.count = ⟨comps, 0, [], fun _ => .lost⟩ from upd_same]
    exact ⟨fun j => ⟨nofun, fun hj => absurd hj.1 (Nat.not_lt_zero j)⟩, Nat.zero_le _⟩

/-- A step keeps the list of live entities true.  A creation names a slot that was not alive, so the
    handle it returns is none of those on the list; a deletion takes exactly one name away; the
    others change nothing. -/
theorem names_step (h : Shows s own t) (hset : t.Settled) {es : List Event}
    (hn : Names t (live es)) (hs : SmallStep s e s') :
    ∃ own' t', Shows s' own' t' ∧ t'.Settled ∧ Names t' (live (e :: es)) ∧ Moves s s' t e t' := by
  obtain ⟨hs, hw⟩ := hs
  obtain ⟨own', t', h', hset', hm⟩ := step_moves h hset hs
  refine ⟨own', t', h', hset', ?_, hm⟩
  cases hm with
  -- exact hn => these leave the rows alone
  | register => exact hn
  | add => exact hn
  -- => a deletion that is refused ends no name
  | refused =>
    rw [show live (.delete _ .invalidHandle :: es) = live es from if_pos rfl]
    exact hn
  | @delete x i j mem a p st r hx hd he ha hdel =>
    -- a deletion that is not ends the name of its handle
    have hst : st ≠ .invalidHandle := by
      cases hdel <;> nofun
    rw [show live (.delete x st :: es) = (live es).filter (·.1 ≠ x) from if_neg hst]
    refine hn.delete hx (fun i' j' a' p' => ?_) fun i' => ?_
    · rw [deleted_alive hdel, he]
    · by_cases hii : i' = i
      · subst hii
        rw [Table.row_setRow]
        cases hdel <;> rfl
      · rw [Table.row_setRow_other _ hii]
  | @create mem i v comps r hd hi hcomps hf =>
    -- a creation makes one, if the slot was filled
    obtain ⟨hq, hgrow⟩ := create_row h hi h' hw
    obtain ⟨hnone, hmade, hstay⟩ := put_alive (v := v) hi hq hgrow
    obtain ⟨hsame, hrows⟩ := put_comps (v := v) hi
    cases hf with
    | made h0 =>
      have hcount : (t.withRow comps i).count < 2 ^ 32 := by
        have := hw.count
        rw [h'.count] at this
        exact this
      have hj := (hmade _ _ rfl).index
      have hlt := (h'.row i hi).index_lt
      refine hn.create (a := s.arenaFor mem comps) (p := s.pointersFor mem comps)
        (Nat.lt_trans hi hcount) (Nat.lt_trans hj hlt)
        (fun a p ha => hnone a p ((withRow_alive comps i).mpr ha)) (fun i' j' a' p' => ?_)
        (hsame.trans hcomps) hrows
      refine ⟨fun ha => ?_, fun ha => ?_⟩
      · rcases put_alive_of ha with ⟨he, hv⟩ | ha
        · obtain ⟨rfl, rfl⟩ := Slot.alive.inj hv
          exact Or.inl ⟨he, rfl, rfl⟩
        · exact Or.inr ((withRow_alive comps i).mp ha)
      · rcases ha with ⟨he, rfl, rfl⟩ | ha
        · obtain ⟨rfl, rfl⟩ := Prod.mk.inj he
          exact hmade _ _ rfl
        · exact hstay _ _ _ _ ((withRow_alive comps i).mpr ha)
    | failed =>
      -- a slot that is lost is nobody's
      refine hn.congr (fun i' j' a' p' => ⟨fun ha => ?_, fun ha => ?_⟩) hrows
      · rcases put_alive_of ha with ⟨-, hv⟩ | ha
        · cases hv
        · exact (withRow_alive comps i).mp ha
      · exact hstay _ _ _ _ ((withRow_alive comps i).mpr ha)

/-- The history and the table agree in every state of a run. -/
theorem run_names {s₀ : State} (h0 : Started s₀) {es : List Event}
    (run : Trace SmallStep s₀ es s) :
    ∃ own t, Shows s own t ∧ t.Settled ∧ Names t (live es) := by
  refine run.history_inv (I := fun es s => ∃ own t, Shows s own t ∧ t.Settled ∧ Names t (live es))
    ?_ ?_
  · refine ⟨_, _, Shows.start h0, fun i hi => absurd hi (Nat.not_lt_zero i), List.nodup_nil,
      fun x c => ⟨nofun, fun ⟨_, _, a, p, ha⟩ => absurd ha.row (Nat.not_lt_zero _)⟩⟩
  · intro es s e s' _ ⟨own, t, h, hset, hn⟩ hs
    obtain ⟨own', t', h', hset', hn', -⟩ := names_step h hset hn hs
    exact ⟨own', t', h', hset', hn'⟩

/-- A record that is read exists, and lies in pages that are held.  The second part is about memory:
    the bytes of the record lie in a run that is held. -/
def Access.Exists (s : State) (acc : Access) : Prop :=
  (match acc with
    | .archeType i => i < s.ataIndex
    | .entity i j => i < s.ataIndex ∧ j < (s.archeType i).index) ∧
  ∃ run ∈ held s.memLog, (acc.region s).Within run

/-- A record below the capacity lies in the pages of the array. -/
theorem ArrayIs.within {log : List AllocCall} {o : Owner} {sizeof cap base pages : Nat}
    (h : ArrayIs log own o sizeof cap base pages) (hi : i < cap) :
    ∃ run ∈ held log, (Region.mk (base + i * sizeof) sizeof).Within run := by
  cases h with
  | empty => exact absurd hi (Nat.not_lt_zero i)
  | grown k _ hle hown =>
    refine ⟨_, hown.held, Nat.le_add_right _ _, ?_⟩
    have hend : (i + 1) * sizeof ≤ pages * pageSize := (Nat.mul_le_mul_right sizeof hi).trans hle
    rw [Nat.succ_mul] at hend
    show base + i * sizeof + sizeof ≤ base + pages * pageSize
    omega

/-- `EcsGetEntity` reads existing records only.  The function tests the archetype index and then the
    slot index before it reads. -/
theorem reads_exist (h : Shows s own t) (x : Nat) : ∀ acc ∈ s.ecsGetEntityReads x, acc.Exists s := by
  have harche : ∀ i, i < s.ataIndex → (Access.archeType i).Exists s := by
    intro i hi
    refine ⟨hi, h.array.within (Nat.lt_of_lt_of_le hi ?_)⟩
    rw [h.count]
    exact h.room
  unfold State.ecsGetEntityReads
  dsimp only
  generalize (ecsDecodeHandle x).1 = i, (ecsDecodeHandle x).2 = j
  by_cases hi : s.ataIndex ≤ i
  · rw [if_pos hi]
    nofun
  · rw [if_neg hi]
    have hi : i < s.ataIndex := Nat.lt_of_not_le hi
    by_cases hj : (s.archeType i).index ≤ j
    · rw [if_pos hj]
      intro acc hacc
      rw [List.mem_singleton.mp hacc]
      exact harche i hi
    · rw [if_neg hj]
      have hj : j < (s.archeType i).index := Nat.lt_of_not_le hj
      intro acc hacc
      rcases List.mem_cons.mp hacc with rfl | hacc
      · exact harche i hi
      · rw [List.mem_singleton.mp hacc]
        have hrow := h.row i (by rw [← h.count]; exact hi)
        refine ⟨⟨hi, hj⟩, hrow.array.within (Nat.lt_of_lt_of_le hj ?_)⟩
        rw [hrow.index]
        exact hrow.room

/-- **Handles are valid.**  In every state of every run with fewer than `2 ^ 32` archetypes and
    slots, the live entities have different handles, and for every 64-bit value `EcsGetEntity` reads
    existing records only and succeeds exactly on the handles of live entities, where the entity has
    the component list it was created with; `EcsDeleteEntity` refuses any other value and changes
    nothing.  The hypotheses are that every step has its arrays and that no counter wraps.  Both are
    necessary: `failed_creation_loses_entities` and `handles_run_out` are what happens else.  The
    crux is `Names`, by which the history and the table name the same slots; that a handle is a slot
    then settles everything. -/
theorem handles_valid {s₀ : State} (h0 : Started s₀) {es : List Event}
    (run : Trace SmallStep s₀ es s) :
    ((live es).map Prod.fst).Nodup ∧ ∀ h < 2 ^ 64,
      (∀ acc ∈ s.ecsGetEntityReads h, acc.Exists s) ∧
      ((∃ ij, s.ecsGetEntity h = .ok ij) ↔ h ∈ (live es).map Prod.fst) ∧
      (∀ comps, (h, comps) ∈ live es → ∃ i j, s.ecsGetEntity h = .ok (i, j) ∧
        listOf (s.entity i j).componentTypes (s.entity i j).componentAmount = comps) ∧
      (h ∉ (live es).map Prod.fst → ∀ mem, s.ecsDeleteEntity mem h = (s, .invalidHandle)) := by
  obtain ⟨own, t, hsh, hset, hn⟩ := run_names h0 run
  refine ⟨hn.nodup, fun h hh => ⟨reads_exist hsh h, ?_, fun comps hmem => ?_, fun hnot mem => ?_⟩⟩
  · rw [hn.mem_handles]
    refine ⟨fun ⟨ij, hget⟩ => ⟨hh, ?_⟩,
      fun ⟨_, hal⟩ => ⟨_, (ecsGetEntity_iff hsh hset h).mpr ⟨rfl, hal⟩⟩⟩
    obtain ⟨he, hal⟩ := (ecsGetEntity_iff (i := ij.1) (j := ij.2) hsh hset h).mp hget
    rw [he]
    exact hal
  · obtain ⟨-, hc, a, p, ha⟩ := (hn.mem h comps).mp hmem
    exact ⟨_, _, (ecsGetEntity_iff hsh hset h).mpr ⟨rfl, a, p, ha⟩, (hsh.alive ha).2.1.trans hc⟩
  · have hnone := resolve_none hsh hset fun a p ha =>
      hnot ((hn.mem_handles h).mpr ⟨hh, a, p, ha⟩)
    rw [State.ecsDeleteEntity]
    rw [hnone]

/-- An entity with a component is created, deleted, and created again in the same slot: 0 is the only
    handle, of the second one. -/
theorem handles_valid_first : ∃ s, Trace SmallStep startedStore
      [.create [1] (.ok 0), .delete 0 .success, .create [1] (.ok 0), .register 8 1] s ∧
    (∃ ij, s.ecsGetEntity 0 = .ok ij) ∧ ∀ mem, s.ecsDeleteEntity mem 1 = (s, .invalidHandle) := by
  have h1 : Step startedStore (.register 8 1) storeWithSize :=
    .register (show 0x1000 ≠ null by decide) (Prod.ext rfl (by decide)) (by decide)
  have h2 : Step storeWithSize (.create [1] (.ok 0)) storeWithCell :=
    step_create (by decide) (by decide) (by decide)
  have h3 : Step storeWithCell (.delete 0 .success) storeWithFree :=
    .delete (by decide)
      (show storeWithCell.ecsDeleteEntity 0x300000 0 = _ from Prod.ext rfl (by decide)) (by decide)
  have h4 : Step storeWithFree (.create [1] (.ok 0))
      (storeWithFree.afterCreate ⟨0x102000, 0x103000, 0x400000⟩ [1]) :=
    step_create (by decide) (by decide) (by decide)
  have run : Trace SmallStep startedStore _ _ :=
    (((Trace.start.snoc ⟨h1, by decide, by decide⟩).snoc ⟨h2, by decide, by decide⟩).snoc
      ⟨h3, by decide, by decide⟩).snoc ⟨h4, by decide, by decide⟩
  obtain ⟨-, hall⟩ := handles_valid startedStore_started run
  obtain ⟨-, hget, -, -⟩ := hall 0 (by decide)
  obtain ⟨-, -, -, hdel⟩ := hall 1 (by decide)
  exact ⟨_, run, hget.mpr (by decide), hdel (by decide)⟩

/-! ## Handles of deleted entities -/

/-- The value names no entity that is alive.  It may name a slot that is free or lost, or one that
    is not there. -/
def Table.Dead (t : Table) (x : Nat) : Prop :=
  ∀ a p, ¬ t.AliveAt (ecsDecodeHandle x).1 (ecsDecodeHandle x).2 a p

/-- A value that names no entity names one only after it was given out.  This needs no bound on the
    counters, as it does not ask which slot is taken. -/
theorem dead_step (h : Shows s own t) (hset : t.Settled) {x : Nat} (hx : x < 2 ^ 64)
    (hdead : t.Dead x) (hs : Step s e s') (hnot : ∀ comps, e ≠ .create comps (.ok x)) :
    ∃ own' t', Shows s' own' t' ∧ t'.Settled ∧ t'.Dead x := by
  obtain ⟨own', t', h', hset', hm⟩ := step_moves h hset hs
  refine ⟨own', t', h', hset', ?_⟩
  cases hm with
  | register => exact hdead
  | add => exact hdead
  | refused => exact hdead
  | delete _ _ _ _ hdel =>
    intro a p ha
    exact hdead a p ((deleted_alive hdel).mp ha).1
  | @create mem i v comps r _ _ _ hf =>
    intro a p ha
    rcases put_alive_of ha with ⟨he, hv⟩ | ha
    · cases hf with
      | made _ =>
        obtain ⟨h1, h2⟩ := Prod.mk.inj he
        have hback := encode_decode hx
        rw [h1, h2] at hback
        exact hnot comps (by rw [hback])
      | failed => cases hv
    · exact hdead a p ((withRow_alive _ _).mp ha)

/-- **Stale handles stay dead.**  In every run, after `EcsDeleteEntity(h)` has succeeded no call
    succeeds on `h` until `EcsCreateEntity` returns `h` again.

    A handle is the number of a slot and has no generation: a store that never creates in this slot
    again keeps the handle dead for ever, and one that does returns the very same value
    (`handle_comes_back`).  No bound on the number of slots is needed, for a handle that names no
    entity can only come back as the answer of a creation (`dead_step`). -/
theorem stale_handles_stay_dead {s₀ s₁ s₂ s₃ : State} (h0 : Started s₀) {es₁ es₂ : List Event}
    (run₁ : Trace Step s₀ es₁ s₁) {h : Nat} (hdel : Step s₁ (.delete h .success) s₂)
    (run₂ : Trace Step s₂ es₂ s₃) (hnot : ∀ comps, .create comps (.ok h) ∉ es₂) :
    (∀ ij, s₃.ecsGetEntity h ≠ .ok ij) ∧ (∀ c q, s₃.ecsGetComponent h c ≠ .ok q) ∧
    (∀ c data, s₃.ecsAddComponentDataToEntity h c data = (s₃, .invalidHandle)) ∧
    ∀ mem, s₃.ecsDeleteEntity mem h = (s₃, .invalidHandle) := by
  obtain ⟨own₁, t₁, h₁, hset₁⟩ := run_shows h0 run₁
  -- the deletion makes it dead
  have hstart : h < 2 ^ 64 ∧ ∃ own t, Shows s₂ own t ∧ t.Settled ∧ t.Dead h := by
    obtain ⟨own', t', h', hset', hm⟩ := step_moves h₁ hset₁ hdel
    cases hm with
    | delete hx _ he _ hd =>
      refine ⟨hx, own', _, h', hset', fun a p ha => ((deleted_alive hd).mp ha).2 ?_⟩
      rw [he]
  obtain ⟨hx, hstart⟩ := hstart
  -- and the rest of the run leaves it so
  have hrun : ∀ {es s}, Trace Step s₂ es s → (∀ comps, .create comps (.ok h) ∉ es) →
      ∃ own t, Shows s own t ∧ t.Settled ∧ t.Dead h := by
    intro es s run
    induction run with
    | start => exact fun _ => hstart
    | @snoc es s s' e _ hs ih =>
      intro hno
      obtain ⟨own, t, hsh, hset, hdead⟩ := ih fun comps hin => hno comps (List.mem_cons_of_mem _ hin)
      exact dead_step hsh hset hx hdead hs fun comps he => hno comps (he ▸ List.mem_cons_self)
  obtain ⟨own, t, hsh, hset, hdead⟩ := hrun run₂ hnot
  have hnone := resolve_none hsh hset hdead
  refine ⟨fun ij hget => ?_, fun c q hget => ?_, fun c data => ?_, fun mem => ?_⟩
  · obtain ⟨he, a, p, ha⟩ := (ecsGetEntity_iff (i := ij.1) (j := ij.2) hsh hset h).mp hget
    have := hdead a p
    rw [he] at this
    exact this ha
  · rw [State.ecsGetComponent] at hget
    rw [hnone] at hget
    cases hget
  · rw [State.ecsAddComponentDataToEntity]
    rw [hnone]
  · rw [State.ecsDeleteEntity]
    rw [hnone]

/-- After the deletion the handle is dead. -/
theorem stale_handles_stay_dead_first :
    (∀ ij, storeWithNone.ecsGetEntity 0 ≠ .ok ij) ∧
    ∀ mem, storeWithNone.ecsDeleteEntity mem 0 = (storeWithNone, .invalidHandle) := by
  obtain ⟨hget, -, -, hdel⟩ := stale_handles_stay_dead startedStore_started storeWithOne_reached
    storeWithNone_reached Trace.start fun _ => List.not_mem_nil
  exact ⟨hget, hdel⟩

/-- **A handle comes back.**  The handle 0 is given out, its entity is deleted with success, and the
    next creation returns 0 again: `EcsGetEntity(0)` succeeds after the deletion, and two creations
    of one run return the same handle. -/
theorem handle_comes_back : ∃ s₀ s₁ s₂ s₃, Started s₀ ∧
    Trace Step s₀ [.create [] (.ok 0)] s₁ ∧ Step s₁ (.delete 0 .success) s₂ ∧
    Trace Step s₂ [.create [] (.ok 0)] s₃ ∧ s₃.ecsGetEntity 0 = .ok (0, 0) :=
  ⟨_, _, _, storeWithAnother, startedStore_started, storeWithOne_reached, storeWithNone_reached,
    Trace.start.snoc (step_create (by decide) (by decide) (by decide)), rfl⟩

end Nearlands.Ecs

/-
  Archetypes keep their index.

  A run of `EcsGetArcheType` and `EcsCreateEntity` is a history of questions, each a component list
  with the index that was answered; `EcsCreateEntity` asks through `EcsGetArcheType`.  In the table
  an index is a row and rows are only added, each with a list no other row has.  So two questions
  have the same answer exactly when they are the same (`archetype_identity`), however often the
  array moved in between.
-/
import Nearlands.Ecs.Runs

namespace Nearlands.Ecs

open Nearlands.Lib Nearlands.Lib.AllocLog

/-- The component list stored in `archeTypeArray[i]`. -/
def State.storedList (s : State) (i : Nat) : List Nat :=
  listOf (s.archeType i).components (s.archeType i).componentAmount

/-- One call.  The label is the component list and the index `EcsGetArcheType` returned for it, when
    the call comes to it.  A question is asked directly, or on the way through `EcsCreateEntity`; in
    both cases the page allocator has granted what it was asked for.  Any other call is `other` and
    asks nothing. -/
inductive Lookup : State → Option (List Nat × Nat) → State → Prop
  | get {s s' : State} {mem i : Nat} {comps : List Nat} : mem ≠ null → comps.length ≤ ecsCompSize →
      s.ecsGetArcheType mem (arrayOf comps) comps.length = some (s', i) → Good s'.memLog →
      Lookup s (some (comps, i)) s'
  | create {s s₁ s' : State} {a : Answers} {i : Nat} {comps : List Nat}
      {r : Except NearStatus Nat} :
      a.archeTypes ≠ null → a.entities ≠ null → comps.length ≤ ecsCompSize →
      s.ecsGetArcheType a.archeTypes (arrayOf comps) comps.length = some (s₁, i) →
      s.ecsCreateEntity a (arrayOf comps) comps.length = some (s', r) → Good s'.memLog →
      Lookup s (some (comps, i)) s'
  | other {s s' : State} {e : Event} : Step s e s' → (∀ comps r, e ≠ .create comps r) →
      Lookup s none s'

variable {s s' : State} {own own' : Nat → Option Owner} {t t' : Table} {e : Event}

/-! ## Answers are rows -/

/-- The stored list is the list of the row. -/
theorem Shows.storedList (h : Shows s own t) {i : Nat} (hi : i < t.count) :
    s.storedList i = (t.row i).comps := (h.row i hi).comps

/-- An answer is the row with the list.  Rows are only added (`Extends`), so what was an answer
    stays one. -/
theorem lookup_step (h : Shows s own t) (hset : t.Settled) {q : Option (List Nat × Nat)}
    (hs : Lookup s q s') :
    ∃ own' t', Shows s' own' t' ∧ t'.Settled ∧ t.Extends t' ∧
      ∀ comps i, q = some (comps, i) → i < t'.count ∧ (t'.row i).comps = comps := by
  cases hs with
  | @get _ mem i comps _ _ hres hg =>
    obtain ⟨-, hi, hcomps, -, own', h'⟩ := ecsGetArcheType_shows h hres hg
    rw [listOf_getD] at hi hcomps h'
    refine ⟨own', _, h', hset.withRow _ _, t.extends_withRow _ _, ?_⟩
    rintro comps' i' he
    obtain ⟨rfl, rfl⟩ := Prod.mk.inj (Option.some.inj he)
    exact ⟨hi, hcomps⟩
  | @create s₁ _ a i comps r _ hent hlen hget hres hg =>
    obtain ⟨-, own', i', v, hi, hcomps, h', hf, s₁', own₁, hget', -⟩ :=
      create_cases h (fun _ _ _ _ => hent) hlen hres hg
    obtain ⟨-, rfl⟩ := Prod.mk.inj (Option.some.inj (hget.symm.trans hget'))
    obtain ⟨hsame, hrows⟩ := put_comps (v := v) hi
    refine ⟨own', _, h', (hset.withRow _ _).put hf.ne_taken,
      ⟨(t.extends_withRow _ _).count, hrows⟩, ?_⟩
    rintro comps' i' he
    obtain ⟨rfl, rfl⟩ := Prod.mk.inj (Option.some.inj he)
    exact ⟨hi, hsame.trans hcomps⟩
  | other hs _ =>
    obtain ⟨own', t', h', hset', hm⟩ := step_moves h hset hs
    exact ⟨own', t', h', hset', moves_extends hm, nofun⟩

/-- All answers so far are rows with the lists that were asked for. -/
theorem run_lookups {s₀ : State} (h0 : Started s₀) {qs : List (Option (List Nat × Nat))}
    (run : Trace Lookup s₀ qs s) :
    ∃ own t, Shows s own t ∧ t.Settled ∧
      ∀ comps i, some (comps, i) ∈ qs → i < t.count ∧ (t.row i).comps = comps := by
  refine run.history_inv (I := fun qs s => ∃ own t, Shows s own t ∧ t.Settled ∧
    ∀ comps i, some (comps, i) ∈ qs → i < t.count ∧ (t.row i).comps = comps) ?_ ?_
  · exact ⟨_, _, Shows.start h0, fun i hi => absurd hi (Nat.not_lt_zero i), nofun⟩
  · rintro qs s q s' - ⟨own, t, h, hset, hall⟩ hs
    obtain ⟨own', t', h', hset', hext, hnew⟩ := lookup_step h hset hs
    refine ⟨own', t', h', hset', ?_⟩
    intro comps i hin
    rcases List.mem_cons.mp hin with he | hin
    · exact hnew comps i he.symm
    · obtain ⟨hi, hcomps⟩ := hall comps i hin
      exact ⟨Nat.lt_of_lt_of_le hi hext.count, (hext.comps i hi).trans hcomps⟩

/-! ## The answer -/

/-- With memory for a larger array `EcsGetArcheType` returns.  Without that memory it panics when
    the array is full, and that is the only way not to return. -/
theorem ecsGetArcheType_total (s : State) {mem : Nat} (hmem : mem ≠ null) (components : Nat → Nat)
    (n : Nat) : ∃ s' i, s.ecsGetArcheType mem components n = some (s', i) := by
  have hgrow : ∃ s₁, s.growArcheTypes mem = some s₁ := by
    rw [State.growArcheTypes, if_neg hmem]
    split <;> exact ⟨_, rfl⟩
  obtain ⟨s₁, hs₁⟩ := hgrow
  rw [State.ecsGetArcheType, hs₁]
  dsimp only
  split
  · exact ⟨_, _, rfl⟩
  · exact ⟨_, _, rfl⟩

/-- **An archetype keeps its index.**  In every run: two questions have the same answer exactly when
    the component lists are equal; an answer is below `ataIndex` and the list stored there is the
    one that was asked for; no call changes a stored list; and `EcsGetArcheType` returns and leaves
    every archetype as it is, also when the array grows.  From right to left of the first part the
    search must find the old row, which it does because it compares whole lists; from left to right
    a row has one list, and never gets another.  That an array which moves is copied whole is in
    `Ecs.Growth`. -/
theorem archetype_identity {s₀ : State} (h0 : Started s₀) {qs : List (Option (List Nat × Nat))}
    (run : Trace Lookup s₀ qs s) :
    (∀ comps i comps' i', some (comps, i) ∈ qs → some (comps', i') ∈ qs →
      (i = i' ↔ comps = comps')) ∧
    (∀ comps i, some (comps, i) ∈ qs → i < s.ataIndex ∧ s.storedList i = comps) ∧
    (∀ q s', Lookup s q s' → s.ataIndex ≤ s'.ataIndex ∧
      ∀ i < s.ataIndex, s'.storedList i = s.storedList i) ∧
    ∀ mem comps, mem ≠ null → comps.length ≤ ecsCompSize →
      ∃ s' i, s.ecsGetArcheType mem (arrayOf comps) comps.length = some (s', i) ∧
        (Good s'.memLog → ∀ i < s.ataIndex, s'.archeType i = s.archeType i) := by
  obtain ⟨own, t, h, hset, hall⟩ := run_lookups h0 run
  have hcount := h.count
  refine ⟨?_, ?_, ?_, ?_⟩
  · intro comps i comps' i' hq hq'
    obtain ⟨hi, hcomps⟩ := hall comps i hq
    obtain ⟨hi', hcomps'⟩ := hall comps' i' hq'
    constructor
    · rintro rfl
      exact hcomps.symm.trans hcomps'
    · rintro rfl
      exact h.distinct i hi i' hi' (hcomps.trans hcomps'.symm)
  · intro comps i hq
    obtain ⟨hi, hcomps⟩ := hall comps i hq
    rw [hcount]
    exact ⟨hi, (h.storedList hi).trans hcomps⟩
  · intro q s' hs
    obtain ⟨own', t', h', -, hext, -⟩ := lookup_step h hset hs
    rw [hcount, h'.count]
    refine ⟨hext.count, fun i hi => ?_⟩
    rw [h.storedList hi, h'.storedList (Nat.lt_of_lt_of_le hi hext.count)]
    exact hext.comps i hi
  · intro mem comps hmem _
    obtain ⟨s', i, hres⟩ := ecsGetArcheType_total s hmem (arrayOf comps) comps.length
    refine ⟨s', i, hres, fun hg => ?_⟩
    obtain ⟨-, -, -, hsame, -⟩ := ecsGetArcheType_shows h hres hg
    rw [hcount]
    exact hsame

/-! Two questions, the first by a creation. -/

/-- The store after `EcsGetArcheType` was asked for an archetype with component 7. -/
def storeWithTwo : State :=
  ((storeWithOne.ecsGetArcheType 0x102000 (arrayOf [7]) 1).map Prod.fst).getD storeWithOne

theorem storeWithTwo_reached :
    Trace Lookup startedStore [some ([7], 1), some ([], 0)] storeWithTwo := by
  have h1 : Lookup startedStore (some ([], 0)) storeWithOne :=
    .create (a := ⟨0x100000, 0x101000, 0x200000⟩) (r := .ok 0) (by decide) (by decide) (by decide)
      rfl rfl (by decide)
  have h2 : Lookup storeWithOne (some ([7], 1)) storeWithTwo :=
    .get (show 0x102000 ≠ null by decide) (by decide) rfl (by decide)
  exact (Trace.start.snoc h1).snoc h2

/-- The two lists are stored at the two answers. -/
theorem archetype_identity_second :
    storeWithTwo.storedList 0 = [] ∧ storeWithTwo.storedList 1 = [7] := by
  obtain ⟨-, hstored, -, -⟩ := archetype_identity startedStore_started storeWithTwo_reached
  exact ⟨(hstored [] 0 (by decide)).2, (hstored [7] 1 (by decide)).2⟩

end Nearlands.Ecs

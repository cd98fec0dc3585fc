/-
  The bounds of the component arrays.

  An entity and an archetype have room for `ECS_COMP_SIZE` components, and `componentSizeArr` has
  entries for the components that were registered.  `EcsCreateEntity` checks neither: it hands its
  amount on in a `u8` and then fills the entity with all of it, and it leaves unregistered components
  out of the sum of sizes but not out of the entity.  What stops the loop is an arena that is full.
  So the accesses stay in bounds exactly when the loop gets no further than ten registered components
  (`create_bounds_iff`).

  The accesses are listed beside the model of the call.  That stored lists are read in bounds is an
  invariant of the array of archetypes alone (`ArcheTypesFit`).
-/
import Nearlands.Ecs.Amounts
import Nearlands.Ecs.Slots

namespace Nearlands.Ecs

open Nearlands.Lib Nearlands.Lib.AllocLog

/-! ## The accesses -/

/-- An access to an entry of a stored component list, of the two arrays of an entity, or of
    `componentSizeArr`.  Accesses through pointers to whole records are the matter of `Access` and
    `handles_valid`. -/
inductive ArrayAccess
  | list (k : Nat)
  | entity (k : Nat)
  | size (c : Nat)
  deriving DecidableEq

/-- The entries of the second list that `EcsCompareComponents` reads in `n` turns from turn `i` on:
    the loop ends at the first difference. -/
def compareReads (component1 component2 : Nat → Nat) : Nat → Nat → List Nat
  | 0, _ => []
  | n + 1, i =>
    i :: if component1 i ≠ component2 i then [] else compareReads component1 component2 n (i + 1)

/-- The entries of stored lists that the loop of `EcsGetArcheType` reads in `n` turns from turn `i`
    on.  Only lists of the same amount are compared at all. -/
def State.findReads (s : State) (components : Nat → Nat) (componentAmount : Nat) :
    Nat → Nat → List Nat
  | 0, _ => []
  | n + 1, i =>
    (if (s.archeType i).componentAmount ≠ componentAmount then []
      else compareReads components (s.archeType i).components componentAmount 0) ++
    if s.isArcheType components componentAmount i then []
    else s.findReads components componentAmount n (i + 1)

/-- The entries of stored lists that `EcsGetArcheType` reads, and those it writes for a new
    archetype, once its array has room. -/
def State.listAccesses (s : State) (components : Nat → Nat) (componentAmount : Nat) : List Nat :=
  s.findReads components componentAmount s.ataIndex 0 ++
  if (s.findArcheType components componentAmount).isSome then [] else List.range componentAmount

/-- The accesses of the loop of `EcsCreateEntity` in `n` turns from turn `i` on.  The entry of the
    entity is written and the size is read before the push can fail, so the last access may be one
    of a component that does not fit. -/
def fillAccesses (sizes components : Nat → Nat) : Nat → Nat → Entity → List ArrayAccess
  | 0, _, _ => []
  | n + 1, i, entity =>
    let pushed := pushComponent sizes components i entity
    .entity i :: .size (components i) ::
      if pushed.2 = null then [] else fillAccesses sizes components n (i + 1) pushed.1

/-- The accesses of the last part of `EcsCreateEntity`. -/
def State.fillSlotAccesses (s : State) (mem : Nat) (components : Nat → Nat)
    (componentAmount : Nat) : List ArrayAccess :=
  let size := s.ecsGetSizeOfAllComponents components componentAmount
  (s.ecsGetSizeOfAllComponentsReads components componentAmount).map .size ++
    fillAccesses s.componentSize components componentAmount 0
      (preparedEntity mem size componentAmount)

/-- The accesses of `EcsCreateEntity(handle, components, componentAmount)`.  The list follows the
    call phase by phase, and ends where the call ends. -/
def State.ecsCreateEntityAccesses (s : State) (a : Answers) (components : Nat → Nat)
    (componentAmount : Nat) : List ArrayAccess :=
  match s.growArcheTypes a.archeTypes with
  | none => []
  | some s₁ =>
    (s₁.listAccesses components (componentAmount % 2 ^ 8)).map .list ++
    match s.ecsGetArcheType a.archeTypes components (componentAmount % 2 ^ 8) with
    | none => []
    | some (s, i) =>
      let grown := s.growEntities a.entities i
      if grown.2 = false then []
      else (grown.1.takeSlot i).1.fillSlotAccesses a.arena components componentAmount

/-! ## The system -/

/-- A call. -/
inductive Call
  | registry (r : RegistryCall)
  | create (a : Answers) (components : Nat → Nat) (componentAmount : Nat)
  | delete (mem handle : Nat)
  | add (handle component : Nat) (data : Nat → UInt8)

/-- The allocators answer with new memory, and the machine has it.  The second part is used where
    sizes in pages are multiplied: what a machine has does not wrap. -/
structure Granting (log : List AllocCall) : Prop where
  good : Good log
  physical : ∀ c ∈ log, PhysicalCall c

/-- A state, with the calls of the registry that led to it, newest first.  The history is kept
    because the bound on the sizes is not in the store: nothing in it says which entries were
    written. -/
structure Ledger where
  state : State
  registry : List RegistryCall

/-- One call, over allocators that may refuse any request.  `KePanic` is the end of a run.  The
    arrays may be refused here, other than in `Step`: a refusal ends the call before it has accessed
    anything. -/
inductive Calls : Ledger → Call → Ledger → Prop
  | registry {s s' : State} {h : List RegistryCall} {r : RegistryCall} : Registers s r s' →
      Calls ⟨s, h⟩ (.registry r) ⟨s', r :: h⟩
  | create {s s' : State} {h : List RegistryCall} {a : Answers} {components : Nat → Nat}
      {componentAmount : Nat} {r : Except NearStatus Nat} :
      s.ecsCreateEntity a components componentAmount = some (s', r) → Granting s'.memLog →
      Calls ⟨s, h⟩ (.create a components componentAmount) ⟨s', h⟩
  | delete {s s' : State} {h : List RegistryCall} {mem x : Nat} {st : NearStatus} :
      s.ecsDeleteEntity mem x = (s', st) → Calls ⟨s, h⟩ (.delete mem x) ⟨s', h⟩
  | add {s s' : State} {h : List RegistryCall} {x c : Nat} {data : Nat → UInt8} {st : NearStatus} :
      s.ecsAddComponentDataToEntity x c data = (s', st) → Calls ⟨s, h⟩ (.add x c data) ⟨s', h⟩

/-- The entry exists, or was filled by `EcsCreateNewComponent`. -/
def ArrayAccess.InBounds (h : List RegistryCall) : ArrayAccess → Prop
  | .list k | .entity k => k < ecsCompSize
  | .size c => givenSize c h ≠ none

/-- At most `ECS_COMP_SIZE` components, all of them registered.  This is what a check at the
    beginning of `EcsCreateEntity` would ask for. -/
def Fit (h : List RegistryCall) (components : Nat → Nat) (componentAmount : Nat) : Prop :=
  componentAmount ≤ ecsCompSize ∧ ∀ i < componentAmount, givenSize (components i) h ≠ none

/-- All accesses of the call are in bounds, and it returns an error for a request that does not fit.
    The two go together: a request that does not fit should be refused, without leaving the arrays
    first. -/
structure State.CreatesInBounds (s : State) (h : List RegistryCall) (a : Answers)
    (components : Nat → Nat) (componentAmount : Nat) : Prop where
  access : ∀ acc ∈ s.ecsCreateEntityAccesses a components componentAmount, acc.InBounds h
  refuse : ∀ s' r, s.ecsCreateEntity a components componentAmount = some (s', r) →
    ¬ Fit h components componentAmount → ∃ st, r = .error st

/-- The page allocator refuses the array of archetypes: the call ends in `KePanic`. -/
def State.Panics (s : State) (a : Answers) : Prop :=
  s.ataCapacity ≤ s.ataIndex ∧ a.archeTypes = null

/-- The page allocator refuses the array of entities, after `EcsGetArcheType` for `n`
    components. -/
def State.Refused (s : State) (a : Answers) (components : Nat → Nat) (n : Nat) : Prop :=
  a.entities = null ∧ ∀ found ∈ s.ecsGetArcheType a.archeTypes components n,
    (found.1.archeType found.2).capacity ≤ (found.1.archeType found.2).index

/-- The loop comes to turn `i`: the components before it fit in the arena.  A condition on sizes and
    on the size of the arena, with nothing of the loop in it. -/
def State.Reaches (s : State) (mem : Nat) (components : Nat → Nat) (componentAmount i : Nat) :
    Prop :=
  ∀ k < i, PushFits s.componentSize components mem
    (s.ecsGetSizeOfAllComponents components componentAmount) k

/-- The allocators answer the call with new memory that the machine has. -/
def State.Answered (s : State) (a : Answers) (components : Nat → Nat) (componentAmount : Nat) :
    Prop :=
  ∀ s' r, s.ecsCreateEntity a components componentAmount = some (s', r) → Granting s'.memLog

/-- The call ends before it has left the arrays.  `EcsGetArcheType` and the sum of sizes have the
    low byte of the amount, the loop has all of it.  Three ways out: a panic; a refused array,
    before any component is looked at; or a loop that ends, for want of arena or of components,
    before the eleventh entry and before one that is not registered. -/
def State.StaysInArrays (s : State) (h : List RegistryCall) (a : Answers) (components : Nat → Nat)
    (componentAmount : Nat) : Prop :=
  s.Panics a ∨ componentAmount % 2 ^ 8 ≤ ecsCompSize ∧
    (s.Refused a components (componentAmount % 2 ^ 8) ∨
      (∀ i < componentAmount % 2 ^ 8, components i < s.curComponentIndex →
        givenSize (components i) h ≠ none) ∧
      ∀ i < componentAmount, s.Reaches a.arena components componentAmount i →
        i < ecsCompSize ∧ givenSize (components i) h ≠ none)

variable {s s' : State} {h : List RegistryCall} {a : Answers} {components : Nat → Nat}
  {componentAmount mem i j n : Nat}

/-- The call is no `EcsCreateEntity` that leaves the arrays. -/
def Ledger.Allows (x : Ledger) : Call → Prop
  | .create a components componentAmount =>
    x.state.StaysInArrays x.registry a components componentAmount
  | .registry _ | .delete _ _ | .add _ _ _ => True

/-- A request that fits stays in the arrays. -/
theorem Fit.stays (hfit : Fit h components componentAmount) (s : State) (a : Answers) :
    s.StaysInArrays h a components componentAmount := by
  have hle : componentAmount % 2 ^ 8 ≤ componentAmount := Nat.mod_le _ _
  exact .inr ⟨hle.trans hfit.1, .inr ⟨fun i hi _ => hfit.2 i (Nat.lt_of_lt_of_le hi hle),
    fun i hi _ => ⟨Nat.lt_of_lt_of_le hi hfit.1, hfit.2 i hi⟩⟩⟩

/-! ## Stored lists -/

/-- A comparison reads below the amount. -/
theorem compareReads_lt (component1 component2 : Nat → Nat) : ∀ (n i : Nat),
    ∀ k ∈ compareReads component1 component2 n i, k < i + n := by
  intro n
  induction n with
  | zero => exact fun i k hk => absurd hk List.not_mem_nil
  | succ n ih =>
    intro i k hk
    rw [compareReads] at hk
    rcases List.mem_cons.mp hk with rfl | hk
    · omega
    · split at hk
      · exact absurd hk List.not_mem_nil
      · have := ih (i + 1) k hk
        omega

/-- Short lists are read in bounds. -/
theorem findReads_lt (components : Nat → Nat) (componentAmount : Nat) : ∀ (n i : Nat),
    (∀ j, i ≤ j → j < i + n → (s.archeType j).componentAmount ≤ ecsCompSize) →
    ∀ k ∈ s.findReads components componentAmount n i, k < ecsCompSize := by
  intro n
  induction n with
  | zero => exact fun i _ k hk => absurd hk List.not_mem_nil
  | succ n ih =>
    intro i hall k hk
    rw [State.findReads] at hk
    rcases List.mem_append.mp hk with hk | hk
    · split at hk
      · exact absurd hk List.not_mem_nil
      · rename_i heq
        have hlt := compareReads_lt components (s.archeType i).components componentAmount 0 k hk
        have hle := hall i (Nat.le_refl i) (by omega)
        omega
    · split at hk
      · exact absurd hk List.not_mem_nil
      · exact ih (i + 1) (fun j hj hjn => hall j (by omega) (by omega)) k hk

/-- **The lists are accessed in bounds** when the amount looked for is small.  The search may end
    before it has read that far; the list that is written for a new archetype is as long as the
    amount. -/
theorem listAccesses_iff (h : ArcheTypesFit s) (components : Nat → Nat) (n : Nat) :
    (∀ k ∈ s.listAccesses components n, k < ecsCompSize) ↔ n ≤ ecsCompSize := by
  have hreads : ∀ k ∈ s.findReads components n s.ataIndex 0, k < ecsCompSize :=
    findReads_lt components n s.ataIndex 0 fun j _ hj => h.amounts j (by omega)
  rw [State.listAccesses]
  cases hfind : s.findArcheType components n with
  | some i =>
    -- an archetype that is found has the same amount
    have hi : i < s.ataIndex := List.mem_range.mp (List.mem_of_find?_eq_some hfind)
    have hamount : (s.archeType i).componentAmount = n := by
      have htest := List.find?_some hfind
      rw [State.isArcheType] at htest
      by_contra hne
      rw [if_pos hne] at htest
      cases htest
    refine iff_of_true (fun k hk => ?_) (hamount ▸ h.amounts i hi)
    rcases List.mem_append.mp hk with hk | hk
    · exact hreads k hk
    · exact absurd hk List.not_mem_nil
  | none =>
    constructor
    · intro hall
      by_contra hlt
      exact absurd (hall ecsCompSize (List.mem_append_right _
        (List.mem_range.mpr (Nat.lt_of_not_le hlt)))) (Nat.lt_irrefl _)
    · intro hn k hk
      rcases List.mem_append.mp hk with hk | hk
      · exact hreads k hk
      · exact Nat.lt_of_lt_of_le (List.mem_range.mp hk) hn

/-! ## The loop -/

/-- **The loop stays in bounds** when every turn it comes to does.  Induction on the turns left,
    with the sum of sizes so far in `Pushing`. -/
theorem fillAccesses_iff {sizes : Nat → Nat} {bytes : Nat}
    (hfits : mem ≠ null → mem + bytes < 2 ^ 64) : ∀ (n i : Nat) (e : Entity),
    Pushing sizes components mem bytes i e →
    ((∀ acc ∈ fillAccesses sizes components n i e, acc.InBounds h) ↔
      ∀ k, i ≤ k → k < i + n → (∀ m, i ≤ m → m < k → PushFits sizes components mem bytes m) →
        k < ecsCompSize ∧ givenSize (components k) h ≠ none) := by
  intro n
  induction n with
  | zero =>
    exact fun i e _ => ⟨fun _ k _ _ => by omega, fun _ _ hacc => absurd hacc List.not_mem_nil⟩
  | succ n ih =>
    intro i e hp
    rw [fillAccesses]
    rw [List.forall_mem_cons, List.forall_mem_cons]
    by_cases hnull : (pushComponent sizes components i e).2 = null
    · rw [if_pos hnull]
      constructor
      · rintro ⟨hentity, hsize, -⟩ k hik hk hreach
        rcases Nat.eq_or_lt_of_le hik with rfl | hik
        · exact ⟨hentity, hsize⟩
        · exact absurd hnull ((hp.push_iff hfits).mpr (hreach i (Nat.le_refl i) hik))
      · intro hall
        obtain ⟨hentity, hsize⟩ := hall i (Nat.le_refl i) (by omega) fun m _ _ => by omega
        exact ⟨hentity, hsize, fun _ hacc => absurd hacc List.not_mem_nil⟩
    · rw [if_neg hnull, ih (i + 1) _ (hp.succ hfits hnull)]
      have hfirst := (hp.push_iff hfits).mp hnull
      constructor
      · rintro ⟨hentity, hsize, hrest⟩ k hik hk hreach
        rcases Nat.eq_or_lt_of_le hik with rfl | hik
        · exact ⟨hentity, hsize⟩
        · exact hrest k hik (by omega) fun m hm hmk => hreach m (by omega) hmk
      · intro hall
        obtain ⟨hentity, hsize⟩ := hall i (Nat.le_refl i) (by omega) fun m _ _ => by omega
        refine ⟨hentity, hsize, fun k hik hk hreach => hall k (by omega) (by omega) ?_⟩
        intro m hm hmk
        rcases Nat.eq_or_lt_of_le hm with rfl | hm
        · exact hfirst
        · exact hreach m hm hmk

/-- The arena asked for is new. -/
theorem fillSlot_memLog (s : State) (mem i j : Nat) (components : Nat → Nat)
    (componentAmount : Nat) :
    (s.fillSlot mem i j components componentAmount).1.memLog =
      .take mem (s.ecsGetSizeOfAllComponents components componentAmount) :: s.memLog := by
  rw [State.fillSlot]
  dsimp only
  split <;> rfl

/-- The accesses for one slot. -/
theorem fillSlotAccesses_iff
    (hg : Good (s.fillSlot mem i j components componentAmount).1.memLog) :
    (∀ acc ∈ s.fillSlotAccesses mem components componentAmount, acc.InBounds h) ↔
      (∀ i < componentAmount % 2 ^ 8, components i < s.curComponentIndex →
        givenSize (components i) h ≠ none) ∧
      ∀ i < componentAmount, s.Reaches mem components componentAmount i →
        i < ecsCompSize ∧ givenSize (components i) h ≠ none := by
  rw [fillSlot_memLog] at hg
  have hloop := fillAccesses_iff (h := h) (fun h0 => (hg.1 h0).fits) componentAmount 0
    (preparedEntity mem (s.ecsGetSizeOfAllComponents components componentAmount)
      componentAmount) (Pushing.start s.componentSize components mem _ componentAmount)
  have hreads : (∀ acc ∈ (s.ecsGetSizeOfAllComponentsReads components
      componentAmount).map ArrayAccess.size, acc.InBounds h) ↔
      ∀ i < componentAmount % 2 ^ 8, components i < s.curComponentIndex →
        givenSize (components i) h ≠ none := by
    rw [List.forall_mem_map, State.ecsGetSizeOfAllComponentsReads]
    constructor
    · intro hall i hi hlt
      exact hall (components i) (List.mem_filterMap.mpr
        ⟨i, List.mem_range.mpr hi, if_neg (Nat.not_le_of_lt hlt)⟩)
    · intro hall c hc
      obtain ⟨i, hi, hread⟩ := List.mem_filterMap.mp hc
      split at hread
      · cases hread
      · rename_i hlt
        obtain rfl := Option.some.inj hread
        exact hall i (List.mem_range.mp hi) (Nat.lt_of_not_le hlt)
  rw [State.fillSlotAccesses, List.forall_mem_append, hreads, hloop]
  refine and_congr_right fun _ => ⟨fun hall i hi hreach => ?_, fun hall k _ hk hreach => ?_⟩
  · exact hall i (Nat.zero_le i) (by omega) fun m _ hm => hreach m hm
  · exact hall k (by omega) fun m hm => hreach m (Nat.zero_le m) hm

/-- When the slot is filled, the loop has come to every turn. -/
theorem fillSlot_reaches {x : Nat}
    (hg : Good (s.fillSlot mem i j components componentAmount).1.memLog)
    (hok : (s.fillSlot mem i j components componentAmount).2 = .ok x) :
    ∀ i ≤ componentAmount, s.Reaches mem components componentAmount i := by
  rw [fillSlot_memLog] at hg
  have hloop := fillComponents_iff (fun h0 => (hg.1 h0).fits) componentAmount 0
    (preparedEntity mem (s.ecsGetSizeOfAllComponents components componentAmount)
      componentAmount) (Pushing.start s.componentSize components mem _ componentAmount)
  have htrue : (fillComponents s.componentSize components componentAmount 0
      (preparedEntity mem (s.ecsGetSizeOfAllComponents components componentAmount)
        componentAmount)).2 = true := by
    refine Bool.eq_true_of_not_eq_false fun hfail => ?_
    rw [State.fillSlot] at hok
    dsimp only at hok
    split at hok
    · cases hok
    · rename_i hne
      exact absurd hfail hne
  exact fun i hi k hk => hloop.mp htrue k (Nat.zero_le k) (by omega)

/-! ## The whole call -/

/-- The panic is the only way in which the growth does not return. -/
theorem growArcheTypes_none : s.growArcheTypes a.archeTypes = none ↔ s.Panics a := by
  rw [State.growArcheTypes, State.Panics]
  by_cases hfull : s.ataCapacity ≤ s.ataIndex
  · rw [if_pos hfull]
    by_cases hmem : a.archeTypes = null
    · exact iff_of_true (if_pos hmem) ⟨hfull, hmem⟩
    · refine iff_of_false (fun hnone => ?_) fun hp => hmem hp.2
      have hnone := (if_neg hmem).symm.trans hnone
      cases hnone
  · rw [if_neg hfull]
    exact iff_of_false (Option.some_ne_none s) fun hp => hfull hp.1

/-- The growth touches neither component data nor the registry. -/
theorem growArcheTypes_sameData (hres : s.growArcheTypes mem = some s') : SameData s s' := by
  rw [State.growArcheTypes] at hres
  split at hres
  · dsimp only at hres
    split at hres
    · cases hres
    · rw [← Option.some.inj hres]
      exact ⟨rfl, rfl, rfl, rfl⟩
  · rw [← Option.some.inj hres]
    exact .refl s

/-- Nor does the search, or the record it adds. -/
theorem ecsGetArcheType_sameData (hres : s.ecsGetArcheType mem components n = some (s', i)) :
    SameData s s' := by
  rw [State.ecsGetArcheType] at hres
  cases hgrow : s.growArcheTypes mem with
  | none => rw [hgrow] at hres; cases hres
  | some s₁ =>
    have hd := growArcheTypes_sameData hgrow
    rw [hgrow] at hres
    dsimp only at hres
    split at hres
    · obtain ⟨rfl, -⟩ := Prod.mk.inj (Option.some.inj hres)
      exact hd
    · obtain ⟨rfl, -⟩ := Prod.mk.inj (Option.some.inj hres)
      exact hd.trans ⟨rfl, rfl, rfl, rfl⟩

/-- Nor does the growth of an array of entities. -/
theorem growEntities_sameData (s : State) (mem i : Nat) : SameData s (s.growEntities mem i).1 := by
  rw [State.growEntities]
  dsimp only
  split
  · split <;> exact ⟨rfl, rfl, rfl, rfl⟩
  · exact .refl s

/-- Nor does the choice of a slot. -/
theorem takeSlot_sameData (s : State) (i : Nat) : SameData s (s.takeSlot i).1 := by
  rw [State.takeSlot]
  dsimp only
  split
  · rw [State.mmFreeGeneralMemory]
    split <;> exact ⟨rfl, rfl, rfl, rfl⟩
  · exact ⟨rfl, rfl, rfl, rfl⟩

/-- The registry is not touched before the slot is filled. -/
theorem taken_sameData {s₁ : State}
    (hget : s.ecsGetArcheType mem components n = some (s₁, i)) (newMemory : Nat) :
    SameData s ((s₁.growEntities newMemory i).1.takeSlot i).1 :=
  ((ecsGetArcheType_sameData hget).trans (growEntities_sameData s₁ newMemory i)).trans
    (takeSlot_sameData _ i)

/-- The growth of the entity array fails when it is needed and refused. -/
theorem growEntities_false : (s.growEntities mem i).2 = false ↔
    mem = null ∧ (s.archeType i).capacity ≤ (s.archeType i).index := by
  rw [State.growEntities]
  by_cases hfull : (s.archeType i).capacity ≤ (s.archeType i).index
  · rw [if_pos hfull]
    by_cases hmem : mem = null
    · exact iff_of_true (congrArg Prod.snd (if_pos hmem)) ⟨hmem, hfull⟩
    · refine iff_of_false (fun hfalse => ?_) fun hp => hmem hp.1
      have htrue := (congrArg Prod.snd (if_neg hmem)).symm.trans hfalse
      cases htrue
  · rw [if_neg hfull]
    exact iff_of_false Bool.true_eq_false.mp fun hp => hfull hp.2

/-- The sum of sizes and the turns of the loop depend on the registry only. -/
theorem SameData.reaches (hd : SameData s s') :
    s'.Reaches mem components componentAmount i ↔ s.Reaches mem components componentAmount i := by
  unfold State.Reaches State.ecsGetSizeOfAllComponents
  rw [show s'.componentSize = s.componentSize from funext hd.componentSize, hd.cur]

/-- `EcsGetArcheType` returns once its array has room. -/
theorem ecsGetArcheType_some {s₁ : State} (hgrow : s.growArcheTypes mem = some s₁)
    (components : Nat → Nat) (n : Nat) :
    ∃ s₂ i, s.ecsGetArcheType mem components n = some (s₂, i) ∧ s₂.memLog = s₁.memLog := by
  rw [State.ecsGetArcheType, hgrow]
  dsimp only
  split <;> exact ⟨_, _, rfl, rfl⟩

/-- The rest of the call, after `EcsGetArcheType`. -/
theorem ecsCreateEntity_eq {s₂ : State}
    (hget : s.ecsGetArcheType a.archeTypes components (componentAmount % 2 ^ 8) = some (s₂, i)) :
    s.ecsCreateEntity a components componentAmount =
      if (s₂.growEntities a.entities i).2 = false then
        some ((s₂.growEntities a.entities i).1, .error .outOfMemory)
      else some (((s₂.growEntities a.entities i).1.takeSlot i).1.fillSlot a.arena i
        ((s₂.growEntities a.entities i).1.takeSlot i).2 components componentAmount) := by
  rw [State.ecsCreateEntity, hget]

/-- The call panics when `EcsGetArcheType` does. -/
theorem ecsCreateEntity_none (hgrow : s.growArcheTypes a.archeTypes = none) :
    s.ecsCreateEntity a components componentAmount = none := by
  rw [State.ecsCreateEntity, State.ecsGetArcheType, hgrow]

/-- The log of `EcsGetArcheType` is a part of that of the call, and the amounts are as it leaves
    them. -/
theorem ecsCreateEntity_rest {s₂ : State} {r : Except NearStatus Nat}
    (hget : s.ecsGetArcheType a.archeTypes components (componentAmount % 2 ^ 8) = some (s₂, i))
    (hres : s.ecsCreateEntity a components componentAmount = some (s', r)) :
    s₂.memLog <:+ s'.memLog ∧ SameAmounts s₂ s' := by
  rw [ecsCreateEntity_eq hget] at hres
  split at hres
  · obtain ⟨rfl, -⟩ := Prod.mk.inj (Option.some.inj hres)
    exact ⟨growEntities_log _ _ _, growEntities_amounts _ _ _⟩
  · rw [← show _ = s' from congrArg Prod.fst (Option.some.inj hres)]
    have hlog := (growEntities_log s₂ a.entities i).trans (takeSlot_log _ i).1
    have hamounts := (growEntities_amounts s₂ a.entities i).trans (takeSlot_amounts _ i)
    exact ⟨hlog.trans (fillSlot_log _ _ _ _ _ _), hamounts.trans (fillSlot_amounts _ _ _ _ _ _)⟩

/-- When the growth of the entity array is needed and refused. -/
theorem refused_iff {s₂ : State} (hget : s.ecsGetArcheType a.archeTypes components n = some (s₂, i)) :
    s.Refused a components n ↔ (s₂.growEntities a.entities i).2 = false := by
  rw [growEntities_false, State.Refused, hget]
  refine and_congr_right fun _ => ⟨fun hall => hall _ rfl, fun hfull found hfound => ?_⟩
  rw [← Option.some.inj hfound]
  exact hfull

/-- **The accesses of one call** are in bounds when it ends before it has left the arrays.  What the
    call does before the loop depends on the low byte of the amount, and the loop on all of it: the
    two halves of `StaysInArrays`. -/
theorem createAccesses_iff (hfit : ArcheTypesFit s) (hlog : s.Answered a components componentAmount) :
    (∀ acc ∈ s.ecsCreateEntityAccesses a components componentAmount, acc.InBounds h) ↔
      s.StaysInArrays h a components componentAmount := by
  cases hgrow : s.growArcheTypes a.archeTypes with
  | none =>
    -- `KePanic`
    refine iff_of_true (fun acc hacc => ?_) (.inl (growArcheTypes_none.mp hgrow))
    rw [State.ecsCreateEntityAccesses, hgrow] at hacc
    cases hacc
  | some s₁ =>
    have hpanic : ¬ s.Panics a := fun hp => by
      rw [growArcheTypes_none.mpr hp] at hgrow
      cases hgrow
    obtain ⟨s₂, i, hget, hsame⟩ := ecsGetArcheType_some hgrow components
      (componentAmount % 2 ^ 8)
    have hphys : ∀ c ∈ s₁.memLog, PhysicalCall c := by
      obtain ⟨⟨s', r⟩, hres⟩ : ∃ x, s.ecsCreateEntity a components componentAmount = some x := by
        rw [ecsCreateEntity_eq hget]
        split <;> exact ⟨_, rfl⟩
      have hpart := (ecsCreateEntity_rest hget hres).1
      rw [hsame] at hpart
      exact fun c hc => (hlog s' r hres).physical c (hpart.subset hc)
    have hlists := listAccesses_iff (growArcheTypes_fit hfit hgrow hphys).1 components
      (componentAmount % 2 ^ 8)
    rw [State.ecsCreateEntityAccesses, hgrow]
    dsimp only
    rw [hget]
    dsimp only
    rw [List.forall_mem_append, List.forall_mem_map, State.StaysInArrays, refused_iff hget,
      or_iff_right hpanic]
    refine and_congr hlists ?_
    by_cases hfail : (s₂.growEntities a.entities i).2 = false
    · rw [if_pos hfail]
      exact iff_of_true (fun _ hacc => absurd hacc List.not_mem_nil) (.inl hfail)
    · rw [if_neg hfail, or_iff_right hfail]
      have hg := (hlog _ _ ((ecsCreateEntity_eq hget).trans (if_neg hfail))).good
      have hd := taken_sameData hget a.entities
      rw [fillSlotAccesses_iff hg, hd.cur]
      exact and_congr_right fun _ => forall₂_congr fun k _ => imp_congr_left hd.reaches

/-- A request that is served has had all its turns, so it fits when they stay in the arrays.  The
    amount is then at most ten, so it was not cut. -/
theorem served_fit (hlog : s.Answered a components componentAmount)
    (hstays : s.StaysInArrays h a components componentAmount) {x : Nat}
    (hres : s.ecsCreateEntity a components componentAmount = some (s', .ok x)) :
    Fit h components componentAmount := by
  have hg := (hlog s' _ hres).good
  cases hgrow : s.growArcheTypes a.archeTypes with
  | none =>
    rw [ecsCreateEntity_none hgrow] at hres
    cases hres
  | some s₁ =>
    obtain ⟨s₂, i, hget, -⟩ := ecsGetArcheType_some hgrow components
      (componentAmount % 2 ^ 8)
    rw [ecsCreateEntity_eq hget] at hres
    by_cases hfail : (s₂.growEntities a.entities i).2 = false
    · rw [if_pos hfail] at hres
      cases Option.some.inj hres
    · rw [if_neg hfail] at hres
      have hfill := Option.some.inj hres
      rw [← show _ = s' from congrArg Prod.fst hfill] at hg
      have hd := taken_sameData hget a.entities
      have hturns := fun k hk => hd.reaches.mp (fillSlot_reaches hg (congrArg Prod.snd hfill) k hk)
      rcases hstays with hp | ⟨-, hr | ⟨-, hall⟩⟩
      · rw [growArcheTypes_none.mpr hp] at hgrow
        cases hgrow
      · exact absurd ((refused_iff hget).mp hr) hfail
      · refine ⟨?_, fun k hk => (hall k hk (hturns k (Nat.le_of_lt hk))).2⟩
        by_contra hlt
        have hlt := Nat.lt_of_not_le hlt
        exact absurd (hall ecsCompSize hlt (hturns ecsCompSize (Nat.le_of_lt hlt))).1
          (Nat.lt_irrefl _)

/-- **One call** is in bounds exactly when it ends before it has left the arrays. -/
theorem createsInBounds_iff (hfit : ArcheTypesFit s) (hlog : s.Answered a components componentAmount) :
    s.CreatesInBounds h a components componentAmount ↔
      s.StaysInArrays h a components componentAmount := by
  have haccess := createAccesses_iff (h := h) hfit hlog
  refine ⟨fun hb => haccess.mp hb.access, fun hstays => ⟨haccess.mpr hstays, ?_⟩⟩
  intro s' r hres hnot
  cases r with
  | error st => exact ⟨st, rfl⟩
  | ok x => exact absurd (served_fit hlog hstays hres) hnot

/-! ## Runs -/

/-- A call that stays in the arrays asks for a short list, or panics. -/
theorem State.StaysInArrays.amount (hstays : s.StaysInArrays h a components componentAmount)
    {r : Except NearStatus Nat}
    (hres : s.ecsCreateEntity a components componentAmount = some (s', r)) :
    componentAmount % 2 ^ 8 ≤ ecsCompSize := by
  rcases hstays with hp | ⟨hle, -⟩
  · rw [ecsCreateEntity_none (growArcheTypes_none.mpr hp)] at hres
    cases hres
  · exact hle

/-- **A creation** with a short list keeps the lists short. -/
theorem create_fit (hfit : ArcheTypesFit s) (hle : componentAmount % 2 ^ 8 ≤ ecsCompSize)
    {r : Except NearStatus Nat}
    (hres : s.ecsCreateEntity a components componentAmount = some (s', r))
    (hphys : ∀ c ∈ s'.memLog, PhysicalCall c) : ArcheTypesFit s' := by
  cases hgrow : s.growArcheTypes a.archeTypes with
  | none =>
    rw [ecsCreateEntity_none hgrow] at hres
    cases hres
  | some s₁ =>
    obtain ⟨s₂, i, hget, -⟩ := ecsGetArcheType_some hgrow components
      (componentAmount % 2 ^ 8)
    obtain ⟨hlog, hamounts⟩ := ecsCreateEntity_rest hget hres
    have hfit₂ := ecsGetArcheType_fit hfit hle hget fun c hc => hphys c (hlog.subset hc)
    exact hfit₂.same hamounts

/-- **One call** that is allowed keeps the lists short. -/
theorem Calls.fit {x y : Ledger} {c : Call} (hfit : ArcheTypesFit x.state) (hc : Calls x c y)
    (hallows : x.Allows c) : ArcheTypesFit y.state := by
  cases hc with
  | registry hr => exact hfit.same (registers_amounts hr)
  | create hres hlog =>
    have hstays : State.StaysInArrays _ _ _ _ _ := hallows
    exact create_fit hfit (hstays.amount hres) hres hlog.physical
  | @delete s _ _ mem x _ hres =>
    have hamounts := ecsDeleteEntity_amounts s mem x
    rw [hres] at hamounts
    exact hfit.same hamounts
  | @add s s' _ x c data _ hres =>
    obtain ⟨bytes, hbytes⟩ := ecsAdd_withBytes s x c data
    rw [hres] at hbytes
    obtain rfl : s' = s.withBytes bytes := hbytes
    exact hfit.same ⟨rfl, rfl, rfl, fun _ => rfl⟩

/-- There are no archetypes at the start. -/
theorem Started.archeTypesFit (h0 : Started s) : ArcheTypesFit s where
  room := by rw [h0.index]; exact Nat.zero_le _
  pages := fun hcap => absurd h0.capacity hcap
  amounts := fun i hi => by
    rw [h0.index] at hi
    exact absurd hi (Nat.not_lt_zero i)

/-- **The bounds of the arrays.**  After a run of calls that all stay in the arrays, with any
    components and any amount, the accesses of `EcsCreateEntity` are in bounds, and it refuses a
    request that does not fit, exactly when it ends before it has left the arrays.  The condition is
    on the arguments, the sizes registered and the answers of the allocators.  The run is needed for
    the lists that are stored: an earlier call with too long a list would have left one that is read
    out of bounds. -/
theorem create_bounds_iff {s₀ : State} (h0 : Started s₀) {es : List Call} {x : Ledger}
    (run : Trace (fun x c y => Calls x c y ∧ x.Allows c) ⟨s₀, []⟩ es x)
    (hlog : x.state.Answered a components componentAmount) :
    x.state.CreatesInBounds x.registry a components componentAmount ↔
      x.state.StaysInArrays x.registry a components componentAmount := by
  have hfit : ArcheTypesFit x.state :=
    run.inv (I := fun x => ArcheTypesFit x.state) h0.archeTypesFit
      fun _ _ _ hfit hc => Calls.fit hfit hc.1 hc.2
  exact createsInBounds_iff hfit hlog

/-- One registered component. -/
theorem create_bounds_one : storeWithSize.CreatesInBounds [.create 8 1]
    ⟨0x100000, 0x101000, 0x200000⟩ (arrayOf [1]) 1 := by
  have hregister : Calls ⟨startedStore, []⟩ (.registry (.create 8 1))
      ⟨storeWithSize, [.create 8 1]⟩ := .registry (.create (Prod.ext rfl (by decide)))
  have hfit : Fit [.create 8 1] (arrayOf [1]) 1 := by
    refine ⟨by decide, fun i hi => ?_⟩
    obtain rfl : i = 0 := Nat.lt_one_iff.mp hi
    decide
  have hlog : storeWithSize.Answered ⟨0x100000, 0x101000, 0x200000⟩ (arrayOf [1]) 1 := by
    intro s' r hres
    have hsome : storeWithSize.ecsCreateEntity ⟨0x100000, 0x101000, 0x200000⟩ (arrayOf [1])
        [1].length = some (storeWithCell, .ok 0) := afterCreate_eq rfl
    obtain ⟨rfl, -⟩ := Prod.mk.inj (Option.some.inj (hsome.symm.trans hres))
    exact ⟨by decide, by decide⟩
  exact (create_bounds_iff startedStore_started (Trace.start.snoc ⟨hregister, trivial⟩) hlog).mpr
    (hfit.stays _ _)

/-- **Accesses past the arrays.**  With one component registered, eleven of it are written past the
    end of the new archetype's list; and a component that is not registered is read from an entry
    of `componentSizeArr` that was never written, and the entity is made. -/
theorem create_out_of_bounds :
    Calls ⟨startedStore, []⟩ (.registry (.create 8 1)) ⟨storeWithSize, [.create 8 1]⟩ ∧
    (.list 10 ∈ storeWithSize.ecsCreateEntityAccesses ⟨0x100000, 0x101000, 0x200000⟩ (fun _ => 1) 11
      ∧ ¬ storeWithSize.CreatesInBounds [.create 8 1] ⟨0x100000, 0x101000, 0x200000⟩ (fun _ => 1)
        11) ∧
    (.size 7 ∈ storeWithSize.ecsCreateEntityAccesses ⟨0x100000, 0x101000, 0x200000⟩ (fun _ => 7) 1
      ∧ (storeWithSize.ecsCreateEntity ⟨0x100000, 0x101000, 0x200000⟩ (fun _ => 7) 1).map (·.2) =
        some (.ok 0)
      ∧ ¬ storeWithSize.CreatesInBounds [.create 8 1] ⟨0x100000, 0x101000, 0x200000⟩ (fun _ => 7)
        1) := by
  have hlist : .list 10 ∈ storeWithSize.ecsCreateEntityAccesses ⟨0x100000, 0x101000, 0x200000⟩
      (fun _ => 1) 11 := by decide
  have hsize : .size 7 ∈ storeWithSize.ecsCreateEntityAccesses ⟨0x100000, 0x101000, 0x200000⟩
      (fun _ => 7) 1 := by decide
  refine ⟨.registry (.create (Prod.ext rfl (by decide))), ⟨hlist, fun hb => ?_⟩, hsize, rfl,
    fun hb => ?_⟩
  · exact absurd (hb.access _ hlist) (Nat.lt_irrefl ecsCompSize)
  · exact hb.access _ hsize rfl

end Nearlands.Ecs

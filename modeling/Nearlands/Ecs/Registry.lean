/-
  The component registry.

  Two calls hand out component numbers from one 16-bit counter.  `EcsCreateNewComponent` stops at
  `MAX_COMPONENT` and writes the size of its component; `EcsGetNewComponentIndex` does neither.  So
  the numbers are apart and in the table exactly as long as `EcsGetNewComponentIndex` is not called
  on a full table, and then `EcsGetSizeOfAllComponents` reads what was written exactly on the lists
  of components that `EcsCreateNewComponent` registered (`registry_iff`).

  The invariant `Recorded` says that all the numbers handed out lie below the counter, and that the
  sizes given are in the table.
-/
import Nearlands.Ecs.Data

namespace Nearlands.Ecs

open Nearlands.Lib

/-! ## The system -/

/-- A call of the registry, with its argument and the number it returned. -/
inductive RegistryCall
  | create (size id : Nat)
  | index (id : Nat)

/-- One call.  The page allocator may refuse.  The other calls of the store do not touch the
    registry. -/
inductive Registers : State → RegistryCall → State → Prop
  | create {s s' : State} {mem size id : Nat} : s.ecsCreateNewComponent mem size = (s', id) →
      Registers s (.create size id) s'
  | index {s s' : State} {id : Nat} : s.ecsGetNewComponentIndex = (s', id) →
      Registers s (.index id) s'

/-- The number a call returned. -/
def RegistryCall.id : RegistryCall → Nat
  | .create _ id => id
  | .index id => id

/-- The numbers handed out; 0 is a failure.  Newest first, as the history is. -/
def handedOut (h : List RegistryCall) : List Nat := (h.map RegistryCall.id).filter (· ≠ 0)

/-- The size that component `c` was registered with.  Component 0 is no component: it is what a
    failed call returns. -/
def givenSize (c : Nat) : List RegistryCall → Option Nat
  | [] => none
  | .create size id :: h => if id ≠ 0 ∧ id = c then some size else givenSize c h
  | .index _ :: h => givenSize c h

/-- The numbers handed out are pairwise distinct, and in the table. -/
structure Numbered (h : List RegistryCall) : Prop where
  nodup : (handedOut h).Nodup
  below : ∀ id ∈ handedOut h, id < maxComponent

/-- The sum for a list is that of the sizes given, and reads entries that were written.  The first
    part is about memory that was written by somebody, the second about the value. -/
structure State.Sums (s : State) (h : List RegistryCall) (ids : List Nat) : Prop where
  reads : ∀ c ∈ s.ecsGetSizeOfAllComponentsReads (arrayOf ids) ids.length,
    c < maxComponent ∧ givenSize c h ≠ none
  sum : s.ecsGetSizeOfAllComponents (arrayOf ids) ids.length =
    w64 (ids.map fun c => (givenSize c h).getD 0).sum

/-- `EcsGetNewComponentIndex` is called while the table has an entry left.  The source has no such
    test, unlike `EcsCreateNewComponent`; this is the condition it would check. -/
def State.Room (s : State) : RegistryCall → Prop
  | .create _ _ => True
  | .index _ => s.curComponentIndex < maxComponent

variable {s s' : State} {h : List RegistryCall} {ids : List Nat}

/-! ## One call -/

/-- **What `EcsCreateNewComponent` does to the registry**: nothing, or it writes the next entry.  A
    refused page leaves the registry as it is, and the next call asks again. -/
theorem ecsCreateNewComponent_cases {mem size id : Nat}
    (hres : s.ecsCreateNewComponent mem size = (s', id)) :
    (id = 0 ∧ s'.curComponentIndex = s.curComponentIndex ∧ (s.componentSizeArr ≠ null →
      s'.componentSizeArr = s.componentSizeArr ∧ s'.sizesAt = s.sizesAt)) ∨
    (id = s.curComponentIndex ∧ id < maxComponent ∧ s'.curComponentIndex = id + 1 ∧
      s'.componentSizeArr ≠ null ∧ s'.componentSize id = size ∧
      (s.componentSizeArr ≠ null → ∀ c, c ≠ id → s'.componentSize c = s.componentSize c)) := by
  -- with an array, only the bound decides
  have hregister : ∀ {s₁ : State}, s₁.componentSizeArr ≠ null →
      s₁.registerComponent size = (s', id) →
      (id = 0 ∧ s' = s₁) ∨ (id = s₁.curComponentIndex ∧ id < maxComponent ∧
        s'.curComponentIndex = id + 1 ∧ s'.componentSizeArr ≠ null ∧ s'.componentSize id = size ∧
        ∀ c, c ≠ id → s'.componentSize c = s₁.componentSize c) := by
    intro s₁ harr hres
    rw [State.registerComponent] at hres
    by_cases hfull : maxComponent ≤ s₁.curComponentIndex
    · rw [if_pos hfull] at hres
      obtain ⟨rfl, rfl⟩ := Prod.mk.inj hres
      exact .inl ⟨rfl, rfl⟩
    · rw [if_neg hfull] at hres
      obtain ⟨rfl, rfl⟩ := Prod.mk.inj hres
      have hlt : s₁.curComponentIndex < 512 := Nat.lt_of_not_le hfull
      refine .inr ⟨rfl, hlt, ?_, harr, ?_, fun c hc => ?_⟩
      · show (s₁.curComponentIndex + 1) % 2 ^ 16 = _
        omega
      · show upd s₁.sizesAt _ (upd _ _ size) s₁.componentSizeArr _ = size
        rw [upd_same, upd_same]
      · show upd s₁.sizesAt _ (upd _ _ size) s₁.componentSizeArr c = _
        rw [upd_same, upd_other hc]
        rfl
  rw [State.ecsCreateNewComponent] at hres
  by_cases h0 : s.componentSizeArr = null
  · rw [if_pos h0] at hres
    by_cases hmem : mem = null
    · replace hres := (if_pos hmem).symm.trans hres
      obtain ⟨rfl, rfl⟩ := Prod.mk.inj hres
      exact .inl ⟨rfl, rfl, fun hne => absurd h0 hne⟩
    · replace hres := (if_neg hmem).symm.trans hres
      rcases hregister hmem hres with ⟨hid, hs⟩ | ⟨hid, hlt, hcur, harr, hsize, -⟩
      · refine .inl ⟨hid, ?_, fun hne => absurd h0 hne⟩
        rw [hs]
        rfl
      · exact .inr ⟨hid, hlt, hcur, harr, hsize, fun hne => absurd h0 hne⟩
  · rw [if_neg h0] at hres
    replace hres := (if_neg h0).symm.trans hres
    rcases hregister h0 hres with ⟨hid, rfl⟩ | ⟨hid, hlt, hcur, harr, hsize, hother⟩
    · exact .inl ⟨hid, rfl, fun _ => ⟨rfl, rfl⟩⟩
    · exact .inr ⟨hid, hlt, hcur, harr, hsize, fun _ => hother⟩

/-- `EcsGetNewComponentIndex` answers the counter. -/
theorem ecsGetNewComponentIndex_eq (hcur : s.curComponentIndex < 2 ^ 16) :
    s.ecsGetNewComponentIndex =
      ({ s with curComponentIndex := (s.curComponentIndex + 1) % 2 ^ 16 },
        s.curComponentIndex) := by
  have hpred : ((s.curComponentIndex + 1) % 2 ^ 16 + (2 ^ 16 - 1)) % 2 ^ 16 = s.curComponentIndex := by
    omega
  exact Prod.ext rfl hpred

/-! ## The invariant -/

/-- The numbers handed out lie below the counter, and the sizes given are in the table.  `pos` and
    `le` keep the counter in the table, so that it never wraps. -/
structure Recorded (h : List RegistryCall) (s : State) : Prop where
  pos : 1 ≤ s.curComponentIndex
  le : s.curComponentIndex ≤ maxComponent
  nodup : (handedOut h).Nodup
  below : ∀ id ∈ handedOut h, id < s.curComponentIndex
  sizes : ∀ c size, givenSize c h = some size →
    s.componentSizeArr ≠ null ∧ s.componentSize c = size

/-- A failure hands out nothing. -/
theorem handedOut_cons (e : RegistryCall) (h : List RegistryCall) :
    handedOut (e :: h) = if e.id = 0 then handedOut h else e.id :: handedOut h := by
  by_cases h0 : e.id = 0 <;> simp [handedOut, h0]

/-- A component that was registered was handed out. -/
theorem givenSize_mem {c : Nat} (hc : givenSize c h ≠ none) : c ∈ handedOut h := by
  induction h with
  | nil => exact absurd rfl hc
  | cons e h ih =>
    have hmem : c ∈ handedOut h → c ∈ handedOut (e :: h) := by
      intro hmem
      rw [handedOut_cons]
      split
      · exact hmem
      · exact List.mem_cons_of_mem _ hmem
    cases e with
    | create size id =>
      rw [givenSize] at hc
      by_cases he : id ≠ 0 ∧ id = c
      · rw [handedOut_cons, RegistryCall.id, if_neg he.1, he.2]
        exact List.mem_cons_self
      · rw [if_neg he] at hc
        exact hmem (ih hc)
    | index id => exact hmem (ih hc)

/-- A call that hands out the number of the counter.  The number is new because all others are below
    the counter. -/
theorem Recorded.next (hi : Recorded h s) {e : RegistryCall} (hid : e.id = s.curComponentIndex)
    (hlt : e.id < maxComponent) (hcur : s'.curComponentIndex = e.id + 1)
    (hsizes : ∀ c size, givenSize c (e :: h) = some size →
      s'.componentSizeArr ≠ null ∧ s'.componentSize c = size) : Recorded (e :: h) s' := by
  have hpos := hi.pos
  have hout : handedOut (e :: h) = e.id :: handedOut h := by
    rw [handedOut_cons, if_neg (by omega)]
  refine ⟨by omega, by omega, ?_, ?_, hsizes⟩
  · rw [hout]
    refine List.nodup_cons.mpr ⟨fun hmem => ?_, hi.nodup⟩
    have := hi.below _ hmem
    omega
  · intro id hmem
    rw [hout] at hmem
    rcases List.mem_cons.mp hmem with rfl | hmem
    · omega
    · have := hi.below id hmem
      omega

/-- **One call**, with room in the table.  The first registered component has the array made; from
    then on the array stays where it is. -/
theorem Recorded.step (hi : Recorded h s) {e : RegistryCall} (hs : Registers s e s')
    (hroom : s.Room e) : Recorded (e :: h) s' := by
  have hle := hi.le
  cases hs with
  | @create _ mem size id hres =>
    rcases ecsCreateNewComponent_cases hres with
      ⟨rfl, hcur, hsame⟩ | ⟨hid, hlt, hcur, harr, hsize, hother⟩
    · have hout : handedOut (.create size 0 :: h) = handedOut h := by
        rw [handedOut_cons]
        rfl
      refine ⟨by rw [hcur]; exact hi.pos, by rw [hcur]; exact hi.le, ?_, ?_, ?_⟩
      · rw [hout]
        exact hi.nodup
      · rw [hout, hcur]
        exact hi.below
      · intro c given hgiven
        rw [givenSize, if_neg fun he => he.1 rfl] at hgiven
        obtain ⟨harr, hsize⟩ := hi.sizes c given hgiven
        obtain ⟨harr', hsizes'⟩ := hsame harr
        rw [State.componentSize, harr', hsizes']
        exact ⟨harr, hsize⟩
    · refine hi.next hid hlt hcur fun c given hgiven => ⟨harr, ?_⟩
      rw [givenSize] at hgiven
      by_cases hc : id ≠ 0 ∧ id = c
      · rw [if_pos hc] at hgiven
        rw [← hc.2, hsize]
        exact Option.some.inj hgiven
      · rw [if_neg hc] at hgiven
        obtain ⟨harr, hsize⟩ := hi.sizes c given hgiven
        have hlt := hi.below c (givenSize_mem (by rw [hgiven]; nofun))
        rw [hother harr c (by omega), hsize]
  | @index _ id hres =>
    have hroom : s.curComponentIndex < 512 := hroom
    rw [ecsGetNewComponentIndex_eq (by omega)] at hres
    obtain ⟨rfl, rfl⟩ := Prod.mk.inj hres
    refine hi.next rfl hroom ?_ fun c given hgiven => hi.sizes c given hgiven
    show (s.curComponentIndex + 1) % 2 ^ 16 = s.curComponentIndex + 1
    omega

/-- At the start no number was handed out. -/
theorem Started.recorded (h : Started s) : Recorded [] s where
  pos := Nat.le_of_eq h.cur.symm
  le := by rw [h.cur]; decide
  nodup := List.nodup_nil
  below := fun _ hmem => absurd hmem List.not_mem_nil
  sizes := fun _ _ hgiven => by cases hgiven

/-- A run with room at every call. -/
@[reducible] def RoomyRun (s₀ : State) (h : List RegistryCall) (s : State) : Prop :=
  Trace (fun s e s' => Registers s e s' ∧ s.Room e) s₀ h s

/-- The invariant along such a run. -/
theorem RoomyRun.recorded {s₀ : State} (h0 : Started s₀) (run : RoomyRun s₀ h s) : Recorded h s :=
  Trace.history_inv h0.recorded (fun _ _ _ _ _ hi hs => hi.step hs.1 hs.2) run

/-! ## The numbers -/

/-- What the invariant says of the numbers. -/
theorem Recorded.numbered (hi : Recorded h s) : Numbered h :=
  ⟨hi.nodup, fun id hid => Nat.lt_of_lt_of_le (hi.below id hid) hi.le⟩

/-- Earlier numbers are among those handed out. -/
theorem Numbered.tail {e : RegistryCall} (hn : Numbered (e :: h)) : Numbered h := by
  have hsub : (handedOut h).Sublist (handedOut (e :: h)) := by
    rw [handedOut_cons]
    split
    · exact List.Sublist.refl _
    · exact List.sublist_cons_self ..
  exact ⟨hn.nodup.sublist hsub, fun id hid => hn.below id (hsub.subset hid)⟩

/-- A run whose numbers are in the table had room at every call.  Induction on the run: the first
    call without room would have handed out a number beyond the table. -/
theorem Numbered.roomy {s₀ : State} (h0 : Started s₀) (run : Trace Registers s₀ h s)
    (hn : Numbered h) : RoomyRun s₀ h s := by
  induction run with
  | start => exact .start
  | @snoc h s s' e run hs ih =>
    have hrun := ih hn.tail
    refine hrun.snoc ⟨hs, ?_⟩
    have hi := hrun.recorded h0
    cases hs with
    | create => exact trivial
    | @index _ id hres =>
      have hpos := hi.pos
      have hle : s.curComponentIndex ≤ 512 := hi.le
      rw [ecsGetNewComponentIndex_eq (by omega)] at hres
      obtain ⟨-, rfl⟩ := Prod.mk.inj hres
      refine hn.below _ ?_
      rw [handedOut_cons, RegistryCall.id, if_neg (by omega)]
      exact List.mem_cons_self

/-! ## The sums -/

/-- The entries read for a list: those of its components below the counter.  The bound on the list
    is that of the `u8`: a longer one is cut. -/
theorem mem_sizeReads (hlen : ids.length < 2 ^ 8) {c : Nat} :
    c ∈ s.ecsGetSizeOfAllComponentsReads (arrayOf ids) ids.length ↔
      c ∈ ids ∧ c < s.curComponentIndex := by
  rw [State.ecsGetSizeOfAllComponentsReads, Nat.mod_eq_of_lt hlen, List.mem_filterMap]
  constructor
  · rintro ⟨i, hi, hread⟩
    split at hread
    · cases hread
    · rename_i hlt
      obtain rfl := Option.some.inj hread
      exact ⟨arrayOf_mem (List.mem_range.mp hi), Nat.lt_of_not_le hlt⟩
  · rintro ⟨hc, hlt⟩
    obtain ⟨i, hi, rfl⟩ := List.mem_iff_getElem.mp hc
    rw [← arrayOf_eq hi] at hlt ⊢
    exact ⟨i, List.mem_range.mpr hi, if_neg (Nat.not_le_of_lt hlt)⟩

/-- The sum for a list of registered components. -/
theorem Recorded.sums (hi : Recorded h s) (hlen : ids.length < 2 ^ 8)
    (hgiven : ∀ c ∈ ids, givenSize c h ≠ none) : s.Sums h ids where
  reads := fun c hc => by
    have hc := hgiven c ((mem_sizeReads hlen).mp hc).1
    exact ⟨hi.numbered.below c (givenSize_mem hc), hc⟩
  sum := by
    have hreg : ∀ k < ids.length, arrayOf ids k < s.curComponentIndex := fun k hk =>
      hi.below _ (givenSize_mem (hgiven _ (arrayOf_mem hk)))
    have hsizes : ∀ c ∈ ids, s.componentSize c = (givenSize c h).getD 0 := by
      intro c hc
      obtain ⟨size, hsize⟩ := Option.ne_none_iff_exists'.mp (hgiven c hc)
      rw [hsize]
      exact (hi.sizes c size hsize).2
    rw [ecsGetSizeOfAllComponents_eq hlen hreg]
    exact congrArg w64 ((offset_length s ids).trans
      (congrArg List.sum (List.map_congr_left hsizes)))

/-- **The registry.**  For any run of the two calls, and any list of numbers below the counter that
    `EcsGetSizeOfAllComponents` can be called with: the numbers handed out are distinct and in the
    table, and the sum for the list is that of the sizes given and reads entries that were written,
    exactly when `EcsGetNewComponentIndex` was never called on a full table and
    `EcsCreateNewComponent` registered every component of the list.

    The amount is a `u8`, so a list has at most 255 entries.  From right to left the invariant
    `Recorded` is carried along the run.  From left to right the first call on a full table shows
    itself by its number, and an entry that nothing wrote is read, as the list is below the
    counter. -/
theorem registry_iff {s₀ : State} (h0 : Started s₀) (run : Trace Registers s₀ h s)
    (hlen : ids.length < 2 ^ 8) (hids : ∀ c ∈ ids, c < s.curComponentIndex) :
    Numbered h ∧ s.Sums h ids ↔
      Trace (fun s e s' => Registers s e s' ∧ s.Room e) s₀ h s ∧
        ∀ c ∈ ids, givenSize c h ≠ none := by
  constructor
  · rintro ⟨hn, hsums⟩
    refine ⟨hn.roomy h0 run, fun c hc => ?_⟩
    exact (hsums.reads c ((mem_sizeReads hlen).mpr ⟨hc, hids c hc⟩)).2
  · rintro ⟨hrun, hgiven⟩
    have hi : Recorded h s := RoomyRun.recorded h0 hrun
    exact ⟨hi.numbered, hi.sums hlen hgiven⟩

/-! ## Two registries -/

/-- A component of 8 bytes, a number without a size, and a component of 24 bytes. -/
def mixedRegistry : State :=
  ((startedStore.ecsCreateNewComponent 0x1000 8).1.ecsGetNewComponentIndex.1.ecsCreateNewComponent
    0 24).1

/-- The two components add up to 32 bytes. -/
theorem registry_mixed :
    Numbered [.create 24 3, .index 2, .create 8 1] ∧
      mixedRegistry.Sums [.create 24 3, .index 2, .create 8 1] [3, 1] := by
  have h1 : Registers startedStore (.create 8 1) (startedStore.ecsCreateNewComponent 0x1000 8).1 :=
    .create (Prod.ext rfl (by decide))
  have h2 : Registers (startedStore.ecsCreateNewComponent 0x1000 8).1 (.index 2)
      (startedStore.ecsCreateNewComponent 0x1000 8).1.ecsGetNewComponentIndex.1 :=
    .index (Prod.ext rfl (by decide))
  have h3 : Registers (startedStore.ecsCreateNewComponent 0x1000 8).1.ecsGetNewComponentIndex.1
      (.create 24 3) mixedRegistry := .create (Prod.ext rfl (by decide))
  have hroom : (startedStore.ecsCreateNewComponent 0x1000 8).1.curComponentIndex < maxComponent := by
    decide
  exact (registry_iff startedStore_started (((Trace.start.snoc h1).snoc h2).snoc h3)
    (by decide) (by decide)).mpr
    ⟨((Trace.start.snoc ⟨h1, trivial⟩).snoc ⟨h2, hroom⟩).snoc ⟨h3, trivial⟩, by decide⟩

/-- `EcsGetNewComponentIndex` counts past the table. -/
theorem index_calls (hcur : s.curComponentIndex = 1) : ∀ n, n < 2 ^ 16 - 1 →
    ∃ h s', Trace Registers s h s' ∧ s'.curComponentIndex = n + 1 ∧
      (n ≠ 0 → n ∈ handedOut h) := by
  intro n
  induction n with
  | zero => exact fun _ => ⟨[], s, .start, hcur, fun h0 => absurd rfl h0⟩
  | succ n ih =>
    intro hn
    obtain ⟨h, s', run, hcur', -⟩ := ih (by omega)
    have hs : Registers s' (.index (n + 1)) s'.ecsGetNewComponentIndex.1 := by
      refine .index (Prod.ext rfl ?_)
      rw [ecsGetNewComponentIndex_eq (by omega), hcur']
    refine ⟨.index (n + 1) :: h, _, run.snoc hs, ?_, ?_⟩
    · show (s'.curComponentIndex + 1) % 2 ^ 16 = n + 1 + 1
      omega
    · intro _
      rw [handedOut_cons, RegistryCall.id]
      exact List.mem_cons_self

/-- **Numbers without a bound or a size.**  After 512 calls of `EcsGetNewComponentIndex` a number is
    not in the table, and already the entry of the first number was not written. -/
theorem registry_wrong :
    (∃ s₀ h s, Started s₀ ∧ Trace Registers s₀ h s ∧ ¬ Numbered h) ∧
    ∃ s₀ s, Started s₀ ∧ Trace Registers s₀ [.index 1] s ∧ (∀ c ∈ [1], c < s.curComponentIndex) ∧
      ¬ s.Sums [.index 1] [1] := by
  constructor
  · obtain ⟨h, s, run, -, hmem⟩ := index_calls startedStore_started.cur 512 (by decide)
    exact ⟨startedStore, h, s, startedStore_started, run, fun hn =>
      absurd (hn.below 512 (hmem (by decide))) (Nat.lt_irrefl 512)⟩
  · refine ⟨startedStore, startedStore.ecsGetNewComponentIndex.1, startedStore_started,
      Trace.start.snoc (.index (Prod.ext rfl (by decide))), by decide, fun hsums => ?_⟩
    exact (hsums.reads 1 (by decide)).2 rfl

end Nearlands.Ecs

/-
  The amounts of the archetypes.

  All component lists that archetypes store have at most `ECS_COMP_SIZE` entries, and the array of
  archetypes lies in its pages (`ArcheTypesFit`).  `EcsGetArcheType` keeps that for a short list,
  also when the array moves (`ecsGetArcheType_fit`); no other function writes an amount, so all of
  them leave the amounts as they are (`SameAmounts`).
-/
import Nearlands.Ecs.Registry

namespace Nearlands.Ecs

open Nearlands.Lib Nearlands.Lib.AllocLog

variable {s s' : State} {components : Nat → Nat} {mem i n : Nat}

/-! ## The array of archetypes -/

/-- The array of archetypes lies in its pages, and all stored lists are short.  The last field is
    the one that matters to `Ecs.Bounds`; the first two are what makes it survive a growth of the
    array, in which all records are copied. -/
structure ArcheTypesFit (s : State) : Prop where
  room : s.ataIndex ≤ s.ataCapacity
  pages : s.ataCapacity ≠ 0 → s.ataCapacity * sizeofArcheType ≤ s.ataSizeInPages * pageSize ∧
    s.ataSizeInPages * pageSize ≤ 2 ^ 52
  amounts : ∀ i < s.ataIndex, (s.archeType i).componentAmount ≤ ecsCompSize

/-- The amounts of all archetypes stay, and so does the array. -/
structure SameAmounts (s s' : State) : Prop where
  index : s'.ataIndex = s.ataIndex
  capacity : s'.ataCapacity = s.ataCapacity
  pages : s'.ataSizeInPages = s.ataSizeInPages
  amounts : ∀ i, (s'.archeType i).componentAmount = (s.archeType i).componentAmount

/-- Nothing happened. -/
theorem SameAmounts.refl (s : State) : SameAmounts s s := ⟨rfl, rfl, rfl, fun _ => rfl⟩

/-- One thing after the other. -/
theorem SameAmounts.trans {s'' : State} (h : SameAmounts s s') (h' : SameAmounts s' s'') :
    SameAmounts s s'' :=
  ⟨h'.index.trans h.index, h'.capacity.trans h.capacity, h'.pages.trans h.pages,
    fun i => (h'.amounts i).trans (h.amounts i)⟩

/-- Short lists stay short while nobody writes an amount. -/
theorem ArcheTypesFit.same (h : ArcheTypesFit s) (hs : SameAmounts s s') : ArcheTypesFit s' where
  room := by rw [hs.index, hs.capacity]; exact h.room
  pages := by rw [hs.capacity, hs.pages]; exact h.pages
  amounts := fun i hi => by
    rw [hs.index] at hi
    rw [hs.amounts]
    exact h.amounts i hi

/-- Other fields of an archetype are written. -/
theorem SameAmounts.set (h : SameAmounts s s') {f : ArcheType → ArcheType}
    (hf : ∀ x, (f x).componentAmount = x.componentAmount) :
    SameAmounts s (s'.setArcheType i f) := by
  refine ⟨h.index, h.capacity, h.pages, fun i' => ?_⟩
  rw [← h.amounts i']
  by_cases hi : i' = i
  · rw [hi, archeType_set, hf]
  · rw [archeType_set_other f hi]

/-- Growing an array of entities writes other fields of the archetype. -/
theorem growEntities_amounts (s : State) (mem i : Nat) :
    SameAmounts s (s.growEntities mem i).1 := by
  rw [State.growEntities]
  dsimp only
  split
  · split
    · dsimp only
      apply SameAmounts.set
      · exact ⟨rfl, rfl, rfl, fun _ => rfl⟩
      · exact fun _ => rfl
    · dsimp only
      apply SameAmounts.set
      · apply SameAmounts.set
        · exact ⟨rfl, rfl, rfl, fun _ => rfl⟩
        · exact fun _ => rfl
      · exact fun _ => rfl
  · exact .refl s

/-- Freeing memory writes no archetype at all. -/
theorem mmFree_amounts (s : State) (address : Nat) :
    SameAmounts s (s.mmFreeGeneralMemory address).1 := by
  rw [State.mmFreeGeneralMemory]
  split
  · exact .refl s
  · exact ⟨rfl, rfl, rfl, fun _ => rfl⟩

/-- Taking a slot writes the index or the queue. -/
theorem takeSlot_amounts (s : State) (i : Nat) : SameAmounts s (s.takeSlot i).1 := by
  rw [State.takeSlot]
  dsimp only
  split
  · refine SameAmounts.trans ?_ (mmFree_amounts _ _)
    apply SameAmounts.set (.refl s)
    exact fun _ => rfl
  · dsimp only
    apply SameAmounts.set (.refl s)
    exact fun _ => rfl

/-- Filling it writes an entity. -/
theorem fillSlot_amounts (s : State) (mem i j : Nat) (components : Nat → Nat)
    (componentAmount : Nat) : SameAmounts s (s.fillSlot mem i j components componentAmount).1 := by
  rw [State.fillSlot]
  dsimp only
  split <;> exact ⟨rfl, rfl, rfl, fun _ => rfl⟩

/-- Queueing a slot writes the ends of the queue. -/
theorem queueSlot_amounts (s : State) (mem i j : Nat) : SameAmounts s (s.queueSlot mem i j).1 := by
  rw [State.queueSlot]
  dsimp only
  split
  · exact ⟨rfl, rfl, rfl, fun _ => rfl⟩
  · split
    · dsimp only
      apply SameAmounts.set
      · exact ⟨rfl, rfl, rfl, fun _ => rfl⟩
      · exact fun _ => rfl
    · dsimp only
      apply SameAmounts.set
      · exact ⟨rfl, rfl, rfl, fun _ => rfl⟩
      · exact fun _ => rfl

/-- So a deletion leaves the amounts as they are. -/
theorem ecsDeleteEntity_amounts (s : State) (mem x : Nat) :
    SameAmounts s (s.ecsDeleteEntity mem x).1 := by
  rw [State.ecsDeleteEntity]
  split
  · exact .refl s
  · rename_i i j _
    exact (show SameAmounts s (s.killSlot i j) from (mmFree_amounts s _).trans
      ⟨rfl, rfl, rfl, fun _ => rfl⟩).trans (queueSlot_amounts _ _ _ _)

/-- The registry has nothing to do with archetypes. -/
theorem registers_amounts {r : RegistryCall} (hs : Registers s r s') : SameAmounts s s' := by
  cases hs with
  | create hres =>
    rw [← show (s.ecsCreateNewComponent _ _).1 = s' from congrArg Prod.fst hres]
    rw [State.ecsCreateNewComponent, State.registerComponent]
    dsimp only
    split <;> split <;> (try split) <;> exact ⟨rfl, rfl, rfl, fun _ => rfl⟩
  | index hres =>
    rw [← show s.ecsGetNewComponentIndex.1 = s' from congrArg Prod.fst hres]
    exact ⟨rfl, rfl, rfl, fun _ => rfl⟩

/-! ## Growth -/

/-- Physical addresses have 52 bits: no more than that is granted.  The bound is generous: what
    matters is that sizes of runs do not wrap. -/
def PhysicalCall : AllocCall → Prop
  | .take base size => base ≠ null → size ≤ 2 ^ 52
  | .give _ => True

instance : ∀ c : AllocCall, Decidable (PhysicalCall c)
  | .take base size => inferInstanceAs (Decidable (base ≠ null → size ≤ 2 ^ 52))
  | .give _ => isTrue trivial

/-- A record in the new run was copied, or is zero.  Whichever it is, the record has a short list: a
    record of zeros has none. -/
theorem reallocArrays_get {α : Type} (zero : α) (arrays : Nat → Nat → α)
    {sizeof memory prevPages newPages newMemory i : Nat} (h0 : newMemory ≠ null)
    (hnew : (i + 1) * sizeof ≤ w64 (newPages * pageSize))
    (hprev : (i + 1) * sizeof ≤ w64 (prevPages * pageSize)) :
    reallocArrays zero sizeof memory prevPages newPages newMemory arrays newMemory i = zero ∨
    reallocArrays zero sizeof memory prevPages newPages newMemory arrays newMemory i =
      arrays memory i := by
  have hclear : upd arrays newMemory (fun i => if (i + 1) * sizeof ≤ w64 (newPages * pageSize) then
      zero else arrays newMemory i) newMemory i = zero := by
    rw [upd_same, if_pos hnew]
  rw [reallocArrays, if_neg h0]
  by_cases hmemory : memory = null
  · rw [if_pos hmemory]
    exact .inl hclear
  · rw [if_neg hmemory, upd_same, if_pos hprev]
    by_cases heq : memory = newMemory
    · rw [heq]
      exact .inl hclear
    · exact .inr (by rw [upd_other heq])

/-- The new capacity is larger, and so many records have room in the pages asked for.  It is
    computed in 64 bits, and the bound of physical memory keeps it from wrapping. -/
theorem ArcheTypesFit.new_capacity (h : ArcheTypesFit s) :
    let newAtCapacity := if s.ataCapacity = 0 then 15 else w64 (s.ataCapacity * 3)
    s.ataCapacity < newAtCapacity ∧
      newAtCapacity * sizeofArcheType ≤ inPages (w64 (newAtCapacity * sizeofArcheType)) * pageSize := by
  have hpages : s.ataCapacity ≠ 0 → s.ataCapacity * 112 ≤ s.ataSizeInPages * 0x1000 ∧
    s.ataSizeInPages * 0x1000 ≤ 2 ^ 52 := h.pages
  -- nothing wraps
  have hcap : (if s.ataCapacity = 0 then 15 else w64 (s.ataCapacity * 3)) * 112 < 2 ^ 54 ∧
      s.ataCapacity < (if s.ataCapacity = 0 then 15 else w64 (s.ataCapacity * 3)) := by
    by_cases h0 : s.ataCapacity = 0
    · rw [if_pos h0]
      omega
    · rw [if_neg h0, w64_of_lt (by omega)]
      omega
  dsimp only
  generalize (if s.ataCapacity = 0 then 15 else w64 (s.ataCapacity * 3)) = newCap at hcap ⊢
  have hfits : newCap * 112 + 0xFFF < 2 ^ 64 := by omega
  rw [w64_of_lt (show newCap * 112 < 2 ^ 64 by omega), inPages_of_lt hfits]
  refine ⟨hcap.2, ?_⟩
  show newCap * 112 ≤ (newCap * 112 + 0xFFF) / 0x1000 * 0x1000
  omega

/-- The lists are short at their new place. -/
theorem ArcheTypesFit.copied (h : ArcheTypesFit s) (hmem : mem ≠ null) {newPages : Nat}
    (hnew : s.ataCapacity * sizeofArcheType ≤ newPages * pageSize)
    (hphys : newPages * pageSize ≤ 2 ^ 52) (hi : i < s.ataIndex) :
    (reallocArrays .zero sizeofArcheType s.archeTypeArray s.ataSizeInPages newPages mem
      s.archeTypesAt mem i).componentAmount ≤ ecsCompSize := by
  have hroom := h.room
  have hpages : s.ataCapacity * 112 ≤ s.ataSizeInPages * 0x1000 ∧
    s.ataSizeInPages * 0x1000 ≤ 2 ^ 52 := h.pages (by omega)
  replace hnew : s.ataCapacity * 112 ≤ newPages * 0x1000 := hnew
  replace hphys : newPages * 0x1000 ≤ 2 ^ 52 := hphys
  have hto : (i + 1) * 112 ≤ w64 (newPages * 0x1000) := by
    rw [w64_of_lt (by omega)]
    omega
  have hfrom : (i + 1) * 112 ≤ w64 (s.ataSizeInPages * 0x1000) := by
    rw [w64_of_lt (by omega)]
    omega
  rcases reallocArrays_get ArcheType.zero s.archeTypesAt hmem hto hfrom with hzero | hcopy
  · rw [hzero]
    exact Nat.zero_le _
  · rw [hcopy]
    exact h.amounts i hi

/-- **Growth of the array of archetypes** keeps the lists short and makes room. -/
theorem growArcheTypes_fit (h : ArcheTypesFit s) (hres : s.growArcheTypes mem = some s')
    (hphys : ∀ c ∈ s'.memLog, PhysicalCall c) :
    ArcheTypesFit s' ∧ s'.ataIndex < s'.ataCapacity := by
  rw [State.growArcheTypes] at hres
  by_cases hfull : s.ataCapacity ≤ s.ataIndex
  · rw [if_pos hfull] at hres
    have hmem : mem ≠ null := by
      intro h0
      rw [if_pos h0] at hres
      cases hres
    rw [if_neg hmem] at hres
    have hs' := Option.some.inj hres
    obtain ⟨hcap, hnew⟩ := h.new_capacity
    generalize (if s.ataCapacity = 0 then 15 else w64 (s.ataCapacity * 3)) = newCap at hcap hnew hs'
    generalize inPages (w64 (newCap * sizeofArcheType)) = newPages at hnew hs'
    have hsize : newPages * pageSize ≤ 2 ^ 52 := by
      refine hphys (.take mem (newPages * pageSize)) ?_ hmem
      rw [← hs']
      show _ ∈ reallocLog s.archeTypeArray newPages mem s.memLog
      unfold reallocLog
      dsimp only
      rw [if_neg hmem]
      split
      · exact List.mem_cons_self
      · exact List.mem_cons_of_mem _ List.mem_cons_self
    have hroom := h.room
    have hold : s.ataCapacity * sizeofArcheType ≤ newPages * pageSize :=
      (Nat.mul_le_mul_right _ (Nat.le_of_lt hcap)).trans hnew
    subst hs'
    have hlt : s.ataIndex < newCap := Nat.lt_of_le_of_lt hroom hcap
    exact ⟨⟨Nat.le_of_lt hlt, fun _ => ⟨hnew, hsize⟩, fun i hi => h.copied hmem hold hsize hi⟩, hlt⟩
  · rw [if_neg hfull] at hres
    obtain rfl := Option.some.inj hres
    exact ⟨h, Nat.lt_of_not_le hfull⟩

/-- **`EcsGetArcheType`** keeps the lists short when its own is.  The function does not check the
    amount: a longer list would be written past the end of the record, and `n ≤ ecsCompSize` is what
    its callers must see to. -/
theorem ecsGetArcheType_fit (h : ArcheTypesFit s) (hn : n ≤ ecsCompSize)
    (hres : s.ecsGetArcheType mem components n = some (s', i))
    (hphys : ∀ c ∈ s'.memLog, PhysicalCall c) :
    ArcheTypesFit s' := by
  rw [State.ecsGetArcheType] at hres
  cases hgrow : s.growArcheTypes mem with
  | none => rw [hgrow] at hres; cases hres
  | some s₁ =>
    rw [hgrow] at hres
    dsimp only at hres
    cases hfind : s₁.findArcheType components n with
    | some i₁ =>
      rw [hfind] at hres
      obtain ⟨rfl, rfl⟩ := Prod.mk.inj (Option.some.inj hres)
      exact (growArcheTypes_fit h hgrow hphys).1
    | none =>
      rw [hfind] at hres
      obtain ⟨rfl, rfl⟩ := Prod.mk.inj (Option.some.inj hres)
      obtain ⟨h₁, hroom⟩ := growArcheTypes_fit h hgrow hphys
      have hpages := h₁.pages (by omega)
      have hpages : s₁.ataCapacity * 112 ≤ s₁.ataSizeInPages * 0x1000 ∧
        s₁.ataSizeInPages * 0x1000 ≤ 2 ^ 52 := hpages
      have hindex : w64 (s₁.ataIndex + 1) = s₁.ataIndex + 1 := w64_of_lt (by omega)
      refine ⟨?_, h₁.pages, fun i' hi' => ?_⟩
      · show w64 (s₁.ataIndex + 1) ≤ s₁.ataCapacity
        omega
      · have hi' : i' < w64 (s₁.ataIndex + 1) := hi'
        have hset : ∀ f : ArcheType → ArcheType, (f (s₁.archeType s₁.ataIndex)).componentAmount = n →
            ((s₁.setArcheType s₁.ataIndex f).archeType i').componentAmount ≤ ecsCompSize := by
          intro f hf
          by_cases heq : i' = s₁.ataIndex
          · rw [heq, archeType_set, hf]
            exact hn
          · rw [archeType_set_other _ heq]
            exact h₁.amounts i' (by omega)
        exact hset (fun _ => { ArcheType.zero with
          components := fun i => if i < n then components i else 0
          componentAmount := n }) rfl

end Nearlands.Ecs

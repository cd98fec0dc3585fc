/-
  Growth.

  Both arrays of the store grow in the same way: when `15 * 3 ^ k` records are full, they move to a
  run of pages for three times as many.  The number of bytes is computed in 64 bits and could wrap;
  it does not, for want of memory: the old run and the new one would not fit into the address
  space together (`growth_fits`).  Growth then changes nothing in the table.
-/
import Nearlands.Ecs.Table

namespace Nearlands.Ecs

open Nearlands.Lib Nearlands.Lib.AllocLog

/-! ## Arrays -/

section arrays

variable {sizeof k pages base mem : Nat}

/-- Three times `15 * 3 ^ k` records, and the pages asked for them.  The bound comes from the two
    runs together: one of them begins above the other, and both end below `2 ^ 64`, so a product
    that wrapped would need more memory than there is. -/
theorem growth_fits (hs : sizeof = 112 ∨ sizeof = 144)
    (hle : 15 * 3 ^ k * sizeof ≤ pages * 0x1000) (hb : base + pages * 0x1000 < 2 ^ 64)
    (hm : mem + inPages (w64 (w64 (15 * 3 ^ k * 3) * sizeof)) * 0x1000 < 2 ^ 64)
    (hap : (Region.mk mem (inPages (w64 (w64 (15 * 3 ^ k * 3) * sizeof)) * 0x1000)).Apart
      ⟨base, pages * 0x1000⟩) :
    w64 (15 * 3 ^ k * 3) = 15 * 3 ^ (k + 1) ∧
    15 * 3 ^ (k + 1) * sizeof ≤ inPages (w64 (w64 (15 * 3 ^ k * 3) * sizeof)) * 0x1000 := by
  have hk : k ≤ 33 := by
    by_contra hk
    have hpow : 3 ^ 34 ≤ 3 ^ k := Nat.pow_le_pow_right (by decide) (by omega)
    rcases hs with rfl | rfl <;> omega
  have hsucc : 3 ^ (k + 1) = 3 ^ k * 3 := Nat.pow_succ 3 k
  rcases Nat.lt_or_ge k 33 with hk' | hk'
  · -- no wrap
    have hpow : 3 ^ k ≤ 3 ^ 32 := Nat.pow_le_pow_right (by decide) (by omega)
    have hcap : w64 (15 * 3 ^ k * 3) = 15 * 3 ^ (k + 1) := by
      rw [w64_of_lt (by omega)]; omega
    have hsize : 15 * 3 ^ (k + 1) * sizeof + 0xFFF < 2 ^ 64 := by
      rcases hs with rfl | rfl <;> omega
    refine ⟨hcap, ?_⟩
    rw [hcap, w64_of_lt (by omega), inPages_of_lt hsize]
    omega
  · -- the size wraps, and the two runs would take more than `2 ^ 64` bytes
    obtain rfl : k = 33 := by omega
    exfalso
    have h112 : inPages (w64 (w64 (15 * 3 ^ 33 * 3) * 112)) * 0x1000 = 9570921181730287616 := by
      decide
    have h144 : inPages (w64 (w64 (15 * 3 ^ 33 * 3) * 144)) * 0x1000 = 17575968397570240512 := by
      decide
    rw [Region.Apart] at hap
    dsimp only at hap
    rcases hs with rfl | rfl
    · rw [h112] at hap hm; omega
    · rw [h144] at hap hm; omega

variable {log : List AllocCall} {own : Nat → Option Owner} {o : Owner} {cap : Nat}

/-- The new run holds the copied records and, at other addresses, arrays are as before.  The new run
    is another address than the old, so nothing is copied onto itself. -/
theorem reallocArrays_spec {α : Type} (zero : α) (sizeof newPages : Nat) (arrays : Nat → Nat → α)
    (h : ArrayIs log own o sizeof cap base pages) (hg : Good log) (hmem : mem ≠ base) :
    (∀ b, b ≠ mem → reallocArrays zero sizeof base pages newPages mem arrays b = arrays b) ∧
    (mem ≠ null → ∀ i < cap,
      reallocArrays zero sizeof base pages newPages mem arrays mem i = arrays base i) := by
  rw [reallocArrays]
  refine ⟨fun b hb => ?_, fun h0 i hi => ?_⟩
  · split
    · rfl
    · split
      · exact upd_other hb
      · rw [upd_other hb, upd_other hb]
  · cases h with
    | empty => exact absurd hi (Nat.not_lt_zero i)
    | grown k hne hle hown =>
      have hfits := (hg.fits _ hown.held).2
      dsimp only at hfits
      have hin : (i + 1) * sizeof ≤ w64 (pages * pageSize) := by
        rw [w64_of_lt (by omega)]
        exact (Nat.mul_le_mul_right sizeof hi).trans hle
      rw [if_neg h0, if_neg hne, upd_same, if_pos hin, upd_other hmem.symm]

/-- **Growth of an array.**  The next run is large enough, belongs to the same owner, and no one
    else's memory moves.  The owner gets the new run before the old one goes back, so for a moment
    it has two; in the end it has one, and `Keeps` says that nobody else was concerned. -/
theorem ArrayIs.grow (hs : sizeof = 112 ∨ sizeof = 144)
    (h : ArrayIs log own o sizeof cap base pages) {newCap newPages : Nat}
    (hcap : newCap = if cap = 0 then 15 else w64 (cap * 3))
    (hpages : newPages = inPages (w64 (newCap * sizeof))) (hmem : mem ≠ null)
    (hg : Good (reallocLog base newPages mem log)) :
    Fresh (held log) ⟨mem, newPages * pageSize⟩ ∧ mem ≠ base ∧ cap < newCap ∧
    ArrayIs (reallocLog base newPages mem log) (upd own mem (some o)) o sizeof newCap mem newPages ∧
    Keeps o log own (reallocLog base newPages mem log) (upd own mem (some o)) := by
  unfold reallocLog at hg ⊢
  dsimp only at hg ⊢
  rw [if_neg hmem] at hg ⊢
  cases h with
  -- => the first page holds 15 elements, of either size
  | empty =>
    rw [if_pos rfl] at hg hcap ⊢
    subst hcap
    have hfive : newPages = 1 := by
      rw [hpages]
      rcases hs with rfl | rfl <;> decide
    subst hfive
    refine ⟨hg.1 hmem, hmem, by decide, ?_, Keeps.take hg⟩
    refine ArrayIs.grown 0 hmem ?_ (Owns.new hmem _)
    rcases hs with rfl | rfl <;> decide
  | grown k hne hle hown =>
    rw [if_neg hne] at hg ⊢
    -- the new array has three times as many, in whole pages
    have hpow : 0 < 3 ^ k := Nat.pow_pos (by decide)
    rw [if_neg (by omega)] at hcap
    have hfresh := hg.1 hmem
    have hbase : mem ≠ base := (hfresh.new _ hown.held).symm
    subst hcap
    subst hpages
    obtain ⟨hcap', hsize⟩ := growth_fits hs hle (Good.fits (show Good log from hg.2) _ hown.held).2
      hfresh.fits (hfresh.apart _ hown.held)
    -- the old array is still held when the new one is taken
    have hold := hown.take hmem hfresh (some o)
    refine ⟨hfresh, hbase, ?_, ?_, (Keeps.take (x := o) hg).trans (Keeps.give hold)⟩
    · rw [hcap', Nat.pow_succ]; omega
    · rw [hcap'] at hsize ⊢
      refine ArrayIs.grown (k + 1) hmem hsize ⟨mem_give.mpr ⟨?_, hbase⟩, upd_same⟩
      rw [held_take hmem]
      exact List.mem_cons_self

end arrays

/-! ## Edits of one row -/

/-- Component data and the registry of components stay.  Together with the table this is all of a
    state that an operation has to account for. -/
structure SameData (s s' : State) : Prop where
  bytes : s'.bytes = s.bytes
  sizeArr : s'.componentSizeArr = s.componentSizeArr
  sizesAt : s'.sizesAt = s.sizesAt
  cur : s'.curComponentIndex = s.curComponentIndex

/-- Nothing happened. -/
theorem SameData.refl (s : State) : SameData s s := ⟨rfl, rfl, rfl, rfl⟩

/-- One thing after the other. -/
theorem SameData.trans {s s' s'' : State} (h : SameData s s') (h' : SameData s' s'') :
    SameData s s'' :=
  ⟨h'.bytes.trans h.bytes, h'.sizeArr.trans h.sizeArr, h'.sizesAt.trans h.sizesAt,
    h'.cur.trans h.cur⟩

/-- Sizes are read from the registry. -/
theorem SameData.componentSize {s s' : State} (h : SameData s s') (c : Nat) :
    s'.componentSize c = s.componentSize c := by
  unfold State.componentSize
  rw [h.sizeArr, h.sizesAt]

/-- The array of archetypes stays where it is. -/
structure SameArray (s s' : State) : Prop where
  array : s'.archeTypeArray = s.archeTypeArray
  index : s'.ataIndex = s.ataIndex
  capacity : s'.ataCapacity = s.ataCapacity
  pages : s'.ataSizeInPages = s.ataSizeInPages

/-- The owner `x` belongs to row `i`. -/
def Owner.OfRow (i : Nat) (x : Owner) : Prop := x = .entities i ∨ ∃ j, x = .slot i j

/-- What belongs to a row belongs to no other row, nor to the store as a whole. -/
theorem Owner.OfRow.ne {i : Nat} {x : Owner} (h : x.OfRow i) :
    x ≠ .archeTypes ∧ x ≠ .sizes ∧
    ∀ i', i' ≠ i → x ≠ .entities i' ∧ ∀ j, x ≠ .slot i' j := by
  rcases h with rfl | ⟨j, rfl⟩
  · exact ⟨nofun, nofun, fun i' hi => ⟨fun h => hi (Owner.entities.inj h).symm, nofun⟩⟩
  · exact ⟨nofun, nofun, fun i' hi => ⟨nofun, fun j' h => hi (Owner.slot.inj h).1.symm⟩⟩

section edits

variable {s s' : State} {own own' : Nat → Option Owner} {t : Table} {i : Nat}

/-- The same row in its place changes nothing. -/
@[simp] theorem Table.setRow_self (t : Table) (i : Nat) : t.setRow i (t.row i) = t := by
  rw [Table.setRow]
  have h : upd t.row i (t.row i) = t.row := by
    funext x
    by_cases hx : x = i
    · rw [hx, upd_same]
    · rw [upd_other hx]
  rw [h]

/-- **One row at a time.**  When only the memory of row `i` moves and only its records change, the
    state shows the table with the new row.  The hypotheses are a list of what an operation on one
    row does not do; the last one is what it does. -/
theorem Shows.edit (h : Shows s own t) (hi : i < t.count) {x : Owner} (hx : x.OfRow i)
    (hk : Keeps x s.memLog own s'.memLog own') (hg : Good s'.memLog) (ha : SameArray s s')
    (hd : SameData s s')
    (hother : ∀ i' < t.count, i' ≠ i → s'.archeType i' = s.archeType i' ∧
      s'.entitiesAt (s.archeType i').entities = s.entitiesAt (s.archeType i').entities)
    (hnode : ∀ i', i' ≠ i → ∀ n j, Owns s.memLog own (.slot i' j) ⟨n, sizeofEntityFreeList⟩ →
      s'.nodeAt n = s.nodeAt n)
    {r : Row} (hcomps : r.comps = (t.row i).comps)
    (hrow : RowIs (s'.ground own') i (s'.archeType i)
      (s'.entitiesAt (s'.archeType i).entities) r) :
    Shows s' own' (t.setRow i r) := by
  obtain ⟨hxa, hxs, hxr⟩ := hx.ne
  have hcomps' : ∀ i', ((t.setRow i r).row i').comps = (t.row i').comps := by
    intro i'
    by_cases hi' : i' = i
    · subst hi'
      show (upd t.row i' r i').comps = _
      rw [upd_same, hcomps]
    · show (upd t.row i r i').comps = _
      rw [upd_other hi']
  refine ⟨hg, ha.index.trans h.count, ?_, ?_, fun i' hi' => ?_, fun i₁ h₁ i₂ h₂ he => ?_, fun h0 => ?_⟩
  · rw [ha.capacity]; exact h.room
  · rw [ha.capacity, ha.array, ha.pages]
    exact h.array.keep hk hxa.symm
  · by_cases hne : i' = i
    · subst hne
      show RowIs _ _ _ _ (upd t.row i' r i')
      rw [upd_same]
      exact hrow
    · show RowIs _ _ _ _ (upd t.row i r i')
      obtain ⟨harch, hes⟩ := hother i' hi' hne
      rw [upd_other hne, harch, hes]
      exact (h.row i' hi').keep hk (hxr i' hne).1 (hxr i' hne).2 (hnode i' hne)
  · rw [hcomps', hcomps'] at he
    exact h.distinct i₁ h₁ i₂ h₂ he
  · rw [hd.sizeArr] at h0 ⊢
    exact hk _ _ hxs.symm (h.sizes h0)

end edits

/-! ## The arrays of the store -/

section store

variable {s s' : State} {own : Nat → Option Owner} {t : Table} {mem i : Nat}

/-- Growth of the array of archetypes: the table and the records stay, and there is room for one
    more.  The table does not say where the array is, so nothing in it changes; the records are
    equal one by one. -/
theorem growArcheTypes_shows (h : Shows s own t) (hres : s.growArcheTypes mem = some s')
    (hg : Good s'.memLog) :
    ∃ own', Shows s' own' t ∧ t.count < s'.ataCapacity ∧ SameData s s' ∧
      ∀ i < t.count, s'.archeType i = s.archeType i := by
  rw [State.growArcheTypes] at hres
  by_cases hfull : s.ataCapacity ≤ s.ataIndex
  · rw [if_pos hfull] at hres
    have hmem : mem ≠ null := fun h0 => nomatch (if_pos h0).symm.trans hres
    rw [if_neg hmem] at hres
    have hs' := Option.some.inj hres
    rw [← hs'] at hg
    obtain ⟨-, hbase, hcap, harr, hkeep⟩ := h.array.grow (Or.inl rfl) rfl rfl hmem hg
    obtain ⟨-, hcopy⟩ := reallocArrays_spec ArcheType.zero sizeofArcheType
      (inPages (w64 ((if s.ataCapacity = 0 then 15 else w64 (s.ataCapacity * 3)) *
        sizeofArcheType))) s.archeTypesAt h.array h.good hbase
    have hroom := h.room
    have harch : ∀ i < s.ataCapacity, s'.archeType i = s.archeType i := by
      rw [← hs']
      exact hcopy hmem
    subst hs'
    refine ⟨_, ⟨hg, h.count, ?_, harr, fun i hi => ?_, h.distinct, fun h0 => ?_⟩, ?_,
      ⟨rfl, rfl, rfl, rfl⟩,
      fun i hi => harch i (by omega)⟩
    · exact hroom.trans (Nat.le_of_lt hcap)
    · rw [harch i (by omega)]
      exact (h.row i hi).keep hkeep nofun (fun j => nofun) fun _ _ _ => rfl
    · exact hkeep _ _ nofun (h.sizes h0)
    · exact Nat.lt_of_le_of_lt hroom hcap
  · rw [if_neg hfull] at hres
    obtain rfl := Option.some.inj hres
    exact ⟨own, h, by rw [← h.count]; omega, .refl _, fun _ _ => rfl⟩

/-- The array of entities of row `i` is where a new run is not. -/
theorem Shows.entities_ne_fresh (h : Shows s own t) {size : Nat} (hmem : mem ≠ null)
    (hf : Fresh (held s.memLog) ⟨mem, size⟩) {i' : Nat} (hi' : i' < t.count) :
    (s.archeType i').entities ≠ mem := by
  have harr := (h.row i' hi').array
  generalize (s.archeType i').entities = b at harr
  generalize (s.archeType i').capacity = c at harr
  cases harr with
  | empty => exact hmem.symm
  | grown k _ _ hown => exact hf.new _ hown.held

/-- Growth of an array of entities: the table stays, and there is room for one more. -/
theorem growEntities_shows (h : Shows s own t) (hi : i < t.count)
    (hmem : (s.archeType i).capacity ≤ (s.archeType i).index → mem ≠ null)
    (hg : Good (s.growEntities mem i).1.memLog) :
    (s.growEntities mem i).2 = true ∧ SameData s (s.growEntities mem i).1 ∧
    ∃ own', Shows (s.growEntities mem i).1 own' t ∧
      (t.row i).index < ((s.growEntities mem i).1.archeType i).capacity := by
  have hrow := h.row i hi
  rw [State.growEntities] at hg ⊢
  dsimp only at hg ⊢
  by_cases hfull : (s.archeType i).capacity ≤ (s.archeType i).index
  · replace hmem := hmem hfull
    rw [if_pos hfull, if_neg hmem] at hg ⊢
    obtain ⟨hf, hbase, hcap, harr, hkeep⟩ := hrow.array.grow (Or.inr rfl) rfl rfl hmem hg
    obtain ⟨hother, hcopy⟩ := reallocArrays_spec Entity.zero sizeofEntity
      (inPages (w64 ((if (s.archeType i).capacity = 0 then 15 else
        w64 ((s.archeType i).capacity * 3)) * sizeofEntity))) s.entitiesAt hrow.array h.good hbase
    have hroom := hrow.room
    refine ⟨rfl, ⟨rfl, rfl, rfl, rfl⟩, upd own mem (some (.entities i)), ?_, ?_⟩
    · rw [← t.setRow_self i]
      refine h.edit hi (Or.inl rfl) hkeep hg ⟨rfl, rfl, rfl, rfl⟩ ⟨rfl, rfl, rfl, rfl⟩
        (fun i' hi' hne => ⟨?_, hother _ (h.entities_ne_fresh hmem hf hi')⟩)
        (fun _ _ _ _ _ => rfl) rfl ?_
      · rw [archeType_set_other _ hne, archeType_set_other _ hne]
        rfl
      · -- the row with its entities at their new place
        rw [archeType_set, archeType_set]
        exact ⟨hrow.comps, hrow.index, hrow.index_lt, hroom.trans (Nat.le_of_lt hcap), harr,
          hrow.queue, hrow.mem_queue, fun j hj => by
            have hes := hcopy hmem j (Nat.lt_of_lt_of_le hj hroom)
            show SlotIs _ i j _ (reallocArrays _ _ _ _ _ _ _ mem j) _
            rw [hes]
            exact (hrow.slots j hj).keep hkeep nofun fun _ _ => rfl⟩
    · rw [archeType_set]
      exact Nat.lt_of_le_of_lt hroom hcap
  · rw [if_neg hfull] at hg ⊢
    rw [hrow.index] at hfull
    exact ⟨rfl, .refl s, own, h, Nat.lt_of_not_le hfull⟩

/-- A first array of entities that is refused leaves the row without one.  Such a row has no slots
    yet, so there is nothing that could be lost with its array. -/
theorem growEntities_refused (h : Shows s own t) (hi : i < t.count)
    (hcap : (s.archeType i).capacity = 0) :
    (s.growEntities null i).2 = false ∧ SameData s (s.growEntities null i).1 ∧
    Shows (s.growEntities null i).1 own t := by
  have hrow := h.row i hi
  have hnone : (t.row i).index = 0 := Nat.le_zero.mp (hcap ▸ hrow.room)
  have hfull : (s.archeType i).capacity ≤ (s.archeType i).index := by
    rw [hcap]
    exact Nat.zero_le _
  have hg : Good (.take null (inPages (w64 (15 * sizeofEntity)) * pageSize) :: s.memLog) :=
    ⟨fun h0 => absurd rfl h0, h.good⟩
  have hres : s.growEntities null i =
      (({ s with memLog := .take null (inPages (w64 (15 * sizeofEntity)) * pageSize) :: s.memLog }
        : State).setArcheType i fun a => { a with entities := null }, false) := by
    rw [State.growEntities]
    dsimp only
    rw [if_pos hfull, if_pos rfl, hcap, if_pos rfl]
    rfl
  have hkeep : Keeps (.entities i) s.memLog own
      (.take null (inPages (w64 (15 * sizeofEntity)) * pageSize) :: s.memLog) own :=
    fun _ _ _ ho => ho.refused _
  rw [hres]
  refine ⟨rfl, ⟨rfl, rfl, rfl, rfl⟩, ?_⟩
  rw [← t.setRow_self i]
  apply h.edit hi (Or.inl rfl)
  case hk => exact hkeep
  case hg => exact hg
  case ha => exact ⟨rfl, rfl, rfl, rfl⟩
  case hd => exact ⟨rfl, rfl, rfl, rfl⟩
  case hother => exact fun i' _ hne => ⟨archeType_set_other _ hne, rfl⟩
  case hnode => exact fun _ _ _ _ _ => rfl
  case hcomps => rfl
  rw [archeType_set]
  refine ⟨hrow.comps, hrow.index, hrow.index_lt, hrow.room, ?_, hrow.queue, hrow.mem_queue,
    fun j hj => absurd hj (by rw [hnone]; exact Nat.not_lt_zero j)⟩
  show ArrayIs _ _ _ _ (s.archeType i).capacity null _
  rw [hcap]
  exact .empty

end store

end Nearlands.Ecs

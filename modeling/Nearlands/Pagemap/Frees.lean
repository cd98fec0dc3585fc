/-
  What is allocated is freed again, unless it is at the end of the page map.

  The starts that `MmAllocateMultiplePages` looks at are those up to `pageMapAmount - amount`, and
  `MmFreeMultiplePages` looks at the ones before it.  So a run is freed, and the state is as before
  the allocation, exactly when it does not begin at the last start (`free_undoes_iff`).

  The counter of used pages stops at `pageMapAmount`, and a free would not bring back what was not
  counted.  But from `pageUsed = 0` on the counter is at most the number of entries that are not
  free, whatever flags the map begins with and whatever is freed (`used_le`), and a run of free
  entries leaves room for counting it.
-/
import Mathlib.Data.Finset.Card
import Mathlib.Order.Interval.Finset.Nat
import Nearlands.Lib.Trace
import Nearlands.Pagemap.Alloc

namespace Nearlands.Pagemap

open Nearlands.Lib

/-- A call of the allocator with at most as many pages as there are; what is freed need not have
    been allocated. -/
inductive Calls : State → Unit → State → Prop
  | single (s : State) : Calls s () s.mmAllocateSinglePage.1
  | multiple {s s' : State} {amount addr : Nat} (hle : amount ≤ s.pageMapAmount)
      (h : s.mmAllocateMultiplePages amount = some (s', addr)) : Calls s () s'
  | freeSingle (s : State) (addr : Nat) : Calls s () (s.mmFreeSinglePage addr).1
  | freeMultiple {s : State} (addr : Nat) {amount : Nat} (hle : amount ≤ s.pageMapAmount) :
      Calls s () (s.mmFreeMultiplePages addr amount).1

namespace State

variable {s s' : State} {i n : Nat}

/-- The entries that are not free. -/
def usedEntries (s : State) : Finset Nat :=
  (Finset.range s.pageMapAmount).filter fun i => s.isFree i = false

/-- An entry is used if it lies in the map and is not free. -/
theorem mem_usedEntries : i ∈ s.usedEntries ↔ i < s.pageMapAmount ∧ s.isFree i = false := by
  simp [usedEntries]

/-- No more pages are counted than are used.  The counter may be behind the flags, since a free of
    what was free counts as well; it is never ahead of them. -/
def Counted (s : State) : Prop := s.pageUsed ≤ s.usedEntries.card

/-- Taking a free entry adds one to both, or to the flags alone. -/
theorem Counted.take (h : s.Counted) (hi : i < s.pageMapAmount) (hfree : s.isFree i = true) :
    (takeEntry i s).Counted := by
  have hnew : i ∉ s.usedEntries := fun hmem => by
    rw [(mem_usedEntries.mp hmem).2] at hfree
    exact Bool.false_ne_true hfree
  have hentries : (takeEntry i s).usedEntries = insert i s.usedEntries := by
    ext k
    rw [Finset.mem_insert, mem_usedEntries, mem_usedEntries, takeEntry_amount, takeEntry_isFree]
    by_cases hk : k = i
    · subst hk
      simp [hi]
    · simp [upd_other hk, hk]
  rw [Counted, hentries, Finset.card_insert_of_notMem hnew, takeEntry_used]
  rw [Counted] at h
  omega

/-- Giving an entry back takes one from the counter, and at most one from the flags. -/
theorem Counted.give (h : s.Counted) (i : Nat) : (giveEntry i s).Counted := by
  have hentries : (giveEntry i s).usedEntries = s.usedEntries.erase i := by
    ext k
    rw [Finset.mem_erase, mem_usedEntries, mem_usedEntries, giveEntry_amount, giveEntry_isFree]
    by_cases hk : k = i
    · subst hk
      simp
    · simp [upd_other hk, hk]
  have hcard := Finset.pred_card_le_card_erase (s := s.usedEntries) (a := i)
  rw [Counted, hentries, giveEntry_used]
  rw [Counted] at h
  omega

/-- The same for a whole run, whose entries were all free. -/
theorem Counted.takeRun : ∀ (n i : Nat) (s : State), s.Counted → i + n ≤ s.pageMapAmount →
    (∀ k < n, s.isFree (i + k) = true) → (countUp takeEntry i n s).Counted
  | 0, _, _, h, _, _ => h
  | n + 1, i, s, h, hin, hfree => by
    rw [countUp]
    have hfirst : (takeEntry i s).Counted := h.take (by omega) (hfree 0 (Nat.succ_pos n))
    refine Counted.takeRun n (i + 1) _ hfirst ?_ fun k hk => ?_
    · rw [takeEntry_amount]
      omega
    · rw [takeEntry_isFree, upd_other (by omega), show i + 1 + k = i + (k + 1) by omega]
      exact hfree (k + 1) (by omega)

/-- And for a free of any entries, inside the map or behind it. -/
theorem Counted.giveRun : ∀ (n i : Nat) (s : State), s.Counted → (countUp giveEntry i n s).Counted
  | 0, _, _, h => h
  | n + 1, i, _, h => Counted.giveRun n (i + 1) _ (h.give i)

/-- The map is that of the start, and its counter counts used pages. -/
structure Kept (s₀ s : State) : Prop where
  address : s.address = s₀.address
  size : s.pageMapAmount = s₀.pageMapAmount
  counted : s.Counted

variable {s₀ : State}

/-- Setting flags leaves addresses and size alone, so only the counter is to be looked at. -/
theorem Kept.of_sets {b : Bool} (hk : Kept s₀ s) (h : s.Sets b i n s') (hc : s'.Counted) :
    Kept s₀ s' :=
  ⟨h.address.trans hk.address, h.size.trans hk.size, hc⟩

/-- **A call** keeps the counter right.  One case for each call of the allocator; a free is of any
    address and any number of pages the map could hold. -/
theorem call_kept (hk : Kept s₀ s) (h : Calls s () s') : Kept s₀ s' := by
  cases h with
  | single =>
    rw [mmAllocateSinglePage]
    cases hfirst : firstFrom s.isFree s.pageMapAmount 0 with
    | some i =>
      obtain ⟨-, hi, hfree, -⟩ := firstFrom_eq_some.mp hfirst
      exact hk.of_sets (take_sets 1 i s) (hk.counted.take (by omega) hfree)
    | none => exact hk
  | multiple hle h =>
    rename_i amount addr
    rcases Nat.eq_zero_or_pos amount with rfl | hpos
    · -- a request for nothing marks nothing
      rw [mmAllocateMultiplePages] at h
      split at h
      · obtain ⟨rfl, -⟩ := Prod.mk.inj (Option.some.inj h)
        exact hk
      · split at h
        · exact absurd h.symm (Option.some_ne_none _)
        · obtain ⟨rfl, -⟩ := Prod.mk.inj (Option.some.inj h)
          exact hk
    · rcases alloc_cases hpos hle with ⟨i, heq, ht⟩ | ⟨heq, -⟩
      · rw [heq] at h
        obtain ⟨rfl, -⟩ := Prod.mk.inj (Option.some.inj h)
        exact hk.of_sets ht.toSets (Counted.takeRun amount i s hk.counted ht.inMap ht.free)
      · rw [heq] at h
        obtain ⟨rfl, -⟩ := Prod.mk.inj (Option.some.inj h)
        exact hk
  | freeSingle addr =>
    rw [mmFreeSinglePage]
    split
    · exact hk.of_sets (give_sets 1 _ s) (hk.counted.give _)
    · exact hk
  | freeMultiple addr hle =>
    rw [mmFreeMultiplePages]
    split
    · exact hk.of_sets (give_sets _ _ s) (Counted.giveRun _ _ _ hk.counted)
    · exact hk

/-- From a counter that is 0 on, no more pages are counted than are used. -/
theorem used_le (h0 : s₀.pageUsed = 0) {h : List Unit} (ht : Trace Calls s₀ h s) : Kept s₀ s := by
  refine Trace.inv (I := Kept s₀) ⟨rfl, rfl, ?_⟩ (fun _ _ _ hk hs => call_kept hk hs) ht
  rw [Counted, h0]
  exact Nat.zero_le _

/-- Free entries leave room for counting them.  The free entries are as many that are not used, and
    no more pages are counted than are used.  So the counter does not stop at its bound during an
    allocation, and a free brings it back. -/
theorem Counted.room (h : s.Counted) (hin : i + n ≤ s.pageMapAmount)
    (hfree : ∀ k < n, s.isFree (i + k) = true) : s.pageUsed + n ≤ s.pageMapAmount := by
  have hdisj : Disjoint s.usedEntries (Finset.Ico i (i + n)) := by
    rw [Finset.disjoint_left]
    intro k hk hrun
    obtain ⟨hik, hlt⟩ := Finset.mem_Ico.mp hrun
    have hused := (mem_usedEntries.mp hk).2
    rw [show k = i + (k - i) by omega, hfree (k - i) (by omega)] at hused
    exact absurd hused.symm Bool.false_ne_true
  have hsub : s.usedEntries ∪ Finset.Ico i (i + n) ⊆ Finset.range s.pageMapAmount := by
    intro k hk
    rw [Finset.mem_range]
    rcases Finset.mem_union.mp hk with hk | hk
    · exact (mem_usedEntries.mp hk).1
    · have := (Finset.mem_Ico.mp hk).2
      omega
  have hcard := Finset.card_le_card hsub
  rw [Finset.card_union_of_disjoint hdisj, Nat.card_Ico, Finset.card_range] at hcard
  rw [Counted] at h
  omega

/-- The free of `(addr, n)` in `s'` succeeds, and leaves the flags and the counter of `s`. -/
structure Undone (s s' : State) (addr n : Nat) : Prop where
  status : (s'.mmFreeMultiplePages addr n).2 = .success
  isFree : (s'.mmFreeMultiplePages addr n).1.isFree = s.isFree
  pageUsed : (s'.mmFreeMultiplePages addr n).1.pageUsed = s.pageUsed

/-- A run that does not begin at the last start is freed.  As addresses differ, the free finds the
    start the allocation took; it lies below the bound of the free by `hlast`. -/
theorem Allocates.undone (ht : Allocates s n i s') (hd : s.Distinct) (hc : s.Counted) (hpos : 0 < n)
    (hlast : i ≠ s.pageMapAmount - n) : Undone s s' (s.address i) n := by
  have hin := ht.inMap
  have hroom := hc.room hin ht.free
  have hcases := freeMultiple_cases (s := s') (n := n) (by rw [ht.size]; omega) (s.address i)
  have hone : ∀ j < s'.pageMapAmount, s'.address j = s.address i → j = i := by
    intro j hj haddr
    rw [ht.size] at hj
    rw [ht.address] at haddr
    exact hd j i hj (by omega) haddr
  cases hcall : s'.mmFreeMultiplePages (s.address i) n with
  | mk s'' status =>
    rw [hcall] at hcases
    cases hcases with
    | found j s'' hj haddr hsets hused =>
      obtain rfl := hone j (by omega) haddr
      refine ⟨by rw [hcall], ?_, ?_⟩ <;> rw [hcall]
      · funext k
        by_cases hk : j ≤ k ∧ k < j + n
        · have hfree := ht.free (k - j) (by omega)
          rw [show j + (k - j) = k by omega] at hfree
          exact (hsets.inside k hk.1 hk.2).trans hfree.symm
        · exact (hsets.outside k hk).trans (ht.outside k hk)
      · show s''.pageUsed = s.pageUsed
        rw [hused, ht.used]
        omega
    | notFound hnone =>
      refine absurd (congrFun ht.address i) (hnone i ?_)
      rw [ht.size]
      omega

/-- One that does is not found.  The address is in the map, at the one start the free does not look
    at, and as addresses differ it is nowhere else. -/
theorem Allocates.not_undone (ht : Allocates s n i s') (hd : s.Distinct) (hpos : 0 < n)
    (hlast : i = s.pageMapAmount - n) : ¬ Undone s s' (s.address i) n := by
  intro h
  have hin := ht.inMap
  have hcases := freeMultiple_cases (s := s') (n := n) (by rw [ht.size]; omega) (s.address i)
  have hstatus := h.status
  cases hcall : s'.mmFreeMultiplePages (s.address i) n with
  | mk s'' status =>
    rw [hcall] at hcases hstatus
    cases hcases with
    | found j s'' hj haddr hsets hused =>
      rw [ht.size] at hj
      rw [ht.address] at haddr
      have := hd j i (by omega) (by omega) haddr
      omega
    | notFound => exact absurd hstatus (show NearStatus.notFound ≠ .success by decide)

/-- **Allocating and freeing.**  In every state a run reaches from a map of different addresses and
    a counter that is 0: what an allocation has just handed out is freed, and flags and counter are
    as they were before it, exactly when it does not begin at the last start.  The hypotheses are
    those of the claim's runs: addresses that differ and a counter that begins at 0 (both hold of
    the map that init leaves), a request for at least one page and no more than there are, and an
    allocation that took something.  The condition speaks of the address returned, since that is all
    the caller has. -/
theorem free_undoes_iff (hd : s₀.Distinct) (h0 : s₀.pageUsed = 0) {h : List Unit}
    (hrun : Trace Calls s₀ h s) (hpos : 1 ≤ n) (hle : n ≤ s.pageMapAmount) {addr : Nat}
    (halloc : s.mmAllocateMultiplePages n = some (s', addr)) (hsome : s' ≠ s) :
    Undone s s' addr n ↔ addr ≠ s.address (s.pageMapAmount - n) := by
  have hk := used_le h0 hrun
  have hdist : s.Distinct := by rwa [Distinct, hk.size, hk.address]
  rcases alloc_cases hpos hle with ⟨i, heq, ht⟩ | ⟨heq, -⟩
  · rw [heq] at halloc
    obtain ⟨rfl, rfl⟩ := Prod.mk.inj (Option.some.inj halloc)
    have hin := ht.inMap
    have hlast : s.address i = s.address (s.pageMapAmount - n) ↔ i = s.pageMapAmount - n :=
      ⟨hdist i _ (by omega) (by omega), fun h => congrArg s.address h⟩
    rw [Ne, hlast]
    constructor
    · exact fun h heq => ht.not_undone hdist hpos heq h
    · exact ht.undone hdist hk.counted hpos
  · rw [heq] at halloc
    exact absurd (Prod.mk.inj (Option.some.inj halloc)).1.symm hsome

/-- Three pages in a row. -/
def three : State := ⟨fun i => 0x1000 * (i + 1), fun _ => true, 3, 0, three_lt⟩

/-- Their addresses differ. -/
theorem three_distinct : three.Distinct := fun _ _ _ _ h =>
  Nat.add_right_cancel (Nat.eq_of_mul_eq_mul_left (by decide) h)

/-- An allocation that begins at the first page. -/
theorem three_first (n : Nat) (h : firstFrom (three.startsRun n) (sub64 3 n + 1) 0 = some 0) :
    three.mmAllocateMultiplePages n = some (countUp takeEntry 0 n three, 0x1000) :=
  alloc_of_first h

/-- The first two are allocated and freed. -/
theorem three_undone : Undone three (countUp takeEntry 0 2 three) 0x1000 2 :=
  (free_undoes_iff three_distinct rfl .start (by decide) (by decide)
    (three_first 2 (by decide +kernel))
    fun h => absurd (congrArg (fun s => s.isFree 0) h) (by decide +kernel)).mpr (by decide)

/-- **The run that is not found.**  All three are allocated, and their free answers `notFound`. -/
theorem three_not_found :
    three.mmAllocateMultiplePages 3 = some (countUp takeEntry 0 3 three, 0x1000) ∧
    ((countUp takeEntry 0 3 three).mmFreeMultiplePages 0x1000 3).2 = .notFound ∧
    ¬ Undone three (countUp takeEntry 0 3 three) 0x1000 3 := by
  have hstatus : ((countUp takeEntry 0 3 three).mmFreeMultiplePages 0x1000 3).2 = .notFound := by
    decide +kernel
  refine ⟨three_first 3 (by decide +kernel), hstatus, fun h => ?_⟩
  exact absurd (hstatus.symm.trans h.status) (by decide)

end State

end Nearlands.Pagemap

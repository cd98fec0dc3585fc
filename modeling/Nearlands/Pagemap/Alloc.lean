/-
  The page map (`mm/amd64pc/pmms/pagemap.c`), the other physical memory manager of the kernel.

  The map is a table of pages, each with its address and a flag.  A table entry is found by index in
  an allocation and by address in a free.  `MmAllocateMultiplePages` looks for entries in a row that
  are free and whose addresses follow each other; the address before the first one is 0, and behind
  an address 0 nothing is compared.  When it finds none it returns 1.

  The loop over the starts ends at `pageMapAmount - amount`, as a `u64`.  With `amount` one more than
  `pageMapAmount` it ends only when a start passes.
-/
import Nearlands.Lib.Canvas
import Nearlands.Lib.DList
import Nearlands.Lib.Search
import Nearlands.Types

namespace Nearlands.Pagemap

open Nearlands.Lib

/-- The statics: `pageMap` as a function on indices, `pageMapAmount` and `pageUsed`. -/
structure State where
  address : Nat → Nat
  isFree : Nat → Bool
  pageMapAmount : Nat
  pageUsed : Nat
  pageMapAmount_lt : pageMapAmount < 2 ^ 64

/-- The amount of the maps of three pages below. -/
theorem three_lt : 3 < 2 ^ 64 := by decide

namespace State

/-- `INCREMENT_PAGE_USAGE()`.  The macro does nothing at the bound, so that the counter can fall
    behind the flags. -/
def incrementPageUsage (s : State) : State :=
  if s.pageUsed < s.pageMapAmount then { s with pageUsed := s.pageUsed + 1 } else s

/-- `DECREMENT_PAGE_USAGE()`.  At 0 it stays, whatever was freed. -/
def decrementPageUsage (s : State) : State :=
  if 0 < s.pageUsed then { s with pageUsed := s.pageUsed - 1 } else s

/-- `pageMap[i].isFree = b`. -/
def setFree (s : State) (i : Nat) (b : Bool) : State := { s with isFree := upd s.isFree i b }

/-- Entry `i` is taken. -/
def takeEntry (i : Nat) (s : State) : State := (s.setFree i false).incrementPageUsage

/-- Entry `i` is given back; it need not have been taken. -/
def giveEntry (i : Nat) (s : State) : State := (s.setFree i true).decrementPageUsage

/-- `MmAllocateSinglePage()`.  The first free entry is taken; its address is returned whatever it
    is. -/
def mmAllocateSinglePage (s : State) : State × Nat :=
  match firstFrom s.isFree s.pageMapAmount 0 with
  | some i => (takeEntry i s, s.address i)
  | none => (s, null)

/-- The inner loop of `MmAllocateMultiplePages`, from `j` on.  `prevAddress` is 0 for the first
    entry and also behind an entry whose address is 0, so that two neighbours are compared only when
    the first of them is not page 0. -/
def checkRun (s : State) (base : Nat) : (left j prevAddress : Nat) → Bool
  | 0, _, _ => true
  | left + 1, j, prevAddress =>
    if s.isFree (base + j) = false then false
    else
      let curAddress := s.address (base + j)
      if prevAddress ≠ 0 ∧ sub64 curAddress prevAddress ≠ pageSize then false
      else checkRun s base left (j + 1) curAddress

/-- The start `i` passes the tests for `amount` pages. -/
def startsRun (s : State) (amount i : Nat) : Bool := s.isFree i && s.checkRun i amount 0 0

/-- `MmAllocateMultiplePages(amount)`; it does not return when no index passes and every `u64` is
    one. -/
def mmAllocateMultiplePages (s : State) (amount : Nat) : Option (State × Nat) :=
  let last := sub64 s.pageMapAmount amount
  match firstFrom (s.startsRun amount) (last + 1) 0 with
  | some i => some (countUp takeEntry i amount s, s.address i)
  | none => if last = 2 ^ 64 - 1 then none else some (s, 1)

/-- `MmFreeSinglePage(pageAddress)`. -/
def mmFreeSinglePage (s : State) (pageAddress : Nat) : State × NearStatus :=
  match firstFrom (fun i => s.address i == pageAddress) s.pageMapAmount 0 with
  | some i => (giveEntry i s, .success)
  | none => (s, .notFound)

/-- `MmFreeMultiplePages(pageAddress, amount)`.  The starts below `pageMapAmount - amount` are
    looked at, one less than the allocation looks at; the flags are set without a look at what they
    are. -/
def mmFreeMultiplePages (s : State) (pageAddress amount : Nat) : State × NearStatus :=
  match firstFrom (fun i => s.address i == pageAddress) (sub64 s.pageMapAmount amount) 0 with
  | some i => (countUp giveEntry i amount s, .success)
  | none => (s, .notFound)

/-! ## Entries -/

variable {s : State} {i n : Nat}

/-- Taking an entry changes its flag and the counter. -/
@[simp] theorem takeEntry_address : (takeEntry i s).address = s.address := by
  unfold takeEntry incrementPageUsage setFree
  split <;> rfl

@[simp] theorem takeEntry_amount : (takeEntry i s).pageMapAmount = s.pageMapAmount := by
  unfold takeEntry incrementPageUsage setFree
  split <;> rfl

@[simp] theorem takeEntry_isFree : (takeEntry i s).isFree = upd s.isFree i false := by
  unfold takeEntry incrementPageUsage setFree
  split <;> rfl

/-- The counter goes up by one, and not beyond `pageMapAmount`; a counter that is beyond it stays. -/
theorem takeEntry_used : (takeEntry i s).pageUsed = max s.pageUsed (min (s.pageUsed + 1)
    s.pageMapAmount) := by
  unfold takeEntry incrementPageUsage setFree
  split
  · rename_i h
    dsimp only at h ⊢
    omega
  · rename_i h
    dsimp only at h ⊢
    omega

/-- Giving one back does the same. -/
@[simp] theorem giveEntry_address : (giveEntry i s).address = s.address := by
  unfold giveEntry decrementPageUsage setFree
  split <;> rfl

@[simp] theorem giveEntry_amount : (giveEntry i s).pageMapAmount = s.pageMapAmount := by
  unfold giveEntry decrementPageUsage setFree
  split <;> rfl

@[simp] theorem giveEntry_isFree : (giveEntry i s).isFree = upd s.isFree i true := by
  unfold giveEntry decrementPageUsage setFree
  split <;> rfl

@[simp] theorem giveEntry_used : (giveEntry i s).pageUsed = s.pageUsed - 1 := by
  unfold giveEntry decrementPageUsage setFree
  split
  · rfl
  · rename_i h
    dsimp only at h ⊢
    omega

/-- From `s` to `s'` the flags of the entries `i` to `i + n` were set to `b`.  Both directions of
    the allocator are of this kind, so the facts about what is free afterwards are stated once for
    it. -/
structure Sets (b : Bool) (i n : Nat) (s s' : State) : Prop where
  address : s'.address = s.address
  size : s'.pageMapAmount = s.pageMapAmount
  inside : ∀ k, i ≤ k → k < i + n → s'.isFree k = b
  outside : ∀ k, ¬ (i ≤ k ∧ k < i + n) → s'.isFree k = s.isFree k

/-- A loop whose turns each set one flag.  The induction is on the number of turns: the first turn
    sets its own flag, and the others do not touch that one again. -/
theorem countUp_sets {b : Bool} {body : Nat → State → State}
    (hbody : ∀ k s, (body k s).address = s.address ∧ (body k s).pageMapAmount = s.pageMapAmount ∧
      (body k s).isFree = upd s.isFree k b) :
    ∀ (n i : Nat) (s : State), Sets b i n s (countUp body i n s)
  | 0, i, s => ⟨rfl, rfl, fun k hk hlt => by omega, fun _ _ => rfl⟩
  | n + 1, i, s => by
    obtain ⟨haddress, hsize, hfree⟩ := hbody i s
    have hrest := countUp_sets hbody n (i + 1) (body i s)
    refine ⟨hrest.address.trans haddress, hrest.size.trans hsize, fun k hk hlt => ?_,
      fun k hk => ?_⟩
    · rcases Nat.eq_or_lt_of_le hk with rfl | hk
      · exact (hrest.outside i (by omega)).trans (by rw [hfree, upd_same])
      · exact hrest.inside k hk (by omega)
    · exact (hrest.outside k (by omega)).trans (by rw [hfree, upd_other (by omega)])

/-- The loop of an allocation. -/
theorem take_sets (n i : Nat) (s : State) : Sets false i n s (countUp takeEntry i n s) :=
  countUp_sets (fun _ _ => ⟨takeEntry_address, takeEntry_amount, takeEntry_isFree⟩) n i s

/-- The loop of a free. -/
theorem give_sets (n i : Nat) (s : State) : Sets true i n s (countUp giveEntry i n s) :=
  countUp_sets (fun _ _ => ⟨giveEntry_address, giveEntry_amount, giveEntry_isFree⟩) n i s

/-- The counter does not go beyond `pageMapAmount`. -/
theorem take_used : ∀ (n i : Nat) (s : State), (countUp takeEntry i n s).pageUsed =
    max s.pageUsed (min (s.pageUsed + n) s.pageMapAmount)
  | 0, i, s => by
    rw [countUp]
    omega
  | n + 1, i, s => by
    rw [countUp, take_used n, takeEntry_used, takeEntry_amount]
    omega

/-- Nor below 0. -/
theorem give_used : ∀ (n i : Nat) (s : State),
    (countUp giveEntry i n s).pageUsed = s.pageUsed - n
  | 0, _, _ => rfl
  | n + 1, i, s => by
    rw [countUp, give_used n, giveEntry_used]
    omega

/-! ## Runs -/

/-- The entries `i` to `i + n` are free, and each address is a page behind the one before it, unless
    that is 0. -/
structure RunAt (s : State) (i n : Nat) : Prop where
  free : ∀ k < n, s.isFree (i + k) = true
  step : ∀ k, k + 1 < n → s.address (i + k) ≠ 0 →
    sub64 (s.address (i + (k + 1))) (s.address (i + k)) = pageSize

/-- The inner loop passes exactly when the entries that are left are a run which also follows the
    address before it.  The address that is handed on plays the part of an accumulator, so the
    statement is for every `prevAddress`, and the induction on the entries left moves it along. -/
theorem checkRun_iff (s : State) (base : Nat) : ∀ (left j prevAddress : Nat),
    s.checkRun base left j prevAddress = true ↔ RunAt s (base + j) left ∧
      (0 < left → prevAddress ≠ 0 → sub64 (s.address (base + j)) prevAddress = pageSize)
  | 0, j, prevAddress => by
    refine iff_of_true rfl ⟨⟨fun k hk => by omega, fun k hk => by omega⟩, fun h => by omega⟩
  | left + 1, j, prevAddress => by
    rw [checkRun]
    by_cases hfree : s.isFree (base + j) = false
    · rw [if_pos hfree]
      refine iff_of_false Bool.false_ne_true fun h => ?_
      -- entry `j` is not free
      have := h.1.free 0 (Nat.succ_pos left)
      exact absurd (hfree.symm.trans this) Bool.false_ne_true
    · rw [if_neg hfree]
      dsimp only
      by_cases hstep : prevAddress ≠ 0 ∧ sub64 (s.address (base + j)) prevAddress ≠ pageSize
      · rw [if_pos hstep]
        -- hstep.2 => its address does not follow the one before it
        exact iff_of_false Bool.false_ne_true fun h => hstep.2 (h.2 (Nat.succ_pos left) hstep.1)
      · rw [if_neg hstep, checkRun_iff s base left]
        constructor
        · -- a run from `j + 1` on that follows entry `j` is one from `j` on
          rintro ⟨hrun, hnext⟩
          refine ⟨⟨fun k hk => ?_, fun k hk => ?_⟩, fun _ h0 => ?_⟩
          · cases k with
            | zero => exact Bool.not_eq_false _ ▸ hfree
            | succ k => rw [show base + j + (k + 1) = base + (j + 1) + k by omega]
                        exact hrun.free k (by omega)
          · cases k with
            | zero => exact hnext (by omega)
            | succ k =>
              rw [show base + j + (k + 1 + 1) = base + (j + 1) + (k + 1) by omega,
                show base + j + (k + 1) = base + (j + 1) + k by omega]
              exact hrun.step k (by omega)
          · exact not_not.mp fun hne => hstep ⟨h0, hne⟩
        · rintro ⟨hrun, -⟩
          refine ⟨⟨fun k hk => ?_, fun k hk => ?_⟩, fun hpos => ?_⟩
          · rw [show base + (j + 1) + k = base + j + (k + 1) by omega]
            exact hrun.free (k + 1) (by omega)
          · rw [show base + (j + 1) + (k + 1) = base + j + (k + 1 + 1) by omega,
              show base + (j + 1) + k = base + j + (k + 1) by omega]
            exact hrun.step (k + 1) (by omega)
          · exact hrun.step 0 (by omega)

/-- A start passes when it is free and begins a run. -/
theorem startsRun_iff (s : State) {amount : Nat} (hpos : 0 < amount) (i : Nat) :
    s.startsRun amount i = true ↔ RunAt s i amount := by
  rw [startsRun, Bool.and_eq_true, checkRun_iff]
  constructor
  · rintro ⟨-, hrun, -⟩
    exact hrun
  · intro hrun
    exact ⟨hrun.free 0 hpos, hrun, fun _ h => absurd rfl h⟩

/-- The first start that passes is taken. -/
theorem alloc_of_first {amount : Nat}
    (h : firstFrom (s.startsRun amount) (sub64 s.pageMapAmount amount + 1) 0 = some i) :
    s.mmAllocateMultiplePages amount = some (countUp takeEntry i amount s, s.address i) := by
  rw [mmAllocateMultiplePages, h]

/-- When none passes, 1 is returned. -/
theorem alloc_of_none {amount : Nat}
    (h : firstFrom (s.startsRun amount) (sub64 s.pageMapAmount amount + 1) 0 = none)
    (hlast : sub64 s.pageMapAmount amount ≠ 2 ^ 64 - 1) :
    s.mmAllocateMultiplePages amount = some (s, 1) := by
  rw [mmAllocateMultiplePages, h]
  exact if_neg hlast

/-- What an allocation did that found a run at `i`. -/
structure Allocates (s : State) (amount i : Nat) (s' : State) : Prop extends
    RunAt s i amount, Sets false i amount s s' where
  inMap : i + amount ≤ s.pageMapAmount
  first : ∀ k < i, ¬ RunAt s k amount
  used : s'.pageUsed = max s.pageUsed (min (s.pageUsed + amount) s.pageMapAmount)

/-- **Allocation.**  A request for at most the pages there are takes the first run, or returns 1 and
    does nothing.  The bounds on the request are those under which the loop over the starts ends at
    the last place a run can be: with `amount ≤ pageMapAmount` the difference does not wrap around,
    and every start it looks at has its whole run in the map. -/
theorem alloc_cases {amount : Nat} (hpos : 0 < amount) (hle : amount ≤ s.pageMapAmount) :
    (∃ i, s.mmAllocateMultiplePages amount = some (countUp takeEntry i amount s, s.address i) ∧
      Allocates s amount i (countUp takeEntry i amount s)) ∨
    s.mmAllocateMultiplePages amount = some (s, 1) ∧
      ∀ i, i + amount ≤ s.pageMapAmount → ¬ RunAt s i amount := by
  have hlt := s.pageMapAmount_lt
  have hlast : sub64 s.pageMapAmount amount = s.pageMapAmount - amount := sub64_of_le hle hlt
  cases hfirst : firstFrom (s.startsRun amount) (sub64 s.pageMapAmount amount + 1) 0 with
  | some i =>
    obtain ⟨-, hi, hruns, hbefore⟩ := firstFrom_eq_some.mp hfirst
    refine .inl ⟨i, alloc_of_first hfirst, (startsRun_iff s hpos i).mp hruns,
      take_sets amount i s, by omega, ?_, take_used amount i s⟩
    intro k hk hrun
    have := hbefore k (Nat.zero_le k) hk
    rw [(startsRun_iff s hpos k).mpr hrun] at this
    exact absurd this.symm Bool.false_ne_true
  | none =>
    refine .inr ⟨alloc_of_none hfirst (by omega), ?_⟩
    intro i hi hrun
    have := firstFrom_eq_none.mp hfirst i (Nat.zero_le i) (by omega)
    rw [(startsRun_iff s hpos i).mpr hrun] at this
    exact absurd this.symm Bool.false_ne_true

/-- A single allocation takes the first free page, or returns `NULL` and does nothing. -/
theorem single_cases (s : State) :
    (∃ i s', s.mmAllocateSinglePage = (s', s.address i) ∧ i < s.pageMapAmount ∧
      s.isFree i = true ∧ Sets false i 1 s s') ∨
    s.mmAllocateSinglePage = (s, null) := by
  rw [mmAllocateSinglePage]
  cases hfirst : firstFrom s.isFree s.pageMapAmount 0 with
  | some i =>
    obtain ⟨-, hi, hfree, -⟩ := firstFrom_eq_some.mp hfirst
    exact .inl ⟨i, _, rfl, by omega, hfree, take_sets 1 i s⟩
  | none => exact .inr rfl

/-- A free of `n` pages that looks at the starts below `bound`. -/
inductive FreeCases (s : State) (pageAddress n bound : Nat) : State × NearStatus → Prop
  | found (i : Nat) (s' : State) (start : i < bound) (address : s.address i = pageAddress)
      (sets : Sets true i n s s') (used : s'.pageUsed = s.pageUsed - n) :
      FreeCases s pageAddress n bound (s', .success)
  | notFound (none : ∀ i < bound, s.address i ≠ pageAddress) :
      FreeCases s pageAddress n bound (s, .notFound)

/-- `MmFreeSinglePage` looks at all entries. -/
theorem freeSingle_cases (s : State) (pageAddress : Nat) :
    FreeCases s pageAddress 1 s.pageMapAmount (s.mmFreeSinglePage pageAddress) := by
  rw [mmFreeSinglePage]
  cases hfirst : firstFrom (fun i => s.address i == pageAddress) s.pageMapAmount 0 with
  | some i =>
    obtain ⟨-, hi, haddr, -⟩ := firstFrom_eq_some.mp hfirst
    exact .found i _ (by omega) (beq_iff_eq.mp haddr) (give_sets 1 i s) (give_used 1 i s)
  | none =>
    refine .notFound fun i hi haddr => ?_
    have := firstFrom_eq_none.mp hfirst i (Nat.zero_le i) (by omega)
    exact absurd haddr (beq_eq_false_iff_ne.mp this)

/-- `MmFreeMultiplePages` leaves the last start out, which is what `free_undoes_iff` is about. -/
theorem freeMultiple_cases {n : Nat} (hle : n ≤ s.pageMapAmount) (pageAddress : Nat) :
    FreeCases s pageAddress n (s.pageMapAmount - n) (s.mmFreeMultiplePages pageAddress n) := by
  have hbound : sub64 s.pageMapAmount n = s.pageMapAmount - n := sub64_of_le hle s.pageMapAmount_lt
  rw [mmFreeMultiplePages, hbound]
  cases hfirst : firstFrom (fun i => s.address i == pageAddress) (s.pageMapAmount - n) 0 with
  | some i =>
    obtain ⟨-, hi, haddr, -⟩ := firstFrom_eq_some.mp hfirst
    exact .found i _ (by omega) (beq_iff_eq.mp haddr) (give_sets n i s) (give_used n i s)
  | none =>
    refine .notFound fun i hi haddr => ?_
    have := firstFrom_eq_none.mp hfirst i (Nat.zero_le i) (by omega)
    exact absurd haddr (beq_eq_false_iff_ne.mp this)

/-- The entries have different addresses.  A free goes by address, so this is what ties it to the
    entries that were allocated. -/
def Distinct (s : State) : Prop :=
  ∀ i j, i < s.pageMapAmount → j < s.pageMapAmount → s.address i = s.address j → i = j

end State

end Nearlands.Pagemap

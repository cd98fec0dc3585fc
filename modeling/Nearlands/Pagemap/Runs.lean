/-
  Runs of the page map.

  A client takes pages and gives back what it has, with the size it was taken with.  In a map of
  different pages, none of them page 0, what it has at any time are entries in a row which are not
  free and whose addresses follow each other; no page is handed out twice, and a free makes no other
  page free (`pages_once`).

  With page 0 in the map the entries of a run need not follow each other (`run_over_zero`): the
  address 0 stands for no address in the search.  `MmInitPhysicalMemoryManager` leaves that page out.
-/
import Nearlands.Lib.Trace
import Nearlands.Pages
import Nearlands.Pagemap.Alloc

namespace Nearlands.Pagemap

open Nearlands.Lib

/-- The allocator, and what has been taken and not given back, as (address, pages). -/
structure Client where
  pmm : State
  live : List (Nat × Nat)

/-- The calls of a client. -/
inductive Call
  | single
  | multiple (amount : Nat)
  | freeSingle (addr : Nat)
  | freeMultiple (addr amount : Nat)

/-- What is left when a free of `a` has answered. -/
def Client.release (c : Client) (a : Nat × Nat) (r : State × NearStatus) : Client :=
  ⟨r.1, if r.2.nrSuccess then c.live.erase a else c.live⟩

/-- A call: requests are for at least one page and no more than there are, and frees are of what is
    live.  A request for more pages than there are is left out, as the search would then run past
    the map, and a free of what is not live would make pages of others free. -/
inductive Step : Client → Call → Client → Prop
  | single (c : Client) : Step c .single
      ⟨c.pmm.mmAllocateSinglePage.1, hold (c.pmm.mmAllocateSinglePage.2, 1) c.live⟩
  | multiple {c : Client} {amount addr : Nat} {s' : State} (hpos : 1 ≤ amount)
      (hle : amount ≤ c.pmm.pageMapAmount)
      (h : c.pmm.mmAllocateMultiplePages amount = some (s', addr)) :
      Step c (.multiple amount) ⟨s', if addr = 1 then c.live else (addr, amount) :: c.live⟩
  | freeSingle {c : Client} {addr : Nat} (hlive : (addr, 1) ∈ c.live) :
      Step c (.freeSingle addr) (c.release (addr, 1) (c.pmm.mmFreeSinglePage addr))
  | freeMultiple {c : Client} {addr amount : Nat} (hlive : (addr, amount) ∈ c.live) :
      Step c (.freeMultiple addr amount)
        (c.release (addr, amount) (c.pmm.mmFreeMultiplePages addr amount))

/-- A map of different pages, none of them page 0.  This is a map as `MmInitPhysicalMemoryManager`
    leaves it, where the entries it fills are concerned (`lists_usable_iff`). -/
structure Paged (s : State) : Prop where
  distinct : s.Distinct
  aligned : ∀ i < s.pageMapAmount, s.address i % 0x1000 = 0
  nonzero : ∀ i < s.pageMapAmount, s.address i ≠ 0
  lt : ∀ i < s.pageMapAmount, s.address i < 2 ^ 64

variable {s s' : State} {i n : Nat}

/-- Setting flags keeps it. -/
theorem Paged.of_sets {b : Bool} (hp : Paged s) (h : s.Sets b i n s') : Paged s' := by
  obtain ⟨hdist, haligned, hnonzero, hlt⟩ := hp
  refine ⟨?_, ?_, ?_, ?_⟩
  · rwa [State.Distinct, h.size, h.address]
  · rwa [h.size, h.address]
  · rwa [h.size, h.address]
  · rwa [h.size, h.address]

/-- The addresses of a run follow each other.  The induction is on the entry; no address is 0, so
    each is compared with the one before it. -/
theorem run_address (hp : Paged s) (hr : s.RunAt i n) (hin : i + n ≤ s.pageMapAmount) :
    ∀ k < n, s.address (i + k) = s.address i + k * pageSize := by
  intro k
  induction k with
  | zero =>
    intro _
    rw [Nat.zero_mul]
    rfl
  | succ k ih =>
    intro hk
    have hprev := ih (by omega)
    have hstep := hr.step k hk (hp.nonzero (i + k) (by omega))
    have hlt := hp.lt (i + k) (by omega)
    have hlt' := hp.lt (i + (k + 1)) (by omega)
    have haligned := hp.aligned (i + k) (by omega)
    have hnonzero := hp.nonzero (i + (k + 1)) (by omega)
    rw [sub64, pageSize] at hstep
    rw [pageSize] at hprev ⊢
    omega

/-- The entries `i` to `i + n` hold the pages of `a`. -/
structure Holds (s : State) (a : Nat × Nat) (i : Nat) : Prop where
  pos : 0 < a.2
  inMap : i + a.2 ≤ s.pageMapAmount
  taken : ∀ k < a.2, s.isFree (i + k) = false
  address : ∀ k < a.2, s.address (i + k) = a.1 + k * pageSize

variable {a b : Nat × Nat} {j : Nat}

/-- The address of a run is that of its first entry. -/
theorem Holds.start (h : Holds s a i) : s.address i = a.1 := by
  have := h.address 0 h.pos
  rwa [Nat.zero_mul] at this

/-- Two runs in different entries have different pages. -/
theorem apart_of_index (hp : Paged s) (ha : Holds s a i) (hb : Holds s b j)
    (hij : ∀ k < a.2, ∀ l < b.2, i + k ≠ j + l) : (runRegion a).Apart (runRegion b) := by
  have hstart := ha.start
  have hstart' := hb.start
  have hin := ha.inMap
  have hin' := hb.inMap
  have hpos := ha.pos
  have hpos' := hb.pos
  have haligned := hp.aligned i (by omega)
  have haligned' := hp.aligned j (by omega)
  -- a run that begins in the other one begins at one of its entries
  have hinside : ∀ {x y : Nat × Nat} {u v : Nat}, Holds s x u → Holds s y v →
      (∀ k < x.2, u + k ≠ v) → s.address u % 0x1000 = 0 → s.address v % 0x1000 = 0 →
      ¬ (x.1 ≤ y.1 ∧ y.1 < x.1 + x.2 * pageSize) := by
    intro x y u v hx hy hne hu hv ⟨hle, hlt⟩
    have hxs := hx.start
    have hys := hy.start
    have hk : (y.1 - x.1) / 0x1000 < x.2 := by
      rw [pageSize] at hlt
      omega
    have haddr := hx.address _ hk
    have hinx := hx.inMap
    have hiny := hy.inMap
    have hposy := hy.pos
    refine hne _ hk (hp.distinct _ v (by omega) (by omega) ?_)
    rw [haddr, hys, pageSize]
    omega
  have h1 := hinside ha hb (fun k hk => hij k hk 0 hpos') haligned haligned'
  have h2 := hinside hb ha (fun l hl => (hij 0 hpos l hl).symm) haligned' haligned
  rw [Region.Apart, runRegion, runRegion]
  dsimp only
  omega

/-- Runs of different pages are in different entries. -/
theorem index_of_apart (ha : Holds s a i) (hb : Holds s b j)
    (hab : (runRegion a).Apart (runRegion b)) {k l : Nat} (hk : k < a.2) (hl : l < b.2) :
    i + k ≠ j + l := by
  intro heq
  have haddr := ha.address k hk
  rw [heq, hb.address l hl] at haddr
  have hk' : k * pageSize + pageSize ≤ a.2 * pageSize := by
    rw [← Nat.succ_mul]
    exact Nat.mul_le_mul_right _ hk
  have hl' : l * pageSize + pageSize ≤ b.2 * pageSize := by
    rw [← Nat.succ_mul]
    exact Nat.mul_le_mul_right _ hl
  rw [Region.Apart, runRegion, runRegion] at hab
  dsimp only at hab
  have hpage : 0 < pageSize := by decide
  omega

/-- What is held elsewhere stays held.  Flags that are set to `false` do no harm; those set to
    `true` are asked to be other entries. -/
theorem Holds.of_sets {v : Bool} (hb : Holds s b j) (h : s.Sets v i n s')
    (hne : v = true → ∀ l < b.2, ¬ (i ≤ j + l ∧ j + l < i + n)) : Holds s' b j where
  pos := hb.pos
  inMap := by
    rw [h.size]
    exact hb.inMap
  taken := by
    intro l hl
    by_cases hin : i ≤ j + l ∧ j + l < i + n
    · cases v with
      | true => exact absurd hin (hne rfl l hl)
      | false => exact h.inside _ hin.1 hin.2
    · rw [h.outside _ hin]
      exact hb.taken l hl
  address := by
    rw [h.address]
    exact hb.address

/-- What is live is held, and no page twice.  What is held is held in entries, and the pages of two
    live runs are apart.  The second part is what a client is told, and the first what carries the
    induction: a free by address finds the entries of the run, since no two entries have one
    address. -/
structure Inv (s₀ : State) (c : Client) : Prop where
  address : c.pmm.address = s₀.address
  size : c.pmm.pageMapAmount = s₀.pageMapAmount
  paged : Paged c.pmm
  held : ∀ a ∈ c.live, ∃ i, Holds c.pmm a i
  apart : c.live.Pairwise fun a b => (runRegion a).Apart (runRegion b)

variable {s₀ : State} {c c' : Client}

/-- A run is taken.  The entries taken were free and those of live runs are not, so the new run is
    in other entries, and hence in other pages. -/
theorem Inv.take (hinv : Inv s₀ c) (hpos : 0 < n) (hin : i + n ≤ c.pmm.pageMapAmount)
    (hr : c.pmm.RunAt i n) (hs : c.pmm.Sets false i n s') :
    Inv s₀ ⟨s', (c.pmm.address i, n) :: c.live⟩ := by
  have hnew : Holds s' (c.pmm.address i, n) i := by
    refine ⟨hpos, by rw [hs.size]; exact hin, fun k hk => ?_, fun k hk => ?_⟩
    · exact hs.inside _ (Nat.le_add_right i k) (Nat.add_lt_add_left hk i)
    · rw [hs.address]
      exact run_address hinv.paged hr hin k hk
  have hold : ∀ b ∈ c.live, ∃ j, Holds c.pmm b j ∧ Holds s' b j := by
    intro b hb
    obtain ⟨j, hj⟩ := hinv.held b hb
    exact ⟨j, hj, hj.of_sets hs fun h => absurd h Bool.false_ne_true⟩
  have hpaged := hinv.paged.of_sets hs
  refine ⟨hs.address.trans hinv.address, hs.size.trans hinv.size, hpaged, ?_, ?_⟩
  · intro a ha
    rcases List.mem_cons.mp ha with rfl | ha
    · exact ⟨i, hnew⟩
    · obtain ⟨j, -, hj⟩ := hold a ha
      exact ⟨j, hj⟩
  · refine List.pairwise_cons.mpr ⟨fun b hb => ?_, hinv.apart⟩
    obtain ⟨j, hbefore, hj⟩ := hold b hb
    refine apart_of_index hpaged hnew hj fun k hk l hl heq => ?_
    -- one entry cannot be free and taken
    have hfree := hr.free k hk
    rw [heq, hbefore.taken l hl] at hfree
    exact Bool.false_ne_true hfree

/-- A run is given back. -/
theorem Inv.give (hinv : Inv s₀ c) (ha : a ∈ c.live) (hi : Holds c.pmm a i)
    (hs : c.pmm.Sets true i a.2 s') : Inv s₀ ⟨s', c.live.erase a⟩ := by
  refine ⟨hs.address.trans hinv.address, hs.size.trans hinv.size, hinv.paged.of_sets hs, ?_,
    hinv.apart.sublist List.erase_sublist⟩
  intro b hb
  obtain ⟨j, hj⟩ := hinv.held b (List.mem_of_mem_erase hb)
  refine ⟨j, hj.of_sets hs fun _ l hl hin => ?_⟩
  -- the pages of the others are different ones
  have hab : (runRegion a).Apart (runRegion b) := by
    have hperm := List.perm_cons_erase ha
    have hpair : (a :: c.live.erase a).Pairwise fun a b => (runRegion a).Apart (runRegion b) :=
      hperm.pairwise hinv.apart fun h => h.symm
    exact (List.pairwise_cons.mp hpair).1 b hb
  exact index_of_apart hi hj hab (k := j + l - i) (by omega) hl (by omega)

/-- A free finds the entries that hold what is freed. -/
theorem found_start (hp : Paged s) (hi : Holds s a i) (hj : j < s.pageMapAmount)
    (haddr : s.address j = a.1) : j = i := by
  have hin := hi.inMap
  have hpos := hi.pos
  exact hp.distinct j i hj (by omega) (haddr.trans hi.start.symm)

/-- **A free** of what is live gives back its pages, or does nothing. -/
theorem Inv.release (hinv : Inv s₀ c) (ha : a ∈ c.live) {bound : Nat}
    (hbound : bound ≤ c.pmm.pageMapAmount) {r : State × NearStatus}
    (hr : c.pmm.FreeCases a.1 a.2 bound r) : Inv s₀ (c.release a r) := by
  obtain ⟨i, hi⟩ := hinv.held a ha
  cases hr with
  | found j s' hj haddr hsets =>
    obtain rfl := found_start hinv.paged hi (by omega) haddr
    exact hinv.give ha hi hsets
  | notFound => exact hinv

/-- **A call** keeps the invariant.  One case for each call: an allocation takes a run or does
    nothing, and a free is of a live run. -/
theorem step_inv {e : Call} (hinv : Inv s₀ c) (h : Step c e c') : Inv s₀ c' := by
  cases h with
  | single =>
    rcases c.pmm.single_cases with ⟨i, s', heq, hi, hfree, hsets⟩ | heq
    · rw [heq, hold_some (hinv.paged.nonzero i hi)]
      refine hinv.take Nat.one_pos hi ⟨fun k hk => ?_, fun k hk => by omega⟩ hsets
      rwa [Nat.lt_one_iff.mp hk]
    · rw [heq]
      exact hinv
  | multiple hpos hle h =>
    rcases State.alloc_cases hpos hle with ⟨i, heq, ht⟩ | ⟨heq, -⟩
    · rw [heq] at h
      obtain ⟨rfl, rfl⟩ := Prod.mk.inj (Option.some.inj h)
      have hin := ht.inMap
      have haligned := hinv.paged.aligned i (by omega)
      rw [if_neg (by omega)]
      exact hinv.take hpos ht.inMap ht.toRunAt ht.toSets
    · rw [heq] at h
      obtain ⟨rfl, rfl⟩ := Prod.mk.inj (Option.some.inj h)
      exact hinv
  | freeSingle hlive =>
    exact hinv.release hlive (Nat.le_refl _) (State.freeSingle_cases _ _)
  | freeMultiple hlive =>
    obtain ⟨i, hi⟩ := hinv.held _ hlive
    have hle := Nat.le_trans (Nat.le_add_left _ i) hi.inMap
    exact hinv.release hlive (Nat.sub_le _ _) (State.freeMultiple_cases hle _)

/-- Nothing is live at the start. -/
theorem inv_start (hp : Paged s₀) : Inv s₀ ⟨s₀, []⟩ :=
  ⟨rfl, rfl, hp, fun _ ha => absurd ha List.not_mem_nil, .nil⟩

/-- Only the pages of `a` become free. -/
def OnlyFrees (a : Nat × Nat) (s s' : State) : Prop :=
  ∀ j, s'.isFree j = true → s.isFree j = true ∨
    j < s.pageMapAmount ∧ (runRegion a).Has (s.address j)

/-- The entries a free sets are those that hold the run. -/
theorem Inv.onlyFrees (hinv : Inv s₀ c) (ha : a ∈ c.live) {bound : Nat}
    (hbound : bound ≤ c.pmm.pageMapAmount) {r : State × NearStatus}
    (hr : c.pmm.FreeCases a.1 a.2 bound r) : OnlyFrees a c.pmm r.1 := by
  obtain ⟨i, hi⟩ := hinv.held a ha
  intro j hfree
  cases hr with
  | notFound => exact .inl hfree
  | found l s' hl haddr hsets =>
    obtain rfl := found_start hinv.paged hi (by omega) haddr
    by_cases hin : l ≤ j ∧ j < l + a.2
    · refine .inr ⟨Nat.lt_of_lt_of_le hin.2 hi.inMap, ?_⟩
      have hk : j - l < a.2 := by omega
      have haddr := hi.address (j - l) hk
      have hmul : (j - l) * pageSize < a.2 * pageSize := Nat.mul_lt_mul_of_pos_right hk (by decide)
      rw [show l + (j - l) = j by omega] at haddr
      rw [Region.Has, runRegion, haddr]
      dsimp only
      omega
    · rw [hsets.outside j hin] at hfree
      exact .inl hfree

/-- **No page is handed out twice.**  In every run on a map of different pages, none of them page 0:
    what is live has different pages, a run that is handed out begins with entries that are free and
    follow each other, and a free of what is live makes no other page free.  It is asked that no
    page is page 0: behind that address the search compares nothing, and `run_over_zero` has a run
    of two pages that do not follow each other. -/
theorem pages_once (hp : Paged s₀) {h : List Call} (ht : Trace Step ⟨s₀, []⟩ h c) :
    (c.live.Pairwise fun a b => (runRegion a).Apart (runRegion b)) ∧
    (∀ n s' addr, 1 ≤ n → n ≤ c.pmm.pageMapAmount →
      c.pmm.mmAllocateMultiplePages n = some (s', addr) → addr ≠ 1 →
      ∃ i, i + n ≤ c.pmm.pageMapAmount ∧ ∀ k < n, c.pmm.isFree (i + k) = true ∧
        c.pmm.address (i + k) = addr + k * pageSize) ∧
    (∀ addr, (addr, 1) ∈ c.live → OnlyFrees (addr, 1) c.pmm (c.pmm.mmFreeSinglePage addr).1) ∧
    ∀ addr n, (addr, n) ∈ c.live →
      OnlyFrees (addr, n) c.pmm (c.pmm.mmFreeMultiplePages addr n).1 := by
  have hinv : Inv s₀ c := Trace.inv (inv_start hp) (fun _ _ _ hi hs => step_inv hi hs) ht
  refine ⟨hinv.apart, fun n s' addr hpos hle halloc hne => ?_, fun addr hlive => ?_,
    fun addr n hlive => ?_⟩
  · rcases State.alloc_cases hpos hle with ⟨i, heq, htaken⟩ | ⟨heq, -⟩
    · rw [heq] at halloc
      obtain ⟨rfl, rfl⟩ := Prod.mk.inj (Option.some.inj halloc)
      exact ⟨i, htaken.inMap, fun k hk => ⟨htaken.free k hk,
        run_address hinv.paged htaken.toRunAt htaken.inMap k hk⟩⟩
    · rw [heq] at halloc
      exact absurd (Prod.mk.inj (Option.some.inj halloc)).2.symm hne
  · exact hinv.onlyFrees hlive (Nat.le_refl _) (State.freeSingle_cases _ _)
  · obtain ⟨i, hi⟩ := hinv.held _ hlive
    have hle := Nat.le_trans (Nat.le_add_left _ i) hi.inMap
    exact hinv.onlyFrees hlive (Nat.sub_le _ _) (State.freeMultiple_cases hle _)

/-- Three pages in a row. -/
def three : State := ⟨fun i => 0x1000 * (i + 1), fun _ => true, 3, 0, by decide⟩

/-- They are different pages, and page 0 is not among them. -/
theorem three_paged : Paged three where
  distinct := fun i j _ _ h => Nat.add_right_cancel (Nat.eq_of_mul_eq_mul_left (by decide) h)
  aligned := fun i _ => Nat.mul_mod_right 0x1000 (i + 1)
  nonzero := by decide
  lt := by decide

/-- After the first two were handed out together and came back. -/
def pairBack : Client := Client.release ⟨countUp State.takeEntry 0 2 three, [(0x1000, 2)]⟩ (0x1000, 2)
  ((countUp State.takeEntry 0 2 three).mmFreeMultiplePages 0x1000 2)

/-- They are free then, and handed out again. -/
theorem pair_once : Trace Step ⟨three, []⟩ [.freeMultiple 0x1000 2, .multiple 2] pairBack ∧
    pairBack.live = [] ∧ ∃ i, i + 2 ≤ 3 ∧ ∀ k < 2, pairBack.pmm.isFree (i + k) = true ∧
      pairBack.pmm.address (i + k) = 0x1000 + k * pageSize := by
  have htake : Step ⟨three, []⟩ (.multiple 2) ⟨countUp State.takeEntry 0 2 three, [(0x1000, 2)]⟩ :=
    .multiple (c := ⟨three, []⟩) (by decide) (by decide)
      (State.alloc_of_first (i := 0) (by decide +kernel))
  have hback : Step ⟨countUp State.takeEntry 0 2 three, [(0x1000, 2)]⟩ (.freeMultiple 0x1000 2)
      pairBack := .freeMultiple List.mem_cons_self
  have run := (Trace.start.snoc htake).snoc hback
  exact ⟨run, by decide +kernel, (pages_once three_paged run).2.1 2 _ _ (by decide) (by decide)
    (State.alloc_of_first (i := 0) (by decide +kernel)) (by decide)⟩

/-- Page 0, and a page far behind it. -/
def zeroFirst : State := ⟨fun i => 0x5000 * i, fun _ => true, 2, 0, by decide⟩

/-- **A run over page 0.**  The two pages are handed out as a run. -/
theorem run_over_zero : zeroFirst.Distinct ∧ (∀ i < 2, zeroFirst.address i % 0x1000 = 0) ∧
    zeroFirst.mmAllocateMultiplePages 2 = some (countUp State.takeEntry 0 2 zeroFirst, 0) ∧
    ¬ ∃ i, i + 2 ≤ 2 ∧ ∀ k < 2, zeroFirst.isFree (i + k) = true ∧
      zeroFirst.address (i + k) = 0 + k * pageSize := by
  refine ⟨fun i j _ _ h => Nat.eq_of_mul_eq_mul_left (by decide) h, by decide,
    State.alloc_of_first (by decide +kernel), ?_⟩
  rintro ⟨i, hi, hrun⟩
  obtain rfl : i = 0 := by omega
  exact absurd (hrun 1 (by decide)).2 (by decide)

end Nearlands.Pagemap

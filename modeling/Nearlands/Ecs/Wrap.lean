/-
  The handles run out.

  A handle is an archetype index and a slot number of 32 bits each, and the slot counter of an
  archetype is a `u32`.  Nothing stops the store at `2 ^ 32` of either, and the law of the store
  (`store_law`) fails there, although no allocation was refused: an entity that is alive cannot be
  reached by its handle any more (`slots_run_out`), or never could be (`archeTypes_run_out`).

  Runs of that length are not written down but shown to exist.  One more creation is always possible
  (`creation_exists`) as long as memory lasts, and it lasts: with all answers taken in ascending
  order, the bound `B` of what is held grows by at most 8192 bytes for each record of capacity that
  an array grows by, and capacities are at most three times the number of records in use.
-/
import Nearlands.Ecs.Bounds

namespace Nearlands.Ecs

open Nearlands.Lib Nearlands.Lib.AllocLog

variable {s s' : State} {own : Nat → Option Owner} {t t' : Table} {B i : Nat} {comps : List Nat}

/-! ## What growth costs -/

/-- An array that grows takes at most 8192 bytes for each record of capacity it gains.  Tripling
    from 15 on is cheap: the price of a record is bounded by its size, and the rounding to pages by
    the fact that at least 15 records are gained. -/
theorem growth_cost {cap sizeof : Nat} (hcap : cap = 0 ∨ 15 ≤ cap) (hlt : cap < 2 ^ 40)
    (hs : sizeof = 112 ∨ sizeof = 144) :
    let newCap := if cap = 0 then 15 else w64 (cap * 3)
    let pages := inPages (w64 (newCap * sizeof))
    0 < pages ∧ pages * 0x1000 + 8192 * cap ≤ 8192 * newCap ∧ cap ≤ newCap ∧
      newCap ≤ 3 * cap + 15 := by
  obtain ⟨newCap, hnew, hfirst, hle⟩ : ∃ newCap, (if cap = 0 then 15 else w64 (cap * 3)) = newCap ∧
      (cap = 0 ∨ newCap = cap * 3) ∧ 15 ≤ newCap ∧ newCap ≤ 3 * cap + 15 := by
    rcases hcap with rfl | hcap
    · exact ⟨15, rfl, Or.inl rfl, by omega⟩
    · exact ⟨cap * 3, by rw [if_neg (by omega), w64_of_lt (by omega)], Or.inr rfl, by omega⟩
  rw [hnew]
  dsimp only
  rcases hs with rfl | rfl
  · rw [w64_of_lt (by omega), inPages_of_lt (by omega)]
    omega
  · rw [w64_of_lt (by omega), inPages_of_lt (by omega)]
    omega

/-- A capacity is 0 or at least 15. -/
theorem ArrayIs.capacity_cases {log : List AllocCall} {o : Owner} {sizeof cap base pages : Nat}
    (h : ArrayIs log own o sizeof cap base pages) : cap = 0 ∨ 15 ≤ cap := by
  cases h with
  | empty => exact Or.inl rfl
  | grown k => exact Or.inr (Nat.le_mul_of_pos_right 15 (Nat.pow_pos (by decide)))

/-- A growing array that is answered with memory above all that is held.  The old run goes back
    after the new one is taken, which `Below` does not count on. -/
theorem reallocLog_below {log : List AllocCall} (h : Below B log) (hg : Good log) (h0 : B ≠ 0)
    {pages : Nat} (hp : 0 < pages) (hend : B + pages * 0x1000 < 2 ^ 64) (memory : Nat) :
    Good (reallocLog memory pages B log) ∧
      Below (B + pages * 0x1000) (reallocLog memory pages B log) := by
  obtain ⟨hg', h'⟩ := h.take hg h0 (show 0 < pages * 0x1000 by omega) hend
  rw [reallocLog, if_neg (show ¬ B = null from h0)]
  split
  · exact ⟨hg', h'⟩
  · exact ⟨hg', h'.give memory⟩

/-- From `cap` to `cap'` records, and from `B` to `B'`: memory is taken for the records gained.  The
    old run is given back and not counted: the bound only goes up.  That a capacity is at most three
    times what is used (and 15) is what keeps the total in proportion to the number of records. -/
structure Grew (used cap cap' B B' : Nat) : Prop where
  cost : B' + 8192 * cap ≤ B + 8192 * cap'
  bound : B ≤ B'
  capacity : cap' = cap ∨ cap' ≤ 3 * used + 15

/-- The array of archetypes can always get its memory.  The answer is `B` itself, the first address
    above everything that is held. -/
theorem growArcheTypes_exists (h : Shows s own t) (hb : Below B s.memLog) (h0 : B ≠ 0)
    (hB : B < 2 ^ 60) (hcap : s.ataCapacity < 2 ^ 40) :
    ∃ s₁ B₁, s.growArcheTypes B = some s₁ ∧ Good s₁.memLog ∧ Below B₁ s₁.memLog ∧
      s₁.ataIndex = t.count ∧ Grew t.count s.ataCapacity s₁.ataCapacity B B₁ := by
  rw [State.growArcheTypes]
  by_cases hfull : s.ataCapacity ≤ s.ataIndex
  · obtain ⟨hp, hcost, hle, hnew⟩ := growth_cost h.array.capacity_cases hcap (Or.inl rfl)
    rw [h.count] at hfull
    rw [h.count, if_pos hfull, if_neg (show ¬ B = null from h0)]
    obtain ⟨hg', hb'⟩ := reallocLog_below hb h.good h0 hp (by omega) s.archeTypeArray
    refine ⟨_, _, rfl, hg', hb', rfl, ?_, Nat.le_add_right _ _, Or.inr ?_⟩
    · dsimp only
      omega
    · dsimp only
      omega
  · rw [if_neg hfull]
    exact ⟨s, B, rfl, h.good, hb, h.count, Nat.le_refl _, Nat.le_refl _, Or.inl rfl⟩

/-- `EcsGetArcheType` returns once its array has room; a row it adds has no array of entities. -/
theorem ecsGetArcheType_exists {s₁ : State} {mem : Nat} (hgrow : s.growArcheTypes mem = some s₁)
    (components : Nat → Nat) (n : Nat) :
    ∃ s₂ i, s.ecsGetArcheType mem components n = some (s₂, i) ∧ s₂.memLog = s₁.memLog ∧
      s₂.ataCapacity = s₁.ataCapacity ∧
      (s₁.ataIndex ≤ i → (s₂.archeType i).capacity = 0 ∧ (s₂.archeType i).index = 0) := by
  rw [State.ecsGetArcheType, hgrow]
  dsimp only
  cases hfind : s₁.findArcheType components n with
  | some i =>
    have hi := List.mem_range.mp (List.mem_of_find?_eq_some hfind)
    exact ⟨s₁, i, rfl, rfl, rfl, fun hle => absurd hi (Nat.not_lt.mpr hle)⟩
  | none =>
    have hnew := archeType_set (s := s₁) (i := s₁.ataIndex) fun _ => { ArcheType.zero with
      components := fun i => if i < n then components i else 0
      componentAmount := n }
    exact ⟨_, _, rfl, rfl, rfl, fun _ =>
      ⟨congrArg ArcheType.capacity hnew, congrArg ArcheType.index hnew⟩⟩

/-- An array of entities can always get its memory. -/
theorem growEntities_exists (h : Shows s own t) (hi : i < t.count) (hb : Below B s.memLog)
    (h0 : B ≠ 0) (hB : B < 2 ^ 60) (hcap : (s.archeType i).capacity < 2 ^ 40) :
    ∃ B₁, Good (s.growEntities B i).1.memLog ∧ Below B₁ (s.growEntities B i).1.memLog ∧
      (s.growEntities B i).1.ataCapacity = s.ataCapacity ∧
      Grew (t.row i).index (s.archeType i).capacity
        ((s.growEntities B i).1.archeType i).capacity B B₁ := by
  have hrow := h.row i hi
  rw [State.growEntities]
  dsimp only
  by_cases hfull : (s.archeType i).capacity ≤ (s.archeType i).index
  · obtain ⟨hp, hcost, hle, hnew⟩ := growth_cost hrow.array.capacity_cases hcap (Or.inr rfl)
    rw [hrow.index] at hfull
    rw [hrow.index, if_pos hfull, if_neg (show ¬ B = null from h0)]
    obtain ⟨hg', hb'⟩ := reallocLog_below hb h.good h0 hp (by omega) (s.archeType i).entities
    refine ⟨_, hg', hb', rfl, ?_⟩
    rw [archeType_set]
    refine ⟨?_, Nat.le_add_right _ _, Or.inr ?_⟩
    · dsimp only
      omega
    · dsimp only
      omega
  · rw [if_neg hfull]
    exact ⟨B, h.good, hb, rfl, Nat.le_refl _, Nat.le_refl _, Or.inl rfl⟩

/-! ## One more creation -/

/-- A slot is taken from no allocator when none is free. -/
theorem takeSlot_plain (h : Shows s own t) (hi : i < t.count) (hq : (t.row i).queue = []) :
    (s.takeSlot i).1.memLog = s.memLog ∧ (s.takeSlot i).1.ataCapacity = s.ataCapacity := by
  have hrow := h.row i hi
  have hnone : (s.archeType i).initial = null := hrow.queue.first_eq_zero.mpr (by rw [hq]; rfl)
  rw [State.takeSlot]
  dsimp only
  rw [if_neg (fun h0 => h0 hnone)]
  exact ⟨rfl, rfl⟩

/-- Filling a slot writes an entity and no archetype. -/
theorem fillSlot_keeps (s : State) (mem i j : Nat) (components : Nat → Nat) (n : Nat) :
    (s.fillSlot mem i j components n).1.ataCapacity = s.ataCapacity ∧
    ∀ i', (s.fillSlot mem i j components n).1.archeType i' = s.archeType i' := by
  rw [State.fillSlot]
  dsimp only
  split <;> exact ⟨rfl, fun _ => rfl⟩

/-- Registered components fit in the arena that is asked for them, which is as large as they are.
    With the bound nothing wraps, so the arena is as large as the sum of what is pushed. -/
theorem fits_of_registered (hlen : comps.length ≤ ecsCompSize)
    (hreg : ∀ c ∈ comps, 0 < c ∧ c < s.curComponentIndex)
    (hsum : (comps.map s.componentSize).sum < 2 ^ 62) :
    s.ecsGetSizeOfAllComponents (arrayOf comps) comps.length =
      (comps.map s.componentSize).sum ∧ s.Fits comps := by
  have htotal := offset_length s comps
  have hsize : s.ecsGetSizeOfAllComponents (arrayOf comps) comps.length =
      (comps.map s.componentSize).sum := by
    rw [ecsGetSizeOfAllComponents_eq (Nat.lt_of_le_of_lt hlen (by decide))
      fun k hk => (hreg _ (arrayOf_mem hk)).2, w64_of_lt]
    · exact htotal
    · show offset (s.sizeOf comps) comps.length < _
      omega
  refine ⟨hsize, fun k hk => ?_⟩
  have hk' := offset_add_le (s.sizeOf comps) hk
  rw [hsize, offset_succ]
  show w64 (offset (s.sizeOf comps) k + s.sizeOf comps k) ≤ _
  rw [w64_of_lt (by omega)]
  exact hk'.trans (Nat.le_of_eq htotal)

/-- A call as the law of the store supposes them, with every allocation granted: entities get
    registered types whose sizes add up to less than `2 ^ 62`.  How many archetypes and slots are in
    use is left open.  These are the steps of `store_law` without its bound on the counters, and
    with no refusal at all: so what goes wrong in such a run goes wrong because of the counters
    alone. -/
def GrantedStep (s : State) (e : Event) (s' : State) : Prop :=
  Step s e s' ∧ ∀ comps r, e = .create comps r →
    (∀ c ∈ comps, 0 < c ∧ c < s.curComponentIndex) ∧
    (comps.map s.componentSize).sum < 2 ^ 62 ∧ ∃ h, r = .ok h

/-- What a creation in row `i` has done: the row's next slot holds a new entity, and memory was
    taken for it and for the records that the two arrays gained.  The last field is the account:
    what the array of archetypes gained, what the array of entities gained, and the arena. -/
structure Made (s s' : State) (t t' : Table) (comps : List Nat) (B B' i : Nat) : Prop where
  row : i < (t.withRow comps i).count
  list : ((t.withRow comps i).row i).comps = comps
  table : ∃ a p, t' = (t.withRow comps i).put i (.alive a p)
  data : SameData s s'
  below : Below B' s'.memLog
  grew : ∃ B₁ B₂ cap, Grew t.count s.ataCapacity s'.ataCapacity B B₁ ∧
    (i < t.count → cap = (s.archeType i).capacity) ∧ (t.count ≤ i → cap = 0) ∧
    Grew ((t.withRow comps i).row i).index cap (s'.archeType i).capacity B₁ B₂ ∧
    B' = B₂ + (comps.map s.componentSize).sum

/-- **One more creation is possible** while memory lasts.  The five phases of `EcsCreateEntity` in
    turn, each asking for memory at the bound that the one before it left.  The bounds on `B` and on
    the capacities are far above what `2 ^ 32` creations come to, and are only there so that nothing
    wraps on the way. -/
theorem creation_exists (h : Shows s own t) (hset : t.Settled) (comps : List Nat)
    (hlen : comps.length ≤ ecsCompSize)
    (hreg : ∀ c ∈ comps, 0 < c ∧ c < s.curComponentIndex)
    (hpos : 0 < (comps.map s.componentSize).sum) (hsum : (comps.map s.componentSize).sum ≤ 80)
    (hb : Below B s.memLog) (h0 : B ≠ 0) (hB : B < 2 ^ 59) (hcap : s.ataCapacity < 2 ^ 40)
    (hold : ∀ i < t.count, (t.row i).comps = comps →
      (t.row i).queue = [] ∧ (s.archeType i).capacity < 2 ^ 40) :
    ∃ s' own' t' i B', Shows s' own' t' ∧ t'.Settled ∧ Made s s' t t' comps B B' i ∧
      GrantedStep s
        (.create comps (.ok (ecsEncodeHandle i ((t.withRow comps i).row i).take.2))) s' := by
  obtain ⟨hsize, hfits⟩ := fits_of_registered hlen hreg (by omega)
  -- the array of archetypes, and the archetype
  obtain ⟨s₁, B₁, hgrow, hg₁, hb₁, hindex₁, hgrew₁⟩ := growArcheTypes_exists h hb h0 (by omega) hcap
  obtain ⟨s₂, i, hget, hlog₂, hata₂, hnew₂⟩ :=
    ecsGetArcheType_exists hgrow (arrayOf comps) comps.length
  obtain ⟨hd₂, hi, hcomps, hsame₂, own₂, h₂⟩ := ecsGetArcheType_shows h hget (by rw [hlog₂]; exact hg₁)
  rw [listOf_getD] at hi hcomps h₂
  have hroom := h.room
  have hata : s₁.ataCapacity < 2 ^ 42 := by
    rcases hgrew₁.capacity with he | hle <;> omega
  have hbound₁ := hgrew₁.cost
  have hle₁ := hgrew₁.bound
  -- the row has no free slots and a capacity that can be tripled
  have hrow : ((t.withRow comps i).row i).queue = [] ∧ (s₂.archeType i).capacity < 2 ^ 40 ∧
      (i < t.count → (s₂.archeType i).capacity = (s.archeType i).capacity) ∧
      (t.count ≤ i → (s₂.archeType i).capacity = 0) := by
    rcases withRow_cases hi with ⟨hlt, he⟩ | ⟨hc, he⟩
    · rw [he] at hcomps ⊢
      obtain ⟨hq, hc⟩ := hold i hlt hcomps
      rw [hsame₂ i hlt]
      exact ⟨hq, hc, fun _ => rfl, fun hle => absurd hlt (Nat.not_lt.mpr hle)⟩
    · obtain ⟨hzero, -⟩ := hnew₂ (by rw [hindex₁, hc])
      rw [he, hc, show (t.addRow comps).row t.count = ⟨comps, 0, [], fun _ => .lost⟩ from upd_same,
        ← hc, hzero]
      exact ⟨rfl, by omega, fun hlt => absurd hlt (by omega), fun _ => rfl⟩
  obtain ⟨hq, hsmall, hcapOld, hcapNew⟩ := hrow
  -- the array of entities
  rw [← hlog₂] at hb₁
  obtain ⟨B₂, hg₃, hb₃, hata₃, hgrew₃⟩ := growEntities_exists h₂ hi hb₁ (by omega) (by omega) hsmall
  obtain ⟨hgrown, hd₃, own₃, h₃, hroom₃⟩ := growEntities_shows h₂ hi (fun _ => show B₁ ≠ 0 by omega) hg₃
  have hcost₃ := hgrew₃.cost
  have hle₃ := hgrew₃.bound
  have hcap₃ : ((s₂.growEntities B₁ i).1.archeType i).capacity < 2 ^ 42 := by
    have hindex := (h₂.row i hi).room
    rcases hgrew₃.capacity with he | hle <;> omega
  -- the slot, and the arena
  obtain ⟨hlog₄, hata₄⟩ := takeSlot_plain h₃ hi hq
  obtain ⟨hj, hd₄, h₄⟩ := takeSlot_shows h₃ hi hroom₃
  have hcap₄ := (takeSlot_log (s₂.growEntities B₁ i).1 i).2
  have hd := (hd₂.trans hd₃).trans hd₄
  let s₄ := ((s₂.growEntities B₁ i).1.takeSlot i).1
  have hsize₄ : s₄.ecsGetSizeOfAllComponents (arrayOf comps) comps.length =
      (comps.map s.componentSize).sum := by
    rw [← hsize]
    unfold State.ecsGetSizeOfAllComponents
    rw [show s₄.componentSize = s.componentSize from funext hd.componentSize, hd.cur]
  rw [← hlog₄] at hg₃ hb₃
  obtain ⟨hg₅, hb₅⟩ := hb₃.take hg₃ (by omega) hpos (by omega)
  obtain ⟨hata₅, harch₅⟩ := fillSlot_keeps s₄ B₂ i ((t.withRow comps i).row i).take.2
    (arrayOf comps) comps.length
  have hlog₅ := fillSlot_memLog s₄ B₂ i ((t.withRow comps i).row i).take.2 (arrayOf comps)
    comps.length
  rw [hsize₄] at hlog₅
  -- the parts put together
  let a : Answers := ⟨B, B₁, B₂⟩
  have hres : s.ecsCreateEntity a (arrayOf comps) comps.length =
      some (s₄.fillSlot B₂ i ((t.withRow comps i).row i).take.2 (arrayOf comps) comps.length) := by
    rw [State.ecsCreateEntity, length_mod hlen, hget]
    dsimp only
    rw [if_neg (by rw [hgrown]; decide), ← hj]
  generalize hfill : s₄.fillSlot B₂ i ((t.withRow comps i).row i).take.2 (arrayOf comps)
    comps.length = filled at hres hata₅ harch₅ hlog₅
  obtain ⟨s', r⟩ := filled
  dsimp only at hata₅ harch₅ hlog₅
  rw [← hlog₅] at hg₅ hb₅
  have hB₁ : B₁ ≠ null := show B₁ ≠ 0 by omega
  have hB₂ : B₂ ≠ null := show B₂ ≠ 0 by omega
  have he : s.Grows a comps := fun _ _ _ _ => hB₁
  obtain ⟨x, rfl⟩ := (create_ok_iff h he hlen hres hg₅).mpr fun _ => ⟨hB₂, hfits⟩
  obtain ⟨hdata, own', i', v, hi', hcomps', h', hf, s₁', own₁', hget', -⟩ :=
    create_cases h he hlen hres hg₅
  obtain rfl : i = i' := (Prod.mk.inj (Option.some.inj (hget.symm.trans hget'))).2
  cases hf with
  | made hmem =>
    refine ⟨s', own', _, i, _, h', (hset.withRow comps i).put (fun h => by cases h),
      ⟨hi, hcomps, ⟨_, _, rfl⟩, hdata, hb₅, B₁, B₂, (s₂.archeType i).capacity, ?_, hcapOld, hcapNew,
        ?_, rfl⟩,
      .create h0 hB₁ hlen hres hg₅, fun comps' r he => ?_⟩
    · rw [hata₅, hata₄, hata₃, hata₂]
      exact hgrew₁
    · rw [harch₅, hcap₄]
      exact hgrew₃
    · injection he with hc hr
      rw [← hc, ← hr]
      exact ⟨hreg, by omega, _, rfl⟩

/-- A list that has a row is made in it. -/
theorem Made.old {B' k : Nat} {own' : Nat → Option Owner} (hm : Made s s' t t' comps B B' i)
    (h' : Shows s' own' t') (hk : k < t.count) (hc : (t.row k).comps = comps) :
    i = k ∧ t.withRow comps i = t := by
  obtain ⟨a, p, rfl⟩ := hm.table
  rcases withRow_cases hm.row with ⟨hlt, he⟩ | ⟨-, he⟩
  · have hlist := hm.list
    obtain ⟨-, hrows⟩ := put_comps (v := .alive a p) hm.row
    rw [he] at h' hlist hrows
    refine ⟨h'.distinct i hlt k hk ?_, he⟩
    rw [hrows i hlt, hrows k hk, hlist, hc]
  · -- two rows with one list
    obtain ⟨hsame, hrows⟩ := put_comps (v := .alive a p) hm.row
    have hcount : t.count < (t.withRow comps i).count := by
      rw [he]
      exact Nat.lt_succ_self _
    have hik := h'.distinct i hm.row k (Nat.lt_trans hk hcount)
      ((hsame.trans hm.list).trans ((hrows k hk).trans hc).symm)
    subst hik
    rw [Table.withRow, if_pos hk] at hcount
    exact absurd hcount (Nat.lt_irrefl _)

/-- A list that has none is made in a new one. -/
theorem Made.new {B' : Nat} (hm : Made s s' t t' comps B B' i)
    (hnew : ∀ k < t.count, (t.row k).comps ≠ comps) :
    i = t.count ∧ t.withRow comps i = t.addRow comps := by
  rcases withRow_cases hm.row with ⟨hlt, he⟩ | h
  · have hlist := hm.list
    rw [he] at hlist
    exact absurd hlist (hnew i hlt)
  · exact h

/-! ## Types of 8 bytes -/

/-- The table of an empty store. -/
def emptyTable : Table := ⟨0, fun _ => ⟨[], 0, [], fun _ => .lost⟩⟩

/-- `n` types of 8 bytes are registered. -/
structure Sized (n : Nat) (s : State) : Prop where
  cur : s.curComponentIndex = n + 1
  sizes : ∀ c, 0 < c → c ≤ n → s.componentSize c = 8

/-- Sizes stay while the registry does. -/
theorem Sized.same {n : Nat} (h : Sized n s) (hd : SameData s s') : Sized n s' :=
  ⟨hd.cur.trans h.cur, fun c h0 hle => (hd.componentSize c).trans (h.sizes c h0 hle)⟩

/-- The sizes of a list of them add up. -/
theorem Sized.sum {n : Nat} (h : Sized n s) (hc : ∀ c ∈ comps, 0 < c ∧ c ≤ n) :
    (comps.map s.componentSize).sum = 8 * comps.length := by
  have hmap : comps.map s.componentSize = comps.map fun _ => 8 :=
    List.map_congr_left fun c hin => h.sizes c (hc c hin).1 (hc c hin).2
  rw [hmap, List.map_const', List.sum_replicate_nat, Nat.mul_comm]

/-- A store without entities and with `n` types.  The start of the runs to come: types are
    registered first, and 500 of them are enough for `100 ^ 5` lists. -/
structure Typed (n : Nat) (s : State) : Prop extends Sized n s where
  run : ∃ es, Trace GrantedStep startedStore es s
  shows : ∃ own, Shows s own emptyTable
  below : Below 0x2000 s.memLog
  capacity : s.ataCapacity = 0
  array : s.componentSizeArr ≠ null

/-- One more type. -/
theorem Typed.succ {n : Nat} (h : Typed n s) (hn : n < 511) : ∃ s', Typed (n + 1) s' := by
  have hcur := h.cur
  obtain ⟨s', hres, hlog, hata⟩ : ∃ s', s.ecsCreateNewComponent 0x1000 8 = (s', n + 1) ∧
      s'.memLog = s.memLog ∧ s'.ataCapacity = s.ataCapacity := by
    rw [State.ecsCreateNewComponent]
    dsimp only
    rw [if_neg h.array, if_neg h.array, State.registerComponent]
    dsimp only
    rw [if_neg (by rw [hcur]; exact Nat.not_le.mpr (Nat.succ_lt_succ hn)), hcur]
    exact ⟨_, rfl, rfl, rfl⟩
  obtain ⟨es, run⟩ := h.run
  obtain ⟨own, hsh⟩ := h.shows
  have hg : Good s'.memLog := by
    rw [hlog]
    exact hsh.good
  obtain ⟨-, hshows, harr, -, -⟩ :=
    ecsCreateNewComponent_shows hsh (fun _ => show 0x1000 ≠ null by decide) hres hg
  rcases ecsCreateNewComponent_cases hres with ⟨h0, -⟩ | ⟨-, -, hcur', -, hsize, hother⟩
  · cases h0
  · refine ⟨s', ⟨hcur', fun c hc hle => ?_⟩,
      ⟨_, run.snoc ⟨.register (show 0x1000 ≠ null by decide) hres hg, fun _ _ he => by cases he⟩⟩,
      hshows, ?_,
      hata.trans h.capacity, harr⟩
    case refine_2 =>
      rw [hlog]
      exact h.below
    case refine_1 =>
      rcases Nat.eq_or_lt_of_le hle with rfl | hlt
      · exact hsize
      · rw [hother h.array c (Nat.ne_of_lt hlt)]
        exact h.sizes c hc (Nat.le_of_lt_succ hlt)

/-- So the table of sizes can be filled. -/
theorem typed_exists : ∀ n, n < 511 → ∃ s, Typed (n + 1) s := by
  intro n
  induction n with
  | zero =>
    intro _
    have hstep : Step startedStore (.register 8 1) storeWithSize :=
      .register (show 0x1000 ≠ null by decide) (Prod.ext rfl (by decide)) (by decide)
    have hg : Good storeWithSize.memLog := by decide
    have hres : startedStore.ecsCreateNewComponent 0x1000 8 = (storeWithSize, 1) :=
      Prod.ext rfl (by decide)
    obtain ⟨-, hshows, harr, -, -⟩ := ecsCreateNewComponent_shows (Shows.start startedStore_started)
      (fun _ => show 0x1000 ≠ null by decide) hres hg
    refine ⟨storeWithSize, ⟨rfl, fun c hc hle => ?_⟩,
      ⟨_, Trace.start.snoc ⟨hstep, fun _ _ he => by cases he⟩⟩, hshows, ?_, rfl, harr⟩
    · obtain rfl : c = 1 := by omega
      decide
    · intro r hr
      rw [show held storeWithSize.memLog = [⟨0x1000, 0x1000⟩] by decide] at hr
      rw [List.mem_singleton.mp hr]
      decide
  | succ n ih =>
    intro hn
    obtain ⟨s, hs⟩ := ih (by omega)
    exact hs.succ hn

/-! ## More than `2 ^ 32` slots -/

/-- One archetype with the entities `0, 1, …, n - 1`, the first of which has data.  An invariant of
    the number `n` of creations so far.  The queue stays empty because nothing is deleted, so every
    creation takes a new slot; `budget` is the price so far. -/
structure Crowded (n : Nat) (es : List Event) (s : State) (own : Nat → Option Owner) (t : Table)
    (B : Nat) : Prop where
  run : Trace GrantedStep startedStore es s
  live : (0, [1]) ∈ live es
  data : ∃ data, latest 0 1 es = some data
  shows : Shows s own t
  settled : t.Settled
  count : t.count = 1
  comps : (t.row 0).comps = [1]
  index : (t.row 0).index = n % 2 ^ 32
  queue : (t.row 0).queue = []
  sized : Sized 1 s
  below : Below B s.memLog
  pos : B ≠ 0
  budget : B ≤ 0x2000 + 8192 * (s.ataCapacity + (s.archeType 0).capacity) + 8 * n
  archeTypes : s.ataCapacity ≤ 18
  entities : (s.archeType 0).capacity ≤ 3 * n + 15

/-- The last of the rows, when it was just added. -/
theorem Table.row_addRow (t : Table) (comps : List Nat) :
    (t.addRow comps).row t.count = ⟨comps, 0, [], fun _ => .lost⟩ := upd_same

/-- A row with one entity. -/
def Row.single (comps : List Nat) (a : Region) (p : List Nat) : Row :=
  ⟨comps, 1, [], upd (upd (fun _ => .lost) 0 .taken) 0 (.alive a p)⟩

/-- Its only slot is alive. -/
theorem Row.single_slot (comps : List Nat) (a : Region) (p : List Nat) :
    (Row.single comps a p).slot 0 = .alive a p := by
  show upd (upd (fun _ => .lost) 0 .taken) 0 (Slot.alive a p) 0 = _
  exact upd_same

/-- What the first creation in a row makes of it. -/
theorem Table.put_addRow (t : Table) (comps : List Nat) (a : Region) (p : List Nat) :
    ((t.addRow comps).put t.count (.alive a p)).row t.count = .single comps a p := by
  refine (Table.row_setRow _ _ _).trans ?_
  rw [Table.row_addRow]
  rfl

/-- What a creation makes of a row without free slots. -/
theorem Row.take_plain {r : Row} (hq : r.queue = []) : r.take.2 = r.index ∧
    r.take.1.index = (r.index + 1) % 2 ^ 32 ∧ r.take.1.queue = [] := by
  rw [Row.take, hq]
  exact ⟨rfl, rfl, rfl⟩

/-- One entity more.  The counter is taken modulo `2 ^ 32`, so the step is the same before and after
    it wraps; what changes is which slots lie below it. -/
theorem Crowded.succ {n : Nat} {es : List Event} (h : Crowded n es s own t B) (h1 : 1 ≤ n)
    (hn : n < 2 ^ 32) : ∃ es' s' own' t' B', Crowded (n + 1) es' s' own' t' B' := by
  have hone : ∀ c ∈ [1], 0 < c ∧ c ≤ 1 := by decide
  have hsum : ([1].map s.componentSize).sum = 8 := h.sized.sum hone
  have hbudget := h.budget
  have hata := h.archeTypes
  have hcap := h.entities
  obtain ⟨s', own', t', i, B', h', hset', hm, hs⟩ := creation_exists h.shows h.settled [1]
    (by decide) (fun c hc => ⟨(hone c hc).1, by rw [h.sized.cur]; exact Nat.lt_succ_of_le (hone c hc).2⟩)
    (by rw [hsum]; decide) (by rw [hsum]; decide) h.below h.pos (by omega) (by omega)
    fun k hk _ => by
      -- there is one archetype, and its queue is empty
      obtain rfl : k = 0 := by
        rw [h.count] at hk
        omega
      exact ⟨h.queue, by omega⟩
  obtain ⟨rfl, hrow⟩ := hm.old h' (k := 0) (by rw [h.count]; decide) h.comps
  obtain ⟨B₁, B₂, cap, hgrew₁, hold, -, hgrew₂, rfl⟩ := hm.grew
  obtain ⟨a, p, ht'⟩ := hm.table
  rw [hrow] at hs hgrew₂ ht'
  rw [hold (by rw [h.count]; decide), h.index] at hgrew₂
  rw [h.count] at hgrew₁
  -- so the slot is the next one of its array
  obtain ⟨htake, hindex, hqueue⟩ := Row.take_plain h.queue
  rw [htake, h.index, Nat.mod_eq_of_lt hn] at hs
  have hrow' : t'.row 0 = (t.row 0).take.1.setSlot (t.row 0).take.2 (.alive a p) := by
    rw [ht']
    exact Table.row_setRow _ _ _
  refine ⟨_, s', own', t', _, h.run.snoc hs, ?_, ?_, h', hset', by rw [ht']; exact h.count, ?_, ?_, ?_,
    h.sized.same hm.data, hm.below, ?_, ?_, ?_, ?_⟩
  · exact List.mem_cons_of_mem _ h.live
  · -- no creation before the counter wraps has the handle of the first entity
    obtain ⟨data, hdata⟩ := h.data
    refine ⟨data, (if_neg ?_).trans hdata⟩
    rw [ecsEncodeHandle_eq]
    omega
  · rw [hrow']
    exact (Row.take_comps _).trans h.comps
  · rw [hrow']
    show (t.row 0).take.1.index = _
    rw [hindex, h.index]
    omega
  · rw [hrow']
    exact hqueue
  · have := h.pos
    have := hgrew₁.bound
    have := hgrew₂.bound
    omega
  · have := hgrew₁.cost
    have := hgrew₂.cost
    omega
  · rcases hgrew₁.capacity with he | hle <;> omega
  · rcases hgrew₂.capacity with he | hle <;> omega

/-- The first entity, and its data. -/
theorem crowded_one : ∃ es s own t B, Crowded 1 es s own t B := by
  obtain ⟨s, hs⟩ := typed_exists 0 (by decide)
  obtain ⟨es, run⟩ := hs.run
  obtain ⟨own, hsh⟩ := hs.shows
  have hone : ∀ c ∈ [1], 0 < c ∧ c ≤ 0 + 1 := by decide
  have hsum : ([1].map s.componentSize).sum = 8 := hs.sum hone
  have hata := hs.capacity
  obtain ⟨s', own', t', i, B', h', hset', hm, hstep⟩ := creation_exists hsh
    (fun i hi => absurd hi (Nat.not_lt_zero i)) [1] (by decide)
    (fun c hc => ⟨(hone c hc).1, by rw [hs.cur]; exact Nat.lt_succ_of_le (hone c hc).2⟩)
    (by rw [hsum]; decide) (by rw [hsum]; decide) hs.below (by decide) (by decide) (by omega)
    fun k hk _ => absurd hk (Nat.not_lt_zero k)
  obtain ⟨rfl, hrow⟩ := hm.new fun k hk => absurd hk (Nat.not_lt_zero k)
  obtain ⟨B₁, B₂, cap, hgrew₁, -, hnew, hgrew₂, rfl⟩ := hm.grew
  obtain ⟨a, p, ht'⟩ := hm.table
  have hcap : cap = 0 := hnew (Nat.le_refl _)
  rw [hrow] at hstep hgrew₂ ht'
  rw [Table.row_addRow] at hstep hgrew₂
  have hstep : GrantedStep s (.create [1] (.ok 0)) s' := hstep
  have hrow' : t'.row 0 = .single [1] a p := by
    rw [ht']
    exact emptyTable.put_addRow [1] a p
  -- its data
  have hcount : t'.count = 1 := by
    rw [ht']
    rfl
  have halive : t'.AliveAt 0 0 a p :=
    ⟨by rw [hcount]; decide, by rw [hrow']; exact Nat.one_pos, by rw [hrow', Row.single_slot]⟩
  have hadd := ecsAdd_spec (i := 0) (j := 0) h' hset' (x := 0) rfl halive 1 fun _ => 7
  rw [show (t'.row 0).comps = [1] from congrArg Row.comps hrow'] at hadd
  obtain ⟨bytes, hbytes⟩ := ecsAdd_withBytes s' 0 1 fun _ => 7
  have hres : s'.ecsAddComponentDataToEntity 0 1 (fun _ => 7) = (s'.withBytes bytes, .success) := by
    refine Prod.ext hbytes ?_
    rw [hadd, show pointerTo [1] p 1 = some (arrayOf p 0) from rfl]
    dsimp only
    split <;> rfl
  have hgrant : GrantedStep s' (.add 0 1 (fun _ => 7) .success) (s'.withBytes bytes) :=
    ⟨.add (by decide) hres, fun _ _ he => by cases he⟩
  have hsized := hs.toSized.same hm.data
  refine ⟨_, s'.withBytes bytes, own', t', B₂ + ([1].map s.componentSize).sum,
    (run.snoc hstep).snoc hgrant, List.mem_cons_self, ⟨fun _ => 7, if_pos ⟨rfl, rfl⟩⟩,
    h'.withBytes bytes, hset', hcount, congrArg Row.comps hrow', congrArg Row.index hrow',
    congrArg Row.queue hrow',
    ⟨hsized.cur, hsized.sizes⟩, hm.below, ?_, ?_, ?_, ?_⟩
  · have := hgrew₁.bound
    have := hgrew₂.bound
    omega
  · have h1 := hgrew₁.cost
    have h2 := hgrew₂.cost
    show _ ≤ 0x2000 + 8192 * (s'.ataCapacity + (s'.archeType 0).capacity) + 8 * 1
    change B₂ + 8192 * cap ≤ B₁ + 8192 * (s'.archeType 0).capacity at h2
    omega
  · show s'.ataCapacity ≤ 18
    have hcap := hgrew₁.capacity
    change _ ∨ _ ≤ 3 * 0 + 15 at hcap
    omega
  · show (s'.archeType 0).capacity ≤ _
    have hcap := hgrew₂.capacity
    change (s'.archeType 0).capacity = cap ∨ (s'.archeType 0).capacity ≤ 3 * 0 + 15 at hcap
    omega

/-- Induction on the number of entities. -/
theorem crowded_exists : ∀ n, n < 2 ^ 32 → ∃ es s own t B, Crowded (n + 1) es s own t B := by
  intro n
  induction n with
  | zero => exact fun _ => crowded_one
  | succ n ih =>
    intro hn
    obtain ⟨es, s, own, t, B, h⟩ := ih (by omega)
    exact h.succ (by omega) hn

/-- **The slots run out.**  After `2 ^ 32` entities of one archetype its counter is 0 again.  The
    first entity is alive and has data, and its handle is refused.  The slots are all there, and
    none lies below the counter any more: `EcsGetEntity` compares with it. -/
theorem slots_run_out : ∃ es s data, Trace GrantedStep startedStore es s ∧ (0, [1]) ∈ live es ∧
    latest 0 1 es = some data ∧ s.ataIndex = 1 ∧ ∀ q, s.ecsGetComponent 0 1 ≠ .ok q := by
  obtain ⟨es, s, own, t, B, h⟩ := crowded_exists (2 ^ 32 - 1) (by decide)
  obtain ⟨data, hdata⟩ := h.data
  refine ⟨es, s, data, h.run, h.live, hdata, h.shows.count.trans h.count, fun q hq => ?_⟩
  have hnone : s.resolve 0 = none := resolve_none h.shows h.settled fun a p ha => by
    have hindex : 0 < (t.row 0).index := ha.index
    rw [h.index] at hindex
    exact absurd hindex (by decide)
  rw [State.ecsGetComponent, hnone] at hq
  cases hq

/-! ## More than `2 ^ 32` archetypes -/

/-- The `n`-th component list: five types, one of a hundred for each digit of `n` in base 100.  The
    hundreds keep the five types of a list apart, and their digits tell the number. -/
def listNumber (n : Nat) : List Nat := (List.range 5).map fun k => 100 * k + n / 100 ^ k % 100 + 1

/-- All of them are registered when 500 types are. -/
theorem listNumber_types {n c : Nat} (hc : c ∈ listNumber n) : 0 < c ∧ c ≤ 500 := by
  obtain ⟨k, hk, rfl⟩ := List.mem_map.mp hc
  have hk := List.mem_range.mp hk
  have := Nat.mod_lt (n / 100 ^ k) (show 0 < 100 by decide)
  omega

/-- Different numbers have different lists. -/
theorem listNumber_inj {m n : Nat} (hm : m < 100 ^ 5) (hn : n < 100 ^ 5)
    (h : listNumber m = listNumber n) : m = n := by
  have hdigit : ∀ k < 5, m / 100 ^ k % 100 = n / 100 ^ k % 100 := by
    intro k hk
    have := List.map_inj_left.mp h k (List.mem_range.mpr hk)
    omega
  have h0 := hdigit 0 (by decide)
  have h1 := hdigit 1 (by decide)
  have h2 := hdigit 2 (by decide)
  have h3 := hdigit 3 (by decide)
  have h4 := hdigit 4 (by decide)
  omega

/-- The archetypes `0, 1, …, n - 1`, each with a list of its own and one entity.  The same kind of
    account as `Crowded`, with one array of entities for each archetype. -/
structure Spread (n : Nat) (es : List Event) (s : State) (own : Nat → Option Owner) (t : Table)
    (B : Nat) : Prop where
  run : Trace GrantedStep startedStore es s
  shows : Shows s own t
  settled : t.Settled
  count : t.count = n
  comps : ∀ k < n, (t.row k).comps = listNumber k
  index : ∀ k < n, (t.row k).index = 1
  first : 0 < n → ∃ a p, t.AliveAt 0 0 a p
  sized : Sized 500 s
  below : Below B s.memLog
  pos : B ≠ 0
  budget : B ≤ 0x2000 + 8192 * (s.ataCapacity + 15 * n) + 40 * n
  archeTypes : s.ataCapacity ≤ 3 * n + 15

/-- One archetype more. -/
theorem Spread.succ {n : Nat} {es : List Event} (h : Spread n es s own t B) (hn : n ≤ 2 ^ 32) :
    ∃ s' own' t' B', Spread (n + 1) (.create (listNumber n) (.ok (ecsEncodeHandle n 0)) :: es)
      s' own' t' B' := by
  have hsum : ((listNumber n).map s.componentSize).sum = 40 :=
    h.sized.sum fun _ hc => listNumber_types hc
  have hbudget := h.budget
  have hata := h.archeTypes
  -- the list of the next number is a new one, so a new archetype is made for it
  have hfresh : ∀ k < t.count, (t.row k).comps ≠ listNumber n := by
    intro k hk he
    rw [h.count] at hk
    rw [h.comps k hk] at he
    have := listNumber_inj (by omega) (by omega) he
    omega
  obtain ⟨s', own', t', i, B', h', hset', hm, hs⟩ := creation_exists h.shows h.settled
    (listNumber n) (show 5 ≤ 10 by decide)
    (fun c hc => ⟨(listNumber_types hc).1, by
      rw [h.sized.cur]
      exact Nat.lt_succ_of_le (listNumber_types hc).2⟩)
    (by rw [hsum]; decide) (by rw [hsum]; decide) h.below h.pos (by omega) (by omega)
    fun k hk he => absurd he (hfresh k hk)
  obtain ⟨hi, hrow⟩ := hm.new hfresh
  obtain ⟨B₁, B₂, cap, hgrew₁, -, hnew, hgrew₂, rfl⟩ := hm.grew
  obtain ⟨a, p, ht'⟩ := hm.table
  have hcap : cap = 0 := hnew (Nat.le_of_eq hi.symm)
  rw [h.count] at hi hgrew₁
  subst hi
  have hzero := t.row_addRow (listNumber i)
  have hput := t.put_addRow (listNumber i) a p
  rw [h.count] at hzero hput
  rw [hrow, hzero] at hs hgrew₂
  rw [hrow] at ht'
  -- its row has the one slot that was filled, and the others are as before
  have hlast : t'.row i = .single (listNumber i) a p := ht' ▸ hput
  have hothers : ∀ k < i, t'.row k = t.row k := by
    intro k hk
    rw [ht']
    refine (Table.row_setRow_other _ (Nat.ne_of_lt hk)).trans (upd_other ?_)
    rw [h.count]
    exact Nat.ne_of_lt hk
  have hcount : t'.count = i + 1 := by
    rw [ht', ← h.count]
    rfl
  have hrows : ∀ k < i + 1, (t'.row k).comps = listNumber k ∧ (t'.row k).index = 1 := by
    intro k hk
    rcases Nat.lt_succ_iff_lt_or_eq.mp hk with hk | rfl
    · rw [hothers k hk]
      exact ⟨h.comps k hk, h.index k hk⟩
    · rw [hlast]
      exact ⟨rfl, rfl⟩
  refine ⟨s', own', t', _, h.run.snoc hs, h', hset', hcount, fun k hk => (hrows k hk).1,
    fun k hk => (hrows k hk).2, fun _ => ?_, h.sized.same hm.data, hm.below, ?_, ?_, ?_⟩
  · -- the entity of the first archetype, made now or still there
    rcases Nat.eq_zero_or_pos i with rfl | hpos
    · refine ⟨a, p, by rw [hcount]; decide, by rw [hlast]; exact Nat.one_pos, ?_⟩
      rw [hlast, Row.single_slot]
    · obtain ⟨a, p, ha⟩ := h.first hpos
      exact ⟨a, p, by rw [hcount]; omega, by rw [hothers 0 hpos]; exact ha.index,
        by rw [hothers 0 hpos]; exact ha.slot⟩
  · have := h.pos
    have := hgrew₁.bound
    have := hgrew₂.bound
    omega
  · have := hgrew₁.cost
    have hcost := hgrew₂.cost
    have hcap := hgrew₂.capacity
    change (s'.archeType i).capacity = cap ∨ (s'.archeType i).capacity ≤ 3 * 0 + 15 at hcap
    omega
  · rcases hgrew₁.capacity with he | hle <;> omega

/-- Induction on the number of archetypes. -/
theorem spread_exists : ∀ n, n ≤ 2 ^ 32 → ∃ es s own t B, Spread n es s own t B := by
  intro n
  induction n with
  | zero =>
    intro _
    obtain ⟨s, hs⟩ := typed_exists 499 (by decide)
    obtain ⟨es, run⟩ := hs.run
    obtain ⟨own, hsh⟩ := hs.shows
    have hcap := hs.capacity
    exact ⟨es, s, own, emptyTable, 0x2000, run, hsh, fun i hi => absurd hi (Nat.not_lt_zero i), rfl,
      fun k hk => absurd hk (Nat.not_lt_zero k), fun k hk => absurd hk (Nat.not_lt_zero k),
      fun h0 => absurd h0 (Nat.lt_irrefl 0), hs.toSized, hs.below, by decide, by omega, by omega⟩
  | succ n ih =>
    intro hn
    obtain ⟨es, s, own, t, B, h⟩ := ih (by omega)
    obtain ⟨s', own', t', B', h'⟩ := h.succ (by omega)
    exact ⟨_, s', own', t', B', h'⟩

/-- **The archetypes run out.**  Archetype `2 ^ 32` has one entity, like all before it, and its
    handle is 0, that of the first entity of the first archetype: a type of its list is not found,
    and no data can be written to it.  The index is cut to 32 bits in the handle, so archetype `2 ^
    32` and archetype 0 have the same name. -/
theorem archeTypes_run_out : ∃ es s comps, Trace GrantedStep startedStore es s ∧
    (∀ i < s.ataIndex, (s.archeType i).index = 1) ∧ (0, comps) ∈ live es ∧ ∃ c ∈ comps,
      (∀ q, s.ecsGetComponent 0 c ≠ .ok q) ∧
      ∀ data, s.ecsAddComponentDataToEntity 0 c data = (s, .notFound) := by
  obtain ⟨es, s, own, t, B, h⟩ := spread_exists (2 ^ 32) (Nat.le_refl _)
  obtain ⟨s', own', t', B', h'⟩ := h.succ (Nat.le_refl _)
  obtain ⟨a, p, ha⟩ := h'.first (by decide)
  have hnone : pointerTo (t'.row 0).comps p 97 = none := by
    rw [h'.comps 0 (by decide)]
    exact congrArg (Option.map (arrayOf p))
      (show (List.range 5).find? (fun k => arrayOf (listNumber 0) k == 97) = none by decide)
  refine ⟨_, s', listNumber (2 ^ 32), h'.run, fun i hi => ?_, ?_, 97, by decide, fun q hq => ?_,
    fun data => ?_⟩
  · rw [h'.shows.count] at hi
    rw [(h'.shows.row i hi).index]
    exact h'.index i (by rw [← h'.count]; exact hi)
  · rw [show ecsEncodeHandle (2 ^ 32) 0 = 0 by decide]
    exact List.mem_cons_self
  · rw [ecsGetComponent_spec (i := 0) (j := 0) h'.shows h'.settled (x := 0) rfl ha, hnone] at hq
    cases hq
  · rw [ecsAdd_spec (i := 0) (j := 0) h'.shows h'.settled (x := 0) rfl ha, hnone]

/-- **The law of the store needs both bounds.**  From the start there are runs of calls as the law
    supposes them, one with one archetype and one with one slot in each, after which an entity that
    is alive is not reached by its handle. -/
theorem handles_run_out : Started startedStore ∧
    (∃ es s data, Trace GrantedStep startedStore es s ∧ (0, [1]) ∈ live es ∧
      latest 0 1 es = some data ∧ s.ataIndex = 1 ∧ ∀ q, s.ecsGetComponent 0 1 ≠ .ok q) ∧
    ∃ es s comps, Trace GrantedStep startedStore es s ∧
      (∀ i < s.ataIndex, (s.archeType i).index = 1) ∧ (0, comps) ∈ live es ∧ ∃ c ∈ comps,
        (∀ q, s.ecsGetComponent 0 c ≠ .ok q) ∧
        ∀ data, s.ecsAddComponentDataToEntity 0 c data = (s, .notFound) :=
  ⟨startedStore_started, slots_run_out, archeTypes_run_out⟩

end Nearlands.Ecs

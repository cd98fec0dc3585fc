/-
  The data of components.

  `latest h c` reads off the calls what was last written to component `c` of the entity `h` since
  it was created.  `store_law`: that is what the store holds, in every state of every run whose
  component lists are of registered types and do not add up to more than the heap can have.

  The data of a component lies in a cell: the bytes from its pointer on.  The argument is that
  cells are apart (`Cell.apart`), within an arena because the offsets are sums of the sizes before,
  and between arenas because the heap keeps them apart.
-/
import Nearlands.Ecs.Runs

namespace Nearlands.Ecs

open Nearlands.Lib Nearlands.Lib.AllocLog

/-- What the calls have last written to component `c` of the entity `h`, since it was created.  A
    deletion is passed over, as a write to a dead handle never succeeds; a creation that returns the
    handle again begins its data anew. -/
def latest (h c : Nat) : List Event → Option (Nat → UInt8)
  | [] => none
  | .add h' c' data .success :: es => if h' = h ∧ c' = c then some data else latest h c es
  | .create _ (.ok h') :: es => if h' = h then none else latest h c es
  | _ :: es => latest h c es

/-- A step that creates entities of registered types only, with sizes (repetitions counted) that add
    up to less than `2 ^ 62`.  The bound is what the heap can serve.  With it no sum of sizes wraps,
    so that an arena is as large as its components together. -/
def DataStep (s : State) (e : Event) (s' : State) : Prop :=
  SmallStep s e s' ∧ ∀ comps r, e = .create comps r →
    (∀ c ∈ comps, 0 < c ∧ c < s.curComponentIndex) ∧ (comps.map s.componentSize).sum < 2 ^ 62

variable {s s' : State} {own : Nat → Option Owner} {t t' : Table} {i j i' j' c c' q q' : Nat}
  {e : Event} {comps : List Nat} {a : Region} {p : List Nat}

/-! ## Where components lie -/

/-- The size of the `k`-th component of a list. -/
@[reducible] def State.sizeOf (s : State) (comps : List Nat) (k : Nat) : Nat :=
  s.componentSize (arrayOf comps k)

/-- The sizes of a list add up to the last offset. -/
theorem offset_length (s : State) (comps : List Nat) :
    offset (s.sizeOf comps) comps.length = (comps.map s.componentSize).sum := by
  rw [offset]
  congr 1
  refine List.ext_getElem (by simp) fun k h _ => ?_
  have hk : k < comps.length := by simpa using h
  simp [listOf, State.sizeOf, hk]

/-- Components of registered types lie one after the other in their arena.  The addresses are
    numbers, without a wrap: that is what the bound on the sum is for. -/
structure Fitted (s : State) (comps : List Nat) (a : Region) (p : List Nat) : Prop where
  registered : ∀ c ∈ comps, 0 < c ∧ c < s.curComponentIndex
  size : a.size = offset (s.sizeOf comps) comps.length
  pointers : p = listOf (fun k => a.base + offset (s.sizeOf comps) k) comps.length
  nonnull : comps ≠ [] → a.base ≠ null

/-- A new entity is fitted.  A new entity was given an arena of the sum of its sizes, and each
    component began where the one before it ended. -/
theorem Filled.fitted {r : Except NearStatus Nat} {mem : Nat}
    (hf : Filled s mem i j comps r (.alive a p)) (hlen : comps.length ≤ ecsCompSize)
    (hreg : ∀ c ∈ comps, 0 < c ∧ c < s.curComponentIndex)
    (hsum : (comps.map s.componentSize).sum < 2 ^ 62)
    (hfits : mem ≠ null → mem + a.size < 2 ^ 64) : Fitted s comps a p := by
  cases hf with
  | made h0 =>
    have hget : ∀ k < comps.length, arrayOf comps k < s.curComponentIndex := fun k hk =>
      (hreg _ (arrayOf_mem hk)).2
    have htotal := offset_length s comps
    have hsize : (s.arenaFor mem comps).size = offset (s.sizeOf comps) comps.length := by
      show s.ecsGetSizeOfAllComponents (arrayOf comps) comps.length = _
      rw [ecsGetSizeOfAllComponents_eq (Nat.lt_of_le_of_lt hlen (by decide)) hget, w64_of_lt]
      show offset (s.sizeOf comps) comps.length < _
      omega
    refine ⟨hreg, hsize, ?_, h0⟩
    refine listOf_congr fun k hk => ?_
    have hne : comps ≠ [] := List.ne_nil_of_length_pos (Nat.lt_of_le_of_lt (Nat.zero_le k) hk)
    have hend := hfits (h0 hne)
    have hk' := offset_add_le (s.sizeOf comps) hk
    rw [hsize] at hend
    show w64 (mem + w64 (offset (s.sizeOf comps) k)) = mem + offset (s.sizeOf comps) k
    rw [w64_of_lt (show offset (s.sizeOf comps) k < 2 ^ 64 by omega), w64_of_lt (by omega)]

/-- It stays so while the sizes of registered types stay. -/
theorem Fitted.keep (h : Fitted s comps a p) (hcur : s.curComponentIndex ≤ s'.curComponentIndex)
    (hsize : ∀ c ∈ comps, s'.componentSize c = s.componentSize c) : Fitted s' comps a p := by
  have hoff : ∀ k ≤ comps.length, offset (s'.sizeOf comps) k = offset (s.sizeOf comps) k := by
    intro k hk
    unfold offset
    rw [listOf_congr fun m hm => hsize _ (arrayOf_mem (Nat.lt_of_lt_of_le hm hk))]
  refine ⟨fun c hc => ⟨(h.registered c hc).1, Nat.lt_of_lt_of_le (h.registered c hc).2 hcur⟩, ?_, ?_,
    h.nonnull⟩
  · rw [h.size, hoff _ (Nat.le_refl _)]
  · rw [h.pointers]
    exact listOf_congr fun k hk => by rw [hoff k (Nat.le_of_lt hk)]

/-- Where the data of component `c` of the entity in slot `j` of row `i` begins.  The cell has as
    many bytes as its component, which is not in the definition: sizes are in the registry and do
    not change. -/
def Cell (t : Table) (i j c q : Nat) : Prop :=
  ∃ a p, t.AliveAt i j a p ∧ pointerTo (t.row i).comps p c = some q

/-- All entities are fitted. -/
def AllFitted (s : State) (t : Table) : Prop :=
  ∀ i j a p, t.AliveAt i j a p → Fitted s (t.row i).comps a p

/-- A component of an entity has one cell, as its pointer is read from one array. -/
theorem Cell.unique (h : Cell t i j c q) (h' : Cell t i j c q') : q = q' := by
  obtain ⟨a, p, ha, hq⟩ := h
  obtain ⟨a', p', ha', hq'⟩ := h'
  obtain ⟨-, rfl⟩ := ha.unique ha'
  exact Option.some.inj (hq.symm.trans hq')

/-- The pointer to a component of the list. -/
theorem Fitted.pointer (h : Fitted s comps a p) (hc : c ∈ comps) : ∃ k < comps.length,
    arrayOf comps k = c ∧ pointerTo comps p c = some (a.base + offset (s.sizeOf comps) k) := by
  rw [pointerTo]
  cases hfind : (List.range comps.length).find? fun k => arrayOf comps k == c with
  | none =>
    obtain ⟨k, hk, hget⟩ := List.getElem_of_mem hc
    have hno := List.find?_eq_none.mp hfind k (List.mem_range.mpr hk)
    exact absurd (beq_iff_eq.mpr ((arrayOf_eq hk).trans hget)) hno
  | some k =>
    have hk := List.mem_range.mp (List.mem_of_find?_eq_some hfind)
    have htest := List.find?_some hfind
    refine ⟨k, hk, beq_iff_eq.mp htest, ?_⟩
    rw [Option.map_some, h.pointers]
    rw [arrayOf, listOf]
    simp [hk]

/-- A component that is found is in the list. -/
theorem mem_of_pointerTo (h : pointerTo comps p c = some q) : c ∈ comps := by
  rw [pointerTo] at h
  obtain ⟨k, hfind, -⟩ := Option.map_eq_some_iff.mp h
  have hk := List.mem_range.mp (List.mem_of_find?_eq_some hfind)
  have htest := List.find?_some hfind
  rw [← beq_iff_eq.mp htest]
  exact arrayOf_mem hk

/-- Every component of an entity has a cell. -/
theorem AllFitted.cell (h : AllFitted s t) (ha : t.AliveAt i j a p) (hc : c ∈ (t.row i).comps) :
    ∃ q, Cell t i j c q ∧ q ≠ null := by
  have hfit := h i j a p ha
  obtain ⟨k, -, -, hq⟩ := hfit.pointer hc
  refine ⟨_, ⟨a, p, ha, hq⟩, fun h0 => hfit.nonnull (List.ne_nil_of_mem hc) ?_⟩
  rw [null] at h0 ⊢
  omega

/-- **Cells are apart.** Two cells of one entity differ in their component, so they are two
    stretches of one arena; cells of two entities lie in two arenas, which have two owners.  A list
    with a component twice has one cell for it, as both lookups find the first. -/
theorem Cell.apart (h : Cell t i j c q) (h' : Cell t i' j' c' q') (hsh : Shows s own t)
    (hfit : AllFitted s t) (hne : (i, j, c) ≠ (i', j', c')) :
    (Region.mk q (s.componentSize c)).Apart ⟨q', s.componentSize c'⟩ := by
  obtain ⟨a, p, ha, hq⟩ := h
  obtain ⟨a', p', ha', hq'⟩ := h'
  have hc := mem_of_pointerTo hq
  have hc' := mem_of_pointerTo hq'
  have hf := hfit i j a p ha
  have hf' := hfit i' j' a' p' ha'
  -- each cell is at the offset of its component in its arena
  obtain ⟨k, hk, hkc, hk'⟩ := hf.pointer hc
  obtain ⟨m, hm, hmc, hm'⟩ := hf'.pointer hc'
  obtain rfl := Option.some.inj (hq.symm.trans hk')
  obtain rfl := Option.some.inj (hq'.symm.trans hm')
  have hsize : s.sizeOf (t.row i).comps k = s.componentSize c := congrArg s.componentSize hkc
  have hsize' : s.sizeOf (t.row i').comps m = s.componentSize c' := congrArg s.componentSize hmc
  by_cases hij : (i, j) = (i', j')
  · -- two components of one entity
    obtain ⟨rfl, rfl⟩ := Prod.mk.inj hij
    obtain ⟨rfl, rfl⟩ := ha.unique ha'
    have hkm : k ≠ m := by
      rintro rfl
      exact hne (by rw [hkc.symm.trans hmc])
    rcases Nat.lt_or_gt_of_ne hkm with hlt | hlt
    · have := offset_add_le (s.sizeOf (t.row i).comps) hlt
      left
      dsimp only
      omega
    · have := offset_add_le (s.sizeOf (t.row i).comps) hlt
      right
      dsimp only
      omega
  · -- two entities: their arenas are apart
    have hown := (hsh.alive ha).2.2.2.2 (hf.nonnull (List.ne_nil_of_mem hc))
    have hown' := (hsh.alive ha').2.2.2.2 (hf'.nonnull (List.ne_nil_of_mem hc'))
    have hap := hown.apart hown' hsh.good fun he => hij (by
      obtain ⟨rfl, rfl⟩ := Owner.slot.inj he
      rfl)
    have h1 := offset_add_le (s.sizeOf (t.row i).comps) hk
    have h2 := offset_add_le (s.sizeOf (t.row i').comps) hm
    have h3 := hf.size
    have h4 := hf'.size
    refine hap.within ⟨Nat.le_add_right _ _, ?_⟩ ⟨Nat.le_add_right _ _, ?_⟩
    · dsimp only
      omega
    · dsimp only
      omega

/-! ## What a step does to cells -/

/-- An entity that is alive after a step was alive before, or is the one created.  Read backwards:
    nothing comes to life but by a creation, in its own slot. -/
theorem moves_alive_of (hm : Moves s s' t e t') (ha : t'.AliveAt i j a p) :
    (t.AliveAt i j a p ∧ (t'.row i).comps = (t.row i).comps) ∨
    ∃ comps mem, e = .create comps (.ok (ecsEncodeHandle i j)) ∧ (t'.row i).comps = comps ∧
      Filled s mem i j comps (.ok (ecsEncodeHandle i j)) (.alive a p) := by
  cases hm with
  | register => exact Or.inl ⟨ha, rfl⟩
  | refused => exact Or.inl ⟨ha, rfl⟩
  | add => exact Or.inl ⟨ha, rfl⟩
  | @delete x i₁ j₁ mem a₁ p₁ st r _ _ _ _ hdel =>
    refine Or.inl ⟨((deleted_alive hdel).mp ha).1, ?_⟩
    by_cases hi : i = i₁
    · rw [hi, Table.row_setRow]
      cases hdel <;> rfl
    · rw [Table.row_setRow_other _ hi]
  | @create mem i₁ v comps r _ hi hcomps hf =>
    obtain ⟨hsame, hrows⟩ := put_comps (v := v) hi
    rcases put_alive_of ha with ⟨he, rfl⟩ | ha
    · obtain ⟨rfl, rfl⟩ := Prod.mk.inj he
      cases hf with
      | made h0 => exact Or.inr ⟨comps, mem, rfl, hsame.trans hcomps, .made h0⟩
    · have ha := (withRow_alive comps i₁).mp ha
      exact Or.inl ⟨ha, hrows i ha.row⟩

/-- An entity that is not deleted stays alive. -/
theorem moves_alive {own' : Nat → Option Owner} (h : Shows s own t) (h' : Shows s' own' t')
    (hw : NoWrap s s') (hm : Moves s s' t e t') (ha : t.AliveAt i j a p)
    (hdel : ∀ x st, e = .delete x st → ecsDecodeHandle x ≠ (i, j)) :
    t'.AliveAt i j a p ∧ (t'.row i).comps = (t.row i).comps := by
  cases hm with
  | register => exact ⟨ha, rfl⟩
  | refused => exact ⟨ha, rfl⟩
  | add => exact ⟨ha, rfl⟩
  | @delete x i₁ j₁ mem a₁ p₁ st r _ _ he _ hd =>
    have ha' := (deleted_alive hd).mpr ⟨ha, fun hij => hdel x st rfl (he.trans hij.symm)⟩
    refine ⟨ha', ?_⟩
    by_cases hi : i = i₁
    · rw [hi, Table.row_setRow]
      cases hd <;> rfl
    · rw [Table.row_setRow_other _ hi]
  | @create mem i₁ v comps r _ hi _ _ =>
    obtain ⟨hq, hgrow⟩ := create_row h hi h' hw
    obtain ⟨-, -, hstay⟩ := put_alive (v := v) hi hq hgrow
    exact ⟨hstay _ _ _ _ ((withRow_alive comps i₁).mpr ha), (put_comps (v := v) hi).2 i ha.row⟩

/-- The registry has its array once there is a component. -/
def Registry (s : State) : Prop := s.componentSizeArr = null → s.curComponentIndex = 1

/-- A step keeps the sizes of registered types.  Registering writes behind the last size, and the
    array of sizes never moves. -/
theorem moves_sizes (hr : Registry s) (hm : Moves s s' t e t') : Registry s' ∧
    s.curComponentIndex ≤ s'.curComponentIndex ∧
    ∀ c, 0 < c → c < s.curComponentIndex → s'.componentSize c = s.componentSize c := by
  have hdata : SameData s s' → Registry s' ∧ s.curComponentIndex ≤ s'.curComponentIndex ∧
      ∀ c, 0 < c → c < s.curComponentIndex → s'.componentSize c = s.componentSize c := by
    intro hd
    refine ⟨fun h0 => ?_, Nat.le_of_eq hd.cur.symm, fun c _ _ => hd.componentSize c⟩
    rw [hd.cur]
    exact hr (hd.sizeArr.symm.trans h0)
  cases hm with
  | register _ harr hcur hsize =>
    refine ⟨fun h0 => absurd h0 harr, hcur, fun c hc hlt => hsize (fun h0 => ?_) c hlt⟩
    have := hr h0
    omega
  | refused _ he => exact hdata (he ▸ .refl s)
  | delete _ hd _ _ _ => exact hdata hd
  | create hd _ _ _ => exact hdata hd
  | @add x c data st _ hres =>
    obtain ⟨bytes, hb⟩ := ecsAdd_withBytes s x c data
    rw [hres] at hb
    obtain rfl : s' = s.withBytes bytes := hb
    exact ⟨hr, Nat.le_refl _, fun _ _ _ => rfl⟩

/-- **What a write does**: nothing, or it fills one cell.  The bytes written are those of the
    component's size, from its pointer on: exactly one cell. -/
theorem add_cases (h : Shows s own t) (hset : t.Settled) (hfit : AllFitted s t) {x : Nat}
    {data : Nat → UInt8} {st : NearStatus}
    (hres : s.ecsAddComponentDataToEntity x c data = (s', st)) :
    (s' = s ∧ st ≠ .success) ∨
    ∃ q, Cell t (ecsDecodeHandle x).1 (ecsDecodeHandle x).2 c q ∧ st = .success ∧
      s' = s.withBytes fun y =>
        if q ≤ y ∧ y < q + s.componentSize c then data (y - q) else s.bytes y := by
  have hdead := fun hno => resolve_none (x := x) h hset hno
  cases hx : ecsDecodeHandle x with
  | mk i j =>
    rw [hx] at hdead
    by_cases hal : ∃ a p, t.AliveAt i j a p
    · obtain ⟨a, p, ha⟩ := hal
      rw [ecsAdd_spec h hset hx ha] at hres
      by_cases hc : c ∈ (t.row i).comps
      · obtain ⟨q, ⟨a', p', ha', hq⟩, h0⟩ := hfit.cell ha hc
        obtain ⟨rfl, rfl⟩ := ha.unique ha'
        rw [hq] at hres
        replace hres := (if_neg h0).symm.trans hres
        obtain ⟨hs', hst⟩ := Prod.mk.inj hres
        exact Or.inr ⟨q, ⟨_, _, ha, hq⟩, hst.symm, hs'.symm⟩
      · cases hq : pointerTo (t.row i).comps p c with
        | some q => exact absurd (mem_of_pointerTo hq) hc
        | none =>
          rw [hq] at hres
          obtain ⟨rfl, rfl⟩ := Prod.mk.inj hres
          exact Or.inl ⟨rfl, by decide⟩
    · rw [State.ecsAddComponentDataToEntity] at hres
      rw [hdead fun a p ha => hal ⟨a, p, ha⟩] at hres
      obtain ⟨rfl, rfl⟩ := Prod.mk.inj hres
      exact Or.inl ⟨rfl, by decide⟩

/-! ## The law -/

/-- Cells hold what was last written to them.  `data` speaks of cells and not of handles, so that it
    survives a deletion: a cell that is no more promises nothing. -/
structure DataInv (es : List Event) (s : State) (t : Table) : Prop where
  registry : Registry s
  fitted : AllFitted s t
  data : ∀ h < 2 ^ 64, ∀ c q data, Cell t (ecsDecodeHandle h).1 (ecsDecodeHandle h).2 c q →
    latest h c es = some data → ∀ k < s.componentSize c, s.bytes (q + k) = data k

/-- All entities stay fitted, and a new one is.  A deletion takes an entity away, and every other
    call but a creation leaves them all. -/
theorem fitted_step {own' : Nat → Option Owner} (hr : Registry s) (hfit : AllFitted s t)
    (h' : Shows s' own' t') (hm : Moves s s' t e t')
    (hlen : ∀ comps r, e = .create comps r → comps.length ≤ ecsCompSize)
    (hcreate : ∀ comps r, e = .create comps r →
      (∀ c ∈ comps, 0 < c ∧ c < s.curComponentIndex) ∧
      (comps.map s.componentSize).sum < 2 ^ 62) : AllFitted s' t' := by
  obtain ⟨-, hcur, hsize⟩ := moves_sizes hr hm
  intro i j a p ha
  have hkeep : ∀ {comps}, Fitted s comps a p → Fitted s' comps a p := fun hf =>
    hf.keep hcur fun c hc => hsize c (hf.registered c hc).1 (hf.registered c hc).2
  rcases moves_alive_of hm ha with ⟨hold, hcomps⟩ | ⟨comps, mem, he, hcomps, hf⟩
  · rw [hcomps]
    exact hkeep (hfit i j a p hold)
  · rw [hcomps]
    obtain ⟨hreg, hsum⟩ := hcreate comps _ he
    refine hkeep (hf.fitted (hlen comps _ he) hreg hsum fun hmem => ?_)
    have hbase : a.base = mem := by cases hf; rfl
    have hown := (h'.alive ha).2.2.2.2 (by rw [hbase]; exact hmem)
    have hend := (h'.good.fits _ hown.held).2
    rw [hbase] at hend
    exact hend

/-- A step that does not write the cell leaves what `latest` says, or begins the entity anew. -/
theorem latest_cons {h : Nat} {es : List Event} {data : Nat → UInt8}
    (hl : latest h c (e :: es) = some data) (hadd : ∀ d, e ≠ .add h c d .success) :
    latest h c es = some data ∧ ∀ comps, e ≠ .create comps (.ok h) := by
  cases e with
  | register => exact ⟨hl, nofun⟩
  | delete => exact ⟨hl, nofun⟩
  | create comps r =>
    cases r with
    | error => exact ⟨hl, nofun⟩
    | ok h' =>
      by_cases hh : h' = h
      · rw [show latest h c (.create comps (.ok h') :: es) = none from if_pos hh] at hl
        cases hl
      · rw [show latest h c (.create comps (.ok h') :: es) = latest h c es from if_neg hh] at hl
        refine ⟨hl, fun comps' he => hh ?_⟩
        injection he with _ he
        exact Except.ok.inj he
  | add h' c' d st =>
    refine ⟨?_, nofun⟩
    by_cases hst : st = .success
    · subst hst
      have hne : ¬ (h' = h ∧ c' = c) := fun ⟨h1, h2⟩ => hadd d (by rw [h1, h2])
      rw [show latest h c (.add h' c' d .success :: es) = latest h c es from if_neg hne] at hl
      exact hl
    · cases st <;> first | exact absurd rfl hst | exact hl

/-- **Frame.**  A cell that is not written stays.  Only a write changes bytes, and it changes those
    of one cell, which is apart from this one. -/
theorem bytes_frame (h : Shows s own t) (hset : t.Settled) (hfit : AllFitted s t)
    (hm : Moves s s' t e t') (hq : Cell t i j c q)
    (hadd : ∀ x d, e = .add x c d .success → ecsDecodeHandle x ≠ (i, j)) :
    ∀ k < s.componentSize c, s'.bytes (q + k) = s.bytes (q + k) := by
  intro k hk
  cases hm with
  | register hb => rw [hb]
  | refused _ he => rw [he]
  | delete _ hd _ _ _ => rw [hd.bytes]
  | create hd _ _ _ => rw [hd.bytes]
  | @add x c' data st _ hres =>
    rcases add_cases h hset hfit hres with ⟨rfl, -⟩ | ⟨q', hq', rfl, rfl⟩
    · rfl
    · have hne : (i, j, c) ≠ ((ecsDecodeHandle x).1, (ecsDecodeHandle x).2, c') := by
        intro he
        obtain ⟨h1, he⟩ := Prod.mk.inj he
        obtain ⟨h2, rfl⟩ := Prod.mk.inj he
        exact hadd x data rfl (Prod.ext h1.symm h2.symm)
      have hap := hq.apart hq' h hfit hne
      refine if_neg fun hin => ?_
      rw [Region.Apart] at hap
      dsimp only at hap
      omega

/-- A step keeps what cells hold true.  Three cases: the cell is the one written, it belongs to the
    entity just created (and `latest` has nothing), or it is framed. -/
theorem data_step {own' : Nat → Option Owner} (h : Shows s own t) (hset : t.Settled)
    {es : List Event} (hd : DataInv es s t) (h' : Shows s' own' t') (hm : Moves s s' t e t')
    (hlen : ∀ comps r, e = .create comps r → comps.length ≤ ecsCompSize)
    (hcreate : ∀ comps r, e = .create comps r →
      (∀ c ∈ comps, 0 < c ∧ c < s.curComponentIndex) ∧
      (comps.map s.componentSize).sum < 2 ^ 62) : DataInv (e :: es) s' t' := by
  obtain ⟨hr', -, hsize⟩ := moves_sizes hd.registry hm
  refine ⟨hr', fitted_step hd.registry hd.fitted h' hm hlen hcreate, ?_⟩
  intro x hx c q data hq hl k hk
  obtain ⟨a, p, ha, hptr⟩ := hq
  by_cases hnew : ∃ comps, e = .create comps (.ok x)
  · -- a new entity has no data
    obtain ⟨comps, rfl⟩ := hnew
    rw [show latest x c (.create comps (.ok x) :: es) = none from if_pos rfl] at hl
    cases hl
  · rcases moves_alive_of hm ha with ⟨hold, hcomps⟩ | ⟨comps, mem, he, -, -⟩
    · have hq : Cell t (ecsDecodeHandle x).1 (ecsDecodeHandle x).2 c q :=
        ⟨a, p, hold, by rw [← hcomps]; exact hptr⟩
      obtain ⟨hpos, hreg⟩ := (hd.fitted _ _ a p hold).registered c (by
        rw [← hcomps]; exact mem_of_pointerTo hptr)
      rw [hsize c hpos hreg] at hk
      by_cases hadd : ∃ d, e = .add x c d .success
      · -- this cell was written
        obtain ⟨d, rfl⟩ := hadd
        rw [show latest x c (.add x c d .success :: es) = some d from if_pos ⟨rfl, rfl⟩] at hl
        obtain rfl := Option.some.inj hl
        cases hm with
        | add _ hres =>
          rcases add_cases h hset hd.fitted hres with ⟨-, hst⟩ | ⟨q', hq', -, rfl⟩
          · exact absurd rfl hst
          · obtain rfl := hq.unique hq'
            refine (if_pos ⟨Nat.le_add_right _ _, by omega⟩).trans ?_
            rw [Nat.add_sub_cancel_left]
      · obtain ⟨hl', -⟩ := latest_cons hl fun d he => hadd ⟨d, he⟩
        rw [bytes_frame h hset hd.fitted hm hq (fun y d he hy => hadd ⟨d, ?_⟩) k hk]
        · exact hd.data x hx c q data hq hl' k hk
        · -- a write elsewhere is not a write to this handle
          have hyx : y = x := by
            cases hm with
            | add hyy _ =>
              injection he with he1
              rw [← he1, ← encode_decode hyy, ← encode_decode hx, he1, hy]
            | _ => cases he
          rw [he, hyx]
    · exact absurd ⟨comps, he.trans (by rw [encode_decode hx])⟩ hnew

/-- The invariant in every state of a run. -/
theorem run_data {s₀ : State} (h0 : Started s₀) {es : List Event} (run : Trace DataStep s₀ es s) :
    ∃ own t, Shows s own t ∧ t.Settled ∧ Names t (live es) ∧ DataInv es s t := by
  refine run.history_inv (I := fun es s => ∃ own t, Shows s own t ∧ t.Settled ∧
    Names t (live es) ∧ DataInv es s t) ?_ ?_
  · have hno : ∀ {i j a p}, ¬ Table.AliveAt ⟨0, fun _ => ⟨[], 0, [], fun _ => .lost⟩⟩ i j a p :=
      fun ha => absurd ha.row (Nat.not_lt_zero _)
    refine ⟨_, _, Shows.start h0, fun i hi => absurd hi (Nat.not_lt_zero i), ⟨List.nodup_nil,
      fun x c => ⟨nofun, fun ⟨_, _, a, p, ha⟩ => absurd ha hno⟩⟩, fun _ => h0.cur,
      fun i j a p ha => absurd ha hno, fun x _ c q data hq hl => nomatch hl⟩
  · intro es s e s' _ ⟨own, t, h, hset, hn, hd⟩ ⟨hs, hcreate⟩
    obtain ⟨own', t', h', hset', hn', hm⟩ := names_step h hset hn hs
    exact ⟨own', t', h', hset', hn', data_step h hset hd h' hm (fun comps r he => hs.1.length he) hcreate⟩

/-- The pointer that `EcsGetComponent` returns is that of the cell. -/
theorem Cell.get (hq : Cell t i j c q) (h : Shows s own t) (hset : t.Settled) {x : Nat}
    (hx : ecsDecodeHandle x = (i, j)) : s.ecsGetComponent x c = .ok q := by
  obtain ⟨a, p, ha, hptr⟩ := hq
  rw [ecsGetComponent_spec h hset hx ha, hptr]

/-- A component with a cell can be written. -/
theorem Cell.add (hq : Cell t i j c q) (h : Shows s own t) (hset : t.Settled) {x : Nat}
    (hx : ecsDecodeHandle x = (i, j)) (data : Nat → UInt8) :
    (s.ecsAddComponentDataToEntity x c data).2 = .success := by
  obtain ⟨a, p, ha, hptr⟩ := hq
  rw [ecsAdd_spec h hset hx ha, hptr]
  dsimp only
  split <;> rfl

/-- **The law of the store.**  In every state of every run, for every live entity and component of
    its list: the component is found, its data can be written, the bytes at its pointer are those
    last written since the entity was created, and no call changes pointer or bytes but a write to
    this component of this entity or its deletion.

    The steps are `DataStep`s.  The component lists have at most ten entries of registered types, and
    the sizes of a list, each entry counted, add up to less than `2 ^ 62`: then no sum of sizes
    wraps and the components of an entity lie one after the other in its arena.  The array of
    archetypes and the arrays of entities get their pages; arenas and queue nodes may be refused.
    Fewer than `2 ^ 32` archetypes and slots are in use: a handle names an entity by two 32-bit
    numbers, and `handles_run_out` shows that the law fails beyond.

    The crux is that two cells never overlap (`Cell.apart`).  Arenas are apart because the allocators
    keep them so, also when an array moves, and components of one arena are apart by their offsets;
    so a write reaches one cell only (`bytes_frame`), and `latest` is what the cell holds. -/
theorem store_law {s₀ : State} (h0 : Started s₀) {es : List Event}
    (run : Trace DataStep s₀ es s) :
    ∀ h comps, (h, comps) ∈ live es → ∀ c ∈ comps, ∃ q, s.ecsGetComponent h c = .ok q ∧
      (∀ data, (s.ecsAddComponentDataToEntity h c data).2 = .success) ∧
      (∀ data, latest h c es = some data →
        ∀ k < s.componentSize c, s.bytes (q + k) = data k) ∧
      ∀ e s', DataStep s e s' → (∀ st, e ≠ .delete h st) → (∀ d st, e ≠ .add h c d st) →
        s'.ecsGetComponent h c = .ok q ∧
        ∀ k < s.componentSize c, s'.bytes (q + k) = s.bytes (q + k) := by
  obtain ⟨own, t, hsh, hset, hn, hd⟩ := run_data h0 run
  intro h comps hmem c hc
  obtain ⟨hh, rfl, a, p, ha⟩ := (hn.mem h comps).mp hmem
  obtain ⟨q, hq, -⟩ := hd.fitted.cell ha hc
  have hx : ecsDecodeHandle h = ((ecsDecodeHandle h).1, (ecsDecodeHandle h).2) := rfl
  refine ⟨q, hq.get hsh hset hx, hq.add hsh hset hx, fun data => hd.data h hh c q data hq,
    fun e s' hs hdel hadd => ?_⟩
  obtain ⟨own', t', hsh', hset', hm⟩ := step_moves hsh hset hs.1.1
  -- a call on another value is a call on another slot
  have hother : ∀ {x}, x < 2 ^ 64 → ecsDecodeHandle x = ecsDecodeHandle h → x = h := by
    intro x hx' he
    rw [← encode_decode hx', ← encode_decode hh, he]
  have hdel' : ∀ x st, e = .delete x st →
      ecsDecodeHandle x ≠ ((ecsDecodeHandle h).1, (ecsDecodeHandle h).2) := by
    rintro x st rfl he
    have hx' : x < 2 ^ 64 := by cases hs.1.1; assumption
    exact hdel st (by rw [hother hx' he])
  have hadd' : ∀ x d, e = .add x c d .success →
      ecsDecodeHandle x ≠ ((ecsDecodeHandle h).1, (ecsDecodeHandle h).2) := by
    rintro x d rfl he
    have hx' : x < 2 ^ 64 := by cases hs.1.1; assumption
    exact hadd d .success (by rw [hother hx' he])
  refine ⟨?_, bytes_frame hsh hset hd.fitted hm hq hadd'⟩
  obtain ⟨a', p', ha', hptr⟩ := hq
  obtain ⟨hstay, hcomps⟩ := moves_alive hsh hsh' hs.1.2 hm ha' hdel'
  have hq' : Cell t' (ecsDecodeHandle h).1 (ecsDecodeHandle h).2 c q :=
    ⟨a', p', hstay, by rw [hcomps]; exact hptr⟩
  exact hq'.get hsh' hset' hx

/-! A concrete run: a component of 8 bytes, an entity with it, and a write. -/

def storeWithData : State := (storeWithCell.ecsAddComponentDataToEntity 0 1 fun _ => 7).1

theorem storeWithData_reached : Trace DataStep startedStore
    [.add 0 1 (fun _ => 7) .success, .create [1] (.ok 0), .register 8 1] storeWithData := by
  have h1 : Step startedStore (.register 8 1) storeWithSize :=
    .register (show 0x1000 ≠ null by decide) (Prod.ext rfl (by decide)) (by decide)
  have h2 : Step storeWithSize (.create [1] (.ok 0)) storeWithCell :=
    step_create (by decide) (by decide) (by decide)
  have h3 : Step storeWithCell (.add 0 1 (fun _ => 7) .success) storeWithData :=
    .add (by decide) (Prod.ext rfl (by decide))
  refine ((Trace.start.snoc ⟨⟨h1, by decide, by decide⟩, nofun⟩).snoc
    ⟨⟨h2, by decide, by decide⟩, ?_⟩).snoc ⟨⟨h3, by decide, by decide⟩, nofun⟩
  intro comps r he
  injection he with he _
  rw [← he]
  exact ⟨by decide, by decide⟩

/-- The data written is read back. -/
theorem store_law_first : ∃ q, storeWithData.ecsGetComponent 0 1 = .ok q ∧
    ∀ k < 8, storeWithData.bytes (q + k) = 7 := by
  obtain ⟨q, hget, -, hdata, -⟩ := store_law startedStore_started storeWithData_reached 0 [1]
    List.mem_cons_self 1 List.mem_cons_self
  exact ⟨q, hget, hdata _ rfl⟩

end Nearlands.Ecs

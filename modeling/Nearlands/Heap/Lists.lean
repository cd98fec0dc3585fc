/-
  The lists of the heap.

  The part of a block that is in use is divided into chunks, one behind the other, so that the chunk
  headers of a block can be found from its base on (`State.ChunkAt`).  `Tiled v B C` says that for
  the chunks `C` of the blocks `B`: the first one is where a block begins, and behind each there is
  another one or the end of what is in use.  Every change of the heap keeps it.

  With it the list of free chunks is what it should be: it holds the chunks of the blocks there are
  with `isFree` set, each once, and nothing else (`lists_well_formed`).
-/
import Nearlands.Heap.Runs

namespace Nearlands.Heap

open Nearlands.Lib

/-- The chunk headers of the block at `b`.  Nothing of the lists is read here: this is how a
    debugger would walk the block, from its base, by sizes. -/
inductive State.ChunkAt (s : State) (b : Nat) : Nat → Prop
  | first : 0 < (s.blockAt b).amountUsed → s.ChunkAt b (s.blockAt b).base
  | next {c : Nat} : s.ChunkAt b c →
      (s.allocAt c).base + (s.allocAt c).size <
        (s.blockAt b).base + (s.blockAt b).amountUsed →
      s.ChunkAt b ((s.allocAt c).base + (s.allocAt c).size)

/-- Where a chunk ends. -/
def View.endOf (v : View) (c : Nat) : Nat := c + 48 + (v.chunk c).size

/-- Where the part of a block that is in use ends. -/
def View.usedEnd (v : View) (b : Nat) : Nat := b + 48 + (v.block b).amountUsed

/-- The chunks lie one behind the other.  Together with `Layout`, by which chunks do not overlap,
    this leaves no gap between them. -/
structure Tiled (v : View) (B C : List Nat) : Prop where
  first : ∀ b ∈ B, 0 < (v.block b).amountUsed → b + 48 ∈ C ∧ (v.chunk (b + 48)).header = b
  next : ∀ c ∈ C, v.endOf c = v.usedEnd (v.chunk c).header ∨
    v.endOf c ∈ C ∧ (v.chunk (v.endOf c)).header = (v.chunk c).header

variable {v v' : View} {B C C' F : List Nat} {live : List (Nat × Nat)} {b c size mem : Nat}

/-! ## What changes of the heap do to it -/

/-- The same chunks.  The chunks may come in another order, and counters and flags may differ. -/
theorem Tiled.congr (h : Tiled v B C) (hsame : SameData v v' B C)
    (hin : ∀ c ∈ C, (v.chunk c).header ∈ B) (hC : ∀ c, c ∈ C ↔ c ∈ C') : Tiled v' B C' where
  first := by
    intro b hb hused
    rw [(hsame.block b hb).2.2] at hused
    obtain ⟨hmem, hheader⟩ := h.first b hb hused
    exact ⟨(hC _).mp hmem, (hsame.chunk _ hmem).1.trans hheader⟩
  next := by
    intro c hc
    have hc := (hC c).mpr hc
    obtain ⟨hheader, -, hsize⟩ := hsame.chunk c hc
    have hend : v'.endOf c = v.endOf c := by rw [View.endOf, View.endOf, hsize]
    have hused : v'.usedEnd (v.chunk c).header = v.usedEnd (v.chunk c).header := by
      rw [View.usedEnd, View.usedEnd, (hsame.block _ (hin c hc)).2.2]
    rw [hheader, hend, hused]
    refine (h.next c hc).imp_right fun ⟨hmem, hnext⟩ => ?_
    exact ⟨(hC _).mp hmem, (hsame.chunk _ hmem).1.trans hnext⟩

/-- The order of the chunks does not matter. -/
theorem Tiled.perm (h : Tiled v B C) (hp : C.Perm C') : Tiled v B C' where
  first := fun b hb hpos => (h.first b hb hpos).imp_left hp.mem_iff.mp
  next := fun c hc => (h.next c (hp.mem_iff.mpr hc)).imp_right (And.imp_left hp.mem_iff.mp)

/-- The chunks of other blocks.  A chunk and the one behind it have the same block, so they go or
    stay together. -/
theorem Tiled.sub {B' : List Nat} (h : Tiled v B C) (hB : ∀ x ∈ B', x ∈ B ∧ x ≠ b)
    (hC : ∀ c, c ∈ C' ↔ c ∈ C ∧ (v.chunk c).header ≠ b) : Tiled v B' C' where
  first := by
    intro x hx hused
    obtain ⟨hmem, hheader⟩ := h.first x (hB x hx).1 hused
    exact ⟨(hC _).mpr ⟨hmem, fun hb => (hB x hx).2 (hheader.symm.trans hb)⟩, hheader⟩
  next := by
    intro c hc
    obtain ⟨hc, hne⟩ := (hC c).mp hc
    refine (h.next c hc).imp_right fun ⟨hmem, hnext⟩ => ?_
    exact ⟨(hC _).mpr ⟨hmem, fun hb => hne (hnext.symm.trans hb)⟩, hnext⟩

/-- A chunk is split in two.  The new header is where the front half ends, and the rest ends where
    the whole chunk ended. -/
theorem Tiled.split (h : Tiled v B (c :: C)) (hl : Layout v B (c :: C))
    (hs : (v.chunk c).Splits size) (hmod : size % 16 = 0) :
    Tiled (v.split c size) B (c :: (c + 48 + size) :: C) := by
  obtain ⟨-, hc, hn, hother⟩ := split_values hl hs hmod
  obtain ⟨hcn, hnd⟩ := List.nodup_cons.mp (hl.split hs hmod).chunks_nodup
  obtain ⟨hnC, -⟩ := List.nodup_cons.mp hnd
  have hlt := (hl.chunk c List.mem_cons_self).lt hl
  obtain ⟨hgt, -, hrest⟩ := hs
  rw [sub64_of_le (by omega) (by omega)] at hrest
  have hused : ∀ b, (v.split c size).usedEnd b = v.usedEnd b := by
    intro b
    rw [View.usedEnd, View.usedEnd, show ((v.split c size).block b).amountUsed = _ from
      (block_count _ _ _ b).2.2]
  have hsame : ∀ x ∈ C, (v.split c size).chunk x = v.chunk x := fun x hx =>
    hother x (fun he => hcn (he ▸ List.mem_cons_of_mem _ hx)) fun he => hnC (he ▸ hx)
  -- the old chunks, among the new ones
  have hold : ∀ x ∈ c :: C, x ∈ c :: (c + 48 + size) :: C ∧
      ((v.split c size).chunk x).header = (v.chunk x).header := by
    intro x hx
    rcases List.mem_cons.mp hx with rfl | hx
    · exact ⟨List.mem_cons_self, by rw [hc]⟩
    · exact ⟨List.mem_cons_of_mem _ (List.mem_cons_of_mem _ hx), by rw [hsame x hx]⟩
  refine ⟨fun b hb hpos => ?_, fun x hx => ?_⟩
  · rw [show ((v.split c size).block b).amountUsed = _ from (block_count _ _ _ b).2.2] at hpos
    obtain ⟨hmem, hheader⟩ := h.first b hb hpos
    obtain ⟨hmem, hkept⟩ := hold _ hmem
    exact ⟨hmem, hkept.trans hheader⟩
  · rcases List.mem_cons.mp hx with rfl | hx
    · -- behind the first half lies the second
      have hend : (v.split x size).endOf x = x + 48 + size := by rw [View.endOf, hc]
      rw [hend, hn, hc]
      exact .inr ⟨List.mem_cons_of_mem _ List.mem_cons_self, rfl⟩
    rcases List.mem_cons.mp hx with rfl | hx
    · -- and behind the second what was behind the chunk
      have hend : (v.split c size).endOf (c + 48 + size) = v.endOf c := by
        rw [View.endOf, View.endOf, hn]
        dsimp only
        omega
      rw [hend, hn, hused]
      refine (h.next c List.mem_cons_self).imp_right fun ⟨hmem, hnext⟩ => ?_
      exact ⟨(hold _ hmem).1, (hold _ hmem).2.trans hnext⟩
    · have hend : (v.split c size).endOf x = v.endOf x := by
        rw [View.endOf, View.endOf, hsame x hx]
      rw [hend, hsame x hx, hused]
      refine (h.next x (List.mem_cons_of_mem _ hx)).imp_right fun ⟨hmem, hnext⟩ => ?_
      exact ⟨(hold _ hmem).1, (hold _ hmem).2.trans hnext⟩

/-- A chunk is carved from a block.  The chunk is put where the used part ended, and the used part
    now ends where the chunk does. -/
theorem Tiled.carve (h : Tiled v B C) (hl : Layout v B C) (hb : b ∈ B) (h48 : 48 ≤ size)
    (hmod : size % 16 = 0) (hfit : size ≤ (v.block b).remaining) :
    Tiled (v.carve b size) B (v.topOf b :: C) := by
  obtain ⟨htop, hnew, hother, hblock, hblocks, -⟩ := carve_values hl hb h48 hfit
  obtain ⟨hnot, -⟩ := List.nodup_cons.mp (hl.carve hb h48 hmod hfit).chunks_nodup
  have hsame : ∀ x ∈ C, (v.carve b size).chunk x = v.chunk x := fun x hx =>
    hother x fun he => hnot (he ▸ hx)
  refine ⟨fun x hx hpos => ?_, fun x hx => ?_⟩
  · by_cases hfirst : x = b ∧ (v.block b).amountUsed = 0
    · -- the first chunk of the block
      obtain ⟨rfl, h0⟩ := hfirst
      rw [show x + 48 = v.topOf x by rw [htop, h0], hnew]
      exact ⟨List.mem_cons_self, rfl⟩
    · have hpos' : 0 < (v.block x).amountUsed := by
        by_cases hxb : x = b
        · rw [hxb]
          exact Nat.pos_of_ne_zero fun h0 => hfirst ⟨hxb, h0⟩
        · rwa [hblocks x hxb] at hpos
      obtain ⟨hmem, hheader⟩ := h.first x hx hpos'
      rw [hsame _ hmem]
      exact ⟨List.mem_cons_of_mem _ hmem, hheader⟩
  · rcases List.mem_cons.mp hx with rfl | hx
    · -- the new chunk ends where the used part does
      left
      rw [View.endOf, View.usedEnd, hnew, hblock]
      dsimp only
      omega
    · have hend : (v.carve b size).endOf x = v.endOf x := by
        rw [View.endOf, View.endOf, hsame x hx]
      rw [hend, hsame x hx]
      rcases h.next x hx with hlast | ⟨hmem, hnext⟩
      · by_cases hxb : (v.chunk x).header = b
        · -- the last chunk of the block is followed by the new one
          have hat : v.endOf x = v.topOf b := by rw [hlast, hxb, htop, View.usedEnd]
          rw [hat, hnew]
          exact .inr ⟨List.mem_cons_self, hxb.symm⟩
        · left
          rw [hlast, View.usedEnd, View.usedEnd, hblocks _ hxb]
      · rw [hsame _ hmem]
        exact .inr ⟨List.mem_cons_of_mem _ hmem, hnext⟩

/-- A new block holds no chunk. -/
theorem Tiled.create (h : Tiled v B C) (hl : Layout v B C) (hmod : size % 16 = 0)
    (hlt : size < 2 ^ 64) (hmem : mem + 48 < 2 ^ 64) (hnot : mem ∉ B) :
    Tiled (v.create size mem) (B ++ [mem]) C := by
  obtain ⟨hblock, -, hother, -⟩ := create_values v size mem ⟨hmod, hlt⟩ hmem
  have hold : ∀ x ∈ B, (v.create size mem).block x = v.block x := fun x hx =>
    hother x fun he => hnot (he ▸ hx)
  refine ⟨fun x hx hpos => ?_, fun c hc => ?_⟩
  · rcases List.mem_append.mp hx with hx | hx
    · rw [hold x hx] at hpos
      exact h.first x hx hpos
    · rw [List.mem_singleton.mp hx, hblock] at hpos
      exact absurd hpos (Nat.lt_irrefl 0)
  · have hused : (v.create size mem).usedEnd (v.chunk c).header = v.usedEnd (v.chunk c).header := by
      rw [View.usedEnd, View.usedEnd, hold _ (hl.chunk c hc).header]
    show _ = (v.create size mem).usedEnd (v.chunk c).header ∨ _
    rw [hused]
    exact h.next c hc

/-! ## Calls -/

/-- The chunks that a step of the heap leaves, and that they lie one behind the other.  The
    invariant of the heap with the tiling beside it: `Inv` is used to prove that `Tiled` survives,
    and not the other way round. -/
def Formed (v : View) (live : List (Nat × Nat)) : Prop :=
  ∃ B F, Inv v B F live ∧ Tiled v B (live.map chunkOf ++ F)

/-- The header of every chunk points to a block that exists. -/
theorem mem_chunk (hi : Inv v B F live) : ∀ c ∈ live.map chunkOf ++ F, (v.chunk c).header ∈ B :=
  fun c hc => (hi.layout.chunk c hc).header

/-- Carving keeps both. -/
theorem formed_carve (hi : Inv v B F live) (ht : Tiled v B (live.map chunkOf ++ F)) {n : Nat}
    (hb : b ∈ B) (hn : n + 63 < 2 ^ 64)
    (hfit : splitSafe (w64 (n + 48)) ≤ (v.block b).remaining) :
    Formed (v.carve b (splitSafe (w64 (n + 48)))) ((w64 (v.topOf b + 48), n) :: live) := by
  obtain ⟨-, hinv⟩ := inv_carve hi hb hn hfit
  have h48 : 48 ≤ splitSafe (w64 (n + 48)) := by
    rw [w64_of_lt (by omega), splitSafe_of_lt (by omega)]
    omega
  have hchunk : chunkOf (w64 (v.topOf b + 48), n) = v.topOf b := by
    rw [chunkOf, (hi.layout.block b hb).top.2, (hi.layout.block b hb).top.1]
    dsimp only
    omega
  refine ⟨B, F, hinv, ?_⟩
  rw [List.map_cons, hchunk]
  exact ht.carve hi.layout hb h48 (splitSafe_mod _) hfit

/-- Taking memory keeps both. -/
theorem formed_takes (hi : Inv v B F live) (ht : Tiled v B (live.map chunkOf ++ F)) {n p : Nat}
    (hn : n + 63 < 2 ^ 64) (h : Takes v F B n v' p) : Formed v' ((p, n) :: live) := by
  cases h with
  | @reuse c hc hfit =>
    have hchunk : chunkOf ((v.chunk c).base, n) = c := by
      rw [chunkOf, (hi.free_chunk hc).base, Nat.add_sub_cancel]
    refine ⟨B, _, inv_reuse hi hc hn hfit, ?_⟩
    rw [List.map_cons, hchunk]
    exact ht.congr (reuse_sameData v c B _) (mem_chunk hi) fun x => (perm_front hc).mem_iff
  | @split c hc hfit =>
    have hchunk : chunkOf ((v.chunk c).base, n) = c := by
      rw [chunkOf, (hi.free_chunk hc).base, Nat.add_sub_cancel]
    refine ⟨B, _, inv_split hi hc hn hfit, ?_⟩
    rw [List.map_cons, hchunk]
    have hfront := perm_front (l := live.map chunkOf) hc
    have hsplit := (ht.perm hfront).split (hi.layout.perm hfront) hfit (splitSafe_mod n)
    rw [List.cons_append, ← List.append_assoc]
    exact hsplit.perm ((List.perm_append_singleton _ _).symm.cons c)
  | carve hb hfit => exact formed_carve hi ht hb hn hfit

/-- An allocation keeps both. -/
theorem formed_allocates (hi : Inv v B F live) (ht : Tiled v B (live.map chunkOf ++ F))
    {n p : Nat} (hn : n < 2 ^ 62)
    (hf : mem = null ∨ Fresh (held v.log) (inPages (blockSize n)) mem)
    (h : Allocates v F B n mem v' p) : Formed v' (hold (p, n) live) := by
  have hcreate : mem ≠ null → ∃ B', Inv (v.create (blockSize n) mem) B' F live ∧
      Tiled (v.create (blockSize n) mem) B' (live.map chunkOf ++ F) ∧ mem ∈ B' := by
    intro hmem
    have hfresh := hf.resolve_left hmem
    have hfits := hfresh.fits
    have hpages := blockSize_pages hn
    obtain ⟨hnot, hinv⟩ := inv_create hi (splitSafe_mod _) (splitSafe_lt _) hpages hfresh
    exact ⟨B ++ [mem], hinv, ht.create hi.layout (splitSafe_mod _) (splitSafe_lt _) (by omega) hnot,
      List.mem_append_right _ List.mem_cons_self⟩
  cases h with
  | taken htake =>
    rw [hold_some (inv_takes hi (by omega) htake).1]
    exact formed_takes hi ht (by omega) htake
  | refused => exact ⟨B, F, inv_refused hi _, ht.first, ht.next⟩
  | useless hmem _ =>
    obtain ⟨B', hinv, htiled, -⟩ := hcreate hmem
    exact ⟨B', F, hinv, htiled⟩
  | grown hmem hfit =>
    obtain ⟨B', hinv, htiled, hin⟩ := hcreate hmem
    rw [hold_some (inv_carve hinv hin (by omega) hfit).1]
    exact formed_carve hinv htiled hin (by omega) hfit

/-- The chunks that stay when a block goes. -/
theorem delete_mem (hi : Inv v B F live) {a : Nat × Nat} (ha : a ∈ live)
    (hlast : (v.block (v.chunk (chunkOf a)).header).allocCounter ≤ 1) (c : Nat) :
    c ∈ (live.erase a).map chunkOf ++
        F.filter (fun c => decide ((v.chunk c).header ≠ (v.chunk (chunkOf a)).header)) ↔
      c ∈ live.map chunkOf ++ F ∧ (v.chunk c).header ≠ (v.chunk (chunkOf a)).header := by
  rw [List.mem_append, List.mem_append, List.mem_filter, decide_eq_true_iff, or_and_right]
  refine or_congr ⟨?_, ?_⟩ Iff.rfl
  · rintro hc
    obtain ⟨x, hx, rfl⟩ := List.mem_map.mp hc
    exact ⟨List.mem_map_of_mem (List.mem_of_mem_erase hx), hi.gone ha hlast x hx⟩
  · rintro ⟨hc, hne⟩
    obtain ⟨x, hx, rfl⟩ := List.mem_map.mp hc
    have hxa : x ≠ a := fun he => hne (by rw [he])
    exact List.mem_map_of_mem ((List.mem_erase_of_ne hxa).mpr hx)

/-- A free keeps both. -/
theorem formed_free {s s' : State} (hi : Inv s.view B F live)
    (ht : Tiled s.view B (live.map chunkOf ++ F)) {a : Nat × Nat} (ha : a ∈ live) {fuel : Nat}
    {st : NearStatus} (h : s.mmFreeGeneralMemory fuel a.1 = some (s', st)) :
    Formed s'.view (live.erase a) := by
  rcases hi.frees_cases ha h with ⟨hlast, f, hview, hf⟩ | ⟨-, hview⟩
  · rw [hview]
    have hB : ∀ x ∈ B.erase (s.view.chunk (chunkOf a)).header,
        x ∈ B ∧ x ≠ (s.view.chunk (chunkOf a)).header := fun x hx =>
      ⟨List.mem_of_mem_erase hx, fun he => hi.blocks.nodup.not_mem_erase (he ▸ hx)⟩
    refine ⟨_, _, inv_delete hi ha hlast hf, ?_⟩
    refine (ht.sub hB (delete_mem hi ha hlast)).congr
      ⟨fun x _ => block_count _ _ _ x, fun _ _ => ⟨rfl, rfl, rfl⟩⟩ (fun c hc => ?_) fun _ => Iff.rfl
    obtain ⟨hc, hne⟩ := (delete_mem hi ha hlast c).mp hc
    exact (List.mem_erase_of_ne hne).mpr (mem_chunk hi c hc)
  · rw [hview]
    refine ⟨_, _, inv_give hi ha, ?_⟩
    exact ht.congr (give_sameData _ _ B _) (mem_chunk hi) fun x => (give_perm ha F).mem_iff

/-! ## Runs -/

/-- After init nothing is in use, so nothing need be tiled. -/
theorem formed_start {s : Sys} (h : Started s) : Formed s.heap.view s.live := by
  obtain ⟨hlive, z, hz, hlog, hview | ⟨mem, hf, hview⟩⟩ := start_cases h
  · rw [hlive, hview]
    exact ⟨[], [], inv_refused hz _, fun _ hb => absurd hb List.not_mem_nil,
      fun _ hc => absurd hc List.not_mem_nil⟩
  · rw [hlive, hview]
    have hfits := hf.fits
    have hempty : Tiled z [] [] :=
      ⟨fun _ hb => absurd hb List.not_mem_nil, fun _ hc => absurd hc List.not_mem_nil⟩
    obtain ⟨hnot, hinv⟩ := inv_create hz (show 16 % 16 = 0 by decide) (by decide) (by decide)
      (show Fresh (held z.log) (inPages 16) mem by rw [hlog]; exact hf)
    exact ⟨_, [], hinv, hempty.create hz.layout (by decide) (by decide) (by omega) hnot⟩

/-- Every call keeps the tiling. -/
theorem formed_step {s s' : Sys} {e : Event} (h : Formed s.heap.view s.live) (hs : Step s e s') :
    Formed s'.heap.view s'.live := by
  obtain ⟨B, F, hi, ht⟩ := h
  cases hs with
  | @alloc fuel n p pages heap' hn hans hres =>
    have hf := hans (inPages (blockSize n))
    exact formed_allocates hi ht hn hf (hi.allocates (fun hmem =>
      (inv_create hi (splitSafe_mod _) (splitSafe_lt _) (blockSize_pages hn)
        (hf.resolve_left hmem)).1) hres)
  | @free fuel a heap' st ha hres => exact formed_free hi ht ha hres

/-- So every run does. -/
theorem run_formed {s₀ : Sys} (h0 : Started s₀) {h : List Event} {s : Sys}
    (run : Trace Step s₀ h s) : Formed s.heap.view s.live :=
  run.inv (I := fun s => Formed s.heap.view s.live) (formed_start h0)
    fun _ _ _ hf hs => formed_step hf hs

/-! ## What the lists hold -/

/-- A block that is in use is covered by its chunks.  Induction on the bytes up to `x`. -/
theorem chunkAt_covers {s : State} (hbase : (s.blockAt b).base = b + 48)
    (hchunk : ∀ c, s.ChunkAt b c → (s.allocAt c).base = c + 48) {x : Nat}
    (hx : x < s.view.usedEnd b) : ∀ n c, s.ChunkAt b c → c ≤ x → x - c ≤ n →
      ∃ c, s.ChunkAt b c ∧ c ≤ x ∧ x < s.view.endOf c := by
  intro n
  induction n with
  | zero =>
    intro c hc hle hn
    refine ⟨c, hc, hle, ?_⟩
    rw [View.endOf]
    omega
  | succ n ih =>
    intro c hc hle hn
    by_cases hlt : x < s.view.endOf c
    · exact ⟨c, hc, hle, hlt⟩
    · -- the next chunk begins where this one ends
      have hend : (s.allocAt c).base + (s.allocAt c).size = s.view.endOf c := by
        rw [hchunk c hc]
        rfl
      have hused : (s.blockAt b).base + (s.blockAt b).amountUsed = s.view.usedEnd b := by
        rw [hbase]
        rfl
      have hnext := State.ChunkAt.next hc (by rw [hend, hused]; omega)
      rw [hend] at hnext
      refine ih _ hnext (Nat.le_of_not_lt hlt) ?_
      rw [View.endOf] at *
      omega

/-- The chunk headers of a block are the chunks of the layout.  From left to right by induction on
    the walk.  From right to left a walk must come to every chunk: the bytes of `c` are in use, so
    some chunk of the walk covers the first of them, and chunks that share a byte are the same. -/
theorem chunkAt_iff {s : State} (hi : Inv s.view B F live)
    (ht : Tiled s.view B (live.map chunkOf ++ F)) (hb : b ∈ B) :
    s.ChunkAt b c ↔ c ∈ live.map chunkOf ++ F ∧ (s.allocAt c).header = b := by
  have hbase : (s.blockAt b).base = b + 48 := (hi.layout.block b hb).base
  have hin : ∀ c, s.ChunkAt b c → c ∈ live.map chunkOf ++ F ∧ (s.allocAt c).header = b := by
    intro c hc
    induction hc with
    | first hpos =>
      rw [hbase]
      exact ht.first b hb hpos
    | @next c hc hlt ih =>
      obtain ⟨hmem, hheader⟩ := ih
      have hend : (s.allocAt c).base + (s.allocAt c).size = s.view.endOf c := by
        rw [show (s.allocAt c).base = c + 48 from (hi.layout.chunk c hmem).base]
        rfl
      rw [hend] at hlt ⊢
      rcases ht.next c hmem with hlast | ⟨hmem', hnext⟩
      · rw [hlast, show (s.view.chunk c).header = b from hheader, hbase] at hlt
        exact absurd hlt (Nat.lt_irrefl _)
      · exact ⟨hmem', hnext.trans hheader⟩
  refine ⟨hin c, fun ⟨hmem, hheader⟩ => ?_⟩
  have hok := hi.layout.chunk c hmem
  have hwithin := hok.within
  rw [show (s.view.chunk c).header = b from hheader, Region.Within, View.extent,
    View.usedPart] at hwithin
  dsimp only at hwithin
  have hpos : 0 < (s.blockAt b).amountUsed := by
    have hused : (s.blockAt b).amountUsed = (s.view.block b).amountUsed := rfl
    omega
  have hfirst := State.ChunkAt.first hpos
  rw [hbase] at hfirst
  obtain ⟨d, hd, hle, hlt⟩ := chunkAt_covers hbase
    (fun c hc => (hi.layout.chunk c (hin c hc).1).base)
    (show c < s.view.usedEnd b by rw [View.usedEnd]; omega) _ _ hfirst hwithin.1 (Nat.le_refl _)
  -- two chunks that meet are one
  have heq : c = d := by
    by_contra hne
    have hapart := Region.apart_of_mem hi.layout.tiled hmem (hin d hd).1 hne
    rw [View.endOf] at hlt
    rw [Region.Apart, View.extent, View.extent] at hapart
    dsimp only at hapart
    omega
  exact heq ▸ hd

/-- **The lists are well formed.**  In every state of every run the chain of blocks holds the blocks
    not given back, the chain of free chunks holds the chunk headers with `isFree` in them, each
    once, and both are finite, with matching links; and every call returns.  The crux is the second
    equivalence.  That the list holds free chunks only is in `Inv`; that it holds all of them needs
    a description of the chunks that does not mention the list, which is `ChunkAt`. -/
theorem lists_well_formed {s₀ : Sys} (h0 : Started s₀) {h : List Event} {s : Sys}
    (run : Trace Step s₀ h s) :
    ∃ B F, s.heap.blockList.Is B ∧ s.heap.freeList.Is F ∧
      (∀ b, b ∈ B ↔ ∃ r ∈ held s.heap.pageLog, r.1 = b) ∧
      (∀ c, c ∈ F ↔ ∃ b ∈ B, s.heap.ChunkAt b c ∧ (s.heap.allocAt c).isFree = true) ∧
      ∃ turns, ∀ fuel > turns,
        (∀ size < 2 ^ 62, ∀ pages, Answers (held s.heap.pageLog) pages →
          ∃ heap' addr, s.heap.mmAllocateGeneralMemory fuel pages size = some (heap', addr)) ∧
        ∀ addr, ∃ heap' st, s.heap.mmFreeGeneralMemory fuel addr = some (heap', st) := by
  obtain ⟨B, F, hi, ht⟩ := run_formed h0 run
  refine ⟨B, F, hi.blocks, hi.frees, fun b => ?_, fun c => ?_, calls_return h0 run⟩
  · constructor
    · intro hb
      exact ⟨_, hi.runs.mem_iff.mpr (List.mem_map_of_mem hb), (hi.layout.block b hb).runOf⟩
    · rintro ⟨r, hr, rfl⟩
      obtain ⟨b, hb, rfl⟩ := List.mem_map.mp (hi.runs.mem_iff.mp hr)
      rwa [(hi.layout.block b hb).runOf]
  · constructor
    · intro hc
      have hmem := List.mem_append_right (s.live.map chunkOf) hc
      have hb := (hi.free_chunk hc).header
      exact ⟨_, hb, (chunkAt_iff hi ht hb).mpr ⟨hmem, rfl⟩, hi.free c hc⟩
    · rintro ⟨b, hb, hat, hfree⟩
      have hmem := ((chunkAt_iff hi ht hb).mp hat).1
      refine (List.mem_append.mp hmem).resolve_left fun hused => ?_
      obtain ⟨p, hp, rfl⟩ := List.mem_map.mp hused
      -- a chunk that was handed out is not free
      have hnot : (s.heap.allocAt (chunkOf p)).isFree = false := hi.used p hp
      exact absurd (hnot.symm.trans hfree) Bool.false_ne_true

/-- Two allocations, and the first of them given back: its chunk is the list of free ones. -/
theorem lists_well_formed_first : ∃ B F, heapWithHole.blockList.Is B ∧ heapWithHole.freeList.Is F ∧
    (∀ b, b ∈ B ↔ ∃ r ∈ held heapWithHole.pageLog, r.1 = b) ∧
    (∀ c, c ∈ F ↔ ∃ b ∈ B, heapWithHole.ChunkAt b c ∧ (heapWithHole.allocAt c).isFree = true) ∧
    F.headD 0 = 0x200030 := by
  obtain ⟨B, F, hB, hF, hblocks, hfrees, -⟩ :=
    lists_well_formed startedHeap_started heapWithHole_reached
  have hhead : heapWithHole.freeList.head = 0x200030 := by decide +kernel
  exact ⟨B, F, hB, hF, hblocks, hfrees, hF.head.symm.trans hhead⟩

end Nearlands.Heap

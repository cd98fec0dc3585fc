/-
  The kernel in the higher half.

  `MmMapHigherHalfMemoryForKernel` maps page after page from `HHDM_OFFSET` on, in the last slot of
  the pml4, and returns at the first page that could not be mapped.  So at every point of the loop
  the pages before it are mapped where they belong and no other page has changed
  (`mapHigherHalf_spec`): when it returns `FALSE` it has mapped a prefix.
-/
import Nearlands.Ldr.Paging

namespace Nearlands.Ldr

open Nearlands.Lib Nearlands.Vmm

variable {pml4 : Nat} {s : State}

/-- The page number of `HHDM_OFFSET`.  The bits above 47 are dropped in a page number. -/
@[reducible] def hhdmPage : Nat := 2 ^ 36 - 2 ^ 27

/-- The last slot of the pml4 has `2 ^ 27` pages. -/
theorem vpn_hhdm {x : Nat} (h : x < 2 ^ 39) : vpn (HHDM_OFFSET + x) = hhdmPage + x / 0x1000 := by
  show (0xFFFFFF8000000000 + x) / 2 ^ 12 % 2 ^ 36 = 2 ^ 36 - 2 ^ 27 + x / 0x1000
  omega

/-- What `MmMapSinglePage` does with an address that an entry can hold. -/
theorem mmMapSinglePage_spec (hi : Inv pml4 s) {address : Nat} (hal : address % 0x1000 = 0)
    (hlt : address < 2 ^ 64) (v : Nat) :
    let r := mmMapSinglePage s pml4 address v
    Inv pml4 r.1 ∧
      ((r.2 = true ∧ ∀ w, r.1.translate pml4 w =
          if vpn w = vpn v then some address else s.translate pml4 w) ∨
        (r.2 = false ∧ ∀ w, r.1.translate pml4 w = s.translate pml4 w)) := by
  have hspec := mmMapPage_spec hi hal hlt v 0
  rw [mmMapSinglePage_eq s pml4 address v 0]
  dsimp only at hspec ⊢
  obtain ⟨hinv, ⟨hst, htr⟩ | ⟨hst, htr⟩⟩ := hspec
  · exact ⟨hinv, .inl ⟨by rw [hst]; rfl, htr⟩⟩
  · exact ⟨hinv, .inr ⟨by rw [hst]; rfl, htr⟩⟩

/-- **The loop.**  From page `i` on it maps `m` pages, all that are left exactly when it returns
    `TRUE`.  Induction on the turns left.  The bound on the turns keeps the pages in the last slot
    of the pml4, where their numbers do not wrap. -/
theorem mapHigherHalf_spec {address : Nat} (hal : address % 0x1000 = 0) :
    ∀ (n i : Nat) {s : State}, Inv pml4 s → i + n ≤ 2 ^ 27 →
      Inv pml4 (mapHigherHalf s pml4 address i n).1 ∧
      ∃ m ≤ n, ((mapHigherHalf s pml4 address i n).2 = true ↔ m = n) ∧
        ∀ v, (mapHigherHalf s pml4 address i n).1.translate pml4 v =
          if hhdmPage + i ≤ vpn v ∧ vpn v < hhdmPage + (i + m) then
            some (w64 (address + (vpn v - hhdmPage) * 0x1000))
          else s.translate pml4 v := by
  intro n
  induction n with
  | zero =>
    intro i s hi _
    exact ⟨hi, 0, Nat.le_refl 0, iff_of_true rfl rfl, fun v => (if_neg (by omega)).symm⟩
  | succ n ih =>
    intro i s hi hin
    have hpage : w64 (HHDM_OFFSET + i * 0x1000) = HHDM_OFFSET + i * 0x1000 := by
      refine w64_of_lt ?_
      show 0xFFFFFF8000000000 + i * 0x1000 < 2 ^ 64
      omega
    -- page `i` is the one with number `hhdmPage + i`, and it does not wrap
    have hvpn : vpn (HHDM_OFFSET + i * 0x1000) = hhdmPage + i := by
      rw [vpn_hhdm (by omega), Nat.mul_div_cancel i (by decide)]
    have hphys : w64 (address + i * 0x1000) % 0x1000 = 0 := by
      rw [w64]
      omega
    obtain ⟨hi₁, hres⟩ := mmMapSinglePage_spec hi hphys (w64_lt _) (HHDM_OFFSET + i * 0x1000)
    rw [mapHigherHalf, hpage]
    generalize mmMapSinglePage s pml4 (w64 (address + i * 0x1000)) (HHDM_OFFSET + i * 0x1000) = r
      at hi₁ hres ⊢
    rcases hres with ⟨hok, htr⟩ | ⟨hfail, htr⟩
    · -- it is mapped, and so are those behind it that `ih` gives
      obtain ⟨hi₂, m, hm, hiff, hmap⟩ := ih (i + 1) hi₁ (by omega)
      rw [if_neg (by simp [hok])]
      refine ⟨hi₂, m + 1, by omega, hiff.trans (by omega), fun v => ?_⟩
      rw [hmap v, htr v, hvpn]
      by_cases hv : vpn v = hhdmPage + i
      · rw [if_neg (by omega), if_pos hv, if_pos (by omega), hv, Nat.add_sub_cancel_left]
      · rw [if_neg hv]
        exact if_congr (by omega) rfl rfl
    · -- it is refused, and the loop ends
      rw [if_pos hfail]
      refine ⟨hi₁, 0, Nat.zero_le _, ?_, fun v => ?_⟩
      · rw [hfail]
        exact iff_of_false Bool.false_ne_true (by omega)
      · rw [htr v, if_neg (by omega)]

/-- A call of `MmMapSinglePage`, with any two addresses. -/
def Maps (pml4 : Nat) (s : State) (call : Nat × Nat) (s' : State) : Prop :=
  s' = (mmMapSinglePage s pml4 call.1 call.2).1

/-- Every call keeps the tables a tree. -/
theorem run_maps {s₀ : State} (h0 : Started pml4 s₀) {calls : List (Nat × Nat)}
    (run : Trace (Maps pml4) s₀ calls s) : Inv pml4 s := by
  refine run.inv (I := Inv pml4) h0.inv fun s call s' hi hs => ?_
  rw [hs, mmMapSinglePage_eq s pml4 call.1 call.2 0]
  exact (mmMapPage_writes hi call.1 call.2 0).1

/-- **The kernel in the higher half.**  In any tables that `MmMapSinglePage` has built from an empty
    pml4, `TRUE` means that every byte from `HHDM_OFFSET` on is translated to its page of the image;
    after `FALSE` a prefix of the pages is, and the rest of the range is as it was.  No page outside
    the range is translated differently.  What was mapped there before is replaced.  The bound on
    the size is that of the image, `SizeOfImage` being a `DWORD`; and the tables before the call are
    arbitrary, up to having been built by the same function. -/
theorem higher_half_mapped {s₀ : State} (h0 : Started pml4 s₀) {calls : List (Nat × Nat)}
    (run : Trace (Maps pml4) s₀ calls s) {address kernSize : Nat} (hal : address % pageSize = 0)
    (hsize : kernSize % pageSize = 0) (hmax : kernSize ≤ 2 ^ 32) :
    let r := mmMapHigherHalfMemoryForKernel s pml4 address kernSize
    (r.2 = true → ∀ i < kernSize,
      r.1.walk pml4 (HHDM_OFFSET + i) = some (w64 (address + i / pageSize * pageSize))) ∧
    (r.2 = false → ∃ n < kernSize, n % pageSize = 0 ∧
      (∀ i < n, r.1.walk pml4 (HHDM_OFFSET + i) = some (w64 (address + i / pageSize * pageSize))) ∧
      ∀ i, n ≤ i → i < kernSize →
        r.1.walk pml4 (HHDM_OFFSET + i) = s.walk pml4 (HHDM_OFFSET + i)) ∧
    ∀ v, (∀ i < kernSize, vpn v ≠ vpn (HHDM_OFFSET + i)) → r.1.walk pml4 v = s.walk pml4 v := by
  have hi := run_maps h0 run
  replace hsize : kernSize % 0x1000 = 0 := hsize
  have hturns : (kernSize + 0xFFF) / 0x1000 = kernSize / 0x1000 := by omega
  obtain ⟨hi', m, hm, hiff, hmap⟩ :=
    mapHigherHalf_spec hal (kernSize / 0x1000) 0 hi (by omega)
  dsimp only
  rw [mmMapHigherHalfMemoryForKernel, hturns]
  generalize mapHigherHalf s pml4 address 0 (kernSize / 0x1000) = r at hi' hiff hmap ⊢
  -- a byte of the first `m` pages, and one of the others
  have hdone : ∀ i < m * 0x1000, r.1.walk pml4 (HHDM_OFFSET + i) =
      some (w64 (address + i / 0x1000 * 0x1000)) := by
    intro i him
    rw [walk_spec hi', hmap, vpn_hhdm (by omega), if_pos (by omega), Nat.add_sub_cancel_left]
  have hleft : ∀ i, m * 0x1000 ≤ i → i < kernSize →
      r.1.walk pml4 (HHDM_OFFSET + i) = s.walk pml4 (HHDM_OFFSET + i) := by
    intro i him hik
    rw [walk_spec hi', walk_spec hi, hmap, vpn_hhdm (by omega), if_neg (by omega)]
  refine ⟨fun hok i hik => ?_, fun hfail => ?_, fun v hv => ?_⟩
  · have hall := hiff.mp hok
    exact hdone i (by omega)
  · have hne : m ≠ kernSize / 0x1000 := fun heq => by
      rw [hiff.mpr heq] at hfail
      cases hfail
    exact ⟨m * 0x1000, by omega, Nat.mul_mod_left m 0x1000, hdone, hleft⟩
  · rw [walk_spec hi', walk_spec hi, hmap]
    refine if_neg fun h => hv ((vpn v - hhdmPage) * 0x1000) (by omega) ?_
    rw [vpn_hhdm (by omega), Nat.mul_div_cancel _ (by decide)]
    omega

/-- A page of the image, with the three tables it needs. -/
theorem higher_half_mapped_one :
    (mmMapHigherHalfMemoryForKernel threePages 0x5000 0x200000 0x1000).1.walk 0x5000
      (HHDM_OFFSET + 0x123) = some 0x200000 := by
  have h0 : Started 0x5000 threePages := ⟨fun _ => rfl, by decide, by decide, by decide⟩
  have hal : 0x200000 % pageSize = 0 := by decide
  have hsize : 0x1000 % pageSize = 0 := by decide
  have h := (higher_half_mapped h0 Trace.start hal hsize (by decide)).1 (by decide +kernel) 0x123
    (by decide)
  exact h

end Nearlands.Ldr

/-
  The bounds of an arena.

  The regions pushed since the last pop or reset lie side by side in the memory of the arena: each
  ends below the top, and a push begins at it.  The check of `MmPushMemoryFromArena` adds before it
  compares, and so it does not see a sum that wraps: such a push passes whatever the size of the
  arena is, answers memory far past its end, and moves the top down, into what was handed out
  before.  Until that happens the arena keeps its bounds, and that is the first thing to break them
  (`bounds_iff`).
-/
import Nearlands.Arena.Runs

namespace Nearlands.Arena

open Nearlands.Lib Nearlands.Lib.AllocLog

/-- A call that uses the arena, and neither makes nor destroys it.  Runs of such calls are those
    between a creation and a destruction. -/
def Event.Uses : Event → Prop
  | .push _ _ | .pop _ | .reset => True
  | .create _ _ | .destroy _ _ => False

/-- The check of this push would wrap.  It is a condition on the top and the argument, which are
    known before the call. -/
def Sys.Wraps (s : Sys) : Event → Prop
  | .push size _ => 2 ^ 64 ≤ s.arena.used + size
  | _ => False

/-- `MmCreateArena` has just made the arena, over memory the heap answered. -/
def Created (s : Sys) : Prop :=
  ∃ s₀ size mem, mem ≠ null ∧ Step s₀ (.create size mem) s

/-- The regions pushed since the last pop or reset, newest first.  A pop gives up the last region at
    least; since it takes bytes and not regions, none is counted as recent after it. -/
def recent : List Event → List Region
  | [] => []
  | .push size p :: h => if p = null then recent h else ⟨p, size⟩ :: recent h
  | .pop _ :: _ => []
  | .reset :: _ => []
  | .create _ _ :: h => recent h
  | .destroy _ _ :: h => recent h

/-- The top is inside the arena, and so is every region it ever handed out; those with no pop or
    reset between them share nothing.  It speaks of the whole history: also what was handed out long
    ago lies inside. -/
structure Bounded (h : List Event) (s : Sys) : Prop where
  used : s.arena.used ≤ s.arena.size
  within : ∀ size p, .push size p ∈ h → p ≠ null →
    (Region.mk p size).Within ⟨s.arena.base, s.arena.size⟩
  apart : (recent h).Pairwise Region.Apart

/-- The invariant: moreover, what was pushed last ends below the top.  The order of the regions is
    that of the pushes, so the top bounds all of them. -/
structure Stacked (h : List Event) (s : Sys) : Prop extends Bounded h s where
  base : s.arena.base ≠ null
  fits : s.arena.base + s.arena.size < 2 ^ 64
  top : ∀ r ∈ recent h, r.base + r.size ≤ s.arena.base + s.arena.used

/-- A new arena has handed out nothing. -/
theorem Created.stacked {s : Sys} (h : Created s) : Stacked [] s := by
  obtain ⟨s₀, size, mem, hmem, hs⟩ := h
  cases hs with
  | create _ hg =>
    rw [mmCreateArena, if_neg hmem]
    exact ⟨⟨Nat.zero_le _, fun _ _ h => absurd h List.not_mem_nil, List.Pairwise.nil⟩, hmem,
      (hg.1 hmem).fits, fun _ h => absurd h List.not_mem_nil⟩

/-- What a pop or a reset does: the top goes down, and no region is recent any more.  Both calls are
    of this kind: they forget what is recent and keep base and size. -/
theorem Stacked.lower {h : List Event} {s : Sys} (hi : Stacked h s) {e : Event} {a : Arena}
    (hrecent : recent (e :: h) = []) (hpush : ∀ size p, e ≠ .push size p)
    (hbase : a.base = s.arena.base) (hsize : a.size = s.arena.size)
    (hused : a.used ≤ s.arena.used) : Stacked (e :: h) ⟨a, s.memLog⟩ where
  used := by
    have := hi.used
    dsimp only
    omega
  within := by
    rw [hbase, hsize]
    intro size p hmem
    rcases List.mem_cons.mp hmem with heq | hmem
    · exact absurd heq.symm (hpush size p)
    · exact hi.within size p hmem
  apart := by
    rw [hrecent]
    exact List.Pairwise.nil
  base := by
    rw [hbase]
    exact hi.base
  fits := by
    rw [hbase, hsize]
    exact hi.fits
  top := by
    rw [hrecent]
    nofun

/-- A refused push changes nothing. -/
theorem Stacked.refused {h : List Event} {s : Sys} (hi : Stacked h s) (size : Nat) :
    Stacked (.push size null :: h) s where
  used := hi.used
  within := by
    intro n p hmem hp
    rcases List.mem_cons.mp hmem with heq | hmem
    · exact absurd (Event.push.inj heq).2 hp
    · exact hi.within n p hmem hp
  apart := by
    rw [recent, if_pos rfl]
    exact hi.apart
  base := hi.base
  fits := hi.fits
  top := by
    rw [recent, if_pos rfl]
    exact hi.top

/-- A push that passes hands out what lies above the top, and moves the top over it.  What lies
    above the top is apart from everything that is recent; that is why `top` is in the invariant. -/
theorem Stacked.raise {h : List Event} {s : Sys} (hi : Stacked h s) {size : Nat}
    (hsize : s.arena.used + size ≤ s.arena.size) :
    Stacked (.push size (s.arena.base + s.arena.used) :: h)
      ⟨{ s.arena with used := s.arena.used + size }, s.memLog⟩ where
  used := hsize
  within := by
    intro n p hmem hp
    rcases List.mem_cons.mp hmem with heq | hmem
    · obtain ⟨rfl, rfl⟩ := Event.push.inj heq
      rw [Region.Within]
      dsimp only
      omega
    · exact hi.within n p hmem hp
  apart := by
    have hne : s.arena.base + s.arena.used ≠ null := fun h0 => hi.base (by unfold null at *; omega)
    rw [recent, if_neg hne]
    refine List.pairwise_cons.mpr ⟨fun r hr => ?_, hi.apart⟩
    exact .inr (hi.top r hr)
  base := hi.base
  fits := hi.fits
  top := by
    have hne : s.arena.base + s.arena.used ≠ null := fun h0 => hi.base (by unfold null at *; omega)
    rw [recent, if_neg hne]
    intro r hr
    rcases List.mem_cons.mp hr with rfl | hr
    · dsimp only
      omega
    · have := hi.top r hr
      dsimp only
      omega

/-- **Step lemma.**  A call whose check does not wrap keeps the invariant.  A push either is refused
    or passes, and then its sum is the true one, as it did not wrap. -/
theorem Stacked.step {h : List Event} {s s' : Sys} {e : Event} (hi : Stacked h s)
    (hs : Step s e s') (huses : e.Uses) (hno : ¬ s.Wraps e) : Stacked (e :: h) s' := by
  cases hs with
  | create => exact huses.elim
  | destroy => exact huses.elim
  | @pop size _ =>
    obtain ⟨hb, hz, hu⟩ := pop_same s.arena size
    exact hi.lower rfl nofun hb hz hu
  | reset => exact hi.lower rfl nofun rfl rfl (Nat.zero_le _)
  | @push size _ =>
    have hused := hi.used
    have hfits := hi.fits
    rw [Sys.Wraps, Nat.not_le] at hno
    rw [mmPushMemoryFromArena, if_neg hi.base, w64_of_lt hno, w64_of_lt (by omega)]
    by_cases hsize : s.arena.size < s.arena.used + size
    · rw [if_pos hsize]
      exact hi.refused size
    · rw [if_neg hsize]
      exact hi.raise (Nat.le_of_not_lt hsize)

/-- A push whose check wraps passes it, and is out of bounds.  The size of such a push is more than
    all of memory above the base, so the region cannot be within the arena, although the test has
    let it pass. -/
theorem Stacked.wraps {h : List Event} {s s' : Sys} {e : Event} (hi : Stacked h s)
    (hs : Step s e s') (hwraps : s.Wraps e) : ¬ Bounded (e :: h) s' := by
  cases hs with
  | create => exact hwraps.elim
  | destroy => exact hwraps.elim
  | pop => exact hwraps.elim
  | reset => exact hwraps.elim
  | @push size hsize =>
    have hused := hi.used
    have hfits := hi.fits
    have hbase : 0 < s.arena.base := Nat.pos_of_ne_zero hi.base
    rw [Sys.Wraps] at hwraps
    have hpasses : ¬ s.arena.size < w64 (s.arena.used + size) := by
      rw [w64]
      omega
    have hp : (s.arena.mmPushMemoryFromArena size).2 = s.arena.base + s.arena.used := by
      rw [mmPushMemoryFromArena, if_neg hi.base, if_neg hpasses]
      exact w64_of_lt (by omega)
    intro hb
    have hw := hb.within size _ List.mem_cons_self
    rw [hp] at hw
    have hend := (hw (by unfold null; omega)).2
    rw [(push_same s.arena size).1, (push_same s.arena size).2.1] at hend
    dsimp only at hend
    omega

/-- **The bounds of an arena.**  In a run of pushes, pops and resets in which no check wrapped, the
    arena is in its bounds; the next call breaks them exactly when its check wraps.  The bounds hold
    while no check wraps, and a wrapping check breaks them at once; so nothing weaker than "no check
    wraps" keeps an arena in bounds.  The crux is the one line of the source that adds first and
    compares then: if the sum does not wrap it is a correct test, and if it does the test always
    passes. -/
theorem bounds_iff {s₀ : Sys} (h0 : Created s₀) {h : List Event} {s : Sys}
    (run : Trace (fun s e s' => Step s e s' ∧ e.Uses ∧ ¬ s.Wraps e) s₀ h s) :
    Bounded h s ∧ ∀ e s', Step s e s' → e.Uses → (Bounded (e :: h) s' ↔ ¬ s.Wraps e) := by
  have hi : Stacked h s := run.history_inv (I := Stacked) h0.stacked
    fun _ _ _ _ _ hi hs => hi.step hs.1 hs.2.1 hs.2.2
  refine ⟨hi.toBounded, fun e s' hs huses => ⟨fun hb hwraps => ?_, fun hno => ?_⟩⟩
  · exact hi.wraps hs hwraps hb
  · exact (hi.step hs huses hno).toBounded

theorem created_created : Created created := ⟨_, _, _, by decide, step_created⟩

/-- Ten bytes of a hundred, and then the rest.  The second push fills the arena to its last byte. -/
theorem bounds_ten_ninety :
    Bounded [.push 90 0x100a, .push 10 0x1000] ⟨⟨0x1000, 100, 1, 100⟩, created.memLog⟩ := by
  have hten : Step created (.push 10 0x1000) ⟨⟨0x1000, 100, 1, 10⟩, created.memLog⟩ :=
    .push (by decide)
  have hninety : Step ⟨⟨0x1000, 100, 1, 10⟩, created.memLog⟩ (.push 90 0x100a)
      ⟨⟨0x1000, 100, 1, 100⟩, created.memLog⟩ := .push (by decide)
  exact (bounds_iff created_created
    ((Trace.start.snoc ⟨hten, trivial, Nat.not_le_of_lt (by decide)⟩).snoc
      ⟨hninety, trivial, Nat.not_le_of_lt (by decide)⟩)).1

/-- **A push past the end of memory.**  After one byte of an arena of 100, a push of `2 ^ 64 - 1`
    passes: it ends far outside, the top is back at 0, and the next push answers the byte handed out
    first a second time. -/
theorem push_wraps : ∃ s₁ s₂ s₃, Created created ∧ created.arena.size = 100 ∧
    Step created (.push 1 0x1000) s₁ ∧ Step s₁ (.push (2 ^ 64 - 1) 0x1001) s₂ ∧
    Step s₂ (.push 100 0x1000) s₃ ∧ s₂.arena.used = 0 ∧
    ¬ (Region.mk 0x1001 (2 ^ 64 - 1)).Within ⟨s₂.arena.base, s₂.arena.size⟩ ∧
    ¬ (Region.mk 0x1000 100).Apart ⟨0x1000, 1⟩ :=
  ⟨_, _, _, created_created, rfl, .push (by decide), .push (by decide), .push (by decide),
    by decide, by decide, by decide⟩

end Nearlands.Arena

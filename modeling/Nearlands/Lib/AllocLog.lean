/-
  Allocation logs.

  A log lists the calls made to one or more allocators, NEWEST FIRST: `take base size` is an
  allocation with its answer (0 when it was refused) and `give base` returns what begins at
  `base`.  `held` is what the caller has at the end.  `Good` is what allocators owe: every region
  answered is new, apart from all that is held.

  A client that keeps several kinds of objects has to know that no two of them share memory, and
  `Owns` is the bookkeeping for that: a ghost map `own` from base addresses to owners (any type
  `ω`), such that two owners never hold one base.  Each call then has a frame rule: `Owns.take` and
  `Owns.give` keep the claims of every other owner, `Owns.new` adds one.
-/
import Nearlands.Lib.Region
import Nearlands.Lib.DList

namespace Nearlands.Lib

/-- A call of an allocator; an allocation with its answer.  Calls of several allocators, of pages
    and of bytes, stand in one log: what matters to a client is only that the regions it gets from
    all of them are apart. -/
inductive AllocCall
  | take (base size : Nat)
  | give (base : Nat)
  deriving DecidableEq, Repr

namespace AllocLog

/-- The regions held after the calls.  A refused allocation adds nothing.  Giving back a base that
    is not held changes nothing, so the log can also describe a client that frees too much. -/
def held : List AllocCall → List Region
  | [] => []
  | .take base size :: log => if base = 0 then held log else ⟨base, size⟩ :: held log
  | .give base :: log => (held log).filter fun r => r.base ≠ base

/-- `r` is a new region beside those of `rs`.  The base has to be new by itself, because a region of
    size 0 is apart from one that begins at the same address. -/
structure Fresh (rs : List Region) (r : Region) : Prop where
  fits : r.base + r.size < 2 ^ 64
  new : ∀ s ∈ rs, s.base ≠ r.base
  apart : ∀ s ∈ rs, r.Apart s

/-- Every answer was 0 or a new region.  It is an assumption about the allocators, and a condition
    on the log only, so that a client can be studied without a model of what is below it. -/
def Good : List AllocCall → Prop
  | [] => True
  | .take base size :: log => (base ≠ 0 → Fresh (held log) ⟨base, size⟩) ∧ Good log
  | .give _ :: log => Good log

instance (rs : List Region) (r : Region) : Decidable (Fresh rs r) :=
  decidable_of_iff (r.base + r.size < 2 ^ 64 ∧ (∀ s ∈ rs, s.base ≠ r.base) ∧ ∀ s ∈ rs, r.Apart s)
    ⟨fun h => ⟨h.1, h.2.1, h.2.2⟩, fun h => ⟨h.fits, h.new, h.apart⟩⟩

instance decidableGood : ∀ log : List AllocCall, Decidable (Good log)
  | [] => isTrue trivial
  | .take base size :: log =>
    have := decidableGood log
    inferInstanceAs (Decidable ((base ≠ 0 → Fresh (held log) ⟨base, size⟩) ∧ Good log))
  | .give _ :: log => decidableGood log

variable {log : List AllocCall} {r s : Region}

/-- An allocation that was granted adds its region in front. -/
theorem held_take {base : Nat} (h : base ≠ 0) (size : Nat) :
    held (.take base size :: log) = ⟨base, size⟩ :: held log := if_neg h

/-- What is held after a return: what was held and begins elsewhere. -/
theorem mem_give {base : Nat} : r ∈ held (.give base :: log) ↔ r ∈ held log ∧ r.base ≠ base := by
  simp [held]

/-- A part of a good log is good.  So in the middle of a function, whose calls are the last ones of
    the log, what is known of the whole log holds of the log so far. -/
theorem Good.suffix : ∀ {log log' : List AllocCall}, Good log → log' <:+ log → Good log'
  | [], _, hg, h => by rw [List.suffix_nil.mp h]; exact hg
  | c :: log, log', hg, h => by
    rcases List.suffix_cons_iff.mp h with rfl | h
    · exact hg
    · have hlog : Good log := by
        cases c with
        | take base size => exact hg.2
        | give base => exact hg
      exact hlog.suffix h

/-- What is held begins at a nonnull address and ends at an address. -/
theorem Good.fits : ∀ {log : List AllocCall}, Good log → ∀ r ∈ held log,
    r.base ≠ 0 ∧ r.base + r.size < 2 ^ 64
  | [], _, _, hr => nomatch hr
  | .take base size :: log, hg, r, hr => by
    by_cases h0 : base = 0
    · subst h0
      exact fits hg.2 r hr
    · rw [held_take h0] at hr
      rcases List.mem_cons.mp hr with rfl | hr
      · exact ⟨h0, (hg.1 h0).fits⟩
      · exact fits hg.2 r hr
  | .give base :: log, hg, r, hr => fits (show Good log from hg) r (mem_give.mp hr).1

/-- **Separation.**  The regions held begin at different addresses and are apart.  Both parts are
    needed: by its base a region is found again when it is given back. -/
theorem Good.separate : ∀ {log : List AllocCall}, Good log →
    (held log).Pairwise fun r s => r.base ≠ s.base ∧ r.Apart s
  | [], _ => List.Pairwise.nil
  | .take base size :: log, hg => by
    by_cases h0 : base = 0
    · subst h0
      have h := separate (show Good log from hg.2)
      exact h
    · rw [held_take h0]
      have hf := hg.1 h0
      exact List.pairwise_cons.mpr
        ⟨fun s hs => ⟨(hf.new s hs).symm, hf.apart s hs⟩, separate hg.2⟩
  | .give _ :: log, hg => (separate (show Good log from hg)).filter _

/-- The same for two regions that are named. -/
theorem Good.apart (hg : Good log) (hr : r ∈ held log) (hs : s ∈ held log)
    (hb : r.base ≠ s.base) : r.Apart s := by
  have hsymm : Std.Symm fun r s : Region => r.base ≠ s.base ∧ r.Apart s :=
    ⟨fun _ _ h => ⟨h.1.symm, h.2.symm⟩⟩
  exact (hg.separate.forall hr hs fun h => hb (h ▸ rfl)).2

/-! ## Memory that was never held

  An allocator that hands out addresses in ascending order is always good, whatever is given back in
  between: a run of any length can be shown to exist by keeping an upper bound of all that is held. -/

/-- All that is held begins below `bound` and ends there at the latest. -/
def Below (bound : Nat) (log : List AllocCall) : Prop :=
  ∀ r ∈ held log, r.base < bound ∧ r.base + r.size ≤ bound

theorem Below.nil (bound : Nat) : Below bound [] := fun _ hr => absurd hr List.not_mem_nil

/-- What is taken at the bound is new, and moves it. -/
theorem Below.take {bound size : Nat} (h : Below bound log) (hg : Good log) (h0 : bound ≠ 0)
    (hsize : 0 < size) (hend : bound + size < 2 ^ 64) :
    Good (.take bound size :: log) ∧ Below (bound + size) (.take bound size :: log) := by
  refine ⟨⟨fun _ => ⟨hend, fun s hs => Nat.ne_of_lt (h s hs).1, fun s hs => Or.inr (h s hs).2⟩, hg⟩, ?_⟩
  intro r hr
  rw [held_take h0] at hr
  rcases List.mem_cons.mp hr with rfl | hr
  · exact ⟨Nat.lt_add_of_pos_right hsize, Nat.le_refl _⟩
  · obtain ⟨h1, h2⟩ := h r hr
    exact ⟨Nat.lt_of_lt_of_le h1 (Nat.le_add_right _ _), Nat.le_trans h2 (Nat.le_add_right _ _)⟩

/-- What is given back only leaves less. -/
theorem Below.give {bound : Nat} (h : Below bound log) (base : Nat) :
    Below bound (.give base :: log) := fun r hr => h r (mem_give.mp hr).1

/-! ## Owners -/

section owners

variable {ω : Type} {own : Nat → Option ω} {o o' : ω} {base : Nat}

/-- `r` is held, and is the region of `o`.  The map `own` is ghost state, which no program has; it
    is what turns "these two pointers are different objects" into a fact about the log. -/
structure Owns (log : List AllocCall) (own : Nat → Option ω) (o : ω) (r : Region) : Prop where
  held : r ∈ held log
  owner : own r.base = some o

/-- Two owners hold regions with different bases, since the map gives each base one owner. -/
theorem Owns.ne_base (h : Owns log own o r) (h' : Owns log own o' s) (hne : o ≠ o') :
    r.base ≠ s.base := by
  intro hb
  have := h.owner
  rw [hb, h'.owner] at this
  exact hne (Option.some.inj this).symm

/-- The regions of two owners are apart.  It is all that a client needs to know to write to one of
    its objects and keep the others. -/
theorem Owns.apart (h : Owns log own o r) (h' : Owns log own o' s) (hg : Good log)
    (hne : o ≠ o') : r.Apart s :=
  hg.apart h.held h'.held (h.ne_base h' hne)

/-- A new region becomes the region of `o`. -/
theorem Owns.new (h0 : base ≠ 0) (size : Nat) :
    Owns (.take base size :: log) (upd own base (some o)) o ⟨base, size⟩ where
  held := by rw [held_take h0]; exact List.mem_cons_self
  owner := upd_same

/-- An allocation leaves what others own.  Nothing of the old owner changes: the new base is none
    that is held. -/
theorem Owns.take (h : Owns log own o r) {size : Nat} (h0 : base ≠ 0)
    (hf : Fresh (AllocLog.held log) ⟨base, size⟩) (x : Option ω) :
    Owns (.take base size :: log) (upd own base x) o r where
  held := by rw [held_take h0]; exact List.mem_cons_of_mem _ h.held
  owner := by rw [upd_other (hf.new r h.held)]; exact h.owner

/-- So does a refused one. -/
theorem Owns.refused (h : Owns log own o r) (size : Nat) : Owns (.take 0 size :: log) own o r :=
  ⟨h.held, h.owner⟩

/-- Returning the region of `o'` leaves what others own.  The owner of what is given back may be any
    other; after that its claim is void, since its region is no longer held. -/
theorem Owns.give (h : Owns log own o r) (h' : Owns log own o' s) (hne : o ≠ o') :
    Owns (.give s.base :: log) own o r :=
  ⟨mem_give.mpr ⟨h.held, h.ne_base h' hne⟩, h.owner⟩

end owners

end AllocLog

end Nearlands.Lib

/-
  Memory divided into parcels.

  A program that divides the runs it was given has a list of regions, each inside a run, and no two
  of them overlap: `Parcels runs rs`.  Such a list is cut (`cut`), left (`drop`) and extended by a
  new run (`grow`); its order does not matter (`perm`).
-/
import Nearlands.Lib.Region

namespace Nearlands.Lib

/-- The regions are parts of the runs, and apart.  The runs are what an allocator was given by the
    one below it, and the parcels its chunks, free or in use. -/
structure Parcels (runs rs : List Region) : Prop where
  apart : rs.Pairwise Region.Apart
  within : ∀ r ∈ rs, ∃ run ∈ runs, r.Within run

namespace Parcels

variable {runs rs rs' parts : List Region} {r s run : Region}

/-- The order of the parcels does not matter, so a chunk that moves from one list to another needs
    no argument. -/
theorem perm (h : Parcels runs rs) (hp : rs.Perm rs') : Parcels runs rs' where
  apart := (hp.pairwise_iff fun hab => Region.Apart.symm hab).mp h.apart
  within := fun q hq => h.within q (hp.mem_iff.mpr hq)

/-- A parcel is apart from the others. -/
theorem others (h : Parcels runs (r :: rs)) (hs : s ∈ rs) : r.Apart s :=
  List.rel_of_pairwise_cons h.apart hs

/-- A parcel is left.  The memory of it is lost to the list, not given to another parcel. -/
theorem drop (h : Parcels runs (r :: rs)) : Parcels runs rs where
  apart := (List.pairwise_cons.mp h.apart).2
  within := fun q hq => h.within q (List.mem_cons_of_mem _ hq)

/-- **A parcel is cut.** The parts need not fill it: what is left over, such as a header, is lost. -/
theorem cut (h : Parcels runs (r :: rs)) (hparts : parts.Pairwise Region.Apart)
    (hin : ∀ q ∈ parts, q.Within r) : Parcels runs (parts ++ rs) where
  apart := by
    refine List.pairwise_append.mpr ⟨hparts, h.drop.apart, fun q hq s hs => ?_⟩
    exact (h.others hs).within (hin q hq) ⟨Nat.le_refl _, Nat.le_refl _⟩
  within := by
    intro q hq
    rcases List.mem_append.mp hq with hq | hq
    · obtain ⟨run, hrun, hw⟩ := h.within r List.mem_cons_self
      exact ⟨run, hrun, (hin q hq).trans hw⟩
    · exact h.drop.within q hq

/-- **A new run** is one parcel more.  It has to be apart from the other runs; that it is apart from
    their parcels follows, since these lie inside. -/
theorem grow (h : Parcels runs rs) (hnew : ∀ s ∈ runs, run.Apart s) :
    Parcels (run :: runs) (run :: rs) where
  apart := by
    refine List.pairwise_cons.mpr ⟨fun s hs => ?_, h.apart⟩
    obtain ⟨old, hold, hw⟩ := h.within s hs
    exact (hnew old hold).within ⟨Nat.le_refl _, Nat.le_refl _⟩ hw
  within := by
    intro q hq
    rcases List.mem_cons.mp hq with rfl | hq
    · exact ⟨q, List.mem_cons_self, Nat.le_refl _, Nat.le_refl _⟩
    · obtain ⟨old, hold, hw⟩ := h.within q hq
      exact ⟨old, List.mem_cons_of_mem _ hold, hw⟩

end Parcels

end Nearlands.Lib

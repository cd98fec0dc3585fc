/-
  The entity store over the memory of the kernel.

  The entity store was studied over allocators of which one thing is assumed: what they answer is new
  (`AllocLog.Good`).  Here its calls go to the heap and the bitmap of the kernel, and other clients'
  calls come in between, also while the store is at work.  The assumption holds (`serve_kept`): the
  regions a client holds after its own calls are some of those that somebody holds in the kernel, and
  those are apart.  So every run over the memory of the kernel is a run as studied, and what the
  store has is nobody else's (`store_over_kernel_memory`).

  An allocation of no bytes is left out: its address may be that of the page behind it, which is
  somebody else's.
-/
import Nearlands.Ecs.Runs
import Nearlands.Mm.Memory

namespace Nearlands.Mm

open Nearlands.Lib Nearlands.Lib.AllocLog

variable {p₀ : Pmm.State} {s s' : Sys} {e : Event} {log log' : List AllocCall}

/-! ## The calls of a client -/

/-- A call as the log of a client has it. -/
def Event.call : Event → AllocCall
  | .alloc size addr => .take addr size
  | .free addr => .give addr
  | .client (.allocSingle addr) => .take addr (1 * pageSize)
  | .client (.allocMulti amount addr) => .take addr (amount * pageSize)
  | .client (.freeSingle addr) => .give addr
  | .client (.freeMulti addr _) => .give addr

/-- Not an allocation of no bytes. -/
def Event.Sized : Event → Prop
  | .alloc size _ => 0 < size
  | _ => True

/-- One call to the allocators of the kernel: of the client with this log, or of somebody else, who
    does not give back what is the client's. -/
inductive Serve : List AllocCall × Sys → List AllocCall × Sys → Prop
  | own {log : List AllocCall} {s s' : Sys} {e : Event} : Step s e s' → e.Sized →
      Serve (log, s) (e.call :: log, s')
  | other {log : List AllocCall} {s s' : Sys} {e : Event} : Step s e s' →
      (∀ base, e.call = .give base → ∀ r ∈ AllocLog.held log, r.base ≠ base) →
      Serve (log, s) (log, s')

/-- What a call does to the regions that somebody holds. -/
theorem step_regions (h : Step s e s') :
    (∃ base size, e.call = .take base size ∧ (e.Sized → 0 < size) ∧
      (base = null → s'.regions = s.regions) ∧
      (base ≠ null → s'.regions.Perm (⟨base, size⟩ :: s.regions))) ∨
    ∃ base, e.call = .give base ∧ ∀ r ∈ s.regions, r.base ≠ base → r ∈ s'.regions := by
  -- a run of pages that comes to those of the clients
  have hrun : ∀ {t : Sys} (a : Nat × Nat), t.live = s.live → t.runs = hold a s.runs →
      (a.1 = null → t.regions = s.regions) ∧
      (a.1 ≠ null → t.regions.Perm (runRegion a :: s.regions)) := by
    intro t a hlive hruns
    rw [Sys.regions, Sys.regions, hlive, hruns]
    refine ⟨fun h0 => by rw [hold, if_pos h0], fun h0 => ?_⟩
    rw [hold_some h0, List.map_cons]
    exact List.perm_middle
  -- and one that leaves them
  have hgone : ∀ {t : Sys} {a : Nat × Nat}, t.live = s.live → t.runs = s.runs.erase a →
      ∀ r ∈ s.regions, r.base ≠ a.1 → r ∈ t.regions := by
    intro t a hlive hruns r hr hne
    rw [Sys.regions, hlive, hruns]
    rcases List.mem_append.mp hr with hr | hr
    · exact List.mem_append_left _ hr
    · obtain ⟨b, hb, rfl⟩ := List.mem_map.mp hr
      exact List.mem_append_right _ (List.mem_map_of_mem
        ((List.mem_erase_of_ne fun heq : b = a => hne (congrArg Prod.fst heq)).mpr hb))
  cases h with
  | alloc hsize hres hserved =>
    refine Or.inl ⟨_, _, rfl, id, fun h0 => ?_, fun h0 => ?_⟩
    · rw [Sys.regions, hold, if_pos h0]
      rfl
    · rw [Sys.regions, hold_some h0, List.map_cons]
      exact List.Perm.refl _
  | @free _ a _ _ hmem hres =>
    refine Or.inr ⟨_, rfl, fun r hr hne => ?_⟩
    rcases List.mem_append.mp hr with hr | hr
    · obtain ⟨b, hb, rfl⟩ := List.mem_map.mp hr
      exact List.mem_append_left _ (List.mem_map_of_mem
        ((List.mem_erase_of_ne fun heq : b = a => hne (congrArg Prod.fst heq)).mpr hb))
    · exact List.mem_append_right _ hr
  | client hc =>
    obtain ⟨hstep, -⟩ := hc
    cases hstep with
    | allocSingle => exact Or.inl ⟨_, _, rfl, fun _ => by decide, hrun (_, 1) rfl rfl⟩
    | @allocMulti fuel n addr pmm h1 hn hres =>
      refine Or.inl ⟨_, _, rfl, fun _ => ?_, hrun (addr, n) rfl rfl⟩
      exact Nat.mul_pos h1 (by decide)
    | freeSingle hmem => exact Or.inr ⟨_, rfl, hgone (a := (_, 1)) rfl rfl⟩
    | @freeMulti addr n hmem => exact Or.inr ⟨_, rfl, hgone (a := (addr, n)) rfl rfl⟩

/-! ## The invariant -/

/-- What the client holds is held in the kernel. -/
structure Kept (p₀ : Pmm.State) (log : List AllocCall) (s : Sys) : Prop where
  owned : Owned p₀ s
  good : Good log
  regions : ∀ r ∈ AllocLog.held log, r ∈ s.regions ∧ 0 < r.size

/-- No region that is held reaches to the end of the address space. -/
theorem Owned.region_fits (hpc : p₀.pageCount < 2 ^ 52) (ho : Owned p₀ s) {r : Region}
    (hr : r ∈ s.regions) : r.base + r.size < 2 ^ 64 := by
  have hrun : ∀ a ∈ s.taken.live, (runRegion a).base + (runRegion a).size < 2 ^ 64 := by
    intro a ha
    have hal := ho.aligned a ha
    have hbound := ho.exact.inv.bounds a ha
    unfold runRegion Pmm.pagesOf Pmm.getPageLocationFromAddress pageSize at *
    dsimp only at *
    omega
  rcases List.mem_append.mp hr with hr | hr
  · obtain ⟨a, ha, rfl⟩ := List.mem_map.mp hr
    obtain ⟨b, hb, hin⟩ := ho.sound.inside a ha
    have hend := hrun b (List.mem_append_right _ hb)
    have hwithin := hin.2
    omega
  · obtain ⟨a, ha, rfl⟩ := List.mem_map.mp hr
    exact hrun a (List.mem_append_left _ ha)

/-- A region of some bytes that is apart from another begins elsewhere. -/
theorem apart_base {r t : Region} (h : r.Apart t) (hr : 0 < r.size) (ht : 0 < t.size) :
    t.base ≠ r.base := by
  unfold Region.Apart at h
  omega

/-- One call keeps it. -/
theorem Kept.step (hpc : p₀.pageCount < 2 ^ 52) (hk : Kept p₀ log s)
    (h : Serve (log, s) (log', s')) : Kept p₀ log' s' := by
  cases h with
  | @own _ _ _ e hs hsized =>
    have ho := hk.owned.step hpc hs
    rcases step_regions hs with ⟨base, size, hcall, hpos, hsame, hnew⟩ | ⟨base, hcall, hkeep⟩
    · rw [hcall]
      by_cases h0 : base = null
      · subst h0
        exact ⟨ho, ⟨fun h => absurd rfl h, hk.good⟩, fun r hr => (hsame rfl).symm ▸ hk.regions r hr⟩
      · -- what is new is apart from what the kernel had, and so from what the client has
        have hperm := hnew h0
        have hapart := List.pairwise_cons.mp ((hperm.pairwise_iff fun h => h.symm).mp ho.sound.apart)
        have hfits : base + size < 2 ^ 64 :=
          ho.region_fits hpc (hperm.mem_iff.mpr List.mem_cons_self)
        have hfresh : AllocLog.Fresh (AllocLog.held log) ⟨base, size⟩ := by
          refine ⟨hfits, fun r hr => ?_, fun r hr => hapart.1 r (hk.regions r hr).1⟩
          exact apart_base (hapart.1 r (hk.regions r hr).1) (hpos hsized) (hk.regions r hr).2
        refine ⟨ho, ⟨fun _ => hfresh, hk.good⟩, fun r hr => ?_⟩
        rw [held_take h0] at hr
        rcases List.mem_cons.mp hr with rfl | hr
        · exact ⟨hperm.mem_iff.mpr List.mem_cons_self, hpos hsized⟩
        · exact ⟨hperm.mem_iff.mpr (List.mem_cons_of_mem _ (hk.regions r hr).1), (hk.regions r hr).2⟩
    · rw [hcall]
      refine ⟨ho, hk.good, fun r hr => ?_⟩
      obtain ⟨hr, hne⟩ := mem_give.mp hr
      exact ⟨hkeep r (hk.regions r hr).1 hne, (hk.regions r hr).2⟩
  | other hs hnot =>
    have ho := hk.owned.step hpc hs
    rcases step_regions hs with ⟨base, size, -, -, hsame, hnew⟩ | ⟨base, hcall, hkeep⟩
    · refine ⟨ho, hk.good, fun r hr => ⟨?_, (hk.regions r hr).2⟩⟩
      by_cases h0 : base = null
      · exact hsame h0 ▸ (hk.regions r hr).1
      · exact (hnew h0).mem_iff.mpr (List.mem_cons_of_mem _ (hk.regions r hr).1)
    · exact ⟨ho, hk.good, fun r hr =>
        ⟨hkeep r (hk.regions r hr).1 (hnot base hcall r hr), (hk.regions r hr).2⟩⟩

/-- So do all calls while the client is at work. -/
theorem serve_kept (hpc : p₀.pageCount < 2 ^ 52) {x : List AllocCall × Sys} (hk : Kept p₀ log s)
    (h : Relation.ReflTransGen Serve (log, s) x) : Kept p₀ x.1 x.2 := by
  induction h with
  | refl => exact hk
  | tail _ hs ih => exact ih.step hpc hs

/-! ## The store -/

variable {x x' : Ecs.State × Sys}

/-- A call of the store, as in its own runs (`Ecs.Step`), but nothing is assumed of the answers that it
    gets from the allocators. -/
inductive Call : Ecs.State → Ecs.Event → Ecs.State → Prop
  | register {s s' : Ecs.State} {mem size id : Nat} : mem ≠ null →
      s.ecsCreateNewComponent mem size = (s', id) → Call s (.register size id) s'
  | create {s s' : Ecs.State} {a : Ecs.Answers} {comps : List Nat} {r : Except NearStatus Nat} :
      a.archeTypes ≠ null → a.entities ≠ null → comps.length ≤ Ecs.ecsCompSize →
      s.ecsCreateEntity a (Ecs.arrayOf comps) comps.length = some (s', r) → Call s (.create comps r) s'
  | delete {s s' : Ecs.State} {mem h : Nat} {st : NearStatus} : h < 2 ^ 64 →
      s.ecsDeleteEntity mem h = (s', st) → Call s (.delete h st) s'
  | add {s s' : Ecs.State} {h c : Nat} {data : Nat → UInt8} {st : NearStatus} : h < 2 ^ 64 →
      s.ecsAddComponentDataToEntity h c data = (s', st) → Call s (.add h c data st) s'

/-- Where the answers are new it is a call as studied. -/
theorem Call.step {s s' : Ecs.State} {e : Ecs.Event} (h : Call s e s') (hg : Good s'.memLog) :
    Ecs.Step s e s' := by
  cases h with
  | register hmem hres => exact .register hmem hres hg
  | create harche hent hlen hres => exact .create harche hent hlen hres hg
  | delete hh hres => exact .delete hh hres hg
  | add hh hres => exact .add hh hres

/-- A call of the store in the kernel.  What its log has more afterwards are calls that the heap and
    the page allocator have answered, in this order, and calls of others may come in between. -/
structure KernelStep (x : Ecs.State × Sys) (e : Ecs.Event) (x' : Ecs.State × Sys) : Prop where
  call : Call x.1 e x'.1
  served : Relation.ReflTransGen Serve (x.1.memLog, x.2) (x'.1.memLog, x'.2)

/-- One call in the kernel is a call as studied, and what the store holds stays its own. -/
theorem Kept.call {e : Ecs.Event} (hpc : p₀.pageCount < 2 ^ 52) (hk : Kept p₀ x.1.memLog x.2)
    (h : KernelStep x e x') : Kept p₀ x'.1.memLog x'.2 ∧ Ecs.Step x.1 e x'.1 := by
  have hk' := serve_kept hpc hk h.served
  exact ⟨hk', h.call.step hk'.good⟩

/-- The store with a component whose sizes are in the page at 0x4000. -/
def storeWithSize : Ecs.State := (Ecs.startedStore.ecsCreateNewComponent 0x4000 8).1

/-- And then with an entity that has the component. -/
def storeWithCell : Ecs.State := storeWithSize.afterCreate ⟨0x5000, 0x6000, 0x2100⟩ [1]

end Nearlands.Mm

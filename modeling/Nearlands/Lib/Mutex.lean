/-
  Sections of code under a test-and-set lock.

  Any number of processors `ι` share data `σ` and one flag.  A processor calls a section of code,
  tests and sets the flag until it finds it clear, works on the shared data in steps of its own,
  and clears the flag when it leaves.  The steps of all processors are interleaved in any way; what
  the steps of a section are is not fixed (`Section`).

  The result is that nobody can tell: at most one processor is inside, and the shared data is what
  the sections leave when they run one after the other, in the order in which they left
  (`Processors.serial`).  The flag is never set without an owner, so a processor that waits while
  nobody is inside gets in.
-/
import Mathlib.Logic.Relation
import Mathlib.Logic.Function.Basic
import Nearlands.Lib.Trace

namespace Nearlands.Lib

/-- A section of code on shared data `σ`: the call `γ` fixes the local data it enters with, its
    steps change local and shared data, and some local data mean that it is done, with a result.
    The steps are a relation, so a section may be anything from a single step to a loop that reads
    what it has just written. -/
structure Section (σ γ ρ : Type) where
  Local : Type
  enter : γ → Local
  work : Local × σ → Local × σ → Prop
  ends : Local → Option ρ

variable {ι σ γ ρ : Type}

/-- The section ran to its end, alone.  Nobody else is running; this is what the code of the section
    was studied for. -/
def Section.Does (B : Section σ γ ρ) (t : σ) (c : γ) (r : ρ) (t' : σ) : Prop :=
  ∃ l, Relation.ReflTransGen B.work (B.enter c, t) (l, t') ∧ B.ends l = some r

/-- Sections that run one after the other; a log entry is processor, call and result.  It is a step
    relation of its own, so that a sequential history is a `Trace` like any other run. -/
def Section.Serial (B : Section σ γ ρ) (t : σ) (e : ι × γ × ρ) (t' : σ) : Prop :=
  B.Does t e.2.1 e.2.2 t'

/-- The section that is one step.  With it the general result can be used at once, and without it a
    finer division of the work is as good. -/
def Section.atomic (does : γ → σ → ρ → σ → Prop) : Section σ γ ρ where
  Local := γ × Option ρ
  enter c := (c, none)
  work x y := x.1.2 = none ∧ ∃ r, does x.1.1 x.2 r y.2 ∧ y.1 = (x.1.1, some r)
  ends l := l.2

/-- What is done in one step is done. -/
theorem Section.atomic_does {does : γ → σ → ρ → σ → Prop} {t t' : σ} {c : γ} {r : ρ} :
    (Section.atomic does).Does t c r t' ↔ does c t r t' := by
  have hstuck : ∀ {x y : (γ × Option ρ) × σ}, Relation.ReflTransGen (Section.atomic does).work x y →
      x.1.2 ≠ none → x = y := by
    intro x y h hne
    rcases Relation.ReflTransGen.cases_head h with rfl | ⟨z, hz, -⟩
    · rfl
    · exact absurd hz.1 hne
  constructor
  · rintro ⟨l, hwork, hend⟩
    rcases Relation.ReflTransGen.cases_head hwork with heq | ⟨⟨l', t₁⟩, ⟨-, r', hdoes, hl⟩, hrest⟩
    · rw [← (Prod.mk.inj heq).1] at hend
      exact nomatch hend
    · obtain rfl : l' = (c, some r') := hl
      obtain ⟨rfl, rfl⟩ := Prod.mk.inj (hstuck hrest (Option.some_ne_none r'))
      obtain rfl : r' = r := Option.some.inj hend
      exact hdoes
  · exact fun h => ⟨(c, some r), .single ⟨rfl, r, h, rfl⟩, rfl⟩

/-! ## The processors -/

/-- Where a processor is.  A processor that has called waits until it gets the lock; there is no
    order among those that wait. -/
inductive Place (γ Λ : Type)
  | out
  | waits (c : γ)
  | inside (c : γ) (l : Λ)

/-- The call that a processor is in. -/
def Place.call {Λ : Type} : Place γ Λ → Option γ
  | .out => none
  | .waits c => some c
  | .inside c _ => some c

/-- The shared data, the flag, the processors, and the calls that have returned, newest first.  The
    log is in the order in which processors left, which is the order in which they got the lock. -/
structure Processors (ι σ γ ρ Λ : Type) where
  data : σ
  flag : Bool
  place : ι → Place γ Λ
  log : List (ι × γ × ρ)

/-- Nobody has called anything. -/
def Processors.start {Λ : Type} (t : σ) : Processors ι σ γ ρ Λ := ⟨t, false, fun _ => .out, []⟩

variable {Λ : Type}

/-- `i` is inside the section. -/
def Processors.Inside (s : Processors ι σ γ ρ Λ) (i : ι) : Prop := ∃ c l, s.place i = .inside c l

/-! ## One at a time -/

/-- The shared data comes from sections that ran one after the other, of which the last one may
    still be at work.  It is the invariant: the data is never in a state that a single processor
    could not have produced. -/
inductive Processors.Serial (B : Section σ γ ρ) (t₀ : σ) (s : Processors ι σ γ ρ B.Local) : Prop
  | idle : Trace B.Serial t₀ s.log s.data → s.flag = false → (∀ i, ¬ s.Inside i) → Serial B t₀ s
  | busy {t : σ} {i : ι} {c : γ} {l : B.Local} : Trace B.Serial t₀ s.log t → s.flag = true →
      s.place i = .inside c l → (∀ j, s.Inside j → j = i) →
      Relation.ReflTransGen B.work (B.enter c, t) (l, s.data) → Serial B t₀ s

variable {B : Section σ γ ρ} {t₀ : σ} {s s' : Processors ι σ γ ρ B.Local}

/-- At most one processor is inside.  If nobody is inside there is nothing to show, and otherwise
    `busy` names the one that is. -/
theorem Processors.Serial.exclusive (hs : Serial B t₀ s) {i j : ι} (hi : s.Inside i)
    (hj : s.Inside j) : i = j := by
  cases hs with
  | idle _ _ hnone => exact absurd hi (hnone i)
  | busy _ _ _ hone _ => exact (hone i hi).trans (hone j hj).symm

/-- The flag is set exactly while a processor is inside.  The flag holds no owner; that it has one
    is part of the invariant. -/
theorem Processors.Serial.flag_iff (hs : Serial B t₀ s) : s.flag = true ↔ ∃ i, s.Inside i := by
  cases hs with
  | idle _ hf hnone =>
    rw [hf]
    exact ⟨fun h => absurd h Bool.false_ne_true, fun ⟨i, hi⟩ => absurd hi (hnone i)⟩
  | busy _ hf hi _ _ => exact ⟨fun _ => ⟨_, _, _, hi⟩, fun _ => hf⟩

/-- The data that the calls of the log have left.  While a processor is inside, the data is on the
    way from there to the next entry. -/
theorem Processors.Serial.history (hs : Serial B t₀ s) : ∃ t, Trace B.Serial t₀ s.log t ∧
    ((∀ i, ¬ s.Inside i) → s.data = t) := by
  cases hs with
  | idle ht _ _ => exact ⟨_, ht, fun _ => rfl⟩
  | @busy t i c l ht _ hi _ _ => exact ⟨t, ht, fun h => absurd ⟨c, l, hi⟩ (h i)⟩

/-! ## Turns -/

/-- What a processor does next.  A turn names the processor that takes it, and nothing says which
    one is next. -/
inductive Turn (ι γ ρ : Type)
  | call (i : ι) (c : γ)
  | spin (i : ι)
  | take (i : ι)
  | work (i : ι)
  | leave (i : ι) (r : ρ)

variable [DecidableEq ι]

/-- `i` goes to the place `p`. -/
def Processors.goes (s : Processors ι σ γ ρ Λ) (i : ι) (p : Place γ Λ) : Processors ι σ γ ρ Λ :=
  { s with place := Function.update s.place i p }

/-- One turn of one processor.  `may` is what callers keep to. -/
inductive Processors.Step (B : Section σ γ ρ)
    (may : Processors ι σ γ ρ B.Local → γ → Prop) :
    Processors ι σ γ ρ B.Local → Turn ι γ ρ → Processors ι σ γ ρ B.Local → Prop
  | call {s i c} : s.place i = .out → may s c → Step B may s (.call i c) (s.goes i (.waits c))
  /-- The flag was set; it is set again. -/
  | spin {s i c} : s.place i = .waits c → s.flag = true → Step B may s (.spin i) s
  /-- The flag was clear; it is set. -/
  | take {s i c} : s.place i = .waits c → s.flag = false →
      Step B may s (.take i) { s.goes i (.inside c (B.enter c)) with flag := true }
  | work {s i c l l' t} : s.place i = .inside c l → B.work (l, s.data) (l', t) →
      Step B may s (.work i) { s.goes i (.inside c l') with data := t }
  /-- The flag is cleared, whatever it was. -/
  | leave {s i c l r} : s.place i = .inside c l → B.ends l = some r →
      Step B may s (.leave i r) { s.goes i .out with flag := false, log := (i, c, r) :: s.log }

variable {may : Processors ι σ γ ρ B.Local → γ → Prop}

/-- A processor is where it went. -/
theorem Processors.place_goes_self (s : Processors ι σ γ ρ Λ) (i : ι) (p : Place γ Λ) :
    (s.goes i p).place i = p := Function.update_self ..

/-- The others stay where they are. -/
theorem Processors.place_goes_other (s : Processors ι σ γ ρ Λ) {i j : ι} (h : j ≠ i)
    (p : Place γ Λ) : (s.goes i p).place j = s.place j := Function.update_of_ne h ..

/-- Who is inside after `i` went somewhere else than inside.  It goes out or waits, so only the
    others can be inside. -/
theorem Processors.inside_goes {s : Processors ι σ γ ρ Λ} {i j : ι} {p : Place γ Λ}
    (hp : ∀ c l, p ≠ .inside c l) : (s.goes i p).Inside j ↔ j ≠ i ∧ s.Inside j := by
  by_cases hj : j = i
  · subst hj
    rw [Inside, place_goes_self]
    exact ⟨fun ⟨c, l, h⟩ => absurd h (hp c l), fun h => absurd rfl h.1⟩
  · rw [Inside, place_goes_other s hj]
    exact (and_iff_right hj).symm

/-- The places of a processor inside are those of nobody else. -/
theorem Processors.inside_goes_inside {s : Processors ι σ γ ρ Λ} {i : ι} {c : γ} {l : Λ}
    (h : ∀ j, s.Inside j → j = i) : ∀ j, (s.goes i (.inside c l)).Inside j → j = i := by
  intro j hj
  by_cases hji : j = i
  · exact hji
  · rw [Inside, place_goes_other s hji] at hj
    exact h j hj

/-- **Every turn keeps it.**  Only the processor inside moves the data; the flag keeps the others
    out.  There is one case for each kind of turn.  In `take` nobody is inside because the flag is
    clear, in `work` the section makes one step more from the data of the log, and in `leave` it has
    run to its end and becomes an entry. -/
theorem Processors.Serial.step {e : Turn ι γ ρ} (hs : Serial B t₀ s) (h : Step B may s e s') :
    Serial B t₀ s' := by
  cases h with
  | @call i c hout hmay =>
    have hwaits : ∀ c' l, (Place.waits c : Place γ B.Local) ≠ .inside c' l := fun _ _ h => nomatch h
    cases hs with
    | idle ht hf hnone => exact .idle ht hf fun j hj => hnone j ((inside_goes hwaits).mp hj).2
    | @busy t k c' l ht hf hk hone hw =>
      have hki : k ≠ i := fun h => by
        rw [h, hout] at hk
        exact nomatch hk
      exact .busy ht hf ((place_goes_other s hki _).trans hk)
        (fun j hj => hone j ((inside_goes hwaits).mp hj).2) hw
  | spin => exact hs
  | @take i c hwait hclear =>
    cases hs with
    | idle ht hf hnone =>
      exact .busy ht rfl (place_goes_self s i _)
        (inside_goes_inside fun j hj => absurd hj (hnone j)) .refl
    | busy _ hf => exact absurd (hf.symm.trans hclear) Bool.noConfusion
  | @work i c l l' t hin hwork =>
    cases hs with
    | idle _ _ hnone => exact absurd ⟨c, l, hin⟩ (hnone i)
    | @busy t k c' l₁ ht hf hk hone hw =>
      obtain rfl : i = k := hone i ⟨c, l, hin⟩
      obtain ⟨rfl, rfl⟩ := Place.inside.inj (hk.symm.trans hin)
      exact .busy ht hf (place_goes_self s i _) (inside_goes_inside hone) (hw.tail hwork)
  | @leave i c l r hin hend =>
    cases hs with
    | idle _ _ hnone => exact absurd ⟨c, l, hin⟩ (hnone i)
    | @busy t k c' l₁ ht hf hk hone hw =>
      obtain rfl : i = k := hone i ⟨c, l, hin⟩
      obtain ⟨rfl, rfl⟩ := Place.inside.inj (hk.symm.trans hin)
      refine .idle (ht.snoc ⟨_, hw, hend⟩) rfl fun j hj => ?_
      have hout : ∀ c l, (Place.out : Place γ B.Local) ≠ .inside c l := fun _ _ h => nomatch h
      obtain ⟨hji, hj⟩ := (inside_goes hout).mp hj
      exact hji (hone j hj)

/-- **Sections run one after the other**, in every interleaving.  Nothing is asked of the callers
    here: `may` is used only where the work of a section needs a precondition. -/
theorem Processors.serial {h : List (Turn ι γ ρ)} (run : Trace (Step B may) (start t₀) h s) :
    Serial B t₀ s :=
  run.inv (I := Serial B t₀) (.idle .start rfl fun _ ⟨_, _, h⟩ => nomatch h)
    fun _ _ _ hi hs => hi.step hs

/-- A processor that waits while nobody is inside gets in.  There is no fairness in it: another one
    that waits may get in first. -/
theorem Processors.Serial.gets_in (hs : Serial B t₀ s) {i : ι} {c : γ} (hi : s.place i = .waits c)
    (hnone : ∀ j, ¬ s.Inside j) : ∃ s', Step B may s (.take i) s' ∧ s'.Inside i := by
  have hclear : s.flag = false := by
    rw [← Bool.not_eq_true, hs.flag_iff]
    exact fun ⟨j, hj⟩ => hnone j hj
  exact ⟨_, .take hi hclear, _, _, s.place_goes_self i _⟩

end Nearlands.Lib

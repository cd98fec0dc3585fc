/-
  Runs of a labelled transition system, with their history.

  A system is a step relation `step : σ → ε → σ → Prop` on states, labelled with events.
  `Trace step s₀ h s` says that the system can go from `s₀` to `s` through the events of `h`,
  NEWEST FIRST: a specification that asks for "the latest event such that …" is then a plain
  recursion on `h`.  The induction over a run is packaged once, in two forms: an invariant of
  the state alone, and an invariant that also mentions the history.
-/

namespace Nearlands.Lib

variable {σ ε : Type}

/-- The system went from `s₀` to `s`; the list holds the events on the way, newest first.  The
    history is an index and not a field of the state, so that the states of a model stay what the
    program has, and a specification may still speak of the past. -/
inductive Trace (step : σ → ε → σ → Prop) (s₀ : σ) : List ε → σ → Prop
  | start : Trace step s₀ [] s₀
  | snoc {h : List ε} {s s' : σ} {e : ε} :
      Trace step s₀ h s → step s e s' → Trace step s₀ (e :: h) s'

namespace Trace

variable {step : σ → ε → σ → Prop} {s₀ : σ}

/-- **The run rule with history.**  What holds at the start with no history, and survives one step,
    holds of every history and the state it leads to.  It is the only induction over runs in this
    development; the rules below and every run theorem come from it. -/
theorem history_inv {I : List ε → σ → Prop} (h0 : I [] s₀)
    (hstep : ∀ h s e s', Trace step s₀ h s → I h s → step s e s' → I (e :: h) s') :
    ∀ {h s}, Trace step s₀ h s → I h s := by
  intro h s ht
  induction ht with
  | start => exact h0
  | snoc ht hs ih => exact hstep _ _ _ _ ht ih hs

/-- **The run rule.**  An invariant of the initial state that every step preserves holds in every
    reachable state.  The history is forgotten; this is the form in which the invariant of a data
    structure is carried through its operations. -/
theorem inv {I : σ → Prop} (h0 : I s₀) (hstep : ∀ s e s', I s → step s e s' → I s')
    {h : List ε} {s : σ} (ht : Trace step s₀ h s) : I s :=
  history_inv (I := fun _ s => I s) h0 (fun _ s e s' _ hi hs => hstep s e s' hi hs) ht

/-- A run whose steps are steps of another system.  So a result about a permissive system holds of
    every more restricted one, for example of one whose calls meet an extra condition. -/
theorem mono {step' : σ → ε → σ → Prop} (h : ∀ s e s', step s e s' → step' s e s')
    {es : List ε} {s : σ} (ht : Trace step s₀ es s) : Trace step' s₀ es s := by
  induction ht with
  | start => exact .start
  | snoc _ hs ih => exact ih.snoc (h _ _ _ hs)

/-- Where every step has one outcome, so has a run.  The history then determines the state: two runs
    through the same events end in the same place. -/
theorem unique (hdet : ∀ s e t t', step s e t → step s e t' → t = t') {es : List ε} {s : σ}
    (ht : Trace step s₀ es s) : ∀ {t : σ}, Trace step s₀ es t → s = t := by
  induction ht with
  | start =>
    rintro t ⟨⟩
    rfl
  | snoc _ hs ih =>
    rintro t (_ | ⟨ht', hs'⟩)
    obtain rfl := ih ht'
    exact hdet _ _ _ _ hs hs'

/-- Runs compose.  The later history stands in front, as histories are newest first. -/
theorem append {h₁ h₂ : List ε} {s t : σ} (h1 : Trace step s₀ h₁ s) (h2 : Trace step s h₂ t) :
    Trace step s₀ (h₂ ++ h₁) t := by
  induction h2 with
  | start => exact h1
  | snoc _ hs ih => exact ih.snoc hs

end Trace

end Nearlands.Lib

import Mathlib.Data.List.Basic
import Mathlib.Data.Option.Basic

/-!
# Events that may have to wait

Where processes wait for each other, an event can happen in some states and not in others:
`step s e` is the state after it, and `none` as long as it has to wait.  A run is a list of events
that happen one after another.

A system completes if it is done at the end of every run that goes on for as long as something can
happen.  Two facts make it complete: as long as it is not done something can happen, so that nobody
waits for ever; and a rank drops with every event, so that no run goes on for ever.
-/

namespace Machine

variable {σ ε : Type*} {step : σ → ε → Option σ} {Inv Done : σ → Prop} {rank : σ → ℕ} {s s' : σ}
  {es : List ε}

/-- The events happen one after another and lead from `s` to `s'`. -/
def Runs (step : σ → ε → Option σ) (s : σ) (es : List ε) (s' : σ) : Prop :=
  es.foldlM step s = some s'

theorem runs_nil_iff : Runs step s [] s' ↔ s = s' := Option.some_inj

theorem runs_cons_iff {e : ε} :
    Runs step s (e :: es) s' ↔ ∃ s₁, step s e = some s₁ ∧ Runs step s₁ es s' := by
  unfold Runs
  rw [List.foldlM_cons]
  exact Option.bind_eq_some_iff

/-- Every event has to wait. -/
def Stuck (step : σ → ε → Option σ) (s : σ) : Prop := ∀ e, step s e = none

/-- The invariant is kept, something can happen until the system is done, and the rank drops. -/
structure Completes (step : σ → ε → Option σ) (Inv Done : σ → Prop) (rank : σ → ℕ) : Prop where
  keep : ∀ s e s', Inv s → step s e = some s' → Inv s'
  drop : ∀ s e s', Inv s → step s e = some s' → rank s' < rank s
  progress : ∀ s, Inv s → ¬ Done s → ∃ e s', step s e = some s'

/-- **The invariant holds along runs, and a run is not longer than the rank it starts with.** -/
theorem Completes.of_runs (h : Completes step Inv Done rank) (hs : Inv s)
    (hrun : Runs step s es s') :
    Inv s' ∧ es.length + rank s' ≤ rank s := by
  induction es generalizing s with
  | nil =>
    obtain rfl := runs_nil_iff.mp hrun
    exact ⟨hs, Nat.le_of_eq (Nat.zero_add _)⟩
  | cons e es ih =>
    obtain ⟨s₁, hstep, hrest⟩ := runs_cons_iff.mp hrun
    obtain ⟨hinv, hle⟩ := ih (h.keep s e s₁ hs hstep) hrest
    have hdrop := h.drop s e s₁ hs hstep
    refine ⟨hinv, ?_⟩
    rw [List.length_cons]
    omega

/-- **A run that cannot go on is done.** -/
theorem Completes.done_of_stuck (h : Completes step Inv Done rank) (hs : Inv s)
    (hstuck : Stuck step s) : Done s := by
  by_contra hdone
  obtain ⟨e, s', hstep⟩ := h.progress s hs hdone
  rw [hstuck e] at hstep
  cases hstep

end Machine

import Mathlib

/-!
# Runs of a step function

A run of `step` is the fold of a list of events.  `Meets step G s es` says that every step
of it meets a condition `G` on the state it starts from and its event.

Conditions are there to say when a system keeps a property.  If what is observed after a
step tells whether the step met the condition, as long as the invariant behind the
observation held before, then the observation can be made in every state of a run exactly
if the run meets the condition (`forall_prefix_iff_meets`).  If the damage shows later, a
state that is spoiled for good takes the place of the observation (`meets_or_spoiled`).
-/

namespace Machine

variable {σ ε : Type*} {step : σ → ε → σ} {G G' : σ → ε → Prop} {es : List ε} {Inv : σ → Prop}
  {s : σ}

/-- Every step of the run meets the condition. -/
def Meets (step : σ → ε → σ) (G : σ → ε → Prop) : σ → List ε → Prop
  | _, [] => True
  | s, e :: es => G s e ∧ Meets step G (step s e) es

instance decidableMeets [∀ s e, Decidable (G s e)] :
    ∀ (s : σ) (es : List ε), Decidable (Meets step G s es)
  | _, [] => inferInstanceAs (Decidable True)
  | s, e :: es =>
    have := decidableMeets (step s e) es
    inferInstanceAs (Decidable (G s e ∧ Meets step G (step s e) es))

theorem meets_congr (h : ∀ s e, G s e ↔ G' s e) (s : σ) (es : List ε) :
    Meets step G s es ↔ Meets step G' s es := by
  induction es generalizing s with
  | nil => rfl
  | cons e es ih => exact and_congr (h s e) (ih (step s e))

theorem meets_append_iff {es' : List ε} :
    Meets step G s (es ++ es') ↔ Meets step G s es ∧ Meets step G (es.foldl step s) es' := by
  induction es generalizing s with
  | nil => simp [Meets]
  | cons e es ih => exact (and_congr_right fun _ => ih).trans and_assoc.symm

theorem Meets.and (h : Meets step G s es) (h' : Meets step G' s es) :
    Meets step (fun s e => G s e ∧ G' s e) s es := by
  induction es generalizing s with
  | nil => trivial
  | cons e es ih => exact ⟨⟨h.1, h'.1⟩, ih h.2 h'.2⟩

/-- What a step that meets the condition keeps, a run that meets it keeps. -/
theorem Meets.foldl (h : Meets step G s es) (keep : ∀ s e, Inv s → G s e → Inv (step s e))
    (hs : Inv s) : Inv (es.foldl step s) := by
  induction es generalizing s with
  | nil => exact hs
  | cons e es ih => exact ih h.2 (keep s e hs h.1)

/-- What every step keeps and one of the events brings about holds at the end of the run. -/
theorem foldl_of_mem {P : σ → Prop} (keep : ∀ s e, P s → P (step s e)) {e : ε} (he : e ∈ es)
    (reach : ∀ s, P (step s e)) (s : σ) : P (es.foldl step s) := by
  induction es generalizing s with
  | nil => exact absurd he List.not_mem_nil
  | cons e' es ih =>
    rcases List.mem_cons.mp he with rfl | he
    · exact List.foldlRecOn es step (reach s) fun s hs e _ => keep s e hs
    · exact ih he _

/-- **An observation can be made in every state of a run exactly if the run meets the
condition.** -/
theorem forall_prefix_iff_meets {Q : σ → Prop} (sound : ∀ s, Inv s → Q s)
    (exact_step : ∀ s e, Inv s → (Q (step s e) ↔ G s e))
    (keep : ∀ s e, Inv s → G s e → Inv (step s e)) (hs : Inv s) (es : List ε) :
    (∀ es', es' <+: es → Q (es'.foldl step s)) ↔ Meets step G s es := by
  induction es generalizing s with
  | nil =>
    refine ⟨fun _ => trivial, fun _ es' hes' => ?_⟩
    rw [List.prefix_nil.mp hes']
    exact sound s hs
  | cons e es ih =>
    constructor
    · intro hall
      have hstep : G s e :=
        (exact_step s e hs).mp (hall [e] (List.cons_prefix_cons.mpr ⟨rfl, List.nil_prefix⟩))
      refine ⟨hstep, (ih (keep s e hs hstep)).mp fun es' hes' => ?_⟩
      exact hall (e :: es') (List.cons_prefix_cons.mpr ⟨rfl, hes'⟩)
    · rintro ⟨hstep, hmeets⟩ es' hes'
      cases es' with
      | nil => exact sound s hs
      | cons e' es' =>
        obtain ⟨rfl, htail⟩ := List.cons_prefix_cons.mp hes'
        exact (ih (keep s _ hs hstep)).mpr hmeets es' htail

/-- **A run keeps an invariant or is spoiled for good**, when a step that meets the condition
keeps the invariant, a step that does not spoils the state, and no step repairs a spoiled
state. -/
theorem meets_or_spoiled {Spoiled : σ → Prop} (keep : ∀ s e, Inv s → G s e → Inv (step s e))
    (spoil : ∀ s e, Inv s → ¬ G s e → Spoiled (step s e))
    (stay : ∀ s e, Spoiled s → Spoiled (step s e)) (hs : Inv s) (es : List ε) :
    (Meets step G s es ∧ Inv (es.foldl step s)) ∨
      (¬ Meets step G s es ∧ Spoiled (es.foldl step s)) := by
  induction es generalizing s with
  | nil => exact .inl ⟨trivial, hs⟩
  | cons e es ih =>
    by_cases hG : G s e
    · refine (ih (keep s e hs hG)).imp ?_ ?_
      · exact fun h => ⟨⟨hG, h.1⟩, h.2⟩
      · exact fun h => ⟨fun hmeets => h.1 hmeets.2, h.2⟩
    · refine .inr ⟨fun hmeets => hG hmeets.1, ?_⟩
      exact List.foldlRecOn es step (spoil s e hs hG) fun s hs e _ => stay s e hs

end Machine

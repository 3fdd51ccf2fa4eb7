import OpenFalcon.Machine.Run

/-!
# Agents that share a state

Several agents act in turn on one shared state.  `act e s p` is one atomic step of an
agent at the program point `p`: `s` is what it finds, `e` is what the outside decides at
that moment, and the result is what it leaves and where it stands afterwards.  A schedule
is a list of moves, each an agent and an outside decision, and `run` executes it; every
interleaving is a schedule.

An invariant of such a system has a part about the shared state and a part about each
agent, and `Everywhere` is that pair.  It is kept along a run if every step keeps the
shared part and the part of the agent that makes it, and disturbs the part of no other
agent (`Stable`, `Everywhere.run`).  The steps may be assumed to meet a condition, and then the
conclusion is about the runs that meet it at every step (`Along`); if a step that does
not meet it destroys the invariant at once, the invariant holds in every state of a run
exactly if the run meets it (`Everywhere.forall_prefix_iff_along`).  Where an agent's part
depends on which agent it is, `EachAgent` takes the place of `Everywhere`.

What passes between the agents and the shared state is counted by `total`.  If a step that
meets a condition only moves things and any other step loses some, a run loses nothing
exactly if it meets the condition (`Everywhere.total_run_eq_iff_along`).  If steps bring
things in from outside, `gathered` lists them, and what is there at the end is what was there
at the beginning and what was gathered (`Everywhere.total_run_eq_add_gathered`).
-/

namespace Machine

variable {ι σ π ε : Type*}

/-- A shared state and the program point of every agent. -/
structure Config (ι σ π : Type*) where
  shared : σ
  agent : ι → π

variable {c : Config ι σ π}

section

variable [DecidableEq ι] (act : ε → σ → π → σ × π)

/-- One agent makes one step. -/
def move (c : Config ι σ π) (m : ι × ε) : Config ι σ π :=
  let r := act m.2 c.shared (c.agent m.1)
  ⟨r.1, Function.update c.agent m.1 r.2⟩

/-- The moves of a schedule, one after another. -/
def run (c : Config ι σ π) (ms : List (ι × ε)) : Config ι σ π :=
  ms.foldl (move act) c

variable {act} {i j : ι} {e : ε}

@[simp] theorem shared_move (m : ι × ε) :
    (move act c m).shared = (act m.2 c.shared (c.agent m.1)).1 := rfl

@[simp] theorem agent_move_self : (move act c (i, e)).agent i = (act e c.shared (c.agent i)).2 :=
  Function.update_self ..

theorem agent_move_of_ne (h : j ≠ i) : (move act c (i, e)).agent j = c.agent j :=
  Function.update_of_ne h ..

@[simp] theorem run_nil : run act c [] = c := rfl

@[simp] theorem run_cons (m : ι × ε) (ms : List (ι × ε)) :
    run act c (m :: ms) = run act (move act c m) ms := rfl

end

/-! ## One agent alone -/

variable {act : ε → σ → π → σ × π}

/-- The steps of one agent while the others rest. -/
def alone (act : ε → σ → π → σ × π) (r : σ × π) (es : List ε) : σ × π :=
  es.foldl (fun r e => act e r.1 r.2) r

@[simp] theorem alone_nil (r : σ × π) : alone act r [] = r := rfl

@[simp] theorem alone_cons (r : σ × π) (e : ε) (es : List ε) :
    alone act r (e :: es) = alone act (act e r.1 r.2) es := rfl

/-- What an agent can do alone it can do in the system. -/
theorem shared_run_alone [DecidableEq ι] (c : Config ι σ π) (i : ι) (es : List ε) :
    (run act c (es.map fun e => (i, e))).shared = (alone act (c.shared, c.agent i) es).1 := by
  induction es generalizing c with
  | nil => rfl
  | cons e es ih =>
    rw [List.map_cons, run_cons, ih, agent_move_self]
    rfl

/-! ## Invariants -/

variable {G : ε → σ → π → Prop} {S : σ → Prop} {L : σ → π → Prop}

section

variable [DecidableEq ι] {ms : List (ι × ε)} {G' : ε → σ → π → Prop}

/-- Every step of the schedule meets the condition `G`, which may ask about the outside
decision, the shared state found and the program point of the acting agent. -/
def Along (act : ε → σ → π → σ × π) (G : ε → σ → π → Prop) :
    Config ι σ π → List (ι × ε) → Prop
  | _, [] => True
  | c, m :: ms => G m.2 c.shared (c.agent m.1) ∧ Along act G (move act c m) ms

theorem along_of_forall (h : ∀ e s p, G e s p) :
    ∀ (c : Config ι σ π) (ms : List (ι × ε)), Along act G c ms
  | _, [] => trivial
  | c, m :: ms => ⟨h _ _ _, along_of_forall h (move act c m) ms⟩

/-- `S` holds of the shared state and `L` of every agent. -/
structure Everywhere (S : σ → Prop) (L : σ → π → Prop) (c : Config ι σ π) : Prop where
  shared : S c.shared
  agent : ∀ i, L c.shared (c.agent i)

/-- A step that meets `G` keeps the shared part and the part of its own agent, and leaves
the part of any other agent intact. -/
structure Stable (act : ε → σ → π → σ × π) (G : ε → σ → π → Prop) (S : σ → Prop)
    (L : σ → π → Prop) : Prop where
  shared : ∀ e s p, G e s p → S s → L s p → S (act e s p).1
  own : ∀ e s p, G e s p → S s → L s p → L (act e s p).1 (act e s p).2
  other : ∀ e s p q, G e s p → S s → L s p → L s q → L (act e s p).1 q

theorem Everywhere.move {m : ι × ε} (h : Everywhere S L c) (hstable : Stable act G S L)
    (hG : G m.2 c.shared (c.agent m.1)) : Everywhere S L (move act c m) := by
  obtain ⟨i, e⟩ := m
  refine ⟨hstable.shared e _ _ hG h.shared (h.agent i), fun j => ?_⟩
  by_cases hj : j = i
  · subst hj
    rw [agent_move_self]
    exact hstable.own e _ _ hG h.shared (h.agent j)
  · rw [agent_move_of_ne hj]
    exact hstable.other e _ _ _ hG h.shared (h.agent i) (h.agent j)

/-- **Invariants hold along runs.** -/
theorem Everywhere.run (h : Everywhere S L c) (hstable : Stable act G S L) (hG : Along act G c ms) :
    Everywhere S L (run act c ms) := by
  induction ms generalizing c with
  | nil => exact h
  | cons m ms ih => exact ih (h.move hstable hG.1) hG.2

theorem along_iff_meets :
    Along act G c ms ↔ Meets (move act) (fun c m => G m.2 c.shared (c.agent m.1)) c ms := by
  induction ms generalizing c with
  | nil => exact Iff.rfl
  | cons m ms ih => exact and_congr_right fun _ => ih

/-- **A property holds in every state of a run exactly if every step meets the condition**,
when a step out of a state with the property leads to one exactly if it meets the condition,
and the part about the agents is kept. -/
theorem Everywhere.forall_prefix_iff_along (h : Everywhere S L c)
    (exact_step : ∀ e s p, S s → L s p → (S (act e s p).1 ↔ G e s p))
    (own : ∀ e s p, S s → L s p → L (act e s p).1 (act e s p).2)
    (other : ∀ e s p q, S s → L s p → L s q → L (act e s p).1 q) (ms : List (ι × ε)) :
    (∀ ms', ms' <+: ms → S (Machine.run act c ms').shared) ↔ Along act G c ms := by
  have hstable : Stable act G S L :=
    ⟨fun e s p hG hs hp => (exact_step e s p hs hp).mpr hG, fun e s p _ => own e s p,
      fun e s p q _ => other e s p q⟩
  rw [along_iff_meets]
  exact forall_prefix_iff_meets (Q := fun c => S c.shared) (fun _ hc => hc.shared)
    (fun _ m hc => exact_step m.2 _ _ hc.shared (hc.agent m.1))
    (fun _ _ hc hG => hc.move hstable hG) h ms

theorem Along.mono (himp : ∀ e s p, G e s p → G' e s p) (h : Along act G c ms) :
    Along act G' c ms := by
  induction ms generalizing c with
  | nil => trivial
  | cons m ms ih => exact ⟨himp _ _ _ h.1, ih h.2⟩

/-- A condition may be sharpened by an invariant of the runs that meet it. -/
theorem Everywhere.along_of_along (h : Everywhere S L c) (hstable : Stable act G S L)
    (hG : Along act G c ms) (himp : ∀ e s p, S s → L s p → G e s p → G' e s p) :
    Along act G' c ms := by
  induction ms generalizing c with
  | nil => trivial
  | cons m ms ih =>
    exact ⟨himp _ _ _ h.shared (h.agent m.1) hG.1, ih (h.move hstable hG.1) hG.2⟩

end

/-! ## Invariants of agents that are told apart -/

section

variable [DecidableEq ι] {L : ι → σ → π → Prop}

/-- `S` holds of the shared state and `L i` of the agent `i`. -/
structure EachAgent (S : σ → Prop) (L : ι → σ → π → Prop) (c : Config ι σ π) : Prop where
  shared : S c.shared
  agent : ∀ i, L i c.shared (c.agent i)

/-- A step keeps such an invariant if it keeps the part of its own agent and of every other. -/
theorem EachAgent.move {c : Config ι σ π} {i : ι} {e : ε} (h : EachAgent S L c)
    (shared : S (act e c.shared (c.agent i)).1)
    (own : L i (act e c.shared (c.agent i)).1 (act e c.shared (c.agent i)).2)
    (other : ∀ j ≠ i, L j c.shared (c.agent j) → L j (act e c.shared (c.agent i)).1 (c.agent j)) :
    EachAgent S L (Machine.move act c (i, e)) := by
  refine ⟨shared, fun j => ?_⟩
  by_cases hj : j = i
  · subst hj
    rw [agent_move_self]
    exact own
  · rw [agent_move_of_ne hj]
    exact other j hj (h.agent j)

end

/-! ## Conservation -/

section

variable [Fintype ι] [DecidableEq ι] {M : Type*} [AddCommMonoid M] {f : σ → M} {g : π → M}

/-- What the shared state and the agents hold together. -/
def total (f : σ → M) (g : π → M) (c : Config ι σ π) : M :=
  f c.shared + ∑ i, g (c.agent i)

theorem total_eq (c : Config ι σ π) (i : ι) :
    total f g c = f c.shared + g (c.agent i) + ∑ j ∈ {i}ᶜ, g (c.agent j) := by
  rw [total, Fintype.sum_eq_add_sum_compl i, add_assoc]

theorem total_move (c : Config ι σ π) (i : ι) (e : ε) :
    total f g (move act c (i, e)) =
      f (act e c.shared (c.agent i)).1 + g (act e c.shared (c.agent i)).2 +
        ∑ j ∈ {i}ᶜ, g (c.agent j) := by
  rw [total_eq _ i, agent_move_self, shared_move]
  refine congrArg _ (Finset.sum_congr rfl fun j hj => ?_)
  rw [agent_move_of_ne (by simpa using hj)]

variable [PartialOrder M] [IsOrderedCancelAddMonoid M] {c : Config ι σ π}

/-- A step that loses something makes the total smaller. -/
theorem total_move_lt {i : ι} {e : ε}
    (h : f (act e c.shared (c.agent i)).1 + g (act e c.shared (c.agent i)).2 <
      f c.shared + g (c.agent i)) :
    total f g (move act c (i, e)) < total f g c := by
  rw [total_move, total_eq c i]
  exact add_lt_add_left h _

/-- **Nothing is lost in a run exactly if every step meets the condition**, when a step that
meets it moves things between the agent and the shared state, and any other step loses
some. -/
theorem Everywhere.total_run_eq_iff_along (h : Everywhere S L c)
    (hstable : Stable act (fun _ _ _ => True) S L)
    (keeps : ∀ e s p, S s → L s p → G e s p → f (act e s p).1 + g (act e s p).2 = f s + g p)
    (loses : ∀ e s p, S s → L s p → ¬ G e s p → f (act e s p).1 + g (act e s p).2 < f s + g p)
    (ms : List (ι × ε)) :
    total f g (Machine.run act c ms) ≤ total f g c ∧
      (total f g (Machine.run act c ms) = total f g c ↔ Along act G c ms) := by
  induction ms generalizing c with
  | nil => exact ⟨le_rfl, iff_of_true rfl trivial⟩
  | cons m ms ih =>
    obtain ⟨i, e⟩ := m
    obtain ⟨hle, heq⟩ := ih (h.move hstable trivial)
    rw [run_cons]
    by_cases hG : G e c.shared (c.agent i)
    · have hmove : total f g (Machine.move act c (i, e)) = total f g c := by
        rw [total_move, total_eq c i, keeps e c.shared (c.agent i) h.shared (h.agent i) hG]
      rw [← hmove]
      exact ⟨hle, heq.trans ⟨fun halong => ⟨hG, halong⟩, fun halong => halong.2⟩⟩
    · have hmove : total f g (Machine.move act c (i, e)) < total f g c :=
        total_move_lt (loses e c.shared (c.agent i) h.shared (h.agent i) hG)
      exact ⟨hle.trans hmove.le,
        iff_of_false (hle.trans_lt hmove).ne fun halong => hG halong.1⟩

end

/-! ## What comes in from outside -/

section

variable [DecidableEq ι] {α : Type*} {q : ε → σ → π → List α}

/-- What the steps of a schedule bring in, in order; `q e s p` is what one step brings. -/
def gathered (act : ε → σ → π → σ × π) (q : ε → σ → π → List α) :
    Config ι σ π → List (ι × ε) → List α
  | _, [] => []
  | c, m :: ms => q m.2 c.shared (c.agent m.1) ++ gathered act q (move act c m) ms

variable [Fintype ι] {f : σ → Multiset α} {g : π → Multiset α}

/-- **What is there is what was there and what came in**, when every step moves things between
the agent and the shared state, and adds what it brings in. -/
theorem Everywhere.total_run_eq_add_gathered {c : Config ι σ π} (h : Everywhere S L c)
    (hstable : Stable act (fun _ _ _ => True) S L)
    (balance : ∀ e s p, S s → L s p →
      f (act e s p).1 + g (act e s p).2 = f s + g p + ↑(q e s p)) (ms : List (ι × ε)) :
    total f g (Machine.run act c ms) = total f g c + ↑(gathered act q c ms) := by
  induction ms generalizing c with
  | nil => exact (add_zero _).symm
  | cons m ms ih =>
    obtain ⟨i, e⟩ := m
    have hmove : total f g (Machine.move act c (i, e)) =
        total f g c + ↑(q e c.shared (c.agent i)) := by
      rw [total_move, total_eq c i, balance e c.shared (c.agent i) h.shared (h.agent i),
        add_right_comm]
    rw [run_cons, ih (h.move hstable trivial), hmove, gathered, ← Multiset.coe_add, add_assoc]

end

end Machine

import Mathlib.Data.List.Nodup
import Mathlib.Logic.Relation

/-!
# Following links

Every element may have a link to another one, `next a`.  Following the links from an element one
comes to a stop, at an element without a link, or goes on for ever.  `Follows next a l` says that
one comes to a stop, and `l` has the elements with a link on the way, `a` first.

The way is determined by where it starts (`Follows.unique`), and so it never comes back: it has no
element twice (`Follows.nodup`), and from a cycle there is no way to a stop
(`not_follows_of_cycle`).
-/

namespace Machine

variable {α : Type*} {next : α → Option α} {a b x : α} {l l' : List α}

/-- The elements with a link on the way from `a` to a stop. -/
inductive Follows (next : α → Option α) : α → List α → Prop where
  | stop {a : α} : next a = none → Follows next a []
  | step {a b : α} {l : List α} : next a = some b → Follows next b l → Follows next a (a :: l)

theorem Follows.of_next (h : Follows next a l) (hab : next a = some b) :
    ∃ l', l = a :: l' ∧ Follows next b l' := by
  cases h with
  | stop hstop =>
    rw [hab] at hstop
    cases hstop
  | step hnext hrest =>
    rw [hab, Option.some_inj] at hnext
    subst hnext
    exact ⟨_, rfl, hrest⟩

/-- **There is one way.** -/
theorem Follows.unique (h : Follows next a l) (h' : Follows next a l') : l = l' := by
  induction h generalizing l' with
  | stop hstop =>
    cases h' with
    | stop _ => rfl
    | step hnext _ =>
      rw [hstop] at hnext
      cases hnext
  | step hnext _ ih =>
    obtain ⟨l₁, rfl, hrest⟩ := h'.of_next hnext
    rw [ih hrest]

/-- The way from an element on the way is the rest of it. -/
theorem Follows.exists_append (h : Follows next a l) (hx : x ∈ l) :
    ∃ l₁ l₂, l = l₁ ++ x :: l₂ ∧ Follows next x (x :: l₂) := by
  induction h with
  | stop _ => exact absurd hx List.not_mem_nil
  | @step a b l hnext hrest ih =>
    rcases List.mem_cons.mp hx with rfl | hx
    · exact ⟨[], l, rfl, Follows.step hnext hrest⟩
    · obtain ⟨l₁, l₂, rfl, hsuffix⟩ := ih hx
      exact ⟨a :: l₁, l₂, rfl, hsuffix⟩

/-- **No element is on the way twice.** -/
theorem Follows.nodup (h : Follows next a l) : l.Nodup := by
  induction h with
  | stop _ => exact List.nodup_nil
  | @step a b l hnext hrest ih =>
    refine List.nodup_cons.mpr ⟨fun hmem => ?_, ih⟩
    obtain ⟨l₁, l₂, rfl, hsuffix⟩ := hrest.exists_append hmem
    have heq := congrArg List.length ((Follows.step hnext hrest).unique hsuffix)
    rw [List.length_cons, List.length_append, List.length_cons] at heq
    omega

/-- The way is shorter after some links. -/
theorem Follows.of_transGen (h : Follows next a l)
    (hab : Relation.TransGen (fun x y => next x = some y) a b) :
    ∃ l', Follows next b l' ∧ l'.length < l.length := by
  induction hab with
  | single hnext =>
    obtain ⟨l', rfl, hrest⟩ := h.of_next hnext
    exact ⟨l', hrest, Nat.lt_succ_self _⟩
  | tail _ hnext ih =>
    obtain ⟨l₁, hway, hlt⟩ := ih
    obtain ⟨l', rfl, hrest⟩ := hway.of_next hnext
    exact ⟨l', hrest, Nat.lt_trans (Nat.lt_succ_self _) hlt⟩

/-- **Out of a cycle there is no way to a stop.** -/
theorem not_follows_of_cycle
    (hab : Relation.ReflTransGen (fun x y => next x = some y) a b)
    (hcycle : Relation.TransGen (fun x y => next x = some y) b b) : ¬ Follows next a l := by
  intro h
  obtain ⟨l₁, h₁, -⟩ := h.of_transGen (Relation.TransGen.trans_right hab hcycle)
  obtain ⟨l₂, h₂, hlt⟩ := h₁.of_transGen hcycle
  rw [h₁.unique h₂] at hlt
  exact Nat.lt_irrefl _ hlt

end Machine

import Mathlib

/-!
# Regular expressions over classes of characters

A program's regular expression names classes of characters (`\d`, `[^\(\)]`), so its leaves are
predicates and not letters, and `RegularExpression` of Mathlib does not fit an alphabet as large
as the characters.  The meaning of an expression is a `Language`; `accepts` is the match of the
whole text, `^...$`, and is computed by derivatives.  They are one (`accepts_iff`).

The last part is the meaning of the usual abbreviations.  A proof about an accepted text then
takes it apart along the expression, and never looks at a derivative.
-/

namespace Text

open Computability

/-- A regular expression. -/
inductive Regex (α : Type*) where
  | empty : Regex α
  | eps : Regex α
  | cls : (α → Bool) → Regex α
  | alt : Regex α → Regex α → Regex α
  | seq : Regex α → Regex α → Regex α
  | star : Regex α → Regex α

namespace Regex

variable {α : Type*} {a : α}

/-- The texts of an expression. -/
def lang : Regex α → Language α
  | empty => 0
  | eps => 1
  | cls p => {w : List α | ∃ a, p a = true ∧ w = [a]}
  | alt r s => r.lang + s.lang
  | seq r s => r.lang * s.lang
  | star r => r.lang∗

section Membership

variable {p : α → Bool} {r s : Regex α} {w : List α}

theorem not_mem_empty : w ∉ (empty : Regex α).lang := Language.notMem_zero w

theorem mem_eps : w ∈ (eps : Regex α).lang ↔ w = [] := Language.mem_one w

theorem mem_cls : w ∈ (cls p).lang ↔ ∃ a, p a = true ∧ w = [a] := Iff.rfl

theorem mem_alt : w ∈ (alt r s).lang ↔ w ∈ r.lang ∨ w ∈ s.lang := Language.mem_add _ _ w

theorem mem_seq : w ∈ (seq r s).lang ↔ ∃ u ∈ r.lang, ∃ v ∈ s.lang, u ++ v = w :=
  Language.mem_mul

theorem mem_star :
    w ∈ (star r).lang ↔ ∃ ws : List (List α), w = ws.flatten ∧ ∀ u ∈ ws, u ∈ r.lang :=
  Language.mem_kstar

/-- A text of a repetition that is not empty begins with a text of the expression that is not
empty. -/
theorem cons_mem_star {a : α} :
    a :: w ∈ (star r).lang ↔ ∃ u v, w = u ++ v ∧ a :: u ∈ r.lang ∧ v ∈ (star r).lang := by
  constructor
  · intro h
    obtain ⟨ws, hw, hws⟩ := Language.mem_kstar_iff_exists_nonempty.mp h
    cases ws with
    | nil => cases hw
    | cons u ws =>
      obtain ⟨hu, hne⟩ := hws u List.mem_cons_self
      obtain ⟨b, u, rfl⟩ := List.exists_cons_of_ne_nil hne
      rw [List.flatten_cons, List.cons_append, List.cons.injEq] at hw
      obtain ⟨rfl, rfl⟩ := hw
      exact ⟨u, ws.flatten, rfl, hu, Language.join_mem_kstar fun v hv =>
        (hws v (List.mem_cons_of_mem _ hv)).1⟩
  · rintro ⟨u, v, rfl, hu, hv⟩
    obtain ⟨ws, rfl, hws⟩ := mem_star.mp hv
    refine mem_star.mpr ⟨(a :: u) :: ws, rfl, fun x hx => ?_⟩
    rcases List.mem_cons.mp hx with rfl | hx
    · exact hu
    · exact hws x hx

end Membership

/-! ## Matching -/

/-- The empty text is one of the texts. -/
def nullable : Regex α → Bool
  | empty => false
  | eps => true
  | cls _ => false
  | alt r s => r.nullable || s.nullable
  | seq r s => r.nullable && s.nullable
  | star _ => true

/-- What has to follow after a character. -/
def deriv (a : α) : Regex α → Regex α
  | empty => empty
  | eps => empty
  | cls p => if p a then eps else empty
  | alt r s => alt (r.deriv a) (s.deriv a)
  | seq r s =>
    if r.nullable then alt (seq (r.deriv a) s) (s.deriv a) else seq (r.deriv a) s
  | star r => seq (r.deriv a) (star r)

/-- The whole text is one of the texts of the expression. -/
def accepts (r : Regex α) : List α → Bool
  | [] => r.nullable
  | a :: w => (r.deriv a).accepts w

theorem nullable_iff (r : Regex α) : r.nullable = true ↔ [] ∈ r.lang := by
  induction r with
  | empty => simp [nullable, not_mem_empty]
  | eps => simp [nullable, mem_eps]
  | cls p => simp [nullable, mem_cls]
  | alt r s ihr ihs => rw [nullable, Bool.or_eq_true, ihr, ihs, mem_alt]
  | seq r s ihr ihs =>
    rw [nullable, Bool.and_eq_true, ihr, ihs, mem_seq]
    constructor
    · rintro ⟨hr, hs⟩
      exact ⟨[], hr, [], hs, rfl⟩
    · rintro ⟨u, hu, v, hv, happend⟩
      obtain ⟨rfl, rfl⟩ := List.append_eq_nil_iff.mp happend
      exact ⟨hu, hv⟩
  | star r => simp [nullable, lang, Language.nil_mem_kstar]

/-- **A derivative has the texts that continue the character.** -/
theorem mem_deriv (r : Regex α) {w : List α} : w ∈ (r.deriv a).lang ↔ a :: w ∈ r.lang := by
  induction r generalizing w with
  | empty => simp [deriv, not_mem_empty]
  | eps => simp [deriv, not_mem_empty, mem_eps]
  | cls p =>
    rw [deriv, mem_cls]
    split_ifs with ha
    · rw [mem_eps]
      constructor
      · rintro rfl
        exact ⟨a, ha, rfl⟩
      · rintro ⟨b, -, heq⟩
        exact (List.cons.inj heq).2
    · refine iff_of_false not_mem_empty ?_
      rintro ⟨b, hb, heq⟩
      obtain ⟨rfl, -⟩ := List.cons.inj heq
      exact ha hb
  | alt r s ihr ihs => rw [deriv, mem_alt, mem_alt, ihr, ihs]
  | seq r s ihr ihs =>
    -- the character belongs to the first part, or the first part is empty
    have hsplit : a :: w ∈ (seq r s).lang ↔
        w ∈ (seq (r.deriv a) s).lang ∨ ([] ∈ r.lang ∧ a :: w ∈ s.lang) := by
      simp only [mem_seq, ihr]
      constructor
      · rintro ⟨u, hu, v, hv, happend⟩
        cases u with
        | nil => exact Or.inr ⟨hu, happend ▸ hv⟩
        | cons b u =>
          obtain ⟨rfl, rfl⟩ := List.cons.inj happend
          exact Or.inl ⟨u, hu, v, hv, rfl⟩
      · rintro (⟨u, hu, v, hv, rfl⟩ | ⟨hr, hs⟩)
        · exact ⟨a :: u, hu, v, hv, rfl⟩
        · exact ⟨[], hr, a :: w, hs, rfl⟩
    rw [hsplit, deriv, ← nullable_iff]
    split_ifs with hnull
    · rw [mem_alt, ihs, and_iff_right hnull]
    · simp [hnull]
  | star r ih =>
    rw [deriv, cons_mem_star, mem_seq]
    simp only [ih]
    constructor
    · rintro ⟨u, hu, v, hv, rfl⟩
      exact ⟨u, v, rfl, hu, hv⟩
    · rintro ⟨u, v, rfl, hu, hv⟩
      exact ⟨u, hu, v, hv, rfl⟩

/-- **Matching decides membership.** -/
theorem accepts_iff (r : Regex α) (w : List α) : r.accepts w = true ↔ w ∈ r.lang := by
  induction w generalizing r with
  | nil => exact nullable_iff r
  | cons a w ih => rw [accepts, ih, mem_deriv]

/-! ## Abbreviations -/

/-- One character. -/
def lit [DecidableEq α] (a : α) : Regex α := cls (· = a)

/-- One or more. -/
def plus (r : Regex α) : Regex α := seq r (star r)

/-- None or one. -/
def opt (r : Regex α) : Regex α := alt eps r

/-- One after the other. -/
def cat : List (Regex α) → Regex α
  | [] => eps
  | r :: rs => seq r (cat rs)

/-- One of several. -/
def oneOf : List (Regex α) → Regex α
  | [] => empty
  | r :: rs => alt r (oneOf rs)

variable {p : α → Bool} {r s : Regex α} {rs : List (Regex α)} {w : List α}

theorem mem_lit [DecidableEq α] : w ∈ (lit a).lang ↔ w = [a] := by
  rw [lit, mem_cls]
  constructor
  · rintro ⟨b, hb, rfl⟩
    rw [of_decide_eq_true hb]
  · rintro rfl
    exact ⟨a, decide_eq_true rfl, rfl⟩

theorem mem_opt : w ∈ (opt r).lang ↔ w = [] ∨ w ∈ r.lang := by
  rw [opt, mem_alt, mem_eps]

theorem mem_cat_nil : w ∈ (cat ([] : List (Regex α))).lang ↔ w = [] := mem_eps

theorem mem_cat_cons :
    w ∈ (cat (r :: rs)).lang ↔ ∃ u ∈ r.lang, ∃ v ∈ (cat rs).lang, w = u ++ v := by
  simp only [cat, mem_seq, eq_comm]

theorem mem_cat_lit_cons [DecidableEq α] :
    w ∈ (cat (lit a :: rs)).lang ↔ ∃ v ∈ (cat rs).lang, w = a :: v := by
  simp only [mem_cat_cons, mem_lit, exists_eq_left, List.singleton_append]

theorem mem_oneOf : w ∈ (oneOf rs).lang ↔ ∃ r ∈ rs, w ∈ r.lang := by
  induction rs with
  | nil => simp [oneOf, not_mem_empty]
  | cons r rs ih => simp [oneOf, mem_alt, ih]

theorem mem_plus_cls : w ∈ (plus (cls p)).lang ↔ w ≠ [] ∧ ∀ a ∈ w, p a = true := by
  rw [plus, mem_seq]
  constructor
  · rintro ⟨_, ⟨a, ha, rfl⟩, v, hv, rfl⟩
    obtain ⟨ws, rfl, hws⟩ := mem_star.mp hv
    refine ⟨List.cons_ne_nil _ _, fun b hb => ?_⟩
    rcases List.mem_append.mp hb with hb | hb
    · rwa [List.mem_singleton.mp hb]
    · obtain ⟨u, hu, hb⟩ := List.mem_flatten.mp hb
      obtain ⟨c, hc, rfl⟩ := hws u hu
      rwa [List.mem_singleton.mp hb]
  · rintro ⟨hne, hall⟩
    obtain ⟨a, w, rfl⟩ := List.exists_cons_of_ne_nil hne
    refine ⟨[a], ⟨a, hall a List.mem_cons_self, rfl⟩, w, ?_, rfl⟩
    refine mem_star.mpr ⟨w.map fun b => [b], ?_, fun u hu => ?_⟩
    · rw [← List.flatMap_def, List.flatMap_singleton']
    · obtain ⟨b, hb, rfl⟩ := List.mem_map.mp hu
      exact ⟨b, hall b (List.mem_cons_of_mem a hb), rfl⟩

end Regex

end Text

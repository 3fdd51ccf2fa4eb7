import OpenFalcon.Common.Model
import OpenFalcon.Machine.Follow

/-!
# Templates and their ancestors

`TemplateCache` and `ParentIds` of `modules/hbs/cache`.  A template inherits from its
parent, the parent from its own, and so on up to a template without one.  `ParentIds`
climbs at most ten templates and gives up on longer chains, which it takes for
cycles; the ids it returns are oldest first.

`Chain` is the chain of ancestors without that limit.  A chain of fewer than ten
templates is what `ParentIds` returns (`parentIds_eq_reverse`), and the chain of an
ancestor is the beginning of the chain of its descendant (`parentIds_isPrefix`), so
that one chain contains another exactly when it contains its youngest template.
-/

namespace OpenFalcon.Hbs

open Common Machine

/-- `cache.TemplateCache`: the templates by their ids. -/
structure TemplateCache where
  m : GoMap Int Template
  keyed : Keyed Template.id m

/-- `db.QueryTemplates`, over the rows of the table. -/
def queryTemplates (rows : List Template) : TemplateCache :=
  rows.foldl (fun c t => ⟨c.m.insert t.id t, c.keyed.insert t⟩) ⟨∅, keyed_empty _⟩

/-- The loop of `ParentIds`, with the number of templates it may still take; `none` when
there are too many. -/
def parentIdsLoop (allTpls : GoMap Int Template) : ℕ → Int → Option (List Int)
  | 0, _ => none
  | n + 1, tid =>
    if tid ≤ 0 then some []
    else
      match allTpls.lookup tid with
      | some t => (parentIdsLoop allTpls n t.parentId).map (tid :: ·)
      | none => some []

/-- `ParentIds`: the template and its ancestors, oldest first. -/
def parentIds (allTpls : TemplateCache) (tid : Int) : List Int :=
  match parentIdsLoop allTpls.m 10 tid with
  | some ret => ret.reverse
  | none => []

/-! ## Chains -/

variable {allTpls : TemplateCache}

variable (allTpls) in
/-- The template `tid` and its ancestors, youngest first. -/
inductive Chain : Int → List Int → Prop where
  | stop {tid : Int} : tid ≤ 0 ∨ allTpls.m.lookup tid = none → Chain tid []
  | climb {tid : Int} {t : Template} {l : List Int} :
      0 < tid → allTpls.m.lookup tid = some t → Chain t.parentId l → Chain tid (tid :: l)

/-- The link of a template to its parent.  An id that is not positive stands for no template. -/
def parentLink (allTpls : GoMap Int Template) (tid : Int) : Option Int :=
  if tid ≤ 0 then none else (allTpls.lookup tid).map Template.parentId

variable {tid d : Int} {l : List Int} {m : GoMap Int Template} {n : ℕ}

theorem parentLink_eq_none_iff : parentLink m tid = none ↔ tid ≤ 0 ∨ m.lookup tid = none := by
  unfold parentLink
  split_ifs with hle
  · exact iff_of_true rfl (Or.inl hle)
  · rw [Option.map_eq_none_iff, or_iff_right hle]

theorem parentLink_eq_some_iff {parent : Int} :
    parentLink m tid = some parent ↔
      0 < tid ∧ ∃ t, m.lookup tid = some t ∧ t.parentId = parent := by
  unfold parentLink
  split_ifs with hle
  · exact iff_of_false (fun h => by cases h) fun h => absurd h.1 (not_lt.mpr hle)
  · rw [Option.map_eq_some_iff, and_iff_right (not_le.mp hle)]

theorem chain_iff_follows : Chain allTpls tid l ↔ Follows (parentLink allTpls.m) tid l := by
  constructor
  · intro h
    induction h with
    | stop hstop => exact Follows.stop (parentLink_eq_none_iff.mpr hstop)
    | climb hpos hsome _ ih =>
      exact Follows.step (parentLink_eq_some_iff.mpr ⟨hpos, _, hsome, rfl⟩) ih
  · intro h
    induction h with
    | stop hstop => exact Chain.stop (parentLink_eq_none_iff.mp hstop)
    | step hnext _ ih =>
      obtain ⟨hpos, t, hsome, rfl⟩ := parentLink_eq_some_iff.mp hnext
      exact Chain.climb hpos hsome ih

theorem Chain.exists_append {x : Int} (h : Chain allTpls tid l) (hx : x ∈ l) :
    ∃ l₁ l₂, l = l₁ ++ x :: l₂ ∧ Chain allTpls x (x :: l₂) := by
  obtain ⟨l₁, l₂, heq, hsuffix⟩ := (chain_iff_follows.mp h).exists_append hx
  exact ⟨l₁, l₂, heq, chain_iff_follows.mpr hsuffix⟩

theorem Chain.eq_cons (h : Chain allTpls tid l) (hne : l ≠ []) : ∃ l', l = tid :: l' := by
  cases h with
  | stop _ => exact absurd rfl hne
  | climb _ _ _ => exact ⟨_, rfl⟩

/-- **The loop returns the way up**, if it is short enough. -/
theorem parentIdsLoop_eq_some_iff_follows :
    parentIdsLoop m n tid = some l ↔ Follows (parentLink m) tid l ∧ l.length < n := by
  induction n generalizing tid l with
  | zero => simp [parentIdsLoop]
  | succ n ih =>
    have hstop : parentLink m tid = none →
        (some [] = some l ↔ Follows (parentLink m) tid l ∧ l.length < n + 1) := by
      intro hnone
      rw [Option.some_inj]
      constructor
      · rintro rfl
        exact ⟨Follows.stop hnone, Nat.succ_pos n⟩
      · rintro ⟨hway, -⟩
        exact (Follows.stop hnone).unique hway
    rw [parentIdsLoop]
    by_cases hpos : tid ≤ 0
    · rw [if_pos hpos]
      exact hstop (parentLink_eq_none_iff.mpr (Or.inl hpos))
    · rw [if_neg hpos]
      cases hlookup : m.lookup tid with
      | none => exact hstop (parentLink_eq_none_iff.mpr (Or.inr hlookup))
      | some t =>
        have hnext : parentLink m tid = some t.parentId :=
          parentLink_eq_some_iff.mpr ⟨not_le.mp hpos, t, hlookup, rfl⟩
        simp only [Option.map_eq_some_iff, ih]
        constructor
        · rintro ⟨l, ⟨hway, hlen⟩, rfl⟩
          exact ⟨Follows.step hnext hway, Nat.succ_lt_succ hlen⟩
        · rintro ⟨hway, hlen⟩
          obtain ⟨l', rfl, hrest⟩ := hway.of_next hnext
          exact ⟨l', ⟨hrest, Nat.lt_of_succ_lt_succ hlen⟩, rfl⟩

/-- The loop returns the chain, if it is short enough. -/
theorem parentIdsLoop_eq_some_iff :
    parentIdsLoop allTpls.m n tid = some l ↔ Chain allTpls tid l ∧ l.length < n := by
  rw [parentIdsLoop_eq_some_iff_follows, chain_iff_follows]

/-! ## What `ParentIds` returns -/

/-- **`ParentIds` returns the chain, oldest first**, if it has fewer than ten templates. -/
theorem parentIds_eq_reverse (h : Chain allTpls tid l) (hlen : l.length < 10) :
    parentIds allTpls tid = l.reverse := by
  rw [parentIds, parentIdsLoop_eq_some_iff.mpr ⟨h, hlen⟩]

theorem exists_chain_of_parentIds_ne_nil (h : parentIds allTpls tid ≠ []) :
    ∃ l, Chain allTpls tid (tid :: l) ∧ (tid :: l).length < 10 ∧
      parentIds allTpls tid = l.reverse ++ [tid] := by
  rw [parentIds] at h
  cases hloop : parentIdsLoop allTpls.m 10 tid with
  | none =>
    rw [hloop] at h
    exact absurd rfl h
  | some l =>
    rw [hloop] at h
    obtain ⟨hchain, hlen⟩ := parentIdsLoop_eq_some_iff.mp hloop
    obtain ⟨l, rfl⟩ := hchain.eq_cons (by simpa using h)
    exact ⟨l, hchain, hlen, by rw [parentIds_eq_reverse hchain hlen, List.reverse_cons]⟩

theorem getLast?_parentIds (h : parentIds allTpls tid ≠ []) :
    (parentIds allTpls tid).getLast? = some tid := by
  obtain ⟨l, -, -, heq⟩ := exists_chain_of_parentIds_ne_nil h
  rw [heq, List.getLast?_concat]

theorem mem_parentIds_self (h : parentIds allTpls tid ≠ []) : tid ∈ parentIds allTpls tid :=
  List.mem_of_getLast? (getLast?_parentIds h)

theorem exists_lookup_of_parentIds_ne_nil (h : parentIds allTpls tid ≠ []) :
    ∃ t, allTpls.m.lookup tid = some t ∧ t.id = tid := by
  obtain ⟨l, hchain, -, -⟩ := exists_chain_of_parentIds_ne_nil h
  cases hchain with
  | @climb _ t _ _ hsome _ => exact ⟨t, hsome, allTpls.keyed tid t hsome⟩

theorem parentIds_injective {e : Int} (h : parentIds allTpls d ≠ [])
    (heq : parentIds allTpls d = parentIds allTpls e) : d = e := by
  have hd := getLast?_parentIds h
  rw [heq] at h hd
  exact Option.some_inj.mp (hd.symm.trans (getLast?_parentIds h))

/-- **The chain of an ancestor is the beginning of the chain.** -/
theorem parentIds_isPrefix {e : Int} (h : d ∈ parentIds allTpls e) :
    parentIds allTpls d ≠ [] ∧ parentIds allTpls d <+: parentIds allTpls e := by
  obtain ⟨l, hchain, hlen, heq⟩ := exists_chain_of_parentIds_ne_nil (List.ne_nil_of_mem h)
  have hmem : d ∈ e :: l := by
    rw [heq] at h
    simpa [or_comm] using h
  obtain ⟨l₁, l₂, hsplit, hd⟩ := hchain.exists_append hmem
  have hlen' : (d :: l₂).length < 10 := by
    rw [hsplit, List.length_append] at hlen
    omega
  rw [parentIds_eq_reverse hd hlen', parentIds_eq_reverse hchain hlen, hsplit,
    List.reverse_append]
  exact ⟨by simp, List.prefix_append _ _⟩

/-- One chain contains another exactly when it contains its youngest template. -/
theorem parentIds_subset_iff {e : Int} (h : parentIds allTpls d ≠ []) :
    parentIds allTpls d ⊆ parentIds allTpls e ↔ d ∈ parentIds allTpls e :=
  ⟨fun hsub => hsub (mem_parentIds_self h), fun hmem => (parentIds_isPrefix hmem).2.subset⟩

theorem eq_of_mem_parentIds {e : Int} (hd : d ∈ parentIds allTpls e)
    (he : e ∈ parentIds allTpls d) : d = e := by
  obtain ⟨hne, hpre⟩ := parentIds_isPrefix hd
  obtain ⟨-, hpre'⟩ := parentIds_isPrefix he
  exact parentIds_injective hne (List.IsPrefix.eq_of_length_le hpre hpre'.length_le)

end OpenFalcon.Hbs

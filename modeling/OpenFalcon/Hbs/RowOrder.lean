import OpenFalcon.Hbs.Bound

/-!
# The order of the rows decides who is notified

A strategy is returned with the youngest template of the bucket it was taken from, and
the action of that template is what notifies a team.  Buckets come in the order of the
rows of a join, and the first bucket that exposes a strategy takes it.  So the pairs of
a strategy and its template do not depend on the order of the rows exactly when no two
maximal templates expose one strategy, and no template that is not maximal is bound
twice and has strategies on its chain.

For one direction the pairs are computed (`mem_pairs_iff`).  For the other, a template
is moved to the front: its bucket is the first one then, and takes everything it
exposes (`mem_pairs_of_cons`).
-/

namespace OpenFalcon.Hbs

open Common Assoc

variable {F : Type}

/-- The strategies with their templates, by ids. -/
def pairs (result : List (Strategy F)) : List (Int × Option Int) :=
  result.map fun s => (s.id, s.tpl.map Template.id)

variable {allTpls : TemplateCache} {tids : List Int} {index : GoMap Int (List (Strategy F))}
  {tpl : Option Int} {d : Int}

section

variable {order : RangeOrder F}
/-- A strategy is returned with the youngest template of its bucket. -/
theorem tpl_valStrategy (h : parentIds allTpls d ≠ []) (s : Strategy F) :
    (valStrategy allTpls d s).tpl.map Template.id = some d := by
  rw [valStrategy]
  split_ifs with htpl
  · obtain ⟨t, hlookup, hid⟩ := exists_lookup_of_parentIds_ne_nil h
    rw [hlookup]
    exact congrArg some hid
  · simpa using htpl

theorem mem_pairs_iff_firstWins {id : Int} :
    (id, tpl) ∈ pairs (calcInheritStrategies order allTpls tids index) ↔
      ∃ d s, (d, s) ∈ firstWins (fun p : Int × Strategy F => p.2.id) []
        (offers order allTpls tids index) ∧ id = s.id ∧ tpl = some d := by
  rw [pairs, calcInheritStrategies_eq, List.map_map, List.mem_map]
  constructor
  · rintro ⟨⟨d, s⟩, hp, heq⟩
    have hne := (mem_offers.mp (mem_of_mem_firstWins hp)).1.parentIds_ne_nil
    rw [Function.comp_apply, id_valStrategy, tpl_valStrategy hne, Prod.mk.injEq] at heq
    exact ⟨d, s, hp, heq.1.symm, heq.2.symm⟩
  · rintro ⟨d, s, hp, rfl, rfl⟩
    have hne := (mem_offers.mp (mem_of_mem_firstWins hp)).1.parentIds_ne_nil
    refine ⟨(d, s), hp, ?_⟩
    rw [Function.comp_apply, id_valStrategy, tpl_valStrategy hne]

theorem tpl_unique_of_mem_pairs {id : Int} {tpl' : Option Int}
    (h : (id, tpl) ∈ pairs (calcInheritStrategies order allTpls tids index))
    (h' : (id, tpl') ∈ pairs (calcInheritStrategies order allTpls tids index)) : tpl = tpl' := by
  obtain ⟨s, hs, heq⟩ := List.mem_map.mp h
  obtain ⟨s', hs', heq'⟩ := List.mem_map.mp h'
  rw [Prod.mk.injEq] at heq heq'
  have hsame := List.inj_on_of_nodup_map (nodup_id_calcInheritStrategies order) hs hs'
    (heq.1.trans heq'.1.symm)
  rw [← heq.2, ← heq'.2, hsame]

end

/-! ## When the order does not matter -/

variable {s : Strategy F}

section

variable {tids' : List Int}
theorem Maximal.of_perm (h : Maximal allTpls tids d) (hperm : tids'.Perm tids) :
    Maximal allTpls tids' d :=
  ⟨hperm.mem_iff.mpr h.1, h.2.1, fun e he => h.2.2 e (hperm.mem_iff.mp he)⟩

variable (allTpls tids) in
/-- No template bound twice is kept for that alone and has strategies, and no two maximal
templates expose one strategy. -/
structure Unambiguous (index : GoMap Int (List (Strategy F))) : Prop where
  twice : ∀ d, ¬ Maximal allTpls tids d → 2 ≤ tids.count d →
    ∀ t ∈ parentIds allTpls d, strategiesOf index t = []
  once : ∀ d d' s, Maximal allTpls tids d → Maximal allTpls tids d' →
    Exposes SameUuid index (parentIds allTpls d) s →
    Exposes SameUuid index (parentIds allTpls d') s → d = d'

theorem Unambiguous.of_perm {index : GoMap Int (List (Strategy F))}
    (h : Unambiguous allTpls tids index) (hperm : tids'.Perm tids) :
    Unambiguous allTpls tids' index where
  twice d hd hcount := h.twice d (fun hmax => hd (hmax.of_perm hperm))
    (by rwa [hperm.count_eq] at hcount)
  once d d' s hd hd' := h.once d d' s (hd.of_perm hperm.symm) (hd'.of_perm hperm.symm)

/-- A kept template that exposes something is maximal. -/
theorem Unambiguous.maximal {index : GoMap Int (List (Strategy F))}
    (h : Unambiguous allTpls tids index) (hkept : Kept allTpls tids d)
    (hexposes : Exposes SameUuid index (parentIds allTpls d) s) : Maximal allTpls tids d := by
  by_contra hmax
  rcases hkept with hkept | hout
  · exact hmax hkept
  · obtain ⟨t, ht, hs⟩ := hexposes.exists_mem
    rw [h.twice d hmax hout.1 t ht] at hs
    exact absurd hs List.not_mem_nil

/-- **The pairs of an unambiguous host**: what each maximal template exposes. -/
theorem Unambiguous.mem_pairs_iff {strategies : StrategyCache F}
    (h : Unambiguous allTpls tids (tpl2Strategies strategies)) (order : RangeOrder F) {id : Int} :
    (id, tpl) ∈ pairs (calcInheritStrategies order allTpls tids (tpl2Strategies strategies)) ↔
      ∃ d s, Maximal allTpls tids d ∧
        Exposes SameUuid (tpl2Strategies strategies) (parentIds allTpls d) s ∧
        id = s.id ∧ tpl = some d := by
  rw [mem_pairs_iff_firstWins]
  constructor
  · rintro ⟨d, s, hp, hid, htpl⟩
    obtain ⟨hkept, hexposes⟩ := mem_offers.mp (mem_of_mem_firstWins hp)
    exact ⟨d, s, h.maximal hkept hexposes, hexposes, hid, htpl⟩
  · rintro ⟨d, s, hmax, hexposes, rfl, rfl⟩
    obtain ⟨d', hp, hkept, hexposes'⟩ := exists_mem_firstWins_offers order (.inl hmax) hexposes
    obtain rfl : d' = d := h.once d' d s (h.maximal hkept hexposes') hmax hexposes' hexposes
    exact ⟨d', s, hp, rfl, rfl⟩

end

/-! ## The first bucket takes what it exposes -/

theorem uniqTplBuckets_cons {bucket : List Int} {rest : List (List Int)}
    (h : (rest.find? fun c => bucket ⊆ c).all (fun c => c = bucket) = true) :
    ∃ tail, uniqTplBuckets (bucket :: rest) = bucket :: tail := by
  have hvalid : validBucket 0 bucket 0 (bucket :: rest) = true := by
    rw [validBucket_eq, if_pos le_rfl]
    exact h
  rw [uniqTplBuckets, List.zipIdx_cons, List.filter_cons, if_pos hvalid, List.map_cons]
  exact ⟨_, rfl⟩

variable {rest : List Int}

/-- **A template at the front takes what it exposes**, if the next row of a template on
whose chain it is, if any, is its own. -/
theorem mem_pairs_of_cons (order : RangeOrder F) (hne : parentIds allTpls d ≠ [])
    (hnext : (rest.find? fun e => d ∈ parentIds allTpls e).all (fun e => e = d) = true)
    (hexposes : Exposes SameUuid index (parentIds allTpls d) s) :
    (s.id, some d) ∈ pairs (calcInheritStrategies order allTpls (d :: rest) index) := by
  have hbuckets : tplBuckets allTpls (d :: rest) =
      parentIds allTpls d :: tplBuckets allTpls rest := by
    rw [tplBuckets, List.map_cons,
      List.filter_cons_of_pos (by simpa [List.length_pos_iff] using hne)]
    rfl
  obtain ⟨tail, htail⟩ : ∃ tail, uniqTplBuckets (tplBuckets allTpls (d :: rest)) =
      parentIds allTpls d :: tail := by
    rw [hbuckets]
    refine uniqTplBuckets_cons ?_
    rw [find?_tplBuckets hne]
    cases hfind : rest.find? fun e => d ∈ parentIds allTpls e with
    | none => rfl
    | some e =>
      rw [hfind] at hnext
      have hed : e = d := by simpa using hnext
      simp [hed]
  have hmem : (d, s) ∈ bucketOffers order index (parentIds allTpls d, 0) :=
    mem_bucketOffers.mpr ⟨(lastTid_parentIds hne).symm, hexposes⟩
  rw [mem_pairs_iff_firstWins, offers, htail, List.zipIdx_cons, List.flatMap_cons]
  obtain ⟨⟨d', s'⟩, hp, hfirst, hid⟩ : ∃ p ∈ bucketOffers order index (parentIds allTpls d, 0),
      p ∈ firstWins (fun p : Int × Strategy F => p.2.id) []
        (bucketOffers order index (parentIds allTpls d, 0) ++
          (tail.zipIdx (0 + 1)).flatMap (bucketOffers order index)) ∧ p.2.id = s.id :=
    exists_mem_firstWins_append hmem
  have hd : d' = d := (mem_bucketOffers.mp hp).1.trans (lastTid_parentIds hne)
  exact ⟨d', s', hfirst, hid.symm, by rw [hd]⟩

theorem exists_exposes {chain : List Int} {t : Int} (ht : t ∈ chain)
    (hs : strategiesOf index t ≠ []) : ∃ s, Exposes SameUuid index chain s := by
  induction chain using List.reverseRecOn with
  | nil => exact absurd ht List.not_mem_nil
  | append_singleton chain t' ih =>
    by_cases hnil : strategiesOf index t' = []
    · have hmem : t ∈ chain := by
        rcases List.mem_append.mp ht with h | h
        · exact h
        · rw [List.mem_singleton.mp h] at hs
          exact absurd hnil hs
      obtain ⟨s, hexposes⟩ := ih hmem
      refine ⟨s, exposes_concat.mpr (Or.inr ⟨hexposes, fun s' hs' => ?_⟩)⟩
      rw [hnil] at hs'
      exact absurd hs' List.not_mem_nil
    · obtain ⟨s, hmem⟩ := List.exists_mem_of_ne_nil _ hnil
      exact ⟨s, exposes_concat.mpr (Or.inl hmem)⟩

section Independent

theorem Maximal.eq_of_mem {e : Int} (h : Maximal allTpls tids d) (he : e ∈ tids)
    (hmem : d ∈ parentIds allTpls e) : e = d := by
  have hback := h.2.2 e he ((parentIds_subset_iff h.2.1).mpr hmem)
  have hself := mem_parentIds_self (List.ne_nil_of_mem hmem)
  exact (eq_of_mem_parentIds hmem (hback hself)).symm

/-- A maximal template, moved to the front, takes what it exposes. -/
theorem Maximal.mem_pairs {index : GoMap Int (List (Strategy F))} (h : Maximal allTpls tids d)
    (hexposes : Exposes SameUuid index (parentIds allTpls d) s) :
    (s.id, some d) ∈
      pairs (calcInheritStrategies storedOrder allTpls (d :: tids.erase d) index) := by
  refine mem_pairs_of_cons storedOrder h.2.1 ?_ hexposes
  cases hfind : (tids.erase d).find? fun e => d ∈ parentIds allTpls e with
  | none => rfl
  | some e =>
    have he : e ∈ tids := List.mem_of_mem_erase (List.mem_of_find?_eq_some hfind)
    have hmem : d ∈ parentIds allTpls e := by simpa using List.find?_some hfind
    simp [h.eq_of_mem he hmem]

/-- A template that is not maximal is not kept behind one below it. -/
theorem not_kept_of_cons {e : Int} (hmem : d ∈ parentIds allTpls e) (hne : e ≠ d) :
    ¬ Kept allTpls (e :: rest) d := by
  rintro (hmax | hout)
  · exact hne (hmax.eq_of_mem List.mem_cons_self hmem)
  · have hfirst := hout.2
    rw [List.find?_cons_of_pos (by simpa using hmem), Option.some_inj] at hfirst
    exact hne hfirst

variable {strategies : StrategyCache F}
  (hsame : ∀ tids' : List Int, tids'.Perm tids → ∀ p,
    p ∈ pairs (calcInheritStrategies storedOrder allTpls tids (tpl2Strategies strategies)) ↔
      p ∈ pairs (calcInheritStrategies storedOrder allTpls tids' (tpl2Strategies strategies)))

include hsame

theorem once_of_independent {d' : Int} (hd : Maximal allTpls tids d) (hd' : Maximal allTpls tids d')
    (h : Exposes SameUuid (tpl2Strategies strategies) (parentIds allTpls d) s)
    (h' : Exposes SameUuid (tpl2Strategies strategies) (parentIds allTpls d') s) : d = d' := by
  have hpair := (hsame _ (List.perm_cons_erase hd.1).symm _).mpr (hd.mem_pairs h)
  have hpair' := (hsame _ (List.perm_cons_erase hd'.1).symm _).mpr (hd'.mem_pairs h')
  exact Option.some_inj.mp (tpl_unique_of_mem_pairs hpair hpair')

theorem twice_of_independent (hd : ¬ Maximal allTpls tids d) (hcount : 2 ≤ tids.count d) {t : Int}
    (ht : t ∈ parentIds allTpls d) : strategiesOf (tpl2Strategies strategies) t = [] := by
  by_contra hs
  obtain ⟨s, hexposes⟩ := exists_exposes ht hs
  have hne : parentIds allTpls d ≠ [] := List.ne_nil_of_mem ht
  have hmem : d ∈ tids := List.count_pos_iff.mp (by omega)
  have hmem' : d ∈ tids.erase d := by
    refine List.count_pos_iff.mp ?_
    rw [List.count_erase_self]
    omega
  -- bound twice at the front, the template is kept and takes the strategy
  have hfront : (s.id, some d) ∈ pairs (calcInheritStrategies storedOrder allTpls
      (d :: d :: (tids.erase d).erase d) (tpl2Strategies strategies)) := by
    refine mem_pairs_of_cons storedOrder hne ?_ hexposes
    rw [List.find?_cons_of_pos (by simpa using mem_parentIds_self hne)]
    simp
  have hperm : (d :: d :: (tids.erase d).erase d).Perm tids :=
    ((List.perm_cons_erase hmem').symm.cons d).trans (List.perm_cons_erase hmem).symm
  -- behind a template below it, it is dropped
  obtain ⟨e, he, hde, hed⟩ : ∃ e ∈ tids, d ∈ parentIds allTpls e ∧ e ≠ d := by
    by_contra hnone
    push Not at hnone
    refine hd ⟨hmem, hne, fun e he hsub => ?_⟩
    rw [hnone e he ((parentIds_subset_iff hne).mp hsub)]
    exact List.Subset.refl _
  have hbehind := (hsame _ (List.perm_cons_erase he).symm _).mp ((hsame _ hperm _).mpr hfront)
  obtain ⟨d', s', hp, -, htpl⟩ := mem_pairs_iff_firstWins.mp hbehind
  obtain rfl : d = d' := Option.some_inj.mp htpl
  exact not_kept_of_cons hde hed (mem_offers.mp (mem_of_mem_firstWins hp)).1

end Independent

/-- **When the order of the rows does not matter.**  The pairs of a strategy and its
template are the same for every order of the bound templates and every order in which
the maps are visited, exactly when the host is unambiguous. -/
theorem calcInheritStrategies_order_iff (allTpls : TemplateCache) (tids : List Int)
    (strategies : StrategyCache F) :
    (∀ tids' : List Int, tids'.Perm tids → ∀ (order order' : RangeOrder F) p,
        p ∈ pairs (calcInheritStrategies order allTpls tids (tpl2Strategies strategies)) ↔
          p ∈ pairs (calcInheritStrategies order' allTpls tids' (tpl2Strategies strategies))) ↔
      Unambiguous allTpls tids (tpl2Strategies strategies) := by
  constructor
  · intro h
    have hsame : ∀ tids' : List Int, tids'.Perm tids → ∀ p,
        p ∈ pairs (calcInheritStrategies storedOrder allTpls tids (tpl2Strategies strategies)) ↔
          p ∈ pairs (calcInheritStrategies storedOrder allTpls tids'
            (tpl2Strategies strategies)) :=
      fun tids' hperm => h tids' hperm storedOrder storedOrder
    exact ⟨fun d hd hcount t ht => twice_of_independent hsame hd hcount ht,
      fun d d' s hd hd' => once_of_independent hsame hd hd'⟩
  · intro h tids' hperm order order' p
    rw [h.mem_pairs_iff order, (h.of_perm hperm).mem_pairs_iff order']
    refine exists_congr fun d => exists_congr fun s => and_congr_left fun _ => ?_
    exact ⟨fun hmax => hmax.of_perm hperm, fun hmax => hmax.of_perm hperm.symm⟩

/-- Templates 2 and 3 are children of template 1. -/
def twoChildren : TemplateCache := templatesOf [(1, 0), (2, 1), (3, 1)]

/-- **The order of the rows decides the template.**  A host bound to two children of a
template gets the strategy of their parent with the child whose row comes first. -/
theorem calcInheritStrategies_rows_swapped :
    pairs (calcInheritStrategies storedOrder twoChildren [2, 3]
        (tpl2Strategies (cpuStrategies twoChildren [(10, 1)]))) = [(10, some 2)] ∧
      pairs (calcInheritStrategies storedOrder twoChildren [3, 2]
        (tpl2Strategies (cpuStrategies twoChildren [(10, 1)]))) = [(10, some 3)] := by
  decide +kernel

end OpenFalcon.Hbs

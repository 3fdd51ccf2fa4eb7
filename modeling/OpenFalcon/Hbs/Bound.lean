import OpenFalcon.Hbs.Inherit

/-!
# Which bound templates count

The loop over the buckets is meant to keep the maximal ones.  It stops at the first
other bucket that contains the one in question: if that is an equal bucket the one in
question stays, otherwise it goes.  So a template that is bound once stays exactly when
it is maximal; but a template bound *twice* stays also when one of its own rows comes
before the first row of a template below it, whatever follows (`mem_uniqTplBuckets`,
`Kept`).

The result about `CalcInheritStrategies` compares what it returns with what it should,
the strategies that maximal bound templates expose.
-/

namespace OpenFalcon.Hbs

open Common Assoc

variable {F : Type} {b a : List Int} {buckets l₁ l₂ : List (List Int)}

/-! ## The loop over the buckets -/

theorem sliceIntEq_iff : sliceIntEq a b = true ↔ a = b := by
  rw [sliceIntEq, Bool.and_eq_true, decide_eq_true_eq, List.all_eq_true]
  constructor
  · rintro ⟨hlen, hall⟩
    induction a generalizing b with
    | nil => exact (List.length_eq_zero_iff.mp hlen.symm).symm
    | cons x a ih =>
      cases b with
      | nil => cases hlen
      | cons y b =>
        have hxy : x = y := by simpa using hall (x, y) (by simp)
        have htail := ih (Nat.succ.inj hlen) fun p hp => hall p (by simp [hp])
        rw [hxy, htail]
  · rintro rfl
    refine ⟨rfl, fun p hp => ?_⟩
    rw [List.zip_eq_zipWith, List.zipWith_self, List.mem_map] at hp
    obtain ⟨x, -, rfl⟩ := hp
    simp

theorem sliceIntLt_iff : sliceIntLt a b = true ↔ a ⊆ b := by
  rw [sliceIntLt, List.all_eq_true]
  refine forall₂_congr fun x _ => ?_
  simp [sliceIntContains]

/-- **A bucket is kept** when the first other bucket that contains it is equal to it, or
there is none. -/
theorem validBucket_eq (i : ℕ) (bucket : List Int) (j : ℕ) (buckets : List (List Int)) :
    validBucket i bucket j buckets =
      ((if j ≤ i then buckets.eraseIdx (i - j) else buckets).find?
        fun other => bucket ⊆ other).all fun other => other = bucket := by
  induction buckets generalizing j with
  | nil => simp [validBucket]
  | cons other rest ih =>
    have hfirst : ∀ others, (if sliceIntEq bucket other then true
        else if sliceIntLt bucket other then false
        else (List.find? (fun o => decide (bucket ⊆ o)) others).all fun o => decide (o = bucket)) =
        (List.find? (fun o => decide (bucket ⊆ o)) (other :: others)).all
          fun o => decide (o = bucket) := by
      intro others
      by_cases heq : bucket = other
      · subst heq
        simp [sliceIntEq_iff.mpr rfl]
      · by_cases hsub : bucket ⊆ other
        · simp [Bool.eq_false_iff.mpr (mt sliceIntEq_iff.mp heq), sliceIntLt_iff.mpr hsub, hsub,
            Ne.symm heq]
        · simp [Bool.eq_false_iff.mpr (mt sliceIntEq_iff.mp heq),
            Bool.eq_false_iff.mpr (mt sliceIntLt_iff.mp hsub), hsub]
    rw [validBucket, ih]
    by_cases hij : i = j
    · subst hij
      rw [if_pos rfl, if_neg (by omega), if_pos le_rfl, Nat.sub_self, List.eraseIdx_cons_zero]
    · rw [if_neg hij, hfirst]
      by_cases hle : j ≤ i
      · rw [if_pos (show j + 1 ≤ i by omega), if_pos hle, show i - j = i - (j + 1) + 1 by omega,
          List.eraseIdx_cons_succ]
      · rw [if_neg (by omega), if_neg hle]

theorem mem_uniqTplBuckets_iff_split :
    b ∈ uniqTplBuckets buckets ↔ ∃ l₁ l₂, buckets = l₁ ++ b :: l₂ ∧
      ((l₁ ++ l₂).find? fun c => b ⊆ c).all (fun c => c = b) = true := by
  have hvalid : ∀ i, validBucket i b 0 buckets =
      ((buckets.take i ++ buckets.drop (i + 1)).find? fun c => b ⊆ c).all fun c => c = b := by
    intro i
    rw [validBucket_eq, if_pos (Nat.zero_le i), Nat.sub_zero, List.eraseIdx_eq_take_drop_succ]
  rw [uniqTplBuckets, List.mem_map]
  constructor
  · rintro ⟨⟨b', i⟩, hmem, rfl⟩
    obtain ⟨hget, hall⟩ := List.mem_filter.mp hmem
    obtain ⟨hi, hbi⟩ := List.getElem?_eq_some_iff.mp (List.mem_zipIdx_iff_getElem?.mp hget)
    refine ⟨buckets.take i, buckets.drop (i + 1), ?_, ?_⟩
    · rw [← hbi, List.cons_getElem_drop_succ, List.take_append_drop]
    · rw [← hvalid]
      exact hall
  · rintro ⟨l₁, l₂, hsplit, hall⟩
    refine ⟨(b, l₁.length), List.mem_filter.mpr ⟨?_, ?_⟩, rfl⟩
    · rw [List.mem_zipIdx_iff_getElem?, hsplit]
      simp
    · rw [hvalid, hsplit, List.take_left, ← List.drop_drop, List.drop_left]
      exact hall

theorem find?_cons_self (b : List Int) (l : List (List Int)) :
    (b :: l).find? (fun c => decide (b ⊆ c)) = some b := by
  rw [List.find?_cons, decide_eq_true (List.Subset.refl b)]

/-- A bucket whose others are passed is contained in none of them, or is the first of two that are
the same. -/
theorem maximal_or_repeated (hall : ((l₁ ++ l₂).find? fun c => b ⊆ c).all (fun c => c = b) = true) :
    (∀ c ∈ l₁ ++ b :: l₂, b ⊆ c → c = b) ∨
      (2 ≤ (l₁ ++ b :: l₂).count b ∧ (l₁ ++ b :: l₂).find? (fun c => b ⊆ c) = some b) := by
  cases hfind : (l₁ ++ l₂).find? fun c => b ⊆ c with
  | none =>
    refine Or.inl fun c hc hsub => ?_
    by_contra hne
    have hother : c ∈ l₁ ++ l₂ := by
      rcases List.mem_append.mp hc with h | h
      · exact List.mem_append_left _ h
      · exact List.mem_append_right _ ((List.mem_cons.mp h).resolve_left hne)
    exact List.find?_eq_none.mp hfind c hother (decide_eq_true hsub)
  | some c =>
    have hc : c = b := by
      rw [hfind] at hall
      simpa using hall
    subst hc
    refine Or.inr ⟨?_, ?_⟩
    · have hpos : 0 < (l₁ ++ l₂).count c :=
        List.count_pos_iff.mpr (List.mem_of_find?_eq_some hfind)
      rw [List.count_append] at hpos
      rw [List.count_append, List.count_cons_self]
      omega
    · rw [List.find?_append] at hfind ⊢
      cases h₁ : l₁.find? fun d => c ⊆ d with
      | none => rw [Option.none_or, find?_cons_self]
      | some d => rw [h₁] at hfind; exact hfind

/-- A bucket that no other contains is passed by all of them. -/
theorem all_find?_of_maximal (hmax : ∀ c ∈ l₁ ++ b :: l₂, b ⊆ c → c = b) :
    ((l₁ ++ l₂).find? fun c => b ⊆ c).all (fun c => c = b) = true := by
  cases hfind : (l₁ ++ l₂).find? fun c => b ⊆ c with
  | none => rfl
  | some c =>
    have hc : c ∈ l₁ ++ b :: l₂ := by
      rcases List.mem_append.mp (List.mem_of_find?_eq_some hfind) with h | h
      · exact List.mem_append_left _ h
      · exact List.mem_append_right _ (List.mem_cons_of_mem _ h)
    simpa using hmax c hc (by simpa using List.find?_some hfind)

/-- Of a bucket that is there twice, before any other that contains it, the second is passed: the
others begin with the first. -/
theorem exists_split_of_repeated (hcount : 2 ≤ buckets.count b)
    (hfirst : buckets.find? (fun c => b ⊆ c) = some b) :
    ∃ l₁ l₂, buckets = l₁ ++ b :: l₂ ∧
      ((l₁ ++ l₂).find? fun c => b ⊆ c).all (fun c => c = b) = true := by
  obtain ⟨-, p, q, rfl, hp⟩ := List.find?_eq_some_iff_append.mp hfirst
  have hnotMem : b ∉ p := by
    intro hb
    simpa using hp b hb
  have hq : b ∈ q := by
    rw [List.count_append, List.count_eq_zero_of_not_mem hnotMem, List.count_cons_self] at hcount
    exact List.count_pos_iff.mp (by omega)
  obtain ⟨q₁, q₂, rfl⟩ := List.append_of_mem hq
  refine ⟨p ++ b :: q₁, q₂, by simp, ?_⟩
  have hnone : (p.find? fun c => b ⊆ c) = none := by
    rw [List.find?_eq_none]
    intro c hc
    simpa using hp c hc
  rw [List.append_assoc, List.find?_append, hnone, Option.none_or, List.cons_append,
    find?_cons_self]
  simp

/-- **The buckets that are kept**: those no other bucket contains, and those that occur
twice and before every other that contains them. -/
theorem mem_uniqTplBuckets :
    b ∈ uniqTplBuckets buckets ↔
      b ∈ buckets ∧ ((∀ c ∈ buckets, b ⊆ c → c = b) ∨
        (2 ≤ buckets.count b ∧ buckets.find? (fun c => b ⊆ c) = some b)) := by
  rw [mem_uniqTplBuckets_iff_split]
  constructor
  · rintro ⟨l₁, l₂, rfl, hall⟩
    exact ⟨by simp, maximal_or_repeated hall⟩
  · rintro ⟨hmem, hmax | ⟨hcount, hfirst⟩⟩
    · obtain ⟨l₁, l₂, rfl⟩ := List.append_of_mem hmem
      exact ⟨l₁, l₂, rfl, all_find?_of_maximal hmax⟩
    · exact exists_split_of_repeated hcount hfirst

/-! ## Bound templates -/

variable {s : Strategy F}

section

variable (allTpls : TemplateCache) (tids : List Int)

/-- A bound template with a chain that no chain of another bound template strictly
contains. -/
def Maximal (d : Int) : Prop :=
  d ∈ tids ∧ parentIds allTpls d ≠ [] ∧
    ∀ e ∈ tids, parentIds allTpls d ⊆ parentIds allTpls e →
      parentIds allTpls e ⊆ parentIds allTpls d

/-- A template bound more than once, one row of it before those of all templates below
it. -/
def Outlasts (d : Int) : Prop :=
  2 ≤ tids.count d ∧ tids.find? (fun e => d ∈ parentIds allTpls e) = some d

/-- A template whose bucket is kept. -/
def Kept (d : Int) : Prop := Maximal allTpls tids d ∨ Outlasts allTpls tids d

variable {allTpls tids}
variable {d : Int}
variable {b : List Int}

theorem Outlasts.parentIds_ne_nil (h : Outlasts allTpls tids d) : parentIds allTpls d ≠ [] := by
  have hself : d ∈ parentIds allTpls d := by simpa using List.find?_some h.2
  exact List.ne_nil_of_mem hself

theorem Outlasts.mem (h : Outlasts allTpls tids d) : d ∈ tids :=
  List.mem_of_find?_eq_some h.2

theorem Kept.parentIds_ne_nil (h : Kept allTpls tids d) : parentIds allTpls d ≠ [] :=
  h.elim (fun hmax => hmax.2.1) Outlasts.parentIds_ne_nil

theorem mem_tplBuckets :
    b ∈ tplBuckets allTpls tids ↔
      ∃ d ∈ tids, parentIds allTpls d ≠ [] ∧ b = parentIds allTpls d := by
  rw [tplBuckets, List.mem_filter, List.mem_map, decide_eq_true_eq, List.length_pos_iff]
  constructor
  · rintro ⟨⟨d, hd, rfl⟩, hne⟩
    exact ⟨d, hd, hne, rfl⟩
  · rintro ⟨d, hd, hne, rfl⟩
    exact ⟨⟨d, hd, rfl⟩, hne⟩

theorem count_tplBuckets (h : parentIds allTpls d ≠ []) :
    (tplBuckets allTpls tids).count (parentIds allTpls d) = tids.count d := by
  rw [tplBuckets, List.count_filter (by simpa [List.length_pos_iff] using h),
    List.count, List.countP_map, List.count]
  refine List.countP_congr fun e _ => ?_
  rw [Function.comp_apply, beq_iff_eq, beq_iff_eq]
  exact ⟨fun heq => (parentIds_injective h heq.symm).symm, fun heq => by rw [heq]⟩

theorem find?_tplBuckets (h : parentIds allTpls d ≠ []) :
    (tplBuckets allTpls tids).find? (fun c => parentIds allTpls d ⊆ c) =
      (tids.find? fun e => d ∈ parentIds allTpls e).map (parentIds allTpls) := by
  rw [tplBuckets, List.find?_filter, List.find?_map]
  congr 2
  funext e
  rw [Function.comp_apply]
  by_cases hmem : d ∈ parentIds allTpls e
  · simp [hmem, (parentIds_subset_iff h).mpr hmem, List.length_pos_of_mem hmem]
  · simp [hmem, mt (parentIds_subset_iff h).mp hmem]

/-- **The buckets that are kept are the chains of the templates that are kept.** -/
theorem mem_uniq_tplBuckets :
    b ∈ uniqTplBuckets (tplBuckets allTpls tids) ↔
      ∃ d, Kept allTpls tids d ∧ b = parentIds allTpls d := by
  rw [mem_uniqTplBuckets]
  constructor
  · rintro ⟨hb, hkept⟩
    obtain ⟨d, hd, hne, rfl⟩ := mem_tplBuckets.mp hb
    refine ⟨d, ?_, rfl⟩
    rcases hkept with hmax | ⟨hcount, hfirst⟩
    · refine Or.inl ⟨hd, hne, fun e he hsub => ?_⟩
      have hne' : parentIds allTpls e ≠ [] :=
        List.ne_nil_of_mem (hsub (mem_parentIds_self hne))
      rw [hmax _ (mem_tplBuckets.mpr ⟨e, he, hne', rfl⟩) hsub]
      exact List.Subset.refl _
    · rw [count_tplBuckets hne] at hcount
      rw [find?_tplBuckets hne, Option.map_eq_some_iff] at hfirst
      obtain ⟨e, hfind, heq⟩ := hfirst
      rw [← parentIds_injective hne heq.symm] at hfind
      exact Or.inr ⟨hcount, hfind⟩
  · rintro ⟨d, hmax | hout, rfl⟩
    · obtain ⟨hd, hne, hmax⟩ := hmax
      refine ⟨mem_tplBuckets.mpr ⟨d, hd, hne, rfl⟩, Or.inl fun c hc hsub => ?_⟩
      obtain ⟨e, he, hne', rfl⟩ := mem_tplBuckets.mp hc
      have hback := hmax e he hsub
      rw [eq_of_mem_parentIds (hsub (mem_parentIds_self hne)) (hback (mem_parentIds_self hne'))]
    · have hne := hout.parentIds_ne_nil
      refine ⟨mem_tplBuckets.mpr ⟨d, hout.mem, hne, rfl⟩, Or.inr ⟨?_, ?_⟩⟩
      · rw [count_tplBuckets hne]
        exact hout.1
      · rw [find?_tplBuckets hne, hout.2]
        rfl

theorem lastTid_parentIds (h : parentIds allTpls d ≠ []) : lastTid (parentIds allTpls d) = d := by
  rw [lastTid, getLast?_parentIds h]
  rfl

/-- **What is offered**: the strategies the kept templates expose. -/
theorem mem_offers {order : RangeOrder F} {index : GoMap Int (List (Strategy F))} :
    (d, s) ∈ offers order allTpls tids index ↔
      Kept allTpls tids d ∧ Exposes SameUuid index (parentIds allTpls d) s := by
  rw [mem_offers_iff]
  constructor
  · rintro ⟨bucket, hbucket, hlast, hexposes⟩
    obtain ⟨e, hkept, rfl⟩ := mem_uniq_tplBuckets.mp hbucket
    rw [lastTid_parentIds hkept.parentIds_ne_nil] at hlast
    simp only at hlast
    subst hlast
    exact ⟨hkept, hexposes⟩
  · rintro ⟨hkept, hexposes⟩
    exact ⟨_, mem_uniq_tplBuckets.mpr ⟨d, hkept, rfl⟩,
      (lastTid_parentIds hkept.parentIds_ne_nil).symm, hexposes⟩

end

/-! ## What is returned -/

section

variable (allTpls : TemplateCache) (tids : List Int) (index : GoMap Int (List (Strategy F)))

/-- What a host should inherit: the strategies a maximal bound template exposes. -/
def Inherited (s : Strategy F) : Prop :=
  ∃ d, Maximal allTpls tids d ∧ Exposes SameMetricTags index (parentIds allTpls d) s

/-- A list of strategies is what the host should inherit, each id once, whatever their
templates are replaced by. -/
structure InheritsExactly (result : List (Strategy F)) : Prop where
  nodup : (result.map Strategy.id).Nodup
  sound : ∀ r ∈ result, ∃ s, Inherited allTpls tids index s ∧ { r with tpl := s.tpl } = s
  complete : ∀ s, Inherited allTpls tids index s → ∃ r ∈ result, { r with tpl := s.tpl } = s

variable {allTpls tids index}

theorem valStrategy_with_tpl (lastTid : Int) (s : Strategy F) :
    { valStrategy allTpls lastTid s with tpl := s.tpl } = s := by
  rw [valStrategy]
  split_ifs <;> rfl

theorem id_eq_of_with_tpl {r : Strategy F} {tpl : Option Template} (h : { r with tpl := tpl } = s) :
    r.id = s.id := by
  rw [← h]

theorem nodup_id_calcInheritStrategies (order : RangeOrder F) :
    ((calcInheritStrategies order allTpls tids index).map Strategy.id).Nodup := by
  have hnodup : ((firstWins (fun p : Int × Strategy F => p.2.id) []
      (offers order allTpls tids index)).map fun p => p.2.id).Nodup :=
    nodup_map_firstWins [] _
  rw [calcInheritStrategies_eq, List.map_map]
  refine (congrArg List.Nodup (List.map_congr_left fun p _ => ?_)).mpr hnodup
  exact id_valStrategy p.1 p.2

end

section

variable {allTpls : TemplateCache} {tids c : List Int} {strategies : StrategyCache F}
  (order : RangeOrder F) {same : Strategy F → Strategy F → Prop}

theorem Exposes.eq_of_id_eq {same' : Strategy F → Strategy F → Prop} {c' : List Int}
    {s' : Strategy F} (h : Exposes same (tpl2Strategies strategies) c s)
    (h' : Exposes same' (tpl2Strategies strategies) c' s') (hid : s.id = s'.id) : s = s' := by
  obtain ⟨t, -, hs⟩ := h.exists_mem
  obtain ⟨t', -, hs'⟩ := h'.exists_mem
  exact Hbs.eq_of_id_eq hs hs' hid

/-- A strategy that a kept template exposes is taken, for some kept template that exposes
it. -/
theorem exists_mem_firstWins_offers {d : Int} (hkept : Kept allTpls tids d)
    (hexposes : Exposes SameUuid (tpl2Strategies strategies) (parentIds allTpls d) s) :
    ∃ d', (d', s) ∈ firstWins (fun p : Int × Strategy F => p.2.id) []
        (offers order allTpls tids (tpl2Strategies strategies)) ∧
      Kept allTpls tids d' ∧
        Exposes SameUuid (tpl2Strategies strategies) (parentIds allTpls d') s := by
  obtain ⟨⟨d', s'⟩, hp, hid⟩ : ∃ p ∈ firstWins (fun p : Int × Strategy F => p.2.id) []
      (offers order allTpls tids (tpl2Strategies strategies)), p.2.id = s.id :=
    exists_mem_firstWins (mem_offers.mpr ⟨hkept, hexposes⟩)
  obtain ⟨hkept', hexposes'⟩ := mem_offers.mp (mem_of_mem_firstWins hp)
  obtain rfl : s' = s := hexposes'.eq_of_id_eq hexposes hid
  exact ⟨d', hp, hkept', hexposes'⟩

theorem exists_mem_calcInheritStrategies_iff (h : Exposes same (tpl2Strategies strategies) c s) :
    (∃ r ∈ calcInheritStrategies order allTpls tids (tpl2Strategies strategies),
        { r with tpl := s.tpl } = s) ↔
      ∃ d, Kept allTpls tids d ∧
        Exposes SameUuid (tpl2Strategies strategies) (parentIds allTpls d) s := by
  rw [calcInheritStrategies_eq]
  constructor
  · rintro ⟨r, hr, hrs⟩
    obtain ⟨⟨d, s'⟩, hp, rfl⟩ := List.mem_map.mp hr
    obtain ⟨hkept, hexposes⟩ := mem_offers.mp (mem_of_mem_firstWins hp)
    have hid : s'.id = s.id := by
      rw [← hrs]
      exact (id_valStrategy d s').symm
    rw [hexposes.eq_of_id_eq h hid] at hexposes
    exact ⟨d, hkept, hexposes⟩
  · rintro ⟨d, hkept, hexposes⟩
    obtain ⟨d', hp, -⟩ := exists_mem_firstWins_offers order hkept hexposes
    exact ⟨_, List.mem_map_of_mem hp, valStrategy_with_tpl d' s⟩

/-- **When a host inherits exactly what it should.**  Every strategy that a template
bound more than once, and kept for it, exposes is one that a maximal template exposes;
and every strategy a maximal template exposes is exposed, by text, by a template that
is kept. -/
theorem calcInheritStrategies_exact_iff (order : RangeOrder F) (allTpls : TemplateCache)
    (tids : List Int) (strategies : StrategyCache F) :
    InheritsExactly allTpls tids (tpl2Strategies strategies)
        (calcInheritStrategies order allTpls tids (tpl2Strategies strategies)) ↔
      (∀ d, Outlasts allTpls tids d → ∀ s,
          Exposes SameUuid (tpl2Strategies strategies) (parentIds allTpls d) s →
          Inherited allTpls tids (tpl2Strategies strategies) s) ∧
        ∀ s, Inherited allTpls tids (tpl2Strategies strategies) s →
          ∃ d, Kept allTpls tids d ∧
            Exposes SameUuid (tpl2Strategies strategies) (parentIds allTpls d) s := by
  constructor
  · intro h
    constructor
    · intro d hout s hexposes
      obtain ⟨r, hr, hrs⟩ :=
        (exists_mem_calcInheritStrategies_iff order hexposes).mpr ⟨d, Or.inr hout, hexposes⟩
      obtain ⟨s', ⟨d', hmax, hexposes'⟩, hrs'⟩ := h.sound r hr
      have hid : s'.id = s.id := (id_eq_of_with_tpl hrs').symm.trans (id_eq_of_with_tpl hrs)
      rw [hexposes'.eq_of_id_eq hexposes hid] at hexposes'
      exact ⟨d', hmax, hexposes'⟩
    · intro s hs
      obtain ⟨d, hmax, hexposes⟩ := hs
      exact (exists_mem_calcInheritStrategies_iff order hexposes).mp
        (h.complete s ⟨d, hmax, hexposes⟩)
  · rintro ⟨hout, hmax⟩
    refine ⟨nodup_id_calcInheritStrategies order, ?_, ?_⟩
    · intro r hr
      rw [calcInheritStrategies_eq] at hr
      obtain ⟨⟨d, s⟩, hp, rfl⟩ := List.mem_map.mp hr
      obtain ⟨hkept, hexposes⟩ := mem_offers.mp (mem_of_mem_firstWins hp)
      refine ⟨s, ?_, valStrategy_with_tpl d s⟩
      rcases hkept with hd | hd
      · exact ⟨d, hd, hexposes.mono fun s' hsame => hsame.sameUuid⟩
      · exact hout d hd s hexposes
    · rintro s ⟨d, hd, hexposes⟩
      exact (exists_mem_calcInheritStrategies_iff order hexposes).mpr (hmax s ⟨d, hd, hexposes⟩)

end

/-! ## A template bound twice -/

/-- Maps visited in the order they are stored in. -/
def storedOrder : RangeOrder F := ⟨fun _ _ l => l, fun _ _ l => List.Perm.refl l⟩

/-- Templates with the given ids and parents. -/
def templatesOf (parents : List (Int × Int)) : TemplateCache :=
  queryTemplates (parents.map fun p => ⟨p.1, "tpl", p.2, p.1, "root"⟩)

/-- Strategies with the given ids, all on `cpu.idle`, of the given templates. -/
def cpuStrategies (tpls : TemplateCache) (rows : List (Int × Int)) : StrategyCache Int :=
  queryStrategies tpls
    (rows.map fun p => (⟨p.1, "cpu.idle", ∅, "all(#3)", "<", 10, 3, 0, "", none⟩, p.2))

/-- Template 2 is a child of template 1. -/
def parentAndChild : TemplateCache := templatesOf [(1, 0), (2, 1)]

/-- Strategy 10 of the parent, and strategy 20 of the child that replaces it. -/
def overridingIndex : GoMap Int (List (Strategy Int)) :=
  tpl2Strategies (cpuStrategies parentAndChild [(10, 1), (20, 2)])

/-- **An overridden strategy of a parent comes back** when the parent is bound twice
before its child. -/
theorem calcInheritStrategies_parent_bound_twice :
    (calcInheritStrategies storedOrder parentAndChild [1, 1, 2] overridingIndex).map
        Strategy.id = [10, 20] ∧
      ¬ InheritsExactly parentAndChild [1, 1, 2] overridingIndex
        (calcInheritStrategies storedOrder parentAndChild [1, 1, 2] overridingIndex) := by
  have hids : (calcInheritStrategies storedOrder parentAndChild [1, 1, 2] overridingIndex).map
      Strategy.id = [10, 20] := by decide +kernel
  refine ⟨hids, fun h => ?_⟩
  obtain ⟨r, hr, hid⟩ : ∃ r ∈ calcInheritStrategies storedOrder parentAndChild [1, 1, 2]
      overridingIndex, r.id = 10 := List.mem_map.mp (by rw [hids]; exact List.mem_cons_self)
  obtain ⟨s, ⟨d, ⟨hd, -, hmax⟩, hexposes⟩, hs⟩ := h.sound r hr
  rw [id_eq_of_with_tpl hs] at hid
  have hcases : d = 1 ∨ d = 2 := by simpa using hd
  rcases hcases with rfl | rfl
  · exact absurd (hmax 2 (by decide) (by decide)) (by decide)
  · have hchain : parentIds parentAndChild 2 = [1] ++ [2] := by decide
    have hchild : ∀ s' ∈ strategiesOf overridingIndex 2, s'.id ≠ 10 ∧
        s'.metric = "cpu.idle" ∧ sortedTags s'.tags = "" := by decide +kernel
    have hparent : ∀ s' ∈ strategiesOf overridingIndex 1,
        s'.metric = "cpu.idle" ∧ sortedTags s'.tags = "" := by decide +kernel
    rw [hchain, exposes_concat] at hexposes
    rcases hexposes with hmem | ⟨hfirst, hnone⟩
    · exact (hchild s hmem).1 hid
    · obtain ⟨t, ht, hmem⟩ := hfirst.exists_mem
      rw [List.mem_singleton.mp ht] at hmem
      obtain ⟨s', hs'⟩ := List.exists_mem_of_ne_nil (strategiesOf overridingIndex 2) (by decide)
      refine hnone s' hs' ⟨?_, ?_⟩
      · rw [(hchild s' hs').2.1, (hparent s hmem).1]
      · rw [(hchild s' hs').2.2, (hparent s hmem).2]

end OpenFalcon.Hbs

import OpenFalcon.Assoc.Collect
import OpenFalcon.Hbs.Template

/-!
# The strategies a host inherits

`Tpl2Strategies` and `CalcInheritStrategies` of `modules/hbs/rpc/hbs.go`.  A host is
bound to templates, one entry of `tids` per row of a join, so a template may be bound
more than once.  Every bound template gives a bucket, its chain of ancestors; buckets
that are part of another are dropped; within a bucket the strategies of a younger
template replace those of an older one that have the same text for metric and tags;
and over all buckets the first strategy with an id wins, its template replaced by the
youngest of the bucket.

Go visits the keys of a map in an order of its own.  `RangeOrder` is such a choice of
orders, one for every `range` over a map that a call makes.
-/

namespace OpenFalcon.Hbs

open Common Assoc

variable {F : Type}

/-- `cache.Strategies`: the strategies by their ids. -/
structure StrategyCache (F : Type) where
  m : GoMap Int (Strategy F)
  keyed : Keyed Strategy.id m

/-- `db.QueryStrategies`, over the rows of the table, each with the id of its template;
rows whose template is not there are left out. -/
def queryStrategies (tpls : TemplateCache) (rows : List (Strategy F × Int)) : StrategyCache F :=
  rows.foldl (fun c row =>
    match tpls.m.lookup row.2 with
    | some t =>
      ⟨c.m.insert row.1.id { row.1 with tpl := some t },
        c.keyed.insert { row.1 with tpl := some t }⟩
    | none => c) ⟨∅, keyed_empty _⟩

/-- `Tpl2Strategies`: the strategies by their templates; those without one are left out. -/
def tpl2Strategies (strategies : StrategyCache F) : GoMap Int (List (Strategy F)) :=
  groupBy (fun s => s.tpl.map Template.id) (strategies.m.entries.map Sigma.snd)

/-- An entry of `bucket_stras_map` and of `the_tid_stras`. -/
abbrev StrasEntry (F : Type) := Σ _ : String, List (Strategy F)

/-- The orders of the `range` loops over maps: those of the `i`-th bucket, over its `j`-th
template or over the bucket as a whole. -/
structure RangeOrder (F : Type) where
  visit : ℕ → Option ℕ → List (StrasEntry F) → List (StrasEntry F)
  perm : ∀ i j l, (visit i j l).Perm l

/-! ## Buckets -/

/-- The buckets, `tpl_buckets`. -/
def tplBuckets (allTpls : TemplateCache) (tids : List Int) : List (List Int) :=
  (tids.map (parentIds allTpls)).filter fun ids => 0 < ids.length

/-- `slice_int_contains`. -/
def sliceIntContains (list : List Int) (target : Int) : Bool :=
  list.any fun b => b = target

/-- `slice_int_eq`. -/
def sliceIntEq (a b : List Int) : Bool :=
  a.length = b.length && (a.zip b).all fun p => p.1 = p.2

/-- `slice_int_lt`. -/
def sliceIntLt (a b : List Int) : Bool :=
  a.all (sliceIntContains b)

/-- The inner loop over the buckets: whether the `i`-th bucket is kept. -/
def validBucket (i : ℕ) (bucket : List Int) : ℕ → List (List Int) → Bool
  | _, [] => true
  | j, other :: rest =>
    if i = j then validBucket i bucket (j + 1) rest
    else if sliceIntEq bucket other then true
    else if sliceIntLt bucket other then false
    else validBucket i bucket (j + 1) rest

/-- The buckets that are kept, `uniq_tpl_buckets`. -/
def uniqTplBuckets (buckets : List (List Int)) : List (List Int) :=
  (buckets.zipIdx.filter fun p => validBucket p.2 p.1 0 buckets).map Prod.fst

/-! ## Overriding within a bucket -/

/-- The text strategies are compared by. -/
def uuid (s : Strategy F) : String :=
  "metric:" ++ s.metric ++ "/tags:" ++ sortedTags s.tags

/-- The strategies of a template. -/
def strategiesOf (index : GoMap Int (List (Strategy F))) (tid : Int) : List (Strategy F) :=
  (index.lookup tid).getD []

/-- The strategies of a template by their texts, `the_tid_stras`. -/
def theTidStras (index : GoMap Int (List (Strategy F))) (tid : Int) :
    GoMap String (List (Strategy F)) :=
  groupBy (fun s => some (uuid s)) (strategiesOf index tid)

/-- The strategies of the `i`-th bucket by their texts, `bucket_stras_map`. -/
def bucketStrasMap (order : RangeOrder F) (index : GoMap Int (List (Strategy F))) (i : ℕ)
    (bucket : List Int) : GoMap String (List (Strategy F)) :=
  bucket.zipIdx.foldl
    (fun m p => overrideAll m (order.visit i (some p.2) (theTidStras index p.1).entries)) ∅

/-! ## The strategies of all buckets -/

/-- `valStrategy`: the strategy with the youngest template of its bucket. -/
def valStrategy (allTpls : TemplateCache) (lastTid : Int) (s : Strategy F) : Strategy F :=
  if s.tpl.map Template.id ≠ some lastTid then { s with tpl := allTpls.m.lookup lastTid } else s

/-- One round of the innermost loop: the strategies so far, and `exists_by_id`. -/
def addStrategy (allTpls : TemplateCache) (lastTid : Int)
    (st : List (Strategy F) × GoMap Int Unit) (s : Strategy F) :
    List (Strategy F) × GoMap Int Unit :=
  if s.id ∈ st.2 then st
  else (st.1 ++ [valStrategy allTpls lastTid s], st.2.insert s.id ())

/-- The last template of a bucket; buckets are not empty. -/
def lastTid (bucket : List Int) : Int := bucket.getLast?.getD 0

/-- `CalcInheritStrategies`. -/
def calcInheritStrategies (order : RangeOrder F) (allTpls : TemplateCache) (tids : List Int)
    (index : GoMap Int (List (Strategy F))) : List (Strategy F) :=
  ((uniqTplBuckets (tplBuckets allTpls tids)).zipIdx.foldl
    (fun st p =>
      (order.visit p.2 none (bucketStrasMap order index p.2 p.1).entries).foldl
        (fun st e => e.2.foldl (addStrategy allTpls (lastTid p.1)) st) st)
    ([], ∅)).1

/-! ## The index -/

theorem strategiesOf_tpl2Strategies (strategies : StrategyCache F) (tid : Int) :
    strategiesOf (tpl2Strategies strategies) tid =
      (strategies.m.entries.map Sigma.snd).filter fun s => s.tpl.map Template.id = some tid :=
  getD_lookup_groupBy _ _ tid

variable {s s' : Strategy F}

theorem eq_of_id_eq {strategies : StrategyCache F} {tid tid' : Int}
    (h : s ∈ strategiesOf (tpl2Strategies strategies) tid)
    (h' : s' ∈ strategiesOf (tpl2Strategies strategies) tid') (hid : s.id = s'.id) : s = s' := by
  rw [strategiesOf_tpl2Strategies] at h h'
  obtain ⟨⟨k, s⟩, hs, rfl⟩ := List.mem_map.mp (List.mem_filter.mp h).1
  obtain ⟨⟨k', s'⟩, hs', rfl⟩ := List.mem_map.mp (List.mem_filter.mp h').1
  have hlookup : strategies.m.lookup k = some s := AList.mem_lookup_iff.mpr hs
  have hlookup' : strategies.m.lookup k' = some s' := AList.mem_lookup_iff.mpr hs'
  have hkey : k = k' := by
    rw [← strategies.keyed k s hlookup, ← strategies.keyed k' s' hlookup']
    exact hid
  rw [← hkey, hlookup, Option.some_inj] at hlookup'
  exact hlookup'

/-! ## What a bucket exposes -/

section

variable (same : Strategy F → Strategy F → Prop) (index : GoMap Int (List (Strategy F)))

/-- The strategy `s` belongs to a template of the chain, and no younger template of the
chain has the same one. -/
def Exposes (chain : List Int) (s : Strategy F) : Prop :=
  ∃ older t younger, chain = older ++ t :: younger ∧ s ∈ strategiesOf index t ∧
    ∀ t' ∈ younger, ∀ s' ∈ strategiesOf index t', ¬ same s' s

/-- The comparison of the code: the same text. -/
def SameUuid (s' s : Strategy F) : Prop := uuid s' = uuid s

/-- The comparison that is meant: the same metric and the same tags. -/
def SameMetricTags (s' s : Strategy F) : Prop :=
  s'.metric = s.metric ∧ sortedTags s'.tags = sortedTags s.tags

variable {same index}
variable {chain : List Int}

theorem SameMetricTags.sameUuid (h : SameMetricTags s' s) : SameUuid s' s := by
  rw [SameUuid, uuid, uuid, h.1, h.2]

theorem Exposes.mono {same' : Strategy F → Strategy F → Prop} (h : Exposes same index chain s)
    (hsame : ∀ s', same' s' s → same s' s) : Exposes same' index chain s := by
  obtain ⟨older, t, younger, hsplit, hs, hyounger⟩ := h
  exact ⟨older, t, younger, hsplit, hs,
    fun t' ht' s' hs' heq => hyounger t' ht' s' hs' (hsame s' heq)⟩

theorem Exposes.exists_mem (h : Exposes same index chain s) :
    ∃ t ∈ chain, s ∈ strategiesOf index t := by
  obtain ⟨older, t, younger, rfl, hs, -⟩ := h
  exact ⟨t, by simp, hs⟩

/-- One more template: its own strategies, and those it does not replace. -/
theorem exposes_concat {t : Int} :
    Exposes same index (chain ++ [t]) s ↔
      s ∈ strategiesOf index t ∨
        (Exposes same index chain s ∧ ∀ s' ∈ strategiesOf index t, ¬ same s' s) := by
  constructor
  · rintro ⟨older, t', younger, hsplit, hs, hyounger⟩
    rcases List.eq_nil_or_concat younger with rfl | ⟨init, last, rfl⟩
    · obtain ⟨-, heq⟩ := List.append_inj' hsplit rfl
      rw [List.cons.inj heq |>.1]
      exact Or.inl hs
    · rw [List.concat_eq_append, ← List.cons_append, ← List.append_assoc] at hsplit
      obtain ⟨rfl, heq⟩ := List.append_inj' hsplit rfl
      obtain ⟨rfl, -⟩ := List.cons.inj heq
      refine Or.inr ⟨⟨older, t', init, rfl, hs, fun x hx => hyounger x (by simp [hx])⟩, ?_⟩
      exact hyounger t (by simp)
  · rintro (hs | ⟨⟨older, t', younger, rfl, hs, hyounger⟩, ht⟩)
    · exact ⟨chain, t, [], rfl, hs, by simp⟩
    · refine ⟨older, t', younger ++ [t], by simp, hs, ?_⟩
      intro x hx
      rcases List.mem_append.mp hx with hx | hx
      · exact hyounger x hx
      · rw [List.mem_singleton.mp hx]
        exact ht

end

section Bucket

variable (order : RangeOrder F) {index : GoMap Int (List (Strategy F))} (i : ℕ) (bucket : List Int)

theorem bucketStrasMap_concat (t : Int) :
    bucketStrasMap order index i (bucket ++ [t]) =
      overrideAll (bucketStrasMap order index i bucket)
        (order.visit i (some bucket.length) (theTidStras index t).entries) := by
  rw [bucketStrasMap, List.zipIdx_append, List.foldl_append, ← bucketStrasMap, Nat.zero_add]
  rfl

/-- **The map of a bucket holds what the bucket exposes**, at its text. -/
theorem mem_lookup_bucketStrasMap (u : String) (s : Strategy F) :
    s ∈ ((bucketStrasMap order index i bucket).lookup u).getD [] ↔
      uuid s = u ∧ Exposes SameUuid index bucket s := by
  induction bucket using List.reverseRecOn with
  | nil => simp [bucketStrasMap, Exposes]
  | append_singleton bucket t ih =>
    have hgroup := lookup_groupBy (fun s => some (uuid s)) (strategiesOf index t) u
    rw [bucketStrasMap_concat, lookup_overrideAll _ _ (order.perm _ _ _), theTidStras, hgroup,
      exposes_concat]
    simp only [Option.some_inj]
    split_ifs with hnil
    · rw [Option.none_or, ih]
      rw [List.filter_eq_nil_iff] at hnil
      simp only [decide_eq_true_eq] at hnil
      refine and_congr_right fun hu => ⟨fun h => Or.inr ⟨h, ?_⟩, ?_⟩
      · intro s' hs' heq
        exact hnil s' hs' (Eq.trans heq hu)
      · rintro (hs | ⟨h, -⟩)
        · exact absurd hu (hnil s hs)
        · exact h
    · rw [Option.some_or, Option.getD_some, List.mem_filter, decide_eq_true_eq]
      obtain ⟨s', hs'⟩ := List.exists_mem_of_ne_nil _ hnil
      obtain ⟨hmem', hu'⟩ := List.mem_filter.mp hs'
      rw [decide_eq_true_eq] at hu'
      refine ⟨fun ⟨hs, hu⟩ => ⟨hu, Or.inl hs⟩, ?_⟩
      rintro ⟨hu, hs | ⟨-, hnone⟩⟩
      · exact ⟨hs, hu⟩
      · exact absurd (hu'.trans hu.symm) (hnone s' hmem')

theorem exists_mem_entries_iff (s : Strategy F) :
    (∃ e ∈ (bucketStrasMap order index i bucket).entries, s ∈ e.2) ↔
      Exposes SameUuid index bucket s := by
  constructor
  · rintro ⟨⟨u, ss⟩, he, hs⟩
    have hlookup : (bucketStrasMap order index i bucket).lookup u = some ss :=
      AList.mem_lookup_iff.mpr he
    refine ((mem_lookup_bucketStrasMap order i bucket u s).mp ?_).2
    rw [hlookup]
    exact hs
  · intro h
    have hmem := (mem_lookup_bucketStrasMap order i bucket (uuid s) s).mpr ⟨rfl, h⟩
    cases hlookup : (bucketStrasMap order index i bucket).lookup (uuid s) with
    | none =>
      rw [hlookup] at hmem
      exact absurd hmem List.not_mem_nil
    | some ss =>
      rw [hlookup] at hmem
      exact ⟨⟨uuid s, ss⟩, AList.mem_lookup_iff.mp hlookup, hmem⟩

end Bucket

/-! ## The strategies that are returned -/

section

variable (order : RangeOrder F) (allTpls : TemplateCache) (tids : List Int)
  (index : GoMap Int (List (Strategy F)))

/-- The strategies the loops come by in one bucket, each with the youngest template. -/
def bucketOffers (p : List Int × ℕ) : List (Int × Strategy F) :=
  (order.visit p.2 none (bucketStrasMap order index p.2 p.1).entries).flatMap fun e =>
    e.2.map fun s => (lastTid p.1, s)

/-- All strategies the loops come by. -/
def offers : List (Int × Strategy F) :=
  (uniqTplBuckets (tplBuckets allTpls tids)).zipIdx.flatMap (bucketOffers order index)

variable {order allTpls tids index}
variable {q : Int × Strategy F}

theorem foldl_addStrategy {st : List (Strategy F) × GoMap Int Unit} {seen : List Int}
    (hseen : ∀ id, id ∈ st.2 ↔ id ∈ seen) (l : List (Int × Strategy F)) :
    (l.foldl (fun st p => addStrategy allTpls p.1 st p.2) st).1 =
      st.1 ++ (firstWins (fun p => p.2.id) seen l).map fun p => valStrategy allTpls p.1 p.2 := by
  induction l generalizing st seen with
  | nil => simp [firstWins]
  | cons p l ih =>
    rw [List.foldl_cons, firstWins]
    by_cases hp : p.2.id ∈ seen
    · rw [addStrategy, if_pos ((hseen _).mpr hp), if_pos hp, ih hseen]
    · have hseen' : ∀ id, id ∈ st.2.insert p.2.id () ↔ id ∈ p.2.id :: seen := by
        intro id
        rw [AList.mem_insert, hseen, List.mem_cons]
      rw [addStrategy, if_neg (fun h => hp ((hseen _).mp h)), if_neg hp, ih hseen',
        List.map_cons, List.append_assoc, List.singleton_append]

/-- **The strategies returned are the first offers of their ids.** -/
theorem calcInheritStrategies_eq :
    calcInheritStrategies order allTpls tids index =
      (firstWins (fun p => p.2.id) [] (offers order allTpls tids index)).map
        fun p => valStrategy allTpls p.1 p.2 := by
  have hfold : ((offers order allTpls tids index).foldl
      (fun st p => addStrategy allTpls p.1 st p.2) ([], ∅)).1 =
      [] ++ (firstWins (fun p => p.2.id) [] (offers order allTpls tids index)).map
        fun p => valStrategy allTpls p.1 p.2 := foldl_addStrategy (by simp) _
  rw [List.nil_append] at hfold
  rw [← hfold, calcInheritStrategies, offers]
  simp only [bucketOffers, List.foldl_flatMap, List.foldl_map]

@[simp] theorem id_valStrategy (lastTid : Int) (s : Strategy F) :
    (valStrategy allTpls lastTid s).id = s.id := by
  rw [valStrategy]
  split_ifs <;> rfl

theorem mem_bucketOffers {p : List Int × ℕ} :
    q ∈ bucketOffers order index p ↔ q.1 = lastTid p.1 ∧ Exposes SameUuid index p.1 q.2 := by
  rw [bucketOffers, List.mem_flatMap, ← exists_mem_entries_iff order p.2]
  constructor
  · rintro ⟨e, hvisit, hq⟩
    obtain ⟨s, hs, rfl⟩ := List.mem_map.mp hq
    exact ⟨rfl, e, (order.perm _ _ _).mem_iff.mp hvisit, hs⟩
  · rintro ⟨hlast, e, he, hs⟩
    exact ⟨e, (order.perm _ _ _).mem_iff.mpr he, List.mem_map.mpr ⟨q.2, hs, by rw [← hlast]⟩⟩

theorem mem_offers_iff :
    q ∈ offers order allTpls tids index ↔
      ∃ bucket ∈ uniqTplBuckets (tplBuckets allTpls tids),
        q.1 = lastTid bucket ∧ Exposes SameUuid index bucket q.2 := by
  rw [offers, List.mem_flatMap]
  constructor
  · rintro ⟨p, hp, hq⟩
    exact ⟨p.1, List.fst_mem_of_mem_zipIdx hp, mem_bucketOffers.mp hq⟩
  · rintro ⟨bucket, hbucket, hq⟩
    obtain ⟨i, hget⟩ := List.mem_iff_getElem?.mp hbucket
    exact ⟨(bucket, i), List.mem_zipIdx_iff_getElem?.mpr hget, mem_bucketOffers.mpr hq⟩

end

end OpenFalcon.Hbs

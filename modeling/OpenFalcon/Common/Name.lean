import OpenFalcon.Common.TagText

/-!
# The names of a series

A series is named by its endpoint, its metric and its tags.  `PK` joins the three by slashes,
and `PK2` joins the endpoint and the counter, which is the metric and the tags joined by a slash;
nothing is escaped.

The two joins agree for every order of the tags (`pk_eq_pk2`, `counter_congr`).  A join does not
say where its slashes are from: two series have one key exactly if they are the same, or one is
the other with a piece moved over a slash, from the counter to the endpoint or from the tags to
the metric (`pk_eq_pk_iff`).
-/

namespace OpenFalcon.Common

open Text

/-- `PK2`: the primary key of a counter. -/
def pk2 (endpoint counter : String) : String := endpoint ++ "/" ++ counter

variable {tags tags' : Tags}

theorem counter_of_nil (h : tags.entries = []) (metric : String) :
    counter metric tags = metric := by
  rw [counter, h]
  rfl

theorem counter_of_ne_nil (h : tags.entries ≠ []) (metric : String) :
    counter metric tags = metric ++ "/" ++ sortedTags tags := by
  rw [counter, if_neg (by simpa using h)]

/-- A slash in the metric is not told from the one before the tags. -/
theorem counter_slash (start rest : String) (tags : Tags) :
    counter (start ++ "/" ++ rest) tags = start ++ "/" ++ counter rest tags := by
  by_cases h : tags.entries = []
  · rw [counter_of_nil h, counter_of_nil h]
  · rw [counter_of_ne_nil h, counter_of_ne_nil h]
    simp only [String.append_assoc]

/-- **The two primary keys agree.** -/
theorem pk_eq_pk2 (endpoint metric : String) (tags : Tags) :
    pk endpoint metric tags = pk2 endpoint (counter metric tags) := by
  unfold pk pk2 counter
  split
  · rfl
  · simp only [String.append_assoc]

/-- **The counter does not depend on the order of the tags.** -/
theorem counter_congr (metric : String) (h : tags.entries.Perm tags'.entries) :
    counter metric tags = counter metric tags' := by
  by_cases hnil : tags.entries = []
  · have hnil' : tags'.entries = [] := List.nil_perm.mp (hnil ▸ h)
    rw [counter_of_nil hnil, counter_of_nil hnil']
  · have hnil' : tags'.entries ≠ [] := fun hnil' => hnil (List.perm_nil.mp (hnil' ▸ h))
    rw [counter_of_ne_nil hnil, counter_of_ne_nil hnil', sortedTags_congr h]

theorem pk_congr (endpoint metric : String) (h : tags.entries.Perm tags'.entries) :
    pk endpoint metric tags = pk endpoint metric tags' := by
  rw [pk_eq_pk2, pk_eq_pk2, counter_congr metric h]

/-! ## One text, two names -/

/-- The beginning of `b`, up to one of its slashes, moved to the end of `a`. -/
def Moves (a b a' b' : String) : Prop :=
  ∃ d, a' = a ++ "/" ++ d ∧ b = d ++ "/" ++ b'

theorem toList_slash (a b : String) : (a ++ "/" ++ b).toList = a.toList ++ '/' :: b.toList := by
  simp

theorem ne_slash (start rest : String) : start ≠ start ++ "/" ++ rest := by
  intro h
  have hlength := congrArg (fun s => s.toList.length) h
  simp only [toList_slash, List.length_append, List.length_cons] at hlength
  omega

theorem slash_eq_slash_iff {a b a' b' : String} :
    a ++ "/" ++ b = a' ++ "/" ++ b' ↔
      (a = a' ∧ b = b') ∨ Moves a b a' b' ∨ Moves a' b' a b := by
  have hmoves : ∀ {p q p' q' : String}, Moves p q p' q' ↔
      ∃ d, p'.toList = p.toList ++ '/' :: d ∧ q.toList = d ++ '/' :: q'.toList := by
    intro p q p' q'
    constructor
    · rintro ⟨d, rfl, rfl⟩
      exact ⟨d.toList, toList_slash p d, toList_slash d q'⟩
    · rintro ⟨d, hp, hq⟩
      refine ⟨String.ofList d, String.toList_inj.mp ?_, String.toList_inj.mp ?_⟩
      · rw [toList_slash, String.toList_ofList, hp]
      · rw [toList_slash, String.toList_ofList, hq]
  rw [← String.toList_inj, toList_slash, toList_slash, append_cons_eq_append_cons_iff,
    String.toList_inj, String.toList_inj, hmoves, hmoves]

/-- The beginning of the tags' text moved to the end of the metric; what is left are the tags of
the other name, if it has any. -/
def MovesTag (metric : String) (tags : Tags) (metric' : String) (tags' : Tags) : Prop :=
  tags.entries ≠ [] ∧ ∃ d, metric' = metric ++ "/" ++ d ∧ sortedTags tags = counter d tags'

variable {metric' metric endpoint' endpoint : String}

theorem counter_eq_iff_of_nil (h : tags.entries ≠ []) (h' : tags'.entries = []) :
    counter metric tags = counter metric' tags' ↔ MovesTag metric tags metric' tags' := by
  rw [counter_of_ne_nil h, counter_of_nil h']
  constructor
  · intro heq
    exact ⟨h, sortedTags tags, heq.symm, (counter_of_nil h' _).symm⟩
  · rintro ⟨-, d, rfl, htags⟩
    rw [htags, counter_of_nil h']

/-- **Two counters are one text** exactly if metric and tags are the same, or a piece of the
tags of one is in the metric of the other. -/
theorem counter_eq_counter_iff (hclean : CleanTags tags) (hclean' : CleanTags tags') :
    counter metric tags = counter metric' tags' ↔
      (metric = metric' ∧ tags.entries.Perm tags'.entries) ∨
        MovesTag metric tags metric' tags' ∨ MovesTag metric' tags' metric tags := by
  by_cases h : tags.entries = [] <;> by_cases h' : tags'.entries = []
  · rw [counter_of_nil h, counter_of_nil h']
    simp [MovesTag, h, h']
  · have hperm : ¬tags.entries.Perm tags'.entries := fun hp => h' (List.nil_perm.mp (h ▸ hp))
    have hmoves : ¬MovesTag metric tags metric' tags' := fun hm => hm.1 h
    rw [eq_comm, counter_eq_iff_of_nil h' h]
    simp [hperm, hmoves]
  · have hperm : ¬tags.entries.Perm tags'.entries := fun hp => h (List.perm_nil.mp (h' ▸ hp))
    have hmoves : ¬MovesTag metric' tags' metric tags := fun hm => hm.1 h'
    rw [counter_eq_iff_of_nil h h']
    simp [hperm, hmoves]
  · have htag : ∀ {p q : String} {t t' : Tags}, t.entries ≠ [] → t'.entries ≠ [] →
        (MovesTag p t q t' ↔ Moves p (sortedTags t) q (sortedTags t')) := by
      intro p q t t' ht ht'
      simp only [MovesTag, Moves, counter_of_ne_nil ht', ht, ne_eq, not_false_eq_true, true_and]
    have hperm : sortedTags tags = sortedTags tags' ↔ tags.entries.Perm tags'.entries :=
      ⟨perm_of_sortedTags_eq hclean hclean', sortedTags_congr⟩
    rw [counter_of_ne_nil h, counter_of_ne_nil h', slash_eq_slash_iff, hperm, htag h h',
      htag h' h]

/-- A name read as another name: the endpoint takes the beginning of the counter, or the metric
takes the beginning of the tags. -/
inductive Recut (endpoint metric : String) (tags : Tags) (endpoint' metric' : String)
    (tags' : Tags) : Prop where
  | endpoint (h : Moves endpoint (counter metric tags) endpoint' (counter metric' tags'))
  | metric (hendpoint : endpoint = endpoint') (h : MovesTag metric tags metric' tags')

/-- **Two series have one primary key** exactly if they are the same or one name is the other
recut. -/
theorem pk_eq_pk_iff (hclean : CleanTags tags) (hclean' : CleanTags tags') :
    pk endpoint metric tags = pk endpoint' metric' tags' ↔
      (endpoint = endpoint' ∧ metric = metric' ∧ tags.entries.Perm tags'.entries) ∨
        Recut endpoint metric tags endpoint' metric' tags' ∨
          Recut endpoint' metric' tags' endpoint metric tags := by
  rw [pk_eq_pk2, pk_eq_pk2, pk2, pk2, slash_eq_slash_iff, counter_eq_counter_iff hclean hclean']
  constructor
  · rintro (⟨rfl, ⟨rfl, hperm⟩ | hmoves | hmoves⟩ | hmoves | hmoves)
    · exact Or.inl ⟨rfl, rfl, hperm⟩
    · exact Or.inr (Or.inl (.metric rfl hmoves))
    · exact Or.inr (Or.inr (.metric rfl hmoves))
    · exact Or.inr (Or.inl (.endpoint hmoves))
    · exact Or.inr (Or.inr (.endpoint hmoves))
  · rintro (⟨rfl, rfl, hperm⟩ | (hmoves | ⟨rfl, hmoves⟩) | (hmoves | ⟨rfl, hmoves⟩))
    · exact Or.inl ⟨rfl, Or.inl ⟨rfl, hperm⟩⟩
    · exact Or.inr (Or.inl hmoves)
    · exact Or.inl ⟨rfl, Or.inr (Or.inl hmoves)⟩
    · exact Or.inr (Or.inr hmoves)
    · exact Or.inl ⟨rfl, Or.inr (Or.inr hmoves)⟩

/-- A name is not recut to one whose endpoint and metric have no slash. -/
theorem not_recut_of_notMem (hendpoint : '/' ∉ endpoint'.toList) (hmetric : '/' ∉ metric'.toList) :
    ¬Recut endpoint metric tags endpoint' metric' tags' := by
  rintro (⟨d, rfl, -⟩ | ⟨-, -, d, rfl, -⟩)
  · exact hendpoint (by simp)
  · exact hmetric (by simp)

end OpenFalcon.Common

import Mathlib

/-!
# Collecting into association lists

Five loops that programs over maps are made of, and what they leave.

* `groupBy key l` appends every entry of `l` that has a key to the list at its key; at a
  key the map has exactly the entries with that key, in order (`lookup_groupBy`), and all
  its lists together have each entry once (`perm_spread_groupBy`).
* `indexBy key val l` appends a value of every entry of `l` to the list at its key
  (`getD_lookup_indexBy`).
* `overrideAll m es` writes entries over a map, in whatever order they come; when they
  are the entries of a map, the order does not matter and theirs win
  (`lookup_overrideAll`).
* `contest keep m es` writes an entry over another one at its key only if the other is not
  kept; at a key the map has the winner of the values written there, in order
  (`lookup_contest`).
* `firstWins key seen l` drops every entry whose key was seen before; what is left has
  distinct keys, all the keys of `l`, and at each key its first entry (`mem_firstWins`).
-/

namespace Assoc

variable {α κ : Type*} [DecidableEq κ]

/-! ## Grouping -/

/-- Append `a` to the list at `k`. -/
def appendAt (m : AList fun _ : κ => List α) (k : κ) (a : α) : AList fun _ : κ => List α :=
  match m.lookup k with
  | some l => m.insert k (l ++ [a])
  | none => m.insert k [a]

/-- Collect the entries by their key; entries without a key are left out. -/
def groupBy (key : α → Option κ) (l : List α) : AList fun _ : κ => List α :=
  l.foldl (fun m a =>
    match key a with
    | some k => appendAt m k a
    | none => m) ∅

theorem lookup_appendAt (m : AList fun _ : κ => List α) (k k' : κ) (a : α) :
    (appendAt m k a).lookup k' =
      if k = k' then some ((m.lookup k).getD [] ++ [a]) else m.lookup k' := by
  rw [appendAt]
  by_cases hk : k = k'
  · subst hk
    rw [if_pos rfl]
    cases hm : m.lookup k with
    | none => exact AList.lookup_insert m
    | some l => exact AList.lookup_insert m
  · rw [if_neg hk]
    cases hm : m.lookup k with
    | none => exact AList.lookup_insert_ne (Ne.symm hk)
    | some l => exact AList.lookup_insert_ne (Ne.symm hk)

/-- **A group holds the entries with its key**, and there is no empty group. -/
theorem lookup_groupBy (key : α → Option κ) (l : List α) (k : κ) :
    (groupBy key l).lookup k =
      if l.filter (fun a => key a = some k) = [] then none
      else some (l.filter fun a => key a = some k) := by
  induction l using List.reverseRecOn with
  | nil => rfl
  | append_singleton l a ih =>
    rw [groupBy, List.foldl_append, List.foldl_cons, List.foldl_nil, ← groupBy,
      List.filter_append]
    by_cases hk : key a = some k
    · have hgroup : ((groupBy key l).lookup k).getD [] =
          l.filter fun b => key b = some k := by
        rw [ih]
        split_ifs with hnil
        · exact hnil.symm
        · rfl
      rw [List.filter_cons_of_pos (by simpa using hk), List.filter_nil, if_neg (by simp)]
      simp only [hk]
      rw [lookup_appendAt, if_pos rfl, hgroup]
    · rw [List.filter_cons_of_neg (by simpa using hk), List.filter_nil, List.append_nil, ← ih]
      cases hkey : key a with
      | none => rfl
      | some k' =>
        rw [hkey, Option.some_inj] at hk
        exact (lookup_appendAt _ _ _ _).trans (if_neg hk)

theorem getD_lookup_groupBy (key : α → Option κ) (l : List α) (k : κ) :
    ((groupBy key l).lookup k).getD [] = l.filter fun a => key a = some k := by
  rw [lookup_groupBy]
  split_ifs with hnil
  · exact hnil.symm
  · rfl

/-! ## All groups together -/

section

variable {β : Type*} (f : κ → α → β)

/-- Everything a map of lists holds, each entry taken with its key. -/
def spread (m : AList fun _ : κ => List α) : List β :=
  m.entries.flatMap fun e => e.2.map (f e.1)

/-- Appending adds one entry, and moves the list it is added to. -/
theorem perm_spread_appendAt (m : AList fun _ : κ => List α) (k : κ) (a : α) :
    (spread f (appendAt m k a)).Perm (f k a :: spread f m) := by
  unfold appendAt spread
  cases hm : m.lookup k with
  | none =>
    have hk : k ∉ m := AList.lookup_eq_none.mp hm
    rw [AList.entries_insert_of_notMem hk, List.flatMap_cons]
    exact List.Perm.refl _
  | some l =>
    have hk : k ∈ m.entries.keys := AList.mem_keys.mp (AList.lookup_isSome.mp (by rw [hm]; rfl))
    obtain ⟨l', before, after, -, hentries, herase⟩ := List.exists_of_kerase hk
    have hl : l' = l := by
      have hmem : (⟨k, l'⟩ : Σ _ : κ, List α) ∈ m.entries := by rw [hentries]; simp
      rw [← AList.mem_lookup_iff, hm] at hmem
      exact (Option.mem_some_iff.mp hmem).symm
    subst hl
    rw [AList.entries_insert, herase, hentries]
    simp only [List.flatMap_cons, List.flatMap_append, List.map_append, List.map_cons,
      List.map_nil]
    exact ((List.perm_append_singleton _ _).append_right _).trans
      ((List.perm_append_comm_assoc _ _ _).cons _)

/-- **Grouping neither loses nor doubles an entry with a key.** -/
theorem perm_spread_groupBy (key : α → Option κ) (l : List α) :
    (spread f (groupBy key l)).Perm (l.filterMap fun a => (key a).map fun k => f k a) := by
  induction l using List.reverseRecOn with
  | nil => exact List.Perm.refl _
  | append_singleton l a ih =>
    rw [groupBy, List.foldl_append, List.foldl_cons, List.foldl_nil, ← groupBy,
      List.filterMap_append]
    cases hkey : key a with
    | none => simpa [hkey] using ih
    | some k =>
      simp only [List.filterMap_cons, hkey, Option.map_some, List.filterMap_nil]
      exact (perm_spread_appendAt f _ k a).trans
        ((ih.cons _).trans (List.perm_append_singleton _ _).symm)

omit [DecidableEq κ] in
/-- An entry more adds a value to a `filterMap` exactly if it is the value of the entry. -/
theorem perm_cons_filterMap_iff (g : α → Option β) (before after : List α) (a : α) (b : β) :
    ((before ++ a :: after).filterMap g).Perm (b :: (before ++ after).filterMap g) ↔
      g a = some b := by
  rw [List.filterMap_append, List.filterMap_cons, List.filterMap_append]
  cases hga : g a with
  | none =>
    refine iff_of_false (fun hperm => ?_) (by simp)
    have hlength := hperm.length_eq
    simp only [List.length_append, List.length_cons] at hlength
    omega
  | some c =>
    rw [List.perm_middle.congr_left, Option.some_inj, ← Multiset.coe_eq_coe, ← Multiset.cons_coe,
      ← Multiset.cons_coe, Multiset.cons_inj_left]

end

/-! ## Indexing -/

section

variable {β : Type*} {l : List α} {key : α → κ} {val : α → β} {b : β}

/-- Append the value of every entry to the list at its key. -/
def indexBy (key : α → κ) (val : α → β) (l : List α) : AList fun _ : κ => List β :=
  l.foldl (fun m a => appendAt m (key a) (val a)) ∅

/-- **The index holds the values of the entries with a key**, in their order. -/
theorem getD_lookup_indexBy (key : α → κ) (val : α → β) (l : List α) (k : κ) :
    ((indexBy key val l).lookup k).getD [] = (l.filter fun a => key a = k).map val := by
  induction l using List.reverseRecOn with
  | nil => rfl
  | append_singleton l a ih =>
    rw [indexBy, List.foldl_append, List.foldl_cons, List.foldl_nil, ← indexBy, lookup_appendAt,
      List.filter_append, List.map_append]
    by_cases hk : key a = k
    · rw [if_pos hk, List.filter_cons_of_pos (by simpa using hk), hk, ih]
      rfl
    · rw [if_neg hk, List.filter_cons_of_neg (by simpa using hk), ih]
      exact (List.append_nil _).symm

theorem mem_of_lookup_indexBy {k : κ} {vs : List β} (h : (indexBy key val l).lookup k = some vs) :
    b ∈ vs ↔ ∃ a ∈ l, key a = k ∧ val a = b := by
  have hvs := getD_lookup_indexBy key val l k
  rw [h, Option.getD_some] at hvs
  simp [hvs, and_assoc]

theorem exists_lookup_indexBy (key : α → κ) (val : α → β) {a : α} (ha : a ∈ l) :
    ∃ vs, (indexBy key val l).lookup (key a) = some vs ∧ val a ∈ vs := by
  have hmem : val a ∈ ((indexBy key val l).lookup (key a)).getD [] := by
    rw [getD_lookup_indexBy]
    exact List.mem_map_of_mem (List.mem_filter.mpr ⟨ha, decide_eq_true rfl⟩)
  cases hlookup : (indexBy key val l).lookup (key a) with
  | none =>
    rw [hlookup] at hmem
    exact absurd hmem List.not_mem_nil
  | some vs =>
    rw [hlookup] at hmem
    exact ⟨vs, rfl, hmem⟩

/-- **Indexing neither loses nor doubles a value.** -/
theorem perm_spread_indexBy {γ : Type*} (f : κ → β → γ) (key : α → κ) (val : α → β)
    (l : List α) : (spread f (indexBy key val l)).Perm (l.map fun a => f (key a) (val a)) := by
  induction l using List.reverseRecOn with
  | nil => exact List.Perm.refl _
  | append_singleton l a ih =>
    rw [indexBy, List.foldl_append, List.foldl_cons, List.foldl_nil, ← indexBy, List.map_append]
    exact (perm_spread_appendAt f _ _ _).trans
      ((ih.cons _).trans (List.perm_append_singleton _ _).symm)

theorem mem_entries_indexBy :
    b ∈ (indexBy key val l).entries.flatMap Sigma.snd ↔ b ∈ l.map val := by
  have hspread : (indexBy key val l).entries.flatMap Sigma.snd =
      spread (fun _ b => b) (indexBy key val l) := by
    simp [spread]
  rw [hspread, (perm_spread_indexBy _ key val l).mem_iff]

end

/-! ## Overriding -/

section

variable {V : Type*} {es : List (Σ _ : κ, V)} {m : AList fun _ : κ => V} {k : κ} {v : V}

/-- Write entries over a map, one after the other. -/
def overrideAll (m : AList fun _ : κ => V) (es : List (Σ _ : κ, V)) : AList fun _ : κ => V :=
  es.foldl (fun m e => m.insert e.1 e.2) m

theorem mem_overrideAll : k ∈ overrideAll m es ↔ k ∈ m ∨ ∃ e ∈ es, e.1 = k := by
  induction es generalizing m with
  | nil => simp [overrideAll]
  | cons e es ih =>
    rw [overrideAll, List.foldl_cons, ← overrideAll, ih, AList.mem_insert, List.exists_mem_cons_iff,
      or_assoc, or_left_comm, eq_comm]

/-- **The last entry written at a key wins**, over what was there. -/
theorem lookup_overrideAll_reverse (m : AList fun _ : κ => V) (es : List (Σ _ : κ, V)) (k : κ) :
    (overrideAll m es).lookup k = (es.reverse.dlookup k).or (m.lookup k) := by
  induction es using List.reverseRecOn with
  | nil => rfl
  | append_singleton es e ih =>
    obtain ⟨k', v⟩ := e
    rw [overrideAll, List.foldl_append, List.foldl_cons, List.foldl_nil, ← overrideAll,
      List.reverse_append, List.reverse_singleton, List.singleton_append]
    by_cases hk : k = k'
    · subst hk
      rw [AList.lookup_insert, List.dlookup_cons_eq, Option.some_or]
    · rw [AList.lookup_insert_ne hk, List.dlookup_cons_ne _ _ hk, ih]

/-- What is found was written, or it was there and nothing was written over it. -/
theorem lookup_overrideAll_cases (h : (overrideAll m es).lookup k = some v) :
    ⟨k, v⟩ ∈ es ∨ (∀ e ∈ es, e.1 ≠ k) ∧ m.lookup k = some v := by
  rw [lookup_overrideAll_reverse] at h
  cases hes : es.reverse.dlookup k with
  | some w =>
    rw [hes, Option.some_or, Option.some_inj] at h
    exact Or.inl (h ▸ List.mem_reverse.mp (List.of_mem_dlookup hes))
  | none =>
    rw [hes, Option.none_or] at h
    refine Or.inr ⟨fun e he hk => List.dlookup_eq_none.mp hes ?_, h⟩
    exact hk ▸ List.mem_keys_of_mem (List.mem_reverse.mpr he)

theorem exists_lookup_overrideAll (m : AList fun _ : κ => V) {e : Σ _ : κ, V} (he : e ∈ es) :
    ∃ v, (overrideAll m es).lookup e.1 = some v ∧ ⟨e.1, v⟩ ∈ es := by
  obtain ⟨v, hv⟩ := Option.isSome_iff_exists.mp
    (AList.lookup_isSome.mpr (mem_overrideAll.mpr (Or.inr ⟨e, he, rfl⟩)))
  rcases lookup_overrideAll_cases hv with hmem | ⟨hnone, -⟩
  · exact ⟨v, hv, hmem⟩
  · exact absurd rfl (hnone e he)

theorem mem_of_lookup_overrideAll (h : (overrideAll ∅ es).lookup k = some v) : ⟨k, v⟩ ∈ es := by
  rcases lookup_overrideAll_cases h with hmem | ⟨-, hempty⟩
  · exact hmem
  · cases hempty

theorem lookup_overrideAll_of_nodupKeys (m : AList fun _ : κ => V) (hes : es.NodupKeys) (k : κ) :
    (overrideAll m es).lookup k = (es.dlookup k).or (m.lookup k) := by
  have hperm := es.reverse_perm
  rw [lookup_overrideAll_reverse, List.perm_dlookup k ((List.perm_nodupKeys hperm).mpr hes) hperm]

/-- **The entries of a map, in any order, win over what was there.** -/
theorem lookup_overrideAll (m m' : AList fun _ : κ => V) (hes : es.Perm m'.entries) (k : κ) :
    (overrideAll m es).lookup k = (m'.lookup k).or (m.lookup k) := by
  have hnodup : es.NodupKeys := (List.perm_nodupKeys hes).mpr m'.nodupKeys
  rw [lookup_overrideAll_of_nodupKeys m hnodup, List.perm_dlookup k hnodup hes]
  rfl

end

/-! ## Contests -/

section

variable {V : Type*} (keep : V → V → Bool) {v : V}

/-- Of an old and a new value, the old one if it is to be kept. -/
def win (old new : V) : V := if keep old new then old else new

/-- Write a value at a key, unless the one that is there is kept. -/
def contestAt (m : AList fun _ : κ => V) (e : Σ _ : κ, V) : AList fun _ : κ => V :=
  match m.lookup e.1 with
  | none => m.insert e.1 e.2
  | some old => if keep old e.2 then m else m.insert e.1 e.2

/-- Write values, one after the other. -/
def contest (m : AList fun _ : κ => V) (es : List (Σ _ : κ, V)) : AList fun _ : κ => V :=
  es.foldl (contestAt keep) m

theorem lookup_contestAt (m : AList fun _ : κ => V) (e : Σ _ : κ, V) (k : κ) :
    (contestAt keep m e).lookup k =
      if e.1 = k then some ((m.lookup k).elim e.2 fun old => win keep old e.2)
      else m.lookup k := by
  unfold contestAt
  split_ifs with hk
  · subst hk
    cases hm : m.lookup e.1 with
    | none => exact AList.lookup_insert m
    | some old =>
      show (if keep old e.2 then m else m.insert e.1 e.2).lookup e.1 = some (win keep old e.2)
      unfold win
      split_ifs with hkeep
      · exact hm
      · exact AList.lookup_insert m
  · cases hm : m.lookup e.1 with
    | none => exact AList.lookup_insert_ne (Ne.symm hk)
    | some old =>
      show (if keep old e.2 then m else m.insert e.1 e.2).lookup k = m.lookup k
      split_ifs with hkeep
      · rfl
      · exact AList.lookup_insert_ne (Ne.symm hk)

/-- The values that are written at a key. -/
def valuesAt (k : κ) (es : List (Σ _ : κ, V)) : List V :=
  (es.filter fun e => e.1 = k).map Sigma.snd

theorem mem_valuesAt {k : κ} {es : List (Σ _ : κ, V)} : v ∈ valuesAt k es ↔ ⟨k, v⟩ ∈ es := by
  unfold valuesAt
  constructor
  · intro h
    obtain ⟨⟨k', v'⟩, he, rfl⟩ := List.mem_map.mp h
    obtain ⟨hmem, hk⟩ := List.mem_filter.mp he
    obtain rfl : k' = k := of_decide_eq_true hk
    exact hmem
  · intro h
    exact List.mem_map.mpr ⟨⟨k, v⟩, List.mem_filter.mpr ⟨h, decide_eq_true rfl⟩, rfl⟩

theorem valuesAt_concat (k : κ) (es : List (Σ _ : κ, V)) (e : Σ _ : κ, V) :
    valuesAt k (es ++ [e]) = if e.1 = k then valuesAt k es ++ [e.2] else valuesAt k es := by
  rw [valuesAt, List.filter_append, List.map_append]
  split_ifs with hk
  · rw [List.filter_cons_of_pos (by simpa using hk)]
    rfl
  · rw [List.filter_cons_of_neg (by simpa using hk), List.filter_nil, List.map_nil, List.append_nil]
    rfl

/-- The winner of values, in order. -/
def winner : List V → Option V
  | [] => none
  | v :: vs => some (vs.foldl (win keep) v)

omit [DecidableEq κ] in
theorem winner_concat (vs : List V) (v : V) :
    winner keep (vs ++ [v]) = some ((winner keep vs).elim v fun old => win keep old v) := by
  cases vs with
  | nil => rfl
  | cons w vs =>
    show some ((vs ++ [v]).foldl (win keep) w) = _
    rw [List.foldl_append]
    rfl

theorem mem_of_winner {vs : List V} (h : winner keep vs = some v) : v ∈ vs := by
  induction vs using List.reverseRecOn generalizing v with
  | nil => cases h
  | append_singleton vs w ih =>
    rw [winner_concat] at h
    obtain rfl := Option.some.inj h
    cases hold : winner keep vs with
    | none => exact List.mem_append_right vs List.mem_cons_self
    | some old =>
      show win keep old w ∈ vs ++ [w]
      unfold win
      split_ifs
      · exact List.mem_append_left [w] (ih hold)
      · exact List.mem_append_right vs List.mem_cons_self

/-- **A contest leaves the winner of the values written at a key.** -/
theorem lookup_contest (es : List (Σ _ : κ, V)) (k : κ) :
    (contest keep ∅ es).lookup k = winner keep (valuesAt k es) := by
  induction es using List.reverseRecOn with
  | nil => rfl
  | append_singleton es e ih =>
    rw [contest, List.foldl_append, List.foldl_cons, List.foldl_nil, ← contest, lookup_contestAt,
      ih, valuesAt_concat]
    split_ifs
    · exact (winner_concat keep (valuesAt k es) e.2).symm
    · rfl

end

/-! ## First come, first served -/

variable (key : α → κ)

/-- Keep the first entry of every key not seen before. -/
def firstWins : List κ → List α → List α
  | _, [] => []
  | seen, a :: l =>
    if key a ∈ seen then firstWins seen l else a :: firstWins (key a :: seen) l

variable {key}
variable {l : List α} {a : α}
variable {seen : List κ}

/-- **What is kept is the first entry of its key.** -/
theorem mem_firstWins :
    a ∈ firstWins key seen l ↔
      key a ∉ seen ∧ ∃ l₁ l₂, l = l₁ ++ a :: l₂ ∧ ∀ b ∈ l₁, key b ≠ key a := by
  induction l generalizing seen with
  | nil => simp [firstWins]
  | cons b l ih =>
    rw [firstWins]
    split_ifs with hb
    · rw [ih]
      refine and_congr_right fun ha => ⟨?_, ?_⟩
      · rintro ⟨l₁, l₂, rfl, hne⟩
        refine ⟨b :: l₁, l₂, rfl, ?_⟩
        intro c hc
        rcases List.mem_cons.mp hc with rfl | hc
        · exact fun heq => ha (heq ▸ hb)
        · exact hne c hc
      · rintro ⟨l₁, l₂, hsplit, hne⟩
        cases l₁ with
        | nil =>
          obtain ⟨rfl, -⟩ := List.cons.inj hsplit
          exact absurd hb ha
        | cons c l₁ =>
          obtain ⟨rfl, rfl⟩ := List.cons.inj hsplit
          exact ⟨l₁, l₂, rfl, fun d hd => hne d (List.mem_cons_of_mem _ hd)⟩
    · rw [List.mem_cons, ih]
      constructor
      · rintro (rfl | ⟨ha, l₁, l₂, rfl, hne⟩)
        · exact ⟨hb, [], l, rfl, by simp⟩
        · rw [List.mem_cons, not_or] at ha
          refine ⟨ha.2, b :: l₁, l₂, rfl, ?_⟩
          intro c hc
          rcases List.mem_cons.mp hc with rfl | hc
          · exact Ne.symm ha.1
          · exact hne c hc
      · rintro ⟨ha, l₁, l₂, hsplit, hne⟩
        cases l₁ with
        | nil => exact Or.inl (List.cons.inj hsplit).1.symm
        | cons c l₁ =>
          obtain ⟨rfl, rfl⟩ := List.cons.inj hsplit
          refine Or.inr ⟨?_, l₁, l₂, rfl, fun d hd => hne d (List.mem_cons_of_mem _ hd)⟩
          rw [List.mem_cons, not_or]
          exact ⟨Ne.symm (hne b List.mem_cons_self), ha⟩

theorem mem_of_mem_firstWins (h : a ∈ firstWins key seen l) : a ∈ l := by
  obtain ⟨-, l₁, l₂, rfl, -⟩ := mem_firstWins.mp h
  simp

/-- Every key is kept, by an entry of the beginning if the beginning has one. -/
theorem exists_mem_firstWins_append {l₁ l₂ : List α} (h : a ∈ l₁) :
    ∃ b ∈ l₁, b ∈ firstWins key [] (l₁ ++ l₂) ∧ key b = key a := by
  have hfound : (l₁.find? fun b => key b = key a).isSome := by
    rw [List.find?_isSome]
    exact ⟨a, h, by simp⟩
  obtain ⟨b, hb⟩ := Option.isSome_iff_exists.mp hfound
  obtain ⟨hkey, m₁, m₂, hsplit, hne⟩ := List.find?_eq_some_iff_append.mp hb
  simp only [decide_eq_true_eq] at hkey
  refine ⟨b, List.mem_of_find?_eq_some hb, mem_firstWins.mpr ?_, hkey⟩
  refine ⟨List.not_mem_nil, m₁, m₂ ++ l₂, by rw [hsplit]; simp, fun c hc => ?_⟩
  rw [hkey]
  simpa using hne c hc

theorem exists_mem_firstWins (h : a ∈ l) : ∃ b ∈ firstWins key [] l, key b = key a := by
  obtain ⟨b, -, hb, hkey⟩ : ∃ b ∈ l, b ∈ firstWins key [] (l ++ []) ∧ key b = key a :=
    exists_mem_firstWins_append h
  rw [List.append_nil] at hb
  exact ⟨b, hb, hkey⟩

/-- Where the key tells the entries apart, every entry is kept. -/
theorem mem_firstWins_of_injOn (hinj : ∀ a ∈ l, ∀ b ∈ l, key a = key b → a = b) :
    a ∈ firstWins key [] l ↔ a ∈ l := by
  refine ⟨mem_of_mem_firstWins, fun ha => ?_⟩
  obtain ⟨b, hb, hkey⟩ : ∃ b ∈ firstWins key [] l, key b = key a := exists_mem_firstWins ha
  rwa [← hinj b (mem_of_mem_firstWins hb) a ha hkey]

theorem nodup_map_firstWins (seen : List κ) (l : List α) :
    ((firstWins key seen l).map key).Nodup := by
  induction l generalizing seen with
  | nil => exact List.nodup_nil
  | cons a l ih =>
    rw [firstWins]
    split_ifs with ha
    · exact ih seen
    · rw [List.map_cons, List.nodup_cons]
      refine ⟨fun hmem => ?_, ih _⟩
      obtain ⟨b, hb, hkey⟩ := List.mem_map.mp hmem
      exact (mem_firstWins.mp hb).1 (by rw [hkey]; exact List.mem_cons_self)

end Assoc

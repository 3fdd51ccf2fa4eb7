import Mathlib

/-!
# A map spread over an array of maps

A map with many keys may be kept as an array of small ones, with a function `bucket` that
tells in which of them a key is.  `Buckets K V bucket` is such an array, and no key is in it
at the wrong place.

Looking up and changing a value in place are said by `lookup` alone (`lookup_modify`), as for
a single map.  What the array adds is that one can go through it bucket by bucket: every key
turns up in its own bucket and in no other (`mem_keys`), so that a walk through all of them
meets every key exactly once (`mem_walk`, `nodup_walk`), and changes in place do not disturb
that (`keys_modify`).  Every map can be spread (`lookup_ofMap`).
-/

namespace Assoc

variable {K V : Type*} [DecidableEq K]

/-! ## Changing one value of a map in place -/

/-- Change the value of a key, if it has one. -/
def change (m : AList fun _ : K => V) (k : K) (f : V → V) : AList fun _ : K => V :=
  match m.lookup k with
  | some v => m.replace k (f v)
  | none => m

variable (m : AList fun _ : K => V)

@[simp] theorem keys_change (k : K) (f : V → V) : (change m k f).keys = m.keys := by
  unfold change
  split
  · exact AList.keys_replace _ _ _
  · rfl

theorem dlookup_kreplace (k k' : K) (v : V) (l : List (Σ _ : K, V)) :
    (l.kreplace k v).dlookup k' =
      if k' = k then (l.dlookup k').map fun _ => v else l.dlookup k' := by
  induction l with
  | nil => simp [List.kreplace]
  | cons e l ih =>
    obtain ⟨a, w⟩ := e
    by_cases ha : k = a
    · subst ha
      have hhead : List.kreplace k v (⟨k, w⟩ :: l) = ⟨k, v⟩ :: l := by
        simp [List.kreplace]
      rw [hhead]
      by_cases hk : k' = k
      · subst hk
        simp
      · rw [if_neg hk, List.dlookup_cons_ne _ _ hk, List.dlookup_cons_ne _ _ hk]
    · have htail : List.kreplace k v (⟨a, w⟩ :: l) = ⟨a, w⟩ :: l.kreplace k v := by
        simp [List.kreplace, ha]
      rw [htail]
      by_cases hk : k' = a
      · subst hk
        rw [List.dlookup_cons_eq, List.dlookup_cons_eq, if_neg fun h => ha h.symm]
      · rw [List.dlookup_cons_ne _ _ hk, List.dlookup_cons_ne _ _ hk, ih]

theorem lookup_change (k k' : K) (f : V → V) :
    (change m k f).lookup k' = if k' = k then (m.lookup k').map f else m.lookup k' := by
  unfold change
  cases hv : m.lookup k with
  | none =>
    dsimp only
    split
    · rename_i hk
      rw [hk, hv]
      rfl
    · rfl
  | some v =>
    refine (dlookup_kreplace k k' (f v) m.entries).trans ?_
    split
    · rename_i hk
      subst hk
      have hold : m.entries.dlookup k' = some v := hv
      rw [hv, hold]
      rfl
    · rfl

/-! ## The array -/

variable {n : ℕ} {bucket : K → Fin n}

/-- An array of maps in which every key is in its own bucket. -/
structure Buckets (K V : Type*) {n : ℕ} (bucket : K → Fin n) where
  maps : Fin n → AList fun _ : K => V
  placed : ∀ i k, k ∈ maps i → bucket k = i

namespace Buckets

/-- The value of a key. -/
def lookup (b : Buckets K V bucket) (k : K) : Option V :=
  (b.maps (bucket k)).lookup k

/-- The keys of one bucket. -/
def keys (b : Buckets K V bucket) (i : Fin n) : List K :=
  (b.maps i).keys

/-- Change the value of a key, if it has one, in place. -/
def modify (b : Buckets K V bucket) (k : K) (f : V → V) : Buckets K V bucket where
  maps := Function.update b.maps (bucket k) (change (b.maps (bucket k)) k f)
  placed := by
    intro i k' hk'
    by_cases hi : i = bucket k
    · subst hi
      rw [Function.update_self, AList.mem_keys, keys_change] at hk'
      exact b.placed (bucket k) k' hk'
    · rw [Function.update_of_ne hi] at hk'
      exact b.placed i k' hk'

variable (b : Buckets K V bucket)

/-- **A change in place is a change of one value.** -/
theorem lookup_modify (k k' : K) (f : V → V) :
    (b.modify k f).lookup k' = if k' = k then (b.lookup k').map f else b.lookup k' := by
  unfold lookup modify
  dsimp only
  by_cases hi : bucket k' = bucket k
  · rw [hi, Function.update_self, lookup_change]
  · rw [Function.update_of_ne hi, if_neg fun hk => hi (congrArg bucket hk)]

theorem mem_keys (i : Fin n) (k : K) : k ∈ b.keys i ↔ (b.lookup k).isSome ∧ bucket k = i := by
  unfold keys lookup
  rw [AList.lookup_isSome, ← AList.mem_keys]
  constructor
  · intro hk
    have hi := b.placed i k hk
    rw [hi]
    exact ⟨hk, rfl⟩
  · rintro ⟨hk, rfl⟩
    exact hk

@[simp] theorem keys_modify (k : K) (f : V → V) (i : Fin n) : (b.modify k f).keys i = b.keys i := by
  unfold keys modify
  dsimp only
  by_cases hi : i = bucket k
  · rw [hi, Function.update_self, keys_change]
  · rw [Function.update_of_ne hi]

/-! ## Going through all buckets -/

/-- The keys, bucket by bucket. -/
def walk (b : Buckets K V bucket) : List K :=
  (List.finRange n).flatMap b.keys

@[simp] theorem mem_walk (k : K) : k ∈ b.walk ↔ (b.lookup k).isSome := by
  unfold walk
  rw [List.mem_flatMap]
  constructor
  · rintro ⟨i, -, hk⟩
    exact ((b.mem_keys i k).mp hk).1
  · intro hk
    exact ⟨bucket k, List.mem_finRange _, (b.mem_keys _ k).mpr ⟨hk, rfl⟩⟩

theorem nodup_walk : b.walk.Nodup := by
  refine List.nodup_flatMap.mpr ⟨fun i _ => (b.maps i).nodupKeys, ?_⟩
  refine (List.nodup_finRange n).imp fun {i j} hij => ?_
  -- A key that is in two buckets belongs to both.
  refine List.disjoint_left.mpr fun k hi hj => hij ?_
  rw [← ((b.mem_keys i k).mp hi).2, ((b.mem_keys j k).mp hj).2]

/-! ## Spreading a map -/

/-- A map, spread over the buckets. -/
def ofMap (bucket : K → Fin n) (m : AList fun _ : K => V) : Buckets K V bucket where
  maps := fun i =>
    ⟨m.entries.filter fun e => bucket e.1 = i, m.nodupKeys.sublist List.filter_sublist⟩
  placed := by
    intro i k hk
    obtain ⟨e, he, rfl⟩ := List.mem_map.mp hk
    simpa using (List.mem_filter.mp he).2

/-- **Spreading a map changes no value.** -/
theorem lookup_ofMap (bucket : K → Fin n) (m : AList fun _ : K => V) (k : K) :
    (ofMap bucket m).lookup k = m.lookup k := by
  refine Option.ext fun v => ?_
  have hspread : (ofMap bucket m).lookup k = some v ↔
      ⟨k, v⟩ ∈ m.entries.filter fun e => bucket e.1 = bucket k :=
    AList.mem_lookup_iff
  rw [hspread, List.mem_filter, decide_eq_true rfl, and_iff_left rfl]
  exact AList.mem_lookup_iff.symm

end Buckets

end Assoc

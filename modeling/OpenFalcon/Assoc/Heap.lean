import Mathlib

/-!
# A map of pointers

A map from keys to objects that others may hold on to: the objects are in a list, each at its
address, and the map has for every key the address of its object.  An object stays where it is
when its key is given another one or removed, and whoever knows the address can still change
it; the map does not see that.

`value` is what one finds through the map, and each operation is said by it: an update in
place reaches the key that has the object and no other (`value_update`), storing gives the key
a new object (`value_store`), and erasing forgets keys (`value_eraseAll`).
-/

namespace Assoc

/-- Objects at their addresses, and for each key the address of its object.  No two keys have
the same object. -/
structure Heap (K V : Type*) [DecidableEq K] where
  cells : List V
  addr : AList fun _ : K => ℕ
  addr_lt : ∀ k a, addr.lookup k = some a → a < cells.length
  addr_inj : ∀ k k' a, addr.lookup k = some a → addr.lookup k' = some a → k = k'

namespace Heap

variable {K V : Type*} [DecidableEq K] {h : Heap K V} {a : ℕ} {k : K}

/-- No objects. -/
def empty : Heap K V where
  cells := []
  addr := ∅
  addr_lt := by simp
  addr_inj := by simp

/-- The object of a key. -/
def value (h : Heap K V) (k : K) : Option V :=
  (h.addr.lookup k).bind fun a => h.cells[a]?

@[simp] theorem value_empty (k : K) : (empty : Heap K V).value k = none := by
  simp [value, empty]

theorem value_eq_getElem? (ha : h.addr.lookup k = some a) : h.value k = h.cells[a]? := by
  rw [value, ha, Option.bind_some]

theorem value_eq_none (ha : h.addr.lookup k = none) : h.value k = none := by
  rw [value, ha, Option.bind_none]

theorem isSome_value (h : Heap K V) (ha : h.addr.lookup k = some a) : (h.value k).isSome := by
  rw [value_eq_getElem? ha]
  simpa using h.addr_lt k a ha

/-! ## Changing an object in place -/

/-- Change the object at an address. -/
def update (h : Heap K V) (a : ℕ) (f : V → V) : Heap K V where
  cells := h.cells.modify a f
  addr := h.addr
  addr_lt := fun k b hb => by
    rw [List.length_modify]
    exact h.addr_lt k b hb
  addr_inj := h.addr_inj

theorem value_update (h : Heap K V) (a : ℕ) (f : V → V) (k : K) :
    (h.update a f).value k =
      if h.addr.lookup k = some a then (h.value k).map f else h.value k := by
  unfold value update
  dsimp only
  cases hb : h.addr.lookup k with
  | none => simp
  | some b =>
    simp only [Option.bind_some, Option.some_inj, List.getElem?_modify]
    by_cases hab : a = b
    · simp [hab]
    · simp [hab, Ne.symm hab]

/-- The object of a key is changed for this key only. -/
theorem value_update_of_lookup (ha : h.addr.lookup k = some a) (f : V → V) (k' : K) :
    (h.update a f).value k' = if k' = k then (h.value k).map f else h.value k' := by
  rw [value_update]
  by_cases hk : k' = k
  · subst hk
    rw [if_pos ha, if_pos rfl]
  · rw [if_neg fun ha' => hk (h.addr_inj k' k a ha' ha), if_neg hk]

theorem value_update_const {v : V} (hv : h.cells[a]? = some v) (k : K) :
    (h.update a fun _ => v).value k = h.value k := by
  rw [value_update]
  split
  · rename_i ha
    rw [value_eq_getElem? ha, hv]
    rfl
  · rfl

/-! ## Storing a new object -/

/-- Give a key a new object. -/
def store (h : Heap K V) (k : K) (v : V) : Heap K V where
  cells := h.cells ++ [v]
  addr := h.addr.insert k h.cells.length
  addr_lt := fun k' a ha => by
    rw [List.length_append, List.length_singleton]
    by_cases hk : k' = k
    · subst hk
      rw [AList.lookup_insert, Option.some_inj] at ha
      omega
    · rw [AList.lookup_insert_ne hk] at ha
      have := h.addr_lt k' a ha
      omega
  addr_inj := fun k₁ k₂ a h₁ h₂ => by
    by_cases hk₁ : k₁ = k <;> by_cases hk₂ : k₂ = k
    · rw [hk₁, hk₂]
    · subst hk₁
      rw [AList.lookup_insert, Option.some_inj] at h₁
      rw [AList.lookup_insert_ne hk₂] at h₂
      have := h.addr_lt k₂ a h₂
      omega
    · subst hk₂
      rw [AList.lookup_insert, Option.some_inj] at h₂
      rw [AList.lookup_insert_ne hk₁] at h₁
      have := h.addr_lt k₁ a h₁
      omega
    · rw [AList.lookup_insert_ne hk₁] at h₁
      rw [AList.lookup_insert_ne hk₂] at h₂
      exact h.addr_inj k₁ k₂ a h₁ h₂

theorem value_store (h : Heap K V) (k k' : K) (v : V) :
    (h.store k v).value k' = if k' = k then some v else h.value k' := by
  unfold value store
  dsimp only
  by_cases hk : k' = k
  · subst hk
    simp
  · rw [if_neg hk, AList.lookup_insert_ne hk]
    cases ha : h.addr.lookup k' with
    | none => rfl
    | some a =>
      simp only [Option.bind_some]
      exact List.getElem?_append_left (h.addr_lt k' a ha)

/-! ## Forgetting keys -/

theorem lookup_foldl_erase (m : AList fun _ : K => ℕ) (ks : List K) (k : K) :
    (ks.foldl (fun m k => m.erase k) m).lookup k = if k ∈ ks then none else m.lookup k := by
  induction ks generalizing m with
  | nil => rfl
  | cons k' ks ih =>
    rw [List.foldl_cons, ih]
    by_cases hk : k = k'
    · subst hk
      simp
    · simp [hk, AList.lookup_erase_ne hk]

/-- Forget the objects of some keys, one after the other. -/
def eraseAll (h : Heap K V) (ks : List K) : Heap K V where
  cells := h.cells
  addr := ks.foldl (fun m k => m.erase k) h.addr
  addr_lt := fun k a ha => by
    rw [lookup_foldl_erase] at ha
    split at ha
    · cases ha
    · exact h.addr_lt k a ha
  addr_inj := fun k₁ k₂ a h₁ h₂ => by
    rw [lookup_foldl_erase] at h₁ h₂
    split at h₁
    · cases h₁
    · split at h₂
      · cases h₂
      · exact h.addr_inj k₁ k₂ a h₁ h₂

theorem value_eraseAll (h : Heap K V) (ks : List K) (k : K) :
    (h.eraseAll ks).value k = if k ∈ ks then none else h.value k := by
  unfold value eraseAll
  dsimp only
  rw [lookup_foldl_erase]
  split <;> rfl

end Heap

end Assoc

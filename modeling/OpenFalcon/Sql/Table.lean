import Mathlib

/-!
# Tables with an auto-increment key

A table keeps rows under ids it gives out itself: the next id is larger than all that are
there, and zero is none of them, which is how programs tell that a row was not found.  What
the statements of a program do to a table is said by what `find` gives afterwards
(`find_insert`, `find_delete`, `find_deleteWhere_eq_some_iff`, `find_update`).

`UniqueTable ρ col` is a table with a unique key on the column `col`: a row whose value of the
column is there already cannot be inserted (`insert?_eq_none_iff`), so two rows with the same
value are one (`UniqueTable.unique`).

Ids that a transaction used before it was rolled back are given out again, where a database
would leave them out; no row was ever seen under them.
-/

namespace Sql

variable {ρ κ : Type*}

/-- Rows by their ids, and the id of the next row. -/
structure Table (ρ : Type*) where
  rows : AList fun _ : ℕ => ρ
  next : ℕ
  next_pos : 0 < next
  fresh : ∀ id ∈ rows, 0 < id ∧ id < next

namespace Table

/-- The table without rows. -/
def empty : Table ρ := ⟨∅, 1, Nat.one_pos, fun _ h => absurd h (AList.notMem_empty _)⟩

variable (t : Table ρ) {id : ℕ} {r : ρ}

/-- `where id = ?`. -/
def find (id : ℕ) : Option ρ := t.rows.lookup id

/-- The row of a condition that comes first, with its id. -/
def findBy (p : ρ → Bool) : Option (ℕ × ρ) :=
  (t.rows.entries.find? fun e => p e.2).map fun e => (e.1, e.2)

/-- `insert`: the row gets the next id. -/
def insert (r : ρ) : Table ρ where
  rows := t.rows.insert t.next r
  next := t.next + 1
  next_pos := Nat.succ_pos _
  fresh id h := by
    rcases (AList.mem_insert t.rows).mp h with rfl | h
    · exact ⟨t.next_pos, Nat.lt_succ_self _⟩
    · exact ⟨(t.fresh id h).1, Nat.lt_succ_of_lt (t.fresh id h).2⟩

/-- `delete where id = ?`. -/
def delete (id : ℕ) : Table ρ where
  rows := t.rows.erase id
  next := t.next
  next_pos := t.next_pos
  fresh id' h := t.fresh id' ((AList.mem_erase ..).mp h).2

/-- `delete` with a condition on the columns. -/
def deleteWhere (p : ρ → Bool) : Table ρ where
  rows := ⟨t.rows.entries.filter fun e => !p e.2,
    List.NodupKeys.sublist List.filter_sublist t.rows.nodupKeys⟩
  next := t.next
  next_pos := t.next_pos
  fresh id h := by
    obtain ⟨e, he, rfl⟩ := List.mem_map.mp (AList.mem_keys.mp h)
    exact t.fresh e.1 (AList.mem_keys.mpr (List.mem_map_of_mem (List.mem_filter.mp he).1))

/-- `update where id = ?`. -/
def update (id : ℕ) (f : ρ → ρ) : Table ρ where
  rows := (t.rows.lookup id).elim t.rows fun r => t.rows.insert id (f r)
  next := t.next
  next_pos := t.next_pos
  fresh id' h := by
    cases hid : t.rows.lookup id with
    | none =>
      rw [hid] at h
      exact t.fresh id' h
    | some r =>
      rw [hid] at h
      rcases (AList.mem_insert t.rows).mp h with rfl | h
      · exact t.fresh _ (AList.lookup_isSome.mp (by rw [hid]; rfl))
      · exact t.fresh id' h

variable {t}
variable {p : ρ → Bool} {r' : ρ}

@[simp] theorem find_empty : (empty : Table ρ).find id = none := by
  rw [find, empty, AList.lookup_empty]

theorem pos_of_find (h : t.find id = some r) : 0 < id :=
  (t.fresh id (AList.lookup_isSome.mp (by rw [← find, h]; rfl))).1

theorem lt_next_of_find (h : t.find id = some r) : id < t.next :=
  (t.fresh id (AList.lookup_isSome.mp (by rw [← find, h]; rfl))).2

theorem find_zero : t.find 0 = none := by
  by_contra h
  obtain ⟨r, hr⟩ := Option.ne_none_iff_exists'.mp h
  exact absurd (pos_of_find hr) (lt_irrefl _)

theorem find_insert (r : ρ) (id : ℕ) :
    (t.insert r).find id = if id = t.next then some r else t.find id := by
  split_ifs with h
  · rw [h]
    exact AList.lookup_insert _
  · exact AList.lookup_insert_ne h

theorem find_insert_next (r : ρ) : (t.insert r).find t.next = some r := by
  rw [find_insert, if_pos rfl]

theorem find_insert_of_find (h : t.find id = some r') (r : ρ) : (t.insert r).find id = some r' := by
  rw [find_insert, if_neg (lt_next_of_find h).ne, h]

theorem eq_or_find_of_find_insert (h : (t.insert r).find id = some r') :
    id = t.next ∧ r' = r ∨ t.find id = some r' := by
  rw [find_insert] at h
  split_ifs at h with hid
  · exact .inl ⟨hid, (Option.some.inj h).symm⟩
  · exact .inr h

theorem find_delete (id id' : ℕ) :
    (t.delete id).find id' = if id' = id then none else t.find id' := by
  split_ifs with h
  · rw [h]
    exact AList.lookup_erase _ _
  · exact AList.lookup_erase_ne h

theorem find_deleteWhere_eq_some_iff (p : ρ → Bool) :
    (t.deleteWhere p).find id = some r ↔ t.find id = some r ∧ p r = false := by
  have hfilter : (t.deleteWhere p).find id = some r ↔
      (⟨id, r⟩ : Σ _ : ℕ, ρ) ∈ t.rows.entries.filter fun e => !p e.2 :=
    AList.mem_lookup_iff
  rw [hfilter, List.mem_filter, Bool.not_eq_true']
  exact and_congr_left fun _ => AList.mem_lookup_iff.symm

theorem find_update (id : ℕ) (f : ρ → ρ) (id' : ℕ) :
    (t.update id f).find id' = if id' = id then (t.find id).map f else t.find id' := by
  have hrows : (t.update id f).rows =
      (t.rows.lookup id).elim t.rows fun r => t.rows.insert id (f r) := rfl
  rw [find, hrows, find, find]
  cases hid : t.rows.lookup id with
  | none =>
    split_ifs with heq
    · rw [heq, Option.elim_none, hid]
      rfl
    · rfl
  | some r =>
    rw [Option.elim_some, Option.map_some]
    split_ifs with heq
    · rw [heq]
      exact AList.lookup_insert _
    · exact AList.lookup_insert_ne heq

theorem find_update_eq_some_iff {f : ρ → ρ} {id' : ℕ} :
    (t.update id f).find id' = some r ↔
      ∃ r₀, t.find id' = some r₀ ∧ (if id' = id then f r₀ else r₀) = r := by
  rw [find_update]
  split_ifs with h
  · rw [Option.map_eq_some_iff, h]
  · simp

theorem isSome_find_insert (r : ρ) (id : ℕ) :
    ((t.insert r).find id).isSome = true ↔ id = t.next ∨ (t.find id).isSome = true := by
  rw [find_insert]
  split_ifs with h <;> simp [h]

theorem isSome_find_delete (id id' : ℕ) :
    ((t.delete id).find id').isSome = true ↔ id' ≠ id ∧ (t.find id').isSome = true := by
  rw [find_delete]
  split_ifs with h <;> simp [h]

theorem isSome_find_update (id : ℕ) (f : ρ → ρ) (id' : ℕ) :
    ((t.update id f).find id').isSome = (t.find id').isSome := by
  rw [find_update]
  split_ifs with h
  · rw [Option.isSome_map, h]
  · rfl

theorem find_of_findBy (h : t.findBy p = some (id, r)) : t.find id = some r ∧ p r = true := by
  obtain ⟨e, he, heq⟩ := Option.map_eq_some_iff.mp h
  obtain ⟨rfl, rfl⟩ := Prod.mk.inj heq
  exact ⟨AList.mem_lookup_iff.mpr (List.mem_of_find?_eq_some he),
    List.find?_some (p := fun e : Σ _ : ℕ, ρ => p e.2) he⟩

theorem findBy_eq_none_iff : t.findBy p = none ↔ ∀ id r, t.find id = some r → p r = false := by
  rw [findBy, Option.map_eq_none_iff, List.find?_eq_none]
  constructor
  · intro h id r hr
    exact eq_false_of_ne_true (h ⟨id, r⟩ (AList.mem_lookup_iff.mp hr))
  · intro h e he
    rw [h e.1 e.2 (AList.mem_lookup_iff.mpr he)]
    exact Bool.false_ne_true

end Table

/-- A table with a unique key on a column. -/
structure UniqueTable (ρ : Type*) {κ : Type*} (col : ρ → κ) extends Table ρ where
  unique : ∀ id id' r r', toTable.find id = some r → toTable.find id' = some r' →
    col r = col r' → id = id'

namespace UniqueTable

variable {col : ρ → κ} [DecidableEq κ] (t : UniqueTable ρ col)

omit [DecidableEq κ] in
/-- The table without rows. -/
def empty : UniqueTable ρ col := ⟨Table.empty, fun _ _ _ _ h => by simp at h⟩

/-- `where col = ?`. -/
def findCol (k : κ) : Option (ℕ × ρ) := t.findBy fun r => col r = k

variable {t} {id : ℕ} {r : ρ} {k : κ}

/-- **At most one row has a value of the column.** -/
theorem findCol_eq_some_iff : t.findCol k = some (id, r) ↔ t.find id = some r ∧ col r = k := by
  constructor
  · intro h
    obtain ⟨hfind, hcol⟩ := Table.find_of_findBy h
    exact ⟨hfind, of_decide_eq_true hcol⟩
  · rintro ⟨hfind, hcol⟩
    cases h : t.findCol k with
    | none =>
      have hnone := Table.findBy_eq_none_iff.mp h id r hfind
      simp [hcol] at hnone
    | some p =>
      obtain ⟨id', r'⟩ := p
      obtain ⟨hfind', hcol'⟩ := Table.find_of_findBy h
      obtain rfl := t.unique id id' r r' hfind hfind' (hcol.trans (of_decide_eq_true hcol').symm)
      rw [hfind, Option.some_inj] at hfind'
      rw [hfind']

theorem findCol_eq_none_iff : t.findCol k = none ↔ ∀ id r, t.find id = some r → col r ≠ k := by
  rw [findCol, Table.findBy_eq_none_iff]
  simp

variable (t)

/-- `insert`, unless the value of the column is there. -/
def insert? (r : ρ) : Option (UniqueTable ρ col) :=
  if h : t.findCol (col r) = none then
    some ⟨t.insert r, by
      have hnone := findCol_eq_none_iff.mp h
      intro id id' r₁ r₂ h₁ h₂ hcol
      rcases Table.eq_or_find_of_find_insert h₁ with ⟨hid, rfl⟩ | hold₁
      · rcases Table.eq_or_find_of_find_insert h₂ with ⟨hid', rfl⟩ | hold₂
        · rw [hid, hid']
        · exact absurd hcol.symm (hnone _ _ hold₂)
      · rcases Table.eq_or_find_of_find_insert h₂ with ⟨-, rfl⟩ | hold₂
        · exact absurd hcol (hnone _ _ hold₁)
        · exact t.unique _ _ _ _ hold₁ hold₂ hcol⟩
  else none

variable {t} {t' : UniqueTable ρ col}

theorem insert?_eq_some (h : t.insert? r = some t') :
    t.findCol (col r) = none ∧ t'.toTable = t.toTable.insert r := by
  rw [insert?] at h
  split_ifs at h with hnone
  exact ⟨hnone, congrArg UniqueTable.toTable (Option.some.inj h).symm⟩

theorem insert?_eq_none_iff : t.insert? r = none ↔ t.findCol (col r) ≠ none := by
  rw [insert?]
  split_ifs with h
  · simp [h]
  · simp [h]

variable (t)

omit [DecidableEq κ] in
/-- `delete where id = ?`. -/
def delete (id : ℕ) : UniqueTable ρ col where
  toTable := t.toTable.delete id
  unique id₁ id₂ r₁ r₂ h₁ h₂ hcol := by
    rw [Table.find_delete] at h₁ h₂
    split_ifs at h₁ h₂
    exact t.unique _ _ _ _ h₁ h₂ hcol

omit [DecidableEq κ] in
/-- `update where id = ?`, of other columns than the unique one. -/
def modify (id : ℕ) (f : ρ → ρ) (hf : ∀ r, col (f r) = col r) : UniqueTable ρ col where
  toTable := t.toTable.update id f
  unique := by
    have hold : ∀ id' r', (t.toTable.update id f).find id' = some r' →
        ∃ r, t.find id' = some r ∧ col r = col r' := by
      intro id' r' h
      obtain ⟨r, hr, rfl⟩ := Table.find_update_eq_some_iff.mp h
      refine ⟨r, hr, ?_⟩
      split_ifs
      · exact (hf r).symm
      · rfl
    intro id₁ id₂ r₁ r₂ h₁ h₂ hcol
    obtain ⟨r₁', h₁', hcol₁⟩ := hold id₁ r₁ h₁
    obtain ⟨r₂', h₂', hcol₂⟩ := hold id₂ r₂ h₂
    exact t.unique _ _ _ _ h₁' h₂' (by rw [hcol₁, hcol₂, hcol])

/-- No other row has the value of the column that an update would write. -/
def canUpdate (id : ℕ) (f : ρ → ρ) : Bool :=
  (t.find id).all fun r => (t.findCol (col (f r))).all fun p => p.1 = id

/-- `update where id = ?`, unless another row has the new value of the column. -/
def update? (id : ℕ) (f : ρ → ρ) : Option (UniqueTable ρ col) :=
  if h : t.canUpdate id f then
    some ⟨t.toTable.update id f, by
      have hown : ∀ r, t.find id = some r → ∀ id' r', t.find id' = some r' →
          col r' = col (f r) → id' = id := by
        intro r hr id' r' hr' hcol
        rw [canUpdate, hr, Option.all_some, findCol_eq_some_iff.mpr ⟨hr', hcol⟩,
          Option.all_some] at h
        exact of_decide_eq_true h
      intro id₁ id₂ r₁ r₂ h₁ h₂ hcol
      rw [Table.find_update] at h₁ h₂
      split_ifs at h₁ h₂ with hid₁ hid₂ hid₂
      · rw [hid₁, hid₂]
      · obtain ⟨r, hr, rfl⟩ := Option.map_eq_some_iff.mp h₁
        rw [hid₁]
        exact (hown r hr id₂ r₂ h₂ hcol.symm).symm
      · obtain ⟨r, hr, rfl⟩ := Option.map_eq_some_iff.mp h₂
        rw [hid₂]
        exact hown r hr id₁ r₁ h₁ hcol
      · exact t.unique _ _ _ _ h₁ h₂ hcol⟩
  else none

variable {t} in
theorem update?_eq_some {f : ρ → ρ} (h : t.update? id f = some t') :
    t.canUpdate id f = true ∧ t'.toTable = t.toTable.update id f := by
  rw [update?] at h
  split_ifs at h with hcan
  exact ⟨hcan, congrArg UniqueTable.toTable (Option.some.inj h).symm⟩

end UniqueTable

end Sql

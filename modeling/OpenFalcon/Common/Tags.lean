import Mathlib.Data.List.AList
import Mathlib.Data.List.Sort
import Mathlib.Data.String.Basic

/-!
# Maps, tags and the names of a series

A Go map is an association list without repeated keys, in the order in which one
`range` over it happens to visit the keys.  Two such lists with the same entries
in another order are the same map, visited in another order.

`sortedTags`, `pk` and `counter` are `common/utils`: the canonical text of a tag
map, the primary key of a series and its counter name.
-/

namespace OpenFalcon

/-- A Go `map[K]V`, in some iteration order. -/
abbrev GoMap (K V : Type) := AList fun _ : K => V

variable {K V : Type} {m : GoMap K V}

/-- One `range` over a map: its entries, in some order. -/
structure Visit (m : GoMap K V) where
  entries : List (Σ _ : K, V)
  perm : entries.Perm m.entries

/-- The order a map is written in is one of them. -/
def Visit.asWritten (m : GoMap K V) : Visit m := ⟨m.entries, List.Perm.refl _⟩

variable [DecidableEq K]

theorem Visit.mem_entries (visit : Visit m) {e : Σ _ : K, V} :
    e ∈ visit.entries ↔ m.lookup e.1 = some e.2 :=
  visit.perm.mem_iff.trans AList.mem_lookup_iff.symm

/-- The values of a map are stored under their own keys. -/
def Keyed (key : V → K) (m : GoMap K V) : Prop :=
  ∀ k v, m.lookup k = some v → key v = k

theorem keyed_empty (key : V → K) : Keyed key ∅ := by
  intro k v h
  cases h

theorem Keyed.insert {key : V → K} (h : Keyed key m) (v : V) : Keyed key (m.insert (key v) v) := by
  intro k v' hv'
  by_cases hk : k = key v
  · subst hk
    rw [AList.lookup_insert, Option.some_inj] at hv'
    rw [← hv']
  · rw [AList.lookup_insert_ne hk] at hv'
    exact h k v' hv'

namespace Common

/-- `map[string]string`, the tags of an item. -/
abbrev Tags := GoMap String String

/-- `SortedTags`: `k=v` pairs in the order of the keys, joined by commas. -/
def sortedTags (tags : Tags) : String :=
  match tags.entries with
  | [] => ""
  | [⟨k, v⟩] => k ++ "=" ++ v
  | _ =>
    let keys := tags.keys.insertionSort (· ≤ ·)
    ",".intercalate (keys.map fun key => key ++ "=" ++ (tags.lookup key).getD "")

/-- `PK`: the primary key of a series. -/
def pk (endpoint metric : String) (tags : Tags) : String :=
  if tags.entries.isEmpty then endpoint ++ "/" ++ metric
  else endpoint ++ "/" ++ metric ++ "/" ++ sortedTags tags

/-- `Counter`: the name of a series within its endpoint. -/
def counter (metric : String) (tags : Tags) : String :=
  if tags.entries.isEmpty then metric else metric ++ "/" ++ sortedTags tags

end Common

end OpenFalcon

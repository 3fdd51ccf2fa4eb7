import OpenFalcon.Graph.Disk
import OpenFalcon.Order.NewestFirst

/-!
# The cache of a graph node

`store/linkedlist.go` and `store/store.go`: every series has a list of the points that
are not in its RRD file yet, newest first, and a word of migration flags.  The source
spreads the keys over an array of maps by their hash; here the array is one map.

Each operation holds the lock of the map while it works, so each is one atomic step.
All of them but `pushFront` leave the keys of the map alone: they are `modify` of one
entry, and `lookup_modify` says what that does.
-/

namespace OpenFalcon.Graph

variable {F : Type}

/-! ## One series -/

/-- `SafeLinkedList`, its list `L` from front to back. -/
structure SafeLinkedList (F : Type) where
  flag : Flag
  l : List (GraphItem F)

namespace SafeLinkedList

/-- `PushFront`. -/
def pushFront (this : SafeLinkedList F) (v : GraphItem F) : SafeLinkedList F :=
  { this with l := v :: this.l }

/-- `Front`. -/
def front (this : SafeLinkedList F) : Option (GraphItem F) :=
  this.l.head?

/-- What `PopAll` and `FetchAll` return: the points from back to front. -/
def fetchAll (this : SafeLinkedList F) : List (GraphItem F) :=
  this.l.reverse

/-- What `PopAll` leaves. -/
def emptied (this : SafeLinkedList F) : SafeLinkedList F :=
  { this with l := [] }

/-- `PushAll`: the points go to the back, the last of them first. -/
def pushAll (this : SafeLinkedList F) (items : List (GraphItem F)) : SafeLinkedList F :=
  { this with l := items.foldr (fun item l => l ++ [item]) this.l }

theorem l_pushAll (this : SafeLinkedList F) (items : List (GraphItem F)) :
    (this.pushAll items).l = this.l ++ items.reverse := by
  show items.foldr (fun item l => l ++ [item]) this.l = _
  induction items with
  | nil => simp
  | cons item items ih => rw [List.foldr_cons, ih, List.reverse_cons, List.append_assoc]

end SafeLinkedList

/-! ## The map -/

/-- `GraphItemMap`. -/
abbrev GraphItemMap (F : Type) := GoMap String (SafeLinkedList F)

namespace GraphItemMap

/-- An operation on the list of one key, if there is one. -/
def modify (this : GraphItemMap F) (key : String)
    (f : SafeLinkedList F → SafeLinkedList F) : GraphItemMap F :=
  match this.lookup key with
  | some sl => this.insert key (f sl)
  | none => this

/-- The error of an operation on a key without a list. -/
def notExist (this : GraphItemMap F) (key : String) : Option Err :=
  if key ∈ this then none else some (.plain "not exist")

/-- `First`. -/
def first (this : GraphItemMap F) (key : String) : Option (GraphItem F) :=
  (this.lookup key).bind SafeLinkedList.front

/-- `PushAll`. -/
def pushAll (this : GraphItemMap F) (key : String) (items : List (GraphItem F)) :
    GraphItemMap F × Option Err :=
  (modify this key fun sl => sl.pushAll items, notExist this key)

/-- `GetFlag`. -/
def getFlag (this : GraphItemMap F) (key : String) : Except Err Flag :=
  match this.lookup key with
  | some sl => .ok sl.flag
  | none => .error (.plain "not exist")

/-- `SetFlag`. -/
def setFlag (this : GraphItemMap F) (key : String) (flag : Flag) : GraphItemMap F × Option Err :=
  (modify this key fun sl => { sl with flag := flag }, notExist this key)

/-- The cached points of a key, from back to front: `PopAll` and `FetchAll` return them. -/
def items (this : GraphItemMap F) (key : String) : List (GraphItem F) :=
  match this.lookup key with
  | some sl => sl.fetchAll
  | none => []

/-- `PopAll`. -/
def popAll (this : GraphItemMap F) (key : String) : List (GraphItem F) × GraphItemMap F :=
  (items this key, modify this key SafeLinkedList.emptied)

/-- The list `PushFront` makes for a key that has none. -/
def newList (migrateEnabled fileExists : Bool) (item : GraphItem F) : SafeLinkedList F :=
  { flag := if migrateEnabled ∧ fileExists = false then GRAPH_F_MISS else 0
    l := [item] }

/-- `PushFront`, as one step.  `fileExists` is the answer of `IsRrdFileExist` for the file
of the series. -/
def pushFront (this : GraphItemMap F) (key : String) (item : GraphItem F)
    (migrateEnabled fileExists : Bool) : GraphItemMap F :=
  match this.lookup key with
  | some sl => this.insert key (sl.pushFront item)
  | none => this.insert key (newList migrateEnabled fileExists item)

/-! ### What the operations leave -/

variable (this : GraphItemMap F)

theorem lookup_modify (key k : String) (f : SafeLinkedList F → SafeLinkedList F) :
    (modify this key f).lookup k = if k = key then (this.lookup k).map f else this.lookup k := by
  unfold modify
  by_cases hk : k = key
  · subst hk
    cases hsl : this.lookup k with
    | none => simp [hsl]
    | some sl => simp
  · rw [if_neg hk]
    cases hsl : this.lookup key with
    | none => rfl
    | some sl => exact AList.lookup_insert_ne hk

theorem lookup_pushFront (key k : String) (item : GraphItem F) (migrateEnabled fileExists : Bool) :
    (pushFront this key item migrateEnabled fileExists).lookup k =
      if k = key then
        some (((this.lookup k).map fun sl => sl.pushFront item).getD
          (newList migrateEnabled fileExists item))
      else this.lookup k := by
  unfold pushFront
  by_cases hk : k = key
  · subst hk
    cases hsl : this.lookup k with
    | none => simp
    | some sl => simp
  · rw [if_neg hk]
    cases hsl : this.lookup key with
    | none => exact AList.lookup_insert_ne hk
    | some sl => exact AList.lookup_insert_ne hk

end GraphItemMap

end OpenFalcon.Graph

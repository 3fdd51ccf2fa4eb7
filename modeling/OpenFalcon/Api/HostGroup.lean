import OpenFalcon.Api.Portal

/-!
# The hosts of a group

`CreateHostGroup`, `BindHostToHostGroup`, `PatchHostGroupHost` and `UnBindAHostToHostGroup` of
`modules/api/app/controller/host`.  Binding and patching work in a transaction, but not with
everything they do: a host is looked up, and whether it is bound already, outside of it, so they do
not see what the rounds before have written; and the unbinding of a list of hosts deletes outside
of it, so nothing takes it back.

The database may fail at any statement; `Faults` says at which.  A transaction's statements all
take effect when it is committed, and none when it is rolled back.
-/

namespace OpenFalcon.Api

open Sql

/-! ## The source -/

/-- `CreateHostGroup`. -/
def createHostGroup (user : Actor) (name : String) (p : Portal) : Portal × Reply :=
  match p.grp.insert? ⟨name, user.name, 1⟩ with
  | none => (p, .refused duplicateEntry)
  | some grp => ({ p with grp := grp }, .created p.grp.next)

/-- The statements that fail in one round of a loop over hosts: the look-up of the host, the
insertion of a host, the look-up of the binding, and the write to `grp_host`. -/
structure RoundFaults where
  lookup : Bool
  save : Bool
  check : Bool
  write : Bool

/-- The statements of a request that fail. -/
structure Faults where
  find : Bool
  clear : Bool
  round : ℕ → RoundFaults

/-- Nothing fails. -/
def RoundFaults.none : RoundFaults := ⟨false, false, false, false⟩

@[inherit_doc RoundFaults.none]
def Faults.none : Faults := ⟨false, false, fun _ => .none⟩

/-- The hosts of a request, each with what fails in its round. -/
def Faults.rounds (faults : Faults) (hosts : List String) : List (String × RoundFaults) :=
  hosts.mapIdx fun i host => (host, faults.round i)

/-- The tables a transaction of the host handlers writes, as it sees them. -/
structure Tx where
  host : UniqueTable Host Host.hostname
  grpHost : List GrpHost

/-- What a round did: the host, its id, and whether the binding was there. -/
structure Bound where
  hostname : String
  id : ℕ
  existed : Bool

/-- `Existing` of a host.  A look-up that fails has found nothing. -/
def existing (p : Portal) (r : String × RoundFaults) : Option ℕ :=
  if r.2.lookup then none else (p.host.findCol r.1).map Prod.fst

/-- The id of the host of a round, which is made if it is not found. -/
def hostId (p : Portal) (tx : Tx) (r : String × RoundFaults) : Except String (Tx × ℕ) :=
  match existing p r with
  | some id => .ok (tx, id)
  | none =>
    if r.2.save then .error databaseError
    else
      match tx.host.insert? ⟨r.1⟩ with
      | none => .error duplicateEntry
      | some host => .ok ({ tx with host := host }, tx.host.next)

/-- One round of the loop of `BindHostToHostGroup` or, if it `looks` whether the binding is there
already, of `bindHostToHostGroup`. -/
def bindRound (p : Portal) (gid : ℕ) (looks : Bool) (tx : Tx) (r : String × RoundFaults) :
    Except String (Tx × Bound) :=
  match hostId p tx r with
  | .error err => .error err
  | .ok (tx, id) =>
    if looks && !r.2.check && decide (⟨gid, id⟩ ∈ p.grpHost) then .ok (tx, ⟨r.1, id, true⟩)
    else if r.2.write then
      .error ("create grphost got error: " ++ databaseError ++ " , grp_id: " ++ toString gid ++
        ", host_id: " ++ toString id)
    else .ok ({ tx with grpHost := tx.grpHost ++ [⟨gid, id⟩] }, ⟨r.1, id, false⟩)

/-- The loop. -/
def bindRounds (p : Portal) (gid : ℕ) (looks : Bool) :
    Tx → List (String × RoundFaults) → Except String (Tx × List Bound)
  | tx, [] => .ok (tx, [])
  | tx, r :: rounds =>
    match bindRound p gid looks tx r with
    | .error err => .error err
    | .ok (tx, b) =>
      match bindRounds p gid looks tx rounds with
      | .error err => .error err
      | .ok (tx, bs) => .ok (tx, b :: bs)

/-- The group, if the user may change its hosts. -/
def editedGroup (accessControl : Bool) (fault : Bool) (user : Actor) (gid : ℕ) (p : Portal) :
    Except String HostGroup :=
  if fault then .error databaseError
  else
    match p.grp.find gid with
    | none => .error recordNotFound
    | some g =>
      if !user.isAdmin accessControl && g.createUser ≠ user.name then
        .error "You don't have permission."
      else .ok g

/-- A list as `%v` prints it. -/
def showList (texts : List String) : String := "[" ++ " ".intercalate texts ++ "]"

/-- `BindHostToHostGroup`. -/
def bindHostToHostGroup (accessControl : Bool) (faults : Faults) (user : Actor) (gid : ℕ)
    (hosts : List String) (p : Portal) : Portal × Reply :=
  match editedGroup accessControl faults.find user gid p with
  | .error err => (p, .refused err)
  | .ok _ =>
    if faults.clear then (p, .refused ("delete grp_host got error: " ++ databaseError))
    else
      match bindRounds p gid false ⟨p.host, p.grpHost.filter (·.grpId ≠ gid)⟩
          (faults.rounds hosts) with
      | .error err => (p, .refused err)
      | .ok (tx, bs) =>
        ({ p with host := tx.host, grpHost := tx.grpHost },
          .done (showList (bs.map fun b => toString b.id) ++ " bind to hostgroup: " ++
            toString gid))

/-- `bindHostToHostGroup`, the `add` of a patch. -/
def Patch.bindHostToHostGroup (faults : Faults) (gid : ℕ) (g : HostGroup) (hosts : List String)
    (p : Portal) : Portal × Reply :=
  match bindRounds p gid true ⟨p.host, p.grpHost⟩ (faults.rounds hosts) with
  | .error err => (p, .refused err)
  | .ok (tx, bs) =>
    ({ p with host := tx.host, grpHost := tx.grpHost },
      .done (showList ((bs.filter fun b => !b.existed).map Bound.hostname) ++
        " bind to hostgroup: " ++ g.name ++ ", " ++
        showList ((bs.filter Bound.existed).map Bound.hostname) ++ " have been exist"))

/-- The loop of `unbindHostToHostGroup`: the rows it leaves, whatever comes of it, and the hosts
it has unbound.  It deletes outside of its transaction. -/
def unbindRounds (p : Portal) (gid : ℕ) :
    List GrpHost → List (String × RoundFaults) → List GrpHost × Except String (List String)
  | rows, [] => (rows, .ok [])
  | rows, r :: rounds =>
    match existing p r with
    | none => unbindRounds p gid rows rounds
    | some id =>
      if r.2.write then (rows, .error databaseError)
      else
        let rest := unbindRounds p gid (rows.filter (· ≠ ⟨gid, id⟩)) rounds
        (rest.1, rest.2.map fun unbound => r.1 :: unbound)

/-- `unbindHostToHostGroup`, the `remove` of a patch. -/
def Patch.unbindHostToHostGroup (faults : Faults) (gid : ℕ) (g : HostGroup) (hosts : List String)
    (p : Portal) : Portal × Reply :=
  let rest := unbindRounds p gid p.grpHost (faults.rounds hosts)
  ({ p with grpHost := rest.1 },
    match rest.2 with
    | .error err => .refused err
    | .ok unbound => .done (showList unbound ++ " unbind to hostgroup: " ++ g.name))

/-- `PatchHostGroupHost`. -/
def patchHostGroupHost (accessControl : Bool) (faults : Faults) (user : Actor) (gid : ℕ)
    (action : String) (hosts : List String) (p : Portal) : Portal × Reply :=
  if action ≠ "add" ∧ action ≠ "remove" then (p, .refused "action must be add or remove")
  else
    match editedGroup accessControl faults.find user gid p with
    | .error err => (p, .refused err)
    | .ok g =>
      if action = "add" then Patch.bindHostToHostGroup faults gid g hosts p
      else Patch.unbindHostToHostGroup faults gid g hosts p

/-- The check of the handlers that leave an administrator unchecked: the error, if there is
one. -/
def checkOwner (accessControl : Bool) (user : Actor) (gid : ℕ) (p : Portal) : Option String :=
  if user.isAdmin accessControl then none
  else
    match p.grp.find gid with
    | none => some recordNotFound
    | some g => if g.createUser ≠ user.name then some "You don't have permission!" else none

/-- `UnBindAHostToHostGroup`. -/
def unBindAHostToHostGroup (accessControl : Bool) (user : Actor) (gid hid : ℕ) (p : Portal) :
    Portal × Reply :=
  match checkOwner accessControl user gid p with
  | some err => (p, .refused err)
  | none =>
    ({ p with grpHost := p.grpHost.filter (· ≠ ⟨gid, hid⟩) },
      .done ("unbind host:" ++ toString hid ++ " of hostgroup: " ++ toString gid))

/-! ## What the loops do -/

/-- The user may change the hosts of the group. -/
def mayEdit (accessControl : Bool) (user : Actor) (gid : ℕ) (p : Portal) : Bool :=
  (p.grp.find gid).any fun g => user.isAdmin accessControl || g.createUser = user.name

variable {accessControl fault : Bool} {user : Actor} {p : Portal} {gid : ℕ}

theorem editedGroup_eq_ok {g : HostGroup} (h : editedGroup accessControl fault user gid p = .ok g) :
    fault = false ∧ mayEdit accessControl user gid p = true := by
  rw [editedGroup] at h
  cases fault with
  | true => simp at h
  | false =>
    refine ⟨rfl, ?_⟩
    cases hg : p.grp.find gid with
    | none => simp [hg] at h
    | some g' => grind [mayEdit]

theorem editedGroup_eq_error {err : String}
    (h : editedGroup accessControl fault user gid p = .error err) :
    fault = true ∨ mayEdit accessControl user gid p = false := by
  rw [editedGroup] at h
  cases fault with
  | true => exact .inl rfl
  | false =>
    refine .inr ?_
    cases hg : p.grp.find gid with
    | none => simp [mayEdit, hg]
    | some g => grind [mayEdit]

theorem isSome_find_of_mayEdit (h : mayEdit accessControl user gid p = true) :
    (p.grp.find gid).isSome = true := by
  rw [mayEdit, Option.any_eq_true] at h
  obtain ⟨g, hg, -⟩ := h
  rw [hg]
  rfl

/-- Every row of one table is one of the other. -/
def Kept (t t' : UniqueTable Host Host.hostname) : Prop :=
  ∀ id r, t.find id = some r → t'.find id = some r

theorem Kept.refl (t : UniqueTable Host Host.hostname) : Kept t t := fun _ _ h => h

theorem Kept.trans {t₁ t₂ t₃ : UniqueTable Host Host.hostname} (h₁ : Kept t₁ t₂)
    (h₂ : Kept t₂ t₃) : Kept t₁ t₃ := fun id r h => h₂ id r (h₁ id r h)

section

variable {p : Portal} {gid id : ℕ} {looks : Bool} {tx tx' : Tx} {r : String × RoundFaults}
  {rounds : List (String × RoundFaults)} {b : Bound} {bs : List Bound}

theorem find_of_existing (h : existing p r = some id) : p.host.find id = some ⟨r.1⟩ := by
  rw [existing] at h
  split_ifs at h
  obtain ⟨⟨id', host⟩, hfind, rfl⟩ := Option.map_eq_some_iff.mp h
  obtain ⟨hfind, hname⟩ := UniqueTable.findCol_eq_some_iff.mp hfind
  rw [hfind, ← hname]

/-- **The id of a round is that of its host**, after the round. -/
theorem hostId_eq_ok (hkept : Kept p.host tx.host) (h : hostId p tx r = .ok (tx', id)) :
    tx'.host.find id = some ⟨r.1⟩ ∧ Kept tx.host tx'.host ∧
      (∀ id' host, tx'.host.find id' = some host →
        tx.host.find id' = some host ∨ host.hostname = r.1) ∧
      tx'.grpHost = tx.grpHost := by
  rw [hostId] at h
  cases hex : existing p r with
  | some id' =>
    simp only [hex, Except.ok.injEq, Prod.mk.injEq] at h
    obtain ⟨rfl, rfl⟩ := h
    exact ⟨hkept _ _ (find_of_existing hex), .refl _, fun _ _ h => .inl h, rfl⟩
  | none =>
    simp only [hex] at h
    split_ifs at h
    cases hins : tx.host.insert? ⟨r.1⟩ with
    | none => simp [hins] at h
    | some host =>
      simp only [hins, Except.ok.injEq, Prod.mk.injEq] at h
      obtain ⟨rfl, rfl⟩ := h
      obtain ⟨-, hins⟩ := UniqueTable.insert?_eq_some hins
      refine ⟨?_, fun id' r' hfind => ?_, fun id' host' hfind => ?_, rfl⟩
      · show host.toTable.find tx.host.next = _
        rw [hins, Table.find_insert_next]
      · show host.toTable.find id' = _
        rw [hins, Table.find_insert_of_find hfind]
      · have hfind : (tx.host.insert ⟨r.1⟩).find id' = some host' := hins ▸ hfind
        rcases Table.eq_or_find_of_find_insert hfind with ⟨-, rfl⟩ | hold
        · exact .inr rfl
        · exact .inl hold

/-- What a round does to the transaction. -/
structure RoundDone (p : Portal) (gid : ℕ) (looks : Bool) (tx tx' : Tx)
    (r : String × RoundFaults) (b : Bound) : Prop where
  hostname : b.hostname = r.1
  found : tx'.host.find b.id = some ⟨b.hostname⟩
  kept : Kept tx.host tx'.host
  only : ∀ id host, tx'.host.find id = some host →
    tx.host.find id = some host ∨ host.hostname = r.1
  existed : b.existed = (looks && !r.2.check && decide (⟨gid, b.id⟩ ∈ p.grpHost))
  grpHost : tx'.grpHost = tx.grpHost ++ if b.existed then [] else [⟨gid, b.id⟩]

theorem bindRound_eq_ok (hkept : Kept p.host tx.host)
    (h : bindRound p gid looks tx r = .ok (tx', b)) : RoundDone p gid looks tx tx' r b := by
  rw [bindRound] at h
  cases hid : hostId p tx r with
  | error err => simp [hid] at h
  | ok res =>
    obtain ⟨tx₁, id⟩ := res
    obtain ⟨hfound, hkept₁, honly, hrows⟩ := hostId_eq_ok hkept hid
    simp only [hid] at h
    split_ifs at h with hlook hwrite
    · simp only [Except.ok.injEq, Prod.mk.injEq] at h
      obtain ⟨rfl, rfl⟩ := h
      exact ⟨rfl, hfound, hkept₁, honly, hlook.symm, by simp [hrows]⟩
    · simp only [Except.ok.injEq, Prod.mk.injEq] at h
      obtain ⟨rfl, rfl⟩ := h
      exact ⟨rfl, hfound, hkept₁, honly, (eq_false_of_ne_true hlook).symm, by simp [hrows]⟩

/-- What the loop does to the transaction. -/
structure RoundsDone (p : Portal) (gid : ℕ) (looks : Bool) (tx tx' : Tx)
    (rounds : List (String × RoundFaults)) (bs : List Bound) : Prop where
  hostname : bs.map Bound.hostname = rounds.map Prod.fst
  found : ∀ b ∈ bs, tx'.host.find b.id = some ⟨b.hostname⟩
  kept : Kept tx.host tx'.host
  existed : ∀ b ∈ bs, ∃ r ∈ rounds,
    b.existed = (looks && !r.2.check && decide (⟨gid, b.id⟩ ∈ p.grpHost))
  grpHost : tx'.grpHost =
    tx.grpHost ++ (bs.filter fun b => !b.existed).map fun b => ⟨gid, b.id⟩

theorem bindRounds_eq_ok (hkept : Kept p.host tx.host)
    (h : bindRounds p gid looks tx rounds = .ok (tx', bs)) :
    RoundsDone p gid looks tx tx' rounds bs := by
  induction rounds generalizing tx tx' bs with
  | nil =>
    simp only [bindRounds, Except.ok.injEq, Prod.mk.injEq] at h
    obtain ⟨rfl, rfl⟩ := h
    exact ⟨rfl, by simp, .refl _, by simp, by simp⟩
  | cons r rounds ih =>
    rw [bindRounds] at h
    cases hround : bindRound p gid looks tx r with
    | error err => simp [hround] at h
    | ok res =>
      obtain ⟨tx₁, b⟩ := res
      have hdone := bindRound_eq_ok hkept hround
      simp only [hround] at h
      cases hrest : bindRounds p gid looks tx₁ rounds with
      | error err => simp [hrest] at h
      | ok res =>
        obtain ⟨tx₂, bs'⟩ := res
        simp only [hrest, Except.ok.injEq, Prod.mk.injEq] at h
        obtain ⟨rfl, rfl⟩ := h
        have hdones := ih (hkept.trans hdone.kept) hrest
        refine ⟨?_, ?_, hdone.kept.trans hdones.kept, ?_, ?_⟩
        · rw [List.map_cons, List.map_cons, hdone.hostname, hdones.hostname]
        · intro b' hb'
          rcases List.mem_cons.mp hb' with rfl | hb'
          · exact hdones.kept _ _ hdone.found
          · exact hdones.found b' hb'
        · intro b' hb'
          rcases List.mem_cons.mp hb' with rfl | hb'
          · exact ⟨r, List.mem_cons_self, hdone.existed⟩
          · obtain ⟨r', hr', hex⟩ := hdones.existed b' hb'
            exact ⟨r', List.mem_cons_of_mem _ hr', hex⟩
        · rw [hdones.grpHost, hdone.grpHost, List.append_assoc]
          cases hex : b.existed <;> simp [hex]

theorem RoundsDone.exists_mem_iff (h : RoundsDone p gid looks tx tx' rounds bs) {host : String} :
    (∃ b ∈ bs, b.hostname = host) ↔ host ∈ rounds.map Prod.fst := by
  rw [← h.hostname, List.mem_map]

theorem RoundsDone.id_eq_iff (h : RoundsDone p gid looks tx tx' rounds bs) {b b' : Bound}
    (hb : b ∈ bs) (hb' : b' ∈ bs) : b.id = b'.id ↔ b.hostname = b'.hostname := by
  constructor
  · intro hid
    have hfound := h.found b hb
    rw [hid, h.found b' hb', Option.some_inj] at hfound
    exact (congrArg Host.hostname hfound).symm
  · intro hname
    exact tx'.host.unique _ _ _ _ (h.found b hb) (h.found b' hb') hname

end

end OpenFalcon.Api

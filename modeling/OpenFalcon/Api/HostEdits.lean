import OpenFalcon.Api.HostGroup
import OpenFalcon.Machine.Run

/-!
# Edits of the hosts of a group

Two results on the requests that change which hosts are bound to a group.

`grp_host` stays free of repeated rows exactly as long as no request binds a host twice that is
in the table `host` (`grpHost_nodup_run_iff`).  The look-ups do not see what the earlier rounds of
the same request have written, so nothing keeps the second row out.  A host that is listed twice
and is not in the table makes the request fail, since the second round tries to insert it again.

A request applies all of its changes or none, whatever statements of it fail, with the exception
of a removal where a deletion fails after an earlier one has gone through, or where the look-up of
a host failed (`hostEdit_allOrNothing_iff`).
-/

namespace OpenFalcon.Api

open Sql Machine

/-! ## Requests -/

/-- An edit of the hosts of a group by a list of hosts. -/
inductive HostEdit where
  | bind (user : Actor) (gid : ℕ) (hosts : List String)
  | patch (user : Actor) (gid : ℕ) (action : String) (hosts : List String)

/-- What an edit does. -/
def HostEdit.run (accessControl : Bool) (faults : Faults) (p : Portal) : HostEdit → Portal × Reply
  | .bind user gid hosts => bindHostToHostGroup accessControl faults user gid hosts p
  | .patch user gid action hosts => patchHostGroupHost accessControl faults user gid action hosts p

/-- A request that changes the hosts of a group. -/
inductive HostCall where
  | edit (e : HostEdit)
  | unbind (user : Actor) (gid hid : ℕ)

/-- The tables after a request none of whose statements fails. -/
def hostStep (accessControl : Bool) (p : Portal) : HostCall → Portal
  | .edit e => (e.run accessControl .none p).1
  | .unbind user gid hid => (unBindAHostToHostGroup accessControl user gid hid p).1

/-! ## What the handlers can do -/

section

variable (accessControl : Bool) (faults : Faults) (user : Actor) (gid : ℕ) (action : String)
  (hosts : List String) (p : Portal)

/-- `BindHostToHostGroup` changes nothing and says so, or its loop goes through. -/
theorem bindHostToHostGroup_cases :
    (∃ err, bindHostToHostGroup accessControl faults user gid hosts p = (p, .refused err) ∧
        (faults.find = true ∨ mayEdit accessControl user gid p = false ∨ faults.clear = true ∨
          ∃ err', bindRounds p gid false ⟨p.host, p.grpHost.filter (·.grpId ≠ gid)⟩
            (faults.rounds hosts) = .error err')) ∨
      ∃ tx bs text, bindHostToHostGroup accessControl faults user gid hosts p =
          ({ p with host := tx.host, grpHost := tx.grpHost }, .done text) ∧
        mayEdit accessControl user gid p = true ∧
        bindRounds p gid false ⟨p.host, p.grpHost.filter (·.grpId ≠ gid)⟩
          (faults.rounds hosts) = .ok (tx, bs) := by
  rw [bindHostToHostGroup]
  cases hg : editedGroup accessControl faults.find user gid p with
  | error err =>
    refine .inl ⟨err, rfl, ?_⟩
    rcases editedGroup_eq_error hg with h | h
    · exact .inl h
    · exact .inr (.inl h)
  | ok g =>
    cases hclear : faults.clear with
    | true => exact .inl ⟨_, rfl, .inr (.inr (.inl rfl))⟩
    | false =>
      cases hloop : bindRounds p gid false ⟨p.host, p.grpHost.filter (·.grpId ≠ gid)⟩
          (faults.rounds hosts) with
      | error err => exact .inl ⟨err, rfl, .inr (.inr (.inr ⟨err, rfl⟩))⟩
      | ok res => exact .inr ⟨res.1, res.2, _, rfl, (editedGroup_eq_ok hg).2, rfl⟩

/-- `PatchHostGroupHost` changes nothing and says so, or it adds and its loop goes through, or it
removes. -/
theorem patchHostGroupHost_cases :
    (∃ err, patchHostGroupHost accessControl faults user gid action hosts p = (p, .refused err) ∧
        (faults.find = true ∨ mayEdit accessControl user gid p = false ∨
          (action ≠ "add" ∧ action ≠ "remove") ∨
          (action = "add" ∧ ∃ err', bindRounds p gid true ⟨p.host, p.grpHost⟩
            (faults.rounds hosts) = .error err'))) ∨
      (∃ tx bs text, patchHostGroupHost accessControl faults user gid action hosts p =
          ({ p with host := tx.host, grpHost := tx.grpHost }, .done text) ∧
        mayEdit accessControl user gid p = true ∧ action = "add" ∧
        bindRounds p gid true ⟨p.host, p.grpHost⟩ (faults.rounds hosts) = .ok (tx, bs)) ∨
      (faults.find = false ∧ mayEdit accessControl user gid p = true ∧ action = "remove" ∧
        ∃ g, patchHostGroupHost accessControl faults user gid action hosts p =
          Patch.unbindHostToHostGroup faults gid g hosts p) := by
  rw [patchHostGroupHost]
  by_cases haction : action ≠ "add" ∧ action ≠ "remove"
  · rw [if_pos haction]
    exact .inl ⟨_, rfl, .inr (.inr (.inl haction))⟩
  rw [if_neg haction]
  cases hg : editedGroup accessControl faults.find user gid p with
  | error err =>
    refine .inl ⟨err, rfl, ?_⟩
    rcases editedGroup_eq_error hg with h | h
    · exact .inl h
    · exact .inr (.inl h)
  | ok g =>
    obtain ⟨hfind, hmay⟩ := editedGroup_eq_ok hg
    by_cases hadd : action = "add"
    · simp only [if_pos hadd, Patch.bindHostToHostGroup]
      cases hloop : bindRounds p gid true ⟨p.host, p.grpHost⟩ (faults.rounds hosts) with
      | error err => exact .inl ⟨err, rfl, .inr (.inr (.inr ⟨hadd, err, rfl⟩))⟩
      | ok res => exact .inr (.inl ⟨res.1, res.2, _, rfl, hmay, hadd, rfl⟩)
    · have hremove : action = "remove" := by tauto
      simp only [if_neg hadd]
      exact .inr (.inr ⟨hfind, hmay, hremove, g, rfl⟩)

end

/-! ## Which hosts are bound -/

/-- The host is bound to the group. -/
def isBound (p : Portal) (gid : ℕ) (host : String) : Bool :=
  (p.host.findCol host).any fun e => decide (⟨gid, e.1⟩ ∈ p.grpHost)

/-- The hosts of a group, as `GetHostGroup` finds them by the rows of `grp_host`. -/
def groupHosts (p : Portal) (gid : ℕ) : List (Option Host) :=
  (p.grpHost.filter (·.grpId = gid)).map fun row => p.host.find row.hostId

variable {p : Portal} {gid : ℕ}

section Bound

variable {host : String}

theorem isBound_iff :
    isBound p gid host = true ↔ ∃ id, p.host.find id = some ⟨host⟩ ∧ ⟨gid, id⟩ ∈ p.grpHost := by
  rw [isBound, Option.any_eq_true]
  constructor
  · rintro ⟨⟨id, h⟩, hcol, hrow⟩
    obtain ⟨hfind, rfl⟩ := UniqueTable.findCol_eq_some_iff.mp hcol
    exact ⟨id, hfind, of_decide_eq_true hrow⟩
  · rintro ⟨id, hfind, hrow⟩
    exact ⟨(id, ⟨host⟩), UniqueTable.findCol_eq_some_iff.mpr ⟨hfind, rfl⟩, decide_eq_true hrow⟩

theorem mem_groupHosts {o : Option Host} :
    o ∈ groupHosts p gid ↔ ∃ id, ⟨gid, id⟩ ∈ p.grpHost ∧ p.host.find id = o := by
  simp only [groupHosts, List.mem_map, List.mem_filter, decide_eq_true_eq]
  constructor
  · rintro ⟨⟨_, id⟩, ⟨hrow, rfl⟩, rfl⟩
    exact ⟨id, hrow, rfl⟩
  · rintro ⟨id, hrow, rfl⟩
    exact ⟨⟨gid, id⟩, ⟨hrow, rfl⟩, rfl⟩

end Bound

variable {looks : Bool} {tx tx' : Tx} {hosts : List String} {rounds : List (String × RoundFaults)}
  {bs : List Bound} {faults : Faults} {r : String × RoundFaults}

section

theorem map_fst_rounds (faults : Faults) (hosts : List String) :
    (faults.rounds hosts).map Prod.fst = hosts := by
  refine List.ext_getElem (by simp [Faults.rounds]) fun i _ _ => ?_
  simp [Faults.rounds]

theorem mem_rounds_none (h : r ∈ Faults.none.rounds hosts) : r.2 = .none := by
  obtain ⟨i, hi, rfl⟩ := List.mem_mapIdx.mp h
  rfl

/-- The rows of the hosts that were bound: their ids are those of the requested hosts. -/
theorem RoundsDone.mem_rows_iff (h : RoundsDone p gid looks tx tx' rounds bs) {id : ℕ} :
    (∃ b ∈ bs, b.id = id) ↔ ∃ host ∈ rounds.map Prod.fst, tx'.host.find id = some ⟨host⟩ := by
  constructor
  · rintro ⟨b, hb, rfl⟩
    exact ⟨b.hostname, h.exists_mem_iff.mp ⟨b, hb, rfl⟩, h.found b hb⟩
  · rintro ⟨host, hhost, hfind⟩
    obtain ⟨b, hb, rfl⟩ := h.exists_mem_iff.mpr hhost
    exact ⟨b, hb, tx'.host.unique _ _ _ _ (h.found b hb) hfind rfl⟩

/-- A row after the loop was there before, or is of the group and of a host that is there. -/
theorem RoundsDone.mem_or_added (h : RoundsDone p gid looks tx tx' rounds bs) {row : GrpHost}
    (hrow : row ∈ tx'.grpHost) :
    row ∈ tx.grpHost ∨ row.grpId = gid ∧ ∃ host, tx'.host.find row.hostId = some host := by
  rw [h.grpHost, List.mem_append, List.mem_map] at hrow
  rcases hrow with hold | ⟨b, hb, rfl⟩
  · exact .inl hold
  · exact .inr ⟨rfl, _, h.found b (List.mem_of_mem_filter hb)⟩

theorem RoundsDone.grpHost_of_not_looks (h : RoundsDone p gid false tx tx' rounds bs) :
    tx'.grpHost = tx.grpHost ++ bs.map fun b => ⟨gid, b.id⟩ := by
  rw [h.grpHost, List.filter_eq_self.mpr]
  intro b hb
  obtain ⟨r, -, hex⟩ := h.existed b hb
  simp [hex]

/-- The host is in the table after a round if it was there before or is that of the round. -/
theorem RoundDone.findCol_ne_none_iff {b : Bound} (h : RoundDone p gid looks tx tx' r b)
    (host : String) : tx'.host.findCol host ≠ none ↔ tx.host.findCol host ≠ none ∨ host = r.1 := by
  simp only [Ne, UniqueTable.findCol_eq_none_iff, not_forall, not_not]
  constructor
  · rintro ⟨id, row, hfind, rfl⟩
    rcases h.only id row hfind with hold | hname
    · exact .inl ⟨id, row, hold, rfl⟩
    · exact .inr hname
  · rintro (⟨id, row, hfind, rfl⟩ | rfl)
    · exact ⟨id, row, h.kept id row hfind, rfl⟩
    · exact ⟨b.id, _, h.found, h.hostname⟩

/-- A round in which nothing fails is refused exactly if its host is in the table of the
transaction and not in the one the look-up reads. -/
theorem bindRound_eq_error_iff (hr : r.2 = .none) :
    (∃ err, bindRound p gid looks tx r = .error err) ↔
      p.host.findCol r.1 = none ∧ tx.host.findCol r.1 ≠ none := by
  have hwrite : (∃ err, bindRound p gid looks tx r = .error err) ↔
      ∃ err, hostId p tx r = .error err := by
    rw [bindRound]
    cases hid : hostId p tx r with
    | error err => simp
    | ok res =>
      simp only [hr, RoundFaults.none, Bool.false_eq_true, if_false, reduceCtorEq, exists_false,
        iff_false]
      split_ifs <;> simp
  rw [hwrite, hostId, existing, hr]
  simp only [RoundFaults.none, Bool.false_eq_true, if_false]
  cases hfind : p.host.findCol r.1 with
  | some e => simp
  | none =>
    simp only [Option.map_none, true_and]
    rw [← UniqueTable.insert?_eq_none_iff (r := (⟨r.1⟩ : Host))]
    cases tx.host.insert? ⟨r.1⟩ <;> simp

/-- A host that is absent and stands in the way, or is listed twice: the first of the list stands
in the way of those behind it. -/
theorem exists_twice_cons_iff {absent there : String → Prop} {first : String}
    (hfirst : ¬(absent first ∧ there first)) :
    (∃ host ∈ hosts, absent host ∧ ((there host ∨ host = first) ∨ 2 ≤ hosts.count host)) ↔
      ∃ host ∈ first :: hosts, absent host ∧ (there host ∨ 2 ≤ (first :: hosts).count host) := by
  constructor
  · rintro ⟨host, hmem, habsent, (hthere | rfl) | hcount⟩
    · exact ⟨host, List.mem_cons_of_mem _ hmem, habsent, .inl hthere⟩
    · refine ⟨host, List.mem_cons_self, habsent, .inr ?_⟩
      rw [List.count_cons_self]
      exact Nat.succ_le_succ (List.count_pos_iff.mpr hmem)
    · exact ⟨host, List.mem_cons_of_mem _ hmem, habsent,
        .inr (hcount.trans List.count_le_count_cons)⟩
  · rintro ⟨host, hmem, habsent, hthere | hcount⟩
    · rcases List.mem_cons.mp hmem with rfl | hmem
      · exact absurd ⟨habsent, hthere⟩ hfirst
      · exact ⟨host, hmem, habsent, .inl (.inl hthere)⟩
    · by_cases hhost : host = first
      · rw [hhost, List.count_cons_self] at hcount
        exact ⟨first, List.count_pos_iff.mp (by omega), hhost ▸ habsent, .inl (.inr rfl)⟩
      · rw [List.count_cons_of_ne (Ne.symm hhost)] at hcount
        exact ⟨host, List.count_pos_iff.mp (by omega), habsent, .inr hcount⟩

/-- A loop in which nothing fails is refused exactly if a host that is not in the table the
look-ups read is listed twice, or is in the table of the transaction. -/
theorem bindRounds_eq_error_iff (hrounds : ∀ r ∈ rounds, r.2 = .none)
    (hkept : Kept p.host tx.host) :
    (∃ err, bindRounds p gid looks tx rounds = .error err) ↔
      ∃ host ∈ rounds.map Prod.fst, p.host.findCol host = none ∧
        (tx.host.findCol host ≠ none ∨ 2 ≤ (rounds.map Prod.fst).count host) := by
  induction rounds generalizing tx with
  | nil => simp [bindRounds]
  | cons r rounds ih =>
    have hround : (∃ err, bindRound p gid looks tx r = .error err) ↔ _ :=
      bindRound_eq_error_iff (hrounds r List.mem_cons_self)
    rw [List.map_cons]
    cases hb : bindRound p gid looks tx r with
    | error err =>
      have hhost := hround.mp ⟨err, hb⟩
      exact iff_of_true ⟨err, by rw [bindRounds, hb]⟩
        ⟨r.1, List.mem_cons_self, hhost.1, .inl hhost.2⟩
    | ok res =>
      obtain ⟨tx₁, b⟩ := res
      have hdone := bindRound_eq_ok hkept hb
      have hnot : ¬(p.host.findCol r.1 = none ∧ tx.host.findCol r.1 ≠ none) := by
        rw [← hround, hb]
        simp
      have hrest : (∃ err, bindRounds p gid looks tx₁ rounds = .error err) ↔ _ :=
        ih (fun r' hr' => hrounds r' (List.mem_cons_of_mem _ hr')) (hkept.trans hdone.kept)
      have hloop : (∃ err, bindRounds p gid looks tx (r :: rounds) = .error err) ↔
          ∃ err, bindRounds p gid looks tx₁ rounds = .error err := by
        rw [bindRounds, hb]
        cases hrest : bindRounds p gid looks tx₁ rounds <;> simp [hrest]
      rw [hloop, hrest]
      -- the host of this round is in the table of the transaction for the rounds to come
      simp only [hdone.findCol_ne_none_iff]
      exact exists_twice_cons_iff hnot

theorem RoundsDone.nodup_rows_iff (h : RoundsDone p gid looks tx tx' rounds bs)
    {bs' : List Bound} (hsub : bs' ⊆ bs) :
    (bs'.map fun b => (⟨gid, b.id⟩ : GrpHost)).Nodup ↔ (bs'.map Bound.hostname).Nodup := by
  rw [List.Nodup, List.pairwise_map, List.Nodup, List.pairwise_map]
  refine List.Pairwise.iff_of_mem fun {b b'} hb hb' => not_congr ?_
  rw [← h.id_eq_iff (hsub hb) (hsub hb'), GrpHost.mk.injEq]
  exact and_iff_right rfl

end

/-! ## What a removal leaves -/

/-- The deletion of the round fails. -/
def deleteFails (p : Portal) (r : String × RoundFaults) : Bool :=
  (existing p r).isSome && r.2.write

/-- The hosts that a removal unbinds: those that are found, before a deletion fails. -/
def unbound (p : Portal) (rounds : List (String × RoundFaults)) : List String :=
  ((rounds.takeWhile fun r => !deleteFails p r).filter fun r => (existing p r).isSome).map Prod.fst

/-- The row binds one of the hosts to the group. -/
def bindsOneOf (p : Portal) (gid : ℕ) (hosts : List String) (row : GrpHost) : Bool :=
  row.grpId = gid && (p.host.find row.hostId).any fun host => decide (host.hostname ∈ hosts)

section Removal

variable {row : GrpHost}

theorem bindsOneOf_iff : bindsOneOf p gid hosts row = true ↔
    row.grpId = gid ∧ ∃ host ∈ hosts, p.host.find row.hostId = some ⟨host⟩ := by
  rw [bindsOneOf, Bool.and_eq_true, decide_eq_true_eq, Option.any_eq_true]
  refine and_congr_right fun _ => ?_
  constructor
  · rintro ⟨host, hfind, hmem⟩
    exact ⟨host.hostname, of_decide_eq_true hmem, hfind⟩
  · rintro ⟨host, hmem, hfind⟩
    exact ⟨⟨host⟩, hfind, decide_eq_true hmem⟩

/-- The row that a round deletes is the one that binds its host. -/
theorem bindsOneOf_cons {id : ℕ} (h : existing p r = some id) :
    bindsOneOf p gid (r.1 :: hosts) row = (decide (row = ⟨gid, id⟩) || bindsOneOf p gid hosts row)
      := by
  have hid := find_of_existing h
  rw [Bool.eq_iff_iff, Bool.or_eq_true, bindsOneOf_iff, bindsOneOf_iff, decide_eq_true_eq]
  constructor
  · rintro ⟨hgid, host, hmem, hfind⟩
    rcases List.mem_cons.mp hmem with rfl | hmem
    · have hsame := p.host.unique _ _ _ _ hfind hid rfl
      exact .inl (by rw [← hgid, ← hsame])
    · exact .inr ⟨hgid, host, hmem, hfind⟩
  · rintro (rfl | ⟨hgid, host, hmem, hfind⟩)
    · exact ⟨rfl, r.1, List.mem_cons_self, hid⟩
    · exact ⟨hgid, host, List.mem_cons_of_mem _ hmem, hfind⟩

/-- **A removal deletes the rows of the hosts it unbinds**, and no others. -/
theorem unbindRounds_fst (rows : List GrpHost) :
    (unbindRounds p gid rows rounds).1 =
      rows.filter fun row => !bindsOneOf p gid (unbound p rounds) row := by
  have hnil : ∀ row, bindsOneOf p gid [] row = false := by
    intro row
    rw [Bool.eq_false_iff, Ne, bindsOneOf_iff]
    simp
  induction rounds generalizing rows with
  | nil => simp [unbindRounds, unbound, hnil]
  | cons r rounds ih =>
    rw [unbindRounds]
    cases hex : existing p r with
    | none =>
      have hskip : unbound p (r :: rounds) = unbound p rounds := by
        simp [unbound, deleteFails, hex]
      rw [hskip]
      exact ih rows
    | some id =>
      by_cases hwrite : r.2.write = true
      · have hstop : unbound p (r :: rounds) = [] := by
          simp [unbound, deleteFails, hex, hwrite]
        simp [hwrite, hstop, hnil]
      · have hgo : unbound p (r :: rounds) = r.1 :: unbound p rounds := by
          simp [unbound, deleteFails, hex, hwrite]
        simp only [hwrite, if_false, Bool.false_eq_true, ih, List.filter_filter, hgo]
        refine List.filter_congr fun row _ => ?_
        rw [bindsOneOf_cons hex, Bool.not_or, Bool.and_comm, decide_not]

theorem unbindRounds_snd (gid : ℕ) (rows : List GrpHost) :
    (∃ err, (unbindRounds p gid rows rounds).2 = .error err) ↔
      ∃ r ∈ rounds, deleteFails p r = true := by
  induction rounds generalizing rows with
  | nil => simp [unbindRounds]
  | cons r rounds ih =>
    rw [unbindRounds, List.exists_mem_cons_iff]
    cases hex : existing p r with
    | none =>
      have hskip : ¬deleteFails p r = true := by simp [deleteFails, hex]
      rw [or_iff_right hskip]
      exact ih rows
    | some id =>
      by_cases hwrite : r.2.write = true
      · exact iff_of_true ⟨databaseError, by simp [hwrite]⟩
          (.inl (by simp [deleteFails, hex, hwrite]))
      · have hgo : ¬deleteFails p r = true := by simp [deleteFails, hwrite]
        rw [or_iff_right hgo, ← ih (rows.filter (· ≠ ⟨gid, id⟩))]
        simp only [hwrite, if_false, Bool.false_eq_true]
        cases (unbindRounds p gid (rows.filter (· ≠ ⟨gid, id⟩)) rounds).2 <;> simp [Except.map]

end Removal

/-! ## The bindings are a set -/

/-- A host that is not in the table is listed twice. -/
def ListsNewTwice (p : Portal) (hosts : List String) : Prop :=
  ∃ host ∈ hosts, p.host.findCol host = none ∧ 2 ≤ hosts.count host

/-- The request binds no host twice: the hosts it binds are all different, or it fails. -/
def BindsOnce (accessControl : Bool) (p : Portal) : HostCall → Prop
  | .edit (.bind user gid hosts) =>
    mayEdit accessControl user gid p = true → hosts.Nodup ∨ ListsNewTwice p hosts
  | .edit (.patch user gid action hosts) =>
    mayEdit accessControl user gid p = true → action = "add" →
      (hosts.filter fun host => !isBound p gid host).Nodup ∨ ListsNewTwice p hosts
  | .unbind .. => True

/-- The rows of `grp_host` are different, and of hosts that are there. -/
structure HostsApart (p : Portal) : Prop where
  nodup : p.grpHost.Nodup
  host : ∀ row ∈ p.grpHost, ∃ host, p.host.find row.hostId = some host

variable {accessControl : Bool} {user : Actor}

theorem exists_error_iff_listsNewTwice {rows : List GrpHost} :
    (∃ err, bindRounds p gid looks ⟨p.host, rows⟩ (Faults.none.rounds hosts) = .error err) ↔
      ListsNewTwice p hosts := by
  rw [bindRounds_eq_error_iff (fun r hr => mem_rounds_none hr) (Kept.refl p.host), map_fst_rounds]
  constructor
  · rintro ⟨host, hmem, hnone, hor⟩
    exact ⟨host, hmem, hnone, hor.resolve_left fun hthere => hthere hnone⟩
  · rintro ⟨host, hmem, hnone, hcount⟩
    exact ⟨host, hmem, hnone, .inr hcount⟩

theorem not_listsNewTwice_of_ok {rows : List GrpHost} {res : Tx × List Bound}
    (h : bindRounds p gid looks ⟨p.host, rows⟩ (Faults.none.rounds hosts) = .ok res) :
    ¬ListsNewTwice p hosts := by
  rw [← exists_error_iff_listsNewTwice, h]
  simp

/-- **A binding keeps the rows apart** exactly if it lists no host twice or fails. -/
theorem HostsApart.bind_iff (h : HostsApart p) :
    (bindHostToHostGroup accessControl .none user gid hosts p).1.grpHost.Nodup ↔
      BindsOnce accessControl p (.edit (.bind user gid hosts)) := by
  rcases bindHostToHostGroup_cases accessControl .none user gid hosts p with
    ⟨err, hrun, hwhy⟩ | ⟨tx, bs, text, hrun, hmay, hloop⟩
  · rw [hrun]
    refine iff_of_true h.nodup fun hmay => ?_
    rcases hwhy with hfault | hnot | hfault | hloop
    · exact absurd hfault Bool.false_ne_true
    · exact absurd hmay (by simp [hnot])
    · exact absurd hfault Bool.false_ne_true
    · exact .inr (exists_error_iff_listsNewTwice.mp hloop)
  · have hdone := bindRounds_eq_ok (Kept.refl p.host) hloop
    have happart : (p.grpHost.filter (·.grpId ≠ gid)).Disjoint
        (bs.map fun b => (⟨gid, b.id⟩ : GrpHost)) := by
      intro row hrow hnew
      obtain ⟨b, -, rfl⟩ := List.mem_map.mp hnew
      simp at hrow
    rw [hrun, BindsOnce]
    show tx.grpHost.Nodup ↔ _
    rw [hdone.grpHost_of_not_looks, List.nodup_append', hdone.nodup_rows_iff (List.Subset.refl _),
      hdone.hostname, map_fst_rounds]
    have hnot := not_listsNewTwice_of_ok hloop
    simp only [h.nodup.filter, happart, hmay, hnot, true_and, and_true, forall_const, or_false]

/-- The rows that were there are those of the hosts that were bound. -/
theorem HostsApart.existed_eq_isBound (h : HostsApart p) {rows : List GrpHost}
    (hdone : RoundsDone p gid true ⟨p.host, rows⟩ tx' (Faults.none.rounds hosts) bs) {b : Bound}
    (hb : b ∈ bs) : b.existed = isBound p gid b.hostname := by
  obtain ⟨r, hr, hex⟩ := hdone.existed b hb
  rw [mem_rounds_none hr] at hex
  rw [hex, Bool.eq_iff_iff, isBound_iff]
  simp only [RoundFaults.none, Bool.not_false, Bool.and_self, Bool.true_and, decide_eq_true_eq]
  constructor
  · intro hrow
    obtain ⟨host, hfind⟩ := h.host _ hrow
    have hfound := hdone.found b hb
    rw [hdone.kept _ _ hfind, Option.some_inj] at hfound
    exact ⟨b.id, hfound ▸ hfind, hrow⟩
  · rintro ⟨id, hfind, hrow⟩
    have hid := tx'.host.unique _ _ _ _ (hdone.kept _ _ hfind) (hdone.found b hb) rfl
    rwa [← hid]

/-- **An addition keeps the rows apart** exactly if it lists no host twice that is not bound, or
fails. -/
theorem HostsApart.patch_iff (h : HostsApart p) (action : String) :
    (patchHostGroupHost accessControl .none user gid action hosts p).1.grpHost.Nodup ↔
      BindsOnce accessControl p (.edit (.patch user gid action hosts)) := by
  rcases patchHostGroupHost_cases accessControl .none user gid action hosts p with
    ⟨err, hrun, hwhy⟩ | ⟨tx, bs, text, hrun, hmay, hadd, hloop⟩ | ⟨-, -, hremove, g, hrun⟩
  · rw [hrun]
    refine iff_of_true h.nodup fun hmay hadd => ?_
    rcases hwhy with hfault | hnot | hnot | ⟨-, hloop⟩
    · exact absurd hfault Bool.false_ne_true
    · exact absurd hmay (by simp [hnot])
    · exact absurd hadd hnot.1
    · exact .inr (exists_error_iff_listsNewTwice.mp hloop)
  · have hdone := bindRounds_eq_ok (Kept.refl p.host) hloop
    have hexisted : ∀ b ∈ bs, b.existed = isBound p gid b.hostname := fun b hb =>
      h.existed_eq_isBound hdone hb
    have happart : p.grpHost.Disjoint
        ((bs.filter fun b => !b.existed).map fun b => (⟨gid, b.id⟩ : GrpHost)) := by
      intro row hrow hnew
      obtain ⟨b, hb, rfl⟩ := List.mem_map.mp hnew
      obtain ⟨hb, hex⟩ := List.mem_filter.mp hb
      obtain ⟨r, hr, hlook⟩ := hdone.existed b hb
      rw [mem_rounds_none hr] at hlook
      simp [hlook, RoundFaults.none, hrow] at hex
    have hnames : (bs.filter fun b => !b.existed).map Bound.hostname =
        hosts.filter fun host => !isBound p gid host := by
      rw [← map_fst_rounds .none hosts, ← hdone.hostname, List.filter_map]
      refine congrArg _ (List.filter_congr fun b hb => ?_)
      rw [hexisted b hb]
      rfl
    rw [hrun, BindsOnce]
    show tx.grpHost.Nodup ↔ _
    rw [hdone.grpHost, List.nodup_append', hdone.nodup_rows_iff (List.filter_subset_self _), hnames]
    have hnot := not_listsNewTwice_of_ok hloop
    simp only [h.nodup, happart, hmay, hadd, hnot, true_and, and_true, forall_const, or_false]
  · rw [hrun]
    refine iff_of_true ?_ fun _ hadd => absurd (hremove.symm.trans hadd) (by decide)
    show (unbindRounds p gid p.grpHost _).1.Nodup
    rw [unbindRounds_fst]
    exact h.nodup.filter _

/-- **A request keeps the rows apart** exactly if it binds no host twice. -/
theorem HostsApart.step_nodup_iff (h : HostsApart p) (call : HostCall) :
    (hostStep accessControl p call).grpHost.Nodup ↔ BindsOnce accessControl p call := by
  match call with
  | .edit (.bind user gid hosts) => exact h.bind_iff
  | .edit (.patch user gid action hosts) => exact h.patch_iff action
  | .unbind user gid hid =>
    refine iff_of_true ?_ trivial
    rw [hostStep, unBindAHostToHostGroup]
    split
    · exact h.nodup
    · exact h.nodup.filter _

/-- **What a request on hosts does to the tables**: it keeps the hosts, and what it adds to
`grp_host` are rows of a group and of hosts that are there. -/
theorem hostStep_eq (accessControl : Bool) (p : Portal) (call : HostCall) :
    ∃ host rows, hostStep accessControl p call = { p with host := host, grpHost := rows } ∧
      Kept p.host host ∧ ∀ row ∈ rows, row ∈ p.grpHost ∨
        (p.grp.find row.grpId).isSome = true ∧ ∃ h, host.find row.hostId = some h := by
  match call with
  | .edit (.bind user gid hosts) =>
    rw [hostStep, HostEdit.run]
    rcases bindHostToHostGroup_cases accessControl .none user gid hosts p with
      ⟨err, hrun, -⟩ | ⟨tx, bs, text, hrun, hmay, hloop⟩
    · exact ⟨p.host, p.grpHost, by rw [hrun], .refl _, fun _ hrow => .inl hrow⟩
    · have hdone := bindRounds_eq_ok (Kept.refl p.host) hloop
      refine ⟨tx.host, tx.grpHost, by rw [hrun], hdone.kept, fun row hrow => ?_⟩
      rcases hdone.mem_or_added hrow with hold | ⟨rfl, hfound⟩
      · exact .inl (List.mem_of_mem_filter hold)
      · exact .inr ⟨isSome_find_of_mayEdit hmay, hfound⟩
  | .edit (.patch user gid action hosts) =>
    rw [hostStep, HostEdit.run]
    rcases patchHostGroupHost_cases accessControl .none user gid action hosts p with
      ⟨err, hrun, -⟩ | ⟨tx, bs, text, hrun, hmay, -, hloop⟩ | ⟨-, -, -, g, hrun⟩
    · exact ⟨p.host, p.grpHost, by rw [hrun], .refl _, fun _ hrow => .inl hrow⟩
    · have hdone := bindRounds_eq_ok (Kept.refl p.host) hloop
      refine ⟨tx.host, tx.grpHost, by rw [hrun], hdone.kept, fun row hrow => ?_⟩
      rcases hdone.mem_or_added hrow with hold | ⟨rfl, hfound⟩
      · exact .inl hold
      · exact .inr ⟨isSome_find_of_mayEdit hmay, hfound⟩
    · refine ⟨p.host, _, by rw [hrun]; rfl, .refl _, fun row hrow => ?_⟩
      rw [unbindRounds_fst] at hrow
      exact .inl (List.mem_of_mem_filter hrow)
  | .unbind user gid hid =>
    rw [hostStep, unBindAHostToHostGroup]
    split
    · exact ⟨p.host, p.grpHost, rfl, .refl _, fun _ hrow => .inl hrow⟩
    · exact ⟨p.host, _, rfl, .refl _, fun row hrow => .inl (List.mem_of_mem_filter hrow)⟩

theorem HostsApart.step_host (h : HostsApart p) (call : HostCall) :
    ∀ row ∈ (hostStep accessControl p call).grpHost,
      ∃ host, (hostStep accessControl p call).host.find row.hostId = some host := by
  obtain ⟨host, rows, heq, hkept, hrows⟩ := hostStep_eq accessControl p call
  rw [heq]
  intro row hrow
  rcases hrows row hrow with hold | ⟨-, hfound⟩
  · obtain ⟨r, hfind⟩ := h.host row hold
    exact ⟨r, hkept _ _ hfind⟩
  · exact hfound

/-- After a binding that went through, the hosts of the group are the requested ones. -/
theorem mem_groupHosts_of_bindRounds {p : Portal} {gid : ℕ} {tx : Tx}
    {rounds : List (String × RoundFaults)} {bs : List Bound}
    (h : RoundsDone p gid false ⟨p.host, p.grpHost.filter (·.grpId ≠ gid)⟩ tx rounds bs)
    (o : Option Host) :
    o ∈ groupHosts { p with host := tx.host, grpHost := tx.grpHost } gid ↔
      ∃ host ∈ rounds.map Prod.fst, o = some ⟨host⟩ := by
  have hrow : ∀ id, (⟨gid, id⟩ : GrpHost) ∈ tx.grpHost ↔ ∃ b ∈ bs, b.id = id := by
    intro id
    rw [h.grpHost_of_not_looks, List.mem_append, List.mem_map]
    simp
  rw [mem_groupHosts]
  simp only [hrow, h.mem_rows_iff]
  constructor
  · rintro ⟨id, ⟨host, hmem, hfind⟩, rfl⟩
    exact ⟨host, hmem, hfind⟩
  · rintro ⟨host, hmem, rfl⟩
    obtain ⟨b, hb, rfl⟩ := h.exists_mem_iff.mpr hmem
    exact ⟨b.id, ⟨b.hostname, hmem, h.found b hb⟩, h.found b hb⟩

/-- A group without hosts. -/
def sampleGroup : Portal := (createHostGroup sampleAdmin "web" .empty).1

/-! ## All or nothing -/

/-- All that the edit asks for is done, and nothing else. -/
def Applied (p p' : Portal) : HostEdit → Prop
  | .bind _ gid hosts =>
    (∀ row : GrpHost, row.grpId ≠ gid → (row ∈ p'.grpHost ↔ row ∈ p.grpHost)) ∧
      ∀ o, o ∈ groupHosts p' gid ↔ ∃ host ∈ hosts, o = some ⟨host⟩
  | .patch _ gid action hosts =>
    (action = "add" ∧ (∀ host ∈ hosts, isBound p' gid host = true) ∧
        ∀ row, row ∈ p'.grpHost ↔ row ∈ p.grpHost ∨ bindsOneOf p' gid hosts row = true) ∨
      (action = "remove" ∧
        ∀ row, row ∈ p'.grpHost ↔ row ∈ p.grpHost ∧ bindsOneOf p' gid hosts row = false)

/-- The edit applies all of its changes, or it reports an error and `grp_host` is as it was. -/
def AllOrNothing (accessControl : Bool) (faults : Faults) (p : Portal) (e : HostEdit) : Prop :=
  Applied p (e.run accessControl faults p).1 e ∨
    ((e.run accessControl faults p).2.isError = true ∧
      (e.run accessControl faults p).1.grpHost = p.grpHost)

/-- A removal unbinds all the listed hosts that are bound, or one of its deletions fails and it
has unbound none of them before. -/
def RemovesWhole (accessControl : Bool) (faults : Faults) (p : Portal) : HostEdit → Prop
  | .bind .. => True
  | .patch user gid action hosts =>
    faults.find = false → mayEdit accessControl user gid p = true → action = "remove" →
      (∀ host ∈ hosts, isBound p gid host = true → host ∈ unbound p (faults.rounds hosts)) ∨
        ((∃ r ∈ faults.rounds hosts, deleteFails p r = true) ∧
          ∀ host ∈ unbound p (faults.rounds hosts), isBound p gid host = false)

/-- An addition that goes through adds the rows of the requested hosts that are not there. -/
theorem RoundsDone.mem_grpHost_iff (h : RoundsDone p gid true ⟨p.host, p.grpHost⟩ tx rounds bs)
    (row : GrpHost) :
    row ∈ tx.grpHost ↔ row ∈ p.grpHost ∨
      (row.grpId = gid ∧ ∃ host ∈ rounds.map Prod.fst, tx.host.find row.hostId = some ⟨host⟩) := by
  rw [h.grpHost, List.mem_append, ← h.mem_rows_iff, List.mem_map]
  constructor
  · rintro (hold | ⟨b, hb, rfl⟩)
    · exact .inl hold
    · exact .inr ⟨rfl, b, List.mem_of_mem_filter hb, rfl⟩
  · rintro (hold | ⟨rfl, b, hb, hid⟩)
    · exact .inl hold
    · cases hex : b.existed with
      | false => exact .inr ⟨b, List.mem_filter.mpr ⟨hb, by simp [hex]⟩, by rw [hid]⟩
      | true =>
        obtain ⟨r, -, hlook⟩ := h.existed b hb
        rw [hex, eq_comm, Bool.and_eq_true, decide_eq_true_eq, hid] at hlook
        exact .inl hlook.2

theorem mem_of_mem_unbound {host : String} (h : host ∈ unbound p rounds) :
    host ∈ rounds.map Prod.fst := by
  obtain ⟨r, hr, rfl⟩ := List.mem_map.mp h
  exact List.mem_map_of_mem ((List.takeWhile_subset _) (List.mem_of_mem_filter hr))

/-- What a removal leaves is right exactly if every listed host that is bound was unbound. -/
theorem removed_iff (p : Portal) (gid : ℕ) (rounds : List (String × RoundFaults)) :
    (∀ row, row ∈ p.grpHost.filter (fun row => !bindsOneOf p gid (unbound p rounds) row) ↔
        row ∈ p.grpHost ∧ bindsOneOf p gid (rounds.map Prod.fst) row = false) ↔
      ∀ host ∈ rounds.map Prod.fst, isBound p gid host = true → host ∈ unbound p rounds := by
  constructor
  · intro h host hmem hbound
    obtain ⟨id, hfind, hrow⟩ := isBound_iff.mp hbound
    have hgone : bindsOneOf p gid (rounds.map Prod.fst) ⟨gid, id⟩ = true :=
      bindsOneOf_iff.mpr ⟨rfl, host, hmem, hfind⟩
    have hnot : (⟨gid, id⟩ : GrpHost) ∉
        p.grpHost.filter fun row => !bindsOneOf p gid (unbound p rounds) row := by
      rw [h]
      simp [hgone]
    rw [List.mem_filter, not_and, Bool.not_eq_true', Bool.not_eq_false] at hnot
    obtain ⟨-, host', hmem', hfind'⟩ := bindsOneOf_iff.mp (hnot hrow)
    rw [hfind, Option.some_inj, Host.mk.injEq] at hfind'
    rwa [hfind']
  · intro h row
    rw [List.mem_filter, Bool.not_eq_true']
    refine and_congr_right fun hrow => ?_
    rw [← Bool.not_eq_true, ← Bool.not_eq_true, bindsOneOf_iff, bindsOneOf_iff]
    refine not_congr ⟨?_, ?_⟩
    · rintro ⟨hgid, host, hmem, hfind⟩
      exact ⟨hgid, host, mem_of_mem_unbound hmem, hfind⟩
    · rintro ⟨rfl, host, hmem, hfind⟩
      exact ⟨rfl, host, h host hmem (isBound_iff.mpr ⟨_, hfind, hrow⟩), hfind⟩

/-- A removal leaves `grp_host` as it was exactly if no host it unbinds was bound. -/
theorem unchanged_iff {names : List String} :
    p.grpHost.filter (fun row => !bindsOneOf p gid names row) = p.grpHost ↔
      ∀ host ∈ names, isBound p gid host = false := by
  simp only [List.filter_eq_self, Bool.not_eq_true', ← Bool.not_eq_true, bindsOneOf_iff,
    isBound_iff]
  constructor
  · rintro h host hmem ⟨id, hfind, hrow⟩
    exact h _ hrow ⟨rfl, host, hmem, hfind⟩
  · rintro h row hrow ⟨rfl, host, hmem, hfind⟩
    exact h host hmem ⟨_, hfind, hrow⟩

/-- A binding is all or nothing: everything it does is done in its transaction. -/
theorem allOrNothing_bind : AllOrNothing accessControl faults p (.bind user gid hosts) := by
  rw [AllOrNothing, HostEdit.run]
  rcases bindHostToHostGroup_cases accessControl faults user gid hosts p with
    ⟨err, hrun, -⟩ | ⟨tx, bs, text, hrun, -, hloop⟩
  · rw [hrun]
    exact .inr ⟨rfl, rfl⟩
  · have hdone := bindRounds_eq_ok (Kept.refl p.host) hloop
    rw [hrun]
    refine .inl ⟨fun row hrow => ?_, fun o => ?_⟩
    · show row ∈ tx.grpHost ↔ _
      rw [hdone.grpHost_of_not_looks, List.mem_append, List.mem_filter, List.mem_map]
      simp only [hrow, ne_eq, not_false_iff, decide_true, and_true, or_iff_left_iff_imp]
      rintro ⟨b, -, rfl⟩
      exact absurd rfl hrow
    · rw [mem_groupHosts_of_bindRounds hdone, map_fst_rounds]

theorem RoundsDone.applied_add {tx : Tx} {bs : List Bound}
    (h : RoundsDone p gid true ⟨p.host, p.grpHost⟩ tx (faults.rounds hosts) bs) :
    Applied p { p with host := tx.host, grpHost := tx.grpHost } (.patch user gid "add" hosts) := by
  refine .inl ⟨rfl, fun host hmem => ?_, fun row => ?_⟩
  · rw [← map_fst_rounds faults hosts] at hmem
    obtain ⟨b, hb, rfl⟩ := h.exists_mem_iff.mpr hmem
    refine isBound_iff.mpr ⟨b.id, h.found b hb, ?_⟩
    exact (h.mem_grpHost_iff _).mpr (.inr ⟨rfl, _, hmem, h.found b hb⟩)
  · rw [bindsOneOf_iff, ← map_fst_rounds faults hosts]
    exact h.mem_grpHost_iff row

/-- **When a removal is all or nothing.** -/
theorem allOrNothing_remove_iff {g : HostGroup}
    (hrun : patchHostGroupHost accessControl faults user gid "remove" hosts p =
      Patch.unbindHostToHostGroup faults gid g hosts p) :
    AllOrNothing accessControl faults p (.patch user gid "remove" hosts) ↔
      (∀ host ∈ hosts, isBound p gid host = true → host ∈ unbound p (faults.rounds hosts)) ∨
        ((∃ r ∈ faults.rounds hosts, deleteFails p r = true) ∧
          ∀ host ∈ unbound p (faults.rounds hosts), isBound p gid host = false) := by
  have hrows : (Patch.unbindHostToHostGroup faults gid g hosts p).1.grpHost =
      p.grpHost.filter fun row => !bindsOneOf p gid (unbound p (faults.rounds hosts)) row :=
    unbindRounds_fst p.grpHost
  have herror : (Patch.unbindHostToHostGroup faults gid g hosts p).2.isError = true ↔
      ∃ r ∈ faults.rounds hosts, deleteFails p r = true := by
    rw [← unbindRounds_snd gid p.grpHost, Patch.unbindHostToHostGroup]
    cases (unbindRounds p gid p.grpHost (faults.rounds hosts)).2 <;> simp [Reply.isError]
  have happlied := removed_iff p gid (faults.rounds hosts)
  rw [map_fst_rounds] at happlied
  rw [AllOrNothing, HostEdit.run, hrun, Applied, hrows, herror, unchanged_iff, ← happlied]
  refine or_congr_left ⟨?_, fun h => .inr ⟨rfl, h⟩⟩
  rintro (⟨hadd, -⟩ | ⟨-, h⟩)
  · exact absurd hadd (by decide)
  · exact h

/-- **Edits are all or nothing** whatever statements fail, except for a removal that has unbound
some of the listed hosts that are bound and not all of them, or has left one out without an
error. -/
theorem hostEdit_allOrNothing_iff (accessControl : Bool) (faults : Faults) (p : Portal)
    (e : HostEdit) :
    AllOrNothing accessControl faults p e ↔ RemovesWhole accessControl faults p e := by
  match e with
  | .bind user gid hosts => exact iff_of_true allOrNothing_bind trivial
  | .patch user gid action hosts =>
    rcases patchHostGroupHost_cases accessControl faults user gid action hosts p with
      ⟨err, hrun, hwhy⟩ | ⟨tx, bs, text, hrun, -, rfl, hloop⟩ | ⟨hfind, hmay, rfl, g, hrun⟩
    · rw [AllOrNothing, HostEdit.run, hrun]
      refine iff_of_true (.inr ⟨rfl, rfl⟩) fun hfind hmay hremove => ?_
      rcases hwhy with hfault | hnot | hnot | ⟨hadd, -⟩
      · exact absurd hfault (by simp [hfind])
      · exact absurd hmay (by simp [hnot])
      · exact absurd hremove hnot.2
      · exact absurd (hadd.symm.trans hremove) (by decide)
    · rw [AllOrNothing, HostEdit.run, hrun]
      refine iff_of_true (.inl ?_) fun _ _ hremove => absurd hremove (by decide)
      exact (bindRounds_eq_ok (Kept.refl p.host) hloop).applied_add
    · rw [allOrNothing_remove_iff hrun, RemovesWhole]
      simp only [hfind, hmay, forall_const]

/-- The second write of a loop to `grp_host` fails. -/
def secondWriteFails : Faults :=
  ⟨false, false, fun i => if i = 1 then ⟨false, false, false, true⟩ else .none⟩

/-- The hosts `a` and `b` are bound to a group, and both are to be removed, but the second
deletion fails: an error is reported, and `a` is unbound. -/
theorem removal_left_half_done :
    let p := (bindHostToHostGroup true .none sampleAdmin 1 ["a", "b"] sampleGroup).1
    let res := patchHostGroupHost true secondWriteFails sampleAdmin 1 "remove" ["a", "b"] p
    p.grpHost = [⟨1, 1⟩, ⟨1, 2⟩] ∧ res.2 = .refused databaseError ∧ res.1.grpHost = [⟨1, 2⟩] := by
  decide +kernel

end OpenFalcon.Api

import OpenFalcon.Nodata.Sender

/-!
# Sending the mocks

`sendMock` and `sendItemsToTransfer` of `modules/nodata/sender`: the loop that goes through the
pending mocks, a batch in every round, and the request that each round makes.  `Sender` has the same
loop as the list of its batches, between the two steps that empty `MockMap`
(`posted_eq_batches`).

The size of a batch is a setting, and nothing looks at it.  A negative one makes the bounds of the
first slice wrong, and the loop panics; with zero the loop goes round and round on an empty slice.
An address that is no part of a URL gives no request to put headers on, which is a panic too, and a
value that JSON does not know is never posted.  Otherwise the loop returns, and what it has posted
is a partition of the mocks (`sendMock_partitions_iff`).
-/

namespace OpenFalcon.Nodata

open Order

variable {F : Type}

/-! ## The source -/

/-- `SenderConfig`: what `sendMock` and `sendItemsToTransfer` read of it. -/
structure SenderSettings extends SenderConfig where
  transferAddr : String

/-- What `sendItemsToTransfer` finds outside: the values `json.Marshal` can write, the URLs
`http.NewRequest` accepts, and for every request the status of the response, `none` if the client
has an error. -/
structure Transfer (F : Type) where
  marshals : F → Bool
  newRequest : String → Bool
  reply : ℕ → Option Int

/-- The errors of `sendItemsToTransfer`: the body cannot be formatted, the post fails, the response
is bad. -/
inductive SendError where
  | formatBody
  | post
  | badResponse (status : Int)

/-- What a call of `sendItemsToTransfer` does: the requests it makes, one at most, and its two
results. -/
structure Sent (F : Type) where
  posted : List (List (JsonMetaData F))
  cnt : Int
  errt : Option SendError

/-- `transUlr`. -/
def SenderSettings.transUlr (cfg : SenderSettings) : String :=
  "http://" ++ cfg.transferAddr ++ "/api/push"

/-- `sendItemsToTransfer`, when `k` requests have been made before.  The error of
`http.NewRequest` is not looked at, and the request is `nil` then. -/
def sendItemsToTransfer (cfg : SenderSettings) (t : Transfer F) (k : ℕ)
    (items : List (JsonMetaData F)) (size : Int) : Option (Sent F) :=
  if size < 1 then some ⟨[], 0, none⟩
  else if !items.all fun item => t.marshals item.value then some ⟨[], 0, some .formatBody⟩
  else if !t.newRequest cfg.transUlr then none
  else
    match t.reply k with
    | none => some ⟨[items], 0, some .post⟩
    | some status =>
      if status.tdiv 100 ≠ 2 then some ⟨[items], 0, some (.badResponse status)⟩
      else some ⟨[items], size, none⟩

/-- The variables of the loop, and the requests made so far. -/
structure Sending (F : Type) where
  i : ℕ
  cnt : Int
  posted : List (List (JsonMetaData F))

/-- `sendSize`: a batch, or what is left. -/
def sendSize (batch leftLen : Int) : Int := if leftLen < batch then leftLen else batch

/-- The body of the loop of `sendMock`; `none` is a panic, of the slice `mocks[i : i+sendSize]` or
of the request.  `AddMock` puts no `nil` into `MockMap`. -/
def sendRound (cfg : SenderSettings) (t : Transfer F) (mocks : List (JsonMetaData F))
    (s : Sending F) : Option (Sending F) :=
  let size := sendSize cfg.batch ((mocks.length : Int) - s.i)
  if size < 0 then none
  else
    let items := (mocks.drop s.i).take size.toNat
    (sendItemsToTransfer cfg t s.posted.length items items.length).map fun sent =>
      { i := s.i + size.toNat
        cnt := if sent.errt.isNone then s.cnt + sent.cnt else s.cnt
        posted := s.posted ++ sent.posted }

/-- A loop seen after some rounds. -/
inductive Progress (α : Type) where
  | running (s : α)
  | panicked
  | returned (s : α)

/-- The loop of `sendMock`, for a number of rounds. -/
def sendLoop (cfg : SenderSettings) (t : Transfer F) (mocks : List (JsonMetaData F)) :
    ℕ → Sending F → Progress (Sending F)
  | 0, s => if s.i < mocks.length then .running s else .returned s
  | rounds + 1, s =>
    if s.i < mocks.length then
      match sendRound cfg t mocks s with
      | none => .panicked
      | some s' => sendLoop cfg t mocks rounds s'
    else .returned s

/-- `MockMap.Slice()`: the pending mocks, in some order. -/
def pending {m : GoMap String (Mock F)} (visit : Visit m) : List (JsonMetaData F) :=
  (slice visit).map Mock.item

/-- `sendMock`, for a number of rounds. -/
def sendMock (cfg : SenderSettings) (t : Transfer F) {m : GoMap String (Mock F)} (visit : Visit m)
    (rounds : ℕ) : Progress (Sending F) :=
  sendLoop cfg t (pending visit) rounds ⟨0, 0, []⟩

/-! ## One request -/

variable {cfg : SenderSettings} {t : Transfer F} {mocks items : List (JsonMetaData F)}
  {s s' : Sending F} {k rounds : ℕ}

/-- What may be posted: to an address that makes a URL, values that JSON knows. -/
structure Postable (cfg : SenderSettings) (t : Transfer F) (items : List (JsonMetaData F)) :
    Prop where
  newRequest : t.newRequest cfg.transUlr = true
  marshals : ∀ item ∈ items, t.marshals item.value = true

theorem postable_of_mem_posted {size : Int} {sent : Sent F}
    (h : sendItemsToTransfer cfg t k items size = some sent) :
    ∀ g ∈ sent.posted, Postable cfg t g := by
  unfold sendItemsToTransfer at h
  split_ifs at h with hsize hmarshal hrequest
  · obtain rfl := Option.some.inj h
    exact fun g hg => absurd hg List.not_mem_nil
  · obtain rfl := Option.some.inj h
    exact fun g hg => absurd hg List.not_mem_nil
  · have hpostable : Postable cfg t items :=
      ⟨by simpa using hrequest, by simpa using hmarshal⟩
    have hposted : sent.posted = [items] := by
      cases hreply : t.reply k with
      | none =>
        rw [hreply] at h
        rw [← Option.some.inj h]
      | some status =>
        rw [hreply] at h
        simp only at h
        split_ifs at h <;> rw [← Option.some.inj h]
    intro g hg
    rw [hposted, List.mem_singleton] at hg
    rwa [hg]

/-- What may be posted is posted, whatever the response. -/
theorem sendItemsToTransfer_of_postable (h : Postable cfg t items) {size : Int} (hsize : 1 ≤ size)
    (k : ℕ) :
    ∃ sent, sendItemsToTransfer cfg t k items size = some sent ∧ sent.posted = [items] := by
  have hmarshal : (!items.all fun item => t.marshals item.value) = false := by
    simpa using h.marshals
  have hrequest : (!t.newRequest cfg.transUlr) = false := by
    rw [h.newRequest]
    rfl
  unfold sendItemsToTransfer
  rw [if_neg (by omega), hmarshal, hrequest]
  cases t.reply k with
  | none => exact ⟨_, rfl, rfl⟩
  | some status =>
    by_cases hstatus : status.tdiv 100 ≠ 2
    · exact ⟨_, if_pos hstatus, rfl⟩
    · exact ⟨_, if_neg hstatus, rfl⟩

/-! ## One round -/

/-- A negative batch size makes the slice expression panic. -/
theorem sendRound_of_neg (hbatch : cfg.batch < 0) (hlt : s.i < mocks.length) :
    sendRound cfg t mocks s = none := by
  have hsize : sendSize cfg.batch ((mocks.length : Int) - s.i) = cfg.batch := if_neg (by omega)
  rw [sendRound, hsize]
  exact if_pos hbatch

theorem sendRound_of_zero (hbatch : cfg.batch = 0) (hlt : s.i < mocks.length) :
    sendRound cfg t mocks s = some s := by
  have hsize : sendSize cfg.batch ((mocks.length : Int) - s.i) = 0 := by
    rw [hbatch]
    exact if_neg (by omega)
  rw [sendRound, hsize]
  simp [sendItemsToTransfer]

theorem postable_sendRound (hs : ∀ g ∈ s.posted, Postable cfg t g)
    (h : sendRound cfg t mocks s = some s') : ∀ g ∈ s'.posted, Postable cfg t g := by
  unfold sendRound at h
  simp only at h
  split_ifs at h
  obtain ⟨sent, hsent, rfl⟩ := Option.map_eq_some_iff.mp h
  intro g hg
  rcases List.mem_append.mp hg with hg | hg
  · exact hs g hg
  · exact postable_of_mem_posted hsent g hg

/-- The loop after `k` rounds: what has been posted is the first `k` slices. -/
structure After (cfg : SenderSettings) (mocks : List (JsonMetaData F)) (k : ℕ) (s : Sending F) :
    Prop where
  i : s.i = min (k * cfg.batch.toNat) mocks.length
  posted : s.posted = slices cfg.batch.toNat mocks k

/-- **A round posts the next slice.** -/
theorem After.sendRound (hs : After cfg mocks k s) (hbatch : 1 ≤ cfg.batch)
    (hpostable : Postable cfg t mocks) (hlt : s.i < mocks.length) :
    ∃ s', Nodata.sendRound cfg t mocks s = some s' ∧ After cfg mocks (k + 1) s' := by
  have hi : s.i = k * cfg.batch.toNat := by
    have := hs.i
    omega
  rw [hi] at hlt
  obtain ⟨hslice, hstand⟩ := slice_round hlt
  have hsize : sendSize cfg.batch ((mocks.length : Int) - s.i) =
      (min cfg.batch.toNat (mocks.length - k * cfg.batch.toNat) : ℕ) := by
    rw [hi, sendSize]
    split_ifs <;> omega
  have hitems : Postable cfg t ((mocks.drop (k * cfg.batch.toNat)).take cfg.batch.toNat) :=
    ⟨hpostable.newRequest, fun item hitem =>
      hpostable.marshals item (List.mem_of_mem_drop (List.mem_of_mem_take hitem))⟩
  have hlength : 1 ≤ (((mocks.drop (k * cfg.batch.toNat)).take cfg.batch.toNat).length : Int) := by
    rw [List.length_take, List.length_drop]
    omega
  obtain ⟨sent, hsent, hposted⟩ :=
    sendItemsToTransfer_of_postable hitems hlength s.posted.length
  rw [Nodata.sendRound, hsize]
  simp only [if_neg (not_lt.mpr (Int.natCast_nonneg _)), Int.toNat_natCast, hi, hslice, hsent,
    Option.map_some]
  refine ⟨_, rfl, ⟨hstand, ?_⟩⟩
  show s.posted ++ sent.posted = _
  rw [hs.posted, hposted, slices_succ]

/-! ## The loop -/

/-- With batch size zero the loop never comes to its end. -/
theorem sendLoop_of_zero (hbatch : cfg.batch = 0) (hlt : s.i < mocks.length) (rounds : ℕ) :
    sendLoop cfg t mocks rounds s = .running s := by
  induction rounds with
  | zero => rw [sendLoop, if_pos hlt]
  | succ rounds ih =>
    rw [sendLoop, if_pos hlt, sendRound_of_zero hbatch hlt]
    exact ih

/-- With a batch size that is not positive the loop never returns. -/
theorem sendLoop_ne_returned (hbatch : cfg.batch < 1) (hlt : s.i < mocks.length) (rounds : ℕ) :
    sendLoop cfg t mocks rounds s ≠ .returned s' := by
  intro h
  by_cases hneg : cfg.batch < 0
  · cases rounds with
    | zero =>
      rw [sendLoop, if_pos hlt] at h
      cases h
    | succ rounds =>
      rw [sendLoop, if_pos hlt, sendRound_of_neg hneg hlt] at h
      cases h
  · rw [sendLoop_of_zero (by omega) hlt] at h
    cases h

theorem postable_sendLoop (hs : ∀ g ∈ s.posted, Postable cfg t g)
    (h : sendLoop cfg t mocks rounds s = .returned s') : ∀ g ∈ s'.posted, Postable cfg t g := by
  induction rounds generalizing s with
  | zero =>
    rw [sendLoop] at h
    split_ifs at h
    obtain rfl := Progress.returned.inj h
    exact hs
  | succ rounds ih =>
    rw [sendLoop] at h
    split_ifs at h
    · cases hround : sendRound cfg t mocks s with
      | none =>
        rw [hround] at h
        cases h
      | some s₁ =>
        rw [hround] at h
        exact ih (postable_sendRound hs hround) h
    · obtain rfl := Progress.returned.inj h
      exact hs

/-- **The loop posts all slices and returns.** -/
theorem After.sendLoop (hs : After cfg mocks k s) (hbatch : 1 ≤ cfg.batch)
    (hpostable : Postable cfg t mocks) (hrounds : k + rounds = mocks.length ⌈/⌉ cfg.batch.toNat) :
    ∃ s', Nodata.sendLoop cfg t mocks rounds s = .returned s' ∧
      s'.posted = slices cfg.batch.toNat mocks (mocks.length ⌈/⌉ cfg.batch.toNat) := by
  have hpos : 0 < cfg.batch.toNat := by omega
  induction rounds generalizing k s with
  | zero =>
    have hend : ¬ s.i < mocks.length := by
      have hall : ¬ k * cfg.batch.toNat < mocks.length :=
        mt (lt_ceilDiv_iff hpos).mpr (by omega)
      have := hs.i
      omega
    refine ⟨s, by rw [Nodata.sendLoop, if_neg hend], ?_⟩
    rw [hs.posted, ← hrounds]
    rfl
  | succ rounds ih =>
    have hlt : s.i < mocks.length := by
      have hleft : k * cfg.batch.toNat < mocks.length := (lt_ceilDiv_iff hpos).mp (by omega)
      have := hs.i
      omega
    obtain ⟨s₁, hround, hs₁⟩ := hs.sendRound hbatch hpostable hlt
    rw [Nodata.sendLoop, if_pos hlt, hround]
    exact ih hs₁ (by omega)

theorem after_start (cfg : SenderSettings) (mocks : List (JsonMetaData F)) :
    After cfg mocks 0 ⟨0, 0, []⟩ :=
  ⟨by rw [zero_mul, Nat.zero_min], slices_zero.symm⟩

/-- **Mocks are sent in batches, each once, if and only if the batch size is positive and they can
be posted.**  For every setting, every answer from outside and every set of pending mocks in any
order: `sendMock` returns after some number of rounds, and the groups it has posted are a partition
of the mocks, in order, into groups of at most `batch`, exactly if nothing is pending, or the batch
size is at least one, the address makes a URL and JSON knows the values. -/
theorem sendMock_partitions_iff (cfg : SenderSettings) (t : Transfer F) {m : GoMap String (Mock F)}
    (visit : Visit m) :
    (∃ rounds s, sendMock cfg t visit rounds = .returned s ∧
        Sliced cfg.batch.toNat (pending visit) s.posted) ↔
      pending visit = [] ∨ 1 ≤ cfg.batch ∧ t.newRequest cfg.transUlr = true ∧
        ∀ mock ∈ pending visit, t.marshals mock.value = true := by
  unfold sendMock
  constructor
  · rintro ⟨rounds, s, hreturned, hsliced⟩
    by_cases hnil : pending visit = []
    · exact Or.inl hnil
    · have hbatch : 1 ≤ cfg.batch := by
        by_contra hneg
        exact sendLoop_ne_returned (not_le.mp hneg) (List.length_pos_iff.mpr hnil) rounds hreturned
      have hposted := postable_sendLoop (fun g hg => absurd hg List.not_mem_nil) hreturned
      have hgroup : ∀ mock ∈ pending visit, ∃ g ∈ s.posted, mock ∈ g := by
        rw [← hsliced.flatten]
        exact fun mock hmock => List.mem_flatten.mp hmock
      refine Or.inr ⟨hbatch, ?_, fun mock hmock => ?_⟩
      · obtain ⟨mock, hmock⟩ := List.exists_mem_of_ne_nil _ hnil
        obtain ⟨g, hg, -⟩ := hgroup mock hmock
        exact (hposted g hg).newRequest
      · obtain ⟨g, hg, hmem⟩ := hgroup mock hmock
        exact (hposted g hg).marshals mock hmem
  · rintro (hnil | ⟨hbatch, hrequest, hmarshals⟩)
    · refine ⟨0, ⟨0, 0, []⟩, ?_, ?_⟩
      · rw [hnil]
        rfl
      · rw [hnil]
        exact ⟨rfl, fun g hg => absurd hg List.not_mem_nil, fun g hg => absurd hg List.not_mem_nil⟩
    · obtain ⟨s, hreturned, hposted⟩ := (after_start cfg (pending visit)).sendLoop hbatch
        ⟨hrequest, hmarshals⟩ (Nat.zero_add _)
      refine ⟨_, s, hreturned, ?_⟩
      rw [hposted]
      exact sliced_slices (by omega)

/-- A pending mock. -/
def sampleMockMap : GoMap String (Mock Unit) :=
  (∅ : GoMap String (Mock Unit)).insert "host/cpu.idle"
    ⟨0, ⟨"cpu.idle", "host", 60, 60, (), "GAUGE", ""⟩⟩

/-- A transfer that takes everything. -/
def sampleTransfer : Transfer Unit := ⟨fun _ => true, fun _ => true, fun _ => some 200⟩

/-- Settings with a batch size. -/
def sampleSettings (batch : Int) : SenderSettings := ⟨⟨true, batch⟩, "127.0.0.1:6060"⟩

/-- With batch size 0 the loop runs for ever, and with -1 it panics. -/
theorem sendMock_never_returns :
    (pending (Visit.asWritten sampleMockMap)).length = 1 ∧
      (∀ rounds, sendMock (sampleSettings 0) sampleTransfer (Visit.asWritten sampleMockMap) rounds =
        .running ⟨0, 0, []⟩) ∧
      sendMock (sampleSettings (-1)) sampleTransfer (Visit.asWritten sampleMockMap) 1 =
        .panicked := by
  have hone : (pending (Visit.asWritten sampleMockMap)).length = 1 := by decide +kernel
  refine ⟨hone, fun rounds => ?_, ?_⟩
  · exact sendLoop_of_zero rfl (by rw [hone]; decide) rounds
  · rfl

/-! ## The batches of the sender -/

/-- **The loop posts the batches of `Sender`.** -/
theorem posted_eq_batches (hbatch : 1 ≤ cfg.batch) (hpostable : Postable cfg t mocks) :
    ∃ rounds s, sendLoop cfg t mocks rounds ⟨0, 0, []⟩ = .returned s ∧
      batches cfg.batch mocks.length mocks = some s.posted := by
  obtain ⟨s, hreturned, hposted⟩ :=
    (after_start cfg mocks).sendLoop hbatch hpostable (Nat.zero_add _)
  exact ⟨_, s, hreturned, by rw [batches_eq_slices hbatch _ _ le_rfl, hposted]⟩

theorem posted_eq_batches_one :
    ∃ rounds s, sendLoop (sampleSettings 1) sampleTransfer (pending (.asWritten sampleMockMap))
        rounds ⟨0, 0, []⟩ = .returned s ∧ batches 1 (pending (.asWritten sampleMockMap)).length
          (pending (.asWritten sampleMockMap)) = some s.posted :=
  posted_eq_batches (by decide) ⟨rfl, fun _ _ => rfl⟩

end OpenFalcon.Nodata

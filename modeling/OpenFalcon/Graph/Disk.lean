import OpenFalcon.Graph.Item

/-!
# Errors, cache keys and files of a graph node

What the node does to its disk, from `rrdtool/sync_disk.go` and `rrdtool/rrdtool.go`,
and the errors that come of it.  An RRD file is its name here; its contents are made by
the RRD library.  What the operating system decides, which call fails and how, is an
argument of the function that makes the call.
-/

namespace OpenFalcon.Graph

/-! ## Errors -/

/-- The reason inside a `*PathError`. -/
inductive Errno where
  | ENOENT
  | EEXIST
  | other (text : String)
  deriving DecidableEq

/-- `Errno.Error`. -/
def Errno.text : Errno → String
  | ENOENT => "no such file or directory"
  | EEXIST => "file exists"
  | other text => text

/-- The errors a call can end with. -/
inductive Err where
  /-- A value that carries its text only: `errors.New`, `fmt.Errorf`, a `*NumError`. -/
  | plain (msg : String)
  /-- `rpc.ServerError`: the text of the error the remote function returned. -/
  | serverError (msg : String)
  /-- `rpc.ErrShutdown`. -/
  | errShutdown
  /-- A `*PathError`. -/
  | pathError (op path : String) (errno : Errno)
  deriving DecidableEq

/-- `Error`. -/
def Err.text : Err → String
  | plain msg => msg
  | serverError msg => msg
  | errShutdown => "connection is shut down"
  | pathError op path errno => op ++ " " ++ path ++ ": " ++ errno.text

/-- `os.IsNotExist`. -/
def isNotExist : Err → Bool
  | .pathError _ _ .ENOENT => true
  | _ => false

/-! ## Cache keys -/

/-- The digits of a number in base ten. -/
def parseDigits (digits : List Char) : Option ℕ :=
  if digits ≠ [] ∧ digits.all Char.isDigit then
    some (digits.foldl (fun n c => 10 * n + (c.toNat - '0'.toNat)) 0)
  else none

/-- `strconv.ParseInt(s, 10, 32)`, with the reason inside the `*NumError`. -/
def parseInt32 (s : List Char) : Except String Int :=
  let signed : Option Int :=
    match s with
    | '+' :: digits => (parseDigits digits).map Int.ofNat
    | '-' :: digits => (parseDigits digits).map fun n => -Int.ofNat n
    | digits => (parseDigits digits).map Int.ofNat
  match signed with
  | none => .error "invalid syntax"
  | some n => if -2 ^ 31 ≤ n ∧ n < 2 ^ 31 then .ok n else .error "value out of range"

/-- `g.SplitRrdCacheKey`: the checksum, the type, the step and the error. -/
def splitRrdCacheKey (ckey : String) : String × String × Int × Option Err :=
  match ckey.toList.splitOn '_' with
  | [md5, dsType, step] =>
    match parseInt32 step with
    | .ok n => (String.ofList md5, String.ofList dsType, n, none)
    | .error reason =>
      (String.ofList md5, String.ofList dsType, 0,
        some (.plain ("strconv.ParseInt: parsing \"" ++ String.ofList step ++ "\": " ++ reason)))
  | _ => ("", "", 0, some (.plain ("bad rrd cache key: " ++ ckey)))

example : splitRrdCacheKey "ab_GAUGE_60" = ("ab", "GAUGE", 60, none) := by decide

/-- `RrdFileName` takes the first two bytes of the checksum, and panics if there are
fewer. -/
def rrdFileNamePanics (md5 : String) : Bool :=
  md5.utf8ByteSize < 2

/-- The file of a cache key, as `CommitByKey`, `GetRrd` and `fetch_rrd` compute it. -/
def keyFileName (storage key : String) : String :=
  let split := splitRrdCacheKey key
  rrdFileName storage split.1 split.2.1 split.2.2.1

/-! ## Files -/

/-- The names of the RRD files on the disk. -/
abbrev Files := List String

/-- `g.IsRrdFileExist`. -/
def isRrdFileExist (files : Files) (filename : String) : Bool :=
  filename ∈ files

/-- The call of a write task that fails. -/
inductive WriteFault where
  | none
  /-- `InsureDir` fails.  The worker reports that and tries the write all the same. -/
  | insureDir (err : Err) (created : Bool)
  | openFile (err : Err)
  /-- `Write` or `Close` fails, on a file that is open by now. -/
  | write (err : Err)

/-- `writeFile`: the file must not exist. -/
def writeFile (filename : String) (fault : WriteFault) (files : Files) : Option Err × Files :=
  if isRrdFileExist files filename then
    (some (.pathError "open" filename .EEXIST), files)
  else
    match fault with
    | .openFile err => (some err, files)
    | .write err => (some err, filename :: files)
    | _ => (none, filename :: files)

/-- The branch `IO_TASK_M_WRITE` of `ioWorker`: what the task's `done` delivers first, and
the files. -/
def ioWrite (filename : String) (fault : WriteFault) (files : Files) : Option Err × Files :=
  match fault with
  | .insureDir err created => (some err, if created then filename :: files else files)
  | fault => writeFile filename fault files

/-- The call of a flush that fails. -/
inductive FlushFault where
  | none
  | insureDir (err : Err)
  | create (err : Err)
  | update (err : Err)

/-- `flushrrd`, which `FlushFile` runs on an I/O worker. -/
def flushrrd {F : Type} (filename : String) (items : List (GraphItem F)) (fault : FlushFault)
    (files : Files) : Option Err × Files :=
  if items.isEmpty then (some (.plain "empty items"), files)
  else
    let update : Option Err :=
      match fault with
      | .update err => some err
      | _ => none
    if isRrdFileExist files filename then (update, files)
    else
      match fault with
      | .insureDir err => (some err, files)
      | .create err => (some err, files)
      | _ => (update, filename :: files)

/-- `ReadFile`, whether it finds the file. -/
def readFile (filename : String) (files : Files) : Option Err :=
  if isRrdFileExist files filename then none
  else some (.pathError "open" filename .ENOENT)

/-- **A write that reports success made the file.** -/
theorem ioWrite_eq_none {filename : String} {fault : WriteFault} {files : Files}
    (h : (ioWrite filename fault files).1 = none) :
    filename ∈ (ioWrite filename fault files).2 := by
  unfold ioWrite writeFile at h ⊢
  split at h
  · cases h
  · split at h
    · cases h
    · rename_i hnew
      rw [if_neg hnew]
      split at h
      · cases h
      · cases h
      · exact List.mem_cons_self

theorem subset_ioWrite (filename : String) (fault : WriteFault) (files : Files) :
    files ⊆ (ioWrite filename fault files).2 := by
  unfold ioWrite writeFile
  repeat' split
  all_goals simp

theorem subset_flushrrd {F : Type} (filename : String) (items : List (GraphItem F))
    (fault : FlushFault) (files : Files) : files ⊆ (flushrrd filename items fault files).2 := by
  unfold flushrrd
  repeat' split
  all_goals simp

end OpenFalcon.Graph

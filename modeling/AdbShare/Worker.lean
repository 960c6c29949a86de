import AdbShare.JobQueue
import AdbShare.Path
import AdbShare.Wire

/-! The worker of the transfer engine: what it does to the fields that a job's clones share,
to local files and to files on the device. The loops are given a number of rounds, after
which the program is stuck: a longer run is one with more rounds. -/
namespace AdbShare

def Status.debug : Status → String
  | .ok => "Ok"
  | .notFound => "NotFound"
  | .permissionDenied => "PermissionDenied"
  | .isDir => "IsDir"
  | .notDir => "NotDir"
  | .exists => "Exists"
  | .notEmpty => "NotEmpty"
  | .ioError => "IoError"
  | .invalidArg => "InvalidArg"
  | .noSpace => "NoSpace"
  | .nameTooLong => "NameTooLong"
  | .notSupported => "NotSupported"

/-- `Path::display`. -/
def Path.display (p : Path) : String := Utf8.toString (p.flatMap fun name => 47::name)

/-- `Display` of an error, up to the text of an operating system's own error. -/
def ProxyError.text : ProxyError → String
  | .io => "io"
  | .closed => "connection closed"
  | .tooLarge n => "response too large ("++toString n++" bytes)"
  | .status s msg => "server error: "++s.debug++" "++Utf8.toString msg
  | .invalid msg => "invalid response: "++msg
  | .poolExhausted => "connection pool exhausted"
  | .busy => "no free connection available (pool busy)"
  | .timeout => "request timed out"
  | .other msg => msg

namespace Worker

open Prog JobQueue

inductive Direction
  | push | pull
  deriving DecidableEq

inductive VerifyMode
  | off | on | onError
  deriving DecidableEq

inductive OverwriteMode
  | always | skipExisting | resume | rename
  deriving DecidableEq

/-- What is fixed about a job. -/
structure Task where
  direction : Direction
  source : Path
  destination : Path
  verify : VerifyMode
  overwrite : OverwriteMode

/-- `File::open` and `READ`; `create` and `write` without `truncate`; `File::create` and
`CREATE | WRITE | TRUNC`. -/
inductive OpenMode
  | read | update | create
  deriving DecidableEq

/-- Handles on local files and on files of the device. -/
abbrev File := ℕ

inductive Act : Type → Type
  | isCancelled : Act Bool
  | cancel : Act Unit
  | isPaused : Act Bool
  | setPaused (b : Bool) : Act Unit
  | state : Act JobState
  | setState (s : JobState) : Act Unit
  | setError (e : String) : Act Unit
  | markStarted : Act Unit
  | bytesTotal : Act UInt64
  | setTotal (n : ℕ) : Act Unit
  | addBytes (n : ℕ) : Act Unit
  /-- The tracker's tick and the stores of `speed_bps` and `eta_secs`. -/
  | progress (offset : ℕ) : Act Unit
  | sleep (ms : ℕ) : Act Unit
  /-- The length of a local file. -/
  | metadata (p : Path) : Act (Except String ℕ)
  | createDirAll (p : Path) : Act (Except String Unit)
  | openLocal (p : Path) (m : OpenMode) : Act (Except String File)
  | seek (f : File) (pos : ℕ) : Act (Except String Unit)
  | read (f : File) (max : ℕ) : Act (Except String Bytes)
  | writeAll (f : File) (data : Bytes) : Act (Except String Unit)
  | flush (f : File) : Act (Except String Unit)
  | removeFile (p : Path) : Act (Except String Unit)
  /-- The size of a file on the device. -/
  | stat (p : Path) : Act (Except ProxyError ℕ)
  | openRemote (p : Path) (m : OpenMode) : Act (Except ProxyError File)
  | readAt (f : File) (offset len : ℕ) : Act (Except ProxyError Bytes)
  | writeAt (f : File) (offset : ℕ) (data : Bytes) : Act (Except ProxyError Unit)
  | close (f : File) : Act (Except ProxyError Unit)
  | unlink (p : Path) : Act (Except ProxyError Unit)
  /-- Never happens. -/
  | stuck : Act Empty

abbrev Outcome := Except ProxyError Unit

def diverge {ρ : Type} : Prog Act ρ := .act .stuck Empty.elim

/-- `Job::pause`. -/
def pause : Prog Act Unit := do
  perform (.setPaused true)
  match ← perform .state with
  | .pending | .running => perform (.setState .paused)
  | _ => return ()

/-- `Job::resume`. -/
def resume : Prog Act Unit := do
  perform (.setPaused false)
  let s ← perform .state
  if s = .paused then perform (.setState .running) else return ()

def waitWhilePaused : ℕ → Prog Act Bool
  | 0 => diverge
  | rounds+1 => do
    if ← perform .isPaused then
      if ← perform .isCancelled then perform .isCancelled
      else do
        perform (.sleep 150)
        waitWhilePaused rounds
    else perform .isCancelled

/-- `job.is_cancelled() || self.wait_while_paused(job).await`. -/
def cancelledOrParked (rounds : ℕ) : Prog Act Bool := do
  if ← perform .isCancelled then return true else waitWhilePaused rounds

/-- `Path::file_name`. -/
def fileName (p : Path) : Option Bytes :=
  match p.getLast? with
  | some name => if name = [46,46] then none else some name
  | none => none

/-- `rsplit_file_at_dot`: before and after the last dot, if that is not the first byte. -/
def rsplitAtDot (name : Bytes) : Option Bytes × Option Bytes :=
  if 46 ∈ name then
    let after := (name.reverse.takeWhile (· ≠ 46)).reverse
    let before := name.take (name.length-after.length-1)
    if before = [] then (some name,none) else (some before,some after)
  else (none,some name)

def fileStem (p : Path) : Option Bytes := (fileName p).bind fun name => (rsplitAtDot name).1 <|> (rsplitAtDot name).2

def extension (p : Path) : Option Bytes :=
  (fileName p).bind fun name => (rsplitAtDot name).1.bind fun _ => (rsplitAtDot name).2

def decimal (n : ℕ) : Bytes := (Nat.toDigits 10 n).map fun c => UInt8.ofNat c.toNat

/-- The `n`th of the `RenameCandidates`: `name (n).ext`. -/
def renameCandidate (p : Path) (n : ℕ) : Path :=
  let stem := ((fileStem p).map Utf8.fromUtf8Lossy).getD [102,105,108,101]
  let ext := ((extension p).map fun e => 46::Utf8.fromUtf8Lossy e).getD []
  p.dropLast++[stem++[32,40]++decimal n++[41]++ext]

/-- The bytes of `.adbshare-new`. -/
def NEW_SUFFIX : Bytes := [46,97,100,98,115,104,97,114,101,45,110,101,119]

/-- `format!("{original}.adbshare-new")`. -/
def remoteFallback (original : Path) : Path := original.dropLast++[original.getLast?.getD []++NEW_SUFFIX]

def localFallback (original : Path) : Path :=
  match fileName original with
  | some name => original.dropLast++[Utf8.fromUtf8Lossy name++NEW_SUFFIX]
  | none => original++[NEW_SUFFIX]

def RENAME_ATTEMPTS : ℕ := 999

/-- The first of the candidates from the `n`th on that a probe does not find. -/
def pickRename {ε : Type} (probe : Path → Act (Except ε ℕ)) (candidate : ℕ → Path) (fallback : Path) :
    ℕ → ℕ → Prog Act Path
  | 0, _ => return fallback
  | left+1, n => do
    match ← perform (probe (candidate n)) with
    | .error _ => return candidate n
    | .ok _ => pickRename probe candidate fallback left (n+1)

def pickRemoteRename (original : Path) : Prog Act Path :=
  pickRename .stat (fun n => (renameCandidate original n).toTextLossy) (remoteFallback original)
    RENAME_ATTEMPTS 1

def pickLocalRename (original : Path) : Prog Act Path :=
  pickRename .metadata (renameCandidate original) (localFallback original) RENAME_ATTEMPTS 1

section

variable (sha256 : Bytes → String) (chunkSize rounds : ℕ)

/-- A loop that reads a file to its end, up to what it has fed to the hash. -/
def hashLoop {ε : Type} (read : ℕ → Act (Except ε Bytes)) : ℕ → Bytes → Prog Act (Except ε Bytes)
  | 0, _ => diverge
  | rounds+1, acc => do
    match ← perform (read acc.length) with
    | .error e => return .error e
    | .ok data => if data = [] then return .ok acc else hashLoop read rounds (acc++data)

/-- The loop of `sha256_file`. -/
def hashLocalLoop (f : File) : ℕ → Bytes → Prog Act (Except String Bytes) := hashLoop fun _ => .read f (64*1024)

def sha256File (p : Path) : Prog Act (Except String String) := do
  match ← perform (.openLocal p .read) with
  | .error e => return .error e
  | .ok f => do
    match ← hashLocalLoop f rounds [] with
    | .error e => return .error e
    | .ok data => return .ok (sha256 data)

def hashRemoteLoop (f : File) (want : ℕ) : ℕ → Bytes → Prog Act (Except ProxyError Bytes) :=
  hashLoop fun offset => .readAt f offset want

def hashRemote (p : Path) : Prog Act (Except ProxyError String) := do
  match ← perform (.openRemote p .read) with
  | .error e => return .error e
  | .ok f => do
    match ← hashRemoteLoop f (min chunkSize (2^32-1)) rounds [] with
    | .error e => return .error e
    | .ok data => do
      match ← perform (.close f) with
      | .error e => return .error (.other ("close remote file: "++e.text))
      | .ok _ => return .ok (sha256 data)

def verifyPaths (here there : Path) : Prog Act Outcome := do
  match ← sha256File sha256 rounds here with
  | .error e => return .error (.other ("verify: hashing local file failed: "++e))
  | .ok localHash => do
    match ← hashRemote sha256 chunkSize rounds there with
    | .error e => return .error (.other ("verify: hashing remote file failed: "++e.text))
    | .ok remoteHash =>
      if localHash ≠ remoteHash then
        return .error (.other ("verify: checksum mismatch (local sha256 "++localHash++
          ", remote sha256 "++remoteHash++")"))
      else return .ok ()

/-- Where and how the destination is written. -/
structure Plan where
  dest : Path
  offset : ℕ
  created : Bool
  mode : OpenMode

/-- The destination exists: complete without touching it. -/
def skip (size : ℕ) : Prog Act Outcome := do
  perform (.setTotal size)
  perform (.addBytes size)
  perform (.setState .skipped)
  return .ok ()

/-- The loop of both directions, for the actions that move a piece and what becomes of their errors. -/
def chunkLoop {ε δ : Type} (read : ℕ → Act (Except ε Bytes)) (write : ℕ → Bytes → Act (Except δ Unit))
    (readError : ε → ProxyError) (writeError : δ → ProxyError) : ℕ → ℕ → Prog Act Outcome
  | 0, _ => diverge
  | left+1, offset => do
    if ← cancelledOrParked rounds then return .error (.other "cancelled")
    else do
      match ← perform (read offset) with
      | .error e => return .error (readError e)
      | .ok data =>
        if data = [] then return .ok ()
        else do
          match ← perform (write offset data) with
          | .error e => return .error (writeError e)
          | .ok _ => do
            perform (.addBytes data.length)
            perform (.progress (offset+data.length))
            chunkLoop read write readError writeError left (offset+data.length)

def pushLoop (src dst : File) : ℕ → ℕ → Prog Act Outcome :=
  chunkLoop rounds (fun _ => .read src chunkSize) (.writeAt dst) (fun e => .other ("read source: "++e)) id

/-- What `push` does after its loop. -/
def pushFinish (task : Task) (plan : Plan) (dst : File) : Outcome → Prog Act Outcome
  | .error e => do
    let _ ← perform (.close dst)
    if plan.created then do
      let _ ← perform (.unlink plan.dest)
      return .error e
    else return .error e
  | .ok _ => do
    match ← perform (.close dst) with
    | .error e => return .error (.other ("close destination: "++e.text))
    | .ok _ =>
      if task.verify = .on then verifyPaths sha256 chunkSize rounds task.source plan.dest
      else return .ok ()

def pushOpened (task : Task) (plan : Plan) (src : File) : Prog Act Outcome := do
  match ← perform (.openRemote plan.dest plan.mode) with
  | .error e => return .error e
  | .ok dst => do
    let outcome ← pushLoop chunkSize rounds src dst rounds plan.offset
    pushFinish sha256 chunkSize rounds task plan dst outcome

def pushTo (task : Task) (plan : Plan) : Prog Act Outcome := do
  match ← perform (.openLocal task.source .read) with
  | .error e => return .error (.other e)
  | .ok src =>
    if plan.offset > 0 then do
      match ← perform (.seek src plan.offset) with
      | .error e => return .error (.other ("seek source: "++e))
      | .ok _ => do
        perform (.addBytes plan.offset)
        pushOpened sha256 chunkSize rounds task plan src
    else pushOpened sha256 chunkSize rounds task plan src

def push (task : Task) : Prog Act Outcome := do
  match ← perform (.metadata task.source) with
  | .error e => return .error (.other ("stat source: "++e))
  | .ok sourceLen => do
    let dest := task.destination.toTextLossy
    match ← perform (.stat dest) with
    | .error _ => pushTo sha256 chunkSize rounds task ⟨dest,0,true,.create⟩
    | .ok size =>
      match task.overwrite with
      | .skipExisting => skip size
      | .resume =>
        if size < sourceLen then pushTo sha256 chunkSize rounds task ⟨dest,size,false,.update⟩
        else pushTo sha256 chunkSize rounds task ⟨dest,0,false,.create⟩
      | .rename => do
        let dest ← pickRemoteRename dest
        pushTo sha256 chunkSize rounds task ⟨dest,0,true,.create⟩
      | .always => pushTo sha256 chunkSize rounds task ⟨dest,0,false,.create⟩

/-- `self.chunk_size as u32`. -/
def want : ℕ := chunkSize%2^32

def pullLoop (src dst : File) : ℕ → ℕ → Prog Act Outcome :=
  chunkLoop rounds (fun offset => .readAt src offset (want chunkSize)) (fun _ => .writeAll dst) id
    fun e => .other ("write destination: "++e)

def pullFinish (task : Task) (plan : Plan) (src dst : File) : Outcome → Prog Act Outcome
  | .error e => do
    let _ ← perform (.close src)
    if plan.created then do
      let _ ← perform (.flush dst)
      let _ ← perform (.removeFile plan.dest)
      return .error e
    else return .error e
  | .ok _ => do
    match ← perform (.close src) with
    | .error e => return .error (.other ("close source: "++e.text))
    | .ok _ => do
      match ← perform (.flush dst) with
      | .error e => return .error (.other e)
      | .ok _ =>
        if task.verify = .on then
          verifyPaths sha256 chunkSize rounds plan.dest task.source.toTextLossy
        else return .ok ()

def pullOpened (task : Task) (plan : Plan) (source : Path) (dst : File) : Prog Act Outcome := do
  match ← perform (.openRemote source .read) with
  | .error e => return .error e
  | .ok src => do
    let outcome ← pullLoop chunkSize rounds src dst rounds plan.offset
    pullFinish sha256 chunkSize rounds task plan src dst outcome

def pullTo (task : Task) (plan : Plan) (source : Path) : Prog Act Outcome := do
  match ← perform (.openLocal plan.dest plan.mode) with
  | .error e => return .error (.other ((if plan.mode = .update then "open destination: "
      else "create destination: ")++e))
  | .ok dst =>
    if plan.mode = .update then do
      match ← perform (.seek dst plan.offset) with
      | .error e => return .error (.other ("seek destination: "++e))
      | .ok _ => do
        perform (.addBytes plan.offset)
        pullOpened sha256 chunkSize rounds task plan source dst
    else pullOpened sha256 chunkSize rounds task plan source dst

def pullFrom (task : Task) (existing : Except String ℕ) (source : Path) : Prog Act Outcome :=
  let dest := task.destination
  match existing with
  | .error _ => pullTo sha256 chunkSize rounds task ⟨dest,0,true,.create⟩ source
  | .ok size =>
    match task.overwrite with
    | .skipExisting => skip size
    | .resume => do
      let total ← perform .bytesTotal
      if total = 0 ∨ size < total.toNat then
        pullTo sha256 chunkSize rounds task ⟨dest,size,false,.update⟩ source
      else pullTo sha256 chunkSize rounds task ⟨dest,0,false,.create⟩ source
    | .rename => do
      let dest ← pickLocalRename dest
      pullTo sha256 chunkSize rounds task ⟨dest,0,true,.create⟩ source
    | .always => pullTo sha256 chunkSize rounds task ⟨dest,0,false,.create⟩ source

/-- Whether the parent directory can be made does not matter yet. -/
def ensureParent (dest : Path) : Prog Act Unit :=
  match dest.parent with
  | some dir => do
    let _ ← perform (.createDirAll dir)
    return ()
  | none => return ()

def pull (task : Task) : Prog Act Outcome := do
  ensureParent task.destination
  let existing ← perform (.metadata task.destination)
  match task.source.toText with
  | none => return .error (.other ("source path is not valid UTF-8: "++task.source.display))
  | some source => pullFrom sha256 chunkSize rounds task existing source

/-- The path that an empty text stands for. -/
def noPath : Path := [[]]

/-- The size for progress reporting, and for a pull zero if it cannot be had. -/
def totalSize (task : Task) : Prog Act (Except ProxyError ℕ) :=
  match task.direction with
  | .push => do
    match ← perform (.metadata task.source) with
    | .error e => return .error (.other e)
    | .ok len => return .ok len
  | .pull => do
    match ← perform (.stat (task.source.toText.getD noPath)) with
    | .ok size => return .ok size
    | .error _ => do
      perform (.sleep 250)
      match ← perform (.stat (task.source.toText.getD noPath)) with
      | .ok size => return .ok size
      | .error _ => return .ok 0

def conclude (result : Outcome) : Prog Act Outcome := do
  if ← perform .isCancelled then do
    perform (.setError "cancelled")
    perform (.setState .cancelled)
    return .ok ()
  else
    match result with
    | .error e => do
      perform (.setError e.text)
      perform (.setState .failed)
      return .error e
    | .ok _ => do
      let s ← perform .state
      if s = .running then do
        perform (.setState .completed)
        return .ok ()
      else return .ok ()

def transfer (task : Task) : Prog Act Outcome :=
  match task.direction with
  | .push => push sha256 chunkSize rounds task
  | .pull => pull sha256 chunkSize rounds task

/-- A pause that landed while the job was pending is kept. -/
def markRunning : Prog Act Unit := do
  let s ← perform .state
  if s = .paused then return () else perform (.setState .running)

/-- `Worker::run`. -/
def run (task : Task) : Prog Act Outcome := do
  if ← perform .isCancelled then do
    perform (.setError "cancelled")
    perform (.setState .cancelled)
    return .ok ()
  else do
    markRunning
    perform .markStarted
    match ← totalSize task with
    | .error e => do
      perform (.setError e.text)
      perform (.setState .failed)
      return .error e
    | .ok total => do
      perform (.setTotal total)
      let result ← transfer sha256 chunkSize rounds task
      conclude result

end

/-- What the clock gives to the stores that depend on it. -/
structure Clock where
  now : ℕ
  speed : UInt64
  eta : UInt64

/-- The actions on the fields that the clones of a job share. -/
def fields (x : Clock) (c : Cell) : {β : Type} → Act β → Option (β × Cell)
  | _, .isCancelled => some (c.cancel,c)
  | _, .cancel => some ((),{ c with cancel := true })
  | _, .isPaused => some (c.paused,c)
  | _, .setPaused b => some ((),{ c with paused := b })
  | _, .state => some (c.state,c)
  | _, .setState s => some ((),{ c with state := s })
  | _, .setError e => some ((),{ c with error := some e })
  | _, .markStarted => some ((),{ c with started := some x.now })
  | _, .bytesTotal => some (c.bytesTotal,c)
  | _, .setTotal n => some ((),{ c with bytesTotal := .ofNat n })
  | _, .addBytes n => some ((),{ c with bytesDone := c.bytesDone+.ofNat n })
  | _, .progress _ => some ((),{ c with speedBps := x.speed, etaSecs := x.eta })
  | _, _ => none

/-- The state an action sets. -/
def Act.sets : {β : Type} → Act β → Option JobState
  | _, .setState s => some s
  | _, _ => none

theorem fields_state {x : Clock} {c c' : Cell} {β : Type} {a : Act β} {b : β}
    (h : fields x c a = some (b,c')) : c'.state = a.sets.getD c.state := by
  cases a <;> cases h <;> rfl

/-- The actions of a worker that waits for the job to go on. -/
def Waits (β : Type) : Act β → Prop
  | .isCancelled | .isPaused | .sleep _ | .stuck => True
  | _ => False

/-- The actions of a worker that compares what it has copied. -/
def Reads (β : Type) : Act β → Prop
  | .openLocal _ m | .openRemote _ m => m = .read
  | .read _ _ | .readAt _ _ _ | .close _ | .stuck => True
  | _ => False

/-- The actions that leave the files alone. -/
def Aloof (β : Type) : Act β → Prop
  | .createDirAll _ | .openLocal _ _ | .seek _ _ | .read _ _ | .writeAll _ _ | .flush _ | .removeFile _ => False
  | .openRemote _ _ | .readAt _ _ _ | .writeAt _ _ _ | .close _ | .unlink _ => False
  | _ => True

/-- The actions of a worker whose destination is open: it writes through the one handle, and
takes away the name only if the job made it. -/
def Handling (d : Direction) (plan : Plan) (dst : File) (β : Type) : Act β → Prop
  | .writeAt f _ _ => d = .push ∧ f = dst
  | .unlink p => d = .push ∧ p = plan.dest ∧ plan.created = true
  | .writeAll f _ | .flush f | .seek f _ => d = .pull ∧ f = dst
  | .removeFile p => d = .pull ∧ p = plan.dest ∧ plan.created = true
  | .openLocal _ m | .openRemote _ m => m = .read
  | .read _ _ | .readAt _ _ _ | .close _ | .addBytes _ | .progress _ => True
  | .isCancelled | .isPaused | .sleep _ | .stuck => True
  | _ => False

/-- The actions of the transfer itself: they do not look at the state of the job, and set it
only to skip. -/
def Bodily (β : Type) : Act β → Prop
  | .state => False
  | .setState s => s = .skipped
  | _ => True

section

theorem only_waitWhilePaused (rounds : ℕ) : (waitWhilePaused rounds).Only Waits := by
  induction rounds with
  | zero => exact ⟨trivial,fun b => b.elim⟩
  | succ rounds ih =>
    refine only_perform_bind trivial fun paused => ?_
    split
    · refine only_perform_bind trivial fun cancelled => ?_
      split
      · exact ⟨trivial,fun _ => trivial⟩
      · exact only_perform_bind trivial fun _ => ih
    · exact ⟨trivial,fun _ => trivial⟩

theorem only_cancelledOrParked (rounds : ℕ) : (cancelledOrParked rounds).Only Waits := by
  refine only_perform_bind trivial fun cancelled => ?_
  split
  · trivial
  · exact only_waitWhilePaused rounds

section

variable {d : Direction} {plan : Plan} {dst : File} (β : Type) (a : Act β)

theorem handling_of_waits (h : Waits β a) : Handling d plan dst β a := by
  cases a <;> trivial

theorem handling_of_reads (h : Reads β a) : Handling d plan dst β a := by
  cases a <;> first | exact h | trivial

theorem bodily_of_handling (h : Handling d plan dst β a) : Bodily β a := by
  cases a <;> first | exact h.elim | trivial

end

theorem only_pickRename {ε : Type} {probe : Path → Act (Except ε ℕ)} {candidate : ℕ → Path}
    {fallback : Path} (hprobe : ∀ p, Bodily _ (probe p)) (left n : ℕ) :
    (pickRename probe candidate fallback left n).Only Bodily := by
  induction left generalizing n with
  | zero => trivial
  | succ left ih =>
    refine only_perform_bind (hprobe _) fun r => ?_
    split
    · trivial
    · exact ih (n+1)

theorem only_pickRemoteRename (p : Path) : (pickRemoteRename p).Only Bodily := by
  apply only_pickRename
  exact fun _ => trivial

theorem only_pickLocalRename (p : Path) : (pickLocalRename p).Only Bodily := by
  apply only_pickRename
  exact fun _ => trivial

theorem only_skip (size : ℕ) : (skip size).Only Bodily :=
  only_perform_bind trivial fun _ => only_perform_bind trivial fun _ => only_perform_bind rfl fun _ => trivial

theorem only_skip_aloof (size : ℕ) : (skip size).Only Aloof :=
  only_perform_bind trivial fun _ => only_perform_bind trivial fun _ => only_perform_bind trivial fun _ => trivial

variable (sha256 : Bytes → String) (chunkSize rounds : ℕ) (task : Task)

theorem only_hashLoop {ε : Type} {read : ℕ → Act (Except ε Bytes)} (hread : ∀ offset, Reads _ (read offset)) (left : ℕ)
    (acc : Bytes) : (hashLoop read left acc).Only Reads := by
  induction left generalizing acc with
  | zero => exact ⟨trivial,fun b => b.elim⟩
  | succ left ih =>
    refine only_perform_bind (hread _) fun r => ?_
    split
    · trivial
    · split
      · trivial
      · exact ih _

theorem only_sha256File (p : Path) : (sha256File sha256 rounds p).Only Reads := by
  refine only_perform_bind rfl fun r => ?_
  split
  · trivial
  · refine only_bind (only_hashLoop ?_ _ _) fun r => ?_
    · exact fun _ => trivial
    · split <;> trivial

theorem only_hashRemote (p : Path) : (hashRemote sha256 chunkSize rounds p).Only Reads := by
  refine only_perform_bind rfl fun r => ?_
  split
  · trivial
  refine only_bind (only_hashLoop ?_ _ _) fun r => ?_
  · exact fun _ => trivial
  split
  · trivial
  · refine only_perform_bind trivial fun r => ?_
    split <;> trivial

theorem only_verifyPaths (here there : Path) : (verifyPaths sha256 chunkSize rounds here there).Only Reads := by
  refine only_bind (only_sha256File _ _ _) fun r => ?_
  split
  · trivial
  refine only_bind (only_hashRemote _ _ _ _) fun r => ?_
  split
  · trivial
  · split <;> trivial

section

variable {ε δ : Type} {read : ℕ → Act (Except ε Bytes)} {write : ℕ → Bytes → Act (Except δ Unit)}
  {readError : ε → ProxyError} {writeError : δ → ProxyError}

theorem only_chunkLoop {d : Direction} {plan : Plan} {dst : File} (hread : ∀ offset, Handling d plan dst _ (read offset))
    (hwrite : ∀ offset data, Handling d plan dst _ (write offset data)) (left offset : ℕ) :
    (chunkLoop rounds read write readError writeError left offset).Only (Handling d plan dst) := by
  induction left generalizing offset with
  | zero => exact ⟨trivial,fun b => b.elim⟩
  | succ left ih =>
    refine only_bind ((only_cancelledOrParked rounds).mono handling_of_waits) fun cancelled => ?_
    split
    · trivial
    refine only_perform_bind (hread offset) fun r => ?_
    split
    · trivial
    split
    · trivial
    refine only_perform_bind (hwrite offset _) fun r => ?_
    split
    · trivial
    · exact only_perform_bind trivial fun _ => only_perform_bind trivial fun _ => ih _

end

section

variable (plan : Plan)
include plan

theorem only_pushLoop (src dst : File) (left offset : ℕ) :
    (pushLoop chunkSize rounds src dst left offset).Only (Handling .push plan dst) := by
  apply only_chunkLoop
  · exact fun _ => trivial
  · exact fun _ _ => ⟨rfl,rfl⟩

theorem only_pullLoop (src dst : File) (left offset : ℕ) :
    (pullLoop chunkSize rounds src dst left offset).Only (Handling .pull plan dst) := by
  apply only_chunkLoop
  · exact fun _ => trivial
  · exact fun _ _ => ⟨rfl,rfl⟩

theorem only_pushFinish (dst : File) (outcome : Outcome) :
    (pushFinish sha256 chunkSize rounds task plan dst outcome).Only (Handling .push plan dst) := by
  cases outcome with
  | error e =>
    refine only_perform_bind trivial fun _ => ?_
    split
    · rename_i hcreated
      exact only_perform_bind ⟨rfl,rfl,hcreated⟩ fun _ => trivial
    · trivial
  | ok _ =>
    refine only_perform_bind trivial fun r => ?_
    split
    · trivial
    · split
      · exact (only_verifyPaths _ _ _ _ _).mono handling_of_reads
      · trivial

theorem only_pullFinish (src dst : File) (outcome : Outcome) :
    (pullFinish sha256 chunkSize rounds task plan src dst outcome).Only (Handling .pull plan dst) := by
  cases outcome with
  | error e =>
    refine only_perform_bind trivial fun _ => ?_
    split
    · rename_i hcreated
      exact only_perform_bind ⟨rfl,rfl⟩ fun _ => only_perform_bind ⟨rfl,rfl,hcreated⟩ fun _ => trivial
    · trivial
  | ok _ =>
    refine only_perform_bind trivial fun r => ?_
    split
    · trivial
    refine only_perform_bind ⟨rfl,rfl⟩ fun r => ?_
    split
    · trivial
    · split
      · exact (only_verifyPaths _ _ _ _ _).mono handling_of_reads
      · trivial

/-- What a pull does once its destination is open. -/
theorem only_pullOpened (source : Path) (dst : File) :
    (pullOpened sha256 chunkSize rounds task plan source dst).Only (Handling .pull plan dst) := by
  refine only_perform_bind rfl fun r => ?_
  split
  · trivial
  · exact only_bind (only_pullLoop _ _ _ _ _ _ _) fun _ => only_pullFinish _ _ _ _ _ _ _ _

theorem only_pushTo : (pushTo sha256 chunkSize rounds task plan).Only Bodily := by
  have hopened : ∀ src, (pushOpened sha256 chunkSize rounds task plan src).Only Bodily := by
    intro src
    refine only_perform_bind trivial fun r => ?_
    split
    · trivial
    · rename_i dst
      exact only_bind ((only_pushLoop _ _ plan _ dst _ _).mono bodily_of_handling) fun _ =>
        (only_pushFinish _ _ _ _ plan dst _).mono bodily_of_handling
  refine only_perform_bind trivial fun r => ?_
  split
  · trivial
  split
  · refine only_perform_bind trivial fun r => ?_
    split
    · trivial
    · exact only_perform_bind trivial fun _ => hopened _
  · exact hopened _

theorem only_pullTo (source : Path) : (pullTo sha256 chunkSize rounds task plan source).Only Bodily := by
  have hopened : ∀ dst, (pullOpened sha256 chunkSize rounds task plan source dst).Only Bodily := by
    intro dst
    exact (only_pullOpened _ _ _ _ plan _ dst).mono bodily_of_handling
  refine only_perform_bind trivial fun r => ?_
  split
  · trivial
  split
  · refine only_perform_bind trivial fun r => ?_
    split
    · trivial
    · exact only_perform_bind trivial fun _ => hopened _
  · exact hopened _

end

theorem only_push : (push sha256 chunkSize rounds task).Only Bodily := by
  refine only_perform_bind trivial fun r => ?_
  split
  · trivial
  refine only_perform_bind trivial fun r => ?_
  split
  · exact only_pushTo _ _ _ _ _
  split
  · exact only_skip _
  · split <;> exact only_pushTo _ _ _ _ _
  · exact only_bind (only_pickRemoteRename _) fun _ => only_pushTo _ _ _ _ _
  · exact only_pushTo _ _ _ _ _

theorem only_pull : (pull sha256 chunkSize rounds task).Only Bodily := by
  have hparent : (ensureParent task.destination).Only Bodily := by
    unfold ensureParent
    split
    · exact only_perform_bind trivial fun _ => trivial
    · trivial
  refine only_bind hparent fun _ => only_perform_bind trivial fun existing => ?_
  split
  · trivial
  unfold pullFrom
  split
  · exact only_pullTo _ _ _ _ _ _
  split
  · exact only_skip _
  · refine only_perform_bind trivial fun total => ?_
    split <;> exact only_pullTo _ _ _ _ _ _
  · exact only_bind (only_pickLocalRename _) fun _ => only_pullTo _ _ _ _ _ _
  · exact only_pullTo _ _ _ _ _ _

theorem only_transfer : (transfer sha256 chunkSize rounds task).Only Bodily := by
  unfold transfer
  split
  · exact only_push _ _ _ _
  · exact only_pull _ _ _ _

theorem only_totalSize {P : (β : Type) → Act β → Prop} (hmetadata : ∀ p, P _ (.metadata p))
    (hstat : ∀ p, P _ (.stat p)) (hsleep : ∀ ms, P _ (.sleep ms)) : (totalSize task).Only P := by
  unfold totalSize
  split
  · refine only_perform_bind (hmetadata _) fun r => ?_
    split <;> trivial
  refine only_perform_bind (hstat _) fun r => ?_
  split
  · trivial
  · refine only_perform_bind (hsleep _) fun _ => only_perform_bind (hstat _) fun r => ?_
    split <;> trivial

theorem only_markRunning : markRunning.Only Aloof := by
  refine only_perform_bind trivial fun s => ?_
  split
  · trivial
  · exact ⟨trivial,fun _ => trivial⟩

theorem only_conclude (result : Outcome) : (conclude result).Only Aloof := by
  refine only_perform_bind trivial fun cancelled => ?_
  split
  · exact only_perform_bind trivial fun _ => only_perform_bind trivial fun _ => trivial
  cases result with
  | error e => exact only_perform_bind trivial fun _ => only_perform_bind trivial fun _ => trivial
  | ok u =>
    refine only_perform_bind trivial fun s => ?_
    split
    · exact only_perform_bind trivial fun _ => trivial
    · trivial

end

end Worker
end AdbShare

import AdbShare.PathText
import AdbShare.StackWalk
import AdbShare.Worker

/-! The tree transfers of the daemon: `enqueue_tree_push` and `enqueue_tree_pull` walk a
directory tree with a stack of their own and queue a job for every file. A call is a program
of what it asks of the host, of the device and of the job queue; the loop is given a number
of rounds, after which the program is stuck. -/
namespace AdbShare.TreeWalk

open Prog PathText Worker

def TREE_MAX_DEPTH : ℕ := 32
def TREE_MAX_FILES : ℕ := 10000
def MAX_PATH : ℕ := 4096

/-- A string as the bus delivers it. -/
structure Text where
  bytes : Bytes
  utf8 : Utf8.validUtf8 bytes = true

structure JobOptions where
  overwrite : OverwriteMode
  verify : VerifyMode
  deriving DecidableEq

/-- `Job::with_device`, before the queue gives it a number. -/
structure NewJob where
  direction : Direction
  source : Bytes
  destination : Bytes
  options : JobOptions
  device : String
  deriving DecidableEq

inductive BusError
  | invalidArgs (msg : String)
  | serviceUnknown (msg : String)
  | failed (msg : String)
  deriving DecidableEq

structure TreeEnqueueResult where
  enqueued : List ℕ
  errors : List String
  deriving DecidableEq

abbrev Reply := Except BusError TreeEnqueueResult

inductive FileType
  | symlink | dir | file | other
  deriving DecidableEq

/-- An entry of `std::fs::read_dir`. -/
structure LocalEntry where
  name : FileName
  fileType : Except String FileType

/-- An element of the stack. -/
structure Level where
  source : Bytes
  target : Bytes
  depth : ℕ

inductive Act : Type → Type
  /-- Whether the device is connected. -/
  | clientFor (device : String) : Act Bool
  | readDir (dir : Bytes) : Act (Except String (List (Except String LocalEntry)))
  | createDirAll (path : Bytes) : Act (Except String Unit)
  | mkdir (path : Bytes) (mode : ℕ) : Act (Except ProxyError Unit)
  | listdir (path : Bytes) : Act (Except ProxyError (List DirEntry))
  | submit (job : NewJob) : Act ℕ
  /-- Never happens. -/
  | stuck : Act Empty

def parseJobOptions (overwrite : String) (verify : Bool) : Except BusError JobOptions :=
  let options := fun mode => JobOptions.mk mode (if verify then .on else .off)
  match overwrite with
  | "skip" => .ok (options .skipExisting)
  | "replace" => .ok (options .always)
  | "keep-both" => .ok (options .rename)
  | _ => .error (.invalidArgs "overwrite must be skip, replace, or keep-both")

def childPath (parent name : Bytes) : Bytes := trimEnd parent++SLASH::name

def checkTreePath (path : Bytes) : Except BusError Unit :=
  if isAbsolute path = false then .error (.invalidArgs "tree paths must be absolute")
  else if 0 ∈ path ∨ path.length > MAX_PATH then
    .error (.invalidArgs "tree paths must be non-NUL and at most 4096 bytes")
  else .ok ()

def treeFileCapError (count : ℕ) : Option String :=
  if count ≥ TREE_MAX_FILES then some ("too many files (limit "++toString TREE_MAX_FILES++")") else none

def treeDepthError (path : Bytes) (depth : ℕ) : Option String :=
  if depth ≥ TREE_MAX_DEPTH then some (Utf8.toString path++": directory nesting too deep") else none

namespace TreeEnqueueResult

def empty : TreeEnqueueResult := ⟨[],[]⟩

variable (out : TreeEnqueueResult)

def report (e : String) : TreeEnqueueResult := { out with errors := out.errors++[e] }

def queued (id : ℕ) : TreeEnqueueResult := { out with enqueued := out.enqueued++[id] }

end TreeEnqueueResult

section

variable (device : String) (options : JobOptions)

def readError (dir : Bytes) (e : String) : BusError := .failed ("read "++Utf8.toString dir++": "++e)
def statError (path : Bytes) (e : String) : BusError := .failed ("stat "++Utf8.toString path++": "++e)
def listError (dir : Bytes) (e : ProxyError) : BusError := .failed ("list "++Utf8.toString dir++": "++e.text)
def mkdirError (path : Bytes) (e : String) : BusError := .failed ("mkdir "++Utf8.toString path++": "++e)

/-- `remote.join(entry.file_name()).to_string_lossy()`. -/
def remoteStr (x : Level) (entry : LocalEntry) : Bytes := Utf8.fromUtf8Lossy (join x.target entry.name.bytes)

def pushJob (x : Level) (entry : LocalEntry) : NewJob :=
  ⟨.push,join x.source entry.name.bytes,remoteStr x entry,options,device⟩

def pushChild (x : Level) (entry : LocalEntry) : Level :=
  ⟨join x.source entry.name.bytes,join x.target entry.name.bytes,x.depth+1⟩

/-- The loop over the entries of a directory: what the call returns, or what it goes on with. -/
def pushEntries (x : Level) : List (Except String LocalEntry) → TreeEnqueueResult → List Level →
    Prog Act (Except Reply (TreeEnqueueResult × List Level))
  | [], out, stack => return .ok (out,stack)
  | .error e::_, _, _ => return .error (.error (readError x.source e))
  | .ok entry::rest, out, stack =>
    match treeFileCapError out.enqueued.length with
    | some e => return .error (.ok (out.report e))
    | none =>
      match entry.fileType with
      | .error e => return .error (.error (statError (join x.source entry.name.bytes) e))
      | .ok .symlink => pushEntries x rest out stack
      | .ok .dir => do
        let _ ← perform (.mkdir (remoteStr x entry) 0o755)
        pushEntries x rest out (pushChild x entry::stack)
      | .ok .file => do
        let id ← perform (.submit (pushJob device options x entry))
        pushEntries x rest (out.queued id) stack
      | .ok .other => pushEntries x rest out stack

/-- A round of the loop in `enqueue_tree_push`. -/
def visitPush (x : Level) (out : TreeEnqueueResult) (stack : List Level) :
    Prog Act (Except Reply (TreeEnqueueResult × List Level)) :=
  match treeDepthError x.source x.depth with
  | some e => return .ok (out.report e,stack)
  | none => do
    match ← perform (.readDir x.source) with
    | .error e => return .error (.error (readError x.source e))
    | .ok entries => pushEntries device options x entries out stack

def pullJob (x : Level) (entry : DirEntry) : NewJob :=
  ⟨.pull,childPath x.source entry.name,join x.target entry.name,options,device⟩

def pullChild (x : Level) (entry : DirEntry) : Level :=
  ⟨childPath x.source entry.name,join x.target entry.name,x.depth+1⟩

def pullEntries (x : Level) : List DirEntry → TreeEnqueueResult → List Level →
    Prog Act (Except Reply (TreeEnqueueResult × List Level))
  | [], out, stack => return .ok (out,stack)
  | entry::rest, out, stack =>
    match treeFileCapError out.enqueued.length with
    | some e => return .error (.ok (out.report e))
    | none =>
      if entry.stat.mode.isSymlink then pullEntries x rest out stack
      else if entry.stat.mode.isDir then do
        match ← perform (.createDirAll (join x.target entry.name)) with
        | .error e => return .error (.error (mkdirError (join x.target entry.name) e))
        | .ok _ => pullEntries x rest out (pullChild x entry::stack)
      else do
        let id ← perform (.submit (pullJob device options x entry))
        pullEntries x rest (out.queued id) stack

/-- A round of the loop in `enqueue_tree_pull`. -/
def visitPull (x : Level) (out : TreeEnqueueResult) (stack : List Level) :
    Prog Act (Except Reply (TreeEnqueueResult × List Level)) :=
  match treeDepthError x.source x.depth with
  | some e => return .ok (out.report e,stack)
  | none => do
    match ← perform (.listdir x.source) with
    | .error e => return .error (.error (listError x.source e))
    | .ok entries => pullEntries device options x entries out stack

end

/-- `while let Some(..) = stack.pop()`; the top of the stack comes first. -/
def treeLoop (visit : Level → TreeEnqueueResult → List Level → Prog Act (Except Reply (TreeEnqueueResult × List Level))) :
    ℕ → List Level → TreeEnqueueResult → Prog Act Reply
  | 0, _, _ => .act .stuck Empty.elim
  | _+1, [], out => return .ok out
  | rounds+1, x::stack, out => do
    match ← visit x out stack with
    | .error reply => return reply
    | .ok (out,stack) => treeLoop visit rounds stack out

def notConnected : BusError := .serviceUnknown "device not connected"

/-- What both calls check before anything else. -/
def checkArgs (overwrite : String) (verify : Bool) (first second : Bytes) : Except BusError JobOptions := do
  let options ← parseJobOptions overwrite verify
  checkTreePath first
  checkTreePath second
  return options

def enqueueTreePush (rounds : ℕ) (device : String) (localDir deviceDir : Text) (overwrite : String)
    (verify : Bool) : Prog Act Reply :=
  match checkArgs overwrite verify localDir.bytes deviceDir.bytes with
  | .error e => return .error e
  | .ok options => do
    if ← perform (.clientFor device) then
      treeLoop (visitPush device options) rounds [⟨localDir.bytes,deviceDir.bytes,0⟩] .empty
    else return .error notConnected

def enqueueTreePull (rounds : ℕ) (device : String) (deviceDir localDir : Text) (overwrite : String)
    (verify : Bool) : Prog Act Reply :=
  match checkArgs overwrite verify deviceDir.bytes localDir.bytes with
  | .error e => return .error e
  | .ok options => do
    match ← perform (.createDirAll localDir.bytes) with
    | .error e => return .error (mkdirError localDir.bytes e)
    | .ok _ => do
      if ← perform (.clientFor device) then
        treeLoop (visitPull device options) rounds [⟨deviceDir.bytes,localDir.bytes,0⟩] .empty
      else return .error notConnected

end AdbShare.TreeWalk

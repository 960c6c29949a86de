import AdbShare.Listing
import AdbShare.PathText
import AdbShare.Prog

/-! The request dispatcher of the proxy that runs on the device. A request is the program of
the calls it makes: to the kernel, which sees a path as a C string, and to the table of
descriptors that all connections share. Descriptors are plain numbers; a kernel has far fewer
than 2^31 of them, so the casts between `u32` and `i32` are left out. -/
namespace AdbShare.ProxyDevice

open Listing (MAX_PATH LISTDIR_PAGE DirName LibcStat cStr encodeStat isDots fullPath encodeEntry readPath frameReply)
open PathText (SLASH pieces isAbsolute)
open Prog (perform)

inductive OFlag
  | rdonly | wronly | rdwr | creat | excl | trunc | append | nonblock | nofollow | directory
  deriving DecidableEq, Repr

/-- The calls of a request. Errors are `errno` values; where the source looks at none, a call
only says whether it worked. `fsOpen` is `OpenOptions::open`, `closeFile` the drop of a `File`. -/
inductive Sys : Type → Type
  | openFile (path : Bytes) (flags : List OFlag) (mode : ℕ) : Sys (Except ℕ ℕ)
  | close (fd : ℕ) : Sys Bool
  | pread (fd len : ℕ) (off : Int64) : Sys (Option Bytes)
  | pwrite (fd : ℕ) (data : Bytes) (off : Int64) : Sys (Option ℕ)
  | stat (path : Bytes) : Sys (Except ℕ LibcStat)
  | lstat (path : Bytes) : Sys (Except ℕ LibcStat)
  | fstat (fd : ℕ) : Sys (Option LibcStat)
  | opendir (path : Bytes) : Sys (Except ℕ (ℕ × List DirName))
  | closedir (dir : ℕ) : Sys Unit
  | mkdir (path : Bytes) (mode : ℕ) : Sys Bool
  | unlink (path : Bytes) : Sys Bool
  | rmdir (path : Bytes) : Sys Bool
  | rename (src dst : Bytes) : Sys Bool
  | truncate (path : Bytes) (size : Int64) : Sys Bool
  | realpath (path : Bytes) : Sys (Option Bytes)
  | readlink (path : Bytes) (size : ℕ) : Sys (Except ℕ Bytes)
  | symlink (target linkpath : Bytes) : Sys Bool
  | utimes (path : Bytes) (atime mtime : Int64) : Sys Bool
  | statvfs (path : Bytes) : Sys (Option (UInt64 × UInt64 × UInt64))
  | fsOpen (path : Bytes) (flags : List OFlag) : Sys (Except ℕ ℕ)
  | metadata (file : ℕ) : Sys (Except ℕ LibcStat)
  | openat (dir : ℕ) (name : Bytes) : Sys (Except ℕ ℕ)
  | copy (source size destination : ℕ) : Sys (Except ℕ ℕ)
  | syncAll (file : ℕ) : Sys (Except ℕ Unit)
  | identity (file : ℕ) : Sys (Option (ℕ × ℕ))
  | fstatat (dir : ℕ) (name : Bytes) : Sys (Option (ℕ × ℕ))
  | unlinkat (dir : ℕ) (name : Bytes) : Sys Unit
  | closeFile (file : ℕ) : Sys Unit
  | track (fd conn : ℕ) : Sys Unit
  | untrack (fd : ℕ) : Sys Unit

/-- The paths and names a call hands to the kernel. -/
def Sys.paths : {β : Type} → Sys β → List Bytes
  | _, .openFile p _ _ | _, .stat p | _, .lstat p | _, .opendir p | _, .mkdir p _ | _, .unlink p => [p]
  | _, .rmdir p | _, .truncate p _ | _, .realpath p | _, .readlink p _ | _, .utimes p _ _ => [p]
  | _, .statvfs p | _, .fsOpen p _ | _, .openat _ p | _, .fstatat _ p | _, .unlinkat _ p => [p]
  | _, .rename p q | _, .symlink p q => [p,q]
  | _, _ => []

def text (s : String) : Bytes := s.toUTF8.toList

def invalid (msg : String) : Prog Sys Bytes := pure (0x08::text msg)

def badPath : Prog Sys Bytes := invalid "bad path"

/-- How a call that only says whether it worked is answered. -/
def outcome (r : Bool) (msg : String) : Prog Sys Bytes := pure (if r then [0] else 0x07::text msg)

def report : Except (UInt8 × Bytes) Bytes → Prog Sys Bytes
  | .ok data => pure (0::data)
  | .error (s,msg) => pure (s::msg)

/-- An arm that starts with `read_path`. -/
def withPath (args : Bytes) (k : Bytes → Bytes → Prog Sys Bytes) : Prog Sys Bytes :=
  match readPath args with
  | none => badPath
  | some (path,rest) => k path rest

/-- `CString::new`: a NUL inside is refused. -/
def cstring (path : Bytes) : Option Bytes := if 0 ∈ path then none else some path

def withCString (path : Bytes) (k : Bytes → Prog Sys Bytes) : Prog Sys Bytes :=
  match cstring path with
  | none => badPath
  | some p => k p

def u32At (args : Bytes) (i : ℕ) : ℕ := fromLe ((args.drop i).take 4)
def i64At (args : Bytes) (i : ℕ) : Int64 := (UInt64.ofNat (fromLe ((args.drop i).take 8))).toInt64

def flagIf (b : Bool) (flag : OFlag) : List OFlag := if b then [flag] else []

def openFlags (proto : ℕ) : List OFlag :=
  let access : OFlag := if proto.testBit 0 && proto.testBit 1 then .rdwr else if proto.testBit 1 then .wronly else .rdonly
  access::(flagIf (proto.testBit 2) .creat++flagIf (proto.testBit 3) .excl++
    flagIf (proto.testBit 4) .trunc++flagIf (proto.testBit 5) .append)

/-- The path goes to the kernel with a NUL pushed behind it, whatever is in it. -/
def handleOpen (args : Bytes) : Prog Sys (Except (UInt8 × Bytes) ℕ) :=
  if args.length < 8 then pure (.error (0x08,text "short"))
  else if args.length < 12 then pure (.error (0x08,text "short"))
  else if args.length < 12+u32At args 8 then pure (.error (0x08,text "short"))
  else do
    let path := (args.drop 12).take (u32At args 8)
    match ← perform (.openFile (cStr path) (openFlags (u32At args 0)) (u32At args 4)) with
    | .error _ => pure (.error (0x07,text "open"))
    | .ok fd => pure (.ok fd)

def dispatchOpen (args : Bytes) (conn : ℕ) : Prog Sys Bytes := do
  match ← handleOpen args with
  | .ok fd =>
    perform (.track fd conn)
    pure (0::toLe 4 fd)
  | .error (s,msg) => pure (s::msg)

def dispatchClose (args : Bytes) : Prog Sys Bytes :=
  if args.length < 4 then invalid "short"
  else do
    if ← perform (.close (u32At args 0)) then
      perform (.untrack (u32At args 0))
      pure [0]
    else pure (0x07::text "close failed")

def dispatchRead (args : Bytes) : Prog Sys Bytes :=
  if args.length < 16 then invalid "short"
  else if u32At args 12 > MAX_RESPONSE then pure (0x07::text "too big")
  else do
    match ← perform (.pread (u32At args 0) (u32At args 12) (i64At args 4)) with
    | none => pure (0x07::text "pread")
    | some data => pure (0::data)

def dispatchWrite (args : Bytes) : Prog Sys Bytes :=
  if args.length < 16 then invalid "short"
  else if args.length < 16+u32At args 12 then invalid "short"
  else do
    match ← perform (.pwrite (u32At args 0) ((args.drop 16).take (u32At args 12)) (i64At args 4)) with
    | none => pure (0x07::text "pwrite")
    | some n => if n ≠ u32At args 12 then pure (0x07::text "short write") else pure [0]

def dispatchFstat (args : Bytes) : Prog Sys Bytes :=
  if args.length < 4 then invalid "short fstat"
  else do
    match ← perform (.fstat (u32At args 0)) with
    | none => pure (0x07::text "fstat")
    | some st => pure (0::encodeStat st)

def dispatchMkdir (args : Bytes) : Prog Sys Bytes :=
  withPath args fun path rest =>
    if rest.length < 4 then invalid "short"
    else withCString path fun p => do outcome (← perform (.mkdir p (u32At rest 0))) "mkdir"

def dispatchUnlink (args : Bytes) : Prog Sys Bytes :=
  withPath args fun path _ => withCString path fun p => do outcome (← perform (.unlink p)) "unlink"

def dispatchRmdir (args : Bytes) : Prog Sys Bytes :=
  withPath args fun path _ => withCString path fun p => do outcome (← perform (.rmdir p)) "rmdir"

def dispatchRename (args : Bytes) : Prog Sys Bytes :=
  withPath args fun src rest => withPath rest fun dst _ =>
    withCString src fun s => withCString dst fun d => do outcome (← perform (.rename s d)) "rename"

def dispatchTruncate (args : Bytes) : Prog Sys Bytes :=
  withPath args fun path rest =>
    if rest.length < 8 then invalid "short"
    else withCString path fun p => do outcome (← perform (.truncate p (i64At rest 0))) "truncate"

def dispatchRealpath (args : Bytes) : Prog Sys Bytes :=
  withPath args fun path _ => withCString path fun p => do
    match ← perform (.realpath p) with
    | none => pure (0x01::text "realpath")
    | some resolved => pure (0::(toLe 4 resolved.length++resolved))

def dispatchSymlink (args : Bytes) : Prog Sys Bytes :=
  withPath args fun target rest => withPath rest fun linkpath _ =>
    withCString target fun t => withCString linkpath fun l => do outcome (← perform (.symlink t l)) "symlink"

def dispatchUtime (args : Bytes) : Prog Sys Bytes :=
  withPath args fun path rest =>
    if rest.length < 16 then invalid "short"
    else withCString path fun p => do outcome (← perform (.utimes p (i64At rest 0) (i64At rest 8))) "utimes"

def dispatchStatvfs (args : Bytes) : Prog Sys Bytes :=
  withPath args fun path _ => withCString path fun p => do
    match ← perform (.statvfs p) with
    | none => pure (0x07::text "statvfs")
    | some (bavail,blocks,bsize) => pure (0::(toLe 8 bavail.toNat++(toLe 8 blocks.toNat++toLe 8 bsize.toNat)))

/-- The last piece of a path: `file_name` when it is none of ``, `.` and `..`. -/
def lastPiece (path : Bytes) : Bytes := (pieces path).getLastD []

/-- `Path::parent` of an absolute path: empty pieces and dots at the end go with the name. -/
def parentDir (path : Bytes) : Bytes :=
  SLASH::[SLASH].intercalate ((pieces path).tail.dropLast.rdropWhile fun c => decide (c = [] ∨ c = PathText.dot))

/-- Both paths absolute, free of NUL and nothing behind them. -/
def readTwoPaths (args : Bytes) : Option (Bytes × Bytes) := do
  let (src,rest) ← readPath args
  let (dst,rest) ← readPath rest
  if rest ≠ [] ∨ [src,dst].any (fun p => !isAbsolute p || p.contains 0) then none else some (src,dst)

def removeOwnedPartial (parent : ℕ) (name : Bytes) (file : ℕ) : Prog Sys Unit := do
  match ← perform (.identity file) with
  | none => pure ()
  | some owned =>
    match ← perform (.fstatat parent name) with
    | none => pure ()
    | some current => if current = owned then perform (.unlinkat parent name) else pure ()

/-! `errorText` is `to_string` of an error the system reported. -/
section

variable (errorText : ℕ → Bytes)

/-- ENOENT, EACCES and EPERM, ENOTDIR, ELOOP, ENAMETOOLONG; the rest is an I/O error. -/
def statError (errno : ℕ) : UInt8 × Bytes :=
  (if errno = 2 then 0x01
    else if errno = 13 ∨ errno = 1 then 0x02
    else if errno = 20 then 0x04
    else if errno = 40 then 0x08
    else if errno = 36 then 0x0A
    else 0x07,errorText errno)

/-- ENOENT, EACCES and EPERM, EISDIR, ENOTDIR, EEXIST, EINVAL and ELOOP, ENOSPC,
ENAMETOOLONG; the rest is an I/O error. -/
def copyError (errno : ℕ) : UInt8 × Bytes :=
  (if errno = 2 then 0x01
    else if errno = 13 ∨ errno = 1 then 0x02
    else if errno = 21 then 0x03
    else if errno = 20 then 0x04
    else if errno = 17 then 0x05
    else if errno = 22 ∨ errno = 40 then 0x08
    else if errno = 28 then 0x09
    else if errno = 36 then 0x0A
    else 0x07,errorText errno)

def doStat (path : Bytes) : Prog Sys (Except (UInt8 × Bytes) Bytes) := do
  match ← perform (.stat (cStr path)) with
  | .error errno => pure (.error (statError errorText errno))
  | .ok st => pure (.ok (encodeStat st))

def doLstat (path : Bytes) : Prog Sys (Except (UInt8 × Bytes) Bytes) := do
  match ← perform (.lstat (cStr path)) with
  | .error errno => pure (.error (statError errorText errno))
  | .ok st => pure (.ok (encodeStat st))

/-- The readdir loop. -/
def listdirLoop (path : Bytes) (offset maxEntries : ℕ) : List DirName → ℕ → ℕ → Bytes → Prog Sys (ℕ × Bytes)
  | [], _, emitted, body => pure (emitted,body)
  | ent::ents, seen, emitted, body =>
    if isDots ent.bytes then listdirLoop path offset maxEntries ents seen emitted body
    else if seen+1 ≤ offset then listdirLoop path offset maxEntries ents (seen+1) emitted body
    else do
      match ← perform (.lstat (cStr (fullPath path ent.bytes))) with
      | .error _ => listdirLoop path offset maxEntries ents (seen+1) emitted body
      | .ok st =>
        if emitted+1 ≥ maxEntries then pure (emitted+1,body++encodeEntry ent.bytes st)
        else listdirLoop path offset maxEntries ents (seen+1) (emitted+1) (body++encodeEntry ent.bytes st)

def doListdir (path : Bytes) (offset maxEntries : ℕ) : Prog Sys (Except (UInt8 × Bytes) Bytes) := do
  match ← perform (.opendir (cStr path)) with
  | .error errno => pure (.error (statError errorText errno))
  | .ok (dir,ents) =>
    let page ← listdirLoop path offset maxEntries ents 0 0 []
    perform (.closedir dir)
    pure (.ok (toLe 4 page.1++page.2))

def dispatchStat (args : Bytes) : Prog Sys Bytes :=
  withPath args fun path _ => do report (← doStat errorText path)

def dispatchLstat (args : Bytes) : Prog Sys Bytes :=
  withPath args fun path _ => do report (← doLstat errorText path)

def dispatchListDir (args : Bytes) : Prog Sys Bytes :=
  withPath args fun path rest => do
    let window := if rest.length ≥ 8 then (u32At rest 0,u32At rest 4) else (0,LISTDIR_PAGE)
    report (← doListdir errorText path window.1 (max window.2 1))

/-- A name that is no symbolic link (EINVAL) is an invalid argument. -/
def dispatchReadlink (args : Bytes) : Prog Sys Bytes :=
  withPath args fun path _ => withCString path fun p => do
    match ← perform (.readlink p 4096) with
    | .error errno =>
      let (status,msg) := if errno = 22 then (0x08,errorText errno) else statError errorText errno
      pure (status::msg)
    | .ok target => pure (0::(toLe 4 target.length++target))

/-- The bytes and the sync; the source is closed once the bytes are through. -/
def copyInto (source size destination : ℕ) : Prog Sys (Except (UInt8 × Bytes) Unit) := do
  let copied ← perform (.copy source size destination)
  perform (.closeFile source)
  match copied with
  | .error errno => pure (.error (copyError errorText errno))
  | .ok n =>
    if n ≠ size then pure (.error (0x07,text "source shortened during copy"))
    else match ← perform (.syncAll destination) with
      | .error errno => pure (.error (copyError errorText errno))
      | .ok () => pure (.ok ())

def copyIntoOwned (source size destination parent : ℕ) (name : Bytes) :
    Prog Sys (Except (UInt8 × Bytes) Unit) := do
  match ← copyInto errorText source size destination with
  | .error e =>
    removeOwnedPartial parent name destination
    pure (.error e)
  | .ok () => pure (.ok ())

/-- `do_copy_file` once the source is known to be a regular file. -/
def copyOpened (source size : ℕ) (dst : Bytes) : Prog Sys (Except (UInt8 × Bytes) Unit) :=
  let name := lastPiece dst
  if name = [] ∨ name = PathText.dot ∨ name = PathText.dotdot then do
    perform (.closeFile source)
    pure (.error (0x08,text "destination must name a file"))
  else do
    match ← perform (.fsOpen (parentDir dst) [.directory]) with
    | .error errno =>
      perform (.closeFile source)
      pure (.error (copyError errorText errno))
    | .ok parent =>
      match ← perform (.openat parent name) with
      | .error errno =>
        perform (.closeFile parent)
        perform (.closeFile source)
        pure (.error (copyError errorText errno))
      | .ok destination =>
        let result ← copyIntoOwned errorText source size destination parent name
        perform (.closeFile destination)
        perform (.closeFile parent)
        pure result

def doCopyFile (src dst : Bytes) : Prog Sys (Except (UInt8 × Bytes) Unit) :=
  if [src,dst].any (fun p => !isAbsolute p || p.contains 0 || decide (p.length > MAX_PATH))
  then pure (.error (0x08,text "bad path"))
  else do
    match ← perform (.fsOpen src [.nofollow,.nonblock]) with
    | .error errno => pure (.error (copyError errorText errno))
    | .ok source =>
      match ← perform (.metadata source) with
      | .error errno =>
        perform (.closeFile source)
        pure (.error (copyError errorText errno))
      | .ok metadata =>
        if metadata.st_mode &&& FileMode.S_IFMT = FileMode.S_IFREG
        then copyOpened errorText source metadata.st_size.toUInt64.toNat dst
        else do
          perform (.closeFile source)
          pure (.error (if metadata.st_mode &&& FileMode.S_IFMT = FileMode.S_IFDIR then 0x03 else 0x08,
            text "source must be a regular file"))

def dispatchCopy (args : Bytes) : Prog Sys Bytes :=
  match readTwoPaths args with
  | none => badPath
  | some (src,dst) => do
    match ← doCopyFile errorText src dst with
    | .ok () => pure [0]
    | .error (s,msg) => pure (s::msg)

/-- The match of `dispatch`: status byte and payload. -/
def serve (op : UInt8) (args : Bytes) (conn : ℕ) : Prog Sys Bytes :=
  match op.toNat with
  | 0x01 => dispatchOpen args conn
  | 0x02 => dispatchClose args
  | 0x03 => dispatchRead args
  | 0x04 => dispatchWrite args
  | 0x05 => dispatchStat errorText args
  | 0x0F => dispatchLstat errorText args
  | 0x13 => dispatchFstat args
  | 0x06 => dispatchListDir errorText args
  | 0x07 => dispatchMkdir args
  | 0x08 => dispatchUnlink args
  | 0x09 => dispatchRmdir args
  | 0x0A => dispatchRename args
  | 0x0B => dispatchTruncate args
  | 0x0C => dispatchRealpath args
  | 0x0D => dispatchReadlink errorText args
  | 0x0E => dispatchSymlink args
  | 0x10 => dispatchUtime args
  | 0x11 => dispatchStatvfs args
  | 0x12 => dispatchCopy errorText args
  | _ => pure (0x0B::text "unknown op")

def dispatch (op : UInt8) (args : Bytes) (conn : ℕ) : Prog Sys Bytes := do
  pure (frameReply (← serve errorText op args conn))

end

/-- A device that is only listed: what it answers to the calls of a listing. -/
def answer (dev : Listing.Device) : (β : Type) → Sys β → Unit → Option (β × Unit)
  | _, .opendir p, () => some ((dev.opendir p).map fun ents => (0,ents),())
  | _, .lstat p, () => some (dev.lstat p,())
  | _, .closedir _, () => some ((),())
  | _, _, () => none

theorem play_listdirLoop (dev : Listing.Device) (path : Bytes) (offset maxEntries : ℕ) (ents : List DirName)
    (seen emitted : ℕ) (body : Bytes) : (listdirLoop path offset maxEntries ents seen emitted body).play (answer dev) () =
      some (Listing.listdirLoop dev path offset maxEntries ents seen emitted body,()) := by
  induction ents generalizing seen emitted body with
  | nil => rfl
  | cons ent ents ih =>
    rw [listdirLoop,Listing.listdirLoop]
    by_cases hdots : isDots ent.bytes
    · rw [if_pos hdots,if_pos hdots]
      exact ih ..
    rw [if_neg hdots,if_neg hdots]
    by_cases hskip : seen+1 ≤ offset
    · rw [if_pos hskip,if_pos hskip]
      exact ih ..
    rw [if_neg hskip,if_neg hskip,Prog.play_perform_bind,answer,Option.bind_some]
    cases dev.lstat (cStr (fullPath path ent.bytes)) with
    | error e => exact ih ..
    | ok st =>
      by_cases hfull : emitted+1 ≥ maxEntries
      · simp only [if_pos hfull]
        rfl
      · simp only [if_neg hfull]
        exact ih ..

/-- A listing served by the dispatcher is the page the directory listings are built from. -/
theorem play_dispatchListDir (dev : Listing.Device) (args : Bytes) (conn : ℕ) :
    (dispatch dev.errorText 0x06 args conn).play (answer dev) () =
      some (frameReply (Listing.dispatchListDir dev args),()) := by
  change ((dispatchListDir dev.errorText args >>= fun out => pure (frameReply out)).play (answer dev) ()) = _
  rw [dispatchListDir,withPath,Listing.dispatchListDir]
  cases readPath args with
  | none => rfl
  | some pathRest =>
    obtain ⟨path,rest⟩ := pathRest
    dsimp only
    rw [Prog.play_bind,Prog.play_bind,doListdir,Prog.play_perform_bind,answer,Option.bind_some,Listing.doListdir]
    cases dev.opendir (cStr path) with
    | error errno => rfl
    | ok ents =>
      simp only [Except.map,Prog.play_bind,play_listdirLoop]
      rfl

end AdbShare.ProxyDevice

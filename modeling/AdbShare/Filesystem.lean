import AdbShare.Cache
import AdbShare.Inodes
import AdbShare.Interleave
import AdbShare.Wire

/-! The FUSE file system. Each handler is a program of atomic actions in the order of the
source: a call to the device, a critical section of a map or of a cache. -/
namespace AdbShare.Filesystem

def TTL : ℕ := 2000
def DIR_TTL : ℕ := 2000
def DIR_CACHE_CAPACITY : ℕ := 8
def BLOCK_SIZE : UInt32 := 4096
def ADB_UID : UInt32 := 2000
def ADB_GID : UInt32 := 2000

inductive Errno
  | enoent | eacces | eisdir | enotdir | eexist | enotempty | enospc | enametoolong | einval
  | eagain | eio | ebadf | enosys
  deriving DecidableEq

def proxyToErrno : ProxyError → Errno
  | .status .notFound _ => .enoent
  | .status .permissionDenied _ => .eacces
  | .status .isDir _ => .eisdir
  | .status .notDir _ => .enotdir
  | .status .exists _ => .eexist
  | .status .notEmpty _ => .enotempty
  | .status .noSpace _ => .enospc
  | .status .nameTooLong _ => .enametoolong
  | .status .invalidArg _ => .einval
  | .busy => .eagain
  | _ => .eio

inductive FileType
  | directory | symlink | regularFile
  deriving DecidableEq

def kindFromMode (mode : FileMode) : FileType :=
  if mode.isDir then .directory else if mode.isSymlink then .symlink else .regularFile

structure FileAttr where
  ino : ℕ
  size : UInt64
  blocks : UInt64
  atime : ℕ
  mtime : ℕ
  ctime : ℕ
  crtime : ℕ
  kind : FileType
  perm : UInt16
  nlink : UInt32
  uid : UInt32
  gid : UInt32
  rdev : UInt32
  blksize : UInt32
  flags : UInt32
  deriving DecidableEq

/-- Times are whole seconds since the epoch, never before it. -/
def attrFromStat (ino : ℕ) (stat : Stat) : FileAttr where
  ino := ino
  size := stat.size
  blocks := stat.blocks
  atime := stat.atime.toInt.toNat
  mtime := stat.mtime.toInt.toNat
  ctime := stat.ctime.toInt.toNat
  crtime := stat.ctime.toInt.toNat
  kind := kindFromMode stat.mode
  perm := (stat.mode.bits &&& 0o7777).toUInt16
  nlink := stat.nlink
  uid := ADB_UID
  gid := ADB_GID
  rdev := 0
  blksize := max stat.blksize BLOCK_SIZE
  flags := 0

/-- A value with the device time it was fetched at; the time is not part of the program.
A value the host makes up itself was never fetched. -/
structure Reading (α : Type) where
  value : α
  fetched : Option ℕ
  deriving DecidableEq

namespace OpenFlags

def READ : UInt32 := 0x1
def WRITE : UInt32 := 0x2
def CREATE : UInt32 := 0x4
def EXCL : UInt32 := 0x8
def TRUNC : UInt32 := 0x10
def APPEND : UInt32 := 0x20

def contains (flags bit : UInt32) : Bool := flags &&& bit == bit

end OpenFlags

namespace Libc

def O_WRONLY : UInt32 := 0o1
def O_RDWR : UInt32 := 0o2
def O_CREAT : UInt32 := 0o100
def O_EXCL : UInt32 := 0o200
def O_TRUNC : UInt32 := 0o1000
def O_APPEND : UInt32 := 0o2000

def RENAME_NOREPLACE : UInt32 := 0x1
def RENAME_EXCHANGE : UInt32 := 0x2

def has (flags bit : UInt32) : Bool := flags &&& bit != 0

end Libc

/-- A handle to a file open on the device; all its clones are one handle. -/
abbrev ProxyFile := ℕ

/-- A request to the device through the proxy, with the type of its answer. -/
inductive Call : Type → Type
  | stat (path : Path) : Call (Reading Stat)
  | lstat (path : Path) : Call (Reading Stat)
  | fstat (file : ProxyFile) : Call (Reading Stat)
  | readlink (path : Path) : Call Bytes
  | symlink (target : Bytes) (link : Path) : Call Unit
  | listdir (path : Path) : Call (Reading (List DirEntry))
  | openFile (path : Path) (flags mode : UInt32) : Call ProxyFile
  | readAt (file : ProxyFile) (off : UInt64) (len : UInt32) : Call Bytes
  | writeAt (file : ProxyFile) (off : UInt64) (data : Bytes) : Call Unit
  | close (file : ProxyFile) : Call Unit
  | mkdir (path : Path) (mode : UInt32) : Call Unit
  | unlink (path : Path) : Call Unit
  | rmdir (path : Path) : Call Unit
  | rename (src dst : Path) : Call Unit
  | truncate (path : Path) (size : UInt64) : Call Unit

/-- The atomic actions of the handlers. -/
inductive Act : Type → Type 1
  | call {β : Type} (c : Call β) : Act (Except ProxyError β)
  | inoToPath (ino : ℕ) : Act (Option Path)
  | reserveIno (path : Path) : Act (ℕ × Bool)
  | storePath (ino : ℕ) (path : Path) : Act Unit
  | forgetIno (ino : ℕ) : Act Unit
  | renamePaths (src dst : ChildPath) (isDir : Bool) : Act Unit
  | statGet (path : Path) : Act (Option (Reading Stat))
  | statPut (path : Path) (stat : Reading Stat) : Act Unit
  | statInvalidate (path : Path) : Act Unit
  | statInvalidatePrefix (base : Path) : Act Unit
  | dirGet (path : Path) : Act (Option (Reading (List DirEntry)))
  | dirEpoch : Act UInt64
  | dirPut (path : Path) (entries : Reading (List DirEntry)) (epoch : UInt64) : Act Unit
  | dirInvalidate (path : Path) : Act Unit
  | dirInvalidatePrefix (base : Path) : Act Unit
  | openInsert (file : ProxyFile) : Act ℕ
  | openGet (fh : ℕ) : Act (Option ProxyFile)
  | openRemove (fh : ℕ) : Act (Option ProxyFile)

open Prog

structure Dirent where
  ino : ℕ
  offset : ℕ
  kind : FileType
  name : Bytes
  deriving DecidableEq

/-- `fuser::ReplyDirectory`: a buffer of a given size, and how many bytes of it an entry
with a given name takes. -/
structure ReplyDirectory where
  encoded : Bytes → ℕ
  capacity : ℕ
  entries : List Dirent

namespace ReplyDirectory

def used (r : ReplyDirectory) : ℕ := (r.entries.map fun e => r.encoded e.name).sum

/-- Append the entry if it fits; the flag says that it did not. -/
def add (r : ReplyDirectory) (ino offset : ℕ) (kind : FileType) (name : Bytes) :
    Bool × ReplyDirectory :=
  if r.used+r.encoded name ≤ r.capacity then
    (false,{ r with entries := r.entries++[⟨ino,offset,kind,name⟩] })
  else (true,r)

end ReplyDirectory

/-- The bytes of a `fuse_dirent`: a header of 24 and the name, in steps of 8. -/
def direntSize (name : Bytes) : ℕ := (24+name.length+7)/8*8

inductive Req
  | lookup (parent : ℕ) (name : Bytes)
  | forget (ino nlookup : ℕ)
  | getattr (ino : ℕ) (fh : Option ℕ)
  | readdir (ino offset : ℕ) (reply : ReplyDirectory)
  | symlink (parent : ℕ) (linkName target : Bytes)
  | readlink (ino : ℕ)
  | openFile (ino : ℕ) (flags : UInt32)
  | read (fh : ℕ) (offset : UInt64) (size : UInt32)
  | write (ino fh : ℕ) (offset : UInt64) (data : Bytes)
  | release (ino fh : ℕ)
  | create (parent : ℕ) (name : Bytes) (mode flags : UInt32)
  | mkdir (parent : ℕ) (name : Bytes) (mode : UInt32)
  | unlink (parent : ℕ) (name : Bytes)
  | rmdir (parent : ℕ) (name : Bytes)
  | rename (parent : ℕ) (name : Bytes) (newparent : ℕ) (newname : Bytes) (flags : UInt32)
  /-- `others` says whether the mode, an owner or a time is to change too. -/
  | setattr (ino : ℕ) (others : Bool) (size : Option UInt64) (fh : Option ℕ)

inductive Reply
  | none
  | ok
  | error (e : Errno)
  | entry (attr : Reading FileAttr)
  | attr (attr : Reading FileAttr)
  | created (attr : Reading FileAttr) (fh : ℕ)
  | opened (fh : ℕ)
  | data (bytes : Bytes)
  | written (n : ℕ)
  | directory (reply : ReplyDirectory)

/-- The attributes of an inode from a reading of its stat. -/
def Reading.attr (ino : ℕ) (r : Reading Stat) : Reading FileAttr := ⟨attrFromStat ino r.value,r.fetched⟩

/-- What a fallible call is turned into by `unwrap_or`. -/
def orMadeUp (r : Except ProxyError (Reading Stat)) (stat : Stat) : Reading Stat :=
  match r with
  | .ok s => s
  | .error _ => ⟨stat,none⟩

def resolveChild (parent : ℕ) (name : Bytes) : Prog Act (Option ChildPath) := do
  match ← perform (.inoToPath parent) with
  | some p => return some ⟨Path.push p name,Path.push_ne_nil p name⟩
  | none => return none

def inoFor (path : Path) : Prog Act ℕ := do
  let r ← perform (.reserveIno path)
  if r.2 then do
    perform (.storePath r.1 path)
    return r.1
  else return r.1

def invalidateParentListing (path : Path) : Prog Act Unit :=
  match Path.parent path with
  | some parent => do
    perform (.dirInvalidate parent)
    perform (.statInvalidate parent)
  | none => return ()

def invalidateAfterRename (src dst : Path) (isDir : Bool) : Prog Act Unit := do
  invalidateParentListing src
  invalidateParentListing dst
  if isDir then do
    perform (.statInvalidatePrefix src)
    perform (.statInvalidatePrefix dst)
    perform (.dirInvalidatePrefix src)
    perform (.dirInvalidatePrefix dst)
  else do
    perform (.statInvalidate src)
    perform (.statInvalidate dst)

/-- The path behind an inode, refused when it is unknown or not text. -/
def withPath (ino : ℕ) (body : Path → Path → Prog Act Reply) : Prog Act Reply := do
  match ← perform (.inoToPath ino) with
  | none => return .error .einval
  | some path =>
    match Path.toText path with
    | none => return .error .einval
    | some text => body path text

/-- The path of a name in a directory, refused when it is unknown or not text. -/
def withChild (parent : ℕ) (name : Bytes) (body : ChildPath → Path → Prog Act Reply) :
    Prog Act Reply := do
  match ← resolveChild parent name with
  | none => return .error .einval
  | some path =>
    match Path.toText path.1 with
    | none => return .error .einval
    | some text => body path text

def lookup (parent : ℕ) (name : Bytes) : Prog Act Reply :=
  withChild parent name fun path text => do
    match ← perform (.call (.lstat text)) with
    | .ok stat =>
      perform (.statPut path.1 stat)
      let ino ← inoFor path.1
      return .entry (stat.attr ino)
    | .error (.status .notFound _) => return .error .enoent
    | .error e => return .error (proxyToErrno e)

def forget (ino : ℕ) : Prog Act Reply := do
  perform (.forgetIno ino)
  return .none

def openHandle (fh : Option ℕ) : Prog Act (Option ProxyFile) :=
  match fh with
  | some fh => perform (.openGet fh)
  | none => return none

def getattr (ino : ℕ) (fh : Option ℕ) : Prog Act Reply := do
  match ← perform (.inoToPath ino) with
  | none => return .error .einval
  | some path =>
    match ← openHandle fh with
    | some file =>
      match ← perform (.call (.fstat file)) with
      | .ok stat => return .attr (stat.attr ino)
      | .error e => return .error (proxyToErrno e)
    | none =>
      match ← perform (.statGet path) with
      | some stat => return .attr (stat.attr ino)
      | none =>
        match Path.toText path with
        | none => return .error .einval
        | some text =>
          match ← perform (.call (.lstat text)) with
          | .ok stat =>
            perform (.statPut path stat)
            return .attr (stat.attr ino)
          | .error e => return .error (proxyToErrno e)

def adoptListingEntry (parent : Path) (entry : Reading DirEntry) (fresh : Bool) : Prog Act ℕ := do
  let childPath := Path.push parent entry.value.name
  let ino ← inoFor childPath
  if fresh then do
    perform (.statPut childPath ⟨entry.value.stat,entry.fetched⟩)
    return ino
  else return ino

/-- The loop of `readdir` over the numbered entries; the answer of `add` is ignored. -/
def addEntries (path : Path) (fresh : Bool) (fetched : Option ℕ) :
    List (DirEntry × ℕ) → ReplyDirectory → Prog Act Reply
  | [], reply => return .directory reply
  | (entry,n)::rest, reply => do
    let childIno ← adoptListingEntry path ⟨entry,fetched⟩ fresh
    addEntries path fresh fetched rest
      (reply.add childIno (n+3) (kindFromMode entry.stat.mode) entry.name).2

def DOT : Bytes := [46]
def DOT_DOT : Bytes := [46,46]

/-- `.` and `..` come first; the offset to go on from and the reply so far. -/
def addDots (ino offset : ℕ) (reply : ReplyDirectory) : ℕ × ReplyDirectory :=
  let r := if offset = 0 then (1,(reply.add ino 1 .directory DOT).2) else (offset,reply)
  if r.1 = 1 then (2,(r.2.add ROOT 2 .directory DOT_DOT).2) else r

def listEntries (ino offset : ℕ) (reply : ReplyDirectory) (path : Path) (fresh : Bool)
    (entries : Reading (List DirEntry)) : Prog Act Reply :=
  let r := addDots ino offset reply
  addEntries path fresh entries.fetched (entries.value.zipIdx.drop (r.1-2)) r.2

def readdir (ino offset : ℕ) (reply : ReplyDirectory) : Prog Act Reply :=
  withPath ino fun path text => do
    match ← perform (.dirGet path) with
    | some cached => listEntries ino offset reply path false cached
    | none =>
      let epoch ← perform .dirEpoch
      match ← perform (.call (.listdir text)) with
      | .ok entries =>
        perform (.dirPut path entries epoch)
        listEntries ino offset reply path true entries
      | .error e => return .error (proxyToErrno e)

/-- What a new object is reported as when its stat cannot be fetched. -/
def madeUpStat (mode : FileMode) (size : UInt64) (nlink : UInt32) (blocks : UInt64) : Stat where
  mode := mode
  size := size
  mtime := 0
  atime := 0
  ctime := 0
  uid := ADB_UID
  gid := ADB_GID
  nlink := nlink
  blksize := BLOCK_SIZE
  blocks := blocks

def symlink (parent : ℕ) (linkName target : Bytes) : Prog Act Reply := do
  match ← resolveChild parent linkName with
  | none => return .error .einval
  | some path =>
    match ← perform (.call (.symlink target path.1)) with
    | .error e => return .error (proxyToErrno e)
    | .ok () =>
      let stat ← perform (.call (.lstat (Path.toTextLossy path.1)))
      let ino ← inoFor path.1
      let stat := orMadeUp stat (madeUpStat .symlink (UInt64.ofNat target.length) 1 0)
      invalidateParentListing path.1
      perform (.statPut path.1 stat)
      return .entry (stat.attr ino)

def readlink (ino : ℕ) : Prog Act Reply :=
  withPath ino fun _ text => do
    match ← perform (.call (.readlink text)) with
    | .ok target => return .data target
    | .error e => return .error (proxyToErrno e)

/-- The proxy's flags for the flags of an `open`. -/
def openFlags (flags : UInt32) : UInt32 :=
  let access := if Libc.has flags Libc.O_RDWR then OpenFlags.READ ||| OpenFlags.WRITE
    else if Libc.has flags Libc.O_WRONLY then OpenFlags.WRITE else OpenFlags.READ
  access ||| (if Libc.has flags Libc.O_CREAT then OpenFlags.CREATE else 0) |||
    (if Libc.has flags Libc.O_TRUNC then OpenFlags.TRUNC else 0) |||
    (if Libc.has flags Libc.O_APPEND then OpenFlags.APPEND else 0)

def finishOpen (res : Except ProxyError ProxyFile) : Prog Act Reply := do
  match res with
  | .ok file =>
    let fh ← perform (.openInsert file)
    return .opened fh
  | .error e => return .error (proxyToErrno e)

/-- A truncating open invalidates whether or not it succeeded. -/
def openFile (ino : ℕ) (flags : UInt32) : Prog Act Reply :=
  withPath ino fun path text => do
    let res ← perform (.call (.openFile text (openFlags flags) 0o644))
    if OpenFlags.contains (openFlags flags) OpenFlags.TRUNC then do
      perform (.statInvalidate path)
      invalidateParentListing path
      finishOpen res
    else finishOpen res

def read (fh : ℕ) (offset : UInt64) (size : UInt32) : Prog Act Reply := do
  match ← perform (.openGet fh) with
  | none => return .error .ebadf
  | some file =>
    match ← perform (.call (.readAt file offset size)) with
    | .ok data => return .data data
    | .error e => return .error (proxyToErrno e)

def write (ino fh : ℕ) (offset : UInt64) (data : Bytes) : Prog Act Reply := do
  match ← perform (.openGet fh) with
  | none => return .error .ebadf
  | some file =>
    match ← perform (.call (.writeAt file offset data)) with
    | .error e => return .error (proxyToErrno e)
    | .ok () =>
      match ← perform (.inoToPath ino) with
      | some path =>
        perform (.statInvalidate path)
        invalidateParentListing path
        return .written data.length
      | none => return .written data.length

def closeFile (file : Option ProxyFile) : Prog Act Unit :=
  match file with
  | some file => do
    let _ ← perform (.call (.close file))
    return ()
  | none => return ()

def release (ino fh : ℕ) : Prog Act Reply := do
  let file ← perform (.openRemove fh)
  closeFile file
  match ← perform (.inoToPath ino) with
  | some path =>
    perform (.statInvalidate path)
    return .ok
  | none => return .ok

def createFlags (flags : UInt32) : UInt32 :=
  OpenFlags.READ ||| OpenFlags.WRITE ||| OpenFlags.CREATE |||
    (if Libc.has flags Libc.O_TRUNC then OpenFlags.TRUNC else 0) |||
    (if Libc.has flags Libc.O_EXCL then OpenFlags.EXCL else 0)

def create (parent : ℕ) (name : Bytes) (mode flags : UInt32) : Prog Act Reply :=
  withChild parent name fun path text => do
    match ← perform (.call (.openFile text (createFlags flags) mode)) with
    | .error e => return .error (proxyToErrno e)
    | .ok file =>
      let fh ← perform (.openInsert file)
      let ino ← inoFor path.1
      let stat ← perform (.call (.stat text))
      let stat := orMadeUp stat (madeUpStat .file 0 1 0)
      invalidateParentListing path.1
      perform (.statPut path.1 stat)
      return .created (stat.attr ino) fh

def mkdir (parent : ℕ) (name : Bytes) (mode : UInt32) : Prog Act Reply :=
  withChild parent name fun path text => do
    match ← perform (.call (.mkdir text mode)) with
    | .error e => return .error (proxyToErrno e)
    | .ok () =>
      let ino ← inoFor path.1
      let stat ← perform (.call (.stat text))
      let stat := orMadeUp stat (madeUpStat .dir 4096 2 8)
      invalidateParentListing path.1
      perform (.statPut path.1 stat)
      return .entry (stat.attr ino)

def unlink (parent : ℕ) (name : Bytes) : Prog Act Reply :=
  withChild parent name fun path text => do
    match ← perform (.call (.unlink text)) with
    | .error e => return .error (proxyToErrno e)
    | .ok () =>
      invalidateParentListing path.1
      perform (.statInvalidate path.1)
      return .ok

def rmdir (parent : ℕ) (name : Bytes) : Prog Act Reply :=
  withChild parent name fun path text => do
    match ← perform (.call (.rmdir text)) with
    | .error e => return .error (proxyToErrno e)
    | .ok () =>
      perform (.dirInvalidate path.1)
      invalidateParentListing path.1
      perform (.statInvalidate path.1)
      return .ok

/-- Was `src` a directory? A cached stat is believed, and a failed stat means no. -/
def probeIsDir (src text : Path) : Prog Act Bool := do
  match ← perform (.statGet src) with
  | some s => return s.value.mode.isDir
  | none =>
    match ← perform (.call (.stat text)) with
    | .ok s => return s.value.mode.isDir
    | .error _ => return false

/-- The part of `rename` after the flags are dealt with. -/
def renameFrom (src dst : ChildPath) (srcText dstText : Path) : Prog Act Reply := do
  let isDir ← probeIsDir src.1 srcText
  match ← perform (.call (.rename srcText dstText)) with
  | .error e => return .error (proxyToErrno e)
  | .ok () =>
    perform (.renamePaths src dst isDir)
    invalidateAfterRename src.1 dst.1 isDir
    return .ok

def renameChecked (src dst : ChildPath) (srcText dstText : Path) (flags : UInt32) :
    Prog Act Reply := do
  if Libc.has flags Libc.RENAME_EXCHANGE then return .error .enosys
  else if Libc.has flags Libc.RENAME_NOREPLACE then do
    match ← perform (.call (.lstat dstText)) with
    | .ok _ => return .error .eexist
    | .error (.status .notFound _) => renameFrom src dst srcText dstText
    | .error e => return .error (proxyToErrno e)
  else renameFrom src dst srcText dstText

def rename (parent : ℕ) (name : Bytes) (newparent : ℕ) (newname : Bytes) (flags : UInt32) :
    Prog Act Reply := do
  match ← resolveChild parent name with
  | none => return .error .einval
  | some src =>
    match ← resolveChild newparent newname with
    | none => return .error .einval
    | some dst =>
      match Path.toText src.1, Path.toText dst.1 with
      | some srcText, some dstText => renameChecked src dst srcText dstText flags
      | _, _ => return .error .einval

/-- What an open handle or else the path has to say about the file. -/
def statOpenOr (file : Option ProxyFile) (text : Path) : Prog Act (Except ProxyError (Reading Stat)) :=
  match file with
  | some file => perform (.call (.fstat file))
  | none => perform (.call (.lstat text))

/-- The part of `setattr` after the size. -/
def setattrRest (ino : ℕ) (path text : Path) (others : Bool) (fh : Option ℕ) : Prog Act Reply := do
  if others then return .error .enosys
  else do
    let file ← openHandle fh
    match ← statOpenOr file text with
    | .ok stat =>
      perform (.statPut path stat)
      return .attr (stat.attr ino)
    | .error e => return .error (proxyToErrno e)

def setattr (ino : ℕ) (others : Bool) (size : Option UInt64) (fh : Option ℕ) : Prog Act Reply :=
  withPath ino fun path text => do
    match size with
    | none => setattrRest ino path text others fh
    | some s =>
      match ← perform (.call (.truncate text s)) with
      | .error e => return .error (proxyToErrno e)
      | .ok () =>
        invalidateParentListing path
        setattrRest ino path text others fh

def handler : Req → Prog Act Reply
  | .lookup parent name => lookup parent name
  | .forget ino _ => forget ino
  | .getattr ino fh => getattr ino fh
  | .readdir ino offset reply => readdir ino offset reply
  | .symlink parent linkName target => symlink parent linkName target
  | .readlink ino => readlink ino
  | .openFile ino flags => openFile ino flags
  | .read fh offset size => read fh offset size
  | .write ino fh offset data => write ino fh offset data
  | .release ino fh => release ino fh
  | .create parent name mode flags => create parent name mode flags
  | .mkdir parent name mode => mkdir parent name mode
  | .unlink parent name => unlink parent name
  | .rmdir parent name => rmdir parent name
  | .rename parent name newparent newname flags => rename parent name newparent newname flags
  | .setattr ino others size fh => setattr ino others size fh

/-- The device behind the proxy: a state and its answers, where a choice settles what the
request leaves open. -/
structure Device (δ γ : Type) where
  answer : {β : Type} → Call β → γ → δ → Except ProxyError β × δ

/-- The shared state of the file system, with the device it fronts. -/
structure Fs (δ : Type) where
  inodes : Inodes
  /-- `path_to_ino` is locked by an `ino_for` that has yet to store this pair. -/
  storing : Option (ℕ × Path)
  cache : StatCache (Reading Stat)
  dirCache : DirCache (Reading (List DirEntry))
  openFiles : Dict ℕ ProxyFile
  nextFh : ℕ
  now : ℕ
  device : δ

def Fs.new {δ : Type} (device : δ) : Fs δ where
  inodes := .init
  storing := none
  cache := .new TTL
  dirCache := .new DIR_TTL DIR_CACHE_CAPACITY
  openFiles := ∅
  nextFh := 1
  now := 0
  device := device

/-- An action happens some time after the one before it. -/
structure Choice (γ : Type) where
  elapsed : ℕ
  device : γ

section

variable {δ γ : Type}

/-- The effect of an action at the time it happens; an action on `path_to_ino` waits for
its lock. -/
def atomically (D : Device δ γ) (x : γ) (s : Fs δ) : {β : Type} → Act β → Option (β × Fs δ)
  | _, .call c => let r := D.answer c x s.device; some (r.1,{ s with device := r.2 })
  | _, .inoToPath ino => some (s.inodes.inoToPath.lookup ino,s)
  | _, .reserveIno path =>
    match s.storing with
    | some _ => none
    | none =>
      let r := s.inodes.reserve path
      some ((r.1,r.2.1),{ s with
        inodes := r.2.2
        storing := if r.2.1 then some (r.1,path) else none })
  | _, .storePath ino path =>
    if s.storing = some (ino,path) then
      some ((),{ s with inodes := s.inodes.store ino path, storing := none })
    else none
  | _, .forgetIno ino =>
    match s.storing with
    | some _ => none
    | none => some ((),{ s with inodes := s.inodes.forgetIno ino })
  | _, .renamePaths src dst isDir =>
    match s.storing with
    | some _ => none
    | none => some ((),{ s with inodes := s.inodes.renamePaths src.1 dst.1 isDir })
  | _, .statGet path => let r := s.cache.get s.now path; some (r.1,{ s with cache := r.2 })
  | _, .statPut path stat => some ((),{ s with cache := s.cache.put s.now path stat })
  | _, .statInvalidate path => some ((),{ s with cache := s.cache.invalidate path })
  | _, .statInvalidatePrefix base => some ((),{ s with cache := s.cache.invalidatePrefix base })
  | _, .dirGet path => let r := s.dirCache.get s.now path; some (r.1,{ s with dirCache := r.2 })
  | _, .dirEpoch => some (s.dirCache.epoch,s)
  | _, .dirPut path entries epoch =>
    some ((),{ s with dirCache := s.dirCache.put s.now path entries epoch })
  | _, .dirInvalidate path => some ((),{ s with dirCache := s.dirCache.invalidate path })
  | _, .dirInvalidatePrefix base =>
    some ((),{ s with dirCache := s.dirCache.invalidatePrefix base })
  | _, .openInsert file =>
    some (s.nextFh%2^64,{ s with
      openFiles := s.openFiles.insert (s.nextFh%2^64) file, nextFh := s.nextFh+1 })
  | _, .openGet fh => some (s.openFiles.lookup fh,s)
  | _, .openRemove fh => some (s.openFiles.lookup fh,{ s with openFiles := s.openFiles.erase fh })

/-- The critical sections of the inode table. -/
def onTable : {β : Type} → Act β → Bool
  | _, .reserveIno _ | _, .storePath _ _ | _, .forgetIno _ | _, .renamePaths _ _ _ => true
  | _, _ => false

/-- What an action makes of the inode table, with its guards. -/
inductive Tabled (s : Fs δ) : {β : Type} → Act β → β → Fs δ → Prop
  | known {path : Path} {ino : ℕ} (hst : s.storing = none) (hp : s.inodes.pathToIno.lookup path = some ino) :
      Tabled s (.reserveIno path) (ino,false) s
  | reserved {path : Path} (hst : s.storing = none) (hp : s.inodes.pathToIno.lookup path = none) :
      Tabled s (.reserveIno path) (s.inodes.nextIno%2^64,true)
        { s with inodes := (s.inodes.reserve path).2.2, storing := some (s.inodes.nextIno%2^64,path) }
  | stored {ino : ℕ} {path : Path} (hst : s.storing = some (ino,path)) :
      Tabled s (.storePath ino path) () { s with inodes := s.inodes.store ino path, storing := none }
  | forgot {ino : ℕ} (hst : s.storing = none) : Tabled s (.forgetIno ino) () { s with inodes := s.inodes.forgetIno ino }
  | renamed {src dst : ChildPath} {isDir : Bool} (hst : s.storing = none) :
      Tabled s (.renamePaths src dst isDir) () { s with inodes := s.inodes.renamePaths src.1 dst.1 isDir }
  | other {β : Type} {a : Act β} {b : β} {s' : Fs δ} (ha : onTable a = false) (hi : s'.inodes = s.inodes)
      (hst : s'.storing = s.storing) : Tabled s a b s'

section

variable {D : Device δ γ} {x : γ} {s s' : Fs δ} {β : Type} {a : Act β} {b : β}

theorem atomically_tabled (h : atomically D x s a = some (b,s')) : Tabled s a b s' := by
  cases a with
  | reserveIno path =>
    rw [atomically] at h
    split at h <;> cases h
    rename_i hst
    cases hp : s.inodes.pathToIno.lookup path with
    | some ino =>
      have hsame : ({ s with storing := none } : Fs δ) = s := by rw [← hst]
      simpa [Inodes.reserve,hp,hsame] using Tabled.known hst hp
    | none => simpa [Inodes.reserve,hp] using Tabled.reserved hst hp
  | storePath ino path =>
    rw [atomically] at h
    split at h <;> cases h
    exact .stored ‹_›
  | forgetIno ino =>
    rw [atomically] at h
    split at h <;> cases h
    exact .forgot ‹_›
  | renamePaths src dst isDir =>
    rw [atomically] at h
    split at h <;> cases h
    exact .renamed ‹_›
  | _ =>
    cases h
    exact .other rfl rfl rfl

/-- The critical sections of the table touch nothing else. -/
theorem atomically_table (ha : onTable a) (h : atomically D x s a = some (b,s')) :
    ∃ inodes storing, s' = { s with inodes := inodes, storing := storing } := by
  cases atomically_tabled h with
  | other hother => cases ha.symm.trans hother
  | _ => exact ⟨_,_,rfl⟩

end

def run (D : Device δ γ) {β : Type} (a : Act β) (x : Choice γ) (s : Fs δ) : Option (β × Fs δ) :=
  atomically D x.device { s with now := s.now+x.elapsed } a

/-- The mount: every request is served by its handler. -/
def service (D : Device δ γ) : Service Act (Fs δ) (Choice γ) Req Reply where
  run := run D
  handler := handler
  arrive := fun _ s => some s
  leave := fun _ _ s => s

/-- A new mount with no request in progress. -/
def start (d : δ) : Service.Config Act (Fs δ) Req Reply := ⟨Fs.new d,fun _ => none⟩

end

/-- One answer for each type of request. -/
structure Oracle where
  stat : Except ProxyError (Reading Stat)
  listing : Except ProxyError (Reading (List DirEntry))
  bytes : Except ProxyError Bytes
  file : Except ProxyError ProxyFile
  done : Except ProxyError Unit

/-- The answer of the right type. -/
def Oracle.answer (x : Oracle) : {β : Type} → Call β → Except ProxyError β
  | _, .stat _ | _, .lstat _ | _, .fstat _ => x.stat
  | _, .listdir _ => x.listing
  | _, .readlink _ | _, .readAt _ _ _ => x.bytes
  | _, .openFile _ _ _ => x.file
  | _, .symlink _ _ | _, .writeAt _ _ _ | _, .close _ | _, .mkdir _ _ | _, .unlink _ | _, .rmdir _
  | _, .rename _ _ | _, .truncate _ _ => x.done

/-- A device without a state of its own, which answers as the choice says. -/
def oracle : Device Unit Oracle where
  answer := fun c x s => (x.answer c,s)

/-- Requests go well, at no cost of time, and every path has this stat. -/
def goesWell (stat : Stat) : Choice Oracle :=
  ⟨0,⟨.ok ⟨stat,none⟩,.ok ⟨[],none⟩,.ok [],.ok 0,.ok ()⟩⟩

def fileStat : Stat := madeUpStat .file 0 1 0
def dirStat : Stat := madeUpStat .dir 4096 2 8

/-- One request served from start to reply in so many actions. -/
def serve (q : Req) (n : ℕ) (x : Choice Oracle) : List (Service.Event (Choice Oracle) Req) :=
  Service.Event.start 0 q::(List.replicate n (Service.Event.act 0 x)++[Service.Event.reply 0])

end AdbShare.Filesystem

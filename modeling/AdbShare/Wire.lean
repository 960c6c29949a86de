import AdbShare.Bytes

/-! Wire types and op codes of the proxy protocol, shared by the host client and the
device proxy. Numbers are little-endian; a text is its UTF-8 bytes. -/
namespace AdbShare

open List

/-- The largest request body either side accepts. -/
def MAX_REQUEST : ℕ := 8*1024*1024
/-- The largest payload of one reply; the frame adds a status byte. -/
def MAX_RESPONSE : ℕ := 8*1024*1024
def MAX_RESPONSE_FRAME : ℕ := MAX_RESPONSE+1

inductive Op
  | openFile | close | read | write | stat | listDir | mkdir | unlink | rmdir | rename
  | truncate | readLink | symlink | lstat | utime | diskUsage | copyFile | fstat
  deriving DecidableEq, Repr

def Op.toU8 : Op → UInt8
  | .openFile => 0x01 | .close => 0x02 | .read => 0x03 | .write => 0x04 | .stat => 0x05
  | .listDir => 0x06 | .mkdir => 0x07 | .unlink => 0x08 | .rmdir => 0x09 | .rename => 0x0A
  | .truncate => 0x0B | .readLink => 0x0D | .symlink => 0x0E | .lstat => 0x0F
  | .utime => 0x10 | .diskUsage => 0x11 | .copyFile => 0x12 | .fstat => 0x13

inductive Status
  | ok | notFound | permissionDenied | isDir | notDir | exists | notEmpty | ioError
  | invalidArg | noSpace | nameTooLong | notSupported
  deriving DecidableEq, Repr

def Status.fromU8 (v : UInt8) : Status :=
  if v = 0x00 then .ok
  else if v = 0x01 then .notFound
  else if v = 0x02 then .permissionDenied
  else if v = 0x03 then .isDir
  else if v = 0x04 then .notDir
  else if v = 0x05 then .exists
  else if v = 0x06 then .notEmpty
  else if v = 0x07 then .ioError
  else if v = 0x08 then .invalidArg
  else if v = 0x09 then .noSpace
  else if v = 0x0A then .nameTooLong
  else .notSupported

structure FileMode where
  bits : UInt32
  deriving DecidableEq, Repr

namespace FileMode

def S_IFMT : UInt32 := 0o170000
def S_IFREG : UInt32 := 0o100000
def S_IFDIR : UInt32 := 0o040000
def S_IFLNK : UInt32 := 0o120000

def isDir (m : FileMode) : Bool := m.bits &&& S_IFMT == S_IFDIR
def isSymlink (m : FileMode) : Bool := m.bits &&& S_IFMT == S_IFLNK

def dir : FileMode := ⟨S_IFDIR ||| 0o755⟩
def file : FileMode := ⟨S_IFREG ||| 0o644⟩
/-- Symlinks are always mode 0777 on Linux. -/
def symlink : FileMode := ⟨S_IFLNK ||| 0o777⟩

end FileMode

structure Stat where
  mode : FileMode
  size : UInt64
  mtime : Int64
  atime : Int64
  ctime : Int64
  uid : UInt32
  gid : UInt32
  nlink : UInt32
  blksize : UInt32
  blocks : UInt64
  deriving DecidableEq

namespace Stat

/-- The 60-byte record a stat travels as. -/
def encode (s : Stat) : Bytes :=
  toLe 4 s.mode.bits.toNat ++ (toLe 8 s.size.toNat ++ (toLe 8 s.mtime.toUInt64.toNat ++
    (toLe 8 s.atime.toUInt64.toNat ++ (toLe 8 s.ctime.toUInt64.toNat ++ (toLe 4 s.uid.toNat ++
      (toLe 4 s.gid.toNat ++ (toLe 4 s.nlink.toNat ++ (toLe 4 s.blksize.toNat ++
        toLe 8 s.blocks.toNat))))))))

/-- The number in `bytes[i..i+w]`. -/
def field (bytes : Bytes) (i w : ℕ) : ℕ := fromLe ((bytes.drop i).take w)

def decode (bytes : Bytes) : Option Stat :=
  if bytes.length < 60 then none
  else some {
    mode := ⟨UInt32.ofNat (field bytes 0 4)⟩
    size := UInt64.ofNat (field bytes 4 8)
    mtime := (UInt64.ofNat (field bytes 12 8)).toInt64
    atime := (UInt64.ofNat (field bytes 20 8)).toInt64
    ctime := (UInt64.ofNat (field bytes 28 8)).toInt64
    uid := UInt32.ofNat (field bytes 36 4)
    gid := UInt32.ofNat (field bytes 40 4)
    nlink := UInt32.ofNat (field bytes 44 4)
    blksize := UInt32.ofNat (field bytes 48 4)
    blocks := UInt64.ofNat (field bytes 52 8) }

@[simp] theorem encode_length (s : Stat) : s.encode.length = 60 := by
  simp [encode]

variable {w i : ℕ} {bytes : Bytes} {s : Stat}

theorem field_skip (n k : ℕ) (rest : Bytes) (h : w ≤ i) : field (toLe w n++rest) i k = field rest (i-w) k := by
  have hcut : (toLe w n).drop i = [] := drop_eq_nil_of_le (by simpa using h)
  simp [field,drop_append,hcut]

theorem field_head (w n : ℕ) (rest : Bytes) : field (toLe w n++rest) 0 w = fromLe (toLe w n) := by
  simp [field]

theorem fromLe_u32 (x : UInt32) : UInt32.ofNat (fromLe (toLe 4 x.toNat)) = x := by
  rw [fromLe_toLe (by simpa using x.toNat_lt)]
  simp

theorem fromLe_u64 (x : UInt64) : UInt64.ofNat (fromLe (toLe 8 x.toNat)) = x := by
  rw [fromLe_toLe (by simpa using x.toNat_lt)]
  simp

/-- A record is read back whatever bytes follow it. -/
theorem decode_encode (s : Stat) (rest : Bytes) : decode (s.encode++rest) = some s := by
  have hlen : ¬ (s.encode++rest).length < 60 := by simp
  simp only [decode,hlen,if_false]
  simp [encode,field_skip,field_head,fromLe_u32,fromLe_u64]

theorem field_lt (bytes : Bytes) (i w : ℕ) : field bytes i w < 256^w :=
  (fromLe_lt _).trans_le (Nat.pow_le_pow_right (by norm_num) (length_take_le _ _))

theorem toNat_field (bytes : Bytes) (i : ℕ) : (UInt32.ofNat (field bytes i 4)).toNat = field bytes i 4 := by
  exact Nat.mod_eq_of_lt (field_lt bytes i 4)

theorem toLe_field (h : i+w ≤ bytes.length) : toLe w (field bytes i w) = (bytes.drop i).take w := by
  have hlen : ((bytes.drop i).take w).length = w := by
    rw [length_take,length_drop]
    omega
  have hback := toLe_fromLe ((bytes.drop i).take w)
  rwa [hlen] at hback

theorem take_append_drop_add (bytes : Bytes) (i w : ℕ) : (bytes.drop i).take w++bytes.drop (i+w) = bytes.drop i := by
  rw [← drop_drop,take_append_drop]

/-- A record that was read is the encoding of what was read. -/
theorem encode_of_decode (hlen : bytes.length = 60) (h : decode bytes = some s) : s.encode = bytes := by
  rw [decode,if_neg (by omega)] at h
  cases h
  have h64 : ∀ i, (UInt64.ofNat (field bytes i 8)).toNat = field bytes i 8 := fun i => by
    rw [UInt64.toNat_ofNat']
    exact Nat.mod_eq_of_lt (field_lt bytes i 8)
  have hlast : (bytes.drop 52).take 8 = bytes.drop 52 := take_of_length_le (by rw [length_drop]; omega)
  simp only [encode,UInt64.toUInt64_toInt64,toNat_field,h64]
  rw [toLe_field (by omega),toLe_field (by omega),toLe_field (by omega),toLe_field (by omega),toLe_field (by omega),
    toLe_field (by omega),toLe_field (by omega),toLe_field (by omega),toLe_field (by omega),toLe_field (by omega),hlast]
  simp only [take_append_drop_add bytes]
  rfl

end Stat

structure DirEntry where
  name : Bytes
  stat : Stat
  deriving DecidableEq

/-- What a proxy call can fail with. -/
inductive ProxyError
  | io | closed | tooLarge (n : ℕ) | status (s : Status) (msg : Bytes) | invalid (msg : String)
  | poolExhausted | busy | timeout | other (msg : String)
  deriving DecidableEq, Repr

end AdbShare

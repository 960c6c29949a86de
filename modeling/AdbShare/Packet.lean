import AdbShare.Wire

/-! The messages of the ADB transport: a header of 24 bytes and a payload, with a magic number
and a byte sum to check them. -/
namespace AdbShare

open List Stat

inductive AdbError
  | io
  | protocol (text : String)
  | disconnected
  | unauthorized
  | timeout
  | invalidResponse (text : String)
deriving DecidableEq

inductive Command
  | sync | connect | open_ | okay | close | write | auth | fail
deriving DecidableEq

namespace Command

def asU32 : Command → UInt32
  | .sync => 0x434e5953
  | .connect => 0x4e584e43
  | .open_ => 0x4e45504f
  | .okay => 0x59414b4f
  | .close => 0x45534c43
  | .write => 0x45545257
  | .auth => 0x48545541
  | .fail => 0xFFFFFFFF

def fromU32 (v : UInt32) : Option Command :=
  [.sync,.connect,.open_,.okay,.close,.write,.auth,.fail].find? fun c => c.asU32 = v

theorem fromU32_asU32 (c : Command) : fromU32 c.asU32 = some c := by
  cases c <;> decide

end Command

/-- `data_crc32` of the header: the sum of the bytes. -/
def dataChecksum (data : Bytes) : UInt32 := data.foldl (fun a b => a+b.toUInt32) 0

structure Message where
  command : Command
  arg0 : UInt32
  arg1 : UInt32
  payload : Bytes
deriving DecidableEq

namespace Message

def HEADER_LEN : ℕ := 24

/-- The largest payload that the reader of a connection trusts. -/
def MAX_PAYLOAD : ℕ := 256*1024

def ADB_VERSION : UInt32 := 0x01000000

/-- The header of a message with the payload. -/
def header (m : Message) : Bytes :=
  toLe 4 m.command.asU32.toNat++(toLe 4 m.arg0.toNat++(toLe 4 m.arg1.toNat++(toLe 4 m.payload.length++
    (toLe 4 (dataChecksum m.payload).toNat++toLe 4 (m.command.asU32 ^^^ 0xFFFFFFFF).toNat))))

def tryEncode (m : Message) : Except AdbError Bytes :=
  if m.payload.length < 2^32 then .ok (m.header++m.payload)
  else .error (.protocol ("payload length "++toString m.payload.length++
    " exceeds the 32-bit ADB data_length field"))

def hex8 (v : UInt32) : String :=
  let digits := Nat.toDigits 16 v.toNat
  String.ofList (replicate (8-digits.length) '0'++digits)

/-- The `data_length` field. -/
def dataLength (header : Bytes) : ℕ := Stat.field header 12 4

def decode (header payload : Bytes) : Except AdbError Message :=
  let command := UInt32.ofNat (Stat.field header 0 4)
  match Command.fromU32 command with
  | none => .error (.invalidResponse ("unknown command 0x"++hex8 command))
  | some command =>
    if UInt32.ofNat (Stat.field header 20 4) ≠ command.asU32 ^^^ 0xFFFFFFFF then
      .error (.invalidResponse "magic mismatch")
    else if dataLength header ≠ payload.length then
      .error (.invalidResponse ("payload length "++toString payload.length++" != header "++
        toString (dataLength header)))
    else if dataChecksum payload ≠ UInt32.ofNat (Stat.field header 16 4) then
      .error (.invalidResponse ("crc mismatch: got "++hex8 (dataChecksum payload)++", want "++
        hex8 (UInt32.ofNat (Stat.field header 16 4))))
    else .ok ⟨command,UInt32.ofNat (Stat.field header 4 4),UInt32.ofNat (Stat.field header 8 4),payload⟩

@[simp] theorem header_length (m : Message) : m.header.length = HEADER_LEN := by
  simp [header,HEADER_LEN]

variable {m : Message} {header payload : Bytes}

theorem dataLength_header (h : m.payload.length < 2^32) : dataLength m.header = m.payload.length := by
  rw [dataLength,header,field_skip _ _ _ (by decide),field_skip _ _ _ (by decide),
    field_skip _ _ _ (by decide),field_head,fromLe_toLe (by simpa using h)]

theorem field_whole (w n : ℕ) : field (toLe w n) 0 w = fromLe (toLe w n) := by
  rw [field,drop_zero,take_of_length_le (by simp)]

/-- What has been encoded is decoded to the same message. -/
theorem decode_header (h : m.payload.length < 2^32) : decode m.header m.payload = .ok m := by
  have hlen := dataLength_header h
  simp only [decode,hlen]
  simp [header,field_skip,field_head,field_whole,fromLe_u32,Command.fromU32_asU32, -UInt32.toNat_xor]

/-- A frame that is accepted is the encoding of what it is decoded to. -/
theorem header_of_decode (hsize : header.length = HEADER_LEN)
    (h : decode header payload = .ok m) : m.header = header ∧ m.payload = payload ∧ payload.length < 2^32 := by
  unfold decode at h
  dsimp only at h
  split at h
  · cases h
  rename_i command hcommand
  split_ifs at h with hmagic hlength hsum
  cases h
  refine ⟨?_,rfl,not_not.mp hlength ▸ field_lt header 12 4⟩
  have hc : command.asU32 = UInt32.ofNat (field header 0 4) := by simpa using find?_some hcommand
  have hlast : (header.drop 20).take 4 = header.drop 20 := take_of_length_le (by simp [hsize,HEADER_LEN])
  have hfield : ∀ i ≤ 20, toLe 4 (field header i 4) = (header.drop i).take 4 := by
    intro i hi
    refine toLe_field ?_
    rw [hsize,HEADER_LEN]
    omega
  rw [Message.header,← not_not.mp hmagic,not_not.mp hsum,← not_not.mp hlength,hc]
  simp only [dataLength,toNat_field]
  rw [hfield _ (by decide),hfield _ (by decide),hfield _ (by decide),hfield _ (by decide),hfield _ (by decide),
    hfield _ (by decide),hlast]
  simp only [take_append_drop_add header]
  rfl

/-- Encoding and decoding are inverse to each other, on messages that fit and on frames that are accepted. -/
theorem frames_are_messages : (∀ m : Message, m.payload.length < 2^32 → ∃ frame, m.tryEncode = .ok frame ∧
      decode (frame.take HEADER_LEN) (frame.drop HEADER_LEN) = .ok m) ∧
    (∀ header payload m, header.length = HEADER_LEN → decode header payload = .ok m →
      m.tryEncode = .ok (header++payload)) ∧
    ∀ header payload header' payload' m, header.length = HEADER_LEN → header'.length = HEADER_LEN →
      decode header payload = .ok m → decode header' payload' = .ok m → header = header' ∧ payload = payload' := by
  refine ⟨?_,?_,?_⟩
  · intro m hm
    refine ⟨m.header++m.payload,if_pos hm,?_⟩
    rw [drop_left' m.header_length]
    exact decode_header hm
  · intro header payload m hsize h
    obtain ⟨rfl,rfl,hlength⟩ := header_of_decode hsize h
    exact if_pos hlength
  · intro header payload header' payload' m hsize hsize' h h'
    obtain ⟨hheader,hpayload,-⟩ := header_of_decode hsize h
    obtain ⟨hheader',hpayload',-⟩ := header_of_decode hsize' h'
    exact ⟨hheader.symm.trans hheader',hpayload.symm.trans hpayload'⟩

end Message
end AdbShare

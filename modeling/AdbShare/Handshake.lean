import AdbShare.FrameReader
import AdbShare.Prog

/-! The handshake that opens a transport. The device may answer our CNXN with anything and close
at any point; what bounds the exchange is the number of rounds of AUTH. -/
namespace AdbShare.Handshake

open Prog List
open Message (ADB_VERSION dataLength decode)

def AUTH_TOKEN : UInt32 := 1
def AUTH_SIGNATURE : UInt32 := 2
def AUTH_RSAPUBLICKEY : UInt32 := 3

/-- The largest payload that is read here, four times that of the reader task. -/
def MAX_PAYLOAD : ℕ := 1024*1024

def MAX_AUTH_ATTEMPTS : ℕ := 3

inductive Act : Type → Type
  /-- What `read_exact` gives for a header, nothing at the end of the stream, and then for a
  payload of so many bytes. -/
  | read : Act (Option (Except AdbError Bytes) × (ℕ → Except AdbError Bytes))
  | write (m : Message) : Act (Except AdbError Unit)
  | sign (token : Bytes) : Act (Except AdbError Bytes)
  | fromParts (serial : String) : Act (Except AdbError Unit)

/-- A program that an error ends. -/
abbrev Fallible (α : Type) : Type 1 := ExceptT AdbError (Prog Act) α

def ask {α : Type} (a : Act (Except AdbError α)) : Fallible α := ExceptT.mk (perform a)

def readMessage (header : Option (Except AdbError Bytes)) (payload : ℕ → Except AdbError Bytes) :
    Except AdbError (Option Message) :=
  match header with
  | none => .ok none
  | some header => do
    let header ← header
    if dataLength header > MAX_PAYLOAD then
      .error (.invalidResponse ("ADB payload too large: "++toString (dataLength header)))
    else
      return some (← decode header (← payload (dataLength header)))

/-- A message has to come. -/
def expectMessage : Fallible Message := ExceptT.mk do
  let r ← perform .read
  return (readMessage r.1 r.2).bind fun m => m.elim (.error .disconnected) .ok

def authMessage (kind : UInt32) (payload : Bytes) : Message := ⟨.auth,kind,0,payload⟩

/-- The loop on AUTH messages with so many attempts left; of the key, `ssh_public`. -/
def authLoop (key : Option Bytes) : ℕ → Message → Fallible Message
  | 0, msg => if msg.command = .auth then throw .unauthorized else pure msg
  | attempts+1, msg =>
    if msg.command = .auth then
      match key with
      | none => throw .unauthorized
      | some sshPublic =>
        if msg.arg0 ≠ AUTH_TOKEN then
          throw (.invalidResponse ("unexpected AUTH type "++toString msg.arg0))
        else do
          let sig ← ask (.sign msg.payload)
          ask (.write (authMessage AUTH_SIGNATURE sig))
          let msg ← expectMessage
          if msg.command = .auth ∧ msg.arg0 = AUTH_TOKEN then
            ask (.write (authMessage AUTH_RSAPUBLICKEY sshPublic))
            authLoop key attempts (← expectMessage)
          else
            authLoop key attempts msg
    else pure msg

def debugName : Command → String
  | .sync => "Sync" | .connect => "Connect" | .open_ => "Open" | .okay => "Okay" | .close => "Close"
  | .write => "Write" | .auth => "Auth" | .fail => "Fail"

def openInner (version serial : String) (key : Option Bytes) : Fallible Unit := do
  ask (.write (FrameReader.connectMessage ("adbshare::"++version++"::"++serial).toUTF8.toList))
  let msg ← authLoop key MAX_AUTH_ATTEMPTS (← expectMessage)
  if msg.command ≠ .connect then
    throw (.invalidResponse ("expected CNXN, got "++debugName msg.command))
  else ask (.fromParts serial)

/-- What an observer of the transport notes. -/
inductive Note
  | read (m : Option Message) | wrote (m : Message) | signed | joined
deriving DecidableEq

@[simp] def note : (β : Type) → Act β → β → Note
  | _, .read, r => .read (readMessage r.1 r.2).toOption.join
  | _, .write m, _ => .wrote m
  | _, .sign _, _ => .signed
  | _, .fromParts _, _ => .joined

@[simp] def Note.isRead : Note → Bool
  | .read _ => true
  | _ => false

/-- The notes end with a signature and a token. -/
def Rejected (notes : List Note) : Prop :=
  ∃ sig m rest, notes = .read (some m)::.wrote (authMessage AUTH_SIGNATURE sig)::rest ∧
    m.command = .auth ∧ m.arg0 = AUTH_TOKEN

/-- When an action may be taken, by the notes so far, the latest first. -/
def Due (key : Option Bytes) (notes : List Note) : (β : Type) → Act β → Prop
  | _, .read => notes.countP Note.isRead < 7
  | _, .write m => m.command = .auth →
      key.isSome ∧ (m.arg0 = AUTH_RSAPUBLICKEY → Rejected notes)
  | _, .sign _ => key.isSome ∧ notes.count .signed < 3
  | _, .fromParts _ => True

def Noted (notes : List Note) (β : Type) (a : Act β) (b : β) (after : List Note) : Prop :=
  after = note β a b::notes

/-- The actions are due, and a result that is no error suits the notes. -/
def Keeps {α : Type} (key : Option Bytes) (P : List Note → α → Prop) (p : Fallible α) (notes : List Note) : Prop :=
  Prog.Obeys (Due key) Noted (fun notes r => ∀ v, r = .ok v → P notes v) p.run notes

section

variable {key : Option Bytes} {notes : List Note} {α β : Type} {P : List Note → α → Prop} {Q : List Note → β → Prop}
  {p : Fallible α} {f : α → Fallible β} {v : α} {a : Act (Except AdbError α)}

theorem Keeps.bind (hp : Keeps key P p notes)
    (hf : ∀ notes v, P notes v → Keeps key Q (f v) notes) : Keeps key Q (p >>= f) notes := by
  refine Obeys.bind hp fun notes r h => ?_
  cases r with
  | error e => exact fun _ => nofun
  | ok v => exact hf notes v (h v rfl)

theorem keeps_pure (h : P notes v) : Keeps key P (pure v) notes := by
  rintro _ ⟨⟩
  exact h

theorem keeps_throw (e : AdbError) : Keeps key P (throw e) notes := fun _ => nofun

theorem keeps_ask_bind (h : Due key notes _ a)
    (hf : ∀ v, Keeps key Q (f v) (note _ a (.ok v)::notes)) : Keeps key Q (ask a >>= f) notes := by
  refine ⟨h,?_⟩
  rintro (e|v) _ rfl
  · exact fun _ => nofun
  · exact hf v

theorem keeps_expectMessage_bind {f : Message → Fallible β} (h : notes.countP Note.isRead < 7)
    (hf : ∀ m, Keeps key Q (f m) (.read (some m)::notes)) : Keeps key Q (expectMessage >>= f) notes := by
  refine ⟨h,?_⟩
  rintro r _ rfl
  change Keeps key Q (ExceptT.bindCont f ((readMessage r.1 r.2).bind _)) (.read (readMessage r.1 r.2).toOption.join::notes)
  obtain e|_|m := readMessage r.1 r.2
  · exact fun _ => nofun
  · exact fun _ => nofun
  · exact hf m

/-- One round reads twice and signs once. -/
theorem keeps_authLoop (attempts : ℕ) (msg : Message) (hreads : notes.countP Note.isRead+2*attempts ≤ 7)
    (hsigns : notes.count .signed+attempts ≤ 3) (hlast : notes.head? = some (.read (some msg))) :
    Keeps key (fun after m => after.head? = some (.read (some m))) (authLoop key attempts msg) notes := by
  induction attempts generalizing msg notes with
  | zero =>
    rw [authLoop]
    split
    · exact keeps_throw _
    · exact keeps_pure hlast
  | succ attempts ih =>
    unfold authLoop
    split
    case isFalse => exact keeps_pure hlast
    split
    · exact keeps_throw _
    split
    · exact keeps_throw _
    refine keeps_ask_bind ⟨rfl,by omega⟩ fun sig => keeps_ask_bind (fun _ => ⟨rfl,nofun⟩) fun _ => ?_
    refine keeps_expectMessage_bind (by simp; omega) fun m => ?_
    split
    · refine keeps_ask_bind (fun _ => ⟨rfl,fun _ => ⟨sig,m,_,rfl,‹_›⟩⟩) fun _ => ?_
      exact keeps_expectMessage_bind (by simp [countP_cons]; omega) fun m => ih m (by simp [countP_cons]; omega) (by simp; omega) rfl
    · exact ih m (by simp [countP_cons]; omega) (by simp; omega) rfl

end

/-- Whatever the device answers, the program takes each of its actions when it is due only, and
it ends well only on a CNXN message. -/
theorem openInner_keeps (version serial : String) (key : Option Bytes) :
    Keeps key (fun notes _ => ∃ m rest, notes = .joined::.read (some m)::rest ∧ m.command = .connect)
      (openInner version serial key) [] := by
  refine keeps_ask_bind nofun fun _ => keeps_expectMessage_bind (by simp) fun m => ?_
  refine (keeps_authLoop 3 m (by simp [countP_cons]) (by simp) rfl).bind fun notes m hm => ?_
  obtain ⟨rest,rfl⟩ := head?_eq_some_iff.mp hm
  split
  · exact keeps_throw _
  · refine ⟨trivial,?_⟩
    rintro _ _ rfl _ rfl
    exact ⟨m,rest,rfl,not_not.mp ‹_›⟩

end AdbShare.Handshake

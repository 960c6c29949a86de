import AdbShare.Spake2
import AdbShare.Prog

/-! Pairing with a phone: the SPAKE2 exchange, then both sides' `PeerInfo` under one key with
nonces that count from zero in either direction. The model of encryption is symbolic: what is
opened has been sealed by somebody, and a peer seals only under keys that it can derive. Such
a peer gets through exactly by sending our own record back. -/
namespace AdbShare.Pairing

open Prog List Spake2

def VERSION : UInt8 := 1
def TYPE_SPAKE2_MSG : UInt8 := 0
def TYPE_PEER_INFO : UInt8 := 1
def HEADER_LEN : ℕ := 6
def MAX_PAYLOAD : ℕ := 16384
def PEER_INFO_SIZE : ℕ := 8192

def encodeHeader (packetType : UInt8) (payloadLen : ℕ) : Except Error Bytes :=
  if payloadLen = 0 ∨ payloadLen > MAX_PAYLOAD then .error (.protocol "bad payload length")
  else .ok (VERSION::packetType::(toLe 4 payloadLen).reverse)

def decodeHeader (header : Bytes) : Except Error (UInt8 × ℕ) :=
  if header.getD 0 0 ≠ VERSION then .error (.protocol "bad pairing packet version")
  else if header.getD 1 0 ≠ TYPE_SPAKE2_MSG ∧ header.getD 1 0 ≠ TYPE_PEER_INFO then
    .error (.protocol "unknown pairing packet type")
  else
    let len := fromLe ((header.drop 2).take 4).reverse
    if len = 0 ∨ len > MAX_PAYLOAD then .error (.protocol "bad pairing packet length")
    else .ok (header.getD 1 0,len)

def peerInfo (publicKey : Bytes) : Except Error Bytes :=
  if publicKey.length ≥ PEER_INFO_SIZE-1 then .error (.protocol "public key too long for PeerInfo")
  else .ok (0::publicKey++List.replicate (PEER_INFO_SIZE-1-publicKey.length) 0)

def Error.text : Error → String
  | .codeMismatch => "the pairing code did not match"
  | .io e => "io: "++e
  | .tls e => "tls: "++e
  | .protocol e => "protocol: "++e
  | .key e => "key: "++e
  | .timeout => "timed out"

def HKDF_INFO : String := "adb pairing_auth aes-128-gcm key"

/-- What the exchange rests on: the SPAKE2 suite and HKDF-SHA256 without salt. -/
structure Crypto (G : Type) [AddCommGroup G] (Key : Type) where
  suite : Suite G
  hkdf : Block 64 → String → Key

def Crypto.deriveKey {G : Type} [AddCommGroup G] {Key : Type} (C : Crypto G Key) (sharedSecret : Block 64) : Key :=
  C.hkdf sharedSecret HKDF_INFO

def nonce (sequence : ℕ) : Bytes := toLe 8 sequence++List.replicate 4 0

structure QrSession where
  instanceName : Bytes
  password : Bytes

inductive QrPhase
  | waiting | discovered | paired | connected | failed
deriving DecidableEq

structure QrState where
  session : QrSession
  state : QrPhase
  guid : Option Bytes
  connectAddress : Option String
  error : Option String

inductive ServiceType
  | pairing | connect
deriving DecidableEq

/-- What the pairing task does to the world: the socket, the clock, the random source, the
cipher, mDNS, `adb` and the session that the daemon reports. -/
inductive Act (Key : Type) : Type → Type
  | connect (addr : String) : Act Key (Except Error Unit)
  | clientConfig : Act Key (Except Error Unit)
  | handshake : Act Key (Except Error Unit)
  | exporter : Act Key (Except Error (Block 64))
  | urandom : Act Key (Block 64)
  | overdue : Act Key Bool
  | read (room : ℕ) : Act Key (Except Error Bytes)
  | write (buf : Bytes) : Act Key (Except Error ℕ)
  | encrypt (key : Key) (nonce plain : Bytes) : Act Key Bytes
  | decrypt (key : Key) (nonce record : Bytes) : Act Key (Option Bytes)
  | discover (service : ServiceType) (wanted : Bytes) : Act Key (Option String)
  | adbConnect (address : String) : Act Key Bool
  | setState (f : QrState → QrState) : Act Key Unit

variable {Key G : Type}

section

/-- The rest of a call after `?`. -/
def orFail {α ρ : Type} (p : Prog (Act Key) (Except Error α)) (k : α → Prog (Act Key) (Option (Except Error ρ))) :
    Prog (Act Key) (Option (Except Error ρ)) := do
  match ← p with
  | .error e => return some (.error e)
  | .ok a => k a

/-- `read_exact` for what is missing of the buffer. -/
def readExact (missing : ℕ) : Prog (Act Key) (Except Error Bytes) :=
  if _hm : missing = 0 then return .ok []
  else do
    if ← perform .overdue then return .error .timeout
    else
      match ← perform (.read missing) with
      | .error e => return .error e
      | .ok chunk =>
        if _hc : chunk.length = 0 then return .error (.io "peer closed during pairing")
        else
          match ← readExact (missing-chunk.length) with
          | .error e => return .error e
          | .ok rest => return .ok (chunk++rest)
termination_by missing

/-- `write_all` for what is left of the buffer. -/
def writeAll (buf : Bytes) : Prog (Act Key) (Except Error Unit) :=
  if _hb : buf.length = 0 then return .ok ()
  else do
    if ← perform .overdue then return .error .timeout
    else
      match ← perform (.write buf) with
      | .error e => return .error e
      | .ok n =>
        if _hn : n = 0 then return .error (.io "peer closed during pairing")
        else writeAll (buf.drop n)
termination_by buf.length
decreasing_by
  rw [length_drop]
  omega

def writePacket (packetType : UInt8) (payload : Bytes) : Prog (Act Key) (Except Error Unit) := do
  match encodeHeader packetType payload.length with
  | .error e => return .error e
  | .ok header =>
    match ← writeAll header with
    | .error e => return .error e
    | .ok _ => writeAll payload

def readPacket (packetType : UInt8) (expected : String) : Prog (Act Key) (Except Error Bytes) := do
  match ← readExact HEADER_LEN with
  | .error e => return .error e
  | .ok headerBuf =>
    match decodeHeader headerBuf with
    | .error e => return .error e
    | .ok (kind,len) =>
      if kind ≠ packetType then return .error (.protocol expected)
      else readExact len

structure PairingCipher (Key : Type) where
  key : Key
  encSequence : ℕ
  decSequence : ℕ

namespace PairingCipher

def new (key : Key) : PairingCipher Key := ⟨key,0,0⟩

def encrypt (c : PairingCipher Key) (plaintext : Bytes) : Prog (Act Key) (Bytes × PairingCipher Key) := do
  let ciphertext ← perform (.encrypt c.key (nonce c.encSequence) plaintext)
  return (ciphertext,{ c with encSequence := c.encSequence+1 })

def decrypt (c : PairingCipher Key) (ciphertext : Bytes) :
    Prog (Act Key) (Except Error (Bytes × PairingCipher Key)) := do
  match ← perform (.decrypt c.key (nonce c.decSequence) ciphertext) with
  | none => return .error .codeMismatch
  | some plaintext => return .ok (plaintext,{ c with decSequence := c.decSequence+1 })

end PairingCipher

variable [AddCommGroup G]

/-- The records under the key of the exchange. -/
def exchangeInfo (cipher : PairingCipher Key) (ours : Bytes) : Prog (Act Key) (Option (Except Error Bytes)) := do
  let (sealed,cipher) ← cipher.encrypt ours
  orFail (writePacket TYPE_PEER_INFO sealed) fun _ =>
  orFail (readPacket TYPE_PEER_INFO "expected PeerInfo") fun record =>
  orFail (cipher.decrypt record) fun opened =>
  if opened.1.length ≠ PEER_INFO_SIZE then return some (.error (.protocol "PeerInfo has wrong size"))
  else return some (.ok opened.1)

/-- `pair` after the handshake. -/
def exchange (C : Crypto G Key) (pswd pubkey : Bytes) (privateTmp : Block 64) :
    Prog (Act Key) (Option (Except Error Bytes)) :=
  match Spake2.generateMsg C.suite (Spake2.new C.suite true pswd) privateTmp with
  | none => return none
  | some (spake,msg) =>
    orFail (writePacket TYPE_SPAKE2_MSG msg.bytes) fun _ =>
    orFail (readPacket TYPE_SPAKE2_MSG "expected a SPAKE2 message") fun theirMsg =>
    if h : theirMsg.length = 32 then
      orFail (return spake.processMsg C.suite ⟨theirMsg,h⟩) fun shared =>
      orFail (return peerInfo pubkey) fun ours =>
      exchangeInfo (.new (C.deriveKey shared)) ours
    else return some (.error (.protocol "SPAKE2 message has wrong size"))

/-- `pair`, with the `PeerInfo` of the device as the result; none where the call panics. -/
def pair (C : Crypto G Key) (addr : String) (password pubkey : Bytes) :
    Prog (Act Key) (Option (Except Error Bytes)) :=
  orFail (perform (.connect addr)) fun _ =>
  orFail (perform .clientConfig) fun _ =>
  orFail (perform .handshake) fun _ =>
  orFail (perform .exporter) fun exporter => do
    let privateTmp ← perform .urandom
    exchange C (password++exporter.bytes) pubkey privateTmp

/-- `trim_matches` for NUL. -/
def trimNul (bs : Bytes) : Bytes := ((bs.dropWhile (· == 0)).reverse.dropWhile (· == 0)).reverse

/-- The name that a `PeerInfo` of type 1 carries. -/
def guidOf (info : Bytes) : Option Bytes :=
  match info with
  | [] => none
  | kind::data => if kind = 1 then some (trimNul (Utf8.fromUtf8Lossy data)) else none

def fail (text : String) : Prog (Act Key) Unit :=
  perform (.setState fun qr => { qr with state := .failed, error := some text })

/-- The end of `qr_pair_run`: `adb connect` to the endpoint that the name leads to. -/
def autoConnect : Option Bytes → Prog (Act Key) Unit
  | none => return
  | some guid => do
    match ← perform (.discover .connect guid) with
    | none => return
    | some address =>
      if ← perform (.adbConnect address) then
        perform (.setState fun qr => { qr with state := .connected, connectAddress := some address })
      else return

def qrPairRun (C : Crypto G Key) (session : QrSession) (pubkey : Bytes) : Prog (Act Key) Unit := do
  match ← perform (.discover .pairing session.instanceName) with
  | none => fail "The phone did not appear. On the phone open Wireless debugging → Pair with QR code, scan, and wait here."
  | some addr =>
    perform (.setState fun qr => { qr with state := .discovered })
    match ← pair C addr session.password pubkey with
    | none => fail "Pairing was interrupted."
    | some (.error .codeMismatch) => fail "The phone refused the pairing. Start a new QR code and scan again."
    | some (.error e) => fail ("Pairing failed: "++e.text)
    | some (.ok info) =>
      perform (.setState fun qr => { qr with state := .paired, guid := guidOf info })
      autoConnect (guidOf info)

end

section

inductive Party
  | ours | peer
deriving DecidableEq

/-- One use of the cipher: who sealed what, and the record it gave. -/
structure Sealing (Key : Type) where
  party : Party
  key : Key
  nonce : Bytes
  plain : Bytes
  record : Bytes

/-- All uses of the cipher so far, the records we have tried to open, and the session that the
daemon reports. -/
structure World (Key : Type) where
  sealings : List (Sealing Key)
  opened : List Bytes
  qr : Option QrState

variable [AddCommGroup G] {C : Crypto G Key}

/-- What the peer knows: a key of the exchange can be derived only with the password. -/
structure Knowledge (C : Crypto G Key) where
  knows : Bytes → Prop
  derives : Key → Prop
  needs_password : ∀ password (exporter privateTmp : Block 64) side msg theirMsg shared,
    Spake2.generateMsg C.suite (Spake2.new C.suite true (password++exporter.bytes)) privateTmp = some (side,msg) →
    side.processMsg C.suite theirMsg = .ok shared → derives (C.deriveKey shared) → knows password

/-- Steps with the peer on the other end. It sends any bytes whatever, and before it does it
seals what it likes under keys it can derive; a record opens exactly if it has been sealed. -/
def does (K : Knowledge C) : (β : Type) → Act Key β → World Key → β → World Key → Prop
  | _, .read room, w, reply, w' => (∀ chunk, reply = .ok chunk → chunk.length ≤ room) ∧
      ∃ more, (∀ e ∈ more, e.party = .peer ∧ K.derives e.key) ∧ w' = { w with sealings := w.sealings++more }
  | _, .write buf, w, reply, w' => (∀ n, reply = .ok n → n ≤ buf.length) ∧ w' = w
  | _, .encrypt key nonce plain, w, record, w' => record.length = plain.length+16 ∧
      w' = { w with sealings := w.sealings++[⟨.ours,key,nonce,plain,record⟩] }
  | _, .decrypt key nonce record, w, some plain, w' => w' = { w with opened := w.opened++[record] } ∧
      ∃ party, ⟨party,key,nonce,plain,record⟩ ∈ w.sealings
  | _, .decrypt key nonce record, w, none, w' => w' = { w with opened := w.opened++[record] } ∧
      ∀ party plain, ⟨party,key,nonce,plain,record⟩ ∉ w.sealings
  | _, .setState f, w, _, w' => w' = { w with qr := w.qr.map f }
  | _, .connect _, w, _, w' => w' = w
  | _, .clientConfig, w, _, w' => w' = w
  | _, .handshake, w, _, w' => w' = w
  | _, .exporter, w, _, w' => w' = w
  | _, .urandom, w, _, w' => w' = w
  | _, .overdue, w, _, w' => w' = w
  | _, .discover _ _, w, _, w' => w' = w
  | _, .adbConnect _, w, _, w' => w' = w

/-- A record that we sealed came back and was opened. -/
def Reflected (w : World Key) : Prop := ∃ e ∈ w.sealings, e.party = .ours ∧ e.record ∈ w.opened

/-- The daemon says that the session has been paired. -/
def Paired (w : World Key) : Prop := ∃ qr, w.qr = some qr ∧ (qr.state = .paired ∨ qr.state = .connected)

end

variable {ρ α : Type} {w w' : World Key} {pubkey ours : Bytes} {privateTmp : Block 64}

section

variable [AddCommGroup G] {C : Crypto G Key} {K : Knowledge C} {p : Prog (Act Key) α}
  {password publicKey info sealed record : Bytes} {mine : List (Sealing Key)} {out : Option (Except Error Bytes)}
  {r : α} {k : α → Prog (Act Key) (Option (Except Error Bytes))} {key : Key} {sequence : ℕ} {exporter : Block 64}
  {a : Act Key α} {addr text : String} {guid : Option Bytes} {qr : QrState} {session : QrSession}

/-- Nothing has been opened yet, our own sealings are the given ones, and all others are of
the peer. -/
structure Standing (K : Knowledge C) (mine : List (Sealing Key)) (w : World Key) : Prop where
  unopened : w.opened = []
  has_mine : ∀ e ∈ mine, e ∈ w.sealings
  others : ∀ e ∈ w.sealings, e ∈ mine ∨ e.party = .peer ∧ K.derives e.key

/-- An action on the socket or the clock. -/
def talks : (β : Type) → Act Key β → Prop
  | _, .read _ => True
  | _, .write _ => True
  | _, .connect _ => True
  | _, .clientConfig => True
  | _, .handshake => True
  | _, .exporter => True
  | _, .urandom => True
  | _, .overdue => True
  | _, _ => False

theorem standing_talks (β : Type) (a : Act Key β) (w : World Key) (b : β)
    (w' : World Key) (ha : talks β a) (h : does K β a w b w') (hs : Standing K mine w) : Standing K mine w' := by
  cases a <;> first | exact ha.elim | skip
  case read room =>
    obtain ⟨-,more,hmore,rfl⟩ := h
    refine ⟨hs.unopened,fun e he => mem_append_left _ (hs.has_mine e he),?_⟩
    intro e he
    obtain he | he := mem_append.mp he
    · exact hs.others e he
    · exact .inr (hmore e he)
  case write buf => exact h.2 ▸ hs
  all_goals exact h ▸ hs

theorem standing_only (hp : p.Only talks) (h : p.Yields (does K) w r w') (hs : Standing K mine w) : Standing K mine w' := by
  have hrun := hp.yields (R:=fun v v' => Standing K mine v → Standing K mine v') (fun _ h => h)
    (fun _ _ _ h h' hs => h' (h hs)) (fun β a v b v' ha hd hs => standing_talks β a v b v' ha hd hs) h
  exact hrun hs

theorem only_readExact (missing : ℕ) : (readExact missing : Prog (Act Key) _).Only talks := by
  induction missing using Nat.strong_induction_on with
  | h missing ih =>
    rw [readExact]
    split
    · trivial
    rename_i hm
    refine only_perform_bind trivial fun late => ?_
    split
    · trivial
    refine only_perform_bind trivial fun reply => ?_
    split
    · trivial
    split
    · trivial
    · refine only_bind (ih _ (by omega)) fun rest => ?_
      split <;> trivial

theorem only_writeAll (buf : Bytes) : (writeAll buf : Prog (Act Key) _).Only talks := by
  induction hn : buf.length using Nat.strong_induction_on generalizing buf with
  | h n ih =>
    rw [writeAll]
    split
    · trivial
    rename_i hb
    refine only_perform_bind trivial fun late => ?_
    split
    · trivial
    refine only_perform_bind trivial fun reply => ?_
    split
    · trivial
    · split
      · trivial
      · exact ih _ (by rw [length_drop]; omega) _ rfl

theorem only_writePacket (packetType : UInt8) (payload : Bytes) :
    (writePacket packetType payload : Prog (Act Key) _).Only talks := by
  rw [writePacket]
  split
  · trivial
  refine only_bind (only_writeAll _) fun reply => ?_
  split
  · trivial
  · exact only_writeAll _

theorem only_readPacket (packetType : UInt8) (expected : String) :
    (readPacket packetType expected : Prog (Act Key) _).Only talks := by
  refine only_bind (only_readExact _) fun reply => ?_
  split
  · trivial
  split
  · trivial
  · split
    · trivial
    · exact only_readExact _

/-- The client got through exactly if a record of ours came back. -/
def Sound (out : Option (Except Error Bytes)) (w : World Key) : Prop :=
  (∃ info, out = some (.ok info)) ↔ Reflected w

theorem Standing.sound (hs : Standing K mine w) (e : Error) : Sound (some (.error e)) w := by
  constructor
  · rintro ⟨info,h⟩
    cases h
  · rintro ⟨e,-,-,hopened⟩
    rw [hs.unopened] at hopened
    cases hopened

/-- A step of the exchange that may fail, and the rest of it. -/
theorem sound_orFail {p : Prog (Act Key) (Except Error α)} (hp : p.Only talks) (hs : Standing K mine w)
    (hk : ∀ a t out, p.Yields (does K) w (.ok a) t → Standing K mine t → (k a).Yields (does K) t out w' →
      Sound out w') (h : (orFail p k).Yields (does K) w out w') : Sound out w' := by
  obtain ⟨reply,t,ht,h⟩ := yields_bind_iff.mp h
  have hst := standing_only hp ht hs
  cases reply with
  | error e =>
    obtain ⟨rfl,rfl⟩ := h
    exact hst.sound e
  | ok a => exact hk a t out ht hst h

theorem peerInfo_length (h : peerInfo publicKey = .ok info) : info.length = PEER_INFO_SIZE := by
  rw [peerInfo] at h
  split_ifs at h with hlen
  cases h
  simp only [length_cons,length_append,length_replicate,cons_append]
  omega

/-- Under a key that the peer cannot derive, our own record opens and no other. -/
theorem sound_decrypt (hkey : ¬K.derives key)
    (hours : ours.length = PEER_INFO_SIZE) (hs : Standing K [⟨.ours,key,nonce 0,ours,sealed⟩] w)
    (h : (orFail (PairingCipher.decrypt ⟨key,sequence,0⟩ record) fun opened =>
      if opened.1.length ≠ PEER_INFO_SIZE then return some (.error (.protocol "PeerInfo has wrong size"))
      else return some (.ok opened.1)).Yields (does K) w out w') : Sound out w' := by
  have hours_only : ∀ party plain, ⟨party,key,nonce 0,plain,record⟩ ∈ w.sealings → plain = ours ∧ record = sealed := by
    intro party plain hmem
    rcases hs.others _ hmem with he | ⟨-,he⟩
    · cases mem_singleton.mp he
      exact ⟨rfl,rfl⟩
    · exact absurd he hkey
  have hmine := hs.has_mine _ (mem_singleton_self _)
  obtain ⟨reply,t,hreply,h⟩ := yields_bind_iff.mp h
  obtain ⟨reply',t',hdoes,hreply⟩ := hreply
  cases reply' with
  | none =>
    obtain ⟨rfl,hnone⟩ := hdoes
    obtain ⟨rfl,rfl⟩ := hreply
    obtain ⟨rfl,rfl⟩ := h
    constructor
    · rintro ⟨info,h⟩
      cases h
    rintro ⟨e,he,hparty,hopened⟩
    rw [hs.unopened] at hopened
    have hrecord := mem_singleton.mp hopened
    obtain he | ⟨hpeer,-⟩ := hs.others e he
    · cases mem_singleton.mp he
      exact absurd (hrecord ▸ hmine) (hnone .ours ours)
    · cases hparty.symm.trans hpeer
  | some plain =>
    obtain ⟨rfl,party,hmem⟩ := hdoes
    obtain ⟨rfl,rfl⟩ := hours_only party plain hmem
    obtain ⟨rfl,rfl⟩ := hreply
    dsimp only at h
    rw [if_neg (not_not.mpr hours)] at h
    obtain ⟨rfl,rfl⟩ := h
    refine ⟨fun _ => ⟨_,hmine,rfl,?_⟩,fun _ => ⟨_,rfl⟩⟩
    exact mem_append_right _ (mem_singleton_self _)

theorem sound_exchangeInfo (hkey : ¬K.derives key) (hours : ours.length = PEER_INFO_SIZE)
    (hs : Standing K [] w) (h : (exchangeInfo (.new key) ours).Yields (does K) w out w') : Sound out w' := by
  obtain ⟨sealed,t,⟨-,rfl⟩,h⟩ := h
  have hs' : Standing K [⟨.ours,key,nonce 0,ours,sealed⟩]
      { w with sealings := w.sealings++[⟨.ours,key,nonce 0,ours,sealed⟩] } := by
    refine ⟨hs.unopened,fun e he => mem_append_right _ he,?_⟩
    intro e he
    rcases mem_append.mp he with he | he
    · exact .inr ((hs.others e he).resolve_left not_mem_nil)
    · exact .inl he
  refine sound_orFail (only_writePacket _ _) hs' ?_ h
  intro _ t out _ hs' h
  refine sound_orFail (only_readPacket _ _) hs' ?_ h
  intro record t out _ hs' h
  exact sound_decrypt hkey hours hs' h

theorem sound_exchange (hpw : ¬K.knows password) (hs : Standing K [] w)
    (h : (exchange C (password++exporter.bytes) pubkey privateTmp).Yields (does K) w out w') : Sound out w' := by
  rw [exchange] at h
  split at h
  · obtain ⟨rfl,rfl⟩ := h
    constructor
    · rintro ⟨info,h⟩
      cases h
    · rintro ⟨e,-,-,hopened⟩
      rw [hs.unopened] at hopened
      cases hopened
  · rename_i side msg hgen
    refine sound_orFail (only_writePacket _ _) hs ?_ h
    intro _ t out _ hs h
    refine sound_orFail (only_readPacket _ _) hs ?_ h
    intro theirMsg t out _ hs h
    split at h
    · refine sound_orFail (p:=pure _) trivial hs ?_ h
      intro shared t out hshared hs h
      obtain ⟨hshared,-⟩ := hshared
      refine sound_orFail (p:=pure _) trivial hs ?_ h
      intro ours t out hours hs h
      obtain ⟨hours,-⟩ := hours
      have hkey : ¬K.derives (C.deriveKey shared) := fun hd =>
        hpw (K.needs_password password exporter privateTmp _ _ _ shared hgen hshared.symm hd)
      exact sound_exchangeInfo hkey (peerInfo_length hours.symm) hs h
    · obtain ⟨rfl,rfl⟩ := h
      exact hs.sound _

theorem only_perform (ha : talks α a) : (perform a).Only talks := ⟨ha,fun _ => trivial⟩

theorem sound_pair (hpw : ¬K.knows password) (hs : Standing K [] w)
    (h : (pair C addr password pubkey).Yields (does K) w out w') : Sound out w' := by
  refine sound_orFail (only_perform (by trivial)) hs ?_ h
  intro _ t out _ hs h
  refine sound_orFail (only_perform (by trivial)) hs ?_ h
  intro _ t out _ hs h
  refine sound_orFail (only_perform (by trivial)) hs ?_ h
  intro _ t out _ hs h
  refine sound_orFail (only_perform (by trivial)) hs ?_ h
  intro exporter t out _ hs h
  obtain ⟨privateTmp,t,rfl,h⟩ := h
  exact sound_exchange hpw hs h

/-- An action that leaves the reported session alone. -/
def unreported : (β : Type) → Act Key β → Prop
  | _, .setState _ => False
  | _, _ => True

theorem qr_eq_of_only (hp : p.Only unreported) (h : p.Yields (does K) w r w') : w'.qr = w.qr := by
  refine hp.yields (R:=fun v v' => v'.qr = v.qr) (fun _ => rfl) ?_ ?_ h
  · intro v v' v'' h h'
    exact h'.trans h
  intro β a v b v' ha hd
  cases a <;> first | exact ha.elim | (subst hd; rfl) | skip
  case read room =>
    obtain ⟨-,more,-,rfl⟩ := hd
    rfl
  case write buf => rw [hd.2]
  case encrypt key nonce plain => rw [hd.2]
  case decrypt key nonce record => cases b <;> rw [hd.1]

theorem only_orFail {p : Prog (Act Key) (Except Error α)}
    {k : α → Prog (Act Key) (Option (Except Error ρ))} (hp : p.Only talks) (hk : ∀ a, (k a).Only unreported) :
    (orFail p k).Only unreported := by
  refine only_bind (hp.mono fun _ a _ => by cases a <;> trivial) fun reply => ?_
  split
  · trivial
  · exact hk _

theorem only_exchangeInfo (cipher : PairingCipher Key) (ours : Bytes) : (exchangeInfo cipher ours).Only unreported := by
  refine ⟨trivial,fun sealed => only_orFail (only_writePacket _ _) fun _ =>
    only_orFail (only_readPacket _ _) fun record => ?_⟩
  refine only_bind (only_perform_bind trivial fun reply => ?_) fun reply => ?_
  · split <;> trivial
  split
  · trivial
  · dsimp only
    split <;> trivial

theorem only_exchange (pswd pubkey : Bytes) (privateTmp : Block 64) :
    (exchange C pswd pubkey privateTmp).Only unreported := by
  rw [exchange]
  split
  · trivial
  refine only_orFail (only_writePacket _ _) fun _ => only_orFail (only_readPacket _ _) fun theirMsg => ?_
  split
  · exact only_orFail trivial fun _ => only_orFail trivial fun _ => only_exchangeInfo _ _
  · trivial

theorem only_pair (addr : String) (password pubkey : Bytes) : (pair C addr password pubkey).Only unreported :=
  only_orFail (only_perform (by trivial)) fun _ => only_orFail (only_perform (by trivial)) fun _ =>
    only_orFail (only_perform (by trivial)) fun _ => only_orFail (only_perform (by trivial)) fun _ =>
      ⟨trivial,fun _ => only_exchange _ _ _⟩

/-- The session as `qr_pair_start` leaves it. -/
def World.start (session : QrSession) : World Key := ⟨[],[],some ⟨session,.waiting,none,none,none⟩⟩

theorem standing_start (session : QrSession) (qr : Option QrState) :
    Standing K [] { (World.start session : World Key) with qr := qr } :=
  ⟨rfl,fun _ he => absurd he not_mem_nil,fun _ he => absurd he not_mem_nil⟩

/-- After a success the session is reported as paired, and what follows does not take it back. -/
theorem paired_autoConnect (hqr : w.qr = some qr) (hstate : qr.state = .paired)
    (h : (autoConnect guid).Yields (does K) w () w') : Paired w' ∧ w'.sealings = w.sealings ∧ w'.opened = w.opened := by
  have hstay : Paired w := ⟨qr,hqr,.inl hstate⟩
  cases guid with
  | none =>
    obtain ⟨-,rfl⟩ := h
    exact ⟨hstay,rfl,rfl⟩
  | some guid =>
    rw [autoConnect,yields_perform_bind] at h
    obtain ⟨found,t,rfl,h⟩ := h
    cases found with
    | none =>
      obtain ⟨-,rfl⟩ := h
      exact ⟨hstay,rfl,rfl⟩
    | some address =>
      obtain ⟨connected,t,rfl,h⟩ := h
      cases connected with
      | false =>
        obtain ⟨-,rfl⟩ := h
        exact ⟨hstay,rfl,rfl⟩
      | true =>
        obtain ⟨-,t,rfl,-,rfl⟩ := h
        exact ⟨⟨_,by rw [hqr]; rfl,.inr rfl⟩,rfl,rfl⟩

theorem not_paired_fail (h : (fail text).Yields (does K) w () w') :
    ¬Paired w' ∧ w'.sealings = w.sealings ∧ w'.opened = w.opened := by
  obtain ⟨-,t,rfl,-,rfl⟩ := h
  refine ⟨?_,rfl,rfl⟩
  rintro ⟨qr,hqr,hstate⟩
  obtain ⟨qr',-,rfl⟩ := Option.map_eq_some_iff.mp hqr
  rcases hstate with h | h <;> cases h

theorem reflected_congr (hs : w'.sealings = w.sealings) (ho : w'.opened = w.opened) : Reflected w' ↔ Reflected w := by
  unfold Reflected
  rw [hs,ho]

theorem paired_iff_qrPairRun (hpw : ¬K.knows session.password)
    (h : (qrPairRun C session pubkey).Yields (does K) (World.start session) () w) : Paired w ↔ Reflected w := by
  rw [qrPairRun,yields_perform_bind] at h
  obtain ⟨addr,t,rfl,h⟩ := h
  cases addr with
  | none =>
    obtain ⟨hnot,hs,ho⟩ := not_paired_fail h
    rw [reflected_congr hs ho]
    refine iff_of_false hnot ?_
    rintro ⟨e,he,-⟩
    cases he
  | some addr =>
    dsimp only at h
    rw [yields_perform_bind] at h
    obtain ⟨-,t,rfl,h⟩ := h
    rw [yields_bind_iff] at h
    obtain ⟨out,t',hpair,h⟩ := h
    have hsound : (∃ info, out = some (.ok info)) ↔ Reflected t' := sound_pair hpw (standing_start session _) hpair
    have hqr := qr_eq_of_only (only_pair addr session.password pubkey) hpair
    rcases out with _ | e | info
    · obtain ⟨hnot,hs,ho⟩ := not_paired_fail h
      rw [reflected_congr hs ho,← hsound]
      exact iff_of_false hnot (by rintro ⟨_,h⟩; cases h)
    · have hfail : ∃ text, (fail text).Yields (does K) t' () w := by
        cases e <;> exact ⟨_,h⟩
      obtain ⟨text,hfail⟩ := hfail
      obtain ⟨hnot,hs,ho⟩ := not_paired_fail hfail
      rw [reflected_congr hs ho,← hsound]
      exact iff_of_false hnot (by rintro ⟨_,h⟩; cases h)
    · dsimp only at h
      rw [yields_perform_bind] at h
      obtain ⟨-,t'',rfl,h⟩ := h
      obtain ⟨hyes,hs,ho⟩ := paired_autoConnect (by rw [hqr]; rfl) rfl h
      rw [reflected_congr hs ho]
      exact iff_of_true hyes (hsound.mp ⟨info,rfl⟩)

/-- For a peer without the password: the client gets through, and the daemon reports the
session as paired, exactly in the runs in which our own record comes back. -/
theorem paired_iff_reflected (K : Knowledge C) (session : QrSession) (pubkey : Bytes)
    (hpw : ¬K.knows session.password) :
    (∀ addr out w, (pair C addr session.password pubkey).Yields (does K) (World.start session) out w →
      ((∃ info, out = some (.ok info)) ↔ Reflected w)) ∧
    ∀ w, (qrPairRun C session pubkey).Yields (does K) (World.start session) () w → (Paired w ↔ Reflected w) := by
  refine ⟨?_,fun w h => paired_iff_qrPairRun hpw h⟩
  intro addr out w h
  exact sound_pair hpw (standing_start session _) h

end

section

variable [AddCommGroup G] {C : Crypto G Key} {K : Knowledge C} {t : World Key} {packetType : UInt8}
  {p : Prog (Act Key) (Except Error α)} {a : α} {k : α → Prog (Act Key) (Option (Except Error ρ))}
  {out : Option (Except Error ρ)} {payload : Bytes} {self side : Spake2 G} {msg : Block 32} {N M : G}

theorem yields_orFail (hp : p.Yields (does K) w (.ok a) t) (hk : (k a).Yields (does K) t out w') :
    (orFail p k).Yields (does K) w out w' :=
  yields_bind_iff.mpr ⟨_,t,hp,hk⟩

theorem yields_readExact (bs : Bytes) : (readExact bs.length).Yields (does K) w (.ok bs) w := by
  rw [readExact]
  split
  · rename_i hnil
    rw [length_eq_zero_iff.mp hnil]
    exact ⟨rfl,rfl⟩
  · rename_i hlen
    refine yields_perform_bind.mpr ⟨false,w,rfl,?_⟩
    refine yields_perform_bind.mpr ⟨.ok bs,w,⟨fun chunk h => ?_,[],by simp,by simp⟩,?_⟩
    · cases h
      exact le_rfl
    · dsimp only
      rw [dif_neg hlen,Nat.sub_self,readExact]
      exact ⟨by simp,rfl⟩

theorem yields_writeAll (buf : Bytes) : (writeAll buf).Yields (does K) w (.ok ()) w := by
  rw [writeAll]
  split
  · exact ⟨rfl,rfl⟩
  rename_i hlen
  refine yields_perform_bind.mpr ⟨false,w,rfl,?_⟩
  refine yields_perform_bind.mpr ⟨.ok buf.length,w,⟨fun n h => ?_,rfl⟩,?_⟩
  · cases h
    exact le_rfl
  · dsimp only
    rw [dif_neg hlen,drop_length,writeAll]
    exact ⟨rfl,rfl⟩

theorem yields_writePacket (header : Bytes) (h : encodeHeader packetType payload.length = .ok header) :
    (writePacket packetType payload).Yields (does K) w (.ok ()) w := by
  rw [writePacket,h]
  exact yields_bind_iff.mpr ⟨_,w,yields_writeAll header,yields_writeAll payload⟩

theorem yields_readPacket (header payload : Bytes) (expected : String)
    (hlen : header.length = HEADER_LEN) (h : decodeHeader header = .ok (packetType,payload.length)) :
    (readPacket packetType expected).Yields (does K) w (.ok payload) w := by
  have hread := yields_readExact (K:=K) (w:=w) header
  rw [hlen] at hread
  refine yields_bind_iff.mpr ⟨_,w,hread,?_⟩
  dsimp only
  rw [h]
  dsimp only
  rw [if_neg (not_not.mpr rfl)]
  exact yields_readExact payload

/-- Any point will do as the answer to our message. -/
theorem processMsg_point (point : G) (hself : self.roleAlice) (hN : C.suite.decompress N_ENCODED = some N)
    (h : generateMsg C.suite self privateTmp = some (side,msg)) :
    ∃ shared, side.processMsg C.suite (C.suite.compress point) = .ok shared := by
  obtain ⟨mask,x,p,-,-,-,rfl⟩ := generateMsg_cases h
  simp only [processMsg,hashInput,if_true,C.suite.decompress_compress,hself,hN]
  exact ⟨_,rfl⟩

/-- Our own record comes back and opens. -/
theorem exists_reflected_exchangeInfo (key : Key) (hours : ours.length = PEER_INFO_SIZE) :
    ∃ w', (exchangeInfo (.new key) ours).Yields (does K) w (some (.ok ours)) w' := by
  obtain ⟨record,hsize⟩ : ∃ record : Bytes, record.length = PEER_INFO_SIZE+16 :=
    ⟨List.replicate (PEER_INFO_SIZE+16) 0,length_replicate⟩
  let w₁ : World Key := { w with sealings := w.sealings++[⟨.ours,key,nonce 0,ours,record⟩] }
  refine ⟨{ w₁ with opened := w₁.opened++[record] },record,w₁,⟨by rw [hsize,hours],rfl⟩,?_⟩
  refine yields_orFail (yields_writePacket [1,1,0,0,32,16] (by rw [hsize]; rfl)) ?_
  refine yields_orFail (yields_readPacket [1,1,0,0,32,16] record _ rfl (by rw [hsize]; rfl)) ?_
  refine yields_orFail ⟨some ours,_,⟨rfl,.ours,mem_append_right _ (mem_singleton_self _)⟩,rfl,rfl⟩ ?_
  rw [if_neg (not_not.mpr hours)]
  exact ⟨rfl,rfl⟩

/-- The peer answers our SPAKE2 message with any point and sends our own record back: it
needs to know nothing. -/
theorem exists_reflected_pair (addr : String) (password : Bytes)
    (hM : C.suite.decompress M_ENCODED = some M) (hN : C.suite.decompress N_ENCODED = some N)
    (hours : peerInfo pubkey = .ok ours) : ∃ w', (pair C addr password pubkey).Yields (does K) w (some (.ok ours)) w' := by
  let pswd := password++(zeroBlock 64).bytes
  obtain ⟨side,msg,hgen⟩ := generateMsg_isSome (new C.suite true pswd) (zeroBlock 64)
    (by rw [new_roleAlice,if_pos rfl,hM]; rfl)
  obtain ⟨shared,hshared⟩ := processMsg_point 0 (new_roleAlice true pswd) hN hgen
  obtain ⟨w',hinfo⟩ := exists_reflected_exchangeInfo (K:=K) (C.deriveKey shared) (peerInfo_length hours)
  have hsize := (C.suite.compress 0).size
  have hexchange : (exchange C pswd pubkey (zeroBlock 64)).Yields (does K) w (some (.ok ours)) w' := by
    rw [exchange,hgen]
    refine yields_orFail (yields_writePacket [1,0,0,0,0,32] (by rw [msg.size]; rfl)) ?_
    refine yields_orFail (yields_readPacket [1,0,0,0,0,32] (C.suite.compress 0).bytes _ rfl (by rw [hsize]; rfl)) ?_
    rw [dif_pos hsize]
    exact yields_orFail ⟨hshared.symm,rfl⟩ (yields_orFail ⟨hours.symm,rfl⟩ hinfo)
  refine ⟨w',yields_orFail ⟨.ok (),w,rfl,rfl,rfl⟩ (yields_orFail ⟨.ok (),w,rfl,rfl,rfl⟩ ?_)⟩
  refine yields_orFail ⟨.ok (),w,rfl,rfl,rfl⟩ (yields_orFail ⟨.ok (zeroBlock 64),w,rfl,rfl,rfl⟩ ?_)
  exact ⟨zeroBlock 64,w,rfl,hexchange⟩

end

/-- The hash as the key. -/
def toyCrypto : Crypto (ZMod 251) (Block 64) := ⟨Spake2.toySuite,fun shared _ => shared⟩

/-- A peer that knows no password. -/
def ignorant : Knowledge toyCrypto where
  knows _ := False
  derives _ := False
  needs_password _ _ _ _ _ _ _ _ _ h := h

def qrSession : QrSession := ⟨[115],[49,50,51]⟩

/-- A run in which our own record comes back. -/
theorem exists_reflected_run : ∃ w, (qrPairRun toyCrypto qrSession []).Yields (does ignorant)
    (World.start qrSession) () w ∧ Paired w := by
  have hours : ∃ ours, peerInfo [] = .ok (0::ours) := ⟨_,rfl⟩
  obtain ⟨ours,hours⟩ := hours
  obtain ⟨w,h⟩ := exists_reflected_pair (K:=ignorant) "" qrSession.password
    rfl rfl hours
  have hqr := qr_eq_of_only (only_pair "" qrSession.password []) h
  refine ⟨{ w with qr := w.qr.map fun qr => { qr with state := .paired, guid := none } },?_,?_⟩
  · refine yields_perform_bind.mpr ⟨some "",_,rfl,yields_perform_bind.mpr ⟨(),_,rfl,?_⟩⟩
    exact yields_bind_iff.mpr ⟨_,w,h,yields_perform_bind.mpr ⟨(),_,rfl,rfl,rfl⟩⟩
  · exact ⟨_,by rw [hqr]; rfl,.inl rfl⟩

theorem paired_iff_reflected_ignorant : ∃ w, (qrPairRun toyCrypto qrSession []).Yields (does ignorant)
    (World.start qrSession) () w ∧ (Paired w ↔ Reflected w) := by
  obtain ⟨w,hrun,-⟩ := exists_reflected_run
  exact ⟨w,hrun,(paired_iff_reflected ignorant qrSession [] (fun h => h)).2 w hrun⟩

theorem reflected_record_pairs : ∃ w, (qrPairRun toyCrypto qrSession []).Yields (does ignorant)
    (World.start qrSession) () w ∧ ¬ignorant.knows qrSession.password ∧ Paired w := by
  obtain ⟨w,hrun,hpaired⟩ := exists_reflected_run
  exact ⟨w,hrun,fun h => h,hpaired⟩

end AdbShare.Pairing

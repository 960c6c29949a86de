import AdbShare.Transition
import AdbShare.Packet

/-! A multiplexed ADB connection: the reader task that dispatches the device's frames, the
writer task that empties the write queue, `open_stream` calls, and the streams they return
with the task that closes each of them. A lock is held for one step; tasks and calls take
steps in any order. An open call is numbered apart from its local id, which wraps. -/
namespace AdbShare.Connection

open Transition Function Option

inductive WriteReq
  | frame (m : Message)
  | data (localId remote : UInt32) (payload : Bytes)
deriving DecidableEq

/-- The frame that the writer puts on the wire. -/
def WriteReq.message : WriteReq → Message
  | .frame m => m
  | .data localId remote payload => ⟨.write,localId,remote,payload⟩

def WRITE_QUEUE : ℕ := 2048
def STREAM_QUEUE : ℕ := 256

/-- What a reply channel holds; it is gone when its sender has been dropped unused. -/
inductive Slot
  | empty
  | sent (r : Except AdbError UInt32)
  | gone

/-- Where an `open_stream` call stands. -/
inductive Phase
  | numbered
  | filed
  | registered
  | waiting
  | aborting (e : AdbError)
  | aborted (e : AdbError)
  | failed (e : AdbError)
  | opened (remote : UInt32)
  | cancelled
deriving DecidableEq

/-- The task that waits for the stream to be closed. -/
inductive Closer
  | absent | armed | woken | sending | done
deriving DecidableEq

/-- An `open_stream` call with its reply channel and its data channel, and then the stream:
`queue` is in the data channel, `incoming` is the rest of a chunk, `returned` is what the reads
have returned. -/
structure Call where
  localId : UInt32
  dest : Bytes
  phase : Phase := .numbered
  reply : Slot := .empty
  receiving : Bool := true
  queue : List Bytes := []
  incoming : Option Bytes := none
  returned : List Bytes := []
  closer : Closer := .absent

inductive Reader
  | idle
  | closing (localId : UInt32)
  | delivering (i : ℕ) (localId remote : UInt32) (payload : Bytes)
  | forgetting (localId remote : UInt32)
  | queueing (m : Message)
  | stopping
  | ended
deriving DecidableEq

inductive Writer
  | idle
  | writing (m : Message)
  | stopping
  | drained
  | closed
deriving DecidableEq

/-- The writer has dropped the data channels. -/
def Writer.over : Writer → Prop
  | .drained | .closed => True
  | _ => False

/-- `queued` has every request that was ever put on the write queue. -/
structure State where
  nextLocal : UInt32 := 1
  calls : ℕ → Option Call := fun _ => none
  streams : UInt32 → Option ℕ := fun _ => none
  pending : UInt32 → Option ℕ := fun _ => none
  queue : List WriteReq := []
  queued : List WriteReq := []
  wire : List Message := []
  reader : Reader := .idle
  writer : Writer := .idle
  alive : Bool := true

inductive CallAct
  | start (dest : Bytes) | file | register | send | take | elapse | abortPending | abortStream | cancel

inductive ReaderAct
  | frame (m : Message) | stop | signal | forget | deliver | unfile | enqueue | drain

inductive WriterAct
  | recv | wrote | fail | signal | drain | close

inductive StreamAct
  | read (room : ℕ) | write (buf : Bytes) | shutdown | drop | unfile | sendClose

inductive Label
  | call (i : ℕ) (a : CallAct)
  | reader (a : ReaderAct)
  | writer (a : WriterAct)
  | stream (i : ℕ) (a : StreamAct)
  | dropConnection

namespace State

def setCall (s : State) (i : ℕ) (c : Call) : State := { s with calls := update s.calls i (some c) }

def pushed (s : State) (r : WriteReq) : State := { s with queue := s.queue++[r], queued := s.queued++[r] }

/-- A request is put on the write queue, when there is room. -/
def push (s : State) (r : WriteReq) : Option State :=
  if s.writer ≠ .closed ∧ s.queue.length < WRITE_QUEUE then some (s.pushed r) else none

/-- The sender registered under the id is taken out: used for an answer, or dropped. -/
def settle (s : State) (localId : UInt32) (slot : Slot) : State :=
  match s.pending localId with
  | none => s
  | some i => { s with
      pending := update s.pending localId none
      calls := update s.calls i ((s.calls i).map fun c => { c with reply := slot }) }

/-- The data channel of the call still has a sender: its own, the registered one, or the copy
of a reader that is delivering. -/
def hasSender (s : State) (i : ℕ) (c : Call) : Bool :=
  decide (c.phase = .numbered) || decide (s.streams c.localId = some i) ||
    match s.reader with
    | .delivering j _ _ _ => decide (j = i)
    | _ => false

end State

section

/-- The reason in a FAIL payload: a length of four bytes, then the text. -/
def failReason (payload : Bytes) : Bytes :=
  if payload.length > 4 then
    Utf8.fromUtf8Lossy ((payload.drop 4).take (min (4+fromLe (payload.take 4)) payload.length-4))
  else []

def refusal (localId remote : UInt32) (payload : Bytes) : AdbError :=
  .protocol (if failReason payload = [] then
    "device refused the request (stream "++toString localId++"/"++toString remote++")"
  else "device refused the request: "++Utf8.toString (failReason payload))

/-- What the reader does with a frame, up to the first point where it lets others run. In a
frame of the device our id is in `arg1` and its own in `arg0`. -/
def dispatch (s : State) (m : Message) : State :=
  match m.command with
  | .okay => s.settle m.arg1 (.sent (.ok m.arg0))
  | .fail => s.settle m.arg1 (.sent (.error (refusal m.arg1 m.arg0 m.payload)))
  | .close =>
    { s.settle m.arg1 (.sent (.error (.invalidResponse "CLSE on OPEN"))) with reader := .closing m.arg1 }
  | .write =>
    match s.streams m.arg1 with
    | none => s
    | some i => { s with reader := .delivering i m.arg1 m.arg0 m.payload }
  | _ => s

end

inductive Poll
  | pending
  | ready (bytes : Bytes)
deriving DecidableEq

/-- `poll_read` with room for so many bytes; `ready` with no bytes is the end of the file. -/
def pollRead (c : Call) (hasSender : Bool) (room : ℕ) : Poll × Call :=
  if room = 0 then (.ready [],c)
  else
    match c.incoming with
    | some (b::pending) =>
      let rest := (b::pending).drop room
      (.ready ((b::pending).take room),
        { c with incoming := if rest = [] then none else some rest, returned := c.returned++[(b::pending).take room] })
    | _ =>
      match c.queue with
      | chunk::queue =>
        let rest := chunk.drop room
        (.ready (chunk.take room),
          { c with queue := queue, incoming := if rest = [] then none else some rest,
                   returned := c.returned++[chunk.take room] })
      | [] => if hasSender then (.pending,{ c with incoming := none }) else (.ready [],{ c with incoming := none })

/-- `abort_open`, first the reply channel and then the data channel. -/
def callStep (s : State) (i : ℕ) (a : CallAct) : Option State :=
  match s.calls i with
  | none =>
    match a with
    | .start dest =>
      if s.alive then some { s.setCall i { localId := s.nextLocal+1, dest := dest } with nextLocal := s.nextLocal+1 }
      else none
    | _ => none
  | some c =>
    match a, c.phase with
    | .file, .numbered =>
      some { s.setCall i { c with phase := .filed } with streams := update s.streams c.localId (some i) }
    | .register, .filed =>
      some { (s.settle c.localId .gone).setCall i { c with phase := .registered } with
        pending := update s.pending c.localId (some i) }
    | .send, .registered =>
      if s.writer = .closed then some (s.setCall i { c with phase := .aborting .disconnected })
      else (s.push (.frame ⟨.open_,c.localId,0,c.dest++[0]⟩)).map fun s => s.setCall i { c with phase := .waiting }
    | .take, .waiting =>
      match c.reply with
      | .empty => none
      | .sent (.ok remote) => some (s.setCall i { c with phase := .opened remote, closer := .armed })
      | .sent (.error e) => some (s.setCall i { c with phase := .aborting e })
      | .gone => some (s.setCall i { c with phase := .aborting .disconnected })
    | .elapse, .waiting =>
      match c.reply with
      | .empty => some (s.setCall i { c with phase := .aborting .timeout })
      | _ => none
    | .abortPending, .aborting e => some ((s.settle c.localId .gone).setCall i { c with phase := .aborted e })
    | .abortStream, .aborted e =>
      some { s.setCall i { c with phase := .failed e, receiving := false } with
        streams := update s.streams c.localId none }
    | .cancel, .registered | .cancel, .waiting =>
      some (s.setCall i { c with phase := .cancelled, receiving := false })
    | _, _ => none

def readerStep (s : State) (a : ReaderAct) : Option State :=
  match a, s.reader with
  | .frame m, .idle => some (dispatch s m)
  | .stop, .idle => some { s with reader := .stopping }
  | .signal, .idle => if s.alive then none else some { s with reader := .stopping }
  | .forget, .closing localId =>
    some { s with streams := update s.streams localId none, reader := .idle }
  | .deliver, .delivering i localId remote payload =>
    match s.calls i with
    | none => none
    | some c =>
      if c.receiving then
        if c.queue.length < STREAM_QUEUE then
          some { s.setCall i { c with queue := c.queue++[payload] } with
            reader := .queueing ⟨.okay,localId,remote,[]⟩ }
        else none
      else some { s with reader := .forgetting localId remote }
  | .unfile, .forgetting localId remote =>
    some { s with
      streams := update s.streams localId none
      reader := .queueing ⟨.close,localId,remote,[]⟩ }
  | .enqueue, .queueing m =>
    if s.writer = .closed then some { s with reader := .stopping }
    else (s.push (.frame m)).map fun s => { s with reader := .idle }
  | .drain, .stopping =>
    some { s with
      pending := fun _ => none
      calls := fun i => (s.calls i).map fun c =>
        if s.pending c.localId = some i then { c with reply := .sent (.error .disconnected) } else c
      reader := .ended }
  | _, _ => none

def writerStep (s : State) (a : WriterAct) : Option State :=
  match a, s.writer with
  | .recv, .idle =>
    match s.queue with
    | [] => none
    | r::queue => some { s with queue := queue, writer := .writing r.message }
  | .wrote, .writing m => some { s with writer := .idle, wire := s.wire++[m] }
  | .fail, .writing _ => some { s with writer := .stopping }
  | .signal, .idle => if s.alive then none else some { s with writer := .stopping }
  | .drain, .stopping => some { s with streams := fun _ => none, writer := .drained }
  | .close, .drained => some { s with queue := [], writer := .closed }
  | _, _ => none

def streamStep (s : State) (i : ℕ) (a : StreamAct) : Option State :=
  match s.calls i with
  | none => none
  | some c =>
    match a, c.phase with
    | .read room, .opened _ =>
      if c.receiving then some (s.setCall i (pollRead c (s.hasSender i c) room).2) else none
    | .write buf, .opened remote =>
      if c.receiving then s.push (.data c.localId remote (buf.take Message.MAX_PAYLOAD)) else none
    | .shutdown, .opened _ =>
      if c.receiving then
        some (s.setCall i { c with closer := if c.closer = .armed then .woken else c.closer })
      else none
    | .drop, .opened _ =>
      if c.receiving then
        some (s.setCall i { c with closer := if c.closer = .armed then .woken else c.closer, receiving := false })
      else none
    | .unfile, .opened _ =>
      if c.closer = .woken then
        some { s.setCall i { c with closer := .sending } with streams := update s.streams c.localId none }
      else none
    | .sendClose, .opened remote =>
      if c.closer = .sending then
        if s.writer = .closed then some (s.setCall i { c with closer := .done })
        else (s.push (.frame ⟨.close,c.localId,remote,[]⟩)).map fun s => s.setCall i { c with closer := .done }
      else none
    | _, _ => none

def step (s : State) : Label → Option State
  | .call i a => callStep s i a
  | .reader a => readerStep s a
  | .writer a => writerStep s a
  | .stream i a => streamStep s i a
  | .dropConnection => if s.alive then some { s with alive := false } else none

/-- What each kind of step does, with its guard. -/
inductive Steps (s : State) : Label → State → Prop
  | start {i : ℕ} {dest : Bytes} (hnew : s.calls i = none) (halive : s.alive = true) :
      Steps s (.call i (.start dest))
        { s.setCall i { localId := s.nextLocal+1, dest := dest } with nextLocal := s.nextLocal+1 }
  | file {i : ℕ} {c : Call} (hc : s.calls i = some c) (hp : c.phase = .numbered) :
      Steps s (.call i .file)
        { s.setCall i { c with phase := .filed } with streams := update s.streams c.localId (some i) }
  | register {i : ℕ} {c : Call} (hc : s.calls i = some c) (hp : c.phase = .filed) :
      Steps s (.call i .register) { (s.settle c.localId .gone).setCall i { c with phase := .registered } with
        pending := update s.pending c.localId (some i) }
  | send {i : ℕ} {c : Call} (hc : s.calls i = some c) (hp : c.phase = .registered) (hw : s.writer ≠ .closed) :
      Steps s (.call i .send)
        ((s.pushed (.frame ⟨.open_,c.localId,0,c.dest++[0]⟩)).setCall i { c with phase := .waiting })
  | sendFailed {i : ℕ} {c : Call} (hc : s.calls i = some c) (hp : c.phase = .registered) (hw : s.writer = .closed) :
      Steps s (.call i .send) (s.setCall i { c with phase := .aborting .disconnected })
  | opened {i : ℕ} {c : Call} {remote : UInt32} (hc : s.calls i = some c) (hp : c.phase = .waiting)
      (hr : c.reply = .sent (.ok remote)) :
      Steps s (.call i .take) (s.setCall i { c with phase := .opened remote, closer := .armed })
  | refused {i : ℕ} {c : Call} {e : AdbError} (hc : s.calls i = some c) (hp : c.phase = .waiting)
      (hr : c.reply = .sent (.error e)) : Steps s (.call i .take) (s.setCall i { c with phase := .aborting e })
  | forsaken {i : ℕ} {c : Call} (hc : s.calls i = some c) (hp : c.phase = .waiting) (hr : c.reply = .gone) :
      Steps s (.call i .take) (s.setCall i { c with phase := .aborting .disconnected })
  | elapse {i : ℕ} {c : Call} (hc : s.calls i = some c) (hp : c.phase = .waiting) (hr : c.reply = .empty) :
      Steps s (.call i .elapse) (s.setCall i { c with phase := .aborting .timeout })
  | abortPending {i : ℕ} {c : Call} {e : AdbError} (hc : s.calls i = some c) (hp : c.phase = .aborting e) :
      Steps s (.call i .abortPending) ((s.settle c.localId .gone).setCall i { c with phase := .aborted e })
  | abortStream {i : ℕ} {c : Call} {e : AdbError} (hc : s.calls i = some c) (hp : c.phase = .aborted e) :
      Steps s (.call i .abortStream) { s.setCall i { c with phase := .failed e, receiving := false } with
        streams := update s.streams c.localId none }
  | cancel {i : ℕ} {c : Call} (hc : s.calls i = some c) (hp : c.phase = .registered ∨ c.phase = .waiting) :
      Steps s (.call i .cancel) (s.setCall i { c with phase := .cancelled, receiving := false })
  | okay {m : Message} (hr : s.reader = .idle) (hm : m.command = .okay) :
      Steps s (.reader (.frame m)) (s.settle m.arg1 (.sent (.ok m.arg0)))
  | fail {m : Message} {e : AdbError} (hr : s.reader = .idle) (hm : m.command = .fail) :
      Steps s (.reader (.frame m)) (s.settle m.arg1 (.sent (.error e)))
  | clse {m : Message} {e : AdbError} (hr : s.reader = .idle) (hm : m.command = .close) :
      Steps s (.reader (.frame m)) { s.settle m.arg1 (.sent (.error e)) with reader := .closing m.arg1 }
  | wrte {m : Message} {i : ℕ} (hr : s.reader = .idle) (hm : m.command = .write) (hi : s.streams m.arg1 = some i) :
      Steps s (.reader (.frame m)) { s with reader := .delivering i m.arg1 m.arg0 m.payload }
  | ignored {m : Message} (hr : s.reader = .idle) (hm : m.command ≠ .okay)
      (hw : m.command = .write → s.streams m.arg1 = none) : Steps s (.reader (.frame m)) s
  | stop {a : ReaderAct} (ha : a = .stop ∨ a = .signal) (hr : s.reader = .idle) :
      Steps s (.reader a) { s with reader := .stopping }
  | forget {localId : UInt32} (hr : s.reader = .closing localId) :
      Steps s (.reader .forget) { s with streams := update s.streams localId none, reader := .idle }
  | deliver {i : ℕ} {c : Call} {localId remote : UInt32} {payload : Bytes}
      (hr : s.reader = .delivering i localId remote payload) (hc : s.calls i = some c) (hrx : c.receiving = true) :
      Steps s (.reader .deliver) { s.setCall i { c with queue := c.queue++[payload] } with
        reader := .queueing ⟨.okay,localId,remote,[]⟩ }
  | undelivered {i : ℕ} {c : Call} {localId remote : UInt32} {payload : Bytes}
      (hr : s.reader = .delivering i localId remote payload) (hc : s.calls i = some c) (hrx : c.receiving = false) :
      Steps s (.reader .deliver) { s with reader := .forgetting localId remote }
  | unfile {localId remote : UInt32} (hr : s.reader = .forgetting localId remote) :
      Steps s (.reader .unfile) { s with
        streams := update s.streams localId none
        reader := .queueing ⟨.close,localId,remote,[]⟩ }
  | enqueue {m : Message} (hr : s.reader = .queueing m) (hw : s.writer ≠ .closed) :
      Steps s (.reader .enqueue) { s.pushed (.frame m) with reader := .idle }
  | enqueueFailed {m : Message} (hr : s.reader = .queueing m) (hw : s.writer = .closed) :
      Steps s (.reader .enqueue) { s with reader := .stopping }
  | drain (hr : s.reader = .stopping) : Steps s (.reader .drain) { s with
      pending := fun _ => none
      calls := fun i => (s.calls i).map fun c =>
        if s.pending c.localId = some i then { c with reply := .sent (.error .disconnected) } else c
      reader := .ended }
  | writer {a : WriterAct} {queue : List WriteReq} {wire : List Message} {w : Writer} (ha : a ≠ .drain)
      (hw : w = .closed → s.writer = .drained ∧ a = .close) (hw' : s.writer ≠ .closed) (ho : w.over ↔ s.writer.over) :
      Steps s (.writer a) { s with queue := queue, wire := wire, writer := w }
  | drainStreams (hw : s.writer = .stopping) :
      Steps s (.writer .drain) { s with streams := fun _ => none, writer := .drained }
  | read {i : ℕ} {c : Call} {remote : UInt32} {room : ℕ} (hc : s.calls i = some c) (hp : c.phase = .opened remote)
      (hrx : c.receiving = true) :
      Steps s (.stream i (.read room)) (s.setCall i (pollRead c (s.hasSender i c) room).2)
  | write {i : ℕ} {c : Call} {remote : UInt32} {buf : Bytes} (hc : s.calls i = some c) (hp : c.phase = .opened remote)
      (hw : s.writer ≠ .closed) :
      Steps s (.stream i (.write buf)) (s.pushed (.data c.localId remote (buf.take Message.MAX_PAYLOAD)))
  | leave {i : ℕ} {a : StreamAct} {c : Call} {remote : UInt32} {closer : Closer} {receiving : Bool}
      (ha : a = .shutdown ∨ a = .drop) (hc : s.calls i = some c) (hp : c.phase = .opened remote)
      (hrx : receiving = true → c.receiving = true) (hcl : closer = c.closer ∧ c.closer ≠ .armed ∨ closer = .woken) :
      Steps s (.stream i a) (s.setCall i { c with closer := closer, receiving := receiving })
  | closerUnfile {i : ℕ} {c : Call} {remote : UInt32} (hc : s.calls i = some c) (hp : c.phase = .opened remote)
      (hcl : c.closer = .woken) :
      Steps s (.stream i .unfile)
        { s.setCall i { c with closer := .sending } with streams := update s.streams c.localId none }
  | sendClose {i : ℕ} {c : Call} {remote : UInt32} (hc : s.calls i = some c) (hp : c.phase = .opened remote)
      (hcl : c.closer = .sending) (hw : s.writer ≠ .closed) :
      Steps s (.stream i .sendClose)
        ((s.pushed (.frame ⟨.close,c.localId,remote,[]⟩)).setCall i { c with closer := .done })
  | closeLost {i : ℕ} {c : Call} {remote : UInt32} (hc : s.calls i = some c) (hp : c.phase = .opened remote)
      (hcl : c.closer = .sending) (hw : s.writer = .closed) :
      Steps s (.stream i .sendClose) (s.setCall i { c with closer := .done })
  | dropConnection : Steps s .dropConnection { s with alive := false }

open State

section

variable {s s' : State} {r : WriteReq} {i : ℕ} {m : Message} {a : ReaderAct} {l : Label}

theorem settle_pending (s : State) (l : UInt32) (slot : Slot) (l' : UInt32) :
    (s.settle l slot).pending l' = if l' = l then none else s.pending l' := by
  unfold settle
  split
  · rename_i hnone
    split
    · rename_i heq
      rw [heq,hnone]
    · rfl
  · exact update_apply _ _ _ _

theorem settle_calls (s : State) (l : UInt32) (slot : Slot) (j : ℕ) : (s.settle l slot).calls j =
    (s.calls j).map fun c => if s.pending l = some j then { c with reply := slot } else c := by
  unfold settle
  split
  · rename_i hnone
    simp [hnone]
  rename_i i hi
  by_cases hj : j = i
  · subst hj
    simp [hi]
  · have hne : i ≠ j := fun h => hj h.symm
    simp [hi,hj,hne]

@[simp] theorem settle_streams (s : State) (l : UInt32) (slot : Slot) : (s.settle l slot).streams = s.streams := by
  unfold settle
  split <;> rfl

@[simp] theorem settle_reader (s : State) (l : UInt32) (slot : Slot) : (s.settle l slot).reader = s.reader := by
  unfold settle
  split <;> rfl

@[simp] theorem settle_writer (s : State) (l : UInt32) (slot : Slot) : (s.settle l slot).writer = s.writer := by
  unfold settle
  split <;> rfl

@[simp] theorem settle_queued (s : State) (l : UInt32) (slot : Slot) : (s.settle l slot).queued = s.queued := by
  unfold settle
  split <;> rfl

@[simp] theorem settle_nextLocal (s : State) (l : UInt32) (slot : Slot) :
    (s.settle l slot).nextLocal = s.nextLocal := by
  unfold settle
  split <;> rfl

theorem push_cases (h : s.push r = some s') : s.writer ≠ .closed ∧ s' = s.pushed r := by
  rw [push] at h
  split_ifs at h with hw
  exact ⟨hw.1,(some.inj h).symm⟩

theorem callStep_steps {a : CallAct} (h : callStep s i a = some s') : Steps s (.call i a) s' := by
  unfold callStep at h
  obtain hc | ⟨c,hc⟩ := eq_none_or_eq_some (s.calls i)
  · rw [hc] at h
    cases a with
    | start dest =>
      dsimp only at h
      split_ifs at h with halive
      exact some.inj h ▸ .start hc halive
    | _ => cases h
  · rw [hc] at h
    dsimp only at h
    split at h
    · rename_i hp
      exact some.inj h ▸ .file hc hp
    · rename_i hp
      exact some.inj h ▸ .register hc hp
    · rename_i hp
      split at h
      · rename_i hw
        exact some.inj h ▸ .sendFailed hc hp hw
      · obtain ⟨t,ht,rfl⟩ := map_eq_some_iff.mp h
        obtain ⟨hw,rfl⟩ := push_cases ht
        exact .send hc hp hw
    · rename_i hp
      split at h
      · cases h
      · rename_i hr
        exact some.inj h ▸ .opened hc hp hr
      · rename_i hr
        exact some.inj h ▸ .refused hc hp hr
      · rename_i hr
        exact some.inj h ▸ .forsaken hc hp hr
    · rename_i hp
      split at h
      · rename_i hr
        exact some.inj h ▸ .elapse hc hp hr
      · cases h
    · rename_i hp
      exact some.inj h ▸ .abortPending hc hp
    · rename_i hp
      exact some.inj h ▸ .abortStream hc hp
    · rename_i hp
      exact some.inj h ▸ .cancel hc (.inl hp)
    · rename_i hp
      exact some.inj h ▸ .cancel hc (.inr hp)
    · cases h

theorem dispatch_steps (hr : s.reader = .idle) : Steps s (.reader (.frame m)) (dispatch s m) := by
  unfold dispatch
  split
  · rename_i hm
    exact .okay hr hm
  · rename_i hm
    exact .fail hr hm
  · rename_i hm
    exact .clse hr hm
  · rename_i hm
    split
    · rename_i hi
      exact .ignored hr (by simp [hm]) fun _ => hi
    · rename_i hi
      exact .wrte hr hm hi
  · rename_i hokay _ _ hwrite
    exact .ignored hr hokay fun hm => absurd hm hwrite

theorem readerStep_steps (h : readerStep s a = some s') : Steps s (.reader a) s' := by
  unfold readerStep at h
  split at h
  · rename_i hr
    exact some.inj h ▸ dispatch_steps hr
  · rename_i hr
    exact some.inj h ▸ .stop (.inl rfl) hr
  · rename_i hr
    split_ifs at h
    exact some.inj h ▸ .stop (.inr rfl) hr
  · rename_i hr
    exact some.inj h ▸ .forget hr
  · rename_i i localId remote payload hr
    obtain hc | ⟨c,hc⟩ := eq_none_or_eq_some (s.calls i)
    · rw [hc] at h
      cases h
    rw [hc] at h
    dsimp only at h
    split at h
    · rename_i hrx
      split_ifs at h
      exact some.inj h ▸ .deliver hr hc hrx
    · rename_i hrx
      exact some.inj h ▸ .undelivered hr hc (by simpa using hrx)
  · rename_i hr
    exact some.inj h ▸ .unfile hr
  · rename_i hr
    split at h
    · rename_i hw
      exact some.inj h ▸ .enqueueFailed hr hw
    · obtain ⟨t,ht,rfl⟩ := map_eq_some_iff.mp h
      obtain ⟨hw,rfl⟩ := push_cases ht
      exact .enqueue hr hw
  · rename_i hr
    exact some.inj h ▸ .drain hr
  · cases h

theorem writerStep_steps {a : WriterAct} (h : writerStep s a = some s') : Steps s (.writer a) s' := by
  unfold writerStep at h
  split at h
  · rename_i hw
    split at h
    · cases h
    · exact some.inj h ▸ .writer (by simp) (by simp) (by simp [hw]) (by simp [hw,Writer.over])
  · rename_i hw
    exact some.inj h ▸ .writer (by simp) (by simp) (by simp [hw]) (by simp [hw,Writer.over])
  · rename_i hw
    exact some.inj h ▸ .writer (by simp) (by simp) (by simp [hw]) (by simp [hw,Writer.over])
  · rename_i hw
    split_ifs at h
    exact some.inj h ▸ .writer (by simp) (by simp) (by simp [hw]) (by simp [hw,Writer.over])
  · rename_i hw
    exact some.inj h ▸ .drainStreams hw
  · rename_i hw
    exact some.inj h ▸ .writer (by simp) (fun _ => ⟨hw,rfl⟩) (by simp [hw]) (by simp [hw,Writer.over])
  · cases h

theorem streamStep_steps {a : StreamAct} (h : streamStep s i a = some s') : Steps s (.stream i a) s' := by
  unfold streamStep at h
  obtain hc | ⟨c,hc⟩ := eq_none_or_eq_some (s.calls i)
  · rw [hc] at h
    cases h
  rw [hc] at h
  dsimp only at h
  have hwake : ∀ closer, (if c.closer = .armed then Closer.woken else c.closer) = closer →
      closer = c.closer ∧ c.closer ≠ .armed ∨ closer = .woken := by
    rintro closer rfl
    by_cases harmed : c.closer = .armed
    · exact .inr (if_pos harmed)
    · exact .inl ⟨if_neg harmed,harmed⟩
  split at h
  · rename_i hp
    split_ifs at h with hrx
    exact some.inj h ▸ .read hc hp hrx
  · rename_i hp
    split_ifs at h
    obtain ⟨hw,rfl⟩ := push_cases h
    exact .write hc hp hw
  · rename_i hp
    split at h
    · rename_i hrx
      exact some.inj h ▸ .leave (.inl rfl) hc hp (fun _ => hrx) (hwake _ rfl)
    · cases h
  · rename_i hp
    split at h
    · exact some.inj h ▸ .leave (.inr rfl) hc hp (by simp) (hwake _ rfl)
    · cases h
  · rename_i hp
    split_ifs at h with hcl
    exact some.inj h ▸ .closerUnfile hc hp hcl
  · rename_i hp
    split at h
    · rename_i hcl
      split at h
      · rename_i hw
        exact some.inj h ▸ .closeLost hc hp hcl hw
      · obtain ⟨t,ht,rfl⟩ := map_eq_some_iff.mp h
        obtain ⟨hw,rfl⟩ := push_cases ht
        exact .sendClose hc hp hcl hw
    · cases h
  · cases h

theorem step_steps (h : step s l = some s') : Steps s l s' := by
  cases l with
  | call i a => exact callStep_steps h
  | reader a => exact readerStep_steps h
  | writer a => exact writerStep_steps h
  | stream i a => exact streamStep_steps h
  | dropConnection =>
    rw [step] at h
    split_ifs at h
    exact some.inj h ▸ .dropConnection

end

end AdbShare.Connection

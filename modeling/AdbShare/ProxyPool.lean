import AdbShare.Transition
import AdbShare.Custody
import AdbShare.Wire

/-! The pool of proxy connections and the request/reply exchange on each of them.
Callers, the reader and writer task of every connection and the device take steps in
any order. The protocol has no request ids: `Request.id` is a ghost that tells calls
apart, and a queued reply is paired with the request the device answered by it. -/
namespace AdbShare.ProxyPool

open Transition Function List List.Sublist

/-- One call of `ProxyConn::request`, or of `send_frame_and_await` when `prebuilt`. -/
structure Request where
  id : ℕ
  op : Op
  args : Bytes
  prebuilt : Bool
  deriving DecidableEq

structure Reply where
  request : Request
  body : Bytes
  deriving DecidableEq

/-- `ProxyConnInner`, its two channels and what is on the socket. A finished writer has
dropped the receiver of `writeQueue`, a finished reader the sender of `respQueue`. -/
structure Conn where
  closed : Bool := false
  poisoned : Bool := false
  writerDone : Bool := false
  readerDone : Bool := false
  writeQueue : List Request := []
  toDevice : List Request := []
  toHost : List Reply := []
  respQueue : List Reply := []
  reqLock : Option ℕ := none
  rxLock : Option ℕ := none

/-- Capacity of the two channels of a connection. -/
def CHANNEL : ℕ := 64

/-- What a call ended with; a dropped future ends with nothing. -/
inductive Outcome
  | reply (body : Bytes)
  | error (e : ProxyError)
  | dropped
  deriving DecidableEq

/-- Where a caller stands in `acquire`, `request` and `release`. -/
inductive Pc
  | idle
  | permit (r : Request)
  | pop (r : Request)
  | popped (c : ℕ) (r : Request)
  | dial (replacing : Bool) (r : Request)
  | enter (c : ℕ) (r : Request)
  | lock (c : ℕ) (r : Request)
  | send (c : ℕ) (r : Request)
  | lockRx (c : ℕ) (r : Request)
  | recv (c : ℕ) (r : Request)
  | release (c : ℕ) (r : Request) (o : Outcome)
  | done (r : Request) (o : Outcome)

/-- The connection a caller owns at this point. -/
@[simp] def Pc.conn : Pc → Option ℕ
  | .popped c _ | .enter c _ | .lock c _ | .send c _ | .lockRx c _ | .recv c _ => some c
  | .release c _ _ => some c
  | _ => none

def Pc.request : Pc → Option Request
  | .idle => none
  | .permit r | .pop r | .popped _ r | .dial _ r | .enter _ r | .lock _ r | .send _ r => some r
  | .lockRx _ r | .recv _ r | .release _ r _ | .done r _ => some r

structure State where
  maxConns : ℕ
  conns : ℕ → Conn := fun _ => {}
  nextConn : ℕ
  pool : List ℕ
  permits : ℕ
  pcs : ℕ → Pc := fun _ => .idle
  nextId : ℕ := 0
  /-- Every answer the device has given, with the request it was given to. -/
  answered : List (Request × Bytes) := []

/-- `ProxyClient::connect` dials every connection up front. -/
def init (maxConns : ℕ) : State where
  maxConns := maxConns
  nextConn := maxConns
  pool := (List.range maxConns).reverse
  permits := maxConns

inductive CallerAct
  | start (op : Op) (args : Bytes) (prebuilt : Bool)
  | acquired | busy | pop | check | dialed | dialFailed | enter | locked | sent | lockedRx
  | received | timeout | drop | release

inductive ConnAct
  | write | writeFail | serve (body : Bytes) | deliver | readerEnd

inductive Label
  | caller (t : ℕ) (a : CallerAct)
  | conn (c : ℕ) (a : ConnAct)

def State.setPc (s : State) (t : ℕ) (pc : Pc) : State :=
  { s with pcs := update s.pcs t pc }

def State.setConn (s : State) (c : ℕ) (k : Conn) : State :=
  { s with conns := update s.conns c k }

/-- The guard of `req_lock` and the one of `read_rx` go out of scope together. -/
def Conn.unlock (k : Conn) : Conn := { k with reqLock := none, rxLock := none }

def Conn.unusable (k : Conn) : Bool := k.closed || k.poisoned

/-- A caller leaves `request` and is about to hand its connection back. -/
def State.leave (s : State) (t c : ℕ) (r : Request) (k : Conn) (o : Outcome) : State :=
  (s.setConn c k.unlock).setPc t (.release c r o)

/-- A future dropped while it owns a connection: the connection is never pooled again
and its permit returns. -/
def State.abandon (s : State) (t c : ℕ) (r : Request) : State :=
  { (s.setConn c (s.conns c).unlock).setPc t (.done r .dropped) with permits := s.permits+1 }

/-- One step of caller `t`. The two flags only ever rise and only the owner of a
connection reads them, so reading both is one step. -/
def callerStep (s : State) (t : ℕ) (a : CallerAct) : Option State :=
  match a, s.pcs t with
  | .start op args prebuilt, .idle | .start op args prebuilt, .done _ _ =>
    some { s.setPc t (.permit ⟨s.nextId,op,args,prebuilt⟩) with nextId := s.nextId+1 }
  | .acquired, .permit r =>
    if s.permits = 0 then none
    else some { s.setPc t (.pop r) with permits := s.permits-1 }
  | .busy, .permit r => some (s.setPc t (.done r (.error .busy)))
  | .pop, .pop r =>
    match s.pool with
    | [] => some (s.setPc t (.dial false r))
    | c::pool => some { s.setPc t (.popped c r) with pool := pool }
  | .check, .popped c r =>
    if (s.conns c).unusable then some (s.setPc t (.dial true r))
    else some (s.setPc t (.enter c r))
  | .dialed, .dial _ r =>
    some { s.setPc t (.enter s.nextConn r) with nextConn := s.nextConn+1 }
  | .dialFailed, .dial true r => some (s.setPc t (.pop r))
  | .dialFailed, .dial false r =>
    some { s.setPc t (.done r (.error .io)) with permits := s.permits+1 }
  | .enter, .enter c r =>
    if (s.conns c).unusable then some (s.setPc t (.release c r (.error .closed)))
    else if !r.prebuilt && decide (r.args.length > MAX_REQUEST) then
      some (s.setPc t (.release c r (.error (.tooLarge r.args.length))))
    else some (s.setPc t (.lock c r))
  | .locked, .lock c r =>
    if (s.conns c).reqLock = none then
      some ((s.setConn c { s.conns c with reqLock := some t }).setPc t (.send c r))
    else none
  | .sent, .send c r =>
    if (s.conns c).writerDone then some (s.leave t c r (s.conns c) (.error .closed))
    else if (s.conns c).writeQueue.length < CHANNEL then
      some ((s.setConn c { s.conns c with
        writeQueue := (s.conns c).writeQueue++[r] }).setPc t (.lockRx c r))
    else none
  | .lockedRx, .lockRx c r =>
    if (s.conns c).rxLock = none then
      some ((s.setConn c { s.conns c with rxLock := some t }).setPc t (.recv c r))
    else none
  | .received, .recv c r =>
    match (s.conns c).respQueue with
    | p::rest => some (s.leave t c r { s.conns c with respQueue := rest } (.reply p.body))
    | [] => if (s.conns c).readerDone then some (s.leave t c r (s.conns c) (.error .closed)) else none
  | .timeout, .send c r | .timeout, .lockRx c r | .timeout, .recv c r =>
    some (s.leave t c r { s.conns c with poisoned := true, closed := true } (.error .timeout))
  | .drop, .permit r => some (s.setPc t (.done r .dropped))
  | .drop, .dial _ r => some { s.setPc t (.done r .dropped) with permits := s.permits+1 }
  | .drop, .lock c r | .drop, .send c r | .drop, .lockRx c r | .drop, .recv c r =>
    some (s.abandon t c r)
  | .release, .release c r o =>
    let pool := if (s.conns c).unusable then s.pool
      else if s.pool.length < s.maxConns then c::s.pool else s.pool
    some { s.setPc t (.done r o) with pool := pool, permits := s.permits+1 }
  | _, _ => none

/-- One step of the tasks of connection `c`, or of the device on it. The device answers
the requests of a connection in order, with one frame each. -/
def connStep (s : State) (c : ℕ) (a : ConnAct) : Option State :=
  if s.nextConn ≤ c then none
  else match a with
    | .write =>
      match (s.conns c).writeQueue with
      | [] => none
      | r::queue =>
        if (s.conns c).writerDone then none
        else some (s.setConn c { s.conns c with
          writeQueue := queue, toDevice := (s.conns c).toDevice++[r] })
    | .writeFail =>
      some (s.setConn c { s.conns c with closed := true, writerDone := true, writeQueue := [] })
    | .serve body =>
      match (s.conns c).toDevice with
      | [] => none
      | r::queue =>
        some { s.setConn c { s.conns c with
            toDevice := queue, toHost := (s.conns c).toHost++[⟨r,body⟩] } with
          answered := s.answered++[(r,body)] }
    | .deliver =>
      match (s.conns c).toHost with
      | [] => none
      | p::queue =>
        if (s.conns c).readerDone || decide (CHANNEL ≤ (s.conns c).respQueue.length) then none
        else some (s.setConn c { s.conns c with
          toHost := queue, respQueue := (s.conns c).respQueue++[p] })
    | .readerEnd => some (s.setConn c { s.conns c with closed := true, readerDone := true })

def step (s : State) : Label → Option State
  | .caller t a => callerStep s t a
  | .conn c a => connStep s c a

/-- The connection whose `req_lock` the caller has. -/
@[simp] def Pc.locks : Pc → Option ℕ
  | .send c _ | .lockRx c _ | .recv c _ => some c
  | _ => none

/-- The steps of a caller, with their guards. -/
inductive CallerSteps (s : State) (t : ℕ) : State → Prop
  | start {op : Op} {args : Bytes} {prebuilt : Bool} (hpc : s.pcs t = .idle ∨ ∃ q o, s.pcs t = .done q o) :
      CallerSteps s t { s.setPc t (.permit ⟨s.nextId,op,args,prebuilt⟩) with nextId := s.nextId+1 }
  | acquired {r : Request} (hpc : s.pcs t = .permit r) (hpermits : s.permits ≠ 0) :
      CallerSteps s t { s.setPc t (.pop r) with permits := s.permits-1 }
  | unserved {r : Request} {o : Outcome} (hpc : s.pcs t = .permit r) (ho : ∀ b, o ≠ .reply b) :
      CallerSteps s t (s.setPc t (.done r o))
  | empty {r : Request} (hpc : s.pcs t = .pop r) (hpool : s.pool = []) : CallerSteps s t (s.setPc t (.dial false r))
  | popped {c : ℕ} {r : Request} {pool : List ℕ} (hpc : s.pcs t = .pop r) (hpool : s.pool = c::pool) :
      CallerSteps s t { s.setPc t (.popped c r) with pool := pool }
  | discard {c : ℕ} {r : Request} (hpc : s.pcs t = .popped c r) (hu : (s.conns c).unusable = true) :
      CallerSteps s t (s.setPc t (.dial true r))
  | handOut {c : ℕ} {r : Request} (hpc : s.pcs t = .popped c r) (hu : (s.conns c).unusable = false) :
      CallerSteps s t (s.setPc t (.enter c r))
  | dialed {r : Request} {b : Bool} (hpc : s.pcs t = .dial b r) :
      CallerSteps s t { s.setPc t (.enter s.nextConn r) with nextConn := s.nextConn+1 }
  | redial {r : Request} (hpc : s.pcs t = .dial true r) : CallerSteps s t (s.setPc t (.pop r))
  | undialed {r : Request} {o : Outcome} {b : Bool} (hpc : s.pcs t = .dial b r) (ho : ∀ b, o ≠ .reply b) :
      CallerSteps s t { s.setPc t (.done r o) with permits := s.permits+1 }
  | refuse {c : ℕ} {r : Request} {e : ProxyError} (hpc : s.pcs t = .enter c r) :
      CallerSteps s t (s.setPc t (.release c r (.error e)))
  | enter {c : ℕ} {r : Request} (hpc : s.pcs t = .enter c r) : CallerSteps s t (s.setPc t (.lock c r))
  | locked {c : ℕ} {r : Request} (hpc : s.pcs t = .lock c r) (hlock : (s.conns c).reqLock = none) :
      CallerSteps s t ((s.setConn c { s.conns c with reqLock := some t }).setPc t (.send c r))
  | unsent {c : ℕ} {r : Request} (hpc : s.pcs t = .send c r) : CallerSteps s t (s.leave t c r (s.conns c) (.error .closed))
  | sent {c : ℕ} {r : Request} (hpc : s.pcs t = .send c r) : CallerSteps s t
      ((s.setConn c { s.conns c with writeQueue := (s.conns c).writeQueue++[r] }).setPc t (.lockRx c r))
  | lockedRx {c : ℕ} {r : Request} (hpc : s.pcs t = .lockRx c r) :
      CallerSteps s t ((s.setConn c { s.conns c with rxLock := some t }).setPc t (.recv c r))
  | received {c : ℕ} {r : Request} {p : Reply} {rest : List Reply} (hpc : s.pcs t = .recv c r)
      (hq : (s.conns c).respQueue = p::rest) :
      CallerSteps s t (s.leave t c r { s.conns c with respQueue := rest } (.reply p.body))
  | ended {c : ℕ} {r : Request} (hpc : s.pcs t = .recv c r) (hdone : (s.conns c).readerDone = true) :
      CallerSteps s t (s.leave t c r (s.conns c) (.error .closed))
  | timeout {c : ℕ} {r : Request} (hpc : (s.pcs t).locks = some c) (hreq : (s.pcs t).request = some r) :
      CallerSteps s t (s.leave t c r { s.conns c with poisoned := true, closed := true } (.error .timeout))
  | abandon {c : ℕ} {r : Request} (hpc : s.pcs t = .lock c r ∨ (s.pcs t).locks = some c) (hreq : (s.pcs t).request = some r) :
      CallerSteps s t (s.abandon t c r)
  | release {c : ℕ} {r : Request} {o : Outcome} {pool : List ℕ} (hpc : s.pcs t = .release c r o)
      (hpool : pool = s.pool ∨ pool = c::s.pool ∧ (s.conns c).unusable = false) :
      CallerSteps s t { s.setPc t (.done r o) with pool := pool, permits := s.permits+1 }

/-- Requests of a connection that are sent and not yet consumed, oldest first. -/
def Conn.inFlight (k : Conn) : List Request :=
  k.respQueue.map (·.request) ++ (k.toHost.map (·.request) ++ (k.toDevice++k.writeQueue))

/-- A connection only moves or loses what is in flight, and its flags only rise. -/
structure Fades (k k' : Conn) : Prop where
  inFlight : k'.inFlight.Sublist k.inFlight
  closed : k.closed = true → k'.closed = true
  poisoned : k.poisoned = true → k'.poisoned = true

theorem Fades.refl (k : Conn) : Fades k k := ⟨List.Sublist.refl _,id,id⟩

/-- What a caller can rely on at each point of a call. -/
def PcOk (answered : List (Request × Bytes)) (conns : ℕ → Conn) : Pc → Prop
  | .popped c _ | .enter c _ | .lock c _ | .send c _ => (conns c).inFlight = []
  | .lockRx c r | .recv c r => (conns c).inFlight.Sublist [r]
  | .release c r (.reply b) => (conns c).inFlight = [] ∧ (r,b) ∈ answered
  | .release c _ _ => (conns c).inFlight = [] ∨ (conns c).unusable = true
  | .done r (.reply b) => (r,b) ∈ answered
  | _ => True

variable {k' k : Conn} {answered' answered : List (Request × Bytes)} {conns' conns : ℕ → Conn} {pc : Pc} {β : Type*}
  {pool : List ℕ} {nextConn nextId permits maxConns t c : ℕ} {o : Outcome} {p : Reply} {rest : List Reply} {b : Bool}
  {sched : List Label} {s : State} {r : Request}

open Conn

theorem Fades.unusable {k : Conn} (h : Fades k k') (hu : k.unusable) : k'.unusable := by
  simp only [Conn.unusable,Bool.or_eq_true] at hu ⊢
  exact hu.imp h.closed h.poisoned

theorem Fades.quiet {k : Conn} (h : Fades k k') (hq : k.inFlight = []) : k'.inFlight = [] :=
  sublist_nil.mp (hq ▸ h.inFlight)

theorem PcOk.fade {answered : List (Request × Bytes)} {conns : ℕ → Conn}
    (h : PcOk answered conns pc) (hsub : ∀ x ∈ answered, x ∈ answered')
    (hf : ∀ c, pc.conn = some c → Fades (conns c) (conns' c)) : PcOk answered' conns' pc := by
  cases pc with
  | idle | permit r | pop r | dial b r => trivial
  | popped c r | enter c r | lock c r | send c r => exact (hf c rfl).quiet h
  | lockRx c r | recv c r => exact (hf c rfl).inFlight.trans h
  | release c r o =>
    cases o with
    | reply b => exact ⟨(hf c rfl).quiet h.1,hsub _ h.2⟩
    | error e => exact h.imp (hf c rfl).quiet (hf c rfl).unusable
    | dropped => exact h.imp (hf c rfl).quiet (hf c rfl).unusable
  | done r o =>
    cases o with
    | reply b => exact hsub _ h
    | error e => trivial
    | dropped => trivial

/-- A reader that ended has closed its connection, and a queued reply was given. -/
structure ConnOk (answered : List (Request × Bytes)) (k : Conn) : Prop where
  reader_closed : k.readerDone = true → k.closed = true
  reply_answered : ∀ p ∈ k.respQueue++k.toHost, (p.request,p.body) ∈ answered

/-- Every connection has one owner, a pooled one carries nothing, and each caller's
view of its own is right. -/
structure Inv (s : State) : Prop where
  conns : Custody s.pool s.nextConn fun t => (s.pcs t).conn
  ids : Custody [] s.nextId fun t => (s.pcs t).request.map (·.id)
  pool_quiet : ∀ c ∈ s.pool, (s.conns c).inFlight = []
  pc_ok : ∀ t, PcOk s.answered s.conns (s.pcs t)
  fresh : ∀ c, s.nextConn ≤ c → s.conns c = {}
  conn_ok : ∀ c, ConnOk s.answered (s.conns c)

theorem init_inv (maxConns : ℕ) : Inv (init maxConns) where
  conns := Custody.empty (nodup_reverse.mpr nodup_range) (by simp [init])
  ids := Custody.empty nodup_nil (by simp)
  pool_quiet := by simp [init,inFlight]
  pc_ok := by simp [init,PcOk]
  fresh := by simp [init]
  conn_ok := by
    intro c
    exact ⟨by simp [init],by simp [init]⟩

/-- What a function of the program counters becomes when one caller moves. -/
theorem pcs_update (f : Pc → β) (pcs : ℕ → Pc) (t : ℕ) (pc : Pc) :
    (fun u => f (update pcs t pc u)) = update (fun u => f (pcs u)) t (f pc) := by
  funext u
  by_cases hu : u = t
  · subst hu; simp
  · simp [hu]

theorem fades_update {c : ℕ} (h : Fades (conns c) k) (d : ℕ) : Fades (conns d) (update conns c k d) := by
  by_cases hd : d = c
  · subst hd; simpa using h
  · simpa [hd] using Fades.refl _

theorem pc_ok_update (hpc : PcOk answered conns pc) (hother : ∀ u, u ≠ t → PcOk answered conns (s.pcs u)) (u : ℕ) :
    PcOk answered conns (update s.pcs t pc u) := by
  by_cases hu : u = t
  · subst hu; simpa using hpc
  · simpa [hu] using hother u hu

theorem Inv.ids_keep (h : Inv s) (hreq : pc.request = (s.pcs t).request) :
    Custody [] s.nextId (update (fun u => (s.pcs u).request.map (·.id)) t (pc.request.map (·.id))) :=
  h.ids.keep t _ (.inl (by rw [hreq]))

theorem Inv.moves (h : Inv s) (hconns : Custody pool nextConn (update (fun u => (s.pcs u).conn) t pc.conn))
    (hids : Custody [] nextId (update (fun u => (s.pcs u).request.map (·.id)) t (pc.request.map (·.id))))
    (hpool : ∀ c ∈ pool, (s.conns c).inFlight = []) (hnext : s.nextConn ≤ nextConn) (hok : PcOk s.answered s.conns pc) :
    Inv { s.setPc t pc with pool := pool, nextConn := nextConn, nextId := nextId, permits := permits } where
  conns := by rwa [← pcs_update Pc.conn] at hconns
  ids := by rwa [← pcs_update fun pc => pc.request.map (·.id)] at hids
  pool_quiet := hpool
  pc_ok := pc_ok_update hok fun u _ => h.pc_ok u
  fresh := fun c hc => h.fresh c (hnext.trans hc)
  conn_ok := h.conn_ok

theorem Inv.step_pc (h : Inv s) (t : ℕ) (pc : Pc) (permits : ℕ) (hconn : pc.conn = (s.pcs t).conn ∨ pc.conn = none)
    (hreq : pc.request = (s.pcs t).request) (hok : PcOk s.answered s.conns pc) :
    Inv { s.setPc t pc with permits := permits } :=
  h.moves (h.conns.keep t _ hconn) (h.ids_keep hreq) h.pool_quiet le_rfl hok

open State

theorem Inv.step_conn (h : Inv s) (t c : ℕ) (k : Conn) (pc : Pc) (permits : ℕ)
    (hown : (s.pcs t).conn = some c) (hk : ConnOk s.answered k)
    (hconn : pc.conn = some c ∨ pc.conn = none) (hreq : pc.request = (s.pcs t).request)
    (hok : PcOk s.answered (update s.conns c k) pc)
    (hother : ∀ u, u ≠ t → PcOk s.answered (update s.conns c k) (s.pcs u)) :
    Inv { (s.setConn c k).setPc t pc with permits := permits } where
  conns := by
    simp only [setPc,setConn,pcs_update Pc.conn]
    exact h.conns.keep t _ (by rwa [hown])
  ids := by
    simp only [setPc,pcs_update fun pc => pc.request.map (·.id)]
    exact h.ids_keep hreq
  pool_quiet := by
    intro d hd
    have hne : d ≠ c := fun he => h.conns.held_unpooled t c hown (he ▸ hd)
    simpa [setPc,setConn,hne] using h.pool_quiet d hd
  pc_ok := pc_ok_update hok hother
  fresh := by
    intro d hd
    have hne : d ≠ c := fun he => absurd (h.conns.held_old t c hown) (by
      simp only [setPc,setConn] at hd
      omega)
    simpa [setPc,setConn,hne] using h.fresh d hd
  conn_ok := by
    intro d
    by_cases hd : d = c
    · subst hd
      simpa [setPc,setConn] using hk
    · simpa [setPc,setConn,hd] using h.conn_ok d

theorem Inv.step_fade (h : Inv s) (t c : ℕ) (k : Conn) (pc : Pc) (permits : ℕ)
    (hown : (s.pcs t).conn = some c) (hf : Fades (s.conns c) k) (hk : ConnOk s.answered k)
    (hconn : pc.conn = some c ∨ pc.conn = none) (hreq : pc.request = (s.pcs t).request)
    (hok : PcOk s.answered (update s.conns c k) pc) :
    Inv { (s.setConn c k).setPc t pc with permits := permits } := by
  apply h.step_conn t c k pc permits hown hk hconn hreq hok
  intro u _
  exact (h.pc_ok u).fade (fun _ hx => hx) fun d _ => fades_update hf d

theorem Inv.step_task (h : Inv s) (c : ℕ) (k : Conn)
    (answered : List (Request × Bytes)) (hc : c < s.nextConn) (hf : Fades (s.conns c) k)
    (hsub : ∀ x ∈ s.answered, x ∈ answered) (hk : ConnOk answered k) :
    Inv { s.setConn c k with answered := answered } where
  conns := h.conns
  ids := h.ids
  pool_quiet := by
    intro d hd
    exact (fades_update hf d).quiet (h.pool_quiet d hd)
  pc_ok := fun u => (h.pc_ok u).fade hsub fun d _ => fades_update hf d
  fresh := by
    intro d hd
    have hne : d ≠ c := by
      simp only [setConn] at hd
      omega
    simpa [setConn,hne] using h.fresh d hd
  conn_ok := by
    intro d
    by_cases hd : d = c
    · subst hd
      simpa [setConn] using hk
    · have hok := h.conn_ok d
      simpa [setConn,hd] using (⟨hok.reader_closed,fun p hp => hsub _ (hok.reply_answered p hp)⟩ : ConnOk answered _)

theorem fades_unlock (k : Conn) : Fades k k.unlock := ⟨refl _,id,id⟩

theorem connOk_unlock (h : ConnOk answered k) : ConnOk answered k.unlock := ⟨h.reader_closed,h.reply_answered⟩

/-- A caller leaves `request` with a connection that is in sync or marked unusable. -/
theorem Inv.leave (h : Inv s) (hown : (s.pcs t).conn = some c) (hreq : (s.pcs t).request = some r)
    (hf : Fades (s.conns c) k) (hk : ConnOk s.answered k)
    (hok : PcOk s.answered (update s.conns c k.unlock) (.release c r o)) : Inv (s.leave t c r k o) := by
  have hfade : Fades (s.conns c) k.unlock := ⟨(fades_unlock k).inFlight.trans hf.inFlight,hf.closed,hf.poisoned⟩
  exact h.step_fade t c k.unlock (.release c r o) s.permits hown hfade (connOk_unlock hk) (.inl rfl) hreq.symm hok

theorem Inv.abandon (h : Inv s)
    (hown : (s.pcs t).conn = some c) (hreq : (s.pcs t).request = some r) : Inv (s.abandon t c r) :=
  h.step_fade t c (s.conns c).unlock (.done r .dropped) (s.permits+1) hown (fades_unlock _)
    (connOk_unlock (h.conn_ok c)) (.inr rfl) hreq.symm trivial

/-- After a timeout the connection is poisoned, whatever it still carries. -/
theorem Inv.timeout (h : Inv s) (hown : (s.pcs t).conn = some c) (hreq : (s.pcs t).request = some r) :
    Inv (s.leave t c r { s.conns c with poisoned := true, closed := true } (.error .timeout)) := by
  have hk := h.conn_ok c
  refine h.leave hown hreq ⟨refl _,fun _ => rfl,fun _ => rfl⟩ ⟨fun _ => rfl,hk.reply_answered⟩ ?_
  exact .inr (by simp [unusable,unlock])

/-- Queueing a request on a connection that carries nothing. -/
theorem Inv.sent (h : Inv s) (hpc : s.pcs t = .send c r) :
    Inv ((s.setConn c { s.conns c with writeQueue := (s.conns c).writeQueue++[r] }).setPc t (.lockRx c r)) := by
  have hown : (s.pcs t).conn = some c := by rw [hpc]; rfl
  have hquiet : (s.conns c).inFlight = [] := by
    have hok := h.pc_ok t
    rwa [hpc] at hok
  have hk := h.conn_ok c
  refine h.step_conn t c _ (.lockRx c r) s.permits hown ⟨hk.reader_closed,hk.reply_answered⟩
    (.inl rfl) (by rw [hpc]; rfl) ?_ ?_
  · have hone : (s.conns c).inFlight++[r] = [r] := by rw [hquiet]; rfl
    simp only [inFlight,append_assoc] at hone
    simp [PcOk,inFlight,hone]
  · intro u hu
    refine (h.pc_ok u).fade (fun _ hx => hx) fun d hd => ?_
    have hne : d ≠ c := fun he => hu (h.conns.held_unique u t c (he ▸ hd) hown)
    simpa [hne] using Fades.refl _

/-- The frame a caller takes from the reply channel answers its own request. -/
theorem Inv.received (h : Inv s) (hpc : s.pcs t = .recv c r) (hq : (s.conns c).respQueue = p::rest) :
    Inv (s.leave t c r { s.conns c with respQueue := rest } (.reply p.body)) := by
  have hown : (s.pcs t).conn = some c := by rw [hpc]; rfl
  have hsub : (s.conns c).inFlight.Sublist [r] := by
    have hok := h.pc_ok t
    rwa [hpc] at hok
  have hk := h.conn_ok c
  have hhead : (s.conns c).inFlight = p.request :: ({ s.conns c with respQueue := rest } : Conn).inFlight := by
    simp [inFlight,hq]
  rw [hhead] at hsub
  have hmine : p.request = r := by
    have hmem := hsub.subset mem_cons_self
    simpa using hmem
  have hempty : ({ s.conns c with respQueue := rest } : Conn).inFlight = [] := by
    rw [hmine] at hsub
    exact sublist_nil.mp (cons_sublist_cons.mp hsub)
  have hgiven : (r,p.body) ∈ s.answered := by
    have hp := hk.reply_answered p (by simp [hq])
    rwa [hmine] at hp
  refine h.leave hown (by rw [hpc]; rfl) ⟨?_,id,id⟩ ⟨hk.reader_closed,?_⟩ ?_
  · rw [hhead]
    exact sublist_cons_self _ _
  · intro q hqm
    exact hk.reply_answered q (by simp only [hq,cons_append]; exact mem_cons_of_mem _ hqm)
  · refine ⟨?_,hgiven⟩
    simpa [unlock,inFlight] using hempty

theorem Inv.popped (h : Inv s)
    (hpc : s.pcs t = .pop r) (hp : s.pool = c::pool) : Inv { s.setPc t (.popped c r) with pool := pool } :=
  h.moves ((hp ▸ h.conns).take t) (h.ids_keep (by rw [hpc]; rfl))
    (fun d hd => h.pool_quiet d (by rw [hp]; exact mem_cons_of_mem _ hd)) le_rfl (h.pool_quiet c (by simp [hp]))

theorem Inv.dialed (h : Inv s) (hpc : s.pcs t = .dial b r) :
    Inv { s.setPc t (.enter s.nextConn r) with nextConn := s.nextConn+1 } := by
  refine h.moves (h.conns.mint t) (h.ids_keep (by rw [hpc]; rfl)) h.pool_quiet (Nat.le_succ _) ?_
  have hnew := h.fresh s.nextConn le_rfl
  simp [PcOk,hnew,inFlight]

theorem pcOk_done (ho : ∀ b, o ≠ .reply b) : PcOk answered conns (.done r o) := by
  cases o with
  | reply b => exact absurd rfl (ho b)
  | error e | dropped => trivial

theorem pcOk_released (h : PcOk answered conns (.release c r o)) : PcOk answered conns (.done r o) := by
  cases o with
  | reply b => exact h.2
  | error e | dropped => trivial

/-- `release` pools a connection only when it is usable, hence in sync. -/
theorem Inv.released (h : Inv s) (hpc : s.pcs t = .release c r o) (hu : (s.conns c).unusable = false) :
    Inv { s.setPc t (.done r o) with pool := c::s.pool, permits := s.permits+1 } := by
  have hown : (s.pcs t).conn = some c := by rw [hpc]; rfl
  have hok := h.pc_ok t
  rw [hpc] at hok
  have hquiet : (s.conns c).inFlight = [] := by
    cases o with
    | reply b => exact hok.1
    | error e | dropped => simpa [PcOk,hu] using hok
  exact h.moves (h.conns.put hown) (h.ids_keep (by rw [hpc]; rfl)) (forall_mem_cons.mpr ⟨hquiet,h.pool_quiet⟩) le_rfl
    (pcOk_released hok)

theorem Inv.started (h : Inv s) (t : ℕ) (op : Op) (args : Bytes) (prebuilt : Bool) :
    Inv { s.setPc t (.permit ⟨s.nextId,op,args,prebuilt⟩) with nextId := s.nextId+1 } :=
  h.moves (h.conns.letGo t) (h.ids.mint t) h.pool_quiet le_rfl trivial

theorem conn_of_locks (h : pc.locks = some c) : pc.conn = some c := by
  cases pc <;> cases h <;> rfl

section

variable {s' : State} {a : CallerAct}

theorem callerStep_steps (hs : callerStep s t a = some s') : CallerSteps s t s' := by
  unfold callerStep at hs
  split at hs <;> rename_i hpc
  · cases hs
    exact .start (.inl hpc)
  · cases hs
    exact .start (.inr ⟨_,_,hpc⟩)
  · split at hs <;> cases hs
    rename_i hpermits
    exact .acquired hpc hpermits
  · cases hs
    exact .unserved hpc nofun
  · split at hs <;> cases hs <;> rename_i hpool
    · exact .empty hpc hpool
    · exact .popped hpc hpool
  · split at hs <;> cases hs <;> rename_i hu
    · exact .discard hpc hu
    · exact .handOut hpc (by simpa using hu)
  · cases hs
    exact .dialed hpc
  · cases hs
    exact .redial hpc
  · cases hs
    exact .undialed hpc nofun
  · split at hs
    · cases hs
      exact .refuse hpc
    · split at hs <;> cases hs
      · exact .refuse hpc
      · exact .enter hpc
  · split at hs <;> cases hs
    rename_i hlock
    exact .locked hpc hlock
  · split at hs
    · cases hs
      exact .unsent hpc
    · split at hs <;> cases hs
      exact .sent hpc
  · split at hs <;> cases hs
    exact .lockedRx hpc
  · split at hs
    · rename_i hq
      cases hs
      exact .received hpc hq
    · split at hs <;> cases hs
      rename_i hdone
      exact .ended hpc hdone
  iterate 3
    cases hs
    exact .timeout (by rw [hpc]; rfl) (by rw [hpc]; rfl)
  · cases hs
    exact .unserved hpc nofun
  · cases hs
    exact .undialed hpc nofun
  · cases hs
    exact .abandon (.inl hpc) (by rw [hpc]; rfl)
  iterate 3
    cases hs
    exact .abandon (.inr (by rw [hpc]; rfl)) (by rw [hpc]; rfl)
  · cases hs
    refine .release hpc ?_
    split
    · exact .inl rfl
    rename_i hu
    split
    · exact .inr ⟨rfl,by simpa using hu⟩
    · exact .inl rfl
  · cases hs

theorem callerSteps_inv (h : Inv s) (hs : CallerSteps s t s') : Inv s' := by
  have hok := h.pc_ok t
  cases hs with
  | start hpc => exact h.started ..
  | acquired hpc hpermits | empty hpc hpool | discard hpc hu | redial hpc =>
    exact h.step_pc t _ _ (.inr rfl) (by rw [hpc]; rfl) trivial
  | unserved hpc ho | undialed hpc ho => exact h.step_pc t _ _ (.inr rfl) (by rw [hpc]; rfl) (pcOk_done ho)
  | popped hpc hpool => exact h.popped hpc hpool
  | dialed hpc => exact h.dialed hpc
  | handOut hpc hu | enter hpc =>
    rw [hpc] at hok
    exact h.step_pc t _ _ (.inl (by rw [hpc]; rfl)) (by rw [hpc]; rfl) hok
  | refuse hpc =>
    rw [hpc] at hok
    exact h.step_pc t _ _ (.inl (by rw [hpc]; rfl)) (by rw [hpc]; rfl) (.inl hok)
  | locked hpc hlock | lockedRx hpc =>
    rw [hpc] at hok
    have hk := h.conn_ok
    refine h.step_fade t _ _ _ s.permits (by rw [hpc]; rfl) ⟨refl _,id,id⟩
      ⟨(hk _).reader_closed,(hk _).reply_answered⟩ (.inl rfl) (by rw [hpc]; rfl) ?_
    simpa [PcOk,inFlight] using hok
  | unsent hpc =>
    rw [hpc] at hok
    refine h.leave (by rw [hpc]; rfl) (by rw [hpc]; rfl) (Fades.refl _) (h.conn_ok _) ?_
    exact .inl (by simpa [unlock,inFlight,PcOk] using hok)
  | sent hpc => exact h.sent hpc
  | received hpc hq => exact h.received hpc hq
  | ended hpc hdone =>
    have hclosed := (h.conn_ok _).reader_closed hdone
    refine h.leave (by rw [hpc]; rfl) (by rw [hpc]; rfl) (Fades.refl _) (h.conn_ok _) ?_
    exact .inr (by simp [unusable,unlock,hclosed])
  | timeout hpc hreq => exact h.timeout (conn_of_locks hpc) hreq
  | abandon hpc hreq => exact h.abandon (hpc.elim (fun hpc => by rw [hpc]; rfl) conn_of_locks) hreq
  | release hpc hpool =>
    rw [hpc] at hok
    rcases hpool with rfl | ⟨rfl,hu⟩
    · exact h.step_pc t _ (s.permits+1) (.inr rfl) (by rw [hpc]; rfl) (pcOk_released hok)
    · exact h.released hpc hu

/-- The tasks of a connection and the device move or lose what is in flight on it. -/
theorem connStep_moves {a : ConnAct} (hs : connStep s c a = some s') : c < s.nextConn ∧
    ∃ k answered, s' = { s.setConn c k with answered := answered } ∧ Fades (s.conns c) k ∧
      (∀ x ∈ s.answered, x ∈ answered) ∧ (ConnOk s.answered (s.conns c) → ConnOk answered k) ∧
      k.poisoned = (s.conns c).poisoned ∧ k.reqLock = (s.conns c).reqLock := by
  unfold connStep at hs
  split at hs
  · cases hs
  rename_i hc
  refine ⟨Nat.lt_of_not_le hc,?_⟩
  cases a with
  | write =>
    dsimp only at hs
    split at hs
    · cases hs
    rename_i r queue hq
    split at hs <;> cases hs
    refine ⟨_,s.answered,rfl,⟨?_,id,id⟩,fun _ hx => hx,fun hk => ⟨hk.reader_closed,hk.reply_answered⟩,rfl,rfl⟩
    simp [inFlight,hq]
  | writeFail =>
    cases hs
    refine ⟨_,s.answered,rfl,⟨?_,fun _ => rfl,id⟩,fun _ hx => hx,fun hk => ⟨fun _ => rfl,hk.reply_answered⟩,rfl,rfl⟩
    simp [inFlight]
  | serve body =>
    dsimp only at hs
    split at hs <;> cases hs
    rename_i r queue hq
    refine ⟨_,_,rfl,⟨?_,id,id⟩,fun _ hx => mem_append_left _ hx,fun hk => ⟨hk.reader_closed,?_⟩,rfl,rfl⟩
    · simp [inFlight,hq]
    intro p hp
    rw [← append_assoc,mem_append,mem_singleton] at hp
    rcases hp with hp | rfl
    · exact mem_append_left _ (hk.reply_answered p hp)
    · simp
  | deliver =>
    dsimp only at hs
    split at hs
    · cases hs
    rename_i p queue hq
    split at hs <;> cases hs
    refine ⟨_,s.answered,rfl,⟨?_,id,id⟩,fun _ hx => hx,fun hk => ⟨hk.reader_closed,?_⟩,rfl,rfl⟩
    · simp [inFlight,hq]
    · exact fun q hqm => hk.reply_answered q (by simpa [hq] using hqm)
  | readerEnd =>
    cases hs
    exact ⟨_,s.answered,rfl,⟨refl _,fun _ => rfl,id⟩,fun _ hx => hx, fun hk => ⟨fun _ => rfl,hk.reply_answered⟩,rfl,rfl⟩

theorem connStep_inv {a : ConnAct} (h : Inv s) (hs : connStep s c a = some s') : Inv s' := by
  obtain ⟨hc,k,answered,rfl,hf,hsub,hk,-⟩ := connStep_moves hs
  exact h.step_task c k answered hc hf hsub (hk (h.conn_ok c))

end

theorem step_inv (s : State) (l : Label) (s' : State) (h : Inv s) (hs : step s l = some s') : Inv s' := by
  cases l with
  | caller t a => exact callerSteps_inv h (callerStep_steps hs)
  | conn c a => exact connStep_inv h hs

/-- Whenever a call returns a reply, the device gave it to the request of that very
call, and no other caller's request carries the same id. -/
theorem request_returns_own_reply (maxConns : ℕ) (sched : List Label) (s : State)
    (h : exec step (init maxConns) sched = some s) (t c : ℕ) (r : Request) (body : Bytes)
    (hpc : s.pcs t = .release c r (.reply body) ∨ s.pcs t = .done r (.reply body)) :
    (r,body) ∈ s.answered ∧ ∀ u q, (s.pcs u).request = some q → q.id = r.id → u = t := by
  have hi := exec_invariant step_inv (init_inv maxConns) h
  have hok := hi.pc_ok t
  have hreq : (s.pcs t).request = some r := by
    rcases hpc with hpc | hpc <;> rw [hpc] <;> rfl
  constructor
  · rcases hpc with hpc | hpc <;> rw [hpc] at hok
    · exact hok.2
    · exact hok
  · intro u q hq hid
    refine hi.ids.held_unique u t r.id ?_ ?_
    · simp [hq,hid]
    · simp [hreq]

/-- Caller 0 times out and its connection is discarded; the late reply to it arrives
while caller 1 waits on the replacement. -/
def lateReply : List Label :=
  [.caller 0 (.start .stat [] false),.caller 0 .acquired,.caller 0 .pop,.caller 0 .check,
    .caller 0 .enter,.caller 0 .locked,.caller 0 .sent,.conn 0 .write,.caller 0 .timeout,
    .caller 0 .release,.caller 1 (.start .lstat [] false),.caller 1 .acquired,.caller 1 .pop,
    .caller 1 .dialed,.caller 1 .enter,.caller 1 .locked,.caller 1 .sent,.conn 0 (.serve [0,9]),
    .conn 0 .deliver,.conn 1 .write,.conn 1 (.serve [0,7]),.conn 1 .deliver,.caller 1 .lockedRx,
    .caller 1 .received]

theorem request_returns_own_reply_late : ∃ s, exec step (init 1) lateReply = some s ∧
      s.pcs 1 = .release 1 ⟨1,.lstat,[],false⟩ (.reply [0,7]) ∧
      (⟨1,.lstat,[],false⟩,[0,7]) ∈ s.answered :=
  ⟨_,rfl,rfl,(request_returns_own_reply 1 lateReply _ rfl 1 1 _ _ (.inl rfl)).1⟩

/-- A connection has one user at a time, and what is in flight on it is the user's own request, unless
it is to be given up. In the pool it has no user and carries nothing. -/
theorem connections_used_alone (maxConns : ℕ) (sched : List Label) (s : State)
    (h : exec step (init maxConns) sched = some s) :
    (∀ c ∈ s.pool, (s.conns c).inFlight = [] ∧ ∀ t, (s.pcs t).conn ≠ some c) ∧
    ∀ t c, (s.pcs t).conn = some c → (∀ u, (s.pcs u).conn = some c → u = t) ∧
      ((s.conns c).unusable = true ∨ ∀ r ∈ (s.conns c).inFlight, (s.pcs t).request = some r) := by
  have hi := exec_invariant step_inv (init_inv maxConns) h
  refine ⟨fun c hc => ⟨hi.pool_quiet c hc,fun t ht => hi.conns.held_unpooled t c ht hc⟩,?_⟩
  intro t c ht
  refine ⟨fun u hu => hi.conns.held_unique u t c hu ht,?_⟩
  have hok := hi.pc_ok t
  generalize s.pcs t = pc at ht hok
  cases pc with
  | idle | permit r | pop r | dial b r | done r o => cases ht
  | popped d r | enter d r | lock d r | send d r =>
    cases ht
    exact .inr (by simp [show _ = [] from hok])
  | lockRx d r | recv d r =>
    cases ht
    exact .inr fun q hq => by simpa [Pc.request,eq_comm] using hok.subset hq
  | release d r o =>
    cases ht
    cases o with
    | reply b => exact .inr (by simp [hok.1])
    | error e | dropped => exact hok.symm.imp_right fun hq => by simp [hq]

theorem connections_used_alone_late : ∃ s, exec step (init 1) lateReply = some s ∧ (s.pcs 1).conn = some 1 ∧
    ∀ u, (s.pcs u).conn = some 1 → u = 1 :=
  ⟨_,rfl,rfl,((connections_used_alone 1 lateReply _ rfl).2 1 1 rfl).1⟩

end AdbShare.ProxyPool

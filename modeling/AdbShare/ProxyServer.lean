import AdbShare.ProxyDevice
import AdbShare.Slots
import AdbShare.Transition

/-! The proxy process on the device: its connections, each with the task that serves it, the
request on the blocking pool and the idle watchdog, over the descriptor numbers and the table
of open files that the whole process shares. Panics are left out. -/
namespace AdbShare.ProxyDevice

/-- Seconds. -/
def IDLE_TIMEOUT : ℕ := 5*60

/-- What a descriptor number stands for: the socket of a connection, a file that an Open of
the connection asked for, or something the process uses itself. -/
inductive Use
  | socket (conn : ℕ)
  | file (conn : ℕ)
  | inner
  deriving DecidableEq, Repr

/-- `handle_connection`: it waits for a request, has got one, waits for the blocking pool,
writes the reply, has written it; when it returns, the socket goes before the watchdog's sender. -/
inductive Task
  | absent
  | reading
  | got (op : UInt8) (args : Bytes)
  | serving (rest : Prog Sys Bytes)
  | replying (reply : Bytes)
  | replied
  | left
  | gone

def Task.inProgress : Task → Bool
  | .got _ _ | .serving _ | .replying _ => true
  | _ => false

def Task.isGone : Task → Bool
  | .gone => true
  | _ => false

/-- The watchdog's thread: in `recv_timeout` since some time, with a timeout in hand, with a
count of zero in hand. -/
inductive Dog
  | waiting (since : ℕ)
  | fired
  | shutting
  | done
  deriving DecidableEq, Repr

/-- A connection; `sock` is the number the watchdog was started with. -/
structure Conn where
  sock : ℕ
  task : Task
  dog : Dog

structure State where
  fds : Slots Use
  owned : List (ℕ × ℕ)
  conns : ℕ → Conn
  next : ℕ
  now : ℕ

/-- The first `n` numbers are taken by the process itself. -/
def init (n : ℕ) : State where
  fds := List.replicate n (some .inner)
  owned := []
  conns := fun _ => ⟨0,.absent,.done⟩
  next := 0
  now := 0

namespace OwnedFds

def track (fd conn : ℕ) (byConn : List (ℕ × ℕ)) : List (ℕ × ℕ) := (fd,conn)::byConn.filter fun e => e.1 ≠ fd
def untrack (fd : ℕ) (byConn : List (ℕ × ℕ)) : List (ℕ × ℕ) := byConn.filter fun e => e.1 ≠ fd
def countFor (conn : ℕ) (byConn : List (ℕ × ℕ)) : ℕ := (byConn.filter fun e => e.2 = conn).length

end OwnedFds

/-- What is left open about the kernel's answers. -/
def Oracle := (β : Type) → Sys β → β

/-- A descriptor for the process or for a client, if the call succeeds. -/
def State.grant (s : State) (use : Use) : Except ℕ ℕ → Except ℕ ℕ × State
  | .error errno => (.error errno,s)
  | .ok _ => (.ok s.fds.lowest,{ s with fds := s.fds.take use })

/-- One call of a request of the connection. A number that is closed is free at once, whatever
`close` says of it. -/
def kernel (choose : Oracle) (c : ℕ) (s : State) : {β : Type} → Sys β → β × State
  | _, .openFile path flags mode => s.grant (.file c) (choose _ (.openFile path flags mode))
  | _, .fsOpen path flags => s.grant .inner (choose _ (.fsOpen path flags))
  | _, .openat dir name => s.grant .inner (choose _ (.openat dir name))
  | _, .opendir path =>
    match choose _ (.opendir path) with
    | .error errno => (.error errno,s)
    | .ok (_,ents) => (.ok (s.fds.lowest,ents),{ s with fds := s.fds.take .inner })
  | _, .close fd =>
    match s.fds.lookup fd with
    | none => (false,s)
    | some _ => (choose _ (.close fd),{ s with fds := s.fds.free fd })
  | _, .closeFile fd => ((),{ s with fds := s.fds.free fd })
  | _, .closedir fd => ((),{ s with fds := s.fds.free fd })
  | _, .track fd conn => ((),{ s with owned := OwnedFds.track fd conn s.owned })
  | _, .untrack fd => ((),{ s with owned := OwnedFds.untrack fd s.owned })
  | _, a => (choose _ a,s)

def State.setTask (s : State) (c : ℕ) (task : Task) : State :=
  { s with conns := Function.update s.conns c { s.conns c with task := task } }

def State.setDog (s : State) (c : ℕ) (dog : Dog) : State :=
  { s with conns := Function.update s.conns c { s.conns c with dog := dog } }

/-- A touch: the timer of a waiting watchdog starts again. -/
def State.rearm (s : State) (c : ℕ) : State :=
  match (s.conns c).dog with
  | .waiting _ => s.setDog c (.waiting s.now)
  | _ => s

/-- What can happen next. `watched` says whether the watchdog's thread could be started, a
task leaves when it returns and forgets when the sender is dropped; `borrow` and `giveBack` are
descriptors the process uses besides, for its log for one. -/
inductive Act
  | accept (watched : Bool)
  | frame (c : ℕ) (op : UInt8) (args : Bytes)
  | touch (c : ℕ)
  | call (c : ℕ) (choose : Oracle)
  | finish (c : ℕ)
  | reply (c : ℕ)
  | leave (c : ℕ)
  | forget (c : ℕ)
  | fire (c : ℕ)
  | count (c : ℕ)
  | shutdown (c : ℕ)
  | stop (c : ℕ)
  | tick (seconds : ℕ)
  | borrow
  | giveBack (fd : ℕ)

def step (errorText : ℕ → Bytes) (s : State) : Act → Option State
  | .accept watched =>
    some { s with
      fds := s.fds.take (.socket (s.next+1))
      next := s.next+1
      conns := Function.update s.conns (s.next+1)
        ⟨s.fds.lowest,.reading,if watched then .waiting s.now else .done⟩ }
  | .frame c op args =>
    match (s.conns c).task with
    | .reading => if args.length ≤ MAX_REQUEST then some (s.setTask c (.got op args)) else none
    | _ => none
  | .touch c =>
    match (s.conns c).task with
    | .got op args => some ((s.setTask c (.serving (dispatch errorText op args c))).rearm c)
    | .replied => some ((s.setTask c .reading).rearm c)
    | _ => none
  | .call c choose =>
    match (s.conns c).task with
    | .serving (.act a k) => some ((kernel choose c s a).2.setTask c (.serving (k (kernel choose c s a).1)))
    | _ => none
  | .finish c =>
    match (s.conns c).task with
    | .serving (.ret reply) => some (s.setTask c (.replying reply))
    | _ => none
  | .reply c =>
    match (s.conns c).task with
    | .replying _ => some (s.setTask c .replied)
    | _ => none
  | .leave c =>
    match (s.conns c).task with
    | .reading | .replying _ => some ({ s with fds := s.fds.free (s.conns c).sock }.setTask c .left)
    | _ => none
  | .forget c =>
    match (s.conns c).task with
    | .left => some (s.setTask c .gone)
    | _ => none
  | .fire c =>
    match (s.conns c).dog with
    | .waiting since =>
      if since+IDLE_TIMEOUT ≤ s.now ∧ (s.conns c).task.isGone = false then some (s.setDog c .fired) else none
    | _ => none
  | .count c =>
    match (s.conns c).dog with
    | .fired => some (s.setDog c (if OwnedFds.countFor c s.owned > 0 then .waiting s.now else .shutting))
    | _ => none
  | .shutdown c =>
    match (s.conns c).dog with
    | .shutting => some (s.setDog c .done)
    | _ => none
  | .stop c =>
    match (s.conns c).dog with
    | .waiting _ => if (s.conns c).task.isGone then some (s.setDog c .done) else none
    | _ => none
  | .tick seconds => some { s with now := s.now+seconds }
  | .borrow => some { s with fds := s.fds.take .inner }
  | .giveBack fd => if s.fds.lookup fd = some .inner then some { s with fds := s.fds.free fd } else none

/-- A kernel on which every call succeeds and every file is an empty regular one. -/
def granting : Oracle
  | _, .openFile _ _ _ | _, .fsOpen _ _ | _, .openat _ _ => .ok 0
  | _, .copy _ size _ => .ok size
  | _, .close _ | _, .mkdir _ _ | _, .unlink _ | _, .rmdir _ => true
  | _, .rename _ _ | _, .truncate _ _ | _, .symlink _ _ | _, .utimes _ _ _ => true
  | _, .pread _ _ _ => some []
  | _, .pwrite _ data _ => some data.length
  | _, .stat _ | _, .lstat _ | _, .metadata _ => .ok ⟨FileMode.S_IFREG,0,0,0,0,0,0,1,0,0⟩
  | _, .fstat _ => some ⟨FileMode.S_IFREG,0,0,0,0,0,0,1,0,0⟩
  | _, .opendir _ => .ok (0,[])
  | _, .realpath path => some path
  | _, .readlink path _ => .ok path
  | _, .statvfs _ => some (0,0,0)
  | _, .syncAll _ => .ok ()
  | _, .identity _ | _, .fstatat _ _ => some (0,0)
  | _, .closedir _ | _, .unlinkat _ _ | _, .closeFile _ | _, .track _ _ | _, .untrack _ => ()

end AdbShare.ProxyDevice

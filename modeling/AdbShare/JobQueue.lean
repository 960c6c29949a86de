import AdbShare.Interleave

/-! The job queue of the transfer engine. Each method is a program of the critical sections
of the three lists' locks and of stores to the fields that the clones of a job share. -/
namespace AdbShare.JobQueue

open Prog

def MAX_COMPLETED : ℕ := 200

inductive JobState
  | pending | running | paused | completed | skipped | failed | cancelled
  deriving DecidableEq

/-- What all clones of a job share. -/
structure Cell where
  state : JobState
  bytesDone : UInt64
  bytesTotal : UInt64
  speedBps : UInt64
  etaSecs : UInt64
  started : Option ℕ
  error : Option String
  cancel : Bool
  paused : Bool

def Cell.new : Cell := ⟨.pending,0,0,0,0,none,none,false,false⟩

/-- `reset_for_retry`, store by store. -/
def resets : List (Cell → Cell) :=
  [fun c => { c with state := .pending },fun c => { c with bytesDone := 0 },
    fun c => { c with bytesTotal := 0 },fun c => { c with speedBps := 0 },
    fun c => { c with etaSecs := 0 },fun c => { c with started := none },
    fun c => { c with error := none },fun c => { c with cancel := false },
    fun c => { c with paused := false }]

def Cell.resetForRetry (c : Cell) : Cell := resets.foldl (fun c f => f c) c

/-- A handle on a job: the cell is what it shares with its clones. -/
structure Job where
  id : ℕ
  device : Option String
  cell : ℕ
  deriving DecidableEq

structure Queue where
  pending : List Job
  inFlight : List Job
  completed : List Job
  /-- The counter behind `next_id`; the number it gives out is its low 64 bits. -/
  nextId : ℕ
  parallelism : ℕ
  /-- Notifications not yet received. -/
  notified : ℕ
  cells : ℕ → Cell

def Queue.new (parallelism : ℕ) : Queue := ⟨[],[],[],1,parallelism,0,fun _ => .new⟩

/-- Oldest first, so the front is what falls off. -/
def trimCompleted (completed : List Job) : List Job :=
  if completed.length > MAX_COMPLETED then completed.drop (completed.length-MAX_COMPLETED) else completed

namespace Queue

variable (q : Queue) {job : Job}

def snapshot : List Job := q.pending++q.inFlight++q.completed

def pushCompleted (job : Job) : Queue := { q with completed := trimCompleted (q.completed++[job]) }

/-- The section of `try_dispatch`. -/
def dispatch : Option Job × Queue :=
  if q.inFlight.length ≥ q.parallelism then (none,q)
  else match q.pending with
    | [] => (none,q)
    | job::rest => (some job,{ q with pending := rest, inFlight := q.inFlight++[job] })

def store (cell : ℕ) (f : Cell → Cell) : Queue :=
  { q with cells := Function.update q.cells cell (f (q.cells cell)) }

def cancelCell (c : Cell) : Cell :=
  { c with cancel := true, error := some "cancelled", state := .cancelled }

/-- The section of `cancel_job` under the lock of `pending`. -/
def cancelPending (id : ℕ) : Bool × Queue :=
  match q.pending.find? fun j => j.id = id with
  | some job =>
    (true,({ q with pending := q.pending.eraseP fun j => j.id = id }.store job.cell cancelCell).pushCompleted job)
  | none => (false,q)

def retryable : JobState → Bool
  | .failed | .cancelled | .skipped => true
  | _ => false

/-- The section of `retry_job` under the lock of `completed`. -/
def takeRetryable (id : ℕ) : Option Job × Queue :=
  let mine := fun j : Job => decide (j.id = id) && retryable (q.cells j.cell).state
  match q.completed.find? mine with
  | some job => (some job,{ q with completed := q.completed.eraseP mine })
  | none => (none,q)

/-- The `retain` of the retries: what stays, what is requeued, and the cells after it. -/
def requeue (mine : Job → Bool) : List Job → (ℕ → Cell) → List Job × List Job × (ℕ → Cell)
  | [], cells => ([],[],cells)
  | job::rest, cells =>
    if mine job && decide ((cells job.cell).state = .failed) then
      let r := requeue mine rest (Function.update cells job.cell (cells job.cell).resetForRetry)
      (r.1,job::r.2.1,r.2.2)
    else
      let r := requeue mine rest cells
      (job::r.1,r.2.1,r.2.2)

def requeueFailed (mine : Job → Bool) : ℕ × Queue :=
  let r := requeue mine q.completed q.cells
  (r.2.1.length,{ q with pending := q.pending++r.2.1, completed := r.1, cells := r.2.2 })

end Queue

/-- The atomic actions of the methods. -/
inductive Act : Type → Type
  | nextId : Act ℕ
  | pushPending (job : Job) : Act Unit
  | notify : Act Unit
  | retainInFlight (id : ℕ) : Act Unit
  | pushCompleted (job : Job) : Act Unit
  | snapshot : Act (List Job)
  | dispatch : Act (Option Job)
  | findPending (id : ℕ) : Act (Option Job)
  | findInFlight (id : ℕ) : Act (Option Job)
  | findCompleted (id : ℕ) : Act (Option Job)
  | cancelPending (id : ℕ) : Act Bool
  | takeRetryable (id : ℕ) : Act (Option Job)
  | requeueFailed (mine : Job → Bool) : Act ℕ
  | store (cell : ℕ) (f : Cell → Cell) : Act Unit

inductive Req
  | submit (job : Job)
  | markDone (job : Job)
  | jobsSnapshot
  | tryDispatch
  | find (id : ℕ)
  | cancelJob (id : ℕ)
  | retryJob (id : ℕ)
  | retryFailed
  | retryFailedFor (serial : String)
  /-- Somebody who has a clone of a job stores to a field of it. -/
  | store (cell : ℕ) (f : Cell → Cell)

inductive Reply
  | submitted (id : ℕ)
  | done
  | jobs (l : List Job)
  | dispatched (job : Option Job)
  | found (job : Option Job)
  | flag (b : Bool)
  | requeued (n : ℕ)

def newId (job : Job) : Prog Act ℕ := if job.id = 0 then perform .nextId else return job.id

def submit (job : Job) : Prog Act Reply := do
  let id ← newId job
  perform (.pushPending { job with id := id })
  perform .notify
  return .submitted id

def markDone (job : Job) : Prog Act Reply := do
  perform (.retainInFlight job.id)
  perform (.pushCompleted job)
  perform .notify
  return .done

def jobsSnapshot : Prog Act Reply := do
  let l ← perform .snapshot
  return .jobs l

def tryDispatch : Prog Act Reply := do
  let job ← perform .dispatch
  return .dispatched job

def find (id : ℕ) : Prog Act (Option Job) := do
  match ← perform (.findPending id) with
  | some job => return some job
  | none =>
    match ← perform (.findInFlight id) with
    | some job => return some job
    | none => perform (.findCompleted id)

def cancelJob (id : ℕ) : Prog Act Reply := do
  if ← perform (.cancelPending id) then return .flag true
  else do
    match ← find id with
    | some job =>
      perform (.store job.cell fun c => { c with cancel := true })
      return .flag true
    | none => return .flag false

def storeAll (cell : ℕ) : List (Cell → Cell) → Prog Act Unit
  | [] => return ()
  | f::fs => do
    perform (.store cell f)
    storeAll cell fs

def retryJob (id : ℕ) : Prog Act Reply := do
  match ← perform (.takeRetryable id) with
  | none => return .flag false
  | some job =>
    storeAll job.cell resets
    perform (.pushPending job)
    perform .notify
    return .flag true

/-- What `retry_failed` and `retry_failed_for` have in common. -/
def retryWhere (mine : Job → Bool) : Prog Act Reply := do
  let count ← perform (.requeueFailed mine)
  if count > 0 then do
    perform .notify
    return .requeued count
  else return .requeued count

def retryFailed : Prog Act Reply := retryWhere fun _ => true

def retryFailedFor (serial : String) : Prog Act Reply :=
  if serial.isEmpty then return .requeued 0
  else retryWhere fun job => decide (job.device = some serial)

def handler : Req → Prog Act Reply
  | .submit job => submit job
  | .markDone job => markDone job
  | .jobsSnapshot => jobsSnapshot
  | .tryDispatch => tryDispatch
  | .find id => do return .found (← find id)
  | .cancelJob id => cancelJob id
  | .retryJob id => retryJob id
  | .retryFailed => retryFailed
  | .retryFailedFor serial => retryFailedFor serial
  | .store cell f => do
    perform (.store cell f)
    return .done

/-- The queue and its callers: the ids of the jobs that were dispatched and that nobody has
called `mark_done` for. -/
structure Engine where
  queue : Queue
  running : List ℕ

/-- The effect of an action on the queue. -/
def atomically (q : Queue) : {β : Type} → Act β → β × Queue
  | _, .nextId => (q.nextId%2^64,{ q with nextId := q.nextId+1 })
  | _, .pushPending job => ((),{ q with pending := q.pending++[job] })
  | _, .notify => ((),{ q with notified := q.notified+1 })
  | _, .retainInFlight id => ((),{ q with inFlight := q.inFlight.filter fun j => j.id ≠ id })
  | _, .pushCompleted job => ((),q.pushCompleted job)
  | _, .snapshot => (q.snapshot,q)
  | _, .dispatch => q.dispatch
  | _, .findPending id => (q.pending.find? fun j => j.id = id,q)
  | _, .findInFlight id => (q.inFlight.find? fun j => j.id = id,q)
  | _, .findCompleted id => (q.completed.find? fun j => j.id = id,q)
  | _, .cancelPending id => q.cancelPending id
  | _, .takeRetryable id => q.takeRetryable id
  | _, .requeueFailed mine => q.requeueFailed mine
  | _, .store cell f => ((),q.store cell f)

def run {β : Type} (a : Act β) (s : Engine) : β × Engine :=
  let r := atomically s.queue a
  (r.1,{ s with queue := r.2 })

/-- Jobs are submitted with id 0, and `mark_done` is called once for each job dispatched. -/
def service : Service Act Engine Unit Req Reply where
  run := fun a _ s => some (run a s)
  handler := handler
  arrive := fun r s =>
    match r with
    | .submit job => if job.id = 0 then some s else none
    | .markDone job =>
      if job.id ∈ s.running then some { s with running := s.running.erase job.id } else none
    | _ => some s
  leave := fun _ r s =>
    match r with
    | .dispatched (some job) => { s with running := job.id::s.running }
    | _ => s

open Queue

section

variable {l : List Job} {p : Job → Bool}

theorem perm_of_find (h : l.find? p = some job) : l.Perm (job::l.eraseP p) := by
  induction l with
  | nil => cases h
  | cons a l ih =>
    by_cases hp : p a
    · obtain rfl : a = job := by simpa [hp] using h
      simp [hp]
    · have hrest : l.find? p = some job := by simpa [hp] using h
      simp only [hp,List.eraseP_cons_of_neg,Bool.false_eq_true,not_false_eq_true]
      exact ((ih hrest).cons a).trans (List.Perm.swap job a _)

theorem perm_of_requeue (mine : Job → Bool) (l : List Job) (cells : ℕ → Cell) :
    l.Perm ((requeue mine l cells).2.1++(requeue mine l cells).1) := by
  induction l generalizing cells with
  | nil => rfl
  | cons job l ih =>
    unfold requeue
    split
    · exact (ih _).cons job
    · exact ((ih cells).cons job).trans List.perm_middle.symm

theorem trimCompleted_eq (l : List Job) : trimCompleted l = l.drop (l.length-MAX_COMPLETED) := by
  unfold trimCompleted
  split
  · rfl
  · have hz : l.length-MAX_COMPLETED = 0 := by omega
    simp [hz]

end

section

variable (q : Queue) {q' : Queue} {id : ℕ}

theorem dispatch_none (h : q.dispatch = (none,q')) : q' = q := by
  unfold dispatch at h
  split at h
  · exact (Prod.mk.inj h).2.symm
  · split at h
    · exact (Prod.mk.inj h).2.symm
    · cases h

theorem dispatch_some (h : q.dispatch = (some job,q')) :
    ∃ rest, q.pending = job::rest ∧ q' = { q with pending := rest, inFlight := q.inFlight++[job] } := by
  unfold dispatch at h
  split at h
  · cases h
  split at h
  · cases h
  rename_i found rest hp
  obtain ⟨rfl,rfl⟩ := h
  exact ⟨rest,hp,rfl⟩

theorem takeRetryable_none (h : q.takeRetryable id = (none,q')) : q' = q := by
  simp only [takeRetryable] at h
  split at h
  · cases h
  · exact (Prod.mk.inj h).2.symm

theorem takeRetryable_some (h : q.takeRetryable id = (some job,q')) :
    ∃ p, q.completed.find? p = some job ∧ q' = { q with completed := q.completed.eraseP p } := by
  simp only [takeRetryable] at h
  split at h
  · rename_i found hf
    obtain ⟨rfl,rfl⟩ := h
    exact ⟨_,hf,rfl⟩
  · cases h

end

open Transition Service

/-- As many jobs as may run and be remembered. -/
structure Queue.Bounded (n : ℕ) (q : Queue) : Prop where
  parallelism : q.parallelism = n
  inFlight : q.inFlight.length ≤ n
  completed : q.completed.length ≤ MAX_COMPLETED

theorem length_trimCompleted (l : List Job) : (trimCompleted l).length ≤ MAX_COMPLETED := by
  rw [trimCompleted_eq,List.length_drop]
  omega

theorem Queue.Bounded.atomically {n : ℕ} {q : Queue} {β : Type} (h : q.Bounded n) (a : Act β) :
    (atomically q a).2.Bounded n := by
  obtain ⟨hn,hf,hc⟩ := h
  cases a with
  | nextId | pushPending job | notify | snapshot | findPending id | findInFlight id | findCompleted id | store cell f =>
    exact ⟨hn,hf,hc⟩
  | retainInFlight id => exact ⟨hn,(List.length_filter_le ..).trans hf,hc⟩
  | pushCompleted job => exact ⟨hn,hf,length_trimCompleted _⟩
  | dispatch =>
    simp only [JobQueue.atomically,dispatch]
    split_ifs with hfull
    · exact ⟨hn,hf,hc⟩
    split
    · exact ⟨hn,hf,hc⟩
    · exact ⟨hn,by simp; omega,hc⟩
  | cancelPending id =>
    simp only [JobQueue.atomically,cancelPending]
    split
    · exact ⟨hn,hf,length_trimCompleted _⟩
    · exact ⟨hn,hf,hc⟩
  | takeRetryable id =>
    simp only [JobQueue.atomically,takeRetryable]
    split
    · exact ⟨hn,hf,List.length_eraseP_le.trans hc⟩
    · exact ⟨hn,hf,hc⟩
  | requeueFailed mine =>
    have hperm := (perm_of_requeue mine q.completed q.cells).length_eq
    rw [List.length_append] at hperm
    exact ⟨hn,hf,show (requeue mine q.completed q.cells).1.length ≤ _ by omega⟩

theorem step_bounded {n : ℕ} {c c' : Config Act Engine Req Reply} {e : Event Unit Req} (hc : c.shared.queue.Bounded n)
    (h : service.step c e = some c') : c'.shared.queue.Bounded n := by
  cases step_steps h with
  | @start t q s hfree hs =>
    have hsame : s.queue = c.shared.queue := by
      cases q <;> (simp_all [service]; try rw [← hs.2])
    exact hsame ▸ hc
  | act ht hs =>
    cases hs
    exact hc.atomically _
  | @reply t q r ht =>
    have hsame : (service.leave q r c.shared).queue = c.shared.queue := by
      simp only [service]
      split <;> rfl
    exact hsame ▸ hc

/-- However the calls interleave, no more jobs are in flight than may run at a time, and the history does
not outgrow its limit. -/
theorem queue_bounded (n : ℕ) (es : List (Event Unit Req)) (c : Config Act Engine Req Reply)
    (h : exec service.step ⟨⟨Queue.new n,[]⟩,fun _ => none⟩ es = some c) :
    c.shared.queue.inFlight.length ≤ n ∧ c.shared.queue.completed.length ≤ MAX_COMPLETED := by
  have hb := exec_invariant (fun _ _ _ => step_bounded) ⟨rfl,Nat.zero_le _,Nat.zero_le _⟩ h
  exact ⟨hb.inFlight,hb.completed⟩

/-- Two jobs are submitted and two dispatchers come, but only one job may run at a time. -/
def dispatchOne : List (Event Unit Req) :=
  .start 0 (.submit ⟨0,none,0⟩)::.start 1 .tryDispatch::.start 2 (.submit ⟨0,none,1⟩)::.start 3 .tryDispatch::
    [.act 0 (),.act 0 (),.act 2 (),.act 2 (),.act 1 (),.act 3 ()]

theorem queue_bounded_one : ∃ c, exec service.step ⟨⟨Queue.new 1,[]⟩,fun _ => none⟩ dispatchOne = some c ∧
    c.shared.queue.inFlight = [⟨1,none,0⟩] ∧ c.shared.queue.inFlight.length ≤ 1 ∧ c.shared.queue.pending = [⟨2,none,1⟩] :=
  ⟨_,rfl,rfl,(queue_bounded 1 dispatchOne _ rfl).1,rfl⟩

end AdbShare.JobQueue

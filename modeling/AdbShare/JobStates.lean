import AdbShare.Custody
import AdbShare.Onlooker
import AdbShare.Worker

/-! The states of jobs: workers, pauses, resumes, cancels and retries side by side, one load
or store at a time. The locks only rule out interleavings and are left out; a section that
goes through a list takes the jobs out one by one. Whoever takes a job out of a list has it
in hand until they put it into the next one. -/
namespace AdbShare.JobStates

open Prog Service Transition JobQueue List
open Function (update comp_update update_eq_self update_eq_self_iff update_of_ne)
open Worker hiding Act Outcome run

inductive Act : Type → Type 1
  | queue {β : Type} (a : JobQueue.Act β) : Act β
  /-- An action on the fields of a job, or one of its worker. -/
  | on {β : Type} (cell : ℕ) (a : Worker.Act β) : Act β
  | newJob (device : Option String) : Act Job
  /-- Is there a client for the device? -/
  | connected (device : Option String) : Act Bool
  | takePending (id : ℕ) : Act (Option Job)
  /-- The list that a `retain` goes through. -/
  | completedJobs : Act (List Job)
  /-- The `retain` of the retries comes to the job: it is taken out if it has failed. -/
  | takeFailed (job : Job) : Act Bool

inductive Req
  | submit (device : Option String)
  | work (rounds : ℕ)
  | pauseJob (id : ℕ)
  | resumeJob (id : ℕ)
  | cancelJob (id : ℕ)
  | retryJob (id : ℕ)
  | retryFailed
  | retryFailedFor (serial : String)

/-- A new job, with fields of its own, is submitted with id 0. -/
def submit (device : Option String) : Prog Act Reply := do
  let job ← perform (.newJob device)
  perform (.queue (.pushPending job))
  perform (.queue .notify)
  return .submitted job.id

def markDone (job : Job) : Prog Act Reply := do
  perform (.queue (.retainInFlight job.id))
  perform (.queue (.pushCompleted job))
  perform (.queue .notify)
  return .done

/-- A round of the dispatch loop, with the task it spawns for the job. -/
def work (sha256 : Bytes → String) (chunkSize : ℕ) (tasks : ℕ → Task) (rounds : ℕ) : Prog Act Reply := do
  match ← perform (.queue .dispatch) with
  | none => return .done
  | some job => do
    if ← perform (.connected job.device) then do
      let _ ← (Worker.run sha256 chunkSize rounds (tasks job.cell)).embed (.on job.cell)
      markDone job
    else do
      perform (.on job.cell (.setState .failed))
      perform (.on job.cell (.setError "device not connected"))
      markDone job

def find (id : ℕ) : Prog Act (Option Job) := (JobQueue.find id).embed .queue

def pauseJob (id : ℕ) : Prog Act Reply := do
  match ← find id with
  | some job => do
    pause.embed (.on job.cell)
    return .flag true
  | none => return .flag false

def resumeJob (id : ℕ) : Prog Act Reply := do
  match ← find id with
  | some job => do
    resume.embed (.on job.cell)
    return .flag true
  | none => return .flag false

def cancelJob (id : ℕ) : Prog Act Reply := do
  match ← perform (.takePending id) with
  | some job => do
    perform (.on job.cell .cancel)
    perform (.on job.cell (.setError "cancelled"))
    perform (.on job.cell (.setState .cancelled))
    perform (.queue (.pushCompleted job))
    return .flag true
  | none => do
    match ← find id with
    | some job => do
      perform (.on job.cell .cancel)
      return .flag true
    | none => return .flag false

/-- The first store of `reset_for_retry` is to the state. -/
def resetForRetry (job : Job) : Prog Act Unit := do
  perform (.on job.cell (.setState .pending))
  (storeAll job.cell resets.tail).embed .queue

def retryJob (id : ℕ) : Prog Act Reply := do
  match ← perform (.queue (.takeRetryable id)) with
  | none => return .flag false
  | some job => do
    resetForRetry job
    perform (.queue (.pushPending job))
    perform (.queue .notify)
    return .flag true

def retryEach (mine : Job → Bool) : List Job → ℕ → Prog Act ℕ
  | [], count => return count
  | job::rest, count =>
    if mine job then do
      if ← perform (.takeFailed job) then do
        resetForRetry job
        perform (.queue (.pushPending job))
        retryEach mine rest (count+1)
      else retryEach mine rest count
    else retryEach mine rest count

def retryWhere (mine : Job → Bool) : Prog Act Reply := do
  let jobs ← perform .completedJobs
  let count ← retryEach mine jobs 0
  if count > 0 then do
    perform (.queue .notify)
    return .requeued count
  else return .requeued count

section

variable (sha256 : Bytes → String) (chunkSize : ℕ) (tasks : ℕ → Task)

def handler : Req → Prog Act Reply
  | .submit device => submit device
  | .work rounds => work sha256 chunkSize tasks rounds
  | .pauseJob id => pauseJob id
  | .resumeJob id => resumeJob id
  | .cancelJob id => cancelJob id
  | .retryJob id => retryJob id
  | .retryFailed => retryWhere fun _ => true
  | .retryFailedFor serial =>
    if serial.isEmpty then return .requeued 0
    else retryWhere fun job => decide (job.device = some serial)

/-- What the clock, the local files and the device give. -/
structure Choice where
  clock : Clock
  connected : Bool
  file : File
  io : Except String Unit
  len : Except String ℕ
  bytes : Except String Bytes
  sent : Except ProxyError Unit
  size : Except ProxyError ℕ
  data : Except ProxyError Bytes

def answer (x : Choice) : {β : Type} → Worker.Act β → Option β
  | _, .sleep _ => some ()
  | _, .metadata _ => some x.len
  | _, .createDirAll _ | _, .seek _ _ | _, .writeAll _ _ | _, .flush _ | _, .removeFile _ => some x.io
  | _, .openLocal _ _ => some (x.io.map fun _ => x.file)
  | _, .read _ _ => some x.bytes
  | _, .stat _ => some x.size
  | _, .openRemote _ _ => some (x.sent.map fun _ => x.file)
  | _, .readAt _ _ _ => some x.data
  | _, .writeAt _ _ _ | _, .close _ | _, .unlink _ => some x.sent
  | _, _ => none

def run (x : Choice) (q : Queue) : {β : Type} → Act β → Option (β × Queue)
  | _, .queue a => some (atomically q a)
  | _, .on cell a =>
    match fields x.clock (q.cells cell) a with
    | some (b,c) => some (b,{ q with cells := update q.cells cell c })
    | none => (answer x a).map fun b => (b,q)
  | _, .newJob device =>
    some (⟨q.nextId%2^64,device,q.nextId⟩,{ q with
      nextId := q.nextId+1, cells := update q.cells q.nextId .new })
  | _, .connected _ => some (x.connected,q)
  | _, .takePending id =>
    match q.pending.find? fun j => j.id = id with
    | some job => some (some job,{ q with pending := q.pending.eraseP fun j => j.id = id })
    | none => some (none,q)
  | _, .completedJobs => some (q.completed,q)
  | _, .takeFailed job =>
    if job ∈ q.completed ∧ (q.cells job.cell).state = .failed then
      some (true,{ q with completed := q.completed.erase job })
    else some (false,q)

def service : Service Act Queue Choice Req Reply where
  run := fun a x q => run x q a
  handler := handler sha256 chunkSize tasks
  arrive := fun _ q => some q
  leave := fun _ _ q => q

end

def waiting : JobState → Bool
  | .pending | .paused => true
  | _ => false

def finished : JobState → Bool
  | .completed | .failed | .cancelled | .skipped => true
  | _ => false

/-- How far whoever has a job in hand has got with it. -/
inductive Stage
  /-- On its way into `pending`. -/
  | entering
  /-- Taken out to be reset or to be cancelled. -/
  | leaving
  /-- Dispatched. -/
  | starting
  /-- Found not to be paused, and about to be marked as running. -/
  | begun
  | going
  /-- The transfer has ended without error, and was not cancelled, in this state. -/
  | checked (s : JobState)
  /-- In its last state; or did the transfer fail? -/
  | ended (ok : Bool)

abbrev Hand := Option (ℕ × Stage)

/-- Has the job been dispatched and not yet been put into `completed`? -/
def Stage.works : Stage → Bool
  | .entering | .leaving => false
  | _ => true

def Stage.afterSet (stage : Stage) : JobState → Stage
  | .pending => .entering
  | .running => .going
  | .completed => .ended true
  | .failed | .cancelled => .ended false
  | .skipped | .paused => stage

def Stage.afterLook (stage : Stage) (seen : JobState) : Stage :=
  match stage with
  | .starting => if seen = .paused then .going else .begun
  | .going => .checked seen
  | _ => stage

def after (h : Hand) : {β : Type} → Act β → β → Hand
  | _, .newJob _, job => some (job.cell,.entering)
  | _, .queue (.pushPending _), _ | _, .queue (.pushCompleted _), _ => none
  | _, .queue .dispatch, some job => some (job.cell,.starting)
  | _, .queue (.takeRetryable _), some job => some (job.cell,.leaving)
  | _, .takePending _, some job => some (job.cell,.leaving)
  | _, .takeFailed job, true => some (job.cell,.leaving)
  | _, .on _ (.setState s), _ => h.map fun g => (g.1,g.2.afterSet s)
  | _, .on _ .state, seen => h.map fun g => (g.1,g.2.afterLook seen)
  | _, _, _ => h

def onlooker : Onlooker Act Queue Choice Req Reply (ℕ → Hand) where
  start := fun _ _ n => n
  act := fun t _ _ a _ _ b n => update n t (after (n t) a b)
  reply := fun t _ _ n => update n t none

/-- May whoever has the job in hand set its state? -/
def Stage.May : Stage → JobState → Prop
  | .leaving, s => s = .pending ∨ s = .cancelled
  | .starting, s => s = .cancelled ∨ s = .failed
  | .begun, s => s = .running
  | .going, s => s = .skipped ∨ s = .failed ∨ s = .cancelled
  | .checked seen, s => seen = .running ∧ s = .completed
  | _, _ => False

/-- The job is ready for `completed`. -/
def Stage.Final : Stage → Prop
  | .ended _ => True
  | .checked seen => seen ≠ .running
  | _ => False

def Ready (h : Hand) : (β : Type) → Act β → Prop
  | _, .newJob _ | _, .queue .dispatch | _, .queue (.takeRetryable _) | _, .takePending _
  | _, .takeFailed _ => h = none
  | _, .queue (.pushPending job) => h = some (job.cell,.entering)
  | _, .queue (.pushCompleted job) => ∃ stage, h = some (job.cell,stage) ∧ stage.Final
  | _, .queue (.store _ f) => ∀ c, (f c).state = c.state
  | _, .queue (.cancelPending _) | _, .queue (.requeueFailed _) | _, .queue .nextId => False
  | _, .on cell (.setState s) =>
    h = none ∧ (s = .paused ∨ s = .running) ∨ ∃ stage, h = some (cell,stage) ∧ stage.May s
  | _, .on cell .state => ∀ c stage, h = some (c,stage) → c = cell
  | _, _ => True

def Next (_ : Req) (h : Hand) (β : Type) (a : Act β) (b : β) (h' : Hand) : Prop := h' = after h a b

def Done (h : Hand) (_ : Reply) : Prop := h = none

variable {cell : ℕ} {β : Type} {job : Job} {stage : Stage} {s : JobState} {w : Watched Act Queue Req Reply (ℕ → Hand)}
  {e : Event Choice Req}

section

variable {q : Req} {h h' : Hand} {id chunkSize rounds : ℕ} {sha256 : Bytes → String} {ρ τ : Type}
  {post : Hand → ρ → Prop} {f : Option Job → Prog Act Reply} {p : Prog Worker.Act ρ} {a : Worker.Act β} {e : String}
  {r : Worker.Outcome} {task : Task} {tasks : ℕ → Task}

theorem obeys_act {a : Act β} {f : β → Prog Act ρ}
    (hr : Ready h β a) (hf : ∀ b, (f b).Obeys Ready (Next q) post (after h a b)) :
    (perform a >>= f).Obeys Ready (Next q) post h := by
  refine ⟨hr,?_⟩
  rintro b _ rfl
  exact hf b

theorem obeys_find (hf : ∀ job, (f job).Obeys Ready (Next q) Done none) :
    (find id >>= f).Obeys Ready (Next q) Done none := by
  refine obeys_act trivial fun found => ?_
  cases found with
  | some job => exact hf (some job)
  | none =>
    refine obeys_act trivial fun found => ?_
    cases found with
    | some job => exact hf (some job)
    | none => exact obeys_act trivial fun found => hf found

/-- The other stores of `reset_for_retry` leave the state alone. -/
theorem obeys_resets : ((storeAll cell resets.tail).embed Act.queue).Obeys Ready (Next q) (fun h' _ => h' = h) h := by
  iterate 8 refine obeys_act (fun _ => rfl) fun _ => ?_
  rfl

theorem obeys_resetForRetry : (resetForRetry job).Obeys Ready (Next q) (fun h' _ => h' = some (job.cell,.entering))
      (some (job.cell,.leaving)) :=
  obeys_act (.inr ⟨_,rfl,.inl rfl⟩) fun _ => obeys_resets

theorem obeys_markDone (hf : stage.Final) : (markDone job).Obeys Ready (Next q) Done (some (job.cell,stage)) :=
  obeys_act trivial fun _ => obeys_act ⟨stage,rfl,hf⟩ fun _ => obeys_act trivial fun _ => rfl

theorem obeys_bodily (hp : p.Only Bodily) :
    (p.embed (Act.on cell)).Obeys Ready (Next q) (fun h' _ => h' = some (cell,.going)) (some (cell,.going)) := by
  apply obeys_embed.mpr
  refine hp.obeys ?_ ?_ rfl
  · rintro h β a rfl ha
    cases a with
    | setState s => exact .inr ⟨_,rfl,.inl ha⟩
    | state => exact ha.elim
    | _ => trivial
  · rintro h β a b h' rfl ha hn
    cases a with
    | setState s =>
      obtain rfl : s = .skipped := ha
      exact hn
    | state => exact ha.elim
    | _ => exact hn

theorem obeys_on {f : β → Prog Worker.Act ρ} (hr : Ready h β (.on cell a))
    (hf : ∀ b, ((f b).embed (Act.on cell)).Obeys Ready (Next q) post (after h (.on cell a) b)) :
    ((perform a >>= f).embed (Act.on cell)).Obeys Ready (Next q) post h := obeys_act hr hf

theorem obeys_on_bind {f : ρ → Prog Worker.Act τ} {post : Hand → τ → Prop}
    (hp : (p.embed (Act.on cell)).Obeys Ready (Next q) (fun g _ => g = h') h)
    (hf : ∀ r, ((f r).embed (Act.on cell)).Obeys Ready (Next q) post h') :
    ((p >>= f).embed (Act.on cell)).Obeys Ready (Next q) post h := by
  rw [embed_bind]
  refine hp.bind ?_
  rintro _ r rfl
  exact hf r

theorem obeys_markRunning : (markRunning.embed (Act.on cell)).Obeys Ready (Next q)
    (fun h' _ => h' = some (cell,.going)) (some (cell,.starting)) := by
  refine obeys_on (by rintro c stage ⟨⟩; rfl) fun seen => ?_
  by_cases hs : seen = .paused
  · rw [if_pos hs]
    simp [Prog.embed,Obeys,after,Stage.afterLook,hs]
  rw [if_neg hs]
  refine obeys_act (.inr ⟨.begun,?_,rfl⟩) fun _ => ?_
  · simp [after,Stage.afterLook,hs]
  · simp [Obeys,after,Stage.afterLook,Stage.afterSet]

/-- What a worker leaves the job with. -/
def Concluded (cell : ℕ) (h : Hand) (_ : Worker.Outcome) : Prop :=
  ∃ stage, h = some (cell,stage) ∧ stage.Final

/-- The two stores that end a job. -/
theorem obeys_end (hm : stage.May s) (hf : (stage.afterSet s).Final) :
    ((perform (.setError e) >>= fun _ => perform (.setState s) >>= fun _ =>
      (Prog.ret r : Prog Worker.Act Worker.Outcome)).embed (Act.on cell)).Obeys Ready (Next q)
      (Concluded cell) (some (cell,stage)) :=
  obeys_on trivial fun _ => obeys_on (.inr ⟨stage,rfl,hm⟩) fun _ => ⟨_,rfl,hf⟩

theorem obeys_conclude (result : Worker.Outcome) :
    ((conclude result).embed (Act.on cell)).Obeys Ready (Next q) (Concluded cell) (some (cell,.going)) := by
  refine obeys_on trivial fun cancelled => ?_
  split
  · exact obeys_end (.inr (.inr rfl)) trivial
  cases result with
  | error e => exact obeys_end (.inr (.inl rfl)) trivial
  | ok _ =>
    refine obeys_on (by rintro c stage ⟨⟩; rfl) fun seen => ?_
    split
    · rename_i hs
      exact obeys_on (.inr ⟨.checked seen,rfl,hs,rfl⟩) fun _ => ⟨_,rfl,trivial⟩
    · rename_i hs
      exact ⟨.checked seen,rfl,hs⟩

theorem obeys_run : ((Worker.run sha256 chunkSize rounds task).embed (Act.on cell)).Obeys Ready (Next q)
      (Concluded cell) (some (cell,.starting)) := by
  refine obeys_on trivial fun cancelled => ?_
  split
  · exact obeys_end (.inl rfl) trivial
  refine obeys_on_bind obeys_markRunning fun _ => obeys_on trivial fun _ => ?_
  refine obeys_on_bind (obeys_bodily (only_totalSize task (fun _ => trivial) (fun _ => trivial)
    fun _ => trivial)) fun total => ?_
  cases total with
  | error e => exact obeys_end (.inr (.inl rfl)) trivial
  | ok total =>
    refine obeys_on trivial fun _ => ?_
    exact obeys_on_bind (obeys_bodily (only_transfer _ _ _ _)) fun result => obeys_conclude result

theorem obeys_work : (work sha256 chunkSize tasks rounds).Obeys Ready (Next q) Done none := by
  refine obeys_act rfl fun found => ?_
  cases found with
  | none => rfl
  | some job =>
    refine obeys_act trivial fun connected => ?_
    split
    · refine obeys_run.bind ?_
      rintro _ r ⟨stage,rfl,hf⟩
      exact obeys_markDone hf
    · refine obeys_act (.inr ⟨.starting,rfl,.inr rfl⟩) fun _ => ?_
      exact obeys_act trivial fun _ => obeys_markDone trivial

theorem obeys_pause : (pause.embed (Act.on cell)).Obeys Ready (Next q) (fun h' _ => h' = none) none := by
  refine obeys_on trivial fun _ => obeys_on (by rintro c stage ⟨⟩) fun seen => ?_
  split
  · exact obeys_act (.inl ⟨rfl,.inl rfl⟩) fun _ => rfl
  · exact obeys_act (.inl ⟨rfl,.inl rfl⟩) fun _ => rfl
  · rfl

theorem obeys_resume : (resume.embed (Act.on cell)).Obeys Ready (Next q) (fun h' _ => h' = none) none := by
  refine obeys_on trivial fun _ => obeys_on (by rintro c stage ⟨⟩) fun seen => ?_
  split
  · exact obeys_act (.inl ⟨rfl,.inr rfl⟩) fun _ => rfl
  · rfl

theorem obeys_cancelJob (id : ℕ) : (cancelJob id).Obeys Ready (Next q) Done none := by
  refine obeys_act rfl fun found => ?_
  cases found with
  | some job =>
    refine obeys_act trivial fun _ => obeys_act trivial fun _ => ?_
    refine obeys_act (.inr ⟨.leaving,rfl,.inr rfl⟩) fun _ => ?_
    exact obeys_act ⟨.ended false,rfl,trivial⟩ fun _ => rfl
  | none =>
    refine obeys_find fun found => ?_
    cases found with
    | some job => exact obeys_act trivial fun _ => rfl
    | none => rfl

theorem obeys_retryEach (mine : Job → Bool) (jobs : List Job) (count : ℕ) :
    (retryEach mine jobs count).Obeys Ready (Next q) (fun h' _ => h' = none) none := by
  induction jobs generalizing count with
  | nil => rfl
  | cons job rest ih =>
    unfold retryEach
    split
    · refine obeys_act rfl fun taken => ?_
      cases taken with
      | true =>
        refine obeys_resetForRetry.bind ?_
        rintro _ _ rfl
        exact obeys_act rfl fun _ => ih (count+1)
      | false => exact ih count
    · exact ih count

theorem obeys_retryWhere (mine : Job → Bool) : (retryWhere mine).Obeys Ready (Next q) Done none := by
  refine obeys_act trivial fun jobs => (obeys_retryEach mine jobs 0).bind ?_
  rintro _ count rfl
  split
  · exact obeys_act trivial fun _ => rfl
  · rfl

theorem obeys_handler (sha256 : Bytes → String) (chunkSize : ℕ) (tasks : ℕ → Task) (q : Req) :
    (handler sha256 chunkSize tasks q).Obeys Ready (Next q) Done none := by
  cases q with
  | submit device => exact obeys_act rfl fun job => obeys_act rfl fun _ => obeys_act trivial fun _ => rfl
  | work rounds => exact obeys_work
  | pauseJob id =>
    refine obeys_find fun found => ?_
    cases found with
    | some job =>
      refine obeys_pause.bind ?_
      rintro _ _ rfl
      rfl
    | none => rfl
  | resumeJob id =>
    refine obeys_find fun found => ?_
    cases found with
    | some job =>
      refine obeys_resume.bind ?_
      rintro _ _ rfl
      rfl
    | none => rfl
  | cancelJob id => exact obeys_cancelJob id
  | retryJob id =>
    refine obeys_act rfl fun found => ?_
    cases found with
    | none => rfl
    | some job =>
      refine obeys_resetForRetry.bind ?_
      rintro _ _ rfl
      exact obeys_act rfl fun _ => obeys_act trivial fun _ => rfl
  | retryFailed => exact obeys_retryWhere _
  | retryFailedFor serial =>
    show (if serial.isEmpty then _ else _ : Prog Act Reply).Obeys Ready (Next _) Done none
    split
    · rfl
    · exact obeys_retryWhere _

end

/-- The states a job can be in at a stage. -/
def Suits : Stage → JobState → Prop
  | .entering, s => waiting s = true
  | .leaving, _ => True
  | .starting, s | .begun, s => finished s = false
  | .going, s => s = .paused ∨ s = .running ∨ s = .skipped
  | .checked seen, s => seen = .running ∧ finished s = false ∨ seen = .skipped ∧ s = .skipped
  | .ended true, s => s = .completed
  | .ended false, s => finished s = true

def cells (q : Queue) : List ℕ := (q.pending++q.completed).map Job.cell

def held (hand : ℕ → Hand) (t : ℕ) : Option ℕ := (hand t).map Prod.fst

/-- A job is in one list or in one hand, and its state suits the place. -/
structure Lives (q : Queue) (hand : ℕ → Hand) : Prop where
  custody : Custody (cells q) q.nextId (held hand)
  pending : ∀ job ∈ q.pending, waiting (q.cells job.cell).state = true
  completed : ∀ job ∈ q.completed, finished (q.cells job.cell).state = true
  inHand : ∀ t c stage, hand t = some (c,stage) → Suits stage (q.cells c).state

/-- Somebody works on the job. -/
def Flying (hand : ℕ → Hand) (cell : ℕ) : Prop := ∃ t stage, hand t = some (cell,stage) ∧ stage.works = true

/-- A pause stores `Paused`, and a resume `Running`, before the job has come to an end, and the
latter while somebody works on it; and at the end of a transfer the job is not found paused. -/
def Timely (hand : ℕ → Hand) (t : ℕ) (q : Queue) : (β : Type) → Act β → Prop
  | _, .on cell (.setState .paused) => finished (q.cells cell).state = false
  | _, .on cell (.setState .running) => finished (q.cells cell).state = false ∧ Flying hand cell
  | _, .on cell .state => hand t = some (cell,.going) → (q.cells cell).state ≠ .paused
  | _, _ => True

section

variable {q q' : Queue} {hand : ℕ → Hand} {t c' : ℕ} {g : Hand} {c : ℕ} {x : Choice} {old : JobState}
  {a : JobQueue.Act β} {b : β} {rest : List Job}

theorem held_update : held (update hand t g) = update (held hand) t (g.map Prod.fst) := by
  exact comp_update (Option.map Prod.fst) hand t g

theorem held_of_hand (h : hand t = some (c,stage)) : held hand t = some c := by
  simp [held,h]

theorem lives_update (hcustody : Custody (cells q') q'.nextId (update (held hand) t (g.map Prod.fst)))
    (hpending : ∀ job ∈ q'.pending, waiting (q'.cells job.cell).state)
    (hcompleted : ∀ job ∈ q'.completed, finished (q'.cells job.cell).state)
    (hmine : ∀ c stage, g = some (c,stage) → Suits stage (q'.cells c).state)
    (hothers : ∀ t' c stage, t' ≠ t → hand t' = some (c,stage) → Suits stage (q'.cells c).state) :
    Lives q' (update hand t g) where
  custody := by rwa [held_update]
  pending := hpending
  completed := hcompleted
  inHand := by
    intro t' c stage ht'
    by_cases htt : t' = t
    · subst htt
      exact hmine c stage (by simpa using ht')
    · exact hothers t' c stage htt (by simpa [htt] using ht')

/-- A job moves between the lists and a hand. -/
theorem Lives.move (h : Lives q hand) (hcustody : Custody (cells q') q'.nextId (update (held hand) t (g.map Prod.fst)))
    (hcells : q'.cells = q.cells)
    (hpending : ∀ job ∈ q'.pending, job ∈ q.pending ∨ waiting (q.cells job.cell).state)
    (hcompleted : ∀ job ∈ q'.completed, job ∈ q.completed ∨ finished (q.cells job.cell).state)
    (hmine : ∀ c stage, g = some (c,stage) → Suits stage (q.cells c).state) :
    Lives q' (update hand t g) := by
  refine lives_update hcustody ?_ ?_ ?_ ?_
  · intro job hjob
    rw [hcells]
    exact (hpending job hjob).elim (h.pending job) id
  · intro job hjob
    rw [hcells]
    exact (hcompleted job hjob).elim (h.completed job) id
  · rwa [hcells]
  · intro t' c stage _ ht'
    rw [hcells]
    exact h.inHand t' c stage ht'

theorem Lives.still (h : Lives q hand) (hp : q'.pending = q.pending) (hc : q'.completed = q.completed)
    (hn : q'.nextId = q.nextId) (hs : ∀ c, (q'.cells c).state = (q.cells c).state) (hg : g = hand t) :
    Lives q' (update hand t g) := by
  have hcells : cells q' = cells q := by simp only [cells,hp,hc]
  subst hg
  rw [update_eq_self]
  refine ⟨by rw [hcells,hn]; exact h.custody,?_,?_,?_⟩
  · intro job hjob
    rw [hs]
    exact h.pending job (hp ▸ hjob)
  · intro job hjob
    rw [hs]
    exact h.completed job (hc ▸ hjob)
  · intro t' c stage ht'
    rw [hs]
    exact h.inHand t' c stage ht'

theorem Lives.newJob (h : Lives q hand) (t : ℕ) :
    Lives { q with nextId := q.nextId+1, cells := update q.cells q.nextId .new }
      (update hand t (some (q.nextId,.entering))) := by
  have hold : ∀ c < q.nextId, (update q.cells q.nextId Cell.new c).state = (q.cells c).state := by
    intro c hc
    rw [update_of_ne hc.ne]
  have hpool : ∀ job ∈ q.pending++q.completed, job.cell < q.nextId := fun job hjob =>
    h.custody.pool_old job.cell (mem_map_of_mem hjob)
  refine lives_update (h.custody.mint t) ?_ ?_ ?_ ?_
  · intro job hjob
    rw [hold _ (hpool job (mem_append_left _ hjob))]
    exact h.pending job hjob
  · intro job hjob
    rw [hold _ (hpool job (mem_append_right _ hjob))]
    exact h.completed job hjob
  · rintro c stage ⟨⟩
    simp [Suits,waiting,Cell.new]
  · intro t' c stage _ ht'
    rw [hold c (h.custody.held_old t' c (held_of_hand ht'))]
    exact h.inHand t' c stage ht'

theorem Lives.pushPending (h : Lives q hand) (ht : hand t = some (job.cell,.entering)) :
    Lives { q with pending := q.pending++[job] } (update hand t none) := by
  have hperm : (job.cell::cells q).Perm (cells { q with pending := q.pending++[job] }) := by
    simp only [cells,map_append,map_cons,append_assoc,singleton_append]
    exact perm_middle.symm
  refine h.move ((h.custody.put (held_of_hand ht)).perm hperm) rfl ?_ (fun _ => .inl) (by simp)
  intro job' hjob'
  obtain hjob' | hjob' := mem_append.mp hjob'
  · exact .inl hjob'
  · obtain rfl : job' = job := mem_singleton.mp hjob'
    exact .inr (h.inHand t _ _ ht)

theorem suits_final (hf : stage.Final) (hs : Suits stage s) : finished s := by
  cases stage with
  | ended ok =>
    cases ok with
    | true =>
      obtain rfl : s = .completed := hs
      rfl
    | false => exact hs
  | checked seen =>
    obtain ⟨hseen,-⟩ | ⟨-,rfl⟩ := hs
    · exact (hf hseen).elim
    · rfl
  | _ => exact hf.elim

theorem Lives.pushCompleted (h : Lives q hand) (ht : hand t = some (job.cell,stage)) (hf : stage.Final) :
    Lives (q.pushCompleted job) (update hand t none) := by
  have hsub : ∀ job' ∈ trimCompleted (q.completed++[job]), job' ∈ q.completed ∨ job' = job := by
    intro job' hjob'
    rw [trimCompleted_eq] at hjob'
    simpa using mem_of_mem_drop hjob'
  have hput := h.custody.put (held_of_hand ht)
  have hperm : (job.cell::cells q).Perm ((q.pending++(q.completed++[job])).map Job.cell) := by
    have hmap : (q.pending++(q.completed++[job])).map Job.cell = cells q++[job.cell] := by simp [cells]
    rw [hmap]
    exact (perm_append_singleton _ _).symm
  have hlist : (cells (q.pushCompleted job)).Sublist ((q.pending++(q.completed++[job])).map Job.cell) := by
    refine List.Sublist.map _ (List.Sublist.append_left ?_ _)
    show (trimCompleted (q.completed++[job])).Sublist _
    rw [trimCompleted_eq]
    exact drop_sublist _ _
  have hfull := hput.perm hperm
  refine h.move (hfull.shrink (hlist.nodup hfull.pool_nodup) fun _ => hlist.mem) rfl (fun _ => .inl) ?_ (by simp)
  intro job' hjob'
  obtain hjob' | rfl := hsub job' hjob'
  · exact .inl hjob'
  · exact .inr (suits_final hf (h.inHand t _ _ ht))

theorem Lives.take (h : Lives q hand)
    (hperm : (cells q).Perm (job.cell::cells q')) (hcells : q'.cells = q.cells) (hn : q'.nextId = q.nextId)
    (hp : ∀ job' ∈ q'.pending, job' ∈ q.pending) (hc : ∀ job' ∈ q'.completed, job' ∈ q.completed)
    (hs : Suits stage (q.cells job.cell).state) :
    Lives q' (update hand t (some (job.cell,stage))) := by
  refine h.move (by rw [hn]; exact h.custody.draw t hperm) hcells (fun job' hjob' => .inl (hp job' hjob'))
    (fun job' hjob' => .inl (hc job' hjob')) ?_
  rintro c stage' ⟨⟩
  exact hs

theorem Lives.dispatch (h : Lives q hand) (hd : q.dispatch = (some job,q')) :
    Lives q' (update hand t (some (job.cell,.starting))) := by
  obtain ⟨rest,hp,rfl⟩ := dispatch_some q hd
  refine h.take (by simp [cells,hp]) rfl rfl ?_ (fun job' hjob' => hjob') ?_
  · intro job' hjob'
    rw [hp]
    exact mem_cons_of_mem _ hjob'
  · have hw := h.pending job (by simp [hp])
    revert hw
    show waiting (q.cells job.cell).state → finished (q.cells job.cell).state = false
    cases (q.cells job.cell).state <;> simp [waiting,finished]

theorem Lives.takeFrom_completed (h : Lives q hand) (hperm : q.completed.Perm (job::rest)) :
    Lives { q with completed := rest } (update hand t (some (job.cell,.leaving))) := by
  refine h.take ?_ rfl rfl (fun job' hjob' => hjob') ?_ trivial
  · exact ((hperm.append_left q.pending).trans perm_middle).map Job.cell
  · intro job' hjob'
    exact hperm.mem_iff.mpr (mem_cons_of_mem _ hjob')

theorem Lives.takeFrom_pending (h : Lives q hand) (hperm : q.pending.Perm (job::rest)) :
    Lives { q with pending := rest } (update hand t (some (job.cell,.leaving))) := by
  refine h.take ?_ rfl rfl ?_ (fun job' hjob' => hjob') trivial
  · exact (hperm.append_right q.completed).map Job.cell
  · intro job' hjob'
    exact hperm.mem_iff.mpr (mem_cons_of_mem _ hjob')

/-- What a store to one job's state changes. -/
def setState (q : Queue) (c : ℕ) (s : JobState) : Queue :=
  { q with cells := update q.cells c { q.cells c with state := s } }

theorem setState_self (q : Queue) (c : ℕ) (s : JobState) : ((setState q c s).cells c).state = s := by
  simp [setState]

theorem setState_of_ne (s : JobState) (h : c' ≠ c) : ((setState q c s).cells c').state = (q.cells c').state := by
  simp [setState,h]

theorem suits_set (hm : stage.May s) (h : Suits stage old) : Suits (stage.afterSet s) s := by
  cases stage with
  | entering | ended ok => exact hm.elim
  | leaving | starting => rcases hm with rfl | rfl <;> rfl
  | begun =>
    obtain rfl : s = .running := hm
    exact .inr (.inl rfl)
  | going =>
    obtain rfl | rfl | rfl := hm
    · exact .inr (.inr rfl)
    · rfl
    · rfl
  | checked seen =>
    obtain ⟨-,rfl⟩ := hm
    rfl

/-- Whoever has the job in hand sets its state. -/
theorem Lives.set_own (h : Lives q hand) (ht : hand t = some (c,stage)) (hm : stage.May s) :
    Lives (setState q c s) (update hand t (some (c,stage.afterSet s))) := by
  have hpool : ∀ job ∈ q.pending++q.completed, job.cell ≠ c := by
    rintro job hjob rfl
    exact h.custody.held_unpooled t _ (held_of_hand ht) (mem_map_of_mem hjob)
  have hself : update (held hand) t (some c) = held hand := by
    rw [← held_of_hand ht,update_eq_self]
  refine lives_update ?_ ?_ ?_ ?_ ?_
  · show Custody (cells q) q.nextId (update (held hand) t (some c))
    rw [hself]
    exact h.custody
  · intro job hjob
    rw [setState_of_ne s (hpool job (mem_append_left _ hjob))]
    exact h.pending job hjob
  · intro job hjob
    rw [setState_of_ne s (hpool job (mem_append_right _ hjob))]
    exact h.completed job hjob
  · rintro c' stage' ⟨⟩
    rw [setState_self]
    exact suits_set hm (h.inHand t c stage ht)
  · intro t' c' stage' htt ht'
    have hne : c' ≠ c := by
      rintro rfl
      exact htt (h.custody.held_unique t' t c' (held_of_hand ht') (held_of_hand ht))
    rw [setState_of_ne s hne]
    exact h.inHand t' c' stage' ht'

/-- A job that has not come to an end may be paused, and while it is worked on also be set running. -/
theorem suits_foreign (hs : s = .paused ∨ s = .running ∧ stage.works)
    (h : Suits stage old) (ho : finished old = false) : Suits stage s := by
  have hfinished : finished s = false := by
    rcases hs with rfl | ⟨rfl,-⟩ <;> rfl
  cases stage with
  | entering =>
    obtain rfl | ⟨-,hw⟩ := hs
    · rfl
    · cases hw
  | leaving => trivial
  | starting | begun => exact hfinished
  | going => exact hs.imp_right fun hrunning => .inl hrunning.1
  | checked seen =>
    obtain ⟨hseen,-⟩ | ⟨-,rfl⟩ := h
    · exact .inl ⟨hseen,hfinished⟩
    · cases ho
  | ended ok =>
    cases ok with
    | true =>
      obtain rfl : old = .completed := h
      cases ho
    | false => cases h.symm.trans ho

/-- Somebody without the job in hand sets its state before it has come to an end. -/
theorem Lives.set_foreign (h : Lives q hand) (ho : finished (q.cells c).state = false)
    (hwait : waiting s ∨ ∀ job ∈ q.pending, job.cell ≠ c)
    (hsuits : ∀ t' stage, hand t' = some (c,stage) → Suits stage s) :
    Lives (setState q c s) (update hand t (hand t)) := by
  rw [update_eq_self]
  refine ⟨h.custody,?_,?_,?_⟩
  · intro job hjob
    by_cases hc : job.cell = c
    · rw [hc,setState_self]
      exact hwait.resolve_right fun hno => hno job hjob hc
    · rw [setState_of_ne s hc]
      exact h.pending job hjob
  · intro job hjob
    have hc : job.cell ≠ c := by
      rintro rfl
      cases (h.completed job hjob).symm.trans ho
    rw [setState_of_ne s hc]
    exact h.completed job hjob
  · intro t' c' stage ht'
    by_cases hc : c' = c
    · subst hc
      rw [setState_self]
      exact hsuits t' stage ht'
    · rw [setState_of_ne s hc]
      exact h.inHand t' c' stage ht'

theorem Lives.pause (h : Lives q hand) (ho : finished (q.cells c).state = false) :
    Lives (setState q c .paused) (update hand t (hand t)) :=
  h.set_foreign ho (.inl rfl) fun t' _ ht' => suits_foreign (.inl rfl) (h.inHand t' c _ ht') ho

theorem Lives.resume (h : Lives q hand) (ho : finished (q.cells c).state = false)
    (hf : Flying hand c) : Lives (setState q c .running) (update hand t (hand t)) := by
  obtain ⟨u,stage,hu,hw⟩ := hf
  refine h.set_foreign ho (.inr ?_) ?_
  · rintro job hjob rfl
    exact h.custody.held_unpooled u _ (held_of_hand hu) (mem_map_of_mem (mem_append_left _ hjob))
  intro t' stage' ht'
  obtain rfl := h.custody.held_unique t' u c (held_of_hand ht') (held_of_hand hu)
  cases hu.symm.trans ht'
  exact suits_foreign (.inr ⟨rfl,hw⟩) (h.inHand t' c stage hu) ho

theorem suits_look (h : Suits stage s) (hp : stage = .going → s ≠ .paused) : Suits (stage.afterLook s) s := by
  cases stage with
  | starting =>
    show Suits (if s = .paused then .going else .begun) s
    split
    · rename_i he
      exact .inl he
    · exact h
  | going =>
    obtain rfl | rfl | rfl := h
    · exact (hp rfl rfl).elim
    · exact .inl ⟨rfl,rfl⟩
    · exact .inr ⟨rfl,rfl⟩
  | _ => exact h

theorem Lives.look (h : Lives q hand) (hr : ∀ c' stage, hand t = some (c',stage) → c' = c)
    (hp : hand t = some (c,.going) → (q.cells c).state ≠ .paused) :
    Lives q (update hand t ((hand t).map fun g => (g.1,g.2.afterLook (q.cells c).state))) := by
  cases ht : hand t with
  | none =>
    refine h.still rfl rfl rfl (fun _ => rfl) ?_
    rw [ht]
    rfl
  | some g =>
    obtain ⟨c',stage⟩ := g
    obtain rfl := hr c' stage ht
    have hself : update (held hand) t (some c') = held hand := by
      rw [← held_of_hand ht,update_eq_self]
    refine h.move (by simpa [hself] using h.custody) rfl (fun _ => .inl) (fun _ => .inl) ?_
    rintro c stage' ⟨⟩
    refine suits_look (h.inHand t c' stage ht) ?_
    rintro rfl
    exact hp ht

theorem Lives.queue (h : Lives q hand) (hr : Ready (hand t) β (.queue a)) :
    Lives (atomically q a).2 (update hand t (after (hand t) (.queue a) (atomically q a).1)) := by
  cases a with
  | nextId | cancelPending id | requeueFailed mine => exact hr.elim
  | pushPending job => exact h.pushPending hr
  | notify | retainInFlight id | snapshot | findPending id | findInFlight id | findCompleted id =>
    exact h.still rfl rfl rfl (fun _ => rfl) rfl
  | pushCompleted job =>
    obtain ⟨stage,ht,hf⟩ := hr
    exact h.pushCompleted ht hf
  | dispatch =>
    show Lives q.dispatch.2 (update hand t (after (hand t) (.queue .dispatch) q.dispatch.1))
    rcases hd : q.dispatch with ⟨_ | job,q'⟩
    · rw [dispatch_none q hd]
      exact h.still rfl rfl rfl (fun _ => rfl) rfl
    · exact h.dispatch hd
  | takeRetryable id =>
    show Lives (q.takeRetryable id).2
      (update hand t (after (hand t) (.queue (.takeRetryable id)) (q.takeRetryable id).1))
    rcases ht : q.takeRetryable id with ⟨_ | job,q'⟩
    · rw [takeRetryable_none q ht]
      exact h.still rfl rfl rfl (fun _ => rfl) rfl
    · obtain ⟨p,hf,rfl⟩ := takeRetryable_some q ht
      exact h.takeFrom_completed (perm_of_find hf)
  | store cell f =>
    refine h.still rfl rfl rfl (fun c => ?_) rfl
    by_cases hc : c = cell
    · subst hc
      simpa [atomically,Queue.store] using hr _
    · simp [atomically,Queue.store,hc]

theorem run_on {a : Worker.Act β} (hs : run x q (.on cell a) = some (b,q')) :
    q'.pending = q.pending ∧ q'.completed = q.completed ∧ q'.nextId = q.nextId ∧
      ∀ c, (q'.cells c).state = if c = cell then a.sets.getD (q.cells c).state else (q.cells c).state := by
  simp only [JobStates.run] at hs
  split at hs
  · rename_i b' c' hf
    cases hs
    refine ⟨rfl,rfl,rfl,?_⟩
    intro c
    by_cases hc : c = cell
    · subst hc
      simpa using fields_state hf
    · simp [hc]
  · rename_i hf
    obtain ⟨b',hb,he⟩ := Option.map_eq_some_iff.mp hs
    cases he
    refine ⟨rfl,rfl,rfl,?_⟩
    intro c
    cases a with
    | setState s => cases hf
    | _ => simp [Worker.Act.sets]

theorem Lives.on (h : Lives q hand) {a : Worker.Act β}
    (hr : Ready (hand t) β (.on cell a)) (hm : Timely hand t q β (.on cell a))
    (hs : run x q (.on cell a) = some (b,q')) : Lives q' (update hand t (after (hand t) (.on cell a) b)) := by
  cases a with
  | setState s =>
    cases hs
    have hidle : ∀ s, hand t = none → after (hand t) (.on cell (.setState s)) () = hand t := by
      intro s hnone
      rw [hnone]
      rfl
    obtain ⟨hnone,rfl | rfl⟩ | ⟨stage,ht,hmay⟩ := hr
    · rw [hidle _ hnone]
      exact h.pause hm
    · rw [hidle _ hnone]
      exact h.resume hm.1 hm.2
    · rw [ht]
      exact h.set_own ht hmay
  | state =>
    cases hs
    have hsame : ({ q with cells := update q.cells cell (q.cells cell) } : Queue) = q := by
      rw [update_eq_self]
    rw [hsame]
    exact h.look hr hm
  | _ =>
    obtain ⟨hp,hc,hn,hst⟩ := run_on hs
    exact h.still hp hc hn (fun c => by simp [hst,Worker.Act.sets]) rfl

/-- Every action that finds the hand as it should and comes in time keeps the states right. -/
theorem Lives.run (h : Lives q hand) {a : Act β}
    (hr : Ready (hand t) β a) (hm : Timely hand t q β a) (hs : run x q a = some (b,q')) :
    Lives q' (update hand t (after (hand t) a b)) := by
  cases a with
  | queue a =>
    have he := Option.some.inj hs
    obtain rfl : (atomically q a).1 = b := congrArg Prod.fst he
    obtain rfl : (atomically q a).2 = q' := congrArg Prod.snd he
    exact h.queue hr
  | on cell a => exact h.on hr hm hs
  | newJob device =>
    cases hs
    exact h.newJob t
  | connected device | completedJobs =>
    cases hs
    exact h.still rfl rfl rfl (fun _ => rfl) rfl
  | takePending id =>
    simp only [JobStates.run] at hs
    split at hs
    · rename_i job hf
      cases hs
      exact h.takeFrom_pending (perm_of_find hf)
    · cases hs
      exact h.still rfl rfl rfl (fun _ => rfl) rfl
  | takeFailed job =>
    simp only [JobStates.run] at hs
    split at hs
    · rename_i hf
      cases hs
      exact h.takeFrom_completed (perm_cons_erase hf.1)
    · cases hs
      exact h.still rfl rfl rfl (fun _ => rfl) rfl

theorem cells_atomically (hr : Ready (hand t) β (.queue a)) (c : ℕ) :
    ((atomically q a).2.cells c).state = (q.cells c).state := by
  cases a with
  | dispatch =>
    show (q.dispatch.2.cells c).state = _
    rcases hd : q.dispatch with ⟨_ | job,q'⟩
    · rw [dispatch_none q hd]
    · obtain ⟨rest,-,rfl⟩ := dispatch_some q hd
      rfl
  | takeRetryable id =>
    show ((q.takeRetryable id).2.cells c).state = _
    rcases ht : q.takeRetryable id with ⟨_ | job,q'⟩
    · rw [takeRetryable_none q ht]
    · obtain ⟨p,-,rfl⟩ := takeRetryable_some q ht
      rfl
  | store cell f =>
    by_cases hc : c = cell
    · subst hc
      simpa [atomically,Queue.store] using hr _
    · simp [atomically,Queue.store,hc]
  | cancelPending id => exact hr.elim
  | requeueFailed mine => exact hr.elim
  | _ => rfl

/-- The state of a job in `completed` does not change. -/
theorem Lives.finished_stays (h : Lives q hand) {a : Act β}
    (hr : Ready (hand t) β a) (hm : Timely hand t q β a) (hs : JobStates.run x q a = some (b,q'))
    (hjob : job ∈ q.completed) : (q'.cells job.cell).state = (q.cells job.cell).state := by
  have hpool : job.cell ∈ cells q := mem_map_of_mem (mem_append_right _ hjob)
  cases a with
  | queue a =>
    obtain rfl : (atomically q a).2 = q' := congrArg Prod.snd (Option.some.inj hs)
    exact cells_atomically hr job.cell
  | on cell a =>
    obtain ⟨-,-,-,hst⟩ := run_on hs
    rw [hst]
    by_cases hc : job.cell = cell
    · subst hc
      have hdone := h.completed job hjob
      cases a with
      | setState s =>
        obtain ⟨-,rfl | rfl⟩ | ⟨stage,ht,-⟩ := hr
        · cases hdone.symm.trans hm
        · cases hdone.symm.trans hm.1
        · exact (h.custody.held_unpooled t _ (held_of_hand ht) hpool).elim
      | _ => simp [Worker.Act.sets]
    · simp [hc]
  | newJob device =>
    cases hs
    have hne : job.cell ≠ q.nextId := (h.custody.pool_old _ hpool).ne
    simp [hne]
  | connected device | completedJobs =>
    cases hs
    rfl
  | takePending id | takeFailed job' =>
    simp only [JobStates.run] at hs
    split at hs <;> cases hs <;> rfl

end

section

variable (sha256 : Bytes → String) (chunkSize : ℕ) (tasks : ℕ → Task) {w' : Watched Act Queue Req Reply (ℕ → Hand)}
  {e : Event Choice Req}

def InTime (w : Watched Act Queue Req Reply (ℕ → Hand)) (e : Event Choice Req) : Prop :=
  ∀ t x req (β : Type) (a : Act β) k, e = .act t x → w.config.threads t = some (req,.act a k) →
    Timely w.notes t w.config.shared β a

def opening (parallelism : ℕ) : Watched Act Queue Req Reply (ℕ → Hand) :=
  ⟨⟨.new parallelism,fun _ => none⟩,fun _ => none⟩

structure Orderly (w : Watched Act Queue Req Reply (ℕ → Hand)) : Prop where
  abides : Abides id Ready Next Done none w
  lives : Lives w.config.shared w.notes

theorem orderly_opening (parallelism : ℕ) : Orderly (opening parallelism) where
  abides := ⟨by simp [opening],fun _ _ => rfl⟩
  lives :=
    { custody := Custody.empty nodup_nil (by simp [opening,Queue.new,cells])
      pending := by simp [opening,Queue.new]
      completed := by simp [opening,Queue.new]
      inHand := by simp [opening] }

theorem watch_orderly (hw : Orderly w) (he : InTime w e)
    (h : watch (service sha256 chunkSize tasks) onlooker w e = some w') : Orderly w' := by
  have hwatches := watch_watches h
  constructor
  · refine hw.abides.watches (i:=fun _ => none) (fun q _ _ _ => obeys_handler sha256 chunkSize tasks q)
      (fun _ _ _ hidle => (update_eq_self_iff.mpr hidle.symm).symm) ?_ (fun _ _ _ _ => rfl) ?_ hwatches
    · intro t q β a x s b n t' htt
      exact update_of_ne htt _ _
    · intro t x q β a k b s _ ht hs
      simp [Next,onlooker]
  · cases hwatches with
    | start hfree hs =>
      cases hs
      exact hw.lives
    | act ht hs => exact hw.lives.run (hw.abides.busy _ _ _ ht).1 (he _ _ _ _ _ _ rfl ht) hs
    | @reply t q r ht =>
      have hidle : w.notes t = none := hw.abides.busy t q _ ht
      exact hw.lives.still rfl rfl rfl (fun _ => rfl) hidle.symm

/-- In every run in which pauses and resumes store in time and no transfer ends while its job
is paused: a job in `completed` is finished and stays in the state it is in, a job in
`pending` is pending or paused, and a job whose transfer has ended without error, and was not
cancelled, goes to `completed` as completed or skipped. -/
theorem states_suit_places (parallelism : ℕ) (es : List (Event Choice Req)) (w : Watched Act Queue Req Reply (ℕ → Hand))
    (hm : Meets (watch (service sha256 chunkSize tasks) onlooker) InTime (opening parallelism) es)
    (h : exec (watch (service sha256 chunkSize tasks) onlooker) (opening parallelism) es = some w) :
    (∀ job ∈ w.config.shared.completed, finished (w.config.shared.cells job.cell).state = true) ∧
    (∀ e w', InTime w e → watch (service sha256 chunkSize tasks) onlooker w e = some w' →
      ∀ job ∈ w.config.shared.completed,
        (w'.config.shared.cells job.cell).state = (w.config.shared.cells job.cell).state) ∧
    (∀ job ∈ w.config.shared.pending, waiting (w.config.shared.cells job.cell).state = true) ∧
    ∀ t req job k, w.config.threads t = some (req,.act (.queue (.pushCompleted job)) k) →
      (w.notes t = some (job.cell,.ended true) ∨ ∃ s, w.notes t = some (job.cell,.checked s)) →
      (w.config.shared.cells job.cell).state = .completed ∨ (w.config.shared.cells job.cell).state = .skipped := by
  have hw : Orderly w := exec_invariant_of_meets (fun _ _ _ => watch_orderly sha256 chunkSize tasks)
    (orderly_opening parallelism) hm h
  refine ⟨hw.lives.completed,?_,hw.lives.pending,?_⟩
  · intro e w' he hstep job hjob
    cases watch_watches hstep with
    | start hfree hs =>
      cases hs
      rfl
    | act ht hs => exact hw.lives.finished_stays (hw.abides.busy _ _ _ ht).1 (he _ _ _ _ _ _ rfl ht) hs hjob
    | reply ht => rfl
  · rintro t req job k ht (hended | ⟨s,hchecked⟩)
    · exact .inl (hw.lives.inHand t _ _ hended)
    obtain ⟨stage,hhand,hfinal⟩ := (hw.abides.busy _ _ _ ht).1
    cases hchecked.symm.trans hhand
    rcases hw.lives.inHand t _ _ hchecked with ⟨hseen,-⟩ | ⟨-,hskipped⟩
    · exact (hfinal hseen).elim
    · exact .inr hskipped

end

/-- A check of what is in time; a job is set running by whoever works on it. -/
def timely (hand : ℕ → Hand) (t : ℕ) (q : Queue) : (β : Type) → Act β → Bool
  | _, .on cell (.setState .paused) => !finished (q.cells cell).state
  | _, .on cell (.setState .running) => !finished (q.cells cell).state && (hand t).any fun h => h.1 == cell && h.2.works
  | _, .on cell .state => !(hand t).isSome || (q.cells cell).state != .paused
  | _, _ => true

def inTime (w : Watched Act Queue Req Reply (ℕ → Hand)) : Event Choice Req → Bool
  | .act t _ =>
    match w.config.threads t with
    | some (_,.act a _) => timely w.notes t w.config.shared _ a
    | _ => true
  | _ => true

theorem inTime_of_eq_true (h : inTime w e) : InTime w e := by
  rintro t x req β a k rfl ht
  simp only [inTime,ht] at h
  cases a with
  | on cell a =>
    cases a with
    | setState s =>
      cases s with
      | paused => simpa [timely,Timely] using h
      | running =>
        cases hhand : w.notes t with
        | none => simp [timely,hhand] at h
        | some own =>
          obtain ⟨c,stage⟩ := own
          simp only [timely,hhand,Option.any_some,Bool.and_eq_true,Bool.not_eq_true',beq_iff_eq] at h
          obtain ⟨hstate,rfl,hworks⟩ := h
          exact ⟨hstate,t,stage,hhand,hworks⟩
      | _ => trivial
    | state =>
      intro hhand
      simpa [timely,hhand] using h
    | _ => trivial
  | _ => trivial

/-- Everything goes well: an empty file is pushed to a new place. -/
def smooth : Choice where
  clock := ⟨0,0,0⟩
  connected := true
  file := 0
  io := .ok ()
  len := .ok 0
  bytes := .ok []
  sent := .ok ()
  size := .error (.status .notFound [])
  data := .ok []

def someTask : Task := ⟨.push,[[97]],[[98]],.off,.always⟩

def someService : Service Act Queue Choice Req Reply := service (fun _ => "") 1 fun _ => someTask

def submitting : List (Event Choice Req) :=
  Event.start 0 (Req.submit none)::List.replicate 3 (Event.act 0 smooth)++[Event.reply 0]

/-- A pending job is paused and then cancelled, and another one is transferred. -/
def cancelThenWork : List (Event Choice Req) :=
  submitting++Event.start 0 (Req.pauseJob 1)::(List.replicate 4 (Event.act 0 smooth)++Event.reply 0::Event.start 0 (Req.cancelJob 1)::
    (List.replicate 5 (Event.act 0 smooth)++Event.reply 0::submitting++Event.start 0 (Req.work 1)::
      (List.replicate 23 (Event.act 0 smooth)++[Event.reply 0])))

theorem states_suit_places_cancelled : ∃ w, exec (watch someService onlooker) (opening 1) cancelThenWork = some w ∧
      w.config.shared.completed = [⟨1,none,1⟩,⟨2,none,2⟩] ∧ (w.config.shared.cells 1).state = .cancelled ∧
      (w.config.shared.cells 2).state = .completed ∧
      ∀ job ∈ w.config.shared.completed, finished (w.config.shared.cells job.cell).state = true := by
  obtain ⟨w,hw⟩ : ∃ w, exec (watch someService onlooker) (opening 1) cancelThenWork = some w := ⟨_,rfl⟩
  have hplaces := states_suit_places (fun _ => "") 1 (fun _ => someTask) 1 cancelThenWork w
    (meets_of_check (fun _ _ => inTime_of_eq_true) (by decide +kernel)) hw
  cases hw
  exact ⟨_,rfl,rfl,rfl,rfl,hplaces.1⟩

/-- A pause lands between the last chunk and the end of the transfer. -/
def pauseAtTheEnd : List (Event Choice Req) :=
  submitting++Event.start 0 (Req.work 1)::(List.replicate 17 (Event.act 0 smooth)++Event.start 1 (Req.pauseJob 1)::
    (List.replicate 5 (Event.act 1 smooth)++List.replicate 5 (Event.act 0 smooth)))

/-- A pending job is paused and resumed. -/
def resumePending : List (Event Choice Req) :=
  submitting++Event.start 0 (Req.pauseJob 1)::(List.replicate 4 (Event.act 0 smooth)++Event.reply 0::Event.start 0 (Req.resumeJob 1)::
    List.replicate 4 (Event.act 0 smooth))

/-- A job whose transfer has ended without error is in `completed` as paused, and a job in
`pending` is running. -/
theorem paused_completed_or_running_pending : (∃ c, exec someService.step (opening 1).config pauseAtTheEnd = some c ∧
      c.threads 0 = some (.work 1,.ret .done) ∧ c.shared.completed = [⟨1,none,1⟩] ∧
      (c.shared.cells 1).state = .paused) ∧
    ∃ c, exec someService.step (opening 1).config resumePending = some c ∧
      c.shared.pending = [⟨1,none,1⟩] ∧ (c.shared.cells 1).state = .running :=
  ⟨⟨_,rfl,rfl,rfl,rfl⟩,⟨_,rfl,rfl,rfl⟩⟩

end AdbShare.JobStates

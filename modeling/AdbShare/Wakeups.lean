import AdbShare.JobQueue
import AdbShare.Onlooker

/-! The dispatch loop of the daemon and the notifications that keep it going. A caller who
has queued a job or has freed a slot owes a notification until it is sent. -/
namespace AdbShare.Wakeups

open Prog Service Transition JobQueue Function List

inductive Act : Type → Type 1
  | queue {β : Type} (a : JobQueue.Act β) : Act β
  /-- Waits for a notification. -/
  | recv : Act Unit
  /-- Is there a client for the device? -/
  | connected (device : Option String) : Act Bool
  /-- Never happens. -/
  | stuck : Act Empty

inductive Req
  | call (q : JobQueue.Req)
  /-- The worker loop of `main`, for so many rounds of its loops. -/
  | loop (rounds : ℕ)

/-- Run `try_dispatch` until it gives nothing; a worker that is spawned calls `mark_done` on a
thread of its own. -/
def dispatchAll : ℕ → Prog Act Unit
  | 0 => .act .stuck Empty.elim
  | rounds+1 => do
    match ← perform (.queue .dispatch) with
    | none => return ()
    | some job => do
      if ← perform (.connected job.device) then dispatchAll rounds
      else do
        perform (.queue (.store job.cell fun c => { c with state := .failed }))
        perform (.queue (.store job.cell fun c => { c with error := some "device not connected" }))
        let _ ← (markDone job).embed Act.queue
        dispatchAll rounds

def dispatchLoop (rounds : ℕ) : ℕ → Prog Act Reply
  | 0 => .act .stuck Empty.elim
  | left+1 => do
    perform .recv
    dispatchAll rounds
    dispatchLoop rounds left

def handler : Req → Prog Act Reply
  | .call q => (JobQueue.handler q).embed Act.queue
  | .loop rounds => dispatchLoop rounds rounds

def run (connected : Bool) (q : Queue) : {β : Type} → Act β → Option (β × Queue)
  | _, .queue a => some (atomically q a)
  | _, .recv => if q.notified = 0 then none else some ((),{ q with notified := q.notified-1 })
  | _, .connected _ => some (connected,q)
  | _, .stuck => none

def service : Service Act Queue Bool Req Reply where
  run := fun a x q => run x q a
  handler := handler
  arrive := fun _ q => some q
  leave := fun _ _ q => q

/-- For a caller: does it owe a notification? For the dispatcher: is it in its inner loop? -/
def after (req : Req) (g : Bool) : {β : Type} → Act β → β → Bool
  | _, .recv, _ => true
  | _, .queue .dispatch, none => false
  | _, .queue .notify, _ =>
    match req with
    | .call _ => false
    | .loop _ => g
  | _, .queue (.pushPending _), _ | _, .queue (.retainInFlight _), _ => true
  | _, .queue (.requeueFailed _), n => g || decide (0 < n)
  | _, _, _ => g

def onlooker : Onlooker Act Queue Bool Req Reply (ℕ → Bool) where
  start := fun _ _ n => n
  act := fun t req _ a _ _ b n => update n t (after req (n t) a b)
  reply := fun t _ _ n => update n t false

def Next (req : Req) (g : Bool) (β : Type) (a : Act β) (b : β) (g' : Bool) : Prop := g' = after req g a b

def Done (g : Bool) (_ : Reply) : Prop := g = false

def anything (_ : Bool) (β : Type) (_ : Act β) : Prop := True

variable {g : Bool} {β : Type}

open Act

section

variable {req : Req} {rounds cell id : ℕ} {ρ : Type} {post : Bool → ρ → Prop} {a : JobQueue.Act β}
  {fs : List (Cell → Cell)} {f : Option Job → Prog JobQueue.Act Reply} {q : JobQueue.Req} {job : Job}

theorem obeys_act {a : Act β} {f : β → Prog Act ρ} (hf : ∀ b, (f b).Obeys anything (Next req) post (after req g a b)) :
    (perform a >>= f).Obeys anything (Next req) post g := by
  refine ⟨trivial,?_⟩
  rintro b _ rfl
  exact hf b

theorem obeys_call {f : β → Prog JobQueue.Act ρ}
    (hf : ∀ b, ((f b).embed queue).Obeys anything (Next req) post (after req g (.queue a) b)) :
    ((perform a >>= f).embed queue).Obeys anything (Next req) post g := obeys_act hf

theorem obeys_storeAll {f : Unit → Prog JobQueue.Act Reply}
    (hf : ((f ()).embed queue).Obeys anything (Next req) Done g) :
    ((storeAll cell fs >>= f).embed queue).Obeys anything (Next req) Done g := by
  induction fs with
  | nil => exact hf
  | cons h fs ih => exact obeys_call fun _ => ih

theorem obeys_find (hf : ∀ job, ((f job).embed queue).Obeys anything (Next req) Done g) :
    ((find id >>= f).embed queue).Obeys anything (Next req) Done g := by
  refine obeys_call fun found => ?_
  cases found with
  | some job => exact hf (some job)
  | none =>
    refine obeys_call fun found => ?_
    cases found with
    | some job => exact hf (some job)
    | none => exact obeys_call fun found => hf found

theorem obeys_retryWhere (mine : Job → Bool) :
    ((retryWhere mine).embed queue).Obeys anything (Next (.call q)) Done false := by
  refine obeys_call fun count => ?_
  split
  · exact obeys_call fun _ => rfl
  · rename_i hcount
    exact decide_eq_false hcount

/-- A caller sends what it owes before it replies. -/
theorem obeys_caller (q : JobQueue.Req) :
    ((JobQueue.handler q).embed queue).Obeys anything (Next (.call q)) Done false := by
  cases q with
  | submit job =>
    have hrest : ∀ id, ((perform (.pushPending { job with id := id }) >>= fun _ => perform .notify >>= fun _ =>
        (Prog.ret (.submitted id) : Prog JobQueue.Act Reply)).embed queue).Obeys anything
          (Next (.call (.submit job))) Done false :=
      fun id => obeys_call fun _ => obeys_call fun _ => rfl
    show ((newId job >>= fun id => _).embed queue).Obeys anything (Next _) Done false
    unfold newId
    split
    · exact obeys_call hrest
    · exact hrest job.id
  | markDone job => exact obeys_call fun _ => obeys_call fun _ => obeys_call fun _ => rfl
  | jobsSnapshot => exact obeys_call fun _ => rfl
  | tryDispatch =>
    refine obeys_call fun found => ?_
    cases found <;> rfl
  | find id => exact obeys_find fun _ => rfl
  | cancelJob id =>
    refine obeys_call fun cancelled => ?_
    cases cancelled with
    | true => rfl
    | false =>
      refine obeys_find fun found => ?_
      cases found with
      | some job => exact obeys_call fun _ => rfl
      | none => rfl
  | retryJob id =>
    refine obeys_call fun found => ?_
    cases found with
    | none => rfl
    | some job => exact obeys_storeAll (obeys_call fun _ => obeys_call fun _ => rfl)
  | retryFailed => exact obeys_retryWhere _
  | retryFailedFor serial =>
    show ((retryFailedFor serial).embed queue).Obeys anything (Next _) Done false
    unfold retryFailedFor
    split
    · rfl
    · exact obeys_retryWhere _
  | store cell f => exact obeys_call fun _ => rfl

theorem obeys_markDone : ((markDone job).embed queue).Obeys anything (Next (.loop rounds)) (fun g' _ => g') true :=
  obeys_call fun _ => obeys_call fun _ => obeys_call fun _ => rfl

theorem obeys_dispatchAll (left : ℕ) :
    (dispatchAll left).Obeys anything (Next (.loop rounds)) (fun g' _ => g' = false) true := by
  induction left with
  | zero => exact ⟨trivial,fun b => b.elim⟩
  | succ left ih =>
    refine obeys_act fun found => ?_
    cases found with
    | none => rfl
    | some job =>
      refine obeys_act fun connected => ?_
      cases connected with
      | true => exact ih
      | false =>
        iterate 2 refine obeys_act fun _ => ?_
        refine obeys_markDone.bind ?_
        rintro _ _ rfl
        exact ih

theorem obeys_dispatchLoop (left : ℕ) : (dispatchLoop rounds left).Obeys anything (Next (.loop rounds)) Done false := by
  induction left with
  | zero => exact ⟨trivial,fun b => b.elim⟩
  | succ left ih =>
    refine obeys_act fun _ => (obeys_dispatchAll rounds).bind ?_
    rintro _ _ rfl
    exact ih

theorem obeys_handler (req : Req) : (handler req).Obeys anything (Next req) Done false := by
  cases req with
  | call q => exact obeys_caller q
  | loop rounds => exact obeys_dispatchLoop rounds

end

/-- There is a job to dispatch. -/
def Due (q : Queue) : Prop := q.pending ≠ [] ∧ q.inFlight.length < q.parallelism

/-- The lists keep their bounds, and whenever there is a job to dispatch there is a
notification, or somebody who has to send one, or the dispatcher is at it. -/
structure Awake (n : ℕ) (q : Queue) (alert : ℕ → Bool) : Prop where
  bounded : q.Bounded n
  due : Due q → 0 < q.notified ∨ ∃ t, alert t = true

section

variable {n : ℕ} {q q' : Queue} {alert : ℕ → Bool} {t : ℕ}

section

variable (h : Awake n q alert) {a : Act β} {x : Bool} {b : β}
include h

/-- An action after which somebody is alert, or there is nothing new to dispatch. -/
theorem Awake.step (hb : q'.Bounded n) (hdue : g ∨ 0 < q'.notified ∨ ¬ Due q' ∨
      (Due q' → Due q) ∧ q'.notified = q.notified ∧ g = alert t) :
    Awake n q' (update alert t g) := by
  refine ⟨hb,?_⟩
  intro hd
  obtain rfl | hn | hno | ⟨hback,hn,rfl⟩ := hdue
  · exact .inr ⟨t,by simp⟩
  · exact .inl hn
  · exact (hno hd).elim
  · rw [hn,update_eq_self]
    exact h.due (hback hd)

theorem Awake.still (hb : q'.Bounded n) (hp : q'.pending = q.pending) (hf : q'.inFlight = q.inFlight)
    (hn : q'.notified = q.notified) (hg : g = alert t) : Awake n q' (update alert t g) := by
  refine h.step hb (.inr (.inr (.inr ⟨?_,hn,hg⟩)))
  rintro ⟨hne,hlt⟩
  rw [hf,hb.parallelism,← h.bounded.parallelism] at hlt
  exact ⟨hp ▸ hne,hlt⟩

theorem Awake.dispatch (req : Req) :
    Awake n q.dispatch.2 (update alert t (after req (alert t) (.queue .dispatch) q.dispatch.1)) := by
  have hb : q.dispatch.2.Bounded n := h.bounded.atomically .dispatch
  rcases hd : q.dispatch with ⟨_ | job,q'⟩
  · obtain rfl := dispatch_none q hd
    refine h.step h.bounded (.inr (.inr (.inl ?_)))
    rintro ⟨hne,hlt⟩
    obtain ⟨job,rest,hp⟩ := exists_cons_of_ne_nil hne
    have hp : q'.pending = job::rest := hp
    simp [Queue.dispatch,hp,Nat.not_le.mpr hlt] at hd
  · have hroom : q.inFlight.length < q.parallelism := by
      by_contra hfull
      simp [Queue.dispatch,Nat.not_lt.mp hfull] at hd
    rw [hd] at hb
    obtain ⟨rest,hp,rfl⟩ := dispatch_some q hd
    refine h.step hb (.inr (.inr (.inr ⟨?_,rfl,rfl⟩)))
    intro _
    exact ⟨by simp [hp],hroom⟩

theorem Awake.cancelPending (id : ℕ) : Awake n (q.cancelPending id).2 (update alert t (alert t)) := by
  have hb : (q.cancelPending id).2.Bounded n := h.bounded.atomically (.cancelPending id)
  revert hb
  unfold Queue.cancelPending
  split
  · rename_i job hf
    intro hb
    refine h.step hb (.inr (.inr (.inr ⟨?_,rfl,rfl⟩)))
    rintro ⟨-,hlt⟩
    exact ⟨ne_nil_of_mem (mem_of_find?_eq_some hf),hlt⟩
  · intro hb
    exact h.still hb rfl rfl rfl rfl

theorem Awake.requeueFailed (mine : Job → Bool) : Awake n (q.requeueFailed mine).2
      (update alert t (alert t || decide (0 < (q.requeueFailed mine).1))) := by
  have hb : (q.requeueFailed mine).2.Bounded n := h.bounded.atomically (.requeueFailed mine)
  by_cases hcount : 0 < (q.requeueFailed mine).1
  · refine h.step hb (.inl ?_)
    simp [hcount]
  have hnone : (Queue.requeue mine q.completed q.cells).2.1 = [] :=
    length_eq_zero_iff.mp (Nat.eq_zero_of_not_pos hcount)
  refine h.still hb ?_ rfl rfl (by simp [hcount])
  simp [Queue.requeueFailed,hnone]

theorem Awake.queue (req : Req) (a : JobQueue.Act β) : Awake n (atomically q a).2
      (update alert t (after req (alert t) (.queue a) (atomically q a).1)) := by
  have hb := h.bounded.atomically a
  cases a with
  | nextId | snapshot | findPending id | findInFlight id | findCompleted id | store cell f | pushCompleted job =>
    exact h.still hb rfl rfl rfl rfl
  | pushPending job | retainInFlight id => exact h.step hb (.inl rfl)
  | notify => exact h.step hb (.inr (.inl (Nat.succ_pos _)))
  | dispatch => exact h.dispatch req
  | cancelPending id => exact h.cancelPending id
  | takeRetryable id =>
    show Awake n (q.takeRetryable id).2 (update alert t (alert t))
    change (q.takeRetryable id).2.Bounded n at hb
    rcases ht : q.takeRetryable id with ⟨_ | job,q'⟩
    · rw [takeRetryable_none q ht]
      exact h.still h.bounded rfl rfl rfl rfl
    · rw [ht] at hb
      obtain ⟨p,-,rfl⟩ := takeRetryable_some q ht
      exact h.still hb rfl rfl rfl rfl
  | requeueFailed mine => exact h.requeueFailed mine

theorem Awake.run (req : Req) (hs : run x q a = some (b,q')) : Awake n q' (update alert t (after req (alert t) a b)) := by
  cases a with
  | queue a =>
    have he := Option.some.inj hs
    obtain rfl : (atomically q a).1 = b := congrArg Prod.fst he
    obtain rfl : (atomically q a).2 = q' := congrArg Prod.snd he
    exact h.queue req a
  | recv =>
    simp only [Wakeups.run] at hs
    split_ifs at hs
    cases hs
    exact h.step ⟨h.bounded.parallelism,h.bounded.inFlight,h.bounded.completed⟩ (.inl rfl)
  | connected device =>
    cases hs
    exact h.still h.bounded rfl rfl rfl rfl
  | stuck => exact b.elim

end

end

def opening (parallelism : ℕ) : Watched Act Queue Req Reply (ℕ → Bool) :=
  ⟨⟨.new parallelism,fun _ => none⟩,fun _ => false⟩

structure Attended (n : ℕ) (w : Watched Act Queue Req Reply (ℕ → Bool)) : Prop where
  abides : Abides id anything Next Done false w
  awake : Awake n w.config.shared w.notes

theorem attended_opening (parallelism : ℕ) : Attended parallelism (opening parallelism) where
  abides := ⟨by simp [opening],fun _ _ => rfl⟩
  awake := ⟨⟨rfl,Nat.zero_le _,Nat.zero_le _⟩,fun hd => (hd.1 rfl).elim⟩

theorem watch_attended (n : ℕ) (w : Watched Act Queue Req Reply (ℕ → Bool)) (e : Event Bool Req)
    (w' : Watched Act Queue Req Reply (ℕ → Bool)) (hw : Attended n w)
    (h : watch service onlooker w e = some w') : Attended n w' := by
  have hwatches := watch_watches h
  constructor
  · refine hw.abides.watches (fun q _ _ _ => obeys_handler q)
      (fun _ _ _ hidle => (update_eq_self_iff.mpr hidle.symm).symm) ?_ (fun _ _ _ _ => rfl) ?_ hwatches
    · intro t q β a x s b n t' htt
      exact update_of_ne htt _ _
    · intro t x q β a k b s _ ht hs
      simp [Next,onlooker]
  · cases hwatches with
    | start hfree hs =>
      cases hs
      exact hw.awake
    | act ht hs => exact hw.awake.run _ hs
    | @reply t q r ht =>
      have hdone : w.notes t = false := hw.abides.busy t q _ ht
      exact hw.awake.still hw.awake.bounded rfl rfl rfl hdone.symm

/-- In every run, `in_flight` and `completed` keep their bounds; and when no caller is in the
middle of an operation and there is a job to dispatch, a notification is queued or the
dispatcher is in its inner loop. -/
theorem no_wakeup_lost (parallelism : ℕ) (es : List (Event Bool Req)) (w : Watched Act Queue Req Reply (ℕ → Bool))
    (h : exec (watch service onlooker) (opening parallelism) es = some w) :
    w.config.shared.inFlight.length ≤ parallelism ∧
    w.config.shared.completed.length ≤ MAX_COMPLETED ∧
    ((∀ t q p, w.config.threads t ≠ some (.call q,p)) → w.config.shared.pending ≠ [] →
      w.config.shared.inFlight.length < parallelism →
      0 < w.config.shared.notified ∨ ∃ t rounds p, w.config.threads t = some (.loop rounds,p) ∧ w.notes t = true) := by
  have hw : Attended parallelism w := exec_invariant (watch_attended parallelism) (attended_opening parallelism) h
  have hfixed := hw.awake.bounded.parallelism
  refine ⟨hw.awake.bounded.inFlight,hw.awake.bounded.completed,?_⟩
  intro hquiet hne hlt
  obtain hn | ⟨t,ht⟩ := hw.awake.due ⟨hne,hfixed.symm ▸ hlt⟩
  · exact .inl hn
  right
  cases hth : w.config.threads t with
  | none =>
    have hfalse : w.notes t = false := hw.abides.free t hth
    cases hfalse.symm.trans ht
  | some th =>
    obtain ⟨req,p⟩ := th
    cases req with
    | call q => exact (hquiet t q p hth).elim
    | loop rounds => exact ⟨t,rounds,p,hth,ht⟩

/-- A job is submitted, and the dispatcher has received the notification. -/
def submitAndReceive : List (Event Bool Req) :=
  Event.start 0 (Req.loop 1)::Event.start 1 (Req.call (Req.submit ⟨0,none,0⟩))::(List.replicate 3 (Event.act 1 true)++
    Event.reply 1::[Event.act 0 true])

theorem no_wakeup_lost_received : ∃ w, exec (watch service onlooker) (opening 1) submitAndReceive = some w ∧
      w.config.shared.pending = [⟨1,none,0⟩] ∧ w.config.shared.notified = 0 ∧
      w.config.shared.inFlight.length ≤ 1 ∧
      ∃ t rounds p, w.config.threads t = some (.loop rounds,p) ∧ w.notes t = true := by
  obtain ⟨w,hw⟩ : ∃ w, exec (watch service onlooker) (opening 1) submitAndReceive = some w := ⟨_,rfl⟩
  obtain ⟨hin,-,hdue⟩ := no_wakeup_lost 1 submitAndReceive w hw
  have hquiet : ∀ t q p, w.config.threads t ≠ some (.call q,p) := by
    cases hw
    rintro (_ | _ | t) q p ht <;> cases ht
  cases hw
  exact ⟨_,rfl,rfl,rfl,hin,(hdue hquiet (List.cons_ne_nil _ _) Nat.zero_lt_one).resolve_left (lt_irrefl 0)⟩

end AdbShare.Wakeups

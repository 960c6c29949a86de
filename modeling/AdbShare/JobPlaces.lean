import AdbShare.Custody
import AdbShare.JobQueue
import AdbShare.Onlooker

/-! Where a job is. Its id is in one of the three lists or in the hands of one thread that
has taken it out of one list and has yet to put it into another. -/
namespace AdbShare.JobPlaces

open JobQueue Service Transition Prog Function List Queue

def ids (l : List Job) : List ℕ := l.map Job.id

@[simp] theorem ids_append (l l' : List Job) : ids (l++l') = ids l++ids l' := map_append

@[simp] theorem ids_cons (job : Job) (l : List Job) : ids (job::l) = job.id::ids l := rfl

@[simp] theorem ids_nil : ids [] = [] := rfl

theorem ids_snapshot (q : Queue) : ids q.snapshot = ids q.pending++(ids q.inFlight++ids q.completed) := by
  simp [snapshot]

variable {i id : ℕ} {job : Job} {q' : Queue} {β : Type}

section

variable {l : List Job}

theorem perm_of_retain (hnd : (ids l).Nodup) (hi : i ∈ ids l) : (ids l).Perm (i::ids (l.filter fun j => j.id ≠ i)) := by
  have hfilter : ids (l.filter fun j => j.id ≠ i) = (ids l).erase i := by
    rw [hnd.erase_eq_filter]
    simp only [ids,filter_map,Function.comp_def]
    congr 1
    apply filter_congr
    intro j _
    by_cases hj : j.id = i <;> simp [hj]
  rw [hfilter]
  exact perm_cons_erase hi

/-- The ids that `trim_completed` drops. -/
def dropped (l : List Job) : List ℕ := ids (l.take (l.length-MAX_COMPLETED))

theorem dropped_append_trim (l : List Job) : dropped l++ids (trimCompleted l) = ids l := by
  rw [dropped,trimCompleted_eq,← ids_append,take_append_drop]

theorem not_mem_ids_of_find (h : (l.find? fun j => j.id = i) = none) : i ∉ ids l := by
  intro hi
  obtain ⟨job,hjob,rfl⟩ := mem_map.mp hi
  have := find?_eq_none.mp h job hjob
  simp at this

theorem find_of_mem_ids (h : i ∈ ids l) : ∃ job, (l.find? fun j => j.id = i) = some job ∧ job.id = i := by
  cases hf : l.find? fun j => decide (j.id = i) with
  | some job => exact ⟨job,rfl,by simpa using find?_some hf⟩
  | none => exact absurd h (not_mem_ids_of_find hf)

end

section

variable (q : Queue)

theorem perm_pushPending (job : Job) :
    (ids { q with pending := q.pending++[job] }.snapshot).Perm (job.id::ids q.snapshot) := by
  apply perm_iff_count.mpr
  intro i
  simp only [ids_snapshot,ids_append,ids_cons,ids_nil,count_append,count_cons,count_nil]
  omega

theorem perm_pushCompleted (job : Job) : (dropped (q.completed++[job])++ids (q.pushCompleted job).snapshot).Perm
      (job.id::ids q.snapshot) := by
  have htrim := fun i => congrArg (List.count i) (dropped_append_trim (q.completed++[job]))
  apply perm_iff_count.mpr
  intro i
  have hi := htrim i
  simp only [ids_append,ids_cons,ids_nil,count_append,count_cons,count_nil] at hi
  simp only [ids_snapshot,pushCompleted,count_append,count_cons]
  omega

/-- A pending job that is cancelled goes to the history. -/
theorem perm_cancelPending (hf : (q.pending.find? fun j => j.id = id) = some job) :
    (dropped (q.completed++[job])++ids (q.cancelPending id).2.snapshot).Perm (ids q.snapshot) := by
  have hjob := fun i => ((perm_of_find hf).map Job.id).count_eq i
  apply perm_iff_count.mpr
  intro i
  have hi := hjob i
  have hpush := (perm_pushCompleted ({ q with
    pending := q.pending.eraseP fun j => j.id = id }.store job.cell cancelCell) job).count_eq i
  simp only [cancelPending,hf]
  simp only [map_cons,count_cons,count_append,ids_snapshot,store] at hi hpush ⊢
  simp only [ids] at hi hpush ⊢
  omega

theorem cancelPending_none (hf : (q.pending.find? fun j => j.id = id) = none) : (q.cancelPending id).2 = q := by
  simp [cancelPending,hf]

theorem cancelPending_found (hf : (q.pending.find? fun j => j.id = id) = some job) :
    (q.cancelPending id).2.pending = (q.pending.eraseP fun j => j.id = id) ∧
      (q.cancelPending id).2.inFlight = q.inFlight ∧ (q.cancelPending id).2.nextId = q.nextId := by
  simp [cancelPending,hf,pushCompleted,store]

theorem perm_takeRetryable (h : q.takeRetryable id = (some job,q')) :
    (ids q.snapshot).Perm (job.id::ids q'.snapshot) ∧ q'.pending = q.pending ∧
      q'.inFlight = q.inFlight ∧ q'.nextId = q.nextId := by
  obtain ⟨p,hf,rfl⟩ := takeRetryable_some q h
  refine ⟨?_,rfl,rfl,rfl⟩
  have hjob := fun i => ((perm_of_find hf).map Job.id).count_eq i
  apply perm_iff_count.mpr
  intro i
  have hi := hjob i
  simp only [map_cons,count_cons,count_append,ids_snapshot] at hi ⊢
  simp only [ids] at hi ⊢
  omega

theorem perm_requeueFailed (mine : Job → Bool) : (ids (q.requeueFailed mine).2.snapshot).Perm (ids q.snapshot) := by
  have hmoved := fun i => ((perm_of_requeue mine q.completed q.cells).map Job.id).count_eq i
  apply perm_iff_count.mpr
  intro i
  have hi := hmoved i
  simp only [requeueFailed,ids_snapshot,ids_append,map_append,count_append] at hi ⊢
  simp only [ids] at hi ⊢
  omega

theorem perm_retainInFlight (hnd : (ids q.snapshot).Nodup) (hi : i ∈ ids q.inFlight) : (ids q.snapshot).Perm
      (i::ids { q with inFlight := q.inFlight.filter fun j => j.id ≠ i }.snapshot) := by
  have hfl : (ids q.inFlight).Nodup := by
    rw [ids_snapshot] at hnd
    exact hnd.of_append_right.of_append_left
  have hperm := perm_of_retain hfl hi
  apply perm_iff_count.mpr
  intro j
  have hj := hperm.count_eq j
  simp only [ids_snapshot,count_append,count_cons] at hj ⊢
  omega

end

/-- What is noted about a thread. -/
structure Hands where
  /-- The id it has drawn from the counter, or has taken out of one list, and has yet to put
  into another. -/
  hand : Option ℕ
  /-- The id that was dispatched to it, or that it is to mark as done. -/
  duty : Option ℕ
  /-- The id it has not found in `pending`, and whether it has not found it in `in_flight`
  either. -/
  looked : Option (ℕ × Bool)

def idle : Hands := ⟨none,none,none⟩

def Hands.after (h : Hands) : (β : Type) → Act β → β → Hands
  | _, .nextId, id => { h with hand := some id }
  | _, .pushPending _, _ | _, .pushCompleted _, _ => { h with hand := none }
  | _, .retainInFlight id, _ => { h with hand := some id, duty := none }
  | _, .takeRetryable _, some job => { h with hand := some job.id }
  | _, .dispatch, some job => { h with duty := some job.id }
  | _, .findPending id, none => { h with looked := some (id,false) }
  | _, .findInFlight id, none => { h with looked := some (id,true) }
  | _, _, _ => h

/-- The ids an action puts into `pending`. -/
def queued (q : Queue) : {β : Type} → Act β → List ℕ
  | _, .pushPending job => [job.id]
  | _, .requeueFailed mine => ids (Queue.requeue mine q.completed q.cells).2.1
  | _, _ => []

/-- The ids an action drops from the history. -/
def forgotten (q : Queue) : {β : Type} → Act β → List ℕ
  | _, .pushCompleted job => dropped (q.completed++[job])
  | _, .cancelPending id =>
    match q.pending.find? fun j => j.id = id with
    | some job => dropped (q.completed++[job])
    | none => []
  | _, _ => []

structure Record where
  hands : ℕ → Hands
  /-- The ids that were pushed and that `trim_completed` has not dropped. -/
  live : Set ℕ
  /-- The ids that were put into `pending` since the thread's request started. -/
  since : ℕ → Set ℕ

def Record.act (r : Record) (t : ℕ) (q : Queue) {β : Type} (a : Act β) (b : β) : Record where
  hands := update r.hands t ((r.hands t).after β a b)
  live := (r.live ∪ {i | i ∈ queued q a}) \ {i | i ∈ forgotten q a}
  since := fun t' => r.since t' ∪ {i | i ∈ queued q a}

/-- What a request begins with. -/
def init : Req → Hands
  | .markDone job => { idle with duty := some job.id }
  | _ => idle

def onlooker : Onlooker Act Engine Unit Req Reply Record where
  start := fun t q r =>
    { r with hands := update r.hands t (init q), since := update r.since t ∅ }
  act := fun t _ _ a _ s b r => r.act t s.queue a b
  reply := fun t _ _ r => { r with hands := update r.hands t idle }

/-- An action finds the thread's hands as it should. -/
def Ready (h : Hands) : (β : Type) → Act β → Prop
  | _, .nextId | _, .takeRetryable _ => h.hand = none
  | _, .pushPending job | _, .pushCompleted job => h.hand = some job.id
  | _, .retainInFlight id => h.hand = none ∧ h.duty = some id
  | _, .dispatch => h.duty = none
  | _, .findInFlight id => h.looked = some (id,false)
  | _, .findCompleted id => h.looked = some (id,true)
  | _, _ => True

def Next (_ : Req) (h : Hands) (β : Type) (a : Act β) (b : β) (h' : Hands) : Prop := h' = h.after β a b

/-- The id a reply hands over to the caller. -/
def handedOver : Reply → Option ℕ
  | .dispatched (some job) => some job.id
  | _ => none

def Done (h : Hands) (r : Reply) : Prop := h.hand = none ∧ h.duty = handedOver r

section

variable {q : Req} {h : Hands} {a : Act β} {r : Reply} {cell : ℕ} {f : Option Job → Prog Act Reply}
  {fs : List (Cell → Cell)}

theorem obeys_act {f : β → Prog Act Reply} (hr : Ready h β a)
    (hf : ∀ b, (f b).Obeys Ready (Next q) Done (h.after β a b)) : (perform a >>= f).Obeys Ready (Next q) Done h := by
  refine ⟨hr,?_⟩
  rintro b _ rfl
  exact hf b

theorem obeys_ret (hh : h.hand = none) (hd : h.duty = handedOver r) :
    (Prog.ret r : Prog Act Reply).Obeys Ready (Next q) Done h := ⟨hh,hd⟩

/-- A search leaves the hands alone. -/
theorem obeys_find (hf : ∀ job looked, (f job).Obeys Ready (Next q) Done { h with looked := looked }) :
    (find id >>= f).Obeys Ready (Next q) Done h := by
  refine obeys_act trivial fun found => ?_
  cases found with
  | some job => exact hf (some job) h.looked
  | none =>
    refine obeys_act rfl fun found => ?_
    cases found with
    | some job => exact hf (some job) _
    | none => exact obeys_act rfl fun found => hf found _

theorem obeys_storeAll {f : Unit → Prog Act Reply} (hf : (f ()).Obeys Ready (Next q) Done h) :
    (storeAll cell fs >>= f).Obeys Ready (Next q) Done h := by
  induction fs with
  | nil => exact hf
  | cons g fs ih => exact obeys_act trivial fun _ => ih

theorem obeys_retryWhere (mine : Job → Bool) : (retryWhere mine).Obeys Ready (Next q) Done idle := by
  refine obeys_act trivial fun count => ?_
  split
  · exact obeys_act trivial fun _ => obeys_ret rfl rfl
  · exact obeys_ret rfl rfl

/-- Every method puts back what it takes. -/
theorem obeys_handler (q : Req) (s s' : Engine) (hq : service.arrive q s = some s') :
    (handler q).Obeys Ready (Next q) Done (init q) := by
  cases q with
  | submit job =>
    have hid : job.id = 0 := by
      by_contra hne
      simp [service,hne] at hq
    show (newId job >>= fun id => _).Obeys Ready (Next _) Done idle
    rw [newId,if_pos hid]
    exact obeys_act rfl fun id => obeys_act rfl fun _ => obeys_act trivial fun _ => obeys_ret rfl rfl
  | markDone job =>
    exact obeys_act ⟨rfl,rfl⟩ fun _ => obeys_act rfl fun _ => obeys_act trivial fun _ => obeys_ret rfl rfl
  | jobsSnapshot | store cell f => exact obeys_act trivial fun _ => obeys_ret rfl rfl
  | tryDispatch =>
    refine obeys_act rfl fun job => ?_
    cases job <;> exact obeys_ret rfl rfl
  | find id => exact obeys_find fun job looked => obeys_ret rfl rfl
  | cancelJob id =>
    refine obeys_act trivial fun b => ?_
    split
    · exact obeys_ret rfl rfl
    refine obeys_find fun job looked => ?_
    cases job with
    | some job => exact obeys_act trivial fun _ => obeys_ret rfl rfl
    | none => exact obeys_ret rfl rfl
  | retryJob id =>
    refine obeys_act rfl fun job => ?_
    cases job with
    | none => exact obeys_ret rfl rfl
    | some job => exact obeys_storeAll (obeys_act rfl fun _ => obeys_act trivial fun _ => obeys_ret rfl rfl)
  | retryFailed => exact obeys_retryWhere _
  | retryFailedFor serial =>
    show (retryFailedFor serial).Obeys Ready (Next _) Done idle
    unfold retryFailedFor
    split
    · exact obeys_ret rfl rfl
    · exact obeys_retryWhere _

end

namespace Record

def hand (r : Record) (t : ℕ) : Option ℕ := (r.hands t).hand

def duty (r : Record) (t : ℕ) : Option ℕ := (r.hands t).duty

variable (r : Record) (t : ℕ) (q : Queue) (a : Act β) (b : β) {running : List ℕ}
  {w w' : Watched Act Engine Req Reply Record} {es : List (Event Unit Req)} {e : Event Unit Req} {q : Queue}
  {r : Record}

theorem hand_act : (r.act t q a b).hand = update r.hand t ((r.hands t).after β a b).hand :=
  comp_update Hands.hand r.hands t _

theorem duty_act : (r.act t q a b).duty = update r.duty t ((r.hands t).after β a b).duty :=
  comp_update Hands.duty r.hands t _

end Record

/-- Every id in use is in one list or in one hand; what is in flight is somebody's duty; who
has looked for an id in vain may rely on it not coming back unnoticed. -/
structure Places (q : Queue) (running : List ℕ) (r : Record) : Prop where
  places : Custody (ids q.snapshot) q.nextId r.hand
  duties : Custody running q.nextId r.duty
  flying : ∀ i, (i ∈ running ∨ ∃ t, r.duty t = some i) → i ∈ ids q.inFlight
  alive : ∀ i ∈ r.live, i ∈ ids q.snapshot ∨ ∃ t, r.hand t = some i
  looked : ∀ t i b, (r.hands t).looked = some (i,b) → i ∉ r.since t →
    i ∉ ids q.pending ∧ (b = true → i ∉ ids q.inFlight)

section

variable {q : Queue} {r : Record} {t : ℕ} {a : Act β} {b : β} {since : ℕ → Set ℕ} {s s' : Engine} {req : Req}
  {rep : Reply}

/-- What an action does to the ids outside `in_flight`. -/
structure Moves (q q' : Queue) (r : Record) (t : ℕ) {β : Type} (a : Act β) (b : β) : Prop where
  places : Custody (ids q'.snapshot) q'.nextId (update r.hand t ((r.hands t).after β a b).hand)
  kept : ∀ i, i ∈ ids q.snapshot ∨ r.hand t = some i ∨ i ∈ queued q a →
    i ∈ ids q'.snapshot ∨ ((r.hands t).after β a b).hand = some i ∨ i ∈ forgotten q a
  pending : ∀ i ∈ ids q'.pending, i ∈ ids q.pending ∨ i ∈ queued q a

section

variable (h : Places q running r) {pool running' : List ℕ} {n : ℕ} {c : Bool} {hands : Hands}
include h

section

variable (hm : Moves q q' r t a b) {t' : ℕ}
include hm

/-- Who has looked for an id in vain may go on relying on it. -/
theorem Places.looked_on (hinFlight : ∀ i ∈ ids q'.inFlight, i ∈ ids q.inFlight ∨ i ∈ ids q.pending)
    (hl : (r.hands t').looked = some (i,c)) (hold : i ∉ r.since t') (hnew : i ∉ queued q a) :
    i ∉ ids q'.pending ∧ (c → i ∉ ids q'.inFlight) := by
  obtain ⟨hp,hf⟩ := h.looked t' i c hl hold
  constructor
  · intro hi
    exact (hm.pending i hi).elim hp hnew
  · intro hc hi
    exact (hinFlight i hi).elim (hf hc) hp

section

variable (hduties : Custody running q'.nextId (update r.duty t ((r.hands t).after β a b).duty))
  (hflying : ∀ i, (i ∈ running ∨ ∃ t', update r.duty t ((r.hands t).after β a b).duty t' = some i) → i ∈ ids q'.inFlight)
include hduties hflying

theorem Places.step (hlooked : ∀ i c, ((r.hands t).after β a b).looked = some (i,c) → i ∉ r.since t → i ∉ queued q a →
      i ∉ ids q'.pending ∧ (c → i ∉ ids q'.inFlight))
    (hinFlight : ∀ i ∈ ids q'.inFlight, i ∈ ids q.inFlight ∨ i ∈ ids q.pending) :
    Places q' running (r.act t q a b) where
  places := by
    rw [Record.hand_act]
    exact hm.places
  duties := by rwa [Record.duty_act]
  flying := by rwa [Record.duty_act]
  alive := by
    rintro i ⟨hi,hforgotten⟩
    rw [Record.hand_act]
    have hkeep : i ∈ ids q.snapshot ∨ r.hand t = some i ∨ i ∈ queued q a → i ∈ ids q'.snapshot ∨
          ∃ t', update r.hand t ((r.hands t).after β a b).hand t' = some i := by
      intro hi
      rcases hm.kept i hi with hi | hi | hi
      · exact .inl hi
      · exact .inr ⟨t,by simpa using hi⟩
      · exact (hforgotten hi).elim
    obtain hi | hi := hi
    · obtain hi | ⟨t',ht'⟩ := h.alive i hi
      · exact hkeep (.inl hi)
      by_cases htt : t' = t
      · subst htt
        exact hkeep (.inr (.inl ht'))
      · exact .inr ⟨t',by simpa [htt] using ht'⟩
    · exact hkeep (.inr (.inr hi))
  looked := by
    intro t' i c hl hsince
    obtain ⟨hold,hnew⟩ := not_or.mp hsince
    by_cases htt : t' = t
    · subst htt
      exact hlooked i c (by simpa [Record.act] using hl) hold hnew
    · exact h.looked_on hm hinFlight (by simpa [Record.act,htt] using hl) hold hnew

theorem Places.step_blind (hlook : ((r.hands t).after β a b).looked = (r.hands t).looked)
    (hinFlight : ∀ i ∈ ids q'.inFlight, i ∈ ids q.inFlight ∨ i ∈ ids q.pending) :
    Places q' running (r.act t q a b) := by
  refine h.step hm hduties hflying ?_ hinFlight
  intro i c hl
  exact h.looked_on hm hinFlight (hlook ▸ hl)

end

theorem Places.step_ground (hfl : q'.inFlight = q.inFlight) (hnext : q.nextId ≤ q'.nextId)
    (hduty : ((r.hands t).after β a b).duty = r.duty t)
    (hlook : ((r.hands t).after β a b).looked = (r.hands t).looked) :
    Places q' running (r.act t q a b) := by
  have hsame : update r.duty t ((r.hands t).after β a b).duty = r.duty := by
    rw [hduty,update_eq_self]
  refine h.step_blind hm ?_ ?_ hlook ?_
  · rw [hsame]
    exact h.duties.widen hnext
  · rw [hsame,hfl]
    exact h.flying
  · intro i hi
    exact .inl (hfl ▸ hi)

end

omit h in
theorem stay (h : Custody pool n r.hand) : Custody pool n (update r.hand t (r.hands t).hand) := by
  have hself : update r.hand t (r.hands t).hand = r.hand := update_eq_self t r.hand
  rwa [hself]

theorem Places.step_still (hp : q'.pending = q.pending)
    (hfl : q'.inFlight = q.inFlight) (hc : q'.completed = q.completed) (hn : q'.nextId = q.nextId)
    (hh : (r.hands t).after β a b = r.hands t) (hq : queued q a = []) :
    Places q' running (r.act t q a b) := by
  have hids : ids q'.snapshot = ids q.snapshot := by simp only [ids_snapshot,hp,hfl,hc]
  refine h.step_ground ⟨?_,?_,?_⟩ hfl hn.ge ?_ ?_
  · rw [hh,hids,hn]
    exact stay h.places
  · rintro i (hi | hi | hi)
    · exact .inl (hids ▸ hi)
    · exact .inr (.inl (by rw [hh]; exact hi))
    · simp [hq] at hi
  · intro i hi
    exact .inl (hp ▸ hi)
  · rw [hh]
    rfl
  · rw [hh]

theorem Places.nextId (hh : r.hand t = none) (hn : q.nextId < 2^64) :
    Places { q with nextId := q.nextId+1 } running (r.act t q .nextId (q.nextId%2^64)) := by
  refine h.step_ground ⟨?_,?_,fun _ => .inl⟩ rfl (Nat.le_succ _) rfl rfl
  · rw [Nat.mod_eq_of_lt hn]
    exact h.places.mint t
  · rintro i (hi | hi | hi)
    · exact .inl hi
    · cases hh.symm.trans hi
    · cases hi

theorem Places.pushPending (hh : r.hand t = some job.id) :
    Places { q with pending := q.pending++[job] } running (r.act t q (.pushPending job) ()) := by
  have hperm := perm_pushPending q job
  refine h.step_ground ⟨(h.places.put hh).perm hperm.symm,?_,?_⟩ rfl le_rfl rfl rfl
  · intro i hi
    refine .inl (hperm.mem_iff.mpr ?_)
    obtain hi | hi | hi := hi
    · exact mem_cons_of_mem _ hi
    · exact mem_cons.mpr (.inl (Option.some.inj (hi.symm.trans hh)))
    · exact mem_cons.mpr (.inl (mem_singleton.mp hi))
  · intro i hi
    simpa [queued] using hi

theorem Places.pushCompleted (hh : r.hand t = some job.id) :
    Places (q.pushCompleted job) running (r.act t q (.pushCompleted job) ()) := by
  have hperm := perm_pushCompleted q job
  have hput := (h.places.put hh).perm hperm.symm
  refine h.step_ground ⟨?_,?_,fun _ => .inl⟩ rfl le_rfl rfl rfl
  · exact hput.shrink hput.pool_nodup.of_append_right fun i hi => mem_append_right _ hi
  intro i hi
  have hmem : i ∈ dropped (q.completed++[job])++ids (q.pushCompleted job).snapshot := by
    refine hperm.mem_iff.mpr ?_
    rcases hi with hi | hi | hi
    · exact mem_cons_of_mem _ hi
    · exact mem_cons.mpr (.inl (Option.some.inj (hi.symm.trans hh)))
    · cases hi
  obtain hi | hi := mem_append.mp hmem
  · exact .inr (.inr hi)
  · exact .inl hi

theorem Places.takeRetryable (hh : r.hand t = none) (ht : q.takeRetryable id = (some job,q')) :
    Places q' running (r.act t q (.takeRetryable id) (some job)) := by
  obtain ⟨hperm,hp,hfl,hn⟩ := perm_takeRetryable q ht
  refine h.step_ground ⟨?_,?_,fun i hi => .inl (hp ▸ hi)⟩ hfl hn.ge rfl rfl
  · rw [hn]
    exact h.places.draw t hperm
  rintro i (hi | hi | hi)
  · obtain rfl | hi := mem_cons.mp (hperm.mem_iff.mp hi)
    · exact .inr (.inl rfl)
    · exact .inl hi
  · cases hh.symm.trans hi
  · cases hi

theorem Places.requeueFailed (mine : Job → Bool) : Places (q.requeueFailed mine).2 running
      (r.act t q (.requeueFailed mine) (q.requeueFailed mine).1) := by
  have hperm := perm_requeueFailed q mine
  refine h.step_ground ⟨stay (h.places.perm hperm.symm),?_,?_⟩ rfl le_rfl rfl rfl
  · rintro i (hi | hi | hi)
    · exact .inl (hperm.mem_iff.mpr hi)
    · exact .inr (.inl hi)
    have hmoved : i ∈ ids (q.pending++(Queue.requeue mine q.completed q.cells).2.1) := by
      rw [ids_append]
      exact mem_append_right _ hi
    refine .inl ?_
    rw [ids_snapshot]
    exact mem_append_left _ hmoved
  · intro i hi
    simpa [Queue.requeueFailed,queued] using hi

theorem Places.cancelPending (hf : (q.pending.find? fun j => j.id = id) = some job) :
    Places (q.cancelPending id).2 running (r.act t q (.cancelPending id) true) := by
  have hperm := perm_cancelPending q hf
  have hplaces := h.places.perm hperm.symm
  have hforgotten : forgotten q (.cancelPending id) = dropped (q.completed++[job]) := by
    simp [forgotten,hf]
  obtain ⟨hp,hfl,hn⟩ := cancelPending_found q hf
  refine h.step_ground ⟨?_,?_,?_⟩ hfl hn.ge rfl rfl
  · rw [hn]
    exact stay (hplaces.shrink hplaces.pool_nodup.of_append_right fun i hi => mem_append_right _ hi)
  · rintro i (hi | hi | hi)
    · obtain hi | hi := mem_append.mp (hperm.mem_iff.mpr hi)
      · exact .inr (.inr (hforgotten ▸ hi))
      · exact .inl hi
    · exact .inr (.inl hi)
    · cases hi
  · intro i hi
    rw [hp] at hi
    exact .inl (((perm_of_find hf).map Job.id).mem_iff.mpr (mem_cons_of_mem _ hi))

theorem Places.not_inFlight (hd : q.dispatch = (some job,q')) : job.id ∉ ids q.inFlight := by
  obtain ⟨rest,hp,rfl⟩ := dispatch_some q hd
  have hnd := h.places.pool_nodup
  rw [ids_snapshot,hp] at hnd
  intro hmem
  exact (nodup_append.mp hnd).2.2 job.id mem_cons_self job.id (mem_append_left _ hmem) rfl

theorem Places.dispatch (hd : r.duty t = none)
    (hdis : q.dispatch = (some job,q')) : Places q' running (r.act t q .dispatch (some job)) := by
  have hnot := h.not_inFlight hdis
  obtain ⟨rest,hp,rfl⟩ := dispatch_some q hdis
  have hperm : (ids { q with pending := rest, inFlight := q.inFlight++[job] }.snapshot).Perm (ids q.snapshot) := by
    apply perm_iff_count.mpr
    intro i
    simp only [ids_snapshot,hp,ids_append,ids_cons,ids_nil,count_append,count_cons, count_nil]
    omega
  have hmem : job.id ∈ ids q.pending := by simp [hp]
  have hold : job.id < q.nextId := h.places.pool_old job.id (by
    rw [ids_snapshot]
    exact mem_append_left _ hmem)
  refine h.step_blind ⟨stay (h.places.perm hperm.symm),?_,?_⟩ ?_ ?_ rfl ?_
  · rintro i (hi | hi | hi)
    · exact .inl (hperm.mem_iff.mpr hi)
    · exact .inr (.inl hi)
    · cases hi
  · intro i hi
    exact .inl (by rw [hp]; exact mem_cons_of_mem _ hi)
  · exact h.duties.update_some t hold (fun hi => hnot (h.flying _ (.inl hi))) fun u hu =>
      (hnot (h.flying _ (.inr ⟨u,hu⟩))).elim
  · intro i hi
    rw [ids_append]
    rcases hi with hi | ⟨u,hu⟩
    · exact mem_append_left _ (h.flying i (.inl hi))
    by_cases hut : u = t
    · subst hut
      obtain rfl : job.id = i := by simpa [Hands.after] using hu
      exact mem_append_right _ mem_cons_self
    · exact mem_append_left _ (h.flying i (.inr ⟨u,by simpa [hut] using hu⟩))
  · intro i hi
    rcases mem_append.mp (ids_append _ _ ▸ hi) with hi | hi
    · exact .inl hi
    · obtain rfl : i = job.id := mem_singleton.mp hi
      exact .inr hmem

/-- The first section of `mark_done`: the job passes from the list into the thread's hand. -/
theorem Places.retainInFlight (hh : r.hand t = none) (hd : r.duty t = some id) :
    Places { q with inFlight := q.inFlight.filter fun j => j.id ≠ id } running (r.act t q (.retainInFlight id) ()) := by
  have hperm := perm_retainInFlight q h.places.pool_nodup (h.flying id (.inr ⟨t,hd⟩))
  have hsub : ∀ i ∈ ids (q.inFlight.filter fun j => j.id ≠ id), i ∈ ids q.inFlight := by
    intro i hi
    obtain ⟨job,hjob,rfl⟩ := mem_map.mp hi
    exact mem_map_of_mem (mem_filter.mp hjob).1
  refine h.step_blind ⟨h.places.draw t hperm,?_,fun _ => .inl⟩ (h.duties.letGo t) ?_ rfl fun i hi => .inl (hsub i hi)
  · rintro i (hi | hi | hi)
    · obtain rfl | hi := mem_cons.mp (hperm.mem_iff.mp hi)
      · exact .inr (.inl rfl)
      · exact .inl hi
    · cases hh.symm.trans hi
    · cases hi
  · intro i hi
    have hother : i ∈ ids q.inFlight ∧ i ≠ id := by
      rcases hi with hi | ⟨u,hu⟩
      · exact ⟨h.flying i (.inl hi),fun he => h.duties.held_unpooled t id hd (he ▸ hi)⟩
      by_cases hut : u = t
      · subst hut
        simp [Hands.after] at hu
      · have hu : r.duty u = some i := by simpa [hut] using hu
        exact ⟨h.flying i (.inr ⟨u,hu⟩),fun he => hut (h.duties.held_unique u t id (he ▸ hu) hd)⟩
    obtain ⟨job,hjob,rfl⟩ := mem_map.mp hother.1
    exact mem_map_of_mem (mem_filter.mpr ⟨hjob,by simpa using hother.2⟩)

theorem Places.search
    (hhand : ((r.hands t).after β a b).hand = r.hand t) (hduty : ((r.hands t).after β a b).duty = r.duty t)
    (hl : ((r.hands t).after β a b).looked = some (i,c)) (hq : queued q a = [])
    (hnot : i ∉ r.since t → i ∉ ids q.pending ∧ (c → i ∉ ids q.inFlight)) : Places q running (r.act t q a b) := by
  refine h.step ⟨?_,?_,fun _ => .inl⟩ ?_ ?_ ?_ fun _ => .inl
  · rw [hhand,update_eq_self]
    exact h.places
  · rintro i (hi | hi | hi)
    · exact .inl hi
    · exact .inr (.inl (by rw [hhand]; exact hi))
    · simp [hq] at hi
  · rw [hduty,update_eq_self]
    exact h.duties
  · rw [hduty,update_eq_self]
    exact h.flying
  · intro i' c' hl' hold _
    cases hl.symm.trans hl'
    exact hnot hold

omit h in
/-- The counter has not been around. -/
def IdsLeft (β : Type) : Act β → Engine → Prop
  | .nextId, s => s.queue.nextId < 2^64
  | _, _ => True

omit h in
/-- Every action keeps the places. -/
theorem Places.run (h : Places s.queue s.running r) (hr : Ready (r.hands t) β a) (hids : IdsLeft β a s) :
    Places (run a s).2.queue (run a s).2.running (r.act t s.queue a (run a s).1) := by
  cases a with
  | nextId => exact h.nextId hr hids
  | pushPending job => exact h.pushPending hr
  | notify | snapshot | findCompleted id | store cell f => exact h.step_still rfl rfl rfl rfl rfl rfl
  | retainInFlight id => exact h.retainInFlight hr.1 hr.2
  | pushCompleted job => exact h.pushCompleted hr
  | dispatch =>
    show Places s.queue.dispatch.2 s.running (r.act t s.queue .dispatch s.queue.dispatch.1)
    rcases hd : s.queue.dispatch with ⟨_ | job,q'⟩
    · rw [dispatch_none s.queue hd]
      exact h.step_still rfl rfl rfl rfl rfl rfl
    · exact h.dispatch hr hd
  | findPending id =>
    show Places s.queue s.running (r.act t s.queue (.findPending id) (s.queue.pending.find? _))
    cases hf : s.queue.pending.find? fun j => j.id = id with
    | some job => exact h.step_still rfl rfl rfl rfl rfl rfl
    | none => exact h.search rfl rfl rfl rfl fun _ => ⟨not_mem_ids_of_find hf,by simp⟩
  | findInFlight id =>
    show Places s.queue s.running (r.act t s.queue (.findInFlight id) (s.queue.inFlight.find? _))
    cases hf : s.queue.inFlight.find? fun j => j.id = id with
    | some job => exact h.step_still rfl rfl rfl rfl rfl rfl
    | none =>
      refine h.search rfl rfl rfl rfl fun hold => ?_
      exact ⟨(h.looked t id false hr hold).1,fun _ => not_mem_ids_of_find hf⟩
  | cancelPending id =>
    show Places (s.queue.cancelPending id).2 s.running _
    cases hf : s.queue.pending.find? fun j => j.id = id with
    | some job => exact h.cancelPending hf
    | none =>
      rw [cancelPending_none s.queue hf]
      exact h.step_still rfl rfl rfl rfl rfl rfl
  | takeRetryable id =>
    show Places (s.queue.takeRetryable id).2 s.running
      (r.act t s.queue (.takeRetryable id) (s.queue.takeRetryable id).1)
    rcases ht : s.queue.takeRetryable id with ⟨_ | job,q'⟩
    · rw [takeRetryable_none s.queue ht]
      exact h.step_still rfl rfl rfl rfl rfl rfl
    · exact h.takeRetryable hr ht
  | requeueFailed mine => exact h.requeueFailed mine

theorem Places.handOver
    (hh : hands.hand = r.hand t) (hl : hands.looked = none) (hs : ∀ t', t' ≠ t → since t' = r.since t')
    (hduties : Custody running' q.nextId (update r.duty t hands.duty))
    (hflying : ∀ i, (i ∈ running' ∨ ∃ t', update r.duty t hands.duty t' = some i) →
      i ∈ running ∨ ∃ t', r.duty t' = some i) :
    Places q running' { r with hands := update r.hands t hands, since := since } := by
  have hhand : Record.hand { r with hands := update r.hands t hands, since := since } = r.hand := by
    have hsame : update r.hand t hands.hand = r.hand := by rw [hh,update_eq_self]
    exact (comp_update Hands.hand r.hands t hands).trans hsame
  have hduty : Record.duty { r with hands := update r.hands t hands, since := since } =
      update r.duty t hands.duty := comp_update Hands.duty r.hands t hands
  refine ⟨by rw [hhand]; exact h.places,by rwa [hduty],?_,by rw [hhand]; exact h.alive,?_⟩
  · rw [hduty]
    exact fun i hi => h.flying i (hflying i hi)
  intro t' i c hlk hold
  by_cases htt : t' = t
  · subst htt
    simp [hl] at hlk
  · exact h.looked t' i c (by simpa [htt] using hlk) (hs t' htt ▸ hold)

/-- A reply that leaves the duties alone, or a request that does not come with one. -/
theorem Places.handOver_none (hh : hands.hand = r.hand t) (hd : hands.duty = r.duty t) (hl : hands.looked = none)
    (hs : ∀ t', t' ≠ t → since t' = r.since t') :
    Places q running { r with hands := update r.hands t hands, since := since } := by
  refine h.handOver hh hl hs ?_ ?_
  · rw [hd,update_eq_self]
    exact h.duties
  · rw [hd,update_eq_self]
    exact fun i hi => hi

end

theorem Places.start (h : Places s.queue s.running r) (ht : r.hands t = idle) (hs : service.arrive req s = some s') :
    Places s'.queue s'.running (onlooker.start t req r) := by
  have hh : r.hand t = none := congrArg Hands.hand ht
  have hd : r.duty t = none := congrArg Hands.duty ht
  have hsince : ∀ t', t' ≠ t → update r.since t ∅ t' = r.since t' := fun t' htt => by simp [htt]
  have hplain : init req = idle → service.arrive req s = some s →
      Places s'.queue s'.running (onlooker.start t req r) := by
    intro hidle hsame
    cases hsame.symm.trans hs
    show Places _ _ { r with hands := update r.hands t (init req), since := _ }
    rw [hidle]
    exact h.handOver_none hh.symm hd.symm rfl hsince
  cases req with
  | submit job =>
    by_cases hid : job.id = 0
    · exact hplain rfl (by simp [service,hid])
    · simp [service,hid] at hs
  | markDone job =>
    by_cases hi : job.id ∈ s.running
    · obtain rfl : { s with running := s.running.erase job.id } = s' := by simpa [service,hi] using hs
      refine h.handOver hh.symm rfl hsince (h.duties.draw t (perm_cons_erase hi)) ?_
      rintro i (hi' | ⟨t',ht'⟩)
      · exact .inl (mem_of_mem_erase hi')
      by_cases htt : t' = t
      · subst htt
        obtain rfl : job.id = i := by simpa [init] using ht'
        exact .inl hi
      · exact .inr ⟨t',by simpa [htt] using ht'⟩
    · simp [service,hi] at hs
  | jobsSnapshot | tryDispatch | find id | cancelJob id | retryJob id | retryFailed | retryFailedFor serial
    | store cell f =>
    exact hplain rfl rfl

theorem Places.reply (h : Places s.queue s.running r) (req : Req) (hdone : Done (r.hands t) rep) :
    Places (service.leave req rep s).queue (service.leave req rep s).running (onlooker.reply t req rep r) := by
  have hh : r.hand t = none := hdone.1
  have hplain : handedOver rep = none → service.leave req rep s = s →
      Places (service.leave req rep s).queue (service.leave req rep s).running (onlooker.reply t req rep r) := by
    intro hnone hsame
    rw [hsame]
    exact h.handOver_none hh.symm (hdone.2.trans hnone).symm rfl fun _ _ => rfl
  cases rep with
  | dispatched found =>
    cases found with
    | none => exact hplain rfl rfl
    | some job =>
      have hd : r.duty t = some job.id := hdone.2
      refine h.handOver hh.symm rfl (fun _ _ => rfl) (h.duties.put hd) ?_
      rintro i (hi | ⟨t',ht'⟩)
      · obtain rfl | hi := mem_cons.mp hi
        · exact .inr ⟨t,hd⟩
        · exact .inl hi
      · by_cases htt : t' = t
        · subst htt
          simp [idle] at ht'
        · exact .inr ⟨t',by simpa [htt] using ht'⟩
  | submitted id | done | jobs l | found job | flag b | requeued n => exact hplain rfl rfl

end

structure Placed (w : Watched Act Engine Req Reply Record) : Prop where
  abides : Abides Record.hands Ready Next Done idle w
  placed : Places w.config.shared.queue w.config.shared.running w.notes

def opening (parallelism : ℕ) : Watched Act Engine Req Reply Record :=
  ⟨⟨⟨.new parallelism,[]⟩,fun _ => none⟩,⟨fun _ => idle,∅,fun _ => ∅⟩⟩

theorem placed_opening (parallelism : ℕ) : Placed (opening parallelism) where
  abides := ⟨by simp [opening],fun _ _ => rfl⟩
  placed :=
    { places := Custody.empty nodup_nil (by simp [opening,new,snapshot])
      duties := Custody.empty nodup_nil (by simp [opening])
      flying := by simp [opening,Record.duty,idle]
      alive := by simp [opening]
      looked := by simp [opening,idle] }

theorem watch_placed (hw : Placed w)
    (he : Careful IdsLeft w.config e) (h : watch service onlooker w e = some w') : Placed w' := by
  have hwatches := watch_watches h
  constructor
  · refine hw.abides.watches obeys_handler (fun _ _ _ _ => rfl) ?_ (fun _ _ _ _ => rfl) ?_ hwatches
    · intro t q β a x s b n t' htt
      simp [onlooker,Record.act,htt]
    · intro t x q β a k b s _ ht hs
      simp [Next,onlooker,Record.act]
  · cases hwatches with
    | start hfree hs => exact hw.placed.start (hw.abides.free _ hfree) hs
    | act ht hs =>
      cases hs
      exact hw.placed.run (hw.abides.busy _ _ _ ht).1 (he _ _ _ _ _ _ rfl ht)
    | @reply t q r ht => exact hw.placed.reply q (hw.abides.busy t q _ ht)

theorem Places.count_eq_one_iff (h : Places q running r)
    (hi : i ∈ r.live) : (ids q.snapshot).count i = 1 ↔ ∀ t, r.hand t ≠ some i := by
  constructor
  · intro hc t ht
    have hmem : i ∈ ids q.snapshot := count_pos_iff.mp (by omega)
    exact h.places.held_unpooled t i ht hmem
  · intro hfree
    apply count_eq_one_of_mem h.places.pool_nodup
    exact (h.alive i hi).resolve_right fun ⟨t,ht⟩ => hfree t ht

/-- In every run in which the id counter does not wrap: a job that was pushed and not dropped
is in the three lists exactly once unless a thread has taken it out of one and not yet put it
into the next; no job in flight is dispatched; and a search that has come to the last list
finds the job there, unless it was put back into `pending` since the search started or is in
a thread's hands. -/
theorem each_job_in_one_place (parallelism : ℕ) (es : List (Event Unit Req)) (w : Watched Act Engine Req Reply Record)
    (hids : Meets (watch service onlooker) (fun w => Careful IdsLeft w.config) (opening parallelism) es)
    (h : exec (watch service onlooker) (opening parallelism) es = some w) :
    (∀ i ∈ w.notes.live, (ids w.config.shared.queue.snapshot).count i ≤ 1 ∧
      ((ids w.config.shared.queue.snapshot).count i = 1 ↔ ∀ t, w.notes.hand t ≠ some i)) ∧
    (∀ job q, w.config.shared.queue.dispatch = (some job,q) → job.id ∉ ids w.config.shared.queue.inFlight) ∧
    ∀ t req id k, w.config.threads t = some (req,.act (.findCompleted id) k) → id ∈ w.notes.live →
      id ∉ w.notes.since t → (∀ t', w.notes.hand t' ≠ some id) →
      ∃ job, (run (.findCompleted id) w.config.shared).1 = some job ∧ job.id = id := by
  have hw : Placed w := exec_invariant_of_meets (fun _ _ _ => watch_placed) (placed_opening parallelism) hids h
  have hp := hw.placed
  refine ⟨?_,fun job q hd => hp.not_inFlight hd,?_⟩
  · intro i hi
    exact ⟨nodup_iff_count_le_one.mp hp.places.pool_nodup i,hp.count_eq_one_iff hi⟩
  intro t req id k ht hlive hsince hfree
  obtain ⟨hpending,hflight⟩ := hp.looked t id true (hw.abides.busy _ _ _ ht).1 hsince
  have hmem : id ∈ ids w.config.shared.queue.snapshot := (hp.alive id hlive).resolve_right fun ⟨t',ht'⟩ => hfree t' ht'
  rw [ids_snapshot] at hmem
  have hcompleted := ((mem_append.mp hmem).resolve_left hpending)
  exact find_of_mem_ids ((mem_append.mp hcompleted).resolve_left (hflight rfl))

/-- A job is live as long as it is not dropped. -/
theorem watch_live (hi : i ∈ w.notes.live) (he : Careful (fun _ a s => i ∉ forgotten s.queue a) w.config e)
    (h : watch service onlooker w e = some w') : i ∈ w'.notes.live := by
  cases watch_watches h with
  | start => exact hi
  | act ht => exact ⟨.inl hi,he _ _ _ _ _ _ rfl ht⟩
  | reply => exact hi

/-- A job is submitted. -/
def submitting : List (Event Unit Req) := Event.start 0 (Req.submit ⟨0,none,0⟩)::List.replicate 3 (Event.act 0 ())++[Event.reply 0]

theorem live_after_submitting (hkeeps : ((exec (watch service onlooker) (opening 1) submitting).all fun u =>
      check (watch service onlooker) (fun w => isCareful (fun _ a s => 1 ∉ forgotten s.queue a) w.config) u es))
    (h : exec (watch service onlooker) (opening 1) (submitting++es) = some w) : 1 ∈ w.notes.live := by
  obtain ⟨u,hu,hrest⟩ := exec_append_iff.mp h
  rw [hu] at hkeeps
  have hlive : 1 ∈ u.notes.live := by
    cases hu
    exact ⟨.inl ⟨.inr mem_cons_self,not_mem_nil⟩,not_mem_nil⟩
  exact exec_invariant_of_meets (fun _ _ _ => watch_live) hlive
    (meets_of_check (fun _ _ => careful_of_isCareful) hkeeps) hrest

/-- The job is cancelled, and somebody looks for it. -/
def searchCancelled : List (Event Unit Req) :=
  submitting++Event.start 0 (Req.cancelJob 1)::Event.act 0 ()::Event.reply 0::Event.start 1 (Req.find 1)::List.replicate 2 (Event.act 1 ())

instance (β : Type) (a : Act β) (s : Engine) : Decidable (IdsLeft β a s) := by
  cases a with
  | nextId => exact inferInstanceAs (Decidable (_ < _))
  | _ => exact isTrue trivial

theorem searchCancelled_idsLeft : Meets (watch service onlooker) (fun w => Careful IdsLeft w.config)
    (opening 1) searchCancelled :=
  meets_of_check (fun _ _ => careful_of_isCareful) (by decide +kernel)

theorem each_job_in_one_place_cancelled : ∃ w, exec (watch service onlooker) (opening 1) searchCancelled = some w ∧
      (ids w.config.shared.queue.snapshot).count 1 = 1 ∧
      ∃ job, (run (.findCompleted 1) w.config.shared).1 = some job ∧ job.id = 1 := by
  obtain ⟨w,hw⟩ : ∃ w, exec (watch service onlooker) (opening 1) searchCancelled = some w := ⟨_,rfl⟩
  obtain ⟨hcount,_,hfind⟩ := each_job_in_one_place 1 searchCancelled w searchCancelled_idsLeft hw
  have hlive : 1 ∈ w.notes.live := live_after_submitting (by decide +kernel) hw
  have hfree : ∀ t, w.notes.hand t = none := by
    cases hw
    rintro (_ | _ | t) <;> rfl
  refine ⟨w,hw,((hcount 1 hlive).2).mpr fun t => by simp [hfree t],?_⟩
  cases hw
  exact hfind 1 _ 1 _ rfl hlive (show 1 ∉ (∅ ∪ {i | i ∈ []} ∪ {i | i ∈ []} : Set ℕ) by simp)
    fun t h => by cases (hfree t).symm.trans h

/-- `mark_done` has let go of `in_flight` and has yet to take `completed`. -/
def snapshotInGap : List (Event Unit Req) :=
  submitting++Event.start 0 Req.tryDispatch::Event.act 0 ()::Event.reply 0::Event.start 0 (Req.markDone ⟨1,none,0⟩)::Event.act 0 ()::
    Event.start 1 Req.jobsSnapshot::[Event.act 1 ()]

/-- A failed job is put back into `pending` after a search has been there. -/
def searchOvertaken : List (Event Unit Req) :=
  submitting++Event.start 0 Req.tryDispatch::Event.act 0 ()::Event.reply 0::
    Event.start 0 (Req.store 0 fun c => { c with state := .failed })::Event.act 0 ()::Event.reply 0::
    Event.start 0 (Req.markDone ⟨1,none,0⟩)::(List.replicate 3 (Event.act 0 ())++Event.reply 0::Event.start 1 (Req.find 1)::
    Event.act 1 ()::Event.start 0 Req.retryFailed::Event.act 0 ()::List.replicate 2 (Event.act 1 ()))

/-- A snapshot is without a job that was submitted and not dropped, and a search does not
find one that is in the lists all the time. -/
theorem job_vanishes : (∃ w, exec (watch service onlooker) (opening 1) snapshotInGap = some w ∧ 1 ∈ w.notes.live ∧
      w.config.threads 1 = some (.jobsSnapshot,.ret (.jobs []))) ∧
    ∃ w, exec (watch service onlooker) (opening 1) searchOvertaken = some w ∧ 1 ∈ w.notes.live ∧
      ids w.config.shared.queue.snapshot = [1] ∧
      w.config.threads 1 = some (.find 1,.ret (.found none)) := by
  constructor
  · exact ⟨_,rfl,live_after_submitting (by decide +kernel) (show exec _ _ snapshotInGap = _ from rfl),rfl⟩
  · exact ⟨_,rfl,live_after_submitting (by decide +kernel) (show exec _ _ searchOvertaken = _ from rfl),rfl,rfl⟩

end AdbShare.JobPlaces

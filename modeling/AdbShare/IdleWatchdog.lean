import AdbShare.OwnedFds

/-! The idle watchdog of a connection. Its thread knows the socket by number, and looks at the
table of open files once before it shuts the socket down; the task of the connection does not
wait for it. -/
namespace AdbShare.ProxyDevice

open Transition (exec Meets meets_cons)

/-- The task still has its socket. -/
def Task.live : Task → Bool
  | .absent | .left | .gone => false
  | _ => true

/-- The task waits for a request or is about to. -/
def Task.waits : Task → Bool
  | .reading | .replied => true
  | _ => false

/-- The task is serving a request. -/
def Task.busy : Task → Bool
  | .serving _ | .replying _ => true
  | _ => false

/-- The watchdog is not on its way to a shutdown. -/
def Dog.idle : Dog → Bool
  | .fired | .shutting => false
  | _ => true

/-- A shutdown by the watchdog of the connection hits the connection's own socket, with no
request in progress and no file open. -/
def Rightful (s : State) (c : ℕ) : Prop :=
  s.fds.lookup (s.conns c).sock = some (.socket c) ∧ (s.conns c).task.inProgress = false ∧ ∀ fd, ¬s.Holds fd c

/-- The request does not close a socket. -/
def SparesSockets (s : State) : {β : Type} → Sys β → Prop
  | _, .close fd => ∀ d, s.fds.lookup fd ≠ some (.socket d)
  | _, _ => True

/-- No request takes as long as the timeout; the timer does not run out between a request and
its touch or after the task has closed its socket, the task does nothing until its watchdog is
through, and no request closes a socket. -/
def Unhurried (s : State) (a : Act) : Prop :=
  Careful s a ∧
  match a with
  | .frame c _ _ | .touch c | .finish c | .reply c | .leave c | .forget c => (s.conns c).dog.idle = true
  | .call c _ => (s.conns c).dog.idle = true ∧
    match (s.conns c).task with
    | .serving (.act a _) => SparesSockets s a
    | _ => True
  | .fire c => (s.conns c).task.live = true ∧ ∀ op args, (s.conns c).task ≠ .got op args
  | .tick seconds => ∀ c since, (s.conns c).dog = .waiting since → (s.conns c).task.busy = true →
    s.now+seconds < since+IDLE_TIMEOUT
  | _ => True

/-- What the watchdog of a connection goes by. -/
structure Sound (s : State) (c : ℕ) : Prop where
  socket : (s.conns c).task.live = true → s.fds.lookup (s.conns c).sock = some (.socket c)
  calm : (s.conns c).dog.idle = false → (s.conns c).task.waits = true
  empty : (s.conns c).dog = .shutting → ∀ fd, ¬s.Holds fd c

/-- The timer of a task that is serving a request has not run out. -/
def Brief (s : State) (c : ℕ) : Prop :=
  ∀ since, (s.conns c).dog = .waiting since → (s.conns c).task.busy = true → s.now < since+IDLE_TIMEOUT

open Slots

section

variable {errorText : ℕ → Bytes} {s t : State} {c d n : ℕ} {task : Task} {dog : Dog} {l : List (ℕ × ℕ)}
  {choose : Oracle} {β : Type} {a : Sys β} {b : β} {as : List Act}

theorem Task.of_waits (h : task.waits) : task.live ∧ task.inProgress = false ∧ task.due = .nothing := by
  cases task <;> first | exact ⟨rfl,rfl,rfl⟩ | cases h

theorem Sound.rightful (h : Sound s c) (hc : (s.conns c).dog = .shutting) : Rightful s c := by
  have hwaits := h.calm (by rw [hc]; rfl)
  exact ⟨h.socket (Task.of_waits hwaits).1,(Task.of_waits hwaits).2.1,h.empty hc⟩

/-- A connection that a step is not about keeps its socket and gets no file. -/
theorem Sound.other (h : Sound s d) (hconn : t.conns d = s.conns d)
    (hsock : ∀ n, s.fds.lookup n = some (.socket d) → t.fds.lookup n = some (.socket d))
    (hfile : ∀ n, t.Holds n d → s.Holds n d) : Sound t d where
  socket := by
    rw [hconn]
    exact fun hlive => hsock _ (h.socket hlive)
  calm := by
    rw [hconn]
    exact h.calm
  empty := by
    rw [hconn]
    exact fun hdog fd hfd => h.empty hdog fd (hfile fd hfd)

theorem Sound.of_idle (hidle : (t.conns c).dog.idle)
    (hsock : (t.conns c).task.live → t.fds.lookup (t.conns c).sock = some (.socket c)) : Sound t c where
  socket := hsock
  calm := fun h => nomatch hidle.symm.trans h
  empty := fun h => by
    rw [h] at hidle
    cases hidle

theorem conns_setTask_self (s : State) (c : ℕ) (task : Task) :
    (s.setTask c task).conns c = { s.conns c with task := task } := by
  simp [State.setTask]

theorem conns_setTask_of_ne (s : State) (task : Task) (hd : d ≠ c) : (s.setTask c task).conns d = s.conns d := by
  simp [State.setTask,hd]

theorem conns_setDog_self (s : State) (c : ℕ) (dog : Dog) :
    (s.setDog c dog).conns c = { s.conns c with dog := dog } := by
  simp [State.setDog]

theorem conns_setDog_of_ne (s : State) (dog : Dog) (hd : d ≠ c) : (s.setDog c dog).conns d = s.conns d := by
  simp [State.setDog,hd]

theorem sound_setTask (h : ∀ d, Sound s d) (hidle : (s.conns c).dog.idle)
    (hlive : task.live → (s.conns c).task.live) (d : ℕ) : Sound (s.setTask c task) d := by
  by_cases hd : d = c
  · subst hd
    refine Sound.of_idle ?_ ?_
    · rw [conns_setTask_self]
      exact hidle
    · rw [conns_setTask_self]
      exact fun hl => (h d).socket (hlive hl)
  · exact (h d).other (conns_setTask_of_ne s task hd) (fun _ => id) fun _ => id

theorem sound_setDog_idle (h : ∀ d, Sound s d) (hidle : dog.idle) (d : ℕ) : Sound (s.setDog c dog) d := by
  by_cases hd : d = c
  · subst hd
    refine Sound.of_idle ?_ ?_
    · rw [conns_setDog_self]
      exact hidle
    · rw [conns_setDog_self]
      exact (h d).socket
  · exact (h d).other (conns_setDog_of_ne s dog hd) (fun _ => id) fun _ => id

theorem sound_rearm (h : ∀ d, Sound s d) (d : ℕ) : Sound (s.rearm c) d := by
  rw [State.rearm]
  split
  · exact sound_setDog_idle h rfl d
  · exact h d

theorem Brief.other (h : Brief s d) (hconn : t.conns d = s.conns d) (hnow : t.now = s.now) : Brief t d := by
  unfold Brief
  rw [hconn,hnow]
  exact h

theorem brief_setTask (h : ∀ d, Brief s d) (hbusy : task.busy → (s.conns c).task.busy) (d : ℕ) :
    Brief (s.setTask c task) d := by
  by_cases hd : d = c
  · subst hd
    intro since hdog htask
    rw [conns_setTask_self] at hdog htask
    exact h d since hdog (hbusy htask)
  · exact (h d).other (conns_setTask_of_ne s task hd) rfl

theorem brief_setDog (h : ∀ d, d ≠ c → Brief s d) (hdog : ∀ since, dog = .waiting since → since = s.now) (d : ℕ) :
    Brief (s.setDog c dog) d := by
  by_cases hd : d = c
  · subst hd
    intro since hwaiting _
    rw [conns_setDog_self] at hwaiting
    rw [hdog since hwaiting]
    exact Nat.lt_add_of_pos_right (by decide)
  · exact (h d hd).other (conns_setDog_of_ne s dog hd) rfl

theorem brief_rearm (h : ∀ d, d ≠ c → Brief s d) (d : ℕ) : Brief (s.rearm c) d := by
  rw [State.rearm]
  split
  · exact brief_setDog h (fun since hsince => by cases hsince; rfl) d
  · rename_i hdog
    by_cases hd : d = c
    · subst hd
      intro since hwaiting
      exact absurd hwaiting (hdog since)
    · exact h d hd

theorem Called.now_eq (h : Called choose c s a b t) : t.now = s.now := by
  cases h <;> rfl

theorem brief_step {a : Act} (h : ∀ d, Brief s d) (hcond : Unhurried s a) (hm : Moves errorText s a t) (d : ℕ) :
    Brief t d := by
  cases hm with
  | accept =>
    by_cases hd : d = s.next+1
    · subst hd
      intro since _ hbusy
      simp only [Function.update_self] at hbusy
      cases hbusy
    · exact (h d).other (Function.update_of_ne hd ..) rfl
  | frame hc | reply hc | forget hc => exact brief_setTask h (fun hbusy => by cases hbusy) d
  | start hc | ready hc =>
    refine brief_rearm (fun e he => ?_) d
    exact (h e).other (conns_setTask_of_ne s _ he) rfl
  | call hc ht =>
    have hcalled : ∀ e, Brief _ e := fun e => (h e).other (congrFun ht.conns_eq e) ht.now_eq
    exact brief_setTask hcalled (fun _ => by rw [ht.conns_eq,hc]; rfl) d
  | finish hc => exact brief_setTask h (fun _ => by rw [hc]; rfl) d
  | @leave c hc =>
    have hfreed : ∀ e, Brief { s with fds := s.fds.free (s.conns c).sock } e := fun e => (h e).other rfl rfl
    exact brief_setTask hfreed (fun hbusy => by cases hbusy) d
  | count hc =>
    refine brief_setDog (fun e _ => h e) (fun since hsince => ?_) d
    split_ifs at hsince
    cases hsince
    rfl
  | fire hc | shutdown hc | stop hc => exact brief_setDog (fun e _ => h e) (fun _ hsince => by cases hsince) d
  | tick => exact fun since hdog hbusy => hcond.2 d since hdog hbusy
  | borrow | giveBack hfd => exact (h d).other rfl rfl

theorem countFor_eq_zero (h : ¬OwnedFds.countFor c l > 0) (fd : ℕ) : (fd,c) ∉ l := by
  intro hmem
  refine h (List.length_pos_of_mem (a := (fd,c)) ?_)
  simpa using hmem

theorem Matched.empty (h : Matched s) (hwaits : (s.conns c).task.waits)
    (hcount : ¬OwnedFds.countFor c s.owned > 0) (fd : ℕ) : ¬s.Holds fd c := by
  intro hfd
  obtain hentry | hdue := h.file fd c hfd
  · exact countFor_eq_zero hcount fd hentry
  · have hnothing : s.due c = .nothing := (Task.of_waits hwaits).2.2
    rw [hnothing] at hdue
    cases hdue

theorem sound_count (hs : Kept s) (h : ∀ d, Sound s d) (hc : (s.conns c).dog = .fired) (d : ℕ) :
    Sound (s.setDog c (if OwnedFds.countFor c s.owned > 0 then .waiting s.now else .shutting)) d := by
  split_ifs with hcount
  · exact sound_setDog_idle h rfl d
  by_cases hd : d = c
  · subst hd
    have hwaits := (h d).calm (by rw [hc]; rfl)
    constructor
    · rw [conns_setDog_self]
      exact (h d).socket
    · rw [conns_setDog_self]
      exact fun _ => hwaits
    · exact fun _ => hs.matched.empty hwaits hcount
  · exact (h d).other (conns_setDog_of_ne s _ hd) (fun _ => id) fun _ => id

theorem sound_fire (h : ∀ d, Sound s d) (hwaits : (s.conns c).task.waits) (d : ℕ) : Sound (s.setDog c .fired) d := by
  by_cases hd : d = c
  · subst hd
    constructor
    · rw [conns_setDog_self]
      exact (h d).socket
    · rw [conns_setDog_self]
      exact fun _ => hwaits
    · rw [conns_setDog_self]
      exact nofun
  · exact (h d).other (conns_setDog_of_ne s _ hd) (fun _ => id) fun _ => id

theorem sound_called (h : ∀ d, Sound s d)
    (ht : Called choose c s a b t) (hidle : (s.conns c).dog.idle) (ho : s.Orderly choose a)
    (hspare : SparesSockets s a) (d : ℕ) : Sound t d := by
  have hsock (n e : ℕ) (hn : s.fds.lookup n = some (.socket e)) : t.fds.lookup n = some (.socket e) := by
    cases ht with
    | opened | borrowed _ _ => exact lookup_take_of_some hn
    | closed hfd =>
      rename_i fd
      have hne : n ≠ fd := by
        rintro rfl
        exact hspare e hn
      exact (lookup_free ..).trans ((if_neg hne).trans hn)
    | dropped ha =>
      rename_i fd a
      have hinner : s.fds.lookup fd = some .inner := by
        obtain rfl | rfl := ha <;> exact ho
      exact (lookup_free_iff (by simp) hinner n).mpr hn
    | tracked | untracked | unchanged _ _ => exact hn
  by_cases hd : d = c
  · subst hd
    refine Sound.of_idle ?_ ?_
    · rw [ht.conns_eq]
      exact hidle
    · rw [ht.conns_eq]
      exact fun hlive => hsock _ _ ((h d).socket hlive)
  · refine (h d).other (congrFun ht.conns_eq d) (fun n => hsock n d) ?_
    intro n hn
    have hkind : ∀ e, Use.inner ≠ .file e := nofun
    cases ht with
    | opened => exact (lookup_take_iff (by simpa using Ne.symm hd) _ _).mp hn
    | borrowed _ _ => exact (holds_take hkind n d).mp hn
    | closed hfd =>
      rename_i fd
      have hn : (s.fds.free fd).lookup n = some (.file d) := hn
      rw [lookup_free] at hn
      split_ifs at hn
      exact hn
    | dropped ha =>
      rename_i fd a
      have hinner : s.fds.lookup fd = some .inner := by
        obtain rfl | rfl := ha <;> exact ho
      exact (holds_free hinner hkind n d).mp hn
    | tracked => exact hn
    | untracked => exact hn
    | unchanged _ _ => exact hn

/-- Where no request takes long, a timer that runs out finds the task waiting. -/
theorem Brief.waits {since : ℕ} (h : Brief s c) (hdog : (s.conns c).dog = .waiting since) (htime : since+IDLE_TIMEOUT ≤ s.now)
    (hlive : (s.conns c).task.live) (hgot : ∀ op args, (s.conns c).task ≠ .got op args) : (s.conns c).task.waits := by
  have hbusy := h since hdog
  cases htask : (s.conns c).task with
  | reading | replied => rfl
  | got op args => exact absurd htask (hgot op args)
  | serving _ | replying _ =>
    rw [htask] at hbusy
    have := hbusy rfl
    omega
  | absent | left | gone =>
    rw [htask] at hlive
    cases hlive

theorem sound_step {a : Act} (hs : Kept s) (h : ∀ d, Sound s d) (hb : ∀ d, Brief s d) (hcond : Unhurried s a) (hm : Moves errorText s a t)
    (d : ℕ) : Sound t d := by
  obtain ⟨hcare,hcond⟩ := hcond
  cases hm with
  | accept =>
    by_cases hd : d = s.next+1
    · subst hd
      refine Sound.of_idle ?_ ?_
      · simp only [Function.update_self]
        split <;> rfl
      · intro _
        simp only [Function.update_self]
        exact (lookup_take ..).trans (if_pos rfl)
    · refine (h d).other (Function.update_of_ne hd ..) (fun _ => lookup_take_of_some) ?_
      intro n hn
      exact (lookup_take_iff (by simp) _ _).mp hn
  | frame hc | finish hc | reply hc => exact sound_setTask h hcond (fun _ => by rw [hc]; rfl) d
  | start hc | ready hc => exact sound_rearm (sound_setTask h hcond fun _ => by rw [hc]; rfl) d
  | call hc ht =>
    rw [Careful,hc] at hcare
    dsimp only at hcond
    rw [hc] at hcond
    have hcalled := sound_called h ht hcond.1 hcare hcond.2
    exact sound_setTask hcalled (by rw [ht.conns_eq]; exact hcond.1) (fun _ => by rw [ht.conns_eq,hc]; rfl) d
  | leave hc =>
    rename_i c
    by_cases hd : d = c
    · subst hd
      refine Sound.of_idle ?_ ?_
      · rw [conns_setTask_self]
        exact hcond
      · rw [conns_setTask_self]
        rintro ⟨⟩
    · refine (h d).other (conns_setTask_of_ne _ _ hd) ?_ ?_
      · intro n hn
        exact (lookup_free_iff (by simpa using Ne.symm hd) hcare n).mpr hn
      · intro n hn
        exact (lookup_free_iff (by simp) hcare n).mp hn
  | forget hc =>
    refine sound_setTask h hcond ?_ d
    rintro ⟨⟩
  | fire hc htime => exact sound_fire h ((hb _).waits hc htime hcond.1 hcond.2) d
  | count hc => exact sound_count hs h hc d
  | shutdown hc | stop hc => exact sound_setDog_idle h rfl d
  | tick => exact (h d).other rfl (fun _ => id) fun _ => id
  | borrow =>
    refine (h d).other rfl (fun _ => lookup_take_of_some) ?_
    intro n hn
    exact (lookup_take_iff (by simp) _ _).mp hn
  | giveBack hfd =>
    refine (h d).other rfl ?_ ?_
    · intro n hn
      exact (lookup_free_iff (by simp) hfd n).mpr hn
    · intro n hn
      exact (lookup_free_iff (by simp) hfd n).mp hn

structure Watched (s : State) : Prop where
  kept : Kept s
  sound : ∀ c, Sound s c
  brief : ∀ c, Brief s c

theorem watched_run (hmeets : Meets (step errorText) Unhurried (init n) as)
    (h : exec (step errorText) (init n) as = some s) : Watched s := by
  have hinit : Watched (init n) := ⟨kept_init n,fun d => Sound.of_idle rfl nofun,fun _ => nofun⟩
  refine Transition.exec_invariant_of_meets ?_ hinit hmeets h
  intro u a v hu hcond hstep
  have hm := moves_of_step hstep
  exact ⟨kept_step hu.kept hcond.1 hm,sound_step hu.kept hu.sound hu.brief hcond hm,brief_step hu.brief hcond hm⟩

/-- Where nothing comes between a watchdog and its shutdown, it shuts down its own socket and
an idle connection. -/
theorem shutdown_rightful (errorText : ℕ → Bytes) (n : ℕ) (as : List Act) (s t : State) (c : ℕ)
    (hmeets : Meets (step errorText) Unhurried (init n) as) (h : exec (step errorText) (init n) as = some s)
    (hstep : step errorText s (.shutdown c) = some t) : Rightful s c := by
  cases moves_of_step hstep with
  | shutdown hc => exact ((watched_run hmeets h).sound c).rightful hc

theorem step_shutdown (hc : (s.conns c).dog = .shutting) :
    step errorText s (.shutdown c) = some (s.setDog c .done) := by
  rw [step,hc]

/-- A connection that stays silent is shut down. -/
theorem shutdown_rightful_silent : ∃ as s t, Meets (step fun _ => []) Unhurried (init 0) as ∧
    exec (step fun _ => []) (init 0) as = some s ∧ step (fun _ => []) s (.shutdown 1) = some t ∧ Rightful s 1 := by
  let as : List Act := [.accept true,.tick IDLE_TIMEOUT,.fire 1,.count 1]
  have hmeets : Meets (step fun _ => []) Unhurried (init 0) as := by
    refine meets_cons rfl ⟨trivial,trivial⟩ (meets_cons rfl ⟨trivial,?_⟩
      ⟨⟨trivial,rfl,nofun⟩,fun _ _ => ⟨⟨trivial,trivial⟩,fun _ _ => trivial⟩⟩)
    intro c since _ hbusy
    change (Function.update (init 0).conns 1 _ c).task.busy = true at hbusy
    by_cases hc : c = 1
    · subst hc
      cases hbusy
    · rw [Function.update_of_ne hc] at hbusy
      cases hbusy
  exact ⟨as,_,_,hmeets,rfl,step_shutdown rfl,shutdown_rightful _ 0 as _ _ 1 hmeets rfl (step_shutdown rfl)⟩

/-- A copy that takes longer than the timeout is shut down halfway; and a watchdog that has
found its connection idle shuts down the connection that got the number after it. -/
theorem shutdown_misses :
    (∃ as s t, exec (step fun _ => []) (init 0) as = some s ∧ step (fun _ => []) s (.shutdown 1) = some t ∧
      (s.conns 1).task.inProgress = true) ∧
    ∃ as s t, exec (step fun _ => []) (init 0) as = some s ∧ step (fun _ => []) s (.shutdown 1) = some t ∧
      s.fds.lookup (s.conns 1).sock = some (.socket 2) := by
  let copying : List Act := [.accept true,.frame 1 0x12 [2,0,0,0,47,97,2,0,0,0,47,98],.touch 1,
    .call 1 granting,.call 1 granting,.call 1 granting,.call 1 granting,.tick IDLE_TIMEOUT,.fire 1,.count 1]
  let reused : List Act := [.accept true,.tick IDLE_TIMEOUT,.fire 1,.count 1,.leave 1,.accept true]
  exact ⟨⟨copying,_,_,rfl,step_shutdown rfl,rfl⟩,reused,_,_,rfl,step_shutdown rfl,rfl⟩

end

end AdbShare.ProxyDevice

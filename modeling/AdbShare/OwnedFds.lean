import AdbShare.ProxyPaths
import AdbShare.ProxyServer

/-! The table of open files that the connections share. A request changes the kernel's
descriptors in one call and the table in the next, and other requests come in between. -/
namespace AdbShare.ProxyDevice

open Function Option State OwnedFds Slots

open Transition (exec Meets meets_cons)

/-- The change of the table a request still has to make. -/
inductive Due
  | nothing
  | track (fd : ℕ)
  | untrack (fd : ℕ)
  deriving DecidableEq, Repr

namespace Sys

/-- The change of the table that a call is. -/
def due : {β : Type} → Sys β → Due
  | _, .track fd _ => .track fd
  | _, .untrack fd => .untrack fd
  | _, _ => .nothing

/-- The change of the table that is due after a call with its answer. -/
def leaves : {β : Type} → Sys β → β → Due
  | _, .openFile _ _ _, .ok fd => .track fd
  | _, .close fd, true => .untrack fd
  | _, _, _ => .nothing

end Sys

def Task.due : Task → Due
  | .serving (.act a _) => a.due
  | _ => .nothing

namespace State

variable (s : State) {β : Type}

def due (c : ℕ) : Due := (s.conns c).task.due

/-- The number is a file that the connection opened and nobody has closed. -/
def Holds (fd c : ℕ) : Prop := s.fds.lookup fd = some (.file c)

/-- No request is between its call and its change of the table. -/
def Settled : Prop := ∀ c, s.due c = .nothing

/-- The table has the open files and says whose they are. -/
def Accurate : Prop := ∀ fd c, (fd,c) ∈ s.owned ↔ s.Holds fd c

/-- A call that keeps away from the changes that others have still to make: nobody closes what
another has not yet tracked, nobody tracks what another has not yet untracked, a close that
frees its number says so, and the process gives back only what is its own. -/
def Orderly (choose : Oracle) : {β : Type} → Sys β → Prop
  | _, .close fd => (∀ d, s.due d ≠ .track fd) ∧ (s.fds.lookup fd ≠ none → choose _ (.close fd) = true)
  | _, .track fd _ => ∀ d, s.due d ≠ .untrack fd
  | _, .closeFile fd | _, .closedir fd => s.fds.lookup fd = some .inner
  | _, _ => True

end State

def Careful (s : State) : Act → Prop
  | .call c choose =>
    match (s.conns c).task with
    | .serving (.act a _) => s.Orderly choose a
    | _ => True
  | .leave c => s.fds.lookup (s.conns c).sock = some (.socket c)
  | _ => True

section

/-- A change of the table is made when it is due, in the name of the connection. -/
def Timely (c : ℕ) : Due → (β : Type) → Sys β → Prop
  | g, _, .track fd conn => g = .track fd ∧ conn = c
  | g, _, a => g = a.due

def Leaves (_ : Due) (β : Type) (a : Sys β) (b : β) (g : Due) : Prop := g = a.leaves b

def Through (g : Due) (_ : Bytes) : Prop := g = .nothing

variable {g : Due} {a : Sys β} {p : Prog Sys Bytes}

/-- What is due is what the next call does. -/
theorem due_of_obeys {c : ℕ} (h : p.Obeys (Timely c) Leaves Through g) : (Task.serving p).due = g := by
  cases p with
  | ret r => exact h.symm
  | act a k => cases a <;> first | exact h.1.1.symm | exact h.1.symm

variable (errorText : ℕ → Bytes) (op : UInt8) (args : Bytes) (c : ℕ)

theorem serve_timely : (serve errorText op args c).Obeys (Timely c) Leaves Through .nothing := by
  by_cases hopen : op = 0x01
  · subst hopen
    change (dispatchOpen args c).Obeys (Timely c) Leaves Through .nothing
    rw [dispatchOpen]
    cases h : readField (args.drop 8) with
    | none =>
      rw [handleOpen_of_none h]
      rfl
    | some x =>
      rw [handleOpen_of_path (mem_firstPath.mpr ⟨x.2,h⟩)]
      refine ⟨rfl,?_⟩
      rintro (e | fd) _ rfl
      · rfl
      · exact ⟨⟨rfl,rfl⟩,fun _ _ h => h⟩
  by_cases hclose : op = 0x02
  · subst hclose
    change (dispatchClose args).Obeys (Timely c) Leaves Through .nothing
    rw [dispatchClose]
    split
    · rfl
    refine ⟨rfl,?_⟩
    rintro (_ | _) _ rfl
    · rfl
    · exact ⟨rfl,fun _ _ h => h⟩
  refine (serve_makes errorText op args c).obeys ?_ ?_ rfl
  · rintro _ β a rfl ha
    cases a <;> first | rfl | exact absurd ha hopen | exact absurd ha hclose
  · rintro _ β a b g' rfl ha rfl
    cases a <;> first | rfl | exact absurd ha.1 hopen | exact absurd ha hclose

theorem dispatch_timely : (dispatch errorText op args c).Obeys (Timely c) Leaves Through .nothing :=
  (serve_timely errorText op args c).bind fun _ _ h => h

end

/-- What a call does to the process. -/
inductive Called (choose : Oracle) (c : ℕ) (s : State) : {β : Type} → Sys β → β → State → Prop
  | opened {path : Bytes} {flags : List OFlag} {mode : ℕ} :
    Called choose c s (.openFile path flags mode) (.ok s.fds.lowest) { s with fds := s.fds.take (.file c) }
  | borrowed {β : Type} {a : Sys β} {b : β} (hd : a.due = .nothing) (hl : a.leaves b = .nothing) :
    Called choose c s a b { s with fds := s.fds.take .inner }
  | closed {fd : ℕ} (hfd : s.fds.lookup fd ≠ none) :
    Called choose c s (.close fd) (choose _ (.close fd)) { s with fds := s.fds.free fd }
  | dropped {fd : ℕ} {a : Sys Unit} (ha : a = .closeFile fd ∨ a = .closedir fd) :
    Called choose c s a () { s with fds := s.fds.free fd }
  | tracked {fd conn : ℕ} : Called choose c s (.track fd conn) () { s with owned := OwnedFds.track fd conn s.owned }
  | untracked {fd : ℕ} : Called choose c s (.untrack fd) () { s with owned := OwnedFds.untrack fd s.owned }
  | unchanged {β : Type} {a : Sys β} {b : β} (hd : a.due = .nothing) (hl : a.leaves b = .nothing) : Called choose c s a b s

theorem called_kernel (choose : Oracle) (c : ℕ) (s : State) (a : Sys β) :
    Called choose c s a (kernel choose c s a).1 (kernel choose c s a).2 := by
  cases a with
  | openFile path flags mode =>
    rw [kernel]
    cases choose _ (.openFile path flags mode) with
    | error e => exact .unchanged rfl rfl
    | ok _ => exact .opened
  | fsOpen path flags =>
    rw [kernel]
    cases choose _ (.fsOpen path flags) with
    | error e => exact .unchanged rfl rfl
    | ok _ => exact .borrowed rfl rfl
  | openat dir name =>
    rw [kernel]
    cases choose _ (.openat dir name) with
    | error e => exact .unchanged rfl rfl
    | ok _ => exact .borrowed rfl rfl
  | opendir path =>
    rw [kernel]
    cases choose _ (.opendir path) with
    | error e => exact .unchanged rfl rfl
    | ok _ => exact .borrowed rfl rfl
  | close fd =>
    rw [kernel]
    cases h : s.fds.lookup fd with
    | none => exact .unchanged rfl rfl
    | some use => exact .closed (by simp [h])
  | closeFile fd => exact .dropped (.inl rfl)
  | closedir fd => exact .dropped (.inr rfl)
  | track fd conn => exact .tracked
  | untrack fd => exact .untracked
  | _ => exact .unchanged rfl rfl

variable {t : State} {d fd : ℕ} {choose : Oracle} {b : β} {task : Task} {k : β → Prog Sys Bytes} {use : Use}

section

variable (errorText : ℕ → Bytes)

/-- What a step can do. -/
inductive Moves (s : State) : Act → State → Prop
  | accept {watched : Bool} : Moves s (.accept watched) { s with
      fds := s.fds.take (.socket (s.next+1))
      next := s.next+1
      conns := update s.conns (s.next+1)
        ⟨s.fds.lowest,.reading,if watched then .waiting s.now else .done⟩ }
  | frame {c : ℕ} {op : UInt8} {args : Bytes} (h : (s.conns c).task = .reading) :
    Moves s (.frame c op args) (s.setTask c (.got op args))
  | start {c : ℕ} {op : UInt8} {args : Bytes} (h : (s.conns c).task = .got op args) :
    Moves s (.touch c) ((s.setTask c (.serving (dispatch errorText op args c))).rearm c)
  | ready {c : ℕ} (h : (s.conns c).task = .replied) : Moves s (.touch c) ((s.setTask c .reading).rearm c)
  | call {c : ℕ} {choose : Oracle} {β : Type} {a : Sys β} {k : β → Prog Sys Bytes} {b : β} {t : State}
    (h : (s.conns c).task = .serving (.act a k)) (ht : Called choose c s a b t) :
    Moves s (.call c choose) (t.setTask c (.serving (k b)))
  | finish {c : ℕ} {reply : Bytes} (h : (s.conns c).task = .serving (.ret reply)) :
    Moves s (.finish c) (s.setTask c (.replying reply))
  | reply {c : ℕ} {reply : Bytes} (h : (s.conns c).task = .replying reply) : Moves s (.reply c) (s.setTask c .replied)
  | leave {c : ℕ} (h : (s.conns c).task = .reading ∨ ∃ reply, (s.conns c).task = .replying reply) :
    Moves s (.leave c) ({ s with fds := s.fds.free (s.conns c).sock }.setTask c .left)
  | forget {c : ℕ} (h : (s.conns c).task = .left) : Moves s (.forget c) (s.setTask c .gone)
  | fire {c since : ℕ} (h : (s.conns c).dog = .waiting since) (htime : since+IDLE_TIMEOUT ≤ s.now) :
    Moves s (.fire c) (s.setDog c .fired)
  | count {c : ℕ} (h : (s.conns c).dog = .fired) :
    Moves s (.count c) (s.setDog c (if OwnedFds.countFor c s.owned > 0 then .waiting s.now else .shutting))
  | shutdown {c : ℕ} (h : (s.conns c).dog = .shutting) : Moves s (.shutdown c) (s.setDog c .done)
  | stop {c since : ℕ} (h : (s.conns c).dog = .waiting since) : Moves s (.stop c) (s.setDog c .done)
  | tick {seconds : ℕ} : Moves s (.tick seconds) { s with now := s.now+seconds }
  | borrow : Moves s .borrow { s with fds := s.fds.take .inner }
  | giveBack {fd : ℕ} (h : s.fds.lookup fd = some .inner) : Moves s (.giveBack fd) { s with fds := s.fds.free fd }

variable {errorText} {s : State} {a : Act}

theorem moves_of_step (h : step errorText s a = some t) : Moves errorText s a t := by
  cases a with
  | accept watched => exact some.inj h ▸ .accept
  | frame c op args =>
    rw [step] at h
    split at h
    · rename_i hc
      split_ifs at h
      exact some.inj h ▸ .frame hc
    · cases h
  | touch c =>
    rw [step] at h
    split at h
    · rename_i hc
      exact some.inj h ▸ .start hc
    · rename_i hc
      exact some.inj h ▸ .ready hc
    · cases h
  | call c choose =>
    rw [step] at h
    split at h
    · rename_i hc
      exact some.inj h ▸ .call hc (called_kernel ..)
    · cases h
  | finish c =>
    rw [step] at h
    split at h
    · rename_i hc
      exact some.inj h ▸ .finish hc
    · cases h
  | reply c =>
    rw [step] at h
    split at h
    · rename_i hc
      exact some.inj h ▸ .reply hc
    · cases h
  | leave c =>
    rw [step] at h
    split at h
    · rename_i hc
      exact some.inj h ▸ .leave (.inl hc)
    · rename_i hc
      exact some.inj h ▸ .leave (.inr ⟨_,hc⟩)
    · cases h
  | forget c =>
    rw [step] at h
    split at h
    · rename_i hc
      exact some.inj h ▸ .forget hc
    · cases h
  | fire c =>
    rw [step] at h
    split at h
    · rename_i hc
      split_ifs at h with htime
      exact some.inj h ▸ .fire hc htime.1
    · cases h
  | count c =>
    rw [step] at h
    split at h
    · rename_i hc
      exact some.inj h ▸ .count hc
    · cases h
  | shutdown c =>
    rw [step] at h
    split at h
    · rename_i hc
      exact some.inj h ▸ .shutdown hc
    · cases h
  | stop c =>
    rw [step] at h
    split at h
    · rename_i hc
      split_ifs at h
      exact some.inj h ▸ .stop hc
    · cases h
  | tick seconds => exact some.inj h ▸ .tick
  | borrow => exact some.inj h ▸ .borrow
  | giveBack fd =>
    rw [step] at h
    split_ifs at h with hfd
    exact some.inj h ▸ .giveBack hfd

end

section

variable {errorText : ℕ → Bytes} {s : State} {c : ℕ} {a : Sys β}

theorem Called.conns_eq (h : Called choose c s a b t) : t.conns = s.conns := by
  cases h <;> rfl

theorem due_setTask (s : State) (c : ℕ) (task : Task) : (s.setTask c task).due = update s.due c task.due := by
  funext d
  by_cases hd : d = c
  · subst hd
    simp [due,setTask]
  · simp [due,setTask,hd]

theorem task_setDog (s : State) (c : ℕ) (dog : Dog) (d : ℕ) : ((s.setDog c dog).conns d).task = (s.conns d).task := by
  by_cases hd : d = c
  · subst hd
    simp [setDog]
  · simp [setDog,hd]

theorem task_rearm (s : State) (c d : ℕ) : ((s.rearm c).conns d).task = (s.conns d).task := by
  rw [rearm]
  split
  · exact task_setDog ..
  · rfl

theorem due_rearm (s : State) (c : ℕ) : (s.rearm c).due = s.due := funext fun d => congrArg Task.due (task_rearm s c d)

theorem rearm_fds (s : State) (c : ℕ) : (s.rearm c).fds = s.fds := by
  rw [rearm]
  split <;> rfl

theorem rearm_owned (s : State) (c : ℕ) : (s.rearm c).owned = s.owned := by
  rw [rearm]
  split <;> rfl

theorem Called.next_eq (h : Called choose c s a b t) : t.next = s.next := by
  cases h <;> rfl

def Task.serves : Task → Bool
  | .serving _ => true
  | _ => false

/-- What a step can do to the task of a connection. -/
inductive Advances (errorText : ℕ → Bytes) (s t : State) (d : ℕ) : Prop
  | stays (hn : s.next ≤ t.next) (h : (t.conns d).task = (s.conns d).task)
  | arrives (hn : d ≤ t.next) (h : (t.conns d).task = .reading)
  | starts {op : UInt8} {args : Bytes} (hn : t.next = s.next) (hs : (s.conns d).task = .got op args)
    (h : (t.conns d).task = .serving (dispatch errorText op args d))
  | calls {β : Type} {a : Sys β} {k : β → Prog Sys Bytes} {b : β} (hn : t.next = s.next)
    (hs : (s.conns d).task = .serving (.act a k)) (h : (t.conns d).task = .serving (k b))
  | rests (hn : t.next = s.next) (hs : (s.conns d).task ≠ .absent) (h : (t.conns d).task.serves = false)

theorem task_setTask_self (s : State) (c : ℕ) (task : Task) : ((s.setTask c task).conns c).task = task := by
  simp [setTask]

theorem task_setTask_of_ne (s : State) (task : Task) (hd : d ≠ c) :
    ((s.setTask c task).conns d).task = (s.conns d).task := by
  simp [setTask,hd]

theorem advances_setTask (hn : t.next = s.next) (hconns : t.conns = s.conns)
    (hs : (s.conns c).task ≠ .absent) (htask : task.serves = false) (d : ℕ) :
    Advances errorText s (t.setTask c task) d := by
  by_cases hd : d = c
  · subst hd
    refine .rests hn hs ?_
    rw [task_setTask_self]
    exact htask
  · exact .stays hn.ge ((task_setTask_of_ne t task hd).trans (by rw [hconns]))

theorem advances_rearm (h : Advances errorText s t d) : Advances errorText s (t.rearm c) d := by
  have htask := task_rearm t c d
  have hnext : (t.rearm c).next = t.next := by
    rw [rearm]
    split <;> rfl
  cases h with
  | stays hn h => exact .stays (hnext ▸ hn) (htask.trans h)
  | arrives hn h => exact .arrives (hnext ▸ hn) (htask.trans h)
  | starts hn hs h => exact .starts (hnext.trans hn) hs (htask.trans h)
  | calls hn hs h => exact .calls (hnext.trans hn) hs (htask.trans h)
  | rests hn hs h => exact .rests (hnext.trans hn) hs (htask ▸ h)

theorem Moves.advances {a : Act} (hm : Moves errorText s a t) (d : ℕ) : Advances errorText s t d := by
  cases hm with
  | accept =>
    by_cases hd : d = s.next+1
    · subst hd
      exact .arrives le_rfl (by simp)
    · exact .stays (Nat.le_succ _) (by simp [hd])
  | frame hc | finish hc | reply hc | forget hc => exact advances_setTask rfl rfl (by simp [hc]) rfl d
  | start hc =>
    rename_i c op args
    refine advances_rearm ?_
    by_cases hd : d = c
    · subst hd
      exact .starts rfl hc (task_setTask_self ..)
    · exact .stays le_rfl (task_setTask_of_ne s _ hd)
  | ready hc => exact advances_rearm (advances_setTask rfl rfl (by simp [hc]) rfl d)
  | call hc ht =>
    rename_i c choose β a k b u
    by_cases hd : d = c
    · subst hd
      exact .calls ht.next_eq hc (task_setTask_self ..)
    · exact .stays ht.next_eq.ge ((task_setTask_of_ne u _ hd).trans (by rw [ht.conns_eq]))
  | leave hc =>
    rename_i c
    have hlive : (s.conns c).task ≠ .absent := by
      obtain hc | ⟨reply,hc⟩ := hc <;> simp [hc]
    exact advances_setTask (s := s) (t := { s with fds := s.fds.free (s.conns c).sock }) rfl rfl hlive rfl d
  | fire hc | count hc | shutdown hc | stop hc => exact .stays le_rfl (task_setDog ..)
  | tick | borrow | giveBack hfd => exact .stays le_rfl rfl

/-- Every request on the blocking pool makes its changes of the table when they are due. -/
def InTime (s : State) : Prop :=
  ∀ c rest, (s.conns c).task = .serving rest → ∃ g, rest.Obeys (Timely c) Leaves Through g

theorem InTime.call (h : InTime s)
    (hc : (s.conns c).task = .serving (.act a k)) (b : β) : (k b).Obeys (Timely c) Leaves Through (a.leaves b) := by
  obtain ⟨g,hg⟩ := h c _ hc
  exact hg.2 b _ rfl

theorem inTime_step {a : Act} (h : InTime s) (hm : Moves errorText s a t) : InTime t := by
  intro d rest hd
  cases hm.advances d with
  | stays _ htask => exact h d rest (htask ▸ hd)
  | arrives _ htask => cases htask.symm.trans hd
  | starts _ _ htask =>
    obtain rfl := Task.serving.inj (htask.symm.trans hd)
    exact ⟨_,dispatch_timely ..⟩
  | calls _ hs htask =>
    obtain rfl := Task.serving.inj (htask.symm.trans hd)
    exact ⟨_,h.call hs _⟩
  | rests _ _ htask =>
    rw [hd] at htask
    cases htask

/-- No connection has a number that has not been given out. -/
def Numbered (s : State) : Prop := ∀ c, s.next < c → (s.conns c).task = .absent

theorem numbered_step {a : Act} (h : Numbered s) (hm : Moves errorText s a t) : Numbered t := by
  intro d hd
  cases hm.advances d with
  | stays hn htask => exact htask.trans (h d (by omega))
  | arrives hn _ => omega
  | starts hn hs _ | calls hn hs _ => cases hs.symm.trans (h d (hn ▸ hd))
  | rests hn hs _ => exact absurd (h d (hn ▸ hd)) hs

end

section

variable {errorText : ℕ → Bytes} {s : State} {c : ℕ} {x : Due} {a : Sys β}

/-- What a step does to the open files, the table and the changes that are due. -/
inductive Effect (s t : State) : Prop
  | none (hf : ∀ n d, t.Holds n d ↔ s.Holds n d) (ho : t.owned = s.owned) (hd : t.due = s.due)
  | opened (c fd : ℕ) (hc : s.due c = .nothing) (hfree : ∀ d, ¬s.Holds fd d)
    (hf : ∀ n d, t.Holds n d ↔ n = fd ∧ d = c ∨ s.Holds n d) (ho : t.owned = s.owned)
    (hd : t.due = update s.due c (.track fd))
  | closed (c fd : ℕ) (hc : s.due c = .nothing) (hnone : ∀ d, s.due d ≠ .track fd)
    (hf : ∀ n d, t.Holds n d ↔ n ≠ fd ∧ s.Holds n d) (ho : t.owned = s.owned)
    (hd : t.due = update s.due c (.untrack fd))
  | tracked (c fd : ℕ) (hc : s.due c = .track fd) (hnone : ∀ d, s.due d ≠ .untrack fd)
    (hf : ∀ n d, t.Holds n d ↔ s.Holds n d) (ho : t.owned = OwnedFds.track fd c s.owned)
    (hd : t.due = update s.due c .nothing)
  | untracked (c fd : ℕ) (hc : s.due c = .untrack fd) (hf : ∀ n d, t.Holds n d ↔ s.Holds n d)
    (ho : t.owned = OwnedFds.untrack fd s.owned) (hd : t.due = update s.due c .nothing)

theorem update_due_self (h : s.due c = x) : update s.due c x = s.due := by
  rw [← h,update_eq_self]

theorem holds_take (huse : ∀ d, use ≠ .file d) (n d : ℕ) : { s with fds := s.fds.take use }.Holds n d ↔ s.Holds n d := lookup_take_iff (huse d) s.fds n

theorem holds_free (h : s.fds.lookup fd = some use) (huse : ∀ d, use ≠ .file d) (n d : ℕ) :
    { s with fds := s.fds.free fd }.Holds n d ↔ s.Holds n d := lookup_free_iff (huse d) h n

/-- A task moves on without a change of the table before or after. -/
theorem due_setTask_of_nothing (hc : s.due c = .nothing) (ht : task.due = .nothing) : (s.setTask c task).due = s.due := by
  rw [due_setTask,ht,update_due_self hc]

theorem effect_of_call (hs : InTime s)
    (hc : (s.conns c).task = .serving (.act a k)) (ht : Called choose c s a b t) (ho : s.Orderly choose a) :
    Effect s (t.setTask c (.serving (k b))) := by
  have hdue : s.due c = a.due := congrArg Task.due hc
  have hnext : (Task.serving (k b)).due = a.leaves b := due_of_obeys (hs.call hc b)
  have hsame : t.due = s.due := by
    funext d
    rw [due,due,ht.conns_eq]
  have hupdate : (t.setTask c (.serving (k b))).due = update s.due c (a.leaves b) := by
    rw [due_setTask,hsame,hnext]
  cases ht with
  | opened =>
    refine .opened c s.fds.lowest hdue ?_ ?_ rfl hupdate
    · intro d hd
      rw [State.Holds,lookup_lowest] at hd
      cases hd
    · intro n d
      change (s.fds.take (.file c)).lookup n = some (.file d) ↔ _
      rw [lookup_take]
      split_ifs with hn
      · subst hn
        simp [State.Holds,lookup_lowest,eq_comm]
      · simp [State.Holds,hn]
  | borrowed hd hl =>
    refine .none (holds_take nofun) rfl ?_
    rw [hupdate,hl,update_due_self (hdue.trans hd)]
  | closed hfd =>
    rename_i fd
    have htrue := ho.2 hfd
    refine .closed c fd hdue ho.1 ?_ rfl ?_
    · intro n d
      change (s.fds.free fd).lookup n = some (.file d) ↔ _
      rw [lookup_free]
      split_ifs with hn <;> simp [State.Holds,hn]
    · rw [hupdate,htrue]
      rfl
  | dropped ha =>
    rename_i fd a
    have hinner : s.fds.lookup fd = some .inner := by
      obtain rfl | rfl := ha <;> exact ho
    have hquiet : a.due = .nothing := by obtain rfl | rfl := ha <;> rfl
    have hl : a.leaves () = .nothing := by obtain rfl | rfl := ha <;> rfl
    refine .none (holds_free hinner nofun) rfl ?_
    rw [hupdate,hl,update_due_self (hdue.trans hquiet)]
  | tracked =>
    rename_i fd conn
    obtain ⟨g,hg⟩ := hs c _ hc
    obtain ⟨-,rfl⟩ := hg.1
    exact .tracked conn fd hdue ho (fun _ _ => Iff.rfl) rfl hupdate
  | untracked =>
    rename_i fd
    exact .untracked c fd hdue (fun _ _ => Iff.rfl) rfl hupdate
  | unchanged hd hl =>
    refine .none (fun _ _ => Iff.rfl) rfl ?_
    rw [hupdate,hl,update_due_self (hdue.trans hd)]

theorem effect_of_moves {a : Act} (hs : InTime s) (hcare : Careful s a) (hm : Moves errorText s a t)
    (habsent : s.due (s.next+1) = .nothing) : Effect s t := by
  cases hm with
  | accept =>
    refine .none (holds_take nofun) rfl ?_
    funext d
    by_cases hd : d = s.next+1
    · subst hd
      rw [habsent]
      simp [due,Task.due]
    · simp [due,hd]
  | frame hc | finish hc | reply hc | forget hc =>
    exact .none (fun _ _ => Iff.rfl) rfl (due_setTask_of_nothing (congrArg Task.due hc) rfl)
  | start hc =>
    refine .none ?_ (rearm_owned ..) ?_
    · intro n d
      rw [State.Holds,rearm_fds]
      rfl
    · rw [due_rearm]
      exact due_setTask_of_nothing (congrArg Task.due hc) (due_of_obeys (dispatch_timely ..))
  | ready hc =>
    refine .none ?_ (rearm_owned ..) ?_
    · intro n d
      rw [State.Holds,rearm_fds]
      rfl
    · rw [due_rearm]
      exact due_setTask_of_nothing (congrArg Task.due hc) rfl
  | call hc ht =>
    rw [Careful,hc] at hcare
    exact effect_of_call hs hc ht hcare
  | leave hc =>
    refine .none (holds_free hcare nofun) rfl ?_
    obtain hc | ⟨reply,hc⟩ := hc
    · exact due_setTask_of_nothing (congrArg Task.due hc) rfl
    · exact due_setTask_of_nothing (congrArg Task.due hc) rfl
  | fire hc | count hc | shutdown hc | stop hc => exact .none (fun _ _ => Iff.rfl) rfl (funext fun _ => congrArg Task.due (task_setDog ..))
  | tick => exact .none (fun _ _ => Iff.rfl) rfl rfl
  | borrow => exact .none (holds_take nofun) rfl rfl
  | giveBack hfd => exact .none (holds_free hfd nofun) rfl rfl

end

section

variable {errorText : ℕ → Bytes} {s : State} {l : List (ℕ × ℕ)} {conn n c : ℕ} {a : Act} {as : List Act}
  {P : Due → Prop}

/-- The table and the open files match but for the changes that are due. -/
structure Matched (s : State) : Prop where
  tracking : ∀ fd c, s.due c = .track fd → s.Holds fd c
  entry : ∀ fd c, (fd,c) ∈ s.owned → s.Holds fd c ∨ ∃ d, s.due d = .untrack fd
  file : ∀ fd c, s.Holds fd c → (fd,c) ∈ s.owned ∨ s.due c = .track fd
  reopened : ∀ fd c d, s.due d = .untrack fd → s.Holds fd c → s.due c = .track fd

theorem mem_track : (n,d) ∈ track fd conn l ↔ n = fd ∧ d = conn ∨ n ≠ fd ∧ (n,d) ∈ l := by
  simp [track,and_comm]

theorem mem_untrack : (n,d) ∈ untrack fd l ↔ n ≠ fd ∧ (n,d) ∈ l := by
  simp [untrack,and_comm]

theorem Holds.unique (hc : s.Holds fd c) (hd : s.Holds fd d) : c = d := Use.file.inj (some.inj (hc.symm.trans hd))

theorem matched_of_effect (h : Matched s) (he : Effect s t) : Matched t := by
  obtain ⟨htracking,hentry,hfile,hreopened⟩ := h
  cases he with
  | none hf ho hd =>
    constructor
    all_goals
      simp only [hf,ho,hd]
      assumption
  | opened c fd hc hfree hf ho hd | closed c fd hc hnone hf ho hd =>
    constructor
    all_goals
      simp only [hf,ho,hd,update_apply]
      grind
  | tracked c fd hc hnone hf ho hd =>
    have hown := htracking fd c hc
    have hunique (d : ℕ) (h : s.Holds fd d) : d = c := Holds.unique h hown
    constructor
    all_goals
      simp only [hf,ho,hd,update_apply,mem_track]
      grind
  | untracked c fd hc hf ho hd =>
    constructor
    all_goals
      simp only [hf,ho,hd,update_apply,mem_untrack]
      grind

structure Kept (s : State) : Prop where
  inTime : InTime s
  numbered : Numbered s
  matched : Matched s

theorem kept_step (h : Kept s) (hcare : Careful s a) (hm : Moves errorText s a t) : Kept t where
  inTime := inTime_step h.inTime hm
  numbered := numbered_step h.numbered hm
  matched := matched_of_effect h.matched (effect_of_moves h.inTime hcare hm
    (congrArg Task.due (h.numbered _ (Nat.lt_succ_self _))))

theorem lookup_init (h : (init n).fds.lookup fd = some use) : use = .inner := by
  by_cases hfd : fd < n
  · simpa [init,lookup,hfd,eq_comm] using h
  · simp [init,lookup,hfd] at h

theorem kept_init (n : ℕ) : Kept (init n) where
  inTime := fun _ _ h => nomatch h
  numbered := fun _ _ => rfl
  matched := {
    tracking := fun _ _ h => nomatch h
    entry := fun _ _ h => nomatch h
    file := fun _ _ h => nomatch lookup_init h
    reopened := fun _ _ _ h => nomatch h }

theorem numbered_run (as : List Act) (h : exec (step errorText) (init n) as = some s) : Numbered s :=
  Transition.exec_invariant (fun _ _ _ hs hstep => numbered_step hs (moves_of_step hstep)) (kept_init n).numbered h

/-- Only connections that have been numbered can have a change due. -/
theorem Numbered.forall_due (h : Numbered s) (h0 : P .nothing) (hlow : ∀ c, c ≤ s.next → P (s.due c))
    (c : ℕ) : P (s.due c) := by
  by_cases hc : c ≤ s.next
  · exact hlow c hc
  · rw [due,h c (by omega)]
    exact h0

/-- When every call keeps away from the changes others have to make, the table has exactly the
open files whenever no change is due. -/
theorem owned_fds_accurate (errorText : ℕ → Bytes) (n : ℕ) (as : List Act) (s : State)
    (hmeets : Meets (step errorText) Careful (init n) as) (h : exec (step errorText) (init n) as = some s)
    (hsettled : s.Settled) : s.Accurate := by
  have hkept : Kept s := Transition.exec_invariant_of_meets
    (fun _ _ _ hs hcare hstep => kept_step hs hcare (moves_of_step hstep)) (kept_init n) hmeets h
  have hm := hkept.matched
  intro fd c
  constructor
  · intro hentry
    obtain hholds | ⟨d,hd⟩ := hm.entry fd c hentry
    · exact hholds
    · rw [hsettled d] at hd
      cases hd
  · intro hholds
    obtain hentry | hdue := hm.file fd c hholds
    · exact hentry
    · rw [hsettled c] at hdue
      cases hdue

/-- Two connections open a file each, and the first one closes its own. -/
def openedAndClosed : List Act :=
  let path : Bytes := [1,0,0,0,0,0,0,0,2,0,0,0,47,97]
  [.accept true,.accept true,
    .frame 1 0x01 path,.touch 1,.call 1 granting,.call 1 granting,.finish 1,.reply 1,.touch 1,
    .frame 2 0x01 path,.touch 2,.call 2 granting,.call 2 granting,.finish 2,.reply 2,.touch 2,
    .frame 1 0x02 [2,0,0,0],.touch 1,.call 1 granting,.call 1 granting]

/-- What remains is that descriptor 3 belongs to connection 2. -/
theorem owned_fds_accurate_opened : ∃ s, Meets (step fun _ => []) Careful (init 0) openedAndClosed ∧
    exec (step fun _ => []) (init 0) openedAndClosed = some s ∧ s.Settled ∧ s.Accurate ∧ s.owned = [(3,2)] := by
  have hnumbered : ∀ k s, exec (step fun _ => []) (init 0) (openedAndClosed.take k) = some s → Numbered s :=
    fun _ _ => numbered_run _
  have hmeets : Meets (step fun _ => []) Careful (init 0) openedAndClosed := by
    iterate 5 refine meets_cons rfl trivial ?_
    refine meets_cons rfl ?_ ?_
    · refine Numbered.forall_due (P := (· ≠ Due.untrack 2)) (hnumbered 5 _ rfl) nofun ?_
      intro c hc
      have hle : c ≤ 2 := hc
      interval_cases c <;> exact nofun
    iterate 6 refine meets_cons rfl trivial ?_
    refine meets_cons rfl ?_ ?_
    · refine Numbered.forall_due (P := (· ≠ Due.untrack 3)) (hnumbered 12 _ rfl) nofun ?_
      intro c hc
      have hle : c ≤ 2 := hc
      interval_cases c <;> exact nofun
    iterate 5 refine meets_cons rfl trivial ?_
    refine meets_cons rfl ⟨?_,fun _ => rfl⟩ (meets_cons rfl trivial trivial)
    refine Numbered.forall_due (P := (· ≠ Due.track 2)) (hnumbered 18 _ rfl) nofun ?_
    intro c hc
    have hle : c ≤ 2 := hc
    interval_cases c <;> exact nofun
  have hs : exec (step fun _ => []) (init 0) openedAndClosed = some _ := rfl
  have hsettled := (numbered_run openedAndClosed hs).forall_due (P := (· = Due.nothing)) rfl fun c hc => by
    have hle : c ≤ 2 := hc
    interval_cases c <;> rfl
  exact ⟨_,hmeets,hs,hsettled,owned_fds_accurate _ 0 _ _ hmeets hs hsettled,rfl⟩

/-- Two connections: one closes descriptor 2, the other gets the number for a file of its own
before the first has taken it out of the table. -/
theorem reused_fd_untracked : ∃ as s, exec (step fun _ => []) (init 0) as = some s ∧ s.Settled ∧ ¬s.Accurate := by
  let path : Bytes := [1,0,0,0,0,0,0,0,2,0,0,0,47,97]
  let as : List Act := [.accept true,.accept true,
    .frame 1 0x01 path,.touch 1,.call 1 granting,.call 1 granting,.finish 1,.reply 1,.touch 1,
    .frame 1 0x02 [2,0,0,0],.touch 1,.call 1 granting,
    .frame 2 0x01 path,.touch 2,.call 2 granting,.call 2 granting,.call 1 granting]
  have hs : exec (step fun _ => []) (init 0) as = some _ := rfl
  refine ⟨as,_,hs,?_,?_⟩
  · refine (numbered_run as hs).forall_due (P := (· = Due.nothing)) rfl ?_
    intro c hc
    have hle : c ≤ 2 := hc
    interval_cases c <;> rfl
  · intro hacc
    cases (hacc 2 2).mpr rfl

end

end AdbShare.ProxyDevice

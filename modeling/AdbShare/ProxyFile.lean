import AdbShare.Transition
import AdbShare.Bytes

/-! Lifetime of a device file descriptor behind the clones of one `ProxyFile`. Calls on
any clone, `close`, `drop` and the close task that `drop` spawns interleave freely. A
call borrows a pooled connection after it has copied the descriptor, so requests travel
on different connections and the device may process them in any order. A connection may be
refused, and one that was granted may fail before it has taken the frame. -/
namespace AdbShare.ProxyFile

open Transition Function List Option

def CLOSE_RETRIES : ℕ := 4

inductive UseKind
  | read | write | fstat
  deriving DecidableEq

/-- A request about the descriptor, on its way to the device or processed by it. -/
inductive Msg
  | use (kind : UseKind) (fd : UInt32)
  | close (fd : UInt32)
  deriving DecidableEq

def Msg.isClose : Msg → Bool
  | .close _ => true
  | .use _ _ => false

/-- One clone of the handle. `close` and `drop` consume a clone that no call borrows. -/
inductive Clone
  | gone
  | live (users : ℕ)
  | closeWait
  | closeTake
  | closeSend (fd : UInt32)
  | closeSent
  | dropCount
  | dropTake
  | dropRelease
  deriving DecidableEq

/-- A `read_at`, `write_at` or `stat` call on clone `i`. -/
inductive Use
  | idle
  | copyFd (i : ℕ) (kind : UseKind)
  | wait (i : ℕ) (kind : UseKind) (fd : UInt32)
  | sent (i : ℕ)
  deriving DecidableEq

/-- The task `drop` spawns to send the `Close`. -/
inductive Closer
  | absent
  | wait (fd : UInt32) (attempt : ℕ)
  | send (fd : UInt32)
  | sent
  | gaveUp
  deriving DecidableEq

structure State where
  /-- `ProxyFileInner::fd`. -/
  cell : Option UInt32
  /-- `Arc::strong_count`. -/
  strong : ℕ
  nextClone : ℕ
  clones : ℕ → Clone
  uses : ℕ → Use
  closers : ℕ → Closer
  wire : List Msg
  /-- What the device has processed, oldest first. -/
  log : List Msg

/-- `ProxyClient::open` returns the first clone. -/
def init (fd : UInt32) : State where
  cell := some fd
  strong := 1
  nextClone := 1
  clones := fun i => if i = 0 then .live 0 else .gone
  uses := fun _ => .idle
  closers := fun _ => .absent
  wire := []
  log := []

inductive Label
  | clone (i : ℕ)
  | use (t i : ℕ) (kind : UseKind)
  | copyFd (t : ℕ)
  | useAcquired (t : ℕ)
  | useFailed (t : ℕ)
  | useReturn (t : ℕ)
  | close (i : ℕ)
  | closeAcquired (i : ℕ)
  | closeFailed (i : ℕ)
  | closeTake (i : ℕ)
  | closeSend (i : ℕ)
  | closeLost (i : ℕ)
  | closeReturn (i : ℕ)
  | drop (i : ℕ)
  | dropCount (i : ℕ)
  | dropTake (i : ℕ)
  | dropRelease (i : ℕ)
  | closerAcquired (i : ℕ)
  | closerBusy (i : ℕ)
  | closerFailed (i : ℕ)
  | closerSend (i : ℕ)
  | closerLost (i : ℕ)
  | serve (n : ℕ)
  deriving DecidableEq

def State.setClone (s : State) (i : ℕ) (k : Clone) : State :=
  { s with clones := update s.clones i k }

def State.setUse (s : State) (t : ℕ) (u : Use) : State :=
  { s with uses := update s.uses t u }

def State.setCloser (s : State) (i : ℕ) (k : Closer) : State :=
  { s with closers := update s.closers i k }

/-- A call returns and gives its borrow of clone `i` back. -/
def State.giveBack (s : State) (t i : ℕ) : State :=
  match s.clones i with
  | .live n => (s.setUse t .idle).setClone i (.live (n-1))
  | _ => s.setUse t .idle

/-- `None` once a call or a drop has claimed the descriptor; the mutex makes each of
these accesses one step. -/
def step (s : State) : Label → Option State
  | .clone i =>
    match s.clones i with
    | .live _ => some { s.setClone s.nextClone (.live 0) with
        nextClone := s.nextClone+1, strong := s.strong+1 }
    | _ => none
  | .use t i kind =>
    match s.uses t, s.clones i with
    | .idle, .live n => some ((s.setUse t (.copyFd i kind)).setClone i (.live (n+1)))
    | _, _ => none
  | .copyFd t =>
    match s.uses t with
    | .copyFd i kind =>
      match s.cell with
      | some fd => some (s.setUse t (.wait i kind fd))
      | none => some (s.giveBack t i)
    | _ => none
  | .useAcquired t =>
    match s.uses t with
    | .wait i kind fd => some { s.setUse t (.sent i) with wire := s.wire++[.use kind fd] }
    | _ => none
  | .useFailed t =>
    match s.uses t with
    | .wait i _ _ => some (s.giveBack t i)
    | _ => none
  | .useReturn t =>
    match s.uses t with
    | .sent i => some (s.giveBack t i)
    | _ => none
  | .close i => if s.clones i = .live 0 then some (s.setClone i .closeWait) else none
  | .closeAcquired i => if s.clones i = .closeWait then some (s.setClone i .closeTake) else none
  | .closeFailed i => if s.clones i = .closeWait then some (s.setClone i .dropCount) else none
  | .closeTake i =>
    if s.clones i = .closeTake then
      match s.cell with
      | some fd => some { s.setClone i (.closeSend fd) with cell := none }
      | none => some (s.setClone i .dropCount)
    else none
  | .closeSend i =>
    match s.clones i with
    | .closeSend fd => some { s.setClone i .closeSent with wire := s.wire++[.close fd] }
    | _ => none
  | .closeLost i =>
    match s.clones i with
    | .closeSend _ => some (s.setClone i .dropCount)
    | _ => none
  | .closeReturn i => if s.clones i = .closeSent then some (s.setClone i .dropCount) else none
  | .drop i => if s.clones i = .live 0 then some (s.setClone i .dropCount) else none
  | .dropCount i =>
    if s.clones i = .dropCount then
      some (s.setClone i (if s.strong ≠ 1 then .dropRelease else .dropTake))
    else none
  | .dropTake i =>
    if s.clones i = .dropTake then
      match s.cell with
      | some fd =>
        some { (s.setClone i .dropRelease).setCloser i (.wait fd 0) with cell := none }
      | none => some (s.setClone i .dropRelease)
    else none
  | .dropRelease i =>
    if s.clones i = .dropRelease then
      some { s.setClone i .gone with strong := s.strong-1 }
    else none
  | .closerAcquired i =>
    match s.closers i with
    | .wait fd _ => some (s.setCloser i (.send fd))
    | _ => none
  | .closerBusy i =>
    match s.closers i with
    | .wait fd n =>
      if n+1 < CLOSE_RETRIES then some (s.setCloser i (.wait fd (n+1)))
      else some (s.setCloser i .gaveUp)
    | _ => none
  | .closerFailed i =>
    match s.closers i with
    | .wait _ _ => some (s.setCloser i .gaveUp)
    | _ => none
  | .closerSend i =>
    match s.closers i with
    | .send fd => some { s.setCloser i .sent with wire := s.wire++[.close fd] }
    | _ => none
  | .closerLost i =>
    match s.closers i with
    | .send _ => some (s.setCloser i .gaveUp)
    | _ => none
  | .serve n =>
    match s.wire[n]? with
    | some m => some { s with wire := s.wire.eraseIdx n, log := s.log++[m] }
    | none => none

/-- `Close` requests sent so far. -/
def closes (s : State) : ℕ := s.wire.countP Msg.isClose+s.log.countP Msg.isClose

def Clone.sending : Clone → Bool
  | .closeSend _ => true
  | _ => false

def Closer.pending : Closer → Bool
  | .wait _ _ | .send _ => true
  | _ => false

def Use.waiting : Use → Bool
  | .wait _ _ _ => true
  | _ => false

/-- A clone that has yet to decide whether it is the last one. -/
def Clone.undecided : Clone → Bool
  | .gone | .dropRelease => false
  | _ => true

/-- Who has to send the `Close`. -/
inductive Token
  | cell
  | close (i : ℕ)
  | closer (i : ℕ)
  | sent

def Holds (s : State) : Token → Prop
  | .cell => s.cell.isSome = true
  | .close i => (s.clones i).sending = true
  | .closer i => (s.closers i).pending = true
  | .sent => closes s ≠ 0

/-- Nobody gains or loses the duty to close. -/
structure Keeps (s t : State) : Prop where
  holds : ∀ x, Holds t x ↔ Holds s x
  closes : closes t = closes s

/-- The duty passes from `a` to `b`. -/
structure Passes (s t : State) (a b : Token) : Prop where
  holder : Holds s a
  unsent : a ≠ .sent
  taker : Holds t b
  others : ∀ x, Holds t x → x = b ∨ Holds s x ∧ x ≠ a
  closes : closes t = closes s+(if b matches .sent then 1 else 0)

variable {i n j : ℕ} {k : Clone} {f : ℕ → Clone} {u s t : State} {m : Msg} {x y : Token} {wire : List Msg}
  {fd : UInt32} {a : Label}

theorem sending_update (h : k.sending = (f i).sending) (j : ℕ) : (update f i k j).sending = (f j).sending := by
  by_cases hj : j = i
  · subst hj; simpa using h
  · simp [hj]

theorem pending_update {f : ℕ → Closer} {k : Closer} (h : k.pending = (f i).pending) (j : ℕ) :
    (update f i k j).pending = (f j).pending := by
  by_cases hj : j = i
  · subst hj; simpa using h
  · simp [hj]

theorem keeps_of_eq (hcell : t.cell = s.cell) (hclone : ∀ i, (t.clones i).sending = (s.clones i).sending)
    (hcloser : ∀ i, (t.closers i).pending = (s.closers i).pending) (hcloses : closes t = closes s) :
    Keeps s t where
  holds := by
    intro x
    cases x with
    | cell => simp [Holds,hcell]
    | close i => simp [Holds,hclone]
    | closer i => simp [Holds,hcloser]
    | sent => simp [Holds,hcloses]
  closes := hcloses

theorem keeps_setUse (s : State) (t : ℕ) (u : Use) : Keeps s (s.setUse t u) :=
  keeps_of_eq rfl (fun _ => rfl) (fun _ => rfl) rfl

theorem keeps_setClone (h : k.sending = (s.clones i).sending) : Keeps s (s.setClone i k) :=
  keeps_of_eq rfl (sending_update h) (fun _ => rfl) rfl

theorem Keeps.trans (h : Keeps s t) (h' : Keeps t u) : Keeps s u where
  holds := fun x => (h'.holds x).trans (h.holds x)
  closes := h'.closes.trans h.closes

open State Clone

theorem keeps_giveBack (s : State) (t i : ℕ) : Keeps s (s.giveBack t i) := by
  unfold giveBack
  cases hk : s.clones i with
  | live n => exact (keeps_setUse s t .idle).trans (keeps_setClone (by simp [setUse,hk,sending]))
  | _ => exact keeps_setUse s t .idle

theorem passes_closeTake (hcell : s.cell = some fd) :
    Passes s { s.setClone i (.closeSend fd) with cell := none } .cell (.close i) where
  holder := by simp [Holds,hcell]
  unsent := by simp
  taker := by simp [Holds,setClone,sending]
  others := by
    intro x hx
    cases x with
    | cell => simp [Holds] at hx
    | close j =>
      by_cases hj : j = i
      · subst hj; exact .inl rfl
      · exact .inr ⟨by simpa [Holds,setClone,hj] using hx,by simp⟩
    | closer j => exact .inr ⟨hx,by simp⟩
    | sent => exact .inr ⟨hx,by simp⟩
  closes := rfl

open Closer

theorem passes_dropTake (hcell : s.cell = some fd) (hi : (s.clones i).sending = false) :
    Passes s { (s.setClone i .dropRelease).setCloser i (.wait fd 0) with cell := none } .cell (.closer i) where
  holder := by simp [Holds,hcell]
  unsent := by simp
  taker := by simp [Holds,setCloser,pending]
  others := by
    intro x hx
    cases x with
    | cell => simp [Holds] at hx
    | close j =>
      have hj := (keeps_setClone (k:=.dropRelease) hi.symm).holds (.close j)
      exact .inr ⟨hj.mp hx,by simp⟩
    | closer j =>
      by_cases hj : j = i
      · subst hj; exact .inl rfl
      · exact .inr ⟨by simpa [Holds,setCloser,setClone,hj] using hx,by simp⟩
    | sent => exact .inr ⟨hx,by simp⟩
  closes := rfl

open Msg

theorem passes_closeSend (hi : s.clones i = .closeSend fd) :
    Passes s { s.setClone i .closeSent with wire := s.wire++[.close fd] } (.close i) .sent where
  holder := by simp [Holds,hi,sending]
  unsent := by simp
  taker := by simp [Holds,closes,isClose]
  others := by
    intro x hx
    cases x with
    | cell => exact .inr ⟨hx,by simp⟩
    | close j =>
      by_cases hj : j = i
      · subst hj; simp [Holds,setClone,sending] at hx
      · exact .inr ⟨by simpa [Holds,setClone,hj] using hx,by simpa using hj⟩
    | closer j => exact .inr ⟨hx,by simp⟩
    | sent => exact .inl rfl
  closes := by simp [closes,setClone,isClose,Nat.add_right_comm]

theorem passes_closerSend (hi : s.closers i = .send fd) :
    Passes s { s.setCloser i .sent with wire := s.wire++[.close fd] } (.closer i) .sent where
  holder := by simp [Holds,hi,pending]
  unsent := by simp
  taker := by simp [Holds,closes,isClose]
  others := by
    intro x hx
    cases x with
    | cell => exact .inr ⟨hx,by simp⟩
    | close j => exact .inr ⟨hx,by simp⟩
    | closer j =>
      by_cases hj : j = i
      · subst hj; simp [Holds,setCloser,pending] at hx
      · exact .inr ⟨by simpa [Holds,setCloser,hj] using hx,by simpa using hj⟩
    | sent => exact .inl rfl
  closes := by simp [closes,setCloser,isClose,Nat.add_right_comm]

theorem keeps_serve (h : s.wire[n]? = some m) : Keeps s { s with wire := s.wire.eraseIdx n, log := s.log++[m] } := by
  obtain ⟨hn,rfl⟩ := List.getElem?_eq_some_iff.mp h
  have hcount := (List.getElem_cons_eraseIdx_perm hn).countP_eq isClose
  refine keeps_of_eq rfl (fun _ => rfl) (fun _ => rfl) ?_
  simp only [closes,countP_append,← hcount,countP_cons,countP_nil]
  omega

/-- The connection fails before it has taken the `Close`, or the spawned task is refused one: for the last time
because the pool is busy, or for another reason. -/
inductive Loses (s : State) : Label → Prop
  | busy {i n : ℕ} {fd : UInt32} (hi : s.closers i = .wait fd n) (hn : CLOSE_RETRIES ≤ n+1) : Loses s (.closerBusy i)
  | failed (i : ℕ) : Loses s (.closerFailed i)
  | closerLost (i : ℕ) : Loses s (.closerLost i)
  | closeLost (i : ℕ) : Loses s (.closeLost i)

/-- A drop has read a count other than one. -/
def NotLast (s : State) (a : Label) (i : ℕ) : Prop := a = .dropCount i ∧ s.strong ≠ 1

/-- The kinds of step, by what they do to the duty to close and to the requests. -/
inductive Effect (s : State) (a : Label) : State → Prop
  | clone (i n : ℕ) (hi : s.clones i = .live n) :
      Effect s a { s.setClone s.nextClone (.live 0) with
        nextClone := s.nextClone+1, strong := s.strong+1 }
  | borrow (u i n : ℕ) (kind : UseKind) (hi : s.clones i = .live n) :
      Effect s a ((s.setUse u (.copyFd i kind)).setClone i (.live (n+1)))
  | copyFd (u i : ℕ) (kind : UseKind) (fd : UInt32) (hc : s.cell = some fd) :
      Effect s a (s.setUse u (.wait i kind fd))
  | giveBack (u i : ℕ) : Effect s a (s.giveBack u i)
  | request (u i : ℕ) (kind : UseKind) (fd : UInt32) (hu : s.uses u = .wait i kind fd) :
      Effect s a { s.setUse u (.sent i) with wire := s.wire++[.use kind fd] }
  | advance (i : ℕ) (k : Clone) (hs : (s.clones i).sending = false) (hk : k.sending = false)
      (hu : (s.clones i).undecided = true) (hku : k.undecided = true) : Effect s a (s.setClone i k)
  | notLast (i : ℕ) (ha : NotLast s a i) (hi : s.clones i = .dropCount) :
      Effect s a (s.setClone i .dropRelease)
  | closed (i : ℕ) (hi : s.clones i = .dropTake) (hc : s.cell = none) :
      Effect s a (s.setClone i .dropRelease)
  | released (i : ℕ) (hi : s.clones i = .dropRelease) :
      Effect s a { s.setClone i .gone with strong := s.strong-1 }
  | closeTake (i : ℕ) (fd : UInt32) (hi : s.clones i = .closeTake) (hc : s.cell = some fd) :
      Effect s a { s.setClone i (.closeSend fd) with cell := none }
  | closeSend (i : ℕ) (fd : UInt32) (hi : s.clones i = .closeSend fd) :
      Effect s a { s.setClone i .closeSent with wire := s.wire++[.close fd] }
  | dropTake (i : ℕ) (fd : UInt32) (hi : s.clones i = .dropTake) (hc : s.cell = some fd) :
      Effect s a { (s.setClone i .dropRelease).setCloser i (.wait fd 0) with cell := none }
  | retry (i : ℕ) (k : Closer) (hi : (s.closers i).pending = true) (hk : k.pending = true) :
      Effect s a (s.setCloser i k)
  | giveUp (i : ℕ) (ha : Loses s a) : Effect s a (s.setCloser i .gaveUp)
  | closeLost (i : ℕ) (fd : UInt32) (ha : Loses s a) (hi : s.clones i = .closeSend fd) : Effect s a (s.setClone i .dropCount)
  | closerSend (i : ℕ) (fd : UInt32) (hi : s.closers i = .send fd) :
      Effect s a { s.setCloser i .sent with wire := s.wire++[.close fd] }
  | serve (n : ℕ) (m : Msg) (ha : a = .serve n) (hm : s.wire[n]? = some m) :
      Effect s a { s with wire := s.wire.eraseIdx n, log := s.log++[m] }

theorem step_effect (h : step s a = some t) : Effect s a t := by
  cases a with
  | clone | use | useAcquired | useFailed | useReturn | closeSend | closeLost | closerFailed | closerSend | closerLost =>
    simp only [step] at h
    split at h <;> cases h
    first
      | exact .clone _ _ ‹_›
      | exact .borrow _ _ _ _ ‹_›
      | exact .request _ _ _ _ ‹_›
      | exact .giveBack _ _
      | exact .closeSend _ _ ‹_›
      | exact .closerSend _ _ ‹_›
      | exact .closeLost _ _ (.closeLost _) ‹_›
      | exact .giveUp _ (.failed _)
      | exact .giveUp _ (.closerLost _)
  | copyFd u =>
    simp only [step] at h
    split at h
    · split at h <;> cases h
      · exact .copyFd _ _ _ _ ‹_›
      · exact .giveBack _ _
    · cases h
  | closeTake i =>
    simp only [step,ite_none_right_eq_some] at h
    obtain ⟨hi,h⟩ := h
    split at h <;> cases h
    · exact .closeTake i _ hi ‹_›
    · exact .advance i _ (by simp [hi,sending]) rfl (by simp [hi,undecided]) rfl
  | dropTake i =>
    simp only [step,ite_none_right_eq_some] at h
    obtain ⟨hi,h⟩ := h
    split at h <;> cases h
    · exact .dropTake i _ hi ‹_›
    · exact .closed i hi ‹_›
  | dropCount i =>
    simp only [step,ite_none_right_eq_some,some.injEq] at h
    obtain ⟨hi,rfl⟩ := h
    split_ifs with hs
    · exact .notLast i ⟨rfl,hs⟩ hi
    · exact .advance i _ (by simp [hi,sending]) rfl (by simp [hi,undecided]) rfl
  | dropRelease i =>
    simp only [step,ite_none_right_eq_some,some.injEq] at h
    exact h.2 ▸ .released i h.1
  | closerAcquired i =>
    simp only [step] at h
    split at h <;> cases h
    rename_i hi
    exact .retry i _ (by simp [hi,pending]) rfl
  | closerBusy i =>
    simp only [step] at h
    split at h
    · rename_i fd n hi
      split_ifs at h with hn <;> cases h
      · exact .retry i _ (by simp [hi,pending]) rfl
      · exact .giveUp i (.busy hi (not_lt.mp hn))
    · cases h
  | serve n =>
    simp only [step] at h
    split at h <;> cases h
    exact .serve n _ rfl ‹_›
  | _ i =>
    simp only [step,ite_none_right_eq_some,some.injEq] at h
    exact h.2 ▸ .advance i _ (by simp [h.1,sending]) rfl (by simp [h.1,undecided]) rfl

/-- What a step can do to the duty to close. -/
theorem step_duty (hfresh : ∀ i, s.nextClone ≤ i → s.clones i = .gone) (h : step s a = some t) :
    Keeps s t ∨ (∃ x y, Passes s t x y) ∨ Loses s a ∧ (∀ x, Holds t x → Holds s x) ∧ closes t = closes s := by
  cases step_effect h with
  | clone i n hi =>
    have hnew : (live 0).sending = (s.clones s.nextClone).sending := by
      rw [hfresh _ le_rfl]; rfl
    exact .inl (keeps_of_eq rfl (sending_update hnew) (fun _ => rfl) rfl)
  | borrow u i n kind hi =>
    have hlive : (live (n+1)).sending = (s.clones i).sending := by rw [hi]; rfl
    exact .inl ((keeps_setUse s u _).trans (keeps_setClone hlive))
  | copyFd u i kind fd hc => exact .inl (keeps_setUse s u _)
  | giveBack u i => exact .inl (keeps_giveBack s u i)
  | request u i kind fd hu =>
    exact .inl (keeps_of_eq rfl (fun _ => rfl) (fun _ => rfl) (by simp [closes,setUse,isClose]))
  | advance i k hs hk hu hku => exact .inl (keeps_setClone (hk.trans hs.symm))
  | notLast i ha hi | closed i hi hc => exact .inl (keeps_setClone (by rw [hi]; rfl))
  | released i hi => exact .inl (keeps_of_eq rfl (sending_update (by rw [hi]; rfl)) (fun _ => rfl) rfl)
  | closeTake i fd hi hc => exact .inr (.inl ⟨_,_,passes_closeTake hc⟩)
  | closeSend i fd hi => exact .inr (.inl ⟨_,_,passes_closeSend hi⟩)
  | dropTake i fd hi hc => exact .inr (.inl ⟨_,_,passes_dropTake hc (by rw [hi]; rfl)⟩)
  | retry i k hi hk => exact .inl (keeps_of_eq rfl (fun _ => rfl) (pending_update (hk.trans hi.symm)) rfl)
  | giveUp i ha =>
    refine .inr (.inr ⟨ha,?_,rfl⟩)
    intro x hx
    cases x with
    | closer j =>
      by_cases hj : j = i
      · subst hj; simp [Holds,setCloser,pending] at hx
      · simpa [Holds,setCloser,hj] using hx
    | _ => exact hx
  | closeLost i fd ha hi =>
    refine .inr (.inr ⟨ha,?_,rfl⟩)
    intro x hx
    cases x with
    | close j =>
      by_cases hj : j = i
      · subst hj; simp [Holds,setClone,sending] at hx
      · simpa [Holds,setClone,hj] using hx
    | _ => exact hx
  | closerSend i fd hi => exact .inr (.inl ⟨_,_,passes_closerSend hi⟩)
  | serve n m ha hm => exact .inl (keeps_serve hm)

theorem giveBack_clones (s : State) (u i : ℕ) : (s.giveBack u i).clones = s.clones ∨
      ∃ n m, s.clones i = .live n ∧ (s.giveBack u i).clones = update s.clones i (.live m) := by
  cases hi : s.clones i with
  | live n => exact .inr ⟨n,n-1,rfl,by simp [giveBack,hi,setClone,setUse]⟩
  | _ => exact .inl (by simp [giveBack,hi,setUse])

@[simp] theorem giveBack_cell (s : State) (u i : ℕ) : (s.giveBack u i).cell = s.cell := by
  unfold giveBack
  split <;> rfl

@[simp] theorem giveBack_nextClone (s : State) (u i : ℕ) : (s.giveBack u i).nextClone = s.nextClone := by
  unfold giveBack
  split <;> rfl

/-- At most one party has the duty to close, and at most one `Close` was sent. -/
structure Inv (s : State) : Prop where
  fresh : ∀ i, s.nextClone ≤ i → s.clones i = .gone
  one : ∀ x y, Holds s x → Holds s y → x = y
  closes_le : closes s ≤ 1

theorem init_inv (fd : UInt32) : Inv (init fd) where
  fresh := by
    intro i hi
    have hne : i ≠ 0 := by
      simp only [init] at hi
      omega
    simp [init,hne]
  one := by
    have hcell : ∀ x, Holds (init fd) x → x = .cell := by
      intro x hx
      cases x with
      | cell => rfl
      | close i => by_cases hi : i = 0 <;> simp [Holds,init,hi,sending] at hx
      | closer i => simp [Holds,init,pending] at hx
      | sent => simp [Holds,init,closes] at hx
    intro x y hx hy
    rw [hcell x hx,hcell y hy]
  closes_le := by simp [closes,init]

/-- Only a clone that exists changes. -/
theorem fresh_update (hs : ∀ i, s.nextClone ≤ i → s.clones i = .gone)
    (hi : s.clones i ≠ .gone) (j : ℕ) (hj : s.nextClone ≤ j) : update s.clones i k j = .gone := by
  have hne : j ≠ i := fun he => hi (he ▸ hs j hj)
  simpa [hne] using hs j hj

theorem step_fresh (hs : ∀ i, s.nextClone ≤ i → s.clones i = .gone)
    (h : step s a = some t) : ∀ i, t.nextClone ≤ i → t.clones i = .gone := by
  cases step_effect h with
  | clone i n hi =>
    intro j hj
    have hne : j ≠ s.nextClone := Nat.ne_of_gt hj
    simpa [setClone,hne] using hs j (Nat.le_of_lt hj)
  | borrow u i n kind hi | notLast i ha hi | closed i hi hc | released i hi | closeTake i fd hi hc
    | closeSend i fd hi | closeLost i fd ha hi | dropTake i fd hi hc =>
    exact fresh_update hs (by simp [hi])
  | copyFd u i kind fd hc | request u i kind fd hu | retry i k hi hk | giveUp i ha | closerSend i fd hi
    | serve n m ha hm =>
    exact hs
  | giveBack u i =>
    obtain hc | ⟨n,m,hi,hc⟩ := giveBack_clones s u i
    · simpa [hc] using hs
    · simpa only [hc,giveBack_nextClone] using fresh_update hs (by simp [hi])
  | advance i k hs' hk hu hku => exact fresh_update hs (fun he => by simp [he,undecided] at hu)

theorem Passes.closes_le (hs : Inv s) (h : Passes s t x y) : ProxyFile.closes t ≤ 1 := by
  have hzero : ProxyFile.closes s = 0 := by
    by_contra hne
    exact h.unsent (hs.one x .sent h.holder hne)
  rw [h.closes,hzero]
  split <;> simp

theorem step_inv (s : State) (a : Label) (t : State) (hs : Inv s) (h : step s a = some t) : Inv t where
  fresh := step_fresh hs.fresh h
  one := by
    obtain hk | ⟨x,y,hp⟩ | ⟨-,hl,-⟩ := step_duty hs.fresh h
    · intro x y hx hy
      exact hs.one x y ((hk.holds x).mp hx) ((hk.holds y).mp hy)
    · have hy : ∀ z, Holds t z → z = y := by
        intro z hz
        obtain rfl | ⟨hz,hne⟩ := hp.others z hz
        · rfl
        · exact absurd (hs.one z x hz hp.holder) hne
      intro u v hu hv
      rw [hy u hu,hy v hv]
    · intro x y hx hy
      exact hs.one x y (hl x hx) (hl y hy)
  closes_le := by
    obtain hk | ⟨x,y,hp⟩ | ⟨-,-,hc⟩ := step_duty hs.fresh h
    · exact hk.closes ▸ hs.closes_le
    · exact hp.closes_le hs
    · exact hc ▸ hs.closes_le

/-- No request about the descriptor was processed after its `Close`. -/
def NoUseAfterClose (log : List Msg) : Prop :=
  log.Pairwise fun m n => m.isClose = true → n.isClose = true

/-- When the device processes the `Close`, no call holds a copy of the descriptor: none
waits for a connection with it and none has its request on the wire. -/
def ServesCloseLast (s : State) (a : Label) : Prop :=
  ∀ n fd, a = .serve n → s.wire[n]? = some (.close fd) →
    (∀ m ∈ s.wire, m.isClose = true) ∧ ∀ u, (s.uses u).waiting = false

/-- Once the `Close` is processed no request can follow. -/
structure Quiet (s : State) : Prop where
  inv : Inv s
  ordered : NoUseAfterClose s.log
  wire : (∃ m ∈ s.log, m.isClose = true) → ∀ m ∈ s.wire, m.isClose = true
  uses : (∃ m ∈ s.log, m.isClose = true) → ∀ u, (s.uses u).waiting = false

theorem closes_ne_zero_of_log (h : ∃ m ∈ s.log, m.isClose) : closes s ≠ 0 := by
  have hpos := countP_pos_iff.mpr h
  simp only [closes]
  omega

theorem cell_none_of_log (hs : Inv s) (h : ∃ m ∈ s.log, m.isClose) : s.cell = none := by
  by_contra hne
  have hcell : Holds s .cell := isSome_iff_ne_none.mpr hne
  exact absurd (hs.one .cell .sent hcell (closes_ne_zero_of_log h)) (by simp)

theorem waiting_update {f : ℕ → Use} {u : ℕ} {k : Use} (hf : ∀ v, (f v).waiting = false)
    (hk : k.waiting = false) (v : ℕ) : (update f u k v).waiting = false := by
  by_cases hv : v = u
  · subst hv; simpa using hk
  · simpa [hv] using hf v

theorem giveBack_requests (s : State) (u i : ℕ) : (s.giveBack u i).wire = s.wire ∧ (s.giveBack u i).log = s.log ∧
      (s.giveBack u i).uses = update s.uses u .idle := by
  unfold giveBack
  split <;> exact ⟨rfl,rfl,rfl⟩

theorem closes_append (h : ∀ m ∈ wire, m.isClose) (fd : UInt32) : ∀ m ∈ wire++[.close fd], m.isClose := by
  intro m hm
  obtain hm | hm := mem_append.mp hm
  · exact h m hm
  · obtain rfl : m = .close fd := by simpa using hm
    rfl

/-- A step that leaves the log and starts nothing new keeps the order. -/
theorem Quiet.of_log (hs : Quiet s) (ht : Inv t) (hlog : t.log = s.log)
    (hwire : (∃ m ∈ s.log, m.isClose) → ∀ m ∈ t.wire, m.isClose)
    (huses : (∃ m ∈ s.log, m.isClose) → ∀ u, (t.uses u).waiting = false) : Quiet t where
  inv := ht
  ordered := hlog ▸ hs.ordered
  wire := fun h => hwire (hlog ▸ h)
  uses := fun h => huses (hlog ▸ h)

theorem Quiet.serve (hs : Quiet s) (hm : s.wire[n]? = some m)
    (hcond : ServesCloseLast s (.serve n)) (ht : Inv { s with wire := s.wire.eraseIdx n, log := s.log++[m] }) :
    Quiet { s with wire := s.wire.eraseIdx n, log := s.log++[m] } := by
  have hmem : m ∈ s.wire := mem_of_getElem? hm
  have hclosed : (∃ m' ∈ s.log++[m], m'.isClose) → (∀ m' ∈ s.wire, m'.isClose) ∧ ∀ u, (s.uses u).waiting = false := by
    rintro ⟨m',hm',hc⟩
    rcases mem_append.mp hm' with hl | hl
    · exact ⟨hs.wire ⟨m',hl,hc⟩,hs.uses ⟨m',hl,hc⟩⟩
    obtain rfl : m' = m := by simpa using hl
    cases m' with
    | use kind fd => simp [isClose] at hc
    | close fd => exact hcond n fd rfl hm
  refine ⟨ht,?_,fun h m' hm' => (hclosed h).1 m' (mem_of_mem_eraseIdx hm'), fun h => (hclosed h).2⟩
  apply pairwise_append.mpr
  refine ⟨hs.ordered,by simp,?_⟩
  intro m' hm' m'' hm'' hc
  obtain rfl : m'' = m := by simpa using hm''
  exact hs.wire ⟨m',hm',hc⟩ m'' hmem

theorem step_quiet (s : State) (a : Label) (t : State) (hs : Quiet s) (hcond : ServesCloseLast s a)
    (h : step s a = some t) : Quiet t := by
  have ht : Inv t := step_inv s a t hs.inv h
  cases step_effect h with
  | borrow u i n kind hi => exact hs.of_log ht rfl hs.wire fun hl => waiting_update (hs.uses hl) rfl
  | copyFd u i kind fd hc =>
    refine hs.of_log ht rfl hs.wire fun hl => ?_
    simp [cell_none_of_log hs.inv hl] at hc
  | giveBack u i =>
    obtain ⟨hw,hl,hu⟩ := giveBack_requests s u i
    refine hs.of_log ht hl (fun hc => hw ▸ hs.wire hc) fun hc => ?_
    rw [hu]
    exact waiting_update (hs.uses hc) rfl
  | request u i kind fd hu =>
    have hnot : ¬ ∃ m ∈ s.log, m.isClose := by
      intro hl
      simpa [hu,Use.waiting] using hs.uses hl u
    exact hs.of_log ht rfl (fun hl => absurd hl hnot) (fun hl => absurd hl hnot)
  | closeSend i fd hi | closerSend i fd hi => exact hs.of_log ht rfl (fun hl => closes_append (hs.wire hl) fd) hs.uses
  | serve n m ha hm =>
    subst ha
    exact hs.serve hm hcond ht
  | _ => exact hs.of_log ht rfl hs.wire hs.uses

/-- A drop that is told it is not the last leaves a clone behind that has yet to look,
and whoever sends the `Close` gets a connection that takes it. -/
def LeavesOne (s : State) (a : Label) : Prop :=
  (∀ i, NotLast s a i → ∃ j, j ≠ i ∧ (s.clones j).undecided = true) ∧ ¬ Loses s a

/-- Somebody has the duty to close, and the handle itself has it only as long as some
clone is left to take it over. -/
structure Kept (s : State) : Prop where
  inv : Inv s
  held : ∃ x, Holds s x
  taker : s.cell.isSome = true → ∃ i, (s.clones i).undecided = true

theorem undecided_update_ne (hj : (f j).undecided) (hne : j ≠ i) : ∃ j, (update f i k j).undecided :=
  ⟨j,by simpa [hne] using hj⟩

theorem step_taker (hs : Kept s) (hcond : LeavesOne s a)
    (h : step s a = some t) : t.cell.isSome → ∃ i, (t.clones i).undecided := by
  cases step_effect h with
  | clone i n hi => exact fun _ => ⟨s.nextClone,by simp [setClone,undecided]⟩
  | borrow u i n kind hi | closeSend i fd hi | closeLost i fd ha hi => exact fun _ => ⟨i,by simp [setClone,undecided]⟩
  | giveBack u i =>
    intro hc
    rcases giveBack_clones s u i with hg | ⟨n,m,hi,hg⟩
    · rw [hg]
      exact hs.taker (by rwa [giveBack_cell] at hc)
    · exact ⟨i,by simp [hg,undecided]⟩
  | advance i k hs' hk hu hku => exact fun _ => ⟨i,by simpa [setClone] using hku⟩
  | notLast i ha hi =>
    intro _
    obtain ⟨j,hne,hj⟩ := hcond.1 i ha
    exact undecided_update_ne hj hne
  | closed i hi hc => exact fun hsome => by simp [setClone,hc] at hsome
  | released i hi =>
    intro hc
    obtain ⟨j,hj⟩ := hs.taker hc
    exact undecided_update_ne hj fun he => by simp [he,hi,undecided] at hj
  | closeTake i fd hi hc | dropTake i fd hi hc => exact fun hsome => by simp at hsome
  | _ => exact hs.taker

theorem step_kept (s : State) (a : Label) (t : State) (hs : Kept s) (hcond : LeavesOne s a)
    (h : step s a = some t) : Kept t where
  inv := step_inv s a t hs.inv h
  held := by
    obtain ⟨x,hx⟩ := hs.held
    obtain hk | ⟨y,z,hp⟩ | ⟨hg,-,-⟩ := step_duty hs.inv.fresh h
    · exact ⟨x,(hk.holds x).mpr hx⟩
    · exact ⟨z,hp.taker⟩
    · exact absurd hg hcond.2
  taker := step_taker hs hcond h

/-- A `Close` was sent, or a spawned task is about to: its own next steps send it. -/
def SendsClose (s : State) : Prop :=
  closes s = 1 ∨ ∃ i, ∃ as ∈ [[Label.closerSend i],[.closerAcquired i,.closerSend i]],
    ∃ t, exec step s as = some t ∧ closes t = 1

theorem closerSend_closes (hi : s.closers i = .send fd)
    (hzero : closes s = 0) : ∃ t, exec step s [.closerSend i] = some t ∧ closes t = 1 :=
  ⟨{ s.setCloser i .sent with wire := s.wire++[.close fd] },by simp [exec,step,hi],
    by simpa [hzero] using (passes_closerSend hi).closes⟩

theorem closerAcquired_closes (hi : s.closers i = .wait fd n) (hzero : closes s = 0) :
    ∃ t, exec step s [.closerAcquired i,.closerSend i] = some t ∧ closes t = 1 := by
  have hsend : (s.setCloser i (.send fd)).closers i = .send fd := by simp [setCloser]
  obtain ⟨t,ht,hc⟩ := closerSend_closes hsend hzero
  exact ⟨t,exec_cons_iff.mpr ⟨_,by simp [step,hi],ht⟩,hc⟩

theorem Kept.sendsClose (hs : Kept s) (hgone : ∀ i, s.clones i = .gone) : SendsClose s := by
  obtain ⟨x,hx⟩ := hs.held
  cases x with
  | cell =>
    obtain ⟨i,hi⟩ := hs.taker hx
    simp [hgone i,undecided] at hi
  | close i => simp [Holds,hgone i,sending] at hx
  | closer i =>
    have hzero : closes s = 0 := by
      by_contra hne
      simpa using hs.inv.one (.closer i) .sent hx hne
    simp only [Holds] at hx
    cases hi : s.closers i with
    | send fd => exact .inr ⟨i,_,by simp,closerSend_closes hi hzero⟩
    | wait fd n => exact .inr ⟨i,_,by simp,closerAcquired_closes hi hzero⟩
    | _ => simp [hi,pending] at hx
  | sent => exact .inl (le_antisymm hs.inv.closes_le (Nat.one_le_iff_ne_zero.mpr hx))

/-- At most one `Close` is sent in every run. It is the last request the device processes
if no call holds a copy of the descriptor then, and it is sent once all clones are gone if
no two drops each take the other for the last and no connection fails before it has taken it. -/
theorem close_sent_once_and_last (fd : UInt32) (as : List Label) (s : State) (h : exec step (init fd) as = some s) :
    closes s ≤ 1 ∧
    (Meets step ServesCloseLast (init fd) as → NoUseAfterClose s.log) ∧
    (Meets step LeavesOne (init fd) as → (∀ i, s.clones i = .gone) → SendsClose s) := by
  refine ⟨?_,?_,?_⟩
  · exact (exec_invariant step_inv (init_inv fd) h).closes_le
  · intro hm
    exact (exec_invariant_of_meets step_quiet ⟨init_inv fd,.nil,by simp [init],by simp [init]⟩ hm h).ordered
  · intro hm hgone
    exact (exec_invariant_of_meets step_kept ⟨init_inv fd,⟨.cell,rfl⟩,fun _ => ⟨0,rfl⟩⟩ hm h).sendsClose hgone

theorem servesCloseLast_of_ne (h : ∀ n, a ≠ .serve n) : ServesCloseLast s a := fun n _ ha => absurd ha (h n)

theorem leavesOne_of_ne (h : ∀ i, a ≠ .dropCount i) (h' : ¬ Loses s a) : LeavesOne s a := ⟨fun i ha => absurd ha.1 (h i),h'⟩

/-- Two clones: one is dropped, the other reads, is dropped as the last and closes. -/
def readThenDrop : List Label :=
  [.clone 0,.drop 1,.dropCount 1,.dropRelease 1,.use 0 0 .read,.copyFd 0,.useAcquired 0,.serve 0,
    .useReturn 0,.drop 0,.dropCount 0,.dropTake 0,.dropRelease 0,.closerAcquired 0,.closerSend 0,
    .serve 0]

theorem readThenDrop_servesCloseLast : Meets step ServesCloseLast (init 7) readThenDrop := by
  iterate 7 refine meets_cons rfl (servesCloseLast_of_ne (by simp)) ?_
  refine meets_cons rfl (fun n fd ha hm => ?_) ?_
  · obtain rfl : 0 = n := by simpa using ha
    cases hm
  iterate 7 refine meets_cons rfl (servesCloseLast_of_ne (by simp)) ?_
  have hwire : ∀ m ∈ [close 7], m.isClose := by decide
  refine meets_cons rfl (fun n fd ha hm => ⟨hwire,?_⟩) trivial
  rintro (_ | u) <;> rfl

theorem readThenDrop_leavesOne : Meets step LeavesOne (init 7) readThenDrop := by
  iterate 2 refine meets_cons rfl (leavesOne_of_ne (by simp) nofun) ?_
  refine meets_cons rfl ⟨fun i ha => ⟨0,?_,rfl⟩,nofun⟩ ?_
  · rintro rfl
    cases ha.1
  iterate 7 refine meets_cons rfl (leavesOne_of_ne (by simp) nofun) ?_
  refine meets_cons rfl ⟨fun i ha => absurd rfl ha.2,nofun⟩ ?_
  iterate 5 refine meets_cons rfl (leavesOne_of_ne (by simp) nofun) ?_
  trivial

theorem close_sent_once_and_last_after_read :
    ∃ s, exec step (init 7) readThenDrop = some s ∧ closes s ≤ 1 ∧ NoUseAfterClose s.log ∧
      (∀ i, s.clones i = .gone) ∧ SendsClose s := by
  obtain ⟨s,hs,hgone⟩ : ∃ s, exec step (init 7) readThenDrop = some s ∧ ∀ i, s.clones i = .gone := by
    refine ⟨_,rfl,?_⟩
    rintro (_ | _ | i) <;> rfl
  have h := close_sent_once_and_last 7 readThenDrop s hs
  exact ⟨s,hs,h.1,h.2.1 readThenDrop_servesCloseLast,hgone,h.2.2 readThenDrop_leavesOne hgone⟩

/-- The only clone is closed, and the connection turns out to be broken when the `Close` is sent. -/
def closeOnBroken : List Label :=
  [.close 0,.closeAcquired 0,.closeTake 0,.closeLost 0,.dropCount 0,.dropTake 0,.dropRelease 0]

/-- The only clone is dropped, and the task that it leaves cannot open a connection. -/
def dropUnconnected : List Label := [.drop 0,.dropCount 0,.dropTake 0,.dropRelease 0,.closerFailed 0]

theorem not_sendsClose (hzero : closes s = 0) (h : ∀ i, (s.closers i).pending = false) : ¬ SendsClose s := by
  have hidle : ∀ i, step s (.closerSend i) = none ∧ step s (.closerAcquired i) = none := by
    intro i
    have hi := h i
    cases hcloser : s.closers i with
    | wait fd n | send fd =>
      rw [hcloser] at hi
      cases hi
    | _ => simp [step,hcloser]
  rintro (hone | ⟨i,as,has,t,ht,-⟩)
  · omega
  · rcases mem_pair.mp has with rfl | rfl <;> simp [exec,hidle i] at ht

/-- No `Close` is sent, though all clones are gone. -/
theorem close_never_sent :
    (∃ s, exec step (init 7) closeOnBroken = some s ∧ (∀ i, s.clones i = .gone) ∧ ¬ SendsClose s) ∧
      ∃ s, exec step (init 7) dropUnconnected = some s ∧ (∀ i, s.clones i = .gone) ∧ ¬ SendsClose s := by
  constructor
  all_goals
    refine ⟨_,rfl,?_,not_sendsClose rfl ?_⟩
    · rintro (_ | i) <;> rfl
    · rintro (_ | i) <;> rfl

end AdbShare.ProxyFile

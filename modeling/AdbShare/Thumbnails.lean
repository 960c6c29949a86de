import AdbShare.PathBuf
import AdbShare.Transition

/-! Previews of the files that the browser shows: where they are read from, the pool that makes them
and the marks that failures leave. -/
namespace AdbShare.Thumbnails

open Transition List

inductive Size
  | normal | large
  deriving DecidableEq

abbrev Key := PathBuf × Size

def WORKERS : ℕ := 4
def MAX_QUEUE : ℕ := 256

/-- The browser's part: what it shows, and what it has asked for in vain since the listing came. -/
structure Browser where
  localMode : Bool
  fuseMount : Option PathBuf
  currentPath : PathBuf
  thumbs : List Key
  thumbMissed : List PathBuf

namespace Browser

def fullPath (b : Browser) (name : Bytes) : PathBuf := b.currentPath.join (.ofText name)

/-- `strip_prefix` of the root. -/
def stripRoot (p : PathBuf) : Option PathBuf := if p.absolute then some ⟨false,p.components⟩ else none

def localPathOf (b : Browser) (name : Bytes) : Option PathBuf :=
  if b.localMode then some (b.fullPath name)
  else do
    let mount ← b.fuseMount
    let relative ← stripRoot (b.fullPath name)
    pure (mount.join relative)

def thumbnailSource (b : Browser) (name : Bytes) : Option PathBuf :=
  let devicePath := b.currentPath.join (.ofText name)
  if b.localMode then some devicePath else b.fuseMount.map fun mount => mount.join devicePath

/-- The preview is read from the file that is opened, and that is one under the mountpoint. -/
def Faithful (b : Browser) (m : PathBuf) (name : Bytes) : Prop :=
  ∃ p, b.thumbnailSource name = some p ∧ b.localPathOf name = some p ∧ p.absolute = m.absolute ∧ m.components <+: p.components

/-- With a device mounted at `m`. -/
theorem faithful_iff (m dir : PathBuf) (thumbs : List Key) (missed : List PathBuf) (name : Bytes) :
    Faithful ⟨false,some m,dir,thumbs,missed⟩ m name ↔ (dir.join (.ofText name)).absolute = true ∧ m = .root := by
  simp only [Faithful,thumbnailSource,localPathOf,fullPath]
  generalize dir.join (.ofText name) = p
  obtain ⟨absolute,components⟩ := p
  cases absolute with
  | false => simp [stripRoot]
  | true =>
    obtain ⟨absolute,above⟩ := m
    simp [stripRoot,PathBuf.join,PathBuf.root]
    rintro rfl rfl
    exact ⟨rfl, nil_prefix⟩

/-- The directory `/d` of a phone that is mounted at `/m`. -/
def phone : Browser := ⟨false,some (.ofText [47,109]),.ofText [47,100],[],[]⟩

/-- The preview of `/d/f` is made from the computer's own `/d/f`. -/
theorem host_file_shown : phone.thumbnailSource [102] = some (.ofText [47,100,47,102]) ∧
    phone.localPathOf [102] = some (.ofText [47,109,47,100,47,102]) ∧ ¬phone.Faithful (.ofText [47,109]) [102] := by
  refine ⟨by decide,by decide,?_⟩
  rintro ⟨p,hsource,hlocal,-⟩
  exact absurd (hsource.trans hlocal.symm) (by decide)

end Browser

/-- The pool: jobs that are queued, those that a worker has taken, and finished ones that the view
has not adopted yet; and the view itself. -/
structure State where
  queue : List Key
  running : List Key
  done : List (Key × Bool)
  view : Browser

/-- The frame's calls, the lock of the queue and that of the finished list; `made` if there is a preview. -/
inductive Event
  | request (key : Key)
  | takeFinished
  | installEntries
  | pop
  | finish (key : Key) (made : Bool)

def adopt (b : Browser) (p : Key × Bool) : Browser :=
  if p.2 then { b with thumbMissed := b.thumbMissed.filter (· ≠ p.1.1), thumbs := p.1::b.thumbs }
  else { b with thumbMissed := p.1.1::b.thumbMissed }

def step (s : State) : Event → Option State
  | .request key => if key ∈ s.view.thumbs ∨ key.1 ∈ s.view.thumbMissed then none
    else if MAX_QUEUE ≤ s.queue.length ∨ key ∈ s.queue then some s
    else some { s with queue := s.queue++[key] }
  | .takeFinished => some { s with done := [], view := s.done.foldl adopt s.view }
  | .installEntries => some { s with view := { s.view with thumbMissed := [] } }
  | .pop => match s.queue with
    | key::queue => if s.running.length < WORKERS then some { s with queue, running := key::s.running } else none
    | [] => none
  | .finish key made => if key ∈ s.running then
      some { s with running := s.running.erase key, done := s.done++[(key,made)] } else none

def State.jobs (s : State) : List Key := s.queue++(s.running++s.done.map Prod.fst)

/-- A preview is asked for while no worker makes it and none waits to be adopted. -/
def Idle (s : State) : Event → Prop
  | .request key => key ∉ s.running ∧ key ∉ s.done.map Prod.fst
  | _ => True

theorem step_nodup (s : State) (e : Event) (t : State) (h : s.jobs.Nodup) (hidle : Idle s e) (hs : step s e = some t) :
    t.jobs.Nodup := by
  cases e with
  | request key =>
    simp only [step] at hs
    split_ifs at hs with hshown hqueued
    · cases hs
      exact h
    · cases hs
      have hnew : key ∉ s.jobs := by simp_all [State.jobs,Idle]
      have hperm : (s.queue++[key]++(s.running++s.done.map Prod.fst)).Perm (key::s.jobs) := by
        rw [append_assoc]
        exact perm_middle
      exact hperm.nodup_iff.mpr (nodup_cons.mpr ⟨hnew,h⟩)
  | takeFinished =>
    cases hs
    exact h.sublist (by simp [State.jobs])
  | installEntries =>
    cases hs
    exact h
  | pop =>
    simp only [step] at hs
    split at hs
    · rename_i key queue hq
      split_ifs at hs
      cases hs
      simp only [State.jobs,hq] at h ⊢
      exact perm_middle.nodup_iff.mpr h
    · cases hs
  | finish key made =>
    simp only [step] at hs
    split_ifs at hs with hrun
    cases hs
    have hperm : (s.running.erase key++(s.done++[(key,made)]).map Prod.fst).Perm (s.running++s.done.map Prod.fst) := by
      rw [map_append,← append_assoc]
      exact (perm_append_singleton _ _).trans ((perm_cons_erase hrun).symm.append_right _)
    exact (hperm.append_left _).nodup_iff.mpr h

def init (view : Browser) : State := ⟨[],[],[],view⟩

theorem one_job_each {view : Browser} {es : List Event} {s : State} (hidle : Meets step Idle (init view) es)
    (h : exec step (init view) es = some s) : s.jobs.Nodup :=
  exec_invariant_of_meets step_nodup (by simp [init,State.jobs]) hidle h

def desk : Browser := ⟨true,none,.root,[],[]⟩

instance (s : State) (e : Event) : Decidable (Idle s e) := by
  unfold Idle
  split <;> infer_instance

/-- Two previews are asked for, one of them twice while it is queued, and once more after it has failed and a new
listing has come. -/
def asked : List Event :=
  [.request (.root,.large),.request (.root,.large),.request (.root,.normal),.pop,.pop,.finish (.root,.large) false,
    .takeFinished,.installEntries,.request (.root,.large)]

theorem one_job_each_once :
    ∃ s, exec step (init desk) asked = some s ∧ s.jobs = [(.root,.large),(.root,.normal)] ∧ s.jobs.Nodup := by
  have hidle : Meets step Idle (init desk) asked := meets_of_check (fun _ _ => of_decide_eq_true) (by decide +kernel)
  exact ⟨_,rfl,rfl,one_job_each hidle rfl⟩

/-- The next frame asks again while a worker makes the preview, and another worker takes that up too. -/
theorem made_twice : ∃ s, exec step (init desk) [.request (.root,.large),.pop,.request (.root,.large),.pop] = some s ∧
    s.running = [(.root,.large),(.root,.large)] ∧ ¬s.jobs.Nodup :=
  ⟨_,rfl,rfl,by decide⟩

/-- One file: its time of modification, whether its metadata and its contents can be read, whether its failure is
marked on disk, the time that its stored preview bears, and whether it is among the misses; and whether a job
has ended without a preview, and the file has changed or become readable since the last one that tried. -/
structure File where
  mtime : ℕ
  listed : Bool
  readable : Bool
  failMark : Bool
  stored : Option ℕ
  missed : Bool
  failed : Bool
  changed : Bool
  deriving DecidableEq

/-- A mount brings the metadata or takes it away, and permissions do that to the contents. -/
inductive Deed
  | edit (mtime : ℕ)
  | mount (listed : Bool)
  | permit (readable : Bool)
  | installEntries
  | job (renders written : Bool)

def File.cached (f : File) : Bool := f.listed && f.stored = some f.mtime

/-- `generate` comes to the renderer. -/
def File.attempts (f : File) : Bool := !f.failMark && f.listed

/-- `renders` if the contents are such as can be rendered, and `written` if what is stored in the end, the preview
or the mark, gets to the disk. -/
def File.work (f : File) (renders written : Bool) : File :=
  if f.cached then f
  else if f.failMark then { f with missed := true, failed := true }
  else if !f.listed then { f with missed := true, failed := true, changed := false }
  else if f.readable && renders then { f with stored := if written then some f.mtime else f.stored }
  else { f with failMark := written, missed := true, failed := true, changed := false }

def File.step (f : File) : Deed → Option File
  | .edit mtime => some { f with mtime, changed := f.changed || mtime ≠ f.mtime }
  | .mount listed => some { f with listed, changed := f.changed || listed && !f.listed }
  | .permit readable => some { f with readable, changed := f.changed || readable && !f.readable }
  | .installEntries => some { f with missed := false }
  | .job renders written => if f.missed then none else some (f.work renders written)

/-- A file that failed once and is another now is rendered when it is asked for, unless a preview is there. -/
def File.Retried (f : File) : Prop :=
  f.failed = true → f.changed = true → f.missed = false → f.listed = true → f.cached = true ∨ f.attempts = true

/-- A file whose failure is marked neither changes nor becomes readable. -/
def File.Spared (f : File) : Deed → Prop
  | .edit mtime => f.failMark = true → mtime = f.mtime
  | .mount listed => f.failMark = true → listed = true → f.listed = true
  | .permit readable => f.failMark = true → readable = true → f.readable = true
  | _ => True

instance (f : File) (d : Deed) : Decidable (f.Spared d) := by
  unfold File.Spared
  split <;> infer_instance

theorem File.step_unchanged (f : File) (d : Deed) (g : File) (h : f.failMark → f.changed = false)
    (hspared : f.Spared d) (hg : f.step d = some g) : g.failMark → g.changed = false := by
  cases d with
  | edit mtime | mount listed | permit readable =>
    cases hg
    intro hmark
    simp_all [Spared]
  | installEntries =>
    cases hg
    exact h
  | job renders written =>
    simp only [step] at hg
    split_ifs at hg
    cases hg
    unfold work
    split_ifs <;> simp_all

def File.new (mtime : ℕ) (listed readable : Bool) : File := ⟨mtime,listed,readable,false,none,false,false,false⟩

/-- A file that is not there is asked for, and again when it has come; that fails too, but leaves no mark. -/
def unmarked : List Deed := [.job true true,.mount true,.installEntries,.job false false,.edit 2,.installEntries]

end AdbShare.Thumbnails

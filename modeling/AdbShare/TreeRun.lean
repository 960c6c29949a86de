import AdbShare.TreeWalk

/-! A tree transfer by itself. Everything it meets on its way, in the order in which it does,
is a list of sights, and the call is a fold over that list which may stop early. -/
namespace AdbShare.TreeWalk

open Prog PathText StackWalk List

structure World where
  device : Posix.Graph FileName
  /-- The jobs submitted, with their numbers. -/
  queued : List (ℕ × NewJob)

/-- How the host, the device and the queue answer. -/
structure Env where
  connected : Bool
  readDir : Bytes → Except String (List (Except String LocalEntry))
  createDirAll : Bytes → Except String Unit
  mkdir : Posix.Graph FileName → Bytes → Except ProxyError Unit × Posix.Graph FileName
  listdir : Bytes → Except ProxyError (List DirEntry)
  id : ℕ → ℕ

section

variable (env : Env)

def World.mkdir (w : World) (path : Bytes) : World := { w with device := (env.mkdir w.device path).2 }

/-- The number of the next job. -/
def World.nextId (w : World) : ℕ := env.id w.queued.length

def World.submit (w : World) (job : NewJob) : World := { w with queued := w.queued++[(w.nextId env,job)] }

def act : (β : Type) → Act β → World → Option (β × World)
  | _, .clientFor _, w => some (env.connected,w)
  | _, .readDir dir, w => some (env.readDir dir,w)
  | _, .createDirAll path, w => some (env.createDirAll path,w)
  | _, .mkdir path _, w => some ((env.mkdir w.device path).1,w.mkdir env path)
  | _, .listdir path, w => some (env.listdir path,w)
  | _, .submit job, w => some (w.nextId env,w.submit env job)
  | _, .stuck, _ => none

/-- What a call comes to: a directory that is too deep; one that cannot be listed; an entry whose
kind cannot be told or that cannot be made on the other side; one that is left out; a directory;
a file. -/
inductive Sight
  | deep (dir : Bytes)
  | lost (skipped : Option Bytes) (e : BusError)
  | unknown (skipped : Bytes) (e : BusError)
  | passed
  | dir (make : Posix.Graph FileName → Posix.Graph FileName)
  | file (job : NewJob)

def nestingError (dir : Bytes) : String := Utf8.toString dir++": directory nesting too deep"

abbrev State := TreeEnqueueResult × World

/-- What an entry does once the number of files has been checked. -/
def enter (s : State) : Sight → Except (Reply × World) State
  | .unknown _ e => .error (.error e,s.2)
  | .dir make => .ok (s.1,{ s.2 with device := make s.2.device })
  | .file job => .ok (s.1.queued (s.2.nextId env),s.2.submit env job)
  | _ => .ok s

def step (s : State) : Sight → Except (Reply × World) State
  | .deep dir => .ok (s.1.report (nestingError dir),s.2)
  | .lost _ e => .error (.error e,s.2)
  | sight =>
    match treeFileCapError s.1.enqueued.length with
    | some e => .error (.ok (s.1.report e),s.2)
    | none => enter env s sight

/-- What the call returns. -/
def finish : Except (Reply × World) State → Reply × World
  | .error r => r
  | .ok s => (.ok s.1,s.2)

/-- What a round of the loop comes to. -/
def resume (stack : List Level) : Except (Reply × World) State → Except Reply (TreeEnqueueResult × List Level) × World
  | .error r => (.error r.1,r.2)
  | .ok s => (.ok (s.1,stack),s.2)

variable (device : String) (options : JobOptions)

def sightPush (x : Level) : Except String LocalEntry → Sight
  | .error e => .lost (some x.source) (readError x.source e)
  | .ok entry =>
    match entry.fileType with
    | .error e => .unknown (join x.source entry.name.bytes) (statError (join x.source entry.name.bytes) e)
    | .ok .dir => .dir fun g => (env.mkdir g (remoteStr x entry)).2
    | .ok .file => .file (pushJob device options x entry)
    | .ok _ => .passed

def lookPush (x : Level) : List Sight :=
  if x.depth ≥ TREE_MAX_DEPTH then [.deep x.source]
  else match env.readDir x.source with
    | .error e => [.lost (some x.source) (readError x.source e)]
    | .ok entries => entries.map (sightPush env device options x)

def childPush (x : Level) : Except String LocalEntry → Option Level
  | .error _ => none
  | .ok entry =>
    match entry.fileType with
    | .ok .dir => some (pushChild x entry)
    | _ => none

/-- The directories in a directory, the last first. -/
def kidsPush (x : Level) : List Level :=
  if x.depth ≥ TREE_MAX_DEPTH then []
  else match env.readDir x.source with
    | .error _ => []
    | .ok entries => (entries.filterMap (childPush x)).reverse

def sightPull (x : Level) (entry : DirEntry) : Sight :=
  if entry.stat.mode.isSymlink then .passed
  else if entry.stat.mode.isDir then
    match env.createDirAll (join x.target entry.name) with
    | .error e => .unknown (childPath x.source entry.name) (mkdirError (join x.target entry.name) e)
    | .ok _ => .dir id
  else .file (pullJob device options x entry)

def lookPull (x : Level) : List Sight :=
  if x.depth ≥ TREE_MAX_DEPTH then [.deep x.source]
  else match env.listdir x.source with
    | .error e => [.lost (some x.source) (listError x.source e)]
    | .ok entries => entries.map (sightPull env device options x)

def childPull (x : Level) (entry : DirEntry) : Option Level :=
  if entry.stat.mode.isSymlink then none
  else if entry.stat.mode.isDir then some (pullChild x entry)
  else none

def kidsPull (x : Level) : List Level :=
  if x.depth ≥ TREE_MAX_DEPTH then []
  else match env.listdir x.source with
    | .error _ => []
    | .ok entries => (entries.filterMap (childPull x)).reverse

end

variable {visit : Level → TreeEnqueueResult → List Level → Prog Act (Except Reply (TreeEnqueueResult × List Level))}
  {look : Level → List Sight} {kids : Level → List Level}

section

variable {env : Env} {device e : String} {options : JobOptions} {x y : Level} {out : TreeEnqueueResult} {w : World}
  {sight : Sight} {entry : Except String LocalEntry} {ε : Type} {child : ε → Option Level} {entries : List ε}

/-- The entries of directories. -/
def Sight.isEntry : Sight → Bool
  | .deep _ | .lost _ _ => false
  | _ => true

theorem step_full (h : sight.isEntry) (hcap : treeFileCapError out.enqueued.length = some e) :
    step env (out,w) sight = .error (.ok (out.report e),w) := by
  cases sight <;> simp_all [step,Sight.isEntry]

theorem step_entry (h : sight.isEntry)
    (hcap : treeFileCapError out.enqueued.length = none) : step env (out,w) sight = enter env (out,w) sight := by
  cases sight <;> simp_all [step,Sight.isEntry]

theorem isEntry_sightPush (entry : LocalEntry) : (sightPush env device options x (.ok entry)).isEntry := by
  rw [sightPush]
  split <;> rfl

theorem isEntry_sightPull (entry : DirEntry) : (sightPull env device options x entry).isEntry := by
  rw [sightPull]
  split
  · rfl
  · split
    · split <;> rfl
    · rfl

theorem play_pushEntries (entries : List (Except String LocalEntry)) (out : TreeEnqueueResult)
    (stack : List Level) (w : World) :
    (pushEntries device options x entries out stack).play (act env) w =
      some (resume ((entries.filterMap (childPush x)).reverse++stack)
        ((entries.map (sightPush env device options x)).foldlM (step env) (out,w))) := by
  induction entries generalizing out stack w with
  | nil => rfl
  | cons entry rest ih =>
    cases entry with
    | error e => rfl
    | ok entry =>
      rw [map_cons,foldlM_cons,pushEntries]
      cases hcap : treeFileCapError out.enqueued.length with
      | some e =>
        rw [step_full (isEntry_sightPush entry) hcap]
        rfl
      | none =>
        rw [step_entry (isEntry_sightPush entry) hcap]
        cases htype : entry.fileType with
        | error e =>
          simp only [sightPush,htype,enter]
          rfl
        | ok kind =>
          cases kind with
          | symlink | other =>
            simp only [sightPush,htype,enter,filterMap_cons,childPush]
            exact ih out stack w
          | dir =>
            simp only [sightPush,htype,enter,filterMap_cons,childPush,reverse_cons,append_assoc]
            exact ih out (pushChild x entry::stack) (w.mkdir env (remoteStr x entry))
          | file =>
            simp only [sightPush,htype,enter,filterMap_cons,childPush]
            exact ih (out.queued (w.nextId env)) stack (w.submit env (pushJob device options x entry))

theorem play_pullEntries (entries : List DirEntry) (out : TreeEnqueueResult) (stack : List Level) (w : World) :
    (pullEntries device options x entries out stack).play (act env) w =
      some (resume ((entries.filterMap (childPull x)).reverse++stack)
        ((entries.map (sightPull env device options x)).foldlM (step env) (out,w))) := by
  induction entries generalizing out stack w with
  | nil => rfl
  | cons entry rest ih =>
    rw [map_cons,foldlM_cons,pullEntries]
    cases hcap : treeFileCapError out.enqueued.length with
    | some e =>
      rw [step_full (isEntry_sightPull entry) hcap]
      rfl
    | none =>
      rw [step_entry (isEntry_sightPull entry) hcap]
      cases hlink : entry.stat.mode.isSymlink with
      | true =>
        simp only [sightPull,hlink,if_true,enter,filterMap_cons,childPull]
        exact ih out stack w
      | false =>
        cases hdir : entry.stat.mode.isDir with
        | true =>
          simp only [sightPull,hlink,hdir,if_true,filterMap_cons,childPull,reverse_cons,
            append_assoc,Bool.false_eq_true,if_false]
          cases hmake : env.createDirAll (join x.target entry.name) with
          | error e =>
            rw [play_perform_bind,act,hmake]
            rfl
          | ok u =>
            rw [play_perform_bind,act,hmake]
            exact ih out (pullChild x entry::stack) w
        | false =>
          simp only [sightPull,hlink,hdir,filterMap_cons,childPull,Bool.false_eq_true,if_false]
          exact ih (out.queued (w.nextId env)) stack (w.submit env (pullJob device options x entry))

theorem treeDepthError_eq (path : Bytes) (depth : ℕ) : treeDepthError path depth =
    if depth ≥ TREE_MAX_DEPTH then some (nestingError path) else none := rfl

theorem play_visitPush (x : Level) (out : TreeEnqueueResult) (stack : List Level) (w : World) :
    (visitPush device options x out stack).play (act env) w =
      some (resume (kidsPush env x++stack) ((lookPush env device options x).foldlM (step env) (out,w))) := by
  unfold visitPush lookPush kidsPush
  rw [treeDepthError_eq]
  by_cases hdeep : x.depth ≥ TREE_MAX_DEPTH
  · rw [if_pos hdeep,if_pos hdeep,if_pos hdeep]
    rfl
  rw [if_neg hdeep,if_neg hdeep,if_neg hdeep]
  dsimp only
  rw [play_perform_bind,act]
  cases env.readDir x.source with
  | error e => rfl
  | ok entries => exact play_pushEntries entries out stack w

theorem play_visitPull (x : Level) (out : TreeEnqueueResult) (stack : List Level) (w : World) :
    (visitPull device options x out stack).play (act env) w =
      some (resume (kidsPull env x++stack) ((lookPull env device options x).foldlM (step env) (out,w))) := by
  unfold visitPull lookPull kidsPull
  rw [treeDepthError_eq]
  by_cases hdeep : x.depth ≥ TREE_MAX_DEPTH
  · rw [if_pos hdeep,if_pos hdeep,if_pos hdeep]
    rfl
  rw [if_neg hdeep,if_neg hdeep,if_neg hdeep]
  dsimp only
  rw [play_perform_bind,act]
  cases env.listdir x.source with
  | error e => rfl
  | ok entries => exact play_pullEntries entries out stack w

/-- The loop as a walk with a stack. -/
theorem play_treeLoop (hvisit : ∀ x out stack w, (visit x out stack).play (act env) w =
      some (resume (kids x++stack) ((look x).foldlM (step env) (out,w))))
    (rounds : ℕ) (stack : List Level) (out : TreeEnqueueResult) (w : World) :
    (treeLoop visit rounds stack out).play (act env) w = (drain look kids (step env) rounds stack (out,w)).map finish := by
  induction rounds generalizing stack out w with
  | zero => rfl
  | succ rounds ih =>
    cases stack with
    | nil => rfl
    | cons x rest =>
      rw [treeLoop,play_bind,hvisit,drain]
      cases (look x).foldlM (step env) (out,w) with
      | error r => rfl
      | ok s => exact ih _ _ _

theorem depth_childPush (h : childPush x entry = some y) : y.depth = x.depth+1 := by
  unfold childPush at h
  split at h
  · cases h
  split at h
  · cases h
    rfl
  · cases h

theorem depth_childPull {entry : DirEntry} (h : childPull x entry = some y) : y.depth = x.depth+1 := by
  unfold childPull at h
  split at h
  · cases h
  · split_ifs at h
    cases h
    rfl

theorem depth_filterMap (hx : ¬ x.depth ≥ TREE_MAX_DEPTH) (hchild : ∀ {e y}, child e = some y → y.depth = x.depth+1) :
    ∀ y ∈ (entries.filterMap child).reverse, TREE_MAX_DEPTH-y.depth+1 = TREE_MAX_DEPTH-x.depth := by
  intro y hy
  obtain ⟨entry,-,hentry⟩ := mem_filterMap.mp (mem_reverse.mp hy)
  have := hchild hentry
  omega

theorem depth_kidsPush : ∀ y ∈ kidsPush env x, TREE_MAX_DEPTH-y.depth+1 = TREE_MAX_DEPTH-x.depth := by
  unfold kidsPush
  split
  · simp
  rename_i hdeep
  split
  · simp
  · exact depth_filterMap hdeep depth_childPush

theorem depth_kidsPull : ∀ y ∈ kidsPull env x, TREE_MAX_DEPTH-y.depth+1 = TREE_MAX_DEPTH-x.depth := by
  unfold kidsPull
  split
  · simp
  rename_i hdeep
  split
  · simp
  · exact depth_filterMap hdeep depth_childPull

end

section

variable (env : Env) (device : String) (overwrite : String) (verify : Bool)

/-- Everything that a push of a tree meets, in order. -/
def pushSights (localDir deviceDir : Text) : List Sight :=
  match checkArgs overwrite verify localDir.bytes deviceDir.bytes with
  | .error e => [.lost none e]
  | .ok options =>
    if env.connected then
      trail (lookPush env device options) (kidsPush env) TREE_MAX_DEPTH ⟨localDir.bytes,deviceDir.bytes,0⟩
    else [.lost none notConnected]

def pullSights (deviceDir localDir : Text) : List Sight :=
  match checkArgs overwrite verify deviceDir.bytes localDir.bytes with
  | .error e => [.lost none e]
  | .ok options =>
    match env.createDirAll localDir.bytes with
    | .error e => [.lost none (mkdirError localDir.bytes e)]
    | .ok _ =>
      if env.connected then
        trail (lookPull env device options) (kidsPull env) TREE_MAX_DEPTH ⟨deviceDir.bytes,localDir.bytes,0⟩
      else [.lost none notConnected]

/-- With rounds enough a walk from one directory ends, and is the fold over what it meets. -/
theorem exists_rounds (hvisit : ∀ x out stack w, (visit x out stack).play (act env) w =
      some (resume (kids x++stack) ((look x).foldlM (step env) (out,w))))
    (hrank : ∀ x, ∀ y ∈ kids x, TREE_MAX_DEPTH-y.depth+1 = TREE_MAX_DEPTH-x.depth) (source target : Bytes) :
    ∃ enough, ∀ rounds ≥ enough, ∀ w, (treeLoop visit rounds [⟨source,target,0⟩] .empty).play (act env) w =
      some (finish ((trail look kids TREE_MAX_DEPTH ⟨source,target,0⟩).foldlM (step env) (.empty,w))) := by
  refine ⟨(nodes kids TREE_MAX_DEPTH ⟨source,target,0⟩).length+1,?_⟩
  intro rounds hrounds w
  have hwalk : drain look kids (step env) rounds [⟨source,target,0⟩] (.empty,w) =
      some ((trail look kids TREE_MAX_DEPTH ⟨source,target,0⟩).foldlM (step env) (.empty,w)) := by
    rw [drain_eq hrank (by simpa using hrounds)]
    simp
  rw [play_treeLoop hvisit,hwalk]
  rfl

theorem play_enqueueTreePush (localDir deviceDir : Text) : ∃ enough, ∀ rounds ≥ enough, ∀ w,
    (enqueueTreePush rounds device localDir deviceDir overwrite verify).play (act env) w =
      some (finish ((pushSights env device overwrite verify localDir deviceDir).foldlM (step env) (.empty,w))) := by
  unfold enqueueTreePush pushSights
  cases checkArgs overwrite verify localDir.bytes deviceDir.bytes with
  | error e => exact ⟨0,fun _ _ _ => rfl⟩
  | ok options =>
    cases hconn : env.connected with
    | false =>
      refine ⟨0,fun _ _ w => ?_⟩
      rw [play_perform_bind,act,hconn]
      rfl
    | true =>
      obtain ⟨enough,h⟩ := exists_rounds env play_visitPush
        (fun x => depth_kidsPush) localDir.bytes deviceDir.bytes
      refine ⟨enough,fun rounds hrounds w => ?_⟩
      rw [play_perform_bind,act,hconn]
      exact h rounds hrounds w

theorem play_enqueueTreePull (deviceDir localDir : Text) : ∃ enough, ∀ rounds ≥ enough, ∀ w,
    (enqueueTreePull rounds device deviceDir localDir overwrite verify).play (act env) w =
      some (finish ((pullSights env device overwrite verify deviceDir localDir).foldlM (step env) (.empty,w))) := by
  unfold enqueueTreePull pullSights
  cases checkArgs overwrite verify deviceDir.bytes localDir.bytes with
  | error e => exact ⟨0,fun _ _ _ => rfl⟩
  | ok options =>
    dsimp only
    cases hmake : env.createDirAll localDir.bytes with
    | error e =>
      refine ⟨0,fun _ _ w => ?_⟩
      rw [play_perform_bind,act,hmake]
      rfl
    | ok u =>
      cases hconn : env.connected with
      | false =>
        refine ⟨0,fun _ _ w => ?_⟩
        rw [play_perform_bind,act,hmake]
        simp only [Option.bind_some]
        rw [play_perform_bind,act,hconn]
        rfl
      | true =>
        obtain ⟨enough,h⟩ := exists_rounds env play_visitPull
          (fun x => depth_kidsPull) deviceDir.bytes localDir.bytes
        refine ⟨enough,fun rounds hrounds w => ?_⟩
        rw [play_perform_bind,act,hmake]
        simp only [Option.bind_some]
        rw [play_perform_bind,act,hconn]
        exact h rounds hrounds w

end

/-- A device with nothing on it. -/
def bareDevice : Posix.Graph FileName where
  kind _ := .dir
  entries _ := ∅
  up _ := 0
  root := 0
  cwd := 0
  next := 1
  root_lt := by decide
  cwd_lt := by decide
  up_lt _ _ := by decide
  entry_lt d n i h := by simp at h

end AdbShare.TreeWalk

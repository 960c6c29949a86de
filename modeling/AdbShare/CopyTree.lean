import AdbShare.Delete
import AdbShare.PosixGrowth

/-! Copying a directory on the device. `copy_tree` walks the source with a stack of its own,
makes each directory below the destination when it comes to it, then lists the source and asks
for a copy of every file. It lists while it writes to the same file system: whether it comes
to what it has made itself depends on where the destination lies. -/
namespace AdbShare.CopyTree

open Prog PathText Posix Posix.Graph TreeWalk StackWalk Delete List

/-- The fields of `TreeEnqueueResult` that `copy_tree` fills. -/
structure TreeCopyResult where
  copied : ℕ
  errors : List String
  deriving DecidableEq

abbrev Reply := Except BusError TreeCopyResult

inductive Act : Type → Type
  | clientFor (device : String) : Act Bool
  | mkdir (path : Bytes) (mode : ℕ) : Act (Except ProxyError Unit)
  | listdir (path : Bytes) : Act (Except ProxyError (List DirEntry))
  | copyFile (src dst : Bytes) : Act (Except ProxyError Unit)
  /-- Never happens. -/
  | stuck : Act Empty

namespace TreeCopyResult

def empty : TreeCopyResult := ⟨0,[]⟩

variable (out : TreeCopyResult)

def report (e : String) : TreeCopyResult := { out with errors := out.errors++[e] }

def another : TreeCopyResult := { out with copied := out.copied+1 }

/-- What is compared with the limit on files. -/
def count : ℕ := out.copied+out.errors.length

end TreeCopyResult

def copyError (path : Bytes) (e : ProxyError) : String := "copy "++Utf8.toString path++": "++e.text

def copyChild (x : Level) (name : Bytes) : Level := ⟨childPath x.source name,childPath x.target name,x.depth+1⟩

/-- The loop over the entries of a directory: what the call returns, or what it goes on with. -/
def copyEntries (x : Level) : List DirEntry → TreeCopyResult → List Level →
    Prog Act (Except Reply (TreeCopyResult × List Level))
  | [], out, stack => return .ok (out,stack)
  | entry::rest, out, stack =>
    match treeFileCapError out.count with
    | some e => return .error (.ok (out.report e))
    | none =>
      if entry.stat.mode.isSymlink then copyEntries x rest out stack
      else if entry.stat.mode.isDir then copyEntries x rest out (copyChild x entry.name::stack)
      else do
        match ← perform (.copyFile (childPath x.source entry.name) (childPath x.target entry.name)) with
        | .ok _ => copyEntries x rest out.another stack
        | .error e => copyEntries x rest (out.report (copyError (childPath x.source entry.name) e)) stack

/-- A round of the loop in `copy_tree`. -/
def visitCopy (x : Level) (out : TreeCopyResult) (stack : List Level) :
    Prog Act (Except Reply (TreeCopyResult × List Level)) :=
  match treeDepthError x.source x.depth with
  | some e => return .ok (out.report e,stack)
  | none => do
    let _ ← perform (.mkdir x.target 0o755)
    match ← perform (.listdir x.source) with
    | .error e => return .error (.error (listError x.source e))
    | .ok entries => copyEntries x entries out stack

/-- `while let Some(..) = stack.pop()`, for so many rounds; the top of the stack comes first. -/
def copyLoop : ℕ → List Level → TreeCopyResult → Prog Act Reply
  | 0, _, _ => .act .stuck Empty.elim
  | _+1, [], out => return .ok out
  | rounds+1, x::stack, out => do
    match ← visitCopy x out stack with
    | .error reply => return reply
    | .ok (out,stack) => copyLoop rounds stack out

/-- What is checked before anything else. -/
def checkCopy (srcDir dstDir : Bytes) : Except BusError Unit := do
  checkTreePath srcDir
  checkTreePath dstDir
  if srcDir = dstDir then .error (.invalidArgs "source and destination are the same") else .ok ()

def copyTree (rounds : ℕ) (device : String) (srcDir dstDir : Text) : Prog Act Reply :=
  match checkCopy srcDir.bytes dstDir.bytes with
  | .error e => return .error e
  | .ok _ => do
    if ← perform (.clientFor device) then copyLoop rounds [⟨srcDir.bytes,dstDir.bytes,0⟩] .empty
    else return .error notConnected

/-- The files of the device; what is neither a directory nor a link need not be a regular file. -/
structure Device where
  graph : Graph FileName
  regular : ℕ → Bool

namespace Device

variable (dev : Device)

/-- The regular file at a path, a link at its end not followed. -/
def regularAt (path : Bytes) : Option ℕ :=
  match dev.graph.resolve false (parse path) with
  | some s => if dev.graph.kind s.node = .file ∧ dev.regular s.node = true then some s.node else none
  | none => none

def create (path : Bytes) : Option Device :=
  (dev.graph.create (parse path)).map fun g => ⟨g,Function.update dev.regular dev.graph.next true⟩

/-- What a name in the source adds to the copies: a regular file with the path it gets. -/
def share (below : ℕ → Bytes → List (ℕ × Bytes)) (target : Bytes) (e : (_ : FileName) × ℕ) : List (ℕ × Bytes) :=
  match dev.graph.kind e.2 with
  | .file => if dev.regular e.2 then [(e.2,childPath target e.1.bytes)] else []
  | .dir => below e.2 (childPath target e.1.bytes)
  | .link _ => []

/-- The regular files of so many levels of a directory, each with its path below another one. -/
def filesBelow : ℕ → ℕ → Bytes → List (ℕ × Bytes)
  | 0, _, _ => []
  | levels+1, d, target => (dev.graph.entries d).entries.flatMap (dev.share (filesBelow levels) target)

/-- The regular files under a path. -/
def filesUnder (src dst : Bytes) : List (ℕ × Bytes) :=
  match dev.graph.resolve true (parse src) with
  | some s => if dev.graph.isDir s.node then dev.filesBelow TREE_MAX_DEPTH s.node dst else []
  | none => []

end Device

/-- The device and, as a record, the files that were copied and those whose copy was refused,
each with the path asked for. -/
structure World where
  device : Device
  copies : List (ℕ × Bytes)
  missed : List (ℕ × Bytes)

/-- What POSIX leaves open: which requests are refused and with what error, the order of a
listing, and the rest of what `lstat` says. -/
structure Env where
  connected : Bool
  refuses : World → (β : Type) → Act β → Bool
  error : World → (β : Type) → Act β → ProxyError
  order : List ((_ : FileName) × ℕ) → List ((_ : FileName) × ℕ)
  stat : Device → ℕ → Stat
  order_perm : ∀ l, (order l).Perm l
  shows : ∀ dev i, Shows (dev.graph.kind i) (stat dev i).mode

section

variable (env : Env)

def World.mkdir (w : World) (path : Bytes) (mode : ℕ) : Except ProxyError Unit × World :=
  match if env.refuses w _ (.mkdir path mode) then none else w.device.graph.mkdir (parse path) with
  | some g => (.ok (),{ w with device := { w.device with graph := g } })
  | none => (.error (env.error w _ (.mkdir path mode)),w)

def Env.listed (dev : Device) (e : (_ : FileName) × ℕ) : DirEntry := ⟨e.1.lossy.bytes,env.stat dev e.2⟩

def World.listdir (w : World) (path : Bytes) : Except ProxyError (List DirEntry) :=
  match if env.refuses w _ (.listdir path) then none else w.device.graph.resolve true (parse path) with
  | some s =>
    if w.device.graph.isDir s.node then
      .ok ((env.order (w.device.graph.entries s.node).entries).map (env.listed w.device))
    else .error (env.error w _ (.listdir path))
  | none => .error (env.error w _ (.listdir path))

def World.copyFile (w : World) (src dst : Bytes) : Except ProxyError Unit × World :=
  match w.device.regularAt src with
  | none => (.error (env.error w _ (.copyFile src dst)),w)
  | some i =>
    match if env.refuses w _ (.copyFile src dst) then none else w.device.create dst with
    | none => (.error (env.error w _ (.copyFile src dst)),{ w with missed := w.missed++[(i,dst)] })
    | some dev => (.ok (),{ w with device := dev, copies := w.copies++[(i,dst)] })

def act : (β : Type) → Act β → World → Option (β × World)
  | _, .clientFor _, w => some (env.connected,w)
  | _, .mkdir path mode, w => some (w.mkdir env path mode)
  | _, .listdir path, w => some (w.listdir env path,w)
  | _, .copyFile src dst, w => some (w.copyFile env src dst)
  | _, .stuck, _ => none

abbrev State := TreeCopyResult × World

/-- A file is asked for. -/
def copyOne (x : Level) (name : Bytes) (s : State) : State :=
  match s.2.copyFile env (childPath x.source name) (childPath x.target name) with
  | (.ok _,w) => (s.1.another,w)
  | (.error e,w) => (s.1.report (copyError (childPath x.source name) e),w)

def enter (x : Level) (s : State × List Level) (entry : DirEntry) : Except (Reply × World) (State × List Level) :=
  match treeFileCapError s.1.1.count with
  | some e => .error (.ok (s.1.1.report e),s.1.2)
  | none =>
    if entry.stat.mode.isSymlink then .ok s
    else if entry.stat.mode.isDir then .ok (s.1,copyChild x entry.name::s.2)
    else .ok (copyOne env x entry.name s.1,s.2)

def visit (x : Level) (s : State) (stack : List Level) : Except (Reply × World) (State × List Level) :=
  match treeDepthError x.source x.depth with
  | some e => .ok ((s.1.report e,s.2),stack)
  | none =>
    match (s.2.mkdir env x.target 0o755).2.listdir env x.source with
    | .error e => .error (.error (listError x.source e),(s.2.mkdir env x.target 0o755).2)
    | .ok entries => entries.foldlM (enter env x) ((s.1,(s.2.mkdir env x.target 0o755).2),stack)

/-- What the call returns. -/
def finish : Except (Reply × World) State → Reply × World
  | .error r => r
  | .ok s => (.ok s.1,s.2)

/-- What a round of the loop comes to. -/
def resume : Except (Reply × World) (State × List Level) → Except Reply (TreeCopyResult × List Level) × World
  | .error r => (.error r.1,r.2)
  | .ok s => (.ok (s.1.1,s.2),s.1.2)

end

variable {x : Level} {stack stack' : List Level} {w : World} {s s' : State} {r : Reply × World} {path : Bytes}

section

variable {env : Env} {out : TreeCopyResult}

theorem play_copyEntries (entries : List DirEntry) : (copyEntries x entries out stack).play (act env) w =
    some (resume (entries.foldlM (enter env x) ((out,w),stack))) := by
  induction entries generalizing out stack w with
  | nil => rfl
  | cons entry rest ih =>
    rw [copyEntries,foldlM_cons,enter]
    cases treeFileCapError out.count with
    | some e => rfl
    | none =>
      by_cases hlink : entry.stat.mode.isSymlink
      · simp only [hlink,if_true]
        exact ih
      by_cases hdir : entry.stat.mode.isDir
      · simp only [hlink,hdir,if_true]
        exact ih
      simp only [hlink,hdir]
      show ((perform _ >>= _ : Prog Act _)).play (act env) w = _
      rw [play_perform_bind,act,Option.bind_some,copyOne]
      cases hcopy : w.copyFile env (childPath x.source entry.name) (childPath x.target entry.name) with
      | mk answer w' =>
        cases answer with
        | ok _ => exact ih
        | error e => exact ih

theorem play_visitCopy : (visitCopy x out stack).play (act env) w = some (resume (visit env x (out,w) stack)) := by
  rw [visitCopy,visit]
  cases treeDepthError x.source x.depth with
  | some e => rfl
  | none =>
    rw [play_perform_bind,act,Option.bind_some,play_perform_bind,act]
    cases hlist : (w.mkdir env x.target 0o755).2.listdir env x.source with
    | error e => rfl
    | ok entries => exact play_copyEntries entries

theorem play_copyLoop (rounds : ℕ) : (copyLoop rounds stack out).play (act env) w =
    (roam (visit env) rounds stack (out,w)).map finish := by
  induction rounds generalizing stack out w with
  | zero => rfl
  | succ rounds ih =>
    cases stack with
    | nil => rfl
    | cons x stack =>
      rw [copyLoop,play_bind,play_visitCopy,roam]
      cases visit env x (out,w) stack with
      | error r => rfl
      | ok s => exact ih

end

section

variable {env : Env} {entry : DirEntry} {entries : List DirEntry}

theorem enter_eq (h : s.1.count < TREE_MAX_FILES) : enter env x (s,stack) entry =
    if entry.stat.mode.isSymlink then .ok (s,stack)
    else if entry.stat.mode.isDir then .ok (s,copyChild x entry.name::stack)
    else .ok (copyOne env x entry.name s,stack) := by
  have hcap : treeFileCapError s.1.count = none := if_neg (Nat.not_le.mpr h)
  unfold enter
  rw [hcap]

theorem enter_full (env : Env) (x : Level) (entry : DirEntry) (stack : List Level) (h : TREE_MAX_FILES ≤ s.1.count) :
    ∃ e, enter env x (s,stack) entry = .error (.ok (s.1.report e),s.2) := by
  have hcap : treeFileCapError s.1.count = some _ := if_pos h
  unfold enter
  rw [hcap]
  exact ⟨_,rfl⟩

theorem enter_ok (h : enter env x (s,stack) entry = .ok (s',stack')) : s.1.count < TREE_MAX_FILES ∧
    (entry.stat.mode.isSymlink ∧ s' = s ∧ stack' = stack ∨
      entry.stat.mode.isSymlink = false ∧ entry.stat.mode.isDir ∧ s' = s ∧ stack' = copyChild x entry.name::stack ∨
      entry.stat.mode.isSymlink = false ∧ entry.stat.mode.isDir = false ∧ s' = copyOne env x entry.name s ∧
        stack' = stack) := by
  obtain hcap | hcap := Nat.lt_or_ge s.1.count TREE_MAX_FILES
  · refine ⟨hcap,?_⟩
    rw [enter_eq hcap] at h
    split_ifs at h with hlink hdir
    · cases h
      exact .inl ⟨hlink,rfl,rfl⟩
    · cases h
      exact .inr (.inl ⟨by simpa using hlink,hdir,rfl,rfl⟩)
    · cases h
      exact .inr (.inr ⟨by simpa using hlink,by simpa using hdir,rfl,rfl⟩)
  · obtain ⟨e,he⟩ := enter_full env x entry stack hcap
    cases he.symm.trans h

theorem enter_error (h : enter env x (s,stack) entry = .error r) :
    ∃ e, TREE_MAX_FILES ≤ s.1.count ∧ r = (.ok (s.1.report e),s.2) := by
  obtain hcap | hcap := Nat.lt_or_ge s.1.count TREE_MAX_FILES
  · rw [enter_eq hcap] at h
    split_ifs at h
  · obtain ⟨e,he⟩ := enter_full env x entry stack hcap
    cases he.symm.trans h
    exact ⟨e,hcap,rfl⟩

/-- What a directory comes to within the limit on levels. -/
theorem visit_eq (h : x.depth < TREE_MAX_DEPTH) : visit env x s stack =
    match (s.2.mkdir env x.target 0o755).2.listdir env x.source with
    | .error e => .error (.error (listError x.source e),(s.2.mkdir env x.target 0o755).2)
    | .ok entries => entries.foldlM (enter env x) ((s.1,(s.2.mkdir env x.target 0o755).2),stack) := by
  rw [visit,treeDepthError,if_neg (by omega)]

theorem visit_deep (env : Env) (s : State) (stack : List Level) (h : TREE_MAX_DEPTH ≤ x.depth) :
    ∃ e, visit env x s stack = .ok ((s.1.report e,s.2),stack) := by
  rw [visit,treeDepthError,if_pos h]
  exact ⟨_,rfl⟩

theorem foldlM_enter_push (h : entries.foldlM (enter env x) (s,stack) = .ok (s',stack')) :
    ∃ kids, stack' = kids++stack ∧ ∀ y ∈ kids, y.depth = x.depth+1 := by
  induction entries generalizing s stack with
  | nil =>
    cases h
    exact ⟨[],rfl,by simp⟩
  | cons entry rest ih =>
    obtain ⟨⟨s₁,stack₁⟩,hfirst,hrest⟩ := foldlM_cons_ok_iff.mp h
    obtain ⟨kids,hkids,hdepth⟩ := ih hrest
    obtain ⟨-,⟨-,-,rfl⟩ | ⟨-,-,-,rfl⟩ | ⟨-,-,-,rfl⟩⟩ := enter_ok hfirst
    · exact ⟨kids,hkids,hdepth⟩
    · refine ⟨kids++[copyChild x entry.name],by simp [hkids],?_⟩
      intro y hy
      obtain hy | hy := mem_append.mp hy
      · exact hdepth y hy
      · rw [mem_singleton.mp hy]
        rfl
    · exact ⟨kids,hkids,hdepth⟩

theorem visit_push (h : visit env x s stack = .ok (s',stack')) :
    ∃ kids, stack' = kids++stack ∧ ∀ y ∈ kids, TREE_MAX_DEPTH-y.depth < TREE_MAX_DEPTH-x.depth := by
  by_cases hdepth : x.depth < TREE_MAX_DEPTH
  · rw [visit_eq hdepth] at h
    split at h
    · cases h
    obtain ⟨kids,hkids,hlevel⟩ := foldlM_enter_push h
    refine ⟨kids,hkids,?_⟩
    intro y hy
    rw [hlevel y hy]
    omega
  · obtain ⟨e,he⟩ := visit_deep env s stack (Nat.le_of_not_lt hdepth)
    cases he.symm.trans h
    exact ⟨[],rfl,by simp⟩

theorem roam_visit_ends (env : Env) (stack : List Level) : Ends (visit env) stack := by
  induction stack with
  | nil => exact ends_nil
  | cons x stack ih => exact ends_cons (fun _ _ _ _ _ h => visit_push h) ih

theorem mkdir_world (env : Env) (w : World) (path : Bytes) (mode : ℕ) : (w.mkdir env path mode).2 = w ∨
    ∃ g, w.device.graph.mkdir (parse path) = some g ∧
      (w.mkdir env path mode).2 = { w with device := { w.device with graph := g } } := by
  unfold World.mkdir
  split
  · rename_i g hg
    split_ifs at hg
    exact .inr ⟨g,hg,rfl⟩
  · exact .inl rfl

theorem copyFile_world (env : Env) (w : World) (src dst : Bytes) :
    w.device.regularAt src = none ∧ (w.copyFile env src dst).2 = w ∨ ∃ i, w.device.regularAt src = some i ∧
        ((w.copyFile env src dst).2 = { w with missed := w.missed++[(i,dst)] } ∨ ∃ dev, w.device.create dst = some dev ∧
            (w.copyFile env src dst).2 = { w with device := dev, copies := w.copies++[(i,dst)] }) := by
  unfold World.copyFile
  cases hi : w.device.regularAt src with
  | none => exact .inl ⟨rfl,rfl⟩
  | some i =>
    refine .inr ⟨i,rfl,?_⟩
    dsimp only
    split
    · exact .inl rfl
    · rename_i dev hdev
      split_ifs at hdev
      exact .inr ⟨dev,hdev,rfl⟩

theorem copyOne_world (name : Bytes) : (copyOne env x name s).2 =
    (s.2.copyFile env (childPath x.source name) (childPath x.target name)).2 := by
  unfold copyOne
  split <;> simp_all

theorem listdir_ok (h : w.listdir env path = .ok entries) :
    ∃ t, w.device.graph.resolve true (parse path) = some t ∧ w.device.graph.isDir t.node ∧
      entries = (env.order (w.device.graph.entries t.node).entries).map (env.listed w.device) := by
  unfold World.listdir at h
  split at h
  · rename_i t ht
    split_ifs at h with hdir
    split at ht
    · cases ht
    · cases h
      exact ⟨t,ht,hdir,rfl⟩
  · cases h

end

/-- What has happened since: the device has grown. -/
structure Later (w w' : World) : Prop where
  growth : Growth w.device.graph w'.device.graph
  regular : ∀ i, i < w.device.graph.next → w'.device.regular i = w.device.regular i

open Later

section

variable {env : Env} {w' : World} {dev dev' : Device} {n : FileName}

theorem Later.refl (w : World) : Later w w := ⟨Growth.refl _,fun _ _ => rfl⟩

theorem later_mkdir (path : Bytes) (mode : ℕ) : Later w (w.mkdir env path mode).2 := by
  obtain heq | ⟨g,hg,heq⟩ := mkdir_world env w path mode
  · rw [heq]
    exact refl w
  · obtain ⟨q,n,t,hlt,-,-,-,hfree,rfl⟩ := mkdir_cases hg
    rw [heq]
    exact ⟨Growth.addDir hlt hfree,fun _ _ => rfl⟩

/-- What stands after the last slash of a path below a directory. -/
theorem parse_childPath (path : Bytes) (n : FileName) : parse (childPath path n.bytes) = parse (trimEnd path)++[.name n] := by
  rw [childPath,parse_append_slash,parse_name]

theorem trimEnd_childPath (path : Bytes) (n : FileName) : trimEnd (childPath path n.bytes) = childPath path n.bytes := by
  apply trimEnd_of_getLast?
  rw [childPath,getLast?_append_of_ne_nil _ (by simp),getLast?_cons_of_ne_nil n.plain.1]
  intro h
  exact n.plain.2.1 (mem_of_getLast? h)

theorem create_child (h : dev.create (childPath path n.bytes) = some dev') : ∃ t, ∃ hlt : t.node < dev.graph.next,
      dev.graph.resolve true (parse (trimEnd path)) = some t ∧ dev.graph.isDir t.node ∧
        dev.graph.lookup t.node n = none ∧
          dev' = ⟨dev.graph.addFile t.node n hlt,Function.update dev.regular dev.graph.next true⟩ := by
  rw [Device.create,parse_childPath] at h
  obtain ⟨g,hg,rfl⟩ := Option.map_eq_some_iff.mp h
  obtain ⟨t,hlt,ht,hdir,hfree,rfl⟩ := create_cases hg
  exact ⟨t,hlt,ht,hdir,hfree,rfl⟩

theorem later_copyFile (src path : Bytes) (n : FileName) : Later w (w.copyFile env src (childPath path n.bytes)).2 := by
  obtain ⟨-,heq⟩ | ⟨i,-,heq | ⟨dev,hdev,heq⟩⟩ := copyFile_world env w src (childPath path n.bytes)
  · rw [heq]
    exact refl w
  · rw [heq]
    exact ⟨Growth.refl _,fun _ _ => rfl⟩
  obtain ⟨t,hlt,-,-,hfree,rfl⟩ := create_child hdev
  rw [heq]
  refine ⟨Growth.addFile hlt hfree,?_⟩
  intro j hj
  exact Function.update_of_ne (Nat.ne_of_lt hj) _ _

/-- What a round is: nothing but a report if it is too deep, otherwise a directory, a listing and
the loop over its entries. -/
theorem visit_cases (env : Env) (x : Level) (s : State) (stack : List Level) :
    TREE_MAX_DEPTH ≤ x.depth ∧ (∃ e, visit env x s stack = .ok ((s.1.report e,s.2),stack)) ∨
      x.depth < TREE_MAX_DEPTH ∧ ∃ w, w = (s.2.mkdir env x.target 0o755).2 ∧
        ((∃ e, visit env x s stack = .error (.error e,w)) ∨
          ∃ t, w.device.graph.resolve true (parse x.source) = some t ∧ w.device.graph.isDir t.node ∧
            visit env x s stack = ((env.order (w.device.graph.entries t.node).entries).map
              (env.listed w.device)).foldlM (enter env x) ((s.1,w),stack)) := by
  obtain hdepth | hdepth := Nat.lt_or_ge x.depth TREE_MAX_DEPTH
  · refine .inr ⟨hdepth,_,rfl,?_⟩
    rw [visit_eq hdepth]
    split
    · exact .inl ⟨_,rfl⟩
    · rename_i entries hlist
      obtain ⟨t,ht,hdir,rfl⟩ := listdir_ok hlist
      exact .inr ⟨t,ht,hdir,rfl⟩
  · exact .inl ⟨hdepth,visit_deep env s stack hdepth⟩

theorem visit_error (h : visit env x s stack = .error r) : x.depth < TREE_MAX_DEPTH ∧
    ∃ w, w = (s.2.mkdir env x.target 0o755).2 ∧ ((∃ e, r = (.error e,w)) ∨
      ∃ t, w.device.graph.resolve true (parse x.source) = some t ∧ w.device.graph.isDir t.node ∧
        ((env.order (w.device.graph.entries t.node).entries).map (env.listed w.device)).foldlM (enter env x)
          ((s.1,w),stack) = .error r) := by
  obtain ⟨-,e,he⟩ | ⟨hdepth,w,hw,⟨e,he⟩ | ⟨t,ht,hdir,hfold⟩⟩ := visit_cases env x s stack
  · cases he.symm.trans h
  · cases he.symm.trans h
    exact ⟨hdepth,w,hw,.inl ⟨e,rfl⟩⟩
  · exact ⟨hdepth,w,hw,.inr ⟨t,ht,hdir,hfold.symm.trans h⟩⟩

end
end AdbShare.CopyTree

import AdbShare.CopyTree
import AdbShare.TreeRun

/-! What a tree operation asks of the device. The limit on files does not count directories, and
every directory costs requests of its own; how many there are is limited by the depth only
where the number of directories in one directory is. -/
namespace AdbShare.TreeRequests

open Prog PathText TreeWalk List
open CopyTree (TreeCopyResult copyEntries visitCopy copyLoop copyTree copyChild)

/-- The requests of a transfer that go to the device. -/
def requests : (β : Type) → Act β → ℕ
  | _, .mkdir _ _ => 1
  | _, .listdir _ => 1
  | _, _ => 0

/-- Those of a copy. -/
def copyRequests : (β : Type) → CopyTree.Act β → ℕ
  | _, .mkdir _ _ => 1
  | _, .listdir _ => 1
  | _, .copyFile _ _ => 1
  | _, _ => 0

def isLocalDir : Except String LocalEntry → Bool
  | .ok entry => decide (entry.fileType = .ok .dir)
  | .error _ => false

/-- A directory that the walk goes into. -/
def isDeviceDir (entry : DirEntry) : Bool := !entry.stat.mode.isSymlink && entry.stat.mode.isDir

/-- No directory holds more than `k` directories. -/
def Narrow (k : ℕ) : (β : Type) → Act β → β → Prop
  | _, .readDir _, .ok entries => entries.countP isLocalDir ≤ k
  | _, .listdir _, .ok entries => entries.countP isDeviceDir ≤ k
  | _, _, _ => True

def CopyNarrow (k : ℕ) : (β : Type) → CopyTree.Act β → β → Prop
  | _, .listdir _, .ok entries => entries.countP isDeviceDir ≤ k
  | _, _, _ => True

/-- The most that a directory with so many levels below it can cost. -/
def cost (k : ℕ) : ℕ → ℕ
  | 0 => 0
  | levels+1 => k+2+k*cost k levels

def costAt (k depth : ℕ) : ℕ := cost k (TREE_MAX_DEPTH-depth)

/-- The most that the directories on the stack can cost. -/
def load (k : ℕ) (stack : List Level) : ℕ := (stack.map fun y => costAt k y.depth).sum

/-- What a round may leave. -/
def Covered {τ : Type} (need : τ → List Level → ℕ) {ρ : Type} (n : ℕ) : Except ρ (τ × List Level) → Prop
  | .error _ => True
  | .ok (out,stack) => need out stack ≤ n

variable {k n most : ℕ} {device : String} {options : JobOptions} {x : Level} {stack : List Level}
  {out : TreeCopyResult} {entries : List DirEntry}

section

variable {depth : ℕ}
  {visit : Level → TreeEnqueueResult → List Level → Prog Act (Except TreeWalk.Reply (TreeEnqueueResult × List Level))}

@[simp] theorem load_cons (y : Level) : load k (y::stack) = costAt k y.depth+load k stack := rfl

theorem costAt_eq (h : ¬ depth ≥ TREE_MAX_DEPTH) : costAt k depth = k+2+k*costAt k (depth+1) := by
  have hlevels : TREE_MAX_DEPTH-depth = TREE_MAX_DEPTH-(depth+1)+1 := by omega
  rw [costAt,hlevels,cost,costAt]

theorem affords_pushEntries {entries : List (Except String LocalEntry)} (out : TreeEnqueueResult)
    (hn : entries.countP isLocalDir*(1+costAt k (x.depth+1))+load k stack ≤ n) :
    (pushEntries device options x entries out stack).Affords requests (Narrow k) (Covered fun _ => load k) n := by
  induction entries generalizing out stack n with
  | nil => exact (Nat.le_add_left _ _).trans hn
  | cons entry rest ih =>
    cases entry with
    | error e => trivial
    | ok entry =>
      rw [pushEntries]
      cases treeFileCapError out.enqueued.length with
      | some e => trivial
      | none =>
        cases htype : entry.fileType with
        | error e => trivial
        | ok kind =>
          cases kind with
          | symlink | other =>
            refine ih out ?_
            simpa [isLocalDir,htype] using hn
          | file =>
            refine affords_perform_bind.mpr ⟨Nat.zero_le _,?_⟩
            intro id _
            refine ih _ ?_
            simpa [isLocalDir,htype,requests] using hn
          | dir =>
            have hdir : isLocalDir (.ok entry) := by simp [isLocalDir,htype]
            rw [countP_cons_of_pos hdir,Nat.add_mul,Nat.one_mul] at hn
            refine affords_perform_bind.mpr ⟨?_,?_⟩
            · show 1 ≤ n
              omega
            intro made _
            refine ih out ?_
            show _+(costAt k (x.depth+1)+load k stack) ≤ n-1
            omega

theorem affords_visitPush (x : Level) (out : TreeEnqueueResult) (stack : List Level) (n : ℕ)
    (hn : load k (x::stack) ≤ n) :
    (visitPush device options x out stack).Affords requests (Narrow k) (Covered fun _ => load k) n := by
  rw [load_cons] at hn
  rw [visitPush,treeDepthError_eq]
  by_cases hdeep : x.depth ≥ TREE_MAX_DEPTH
  · rw [if_pos hdeep]
    exact (Nat.le_add_left _ _).trans hn
  rw [if_neg hdeep]
  refine affords_perform_bind.mpr ⟨Nat.zero_le _,?_⟩
  intro listing hnarrow
  cases listing with
  | error e => trivial
  | ok entries =>
    refine affords_pushEntries out ?_
    have hwidth : entries.countP isLocalDir*(1+costAt k (x.depth+1)) ≤ k*(1+costAt k (x.depth+1)) :=
      Nat.mul_le_mul_right _ hnarrow
    rw [costAt_eq hdeep] at hn
    rw [Nat.mul_add k,Nat.mul_one] at hwidth
    show _ ≤ n-0
    omega

theorem affords_pullEntries (out : TreeEnqueueResult)
    (hn : entries.countP isDeviceDir*costAt k (x.depth+1)+load k stack ≤ n) :
    (pullEntries device options x entries out stack).Affords requests (Narrow k) (Covered fun _ => load k) n := by
  induction entries generalizing out stack n with
  | nil => exact (Nat.le_add_left _ _).trans hn
  | cons entry rest ih =>
    rw [pullEntries]
    cases treeFileCapError out.enqueued.length with
    | some e => trivial
    | none =>
      by_cases hlink : entry.stat.mode.isSymlink
      · rw [if_pos hlink]
        refine ih out ?_
        simpa [isDeviceDir,hlink] using hn
      · rw [if_neg hlink]
        by_cases hdir : entry.stat.mode.isDir
        · rw [if_pos hdir]
          refine affords_perform_bind.mpr ⟨Nat.zero_le _,?_⟩
          intro made _
          cases made with
          | error e => trivial
          | ok u =>
            refine ih out ?_
            rw [countP_cons_of_pos (by simp [isDeviceDir,hlink,hdir]),Nat.add_mul] at hn
            show _+(costAt k (x.depth+1)+load k stack) ≤ n-0
            omega
        · rw [if_neg hdir]
          refine affords_perform_bind.mpr ⟨Nat.zero_le _,?_⟩
          intro id _
          refine ih _ ?_
          simpa [isDeviceDir,hdir,requests] using hn

theorem affords_visitPull (x : Level) (out : TreeEnqueueResult) (stack : List Level) (n : ℕ)
    (hn : load k (x::stack) ≤ n) :
    (visitPull device options x out stack).Affords requests (Narrow k) (Covered fun _ => load k) n := by
  rw [load_cons] at hn
  rw [visitPull,treeDepthError_eq]
  by_cases hdeep : x.depth ≥ TREE_MAX_DEPTH
  · rw [if_pos hdeep]
    exact (Nat.le_add_left _ _).trans hn
  rw [if_neg hdeep]
  rw [costAt_eq hdeep] at hn
  refine affords_perform_bind.mpr ⟨?_,?_⟩
  · show 1 ≤ n
    omega
  intro listing hnarrow
  cases listing with
  | error e => trivial
  | ok entries =>
    refine affords_pullEntries out ?_
    have hwidth : entries.countP isDeviceDir*costAt k (x.depth+1) ≤ k*costAt k (x.depth+1) :=
      Nat.mul_le_mul_right _ hnarrow
    show _ ≤ n-1
    omega

theorem affords_treeLoop (hvisit : ∀ x out stack n, load k (x::stack) ≤ n →
      (visit x out stack).Affords requests (Narrow k) (Covered fun _ => load k) n)
    (rounds : ℕ) (out : TreeEnqueueResult) (hn : load k stack ≤ n) :
    (treeLoop visit rounds stack out).Affords requests (Narrow k) (fun _ _ => True) n := by
  induction rounds generalizing stack out n with
  | zero => exact ⟨Nat.zero_le _,fun b => b.elim⟩
  | succ rounds ih =>
    cases stack with
    | nil => trivial
    | cons x rest =>
      refine (hvisit x out rest n hn).bind ?_
      intro n' result hresult
      cases result with
      | error reply => trivial
      | ok next => exact ih next.1 hresult

/-- The copies still allowed, and what the directories on the stack can cost. -/
def copyLoad (k : ℕ) (out : TreeCopyResult) (stack : List Level) : ℕ :=
  TREE_MAX_FILES-out.count+load k stack

theorem affords_copyEntries (hn : entries.countP isDeviceDir*costAt k (x.depth+1)+copyLoad k out stack ≤ n) :
    (copyEntries x entries out stack).Affords copyRequests (CopyNarrow k) (Covered (copyLoad k)) n := by
  induction entries generalizing out stack n with
  | nil => exact (Nat.le_add_left _ _).trans hn
  | cons entry rest ih =>
    rw [copyEntries]
    by_cases hcap : out.count ≥ TREE_MAX_FILES
    · have hfull : treeFileCapError out.count = some _ := if_pos hcap
      rw [hfull]
      trivial
    · have hfree : treeFileCapError out.count = none := if_neg hcap
      rw [hfree]
      dsimp only
      by_cases hlink : entry.stat.mode.isSymlink
      · rw [if_pos hlink]
        refine ih ?_
        simpa [isDeviceDir,hlink] using hn
      · rw [if_neg hlink]
        by_cases hdir : entry.stat.mode.isDir
        · rw [if_pos hdir]
          refine ih ?_
          rw [countP_cons_of_pos (by simp [isDeviceDir,hlink,hdir]),Nat.add_mul,Nat.one_mul] at hn
          unfold copyLoad at hn ⊢
          show _+(_+(costAt k (x.depth+1)+load k stack)) ≤ n
          omega
        · rw [if_neg hdir]
          rw [countP_cons_of_neg (by simp [isDeviceDir,hdir])] at hn
          unfold copyLoad at hn
          refine affords_perform_bind.mpr ⟨?_,?_⟩
          · show 1 ≤ n
            omega
          intro answer _
          cases answer with
          | ok u =>
            refine ih ?_
            have hcount : out.another.count = out.count+1 := by
              simp [TreeCopyResult.count,TreeCopyResult.another]
              omega
            rw [copyLoad,hcount]
            show _ ≤ n-1
            omega
          | error e =>
            refine ih ?_
            have hcount : (out.report (CopyTree.copyError (childPath x.source entry.name) e)).count = out.count+1 := by
              simp [TreeCopyResult.count,TreeCopyResult.report]
              omega
            rw [copyLoad,hcount]
            show _ ≤ n-1
            omega

theorem affords_visitCopy (hn : copyLoad k out (x::stack) ≤ n) :
    (visitCopy x out stack).Affords copyRequests (CopyNarrow k) (Covered (copyLoad k)) n := by
  rw [copyLoad,load_cons] at hn
  rw [visitCopy,treeDepthError_eq]
  by_cases hdeep : x.depth ≥ TREE_MAX_DEPTH
  · rw [if_pos hdeep]
    show copyLoad k (out.report _) stack ≤ n
    have hcount : (out.report (nestingError x.source)).count = out.count+1 := by
      simp [TreeCopyResult.count,TreeCopyResult.report]
      omega
    rw [copyLoad,hcount]
    omega
  · rw [if_neg hdeep]
    rw [costAt_eq hdeep] at hn
    refine affords_perform_bind.mpr ⟨?_,?_⟩
    · show 1 ≤ n
      omega
    intro made _
    refine affords_perform_bind.mpr ⟨?_,?_⟩
    · show 1 ≤ n-1
      omega
    intro listing hnarrow
    cases listing with
    | error e => trivial
    | ok entries =>
      refine affords_copyEntries ?_
      have hwidth : entries.countP isDeviceDir*costAt k (x.depth+1) ≤ k*costAt k (x.depth+1) :=
        Nat.mul_le_mul_right _ hnarrow
      rw [copyLoad]
      show _ ≤ n-1-1
      omega

theorem affords_copyLoop (rounds : ℕ) (hn : copyLoad k out stack ≤ n) :
    (copyLoop rounds stack out).Affords copyRequests (CopyNarrow k) (fun _ _ => True) n := by
  induction rounds generalizing stack out n with
  | zero => exact ⟨Nat.zero_le _,fun b => b.elim⟩
  | succ rounds ih =>
    cases stack with
    | nil => trivial
    | cons x rest =>
      refine (affords_visitCopy hn).bind ?_
      intro n' result hresult
      cases result with
      | error reply => trivial
      | ok next => exact ih hresult

end

section

variable {rounds : ℕ} {τ : Type} {post : ℕ → τ → Prop}
  {f : Except TreeWalk.Reply (TreeEnqueueResult × List Level) → Prog Act τ}

theorem length_le_of_pushEntries {entries : List (Except String LocalEntry)} {out : TreeEnqueueResult}
    (hcap : treeFileCapError out.enqueued.length = none) (hdirs : ∀ entry ∈ entries, isLocalDir entry)
    (h : (pushEntries device options x entries out stack >>= f).Affords requests (Narrow k) post n) :
    entries.length ≤ n := by
  induction entries generalizing stack n with
  | nil => exact Nat.zero_le n
  | cons entry rest ih =>
    rw [forall_mem_cons] at hdirs
    obtain ⟨hdir,hrest⟩ := hdirs
    cases entry with
    | error e => cases hdir
    | ok entry =>
      have htype : entry.fileType = .ok .dir := of_decide_eq_true hdir
      rw [pushEntries,hcap] at h
      simp only [htype,bind_assoc] at h
      obtain ⟨hone,hgo⟩ := affords_perform_bind.mp h
      have hlength := ih hrest (hgo (.ok ()) trivial)
      change 1 ≤ n at hone
      change rest.length ≤ n-1 at hlength
      rw [length_cons]
      omega

/-- The directories listed are all put on the stack. -/
theorem affords_of_pullEntries {out : TreeEnqueueResult}
    (hcap : treeFileCapError out.enqueued.length = none) (hdirs : ∀ entry ∈ entries, isDeviceDir entry)
    (h : (pullEntries device options x entries out stack >>= f).Affords requests (Narrow k) post n) :
    (f (.ok (out,(entries.map (pullChild x)).reverse++stack))).Affords requests (Narrow k) post n := by
  induction entries generalizing stack with
  | nil => exact h
  | cons entry rest ih =>
    rw [forall_mem_cons,isDeviceDir,Bool.and_eq_true,Bool.not_eq_true'] at hdirs
    obtain ⟨⟨hlink,hdir⟩,hrest⟩ := hdirs
    rw [pullEntries,hcap] at h
    simp only [hlink,hdir,if_true,Bool.false_eq_true,if_false,bind_assoc] at h
    have hgo := (affords_perform_bind.mp h).2 (.ok ()) trivial
    rw [map_cons,reverse_cons,append_assoc]
    exact ih hrest hgo

theorem affords_of_copyEntries (hcap : treeFileCapError out.count = none) (hdirs : ∀ entry ∈ entries, isDeviceDir entry)
    {f : Except CopyTree.Reply (TreeCopyResult × List Level) → Prog CopyTree.Act τ}
    (h : (copyEntries x entries out stack >>= f).Affords copyRequests (CopyNarrow k) post n) :
    (f (.ok (out,(entries.map fun entry => copyChild x entry.name).reverse++stack))).Affords copyRequests
      (CopyNarrow k) post n := by
  induction entries generalizing stack with
  | nil => exact h
  | cons entry rest ih =>
    rw [forall_mem_cons,isDeviceDir,Bool.and_eq_true,Bool.not_eq_true'] at hdirs
    obtain ⟨⟨hlink,hdir⟩,hrest⟩ := hdirs
    rw [copyEntries,hcap] at h
    simp only [hlink,hdir,if_true,Bool.false_eq_true,if_false] at h
    rw [map_cons,reverse_cons,append_assoc]
    exact ih hrest h

/-- Empty directories on the stack are listed one after the other. -/
theorem length_le_of_pullLoop {out : TreeEnqueueResult} (hrounds : stack.length ≤ rounds)
    (hstack : ∀ y ∈ stack, y.depth < TREE_MAX_DEPTH)
    (h : (treeLoop (visitPull device options) rounds stack out).Affords requests (Narrow k) (fun _ _ => True) n) :
    stack.length ≤ n := by
  induction stack generalizing rounds n with
  | nil => exact Nat.zero_le n
  | cons y rest ih =>
    rw [forall_mem_cons] at hstack
    obtain ⟨rounds,rfl⟩ := Nat.exists_eq_succ_of_ne_zero (by rw [length_cons] at hrounds; omega : rounds ≠ 0)
    rw [treeLoop,visitPull,treeDepthError_eq,if_neg (Nat.not_le.mpr hstack.1)] at h
    obtain ⟨hone,hgo⟩ := affords_perform_bind.mp h
    have hlength := ih (Nat.le_of_succ_le_succ hrounds) hstack.2 (hgo (.ok []) (Nat.zero_le k))
    change 1 ≤ n at hone
    change rest.length ≤ n-1 at hlength
    rw [length_cons]
    omega

theorem length_le_of_copyLoop (hrounds : stack.length ≤ rounds) (hstack : ∀ y ∈ stack, y.depth < TREE_MAX_DEPTH)
    (h : (copyLoop rounds stack out).Affords copyRequests (CopyNarrow k) (fun _ _ => True) n) : 2*stack.length ≤ n := by
  induction stack generalizing rounds n with
  | nil => exact Nat.zero_le n
  | cons y rest ih =>
    rw [forall_mem_cons] at hstack
    obtain ⟨rounds,rfl⟩ := Nat.exists_eq_succ_of_ne_zero (by rw [length_cons] at hrounds; omega : rounds ≠ 0)
    rw [copyLoop,visitCopy,treeDepthError_eq,if_neg (Nat.not_le.mpr hstack.1)] at h
    simp only [bind_assoc] at h
    obtain ⟨hone,hmade⟩ := affords_perform_bind.mp h
    obtain ⟨htwo,hgo⟩ := affords_perform_bind.mp (hmade (.ok ()) trivial)
    have hlength := ih (Nat.le_of_succ_le_succ hrounds) hstack.2 (hgo (.ok []) (Nat.zero_le k))
    change 1 ≤ n at hone
    change 1 ≤ n-1 at htwo
    change 2*rest.length ≤ n-1-1 at hlength
    rw [length_cons]
    omega

end

/-- Names `a`, `aa`, `aaa` and so on. -/
def dirName (i : ℕ) : FileName where
  bytes := 97::List.replicate i 97
  plain := by
    refine ⟨by simp,?_,by simp [dot],by simp [dotdot]⟩
    intro h
    have hslash : SLASH = 97 := by
      obtain h | h := mem_cons.mp h
      · exact h
      · exact eq_of_mem_replicate h
    exact absurd hslash (by decide)

/-- A directory of the host that holds `k` directories and nothing else. -/
def wideHost (k : ℕ) : List (Except String LocalEntry) := (List.range k).map fun i => .ok ⟨dirName i,.ok .dir⟩

/-- One of the device. -/
def wideDevice (k : ℕ) : List DirEntry :=
  (List.range k).map fun i => ⟨(dirName i).bytes,⟨.dir,0,0,0,0,0,0,1,4096,0⟩⟩

theorem isLocalDir_of_mem {k : ℕ} : ∀ entry ∈ wideHost k, isLocalDir entry := by
  intro entry hentry
  obtain ⟨i,-,rfl⟩ := mem_map.mp hentry
  rfl

theorem isDeviceDir_of_mem {k : ℕ} : ∀ entry ∈ wideDevice k, isDeviceDir entry := by
  intro entry hentry
  obtain ⟨i,-,rfl⟩ := mem_map.mp hentry
  show (!FileMode.dir.isSymlink && FileMode.dir.isDir)
  decide

theorem countP_wideHost (k : ℕ) : (wideHost k).countP isLocalDir = k := by
  rw [countP_eq_length.mpr isLocalDir_of_mem,wideHost,length_map,length_range]

theorem countP_wideDevice (k : ℕ) : (wideDevice k).countP isDeviceDir = k := by
  rw [countP_eq_length.mpr isDeviceDir_of_mem,wideDevice,length_map,length_range]

def slash : Text := ⟨[47],by decide⟩

/-- A push of a directory with `k` directories asks for each of them to be made. -/
theorem le_of_push (h : (enqueueTreePush 1 "serial" slash slash "skip" false).Affords requests (Narrow k)
    (fun _ _ => True) n) : k ≤ n := by
  have hargs : checkArgs "skip" false slash.bytes slash.bytes = .ok ⟨.skipExisting,.off⟩ := rfl
  rw [enqueueTreePush,hargs] at h
  have hloop := (affords_perform_bind.mp h).2 true trivial
  rw [if_pos rfl,treeLoop,visitPush,treeDepthError_eq] at hloop
  have hlisted := (affords_perform_bind.mp hloop).2 (.ok (wideHost k)) (countP_wideHost k).le
  have hlength := length_le_of_pushEntries (by decide) isLocalDir_of_mem hlisted
  rw [wideHost,length_map,length_range] at hlength
  exact hlength

theorem le_of_pull (h : (enqueueTreePull (k+1) "serial" slash slash "skip" false).Affords requests
    (Narrow k) (fun _ _ => True) n) : k ≤ n := by
  have hargs : checkArgs "skip" false slash.bytes slash.bytes = .ok ⟨.skipExisting,.off⟩ := rfl
  rw [enqueueTreePull,hargs] at h
  have hmade := (affords_perform_bind.mp h).2 (.ok ()) trivial
  have hloop := (affords_perform_bind.mp hmade).2 true trivial
  rw [if_pos rfl,treeLoop,visitPull,treeDepthError_eq,if_neg (by decide)] at hloop
  simp only [bind_assoc] at hloop
  have hlisted := (affords_perform_bind.mp hloop).2 (.ok (wideDevice k)) (countP_wideDevice k).le
  have hstack := affords_of_pullEntries (by decide) isDeviceDir_of_mem hlisted
  have hlength := length_le_of_pullLoop (by simp [wideDevice]) ?_ hstack
  · have hn : k ≤ n-1 := by simpa [wideDevice,requests] using hlength
    omega
  intro y hy
  rw [append_nil,mem_reverse] at hy
  obtain ⟨entry,-,rfl⟩ := mem_map.mp hy
  show 1 < TREE_MAX_DEPTH
  decide

theorem le_of_copy (h : (copyTree (k+1) "serial" slash ⟨[47,98],by decide⟩).Affords copyRequests
    (CopyNarrow k) (fun _ _ => True) n) : k ≤ n := by
  have hargs : CopyTree.checkCopy slash.bytes [47,98] = .ok () := rfl
  rw [copyTree,hargs] at h
  have hloop := (affords_perform_bind.mp h).2 true trivial
  rw [if_pos rfl,copyLoop,visitCopy,treeDepthError_eq] at hloop
  have hmade := (affords_perform_bind.mp hloop).2 (.ok ()) trivial
  have hlisted := (affords_perform_bind.mp hmade).2 (.ok (wideDevice k)) (countP_wideDevice k).le
  have hstack := affords_of_copyEntries (by decide) isDeviceDir_of_mem hlisted
  have hlength := length_le_of_copyLoop (by simp [wideDevice]) ?_ hstack
  · have hn : 2*k ≤ n-1-1 := by simpa [wideDevice,copyRequests] using hlength
    omega
  intro y hy
  rw [append_nil,mem_reverse] at hy
  obtain ⟨entry,-,rfl⟩ := mem_map.mp hy
  show 1 < TREE_MAX_DEPTH
  decide

/-- The requests that a tree with at most `k` directories in each of its directories can take. -/
def bound (k : ℕ) : ℕ := TREE_MAX_FILES+cost k TREE_MAX_DEPTH

theorem cost_mono (h : k ≤ most) (levels : ℕ) : cost k levels ≤ cost most levels := by
  induction levels with
  | zero => rfl
  | succ levels ih =>
    rw [cost,cost]
    gcongr

theorem load_root (k : ℕ) (source target : Bytes) : load k [⟨source,target,0⟩] = cost k TREE_MAX_DEPTH := by
  rw [load,map_singleton,sum_singleton,costAt,Nat.sub_zero]

section

variable (hn : bound k ≤ n)
include hn

theorem affords_push (rounds : ℕ) (device : String) (localDir deviceDir : Text) (overwrite : String) (verify : Bool) :
    (enqueueTreePush rounds device localDir deviceDir overwrite verify).Affords requests (Narrow k)
      (fun _ _ => True) n := by
  rw [enqueueTreePush]
  cases checkArgs overwrite verify localDir.bytes deviceDir.bytes with
  | error e => trivial
  | ok options =>
    refine affords_perform_bind.mpr ⟨Nat.zero_le _,?_⟩
    intro connected _
    cases connected with
    | false => trivial
    | true =>
      refine affords_treeLoop affords_visitPush rounds .empty ?_
      rw [load_root]
      exact (Nat.le_add_left _ _).trans hn

theorem affords_pull (rounds : ℕ) (device : String) (deviceDir localDir : Text) (overwrite : String) (verify : Bool) :
    (enqueueTreePull rounds device deviceDir localDir overwrite verify).Affords requests (Narrow k)
      (fun _ _ => True) n := by
  rw [enqueueTreePull]
  cases checkArgs overwrite verify deviceDir.bytes localDir.bytes with
  | error e => trivial
  | ok options =>
    refine affords_perform_bind.mpr ⟨Nat.zero_le _,?_⟩
    intro made _
    cases made with
    | error e => trivial
    | ok u =>
      refine affords_perform_bind.mpr ⟨Nat.zero_le _,?_⟩
      intro connected _
      cases connected with
      | false => trivial
      | true =>
        refine affords_treeLoop affords_visitPull rounds .empty ?_
        rw [load_root]
        exact (Nat.le_add_left _ _).trans hn

theorem affords_copy (rounds : ℕ) (device : String) (srcDir dstDir : Text) :
    (copyTree rounds device srcDir dstDir).Affords copyRequests (CopyNarrow k) (fun _ _ => True) n := by
  rw [copyTree]
  cases CopyTree.checkCopy srcDir.bytes dstDir.bytes with
  | error e => trivial
  | ok u =>
    refine affords_perform_bind.mpr ⟨Nat.zero_le _,?_⟩
    intro connected _
    cases connected with
    | false => trivial
    | true =>
      refine affords_copyLoop rounds ?_
      rw [copyLoad,load_root]
      exact hn

end

/-- Consider the trees in which no directory holds more directories than a width of the set. There
is a number of requests that suffices for a push of every such tree exactly if the widths
are bounded; and so for pulls and for copies. -/
theorem requests_bounded_iff (widths : Set ℕ) :
    ((∃ most, ∀ k ∈ widths, ∀ rounds device localDir deviceDir overwrite verify,
      (enqueueTreePush rounds device localDir deviceDir overwrite verify).Affords requests (Narrow k)
        (fun _ _ => True) most) ↔ BddAbove widths) ∧
    ((∃ most, ∀ k ∈ widths, ∀ rounds device deviceDir localDir overwrite verify,
      (enqueueTreePull rounds device deviceDir localDir overwrite verify).Affords requests (Narrow k)
        (fun _ _ => True) most) ↔ BddAbove widths) ∧
    ((∃ most, ∀ k ∈ widths, ∀ rounds device srcDir dstDir,
      (copyTree rounds device srcDir dstDir).Affords copyRequests (CopyNarrow k) (fun _ _ => True) most) ↔
        BddAbove widths) := by
  have hbound : ∀ {most}, most ∈ upperBounds widths → ∀ k ∈ widths, bound k ≤ bound most := by
    intro most hmost k hk
    exact Nat.add_le_add_left (cost_mono (hmost hk) TREE_MAX_DEPTH) TREE_MAX_FILES
  refine ⟨⟨?_,?_⟩,⟨?_,?_⟩,⟨?_,?_⟩⟩
  · rintro ⟨most,h⟩
    exact ⟨most,fun k hk => le_of_push (h k hk _ _ _ _ _ _)⟩
  · rintro ⟨most,hmost⟩
    exact ⟨bound most,fun k hk => affords_push (hbound hmost k hk)⟩
  · rintro ⟨most,h⟩
    exact ⟨most,fun k hk => le_of_pull (h k hk _ _ _ _ _ _)⟩
  · rintro ⟨most,hmost⟩
    exact ⟨bound most,fun k hk => affords_pull (hbound hmost k hk)⟩
  · rintro ⟨most,h⟩
    exact ⟨most,fun k hk => le_of_copy (h k hk _ _ _ _)⟩
  · rintro ⟨most,hmost⟩
    exact ⟨bound most,fun k hk => affords_copy (hbound hmost k hk)⟩

/-- No number of requests suffices for all trees: a directory with one directory more than that, all of
them empty, takes more. -/
theorem requests_unbounded : (¬∃ most, ∀ k rounds device localDir deviceDir overwrite verify,
      (enqueueTreePush rounds device localDir deviceDir overwrite verify).Affords requests (Narrow k)
        (fun _ _ => True) most) ∧
    (¬∃ most, ∀ k rounds device deviceDir localDir overwrite verify,
      (enqueueTreePull rounds device deviceDir localDir overwrite verify).Affords requests (Narrow k)
        (fun _ _ => True) most) ∧
    ¬∃ most, ∀ k rounds device srcDir dstDir,
      (copyTree rounds device srcDir dstDir).Affords copyRequests (CopyNarrow k) (fun _ _ => True) most := by
  refine ⟨?_,?_,?_⟩
  · rintro ⟨most,h⟩
    exact absurd (le_of_push (h (most+1) _ _ _ _ _ _)) (by omega)
  · rintro ⟨most,h⟩
    exact absurd (le_of_pull (h (most+1) _ _ _ _ _ _)) (by omega)
  · rintro ⟨most,h⟩
    exact absurd (le_of_copy (h (most+1) _ _ _ _)) (by omega)

end AdbShare.TreeRequests

import AdbShare.TreeReport

/-! Where a push of a tree puts its files. The directories below `device_dir` are made on the
way, but `device_dir` itself is not: the parents of all destinations exist in the end only if it
was there before, and they do if besides nothing but a directory stood in the place of one below it. -/
namespace AdbShare.TreeParents

open Prog PathText TreeWalk StackWalk Posix Posix.Graph List Piece

variable {fs g g' : Graph FileName} {p q : List (Piece FileName)} {n : FileName} {path target first second : Bytes}
  {i rounds : ℕ} {t : Spot FileName} {overwrite device : String} {verify : Bool} {options : JobOptions} {env : Env}
  {localDir deviceDir : Text} {out : TreeEnqueueResult} {w : World}

/-- The device makes a directory whenever its parent is there and the name is free. -/
def posixMkdir (g : Graph FileName) (path : Bytes) : Except ProxyError Unit × Graph FileName :=
  match g.mkdir (parse path) with
  | some g' => (.ok (),g')
  | none => (.error (.status .exists []),g)

/-- Every entry that was not there before leads to a new directory. -/
def Grown (fs g : Graph FileName) : Prop :=
  ∀ d n i, g.lookup d n = some i → fs.lookup d n = some i ∨ fs.next ≤ i ∧ g.isDir i = true

/-- Nothing but directories is in the way. -/
def Unblocked (fs : Graph FileName) (p : List (Piece FileName)) : Prop :=
  ∀ q, q ≠ [] → q <+: p → fs.takenAt q = true → fs.dirAt q = true

/-- The directory is there, the one that was there before or a new one. -/
def There (fs g : Graph FileName) (p : List (Piece FileName)) : Prop :=
  ∃ t, g.resolve true p = some t ∧ g.isDir t.node = true ∧ (fs.resolve true p = some t ∨ fs.next ≤ t.node)

theorem There.dirAt (h : There fs g p) : g.dirAt p := by
  obtain ⟨t,ht,hdir,-⟩ := h
  exact dirAt_iff.mpr ⟨t,ht,hdir⟩

theorem There.mono (h : There fs g p) (hg : Part g g') : There fs g' p := by
  obtain ⟨t,ht,hdir,hold⟩ := h
  exact ⟨t,hg.resolve ht,(hg.isDir_eq (resolve_lt ht)).trans hdir,hold⟩

theorem Unblocked.mono (h : Unblocked fs p) (hq : q <+: p) : Unblocked fs q := fun r hne hr => h r hne (hr.trans hq)

theorem kind_of_isDir (h : g.isDir i) (target : List (Piece FileName)) : g.kind i ≠ .link target := by
  rw [isDir_iff.mp h]
  simp

/-- What a name in a directory leads to once it is taken. -/
theorem There.child (hp : p ≠ []) (hpart : Part fs g) (hgrown : Grown fs g) (h : There fs g p)
    (ht : g.resolve true p = some t) (hi : g.lookup t.node n = some i)
    (hfree : Unblocked fs (p++[name n])) : There fs g (p++[name n]) := by
  obtain ⟨t',ht',hdir,hold⟩ := h
  obtain rfl : t' = t := Option.some.inj (ht'.symm.trans ht)
  obtain hi' | ⟨hnew,hidir⟩ := hgrown _ _ _ hi
  · have hlt := (lookup_lt hi').1
    have hfs : fs.resolve true p = some t' := hold.resolve_right (by omega)
    have htaken : fs.takenAt (p++[name n]) := by
      rw [takenAt,resolve_name hp,hfs]
      simp [← hpart.isDir_eq hlt,hdir,hi']
    obtain ⟨u,hu,hudir⟩ := dirAt_iff.mp (hfree _ (by simp) prefix_rfl htaken)
    exact ⟨u,hpart.resolve hu,(hpart.isDir_eq (resolve_lt hu)).trans hudir,.inl hu⟩
  · exact ⟨_,resolve_name_follow hp ht hdir hi (kind_of_isDir hidir),hidir,.inr hnew⟩

section

variable (hpath : parse path = p++[Piece.name n]) {d : ℕ}
include hpath

theorem posixMkdir_eq (ht : g.resolve true p = some t) (hdir : g.isDir t.node) (hfree : g.lookup t.node n = none) :
    (posixMkdir g path).2 = g.addDir t.node n (resolve_lt ht) := by
  rw [posixMkdir,hpath,mkdir_name,ht]
  dsimp only
  rw [dif_pos ⟨resolve_lt ht,hdir,hfree⟩]

theorem posixMkdir_cases : (posixMkdir g path).2 = g ∨ ∃ t, ∃ ht : g.resolve true p = some t, g.isDir t.node ∧
      g.lookup t.node n = none ∧ (posixMkdir g path).2 = g.addDir t.node n (resolve_lt ht) := by
  obtain ht | ⟨t,ht⟩ := Option.eq_none_or_eq_some (g.resolve true p)
  · left
    rw [posixMkdir,hpath,mkdir_name,ht]
  by_cases h : g.isDir t.node ∧ g.lookup t.node n = none
  · exact .inr ⟨t,ht,h.1,h.2,posixMkdir_eq hpath ht h.1 h.2⟩
  left
  rw [posixMkdir,hpath,mkdir_name,ht]
  dsimp only
  rw [dif_neg fun h' => h h'.2]

theorem part_mkdir : Part g (posixMkdir g path).2 := by
  obtain heq | ⟨t,ht,-,hfree,heq⟩ := posixMkdir_cases hpath
  · rw [heq]
    exact Part.refl g
  · rw [heq]
    exact Part.addDir _ hfree

omit hpath in
theorem grown_addDir (hpart : Part fs g) (hgrown : Grown fs g) (hlt : d < g.next)
    (hfree : g.lookup d n = none) : Grown fs (g.addDir d n hlt) := by
  intro d' n' i hi
  rw [lookup_addDir] at hi
  split at hi
  · cases hi
    exact .inr ⟨hpart.next_le,isDir_iff.mpr (Function.update_self _ _ _)⟩
  · have hidir := (Part.addDir hlt hfree).isDir_eq (lookup_lt hi).2
    exact (hgrown _ _ _ hi).imp_right fun h => ⟨h.1,hidir.trans h.2⟩

theorem grown_mkdir (hpart : Part fs g) (hgrown : Grown fs g) : Grown fs (posixMkdir g path).2 := by
  obtain heq | ⟨t,ht,-,hfree,heq⟩ := posixMkdir_cases hpath
  · rwa [heq]
  · rw [heq]
    exact grown_addDir hpart hgrown _ hfree

omit hpath in
theorem there_mkdir (hp : p ≠ []) (hpath : parse path = p++[name n]) (hpart : Part fs g)
    (hgrown : Grown fs g) (h : There fs g p) (hfree : Unblocked fs (p++[name n])) :
    There fs (posixMkdir g path).2 (p++[name n]) := by
  obtain ⟨t,ht,hdir,hold⟩ := h
  cases hi : g.lookup t.node n with
  | some i => exact (There.child hp hpart hgrown ⟨t,ht,hdir,hold⟩ ht hi hfree).mono (part_mkdir hpath)
  | none =>
    have hpart' : Part g (g.addDir t.node n (resolve_lt ht)) := Part.addDir _ hi
    have hnew : (g.addDir t.node n (resolve_lt ht)).isDir g.next := isDir_iff.mpr (Function.update_self _ _ _)
    have hlookup : (g.addDir t.node n (resolve_lt ht)).lookup t.node n = some g.next := by
      rw [lookup_addDir,if_pos ⟨rfl,rfl⟩]
    have hdir' := (hpart'.isDir_eq (resolve_lt ht)).trans hdir
    rw [posixMkdir_eq hpath ht hdir hi]
    exact ⟨_,resolve_name_follow hp (hpart'.resolve ht) hdir' hlookup (kind_of_isDir hnew),hnew, .inr hpart.next_le⟩

theorem dirAt_of_mkdir : (posixMkdir g path).2 = g ∨ g.dirAt p := by
  obtain heq | ⟨t,ht,hdir,-,-⟩ := posixMkdir_cases hpath
  · exact .inl heq
  · exact .inr (dirAt_iff.mpr ⟨t,ht,hdir⟩)

end

/-- The path on the device to which the names in a directory are joined. -/
def remoteBase (target : Bytes) : List (Piece FileName) :=
  parse (Utf8.fromUtf8Lossy (if target.getLast? = some SLASH then target.dropLast else target))

theorem remoteBase_ne_nil (target : Bytes) : remoteBase target ≠ [] := parse_ne_nil _

theorem parse_lossy_join (h : target ≠ []) (name : FileName) :
    parse (Utf8.fromUtf8Lossy (join target name.bytes)) = remoteBase target++[Piece.name name.lossy] := by
  have hslash : SLASH < 0x80 := by decide
  have hname : ∀ q, parse (Utf8.fromUtf8Lossy (q++SLASH::name.bytes)) =
      parse (Utf8.fromUtf8Lossy q)++[Piece.name name.lossy] := by
    intro q
    rw [Utf8.fromUtf8Lossy_append_ascii hslash,parse_append_slash]
    exact congrArg _ (parse_name name.lossy)
  unfold join remoteBase
  rw [if_neg (by simp [isAbsolute_name])]
  by_cases hlast : target.getLast? = some SLASH
  · obtain ⟨q,rfl⟩ := getLast?_eq_some_iff.mp hlast
    rw [if_pos (.inr hlast),if_pos hlast,dropLast_concat,append_assoc,singleton_append]
    exact hname q
  · rw [if_neg (not_or.mpr ⟨h,hlast⟩),if_neg hlast]
    exact hname target

theorem join_name (target : Bytes) (name : FileName) : ∃ q, join target name.bytes = q++name.bytes := by
  unfold join
  split
  · exact ⟨[],rfl⟩
  · split
    · exact ⟨target,rfl⟩
    · exact ⟨target++[SLASH],by simp⟩

theorem join_ne_nil (target : Bytes) (name : FileName) : join target name.bytes ≠ [] := by
  obtain ⟨q,hq⟩ := join_name target name
  simp [hq,name.plain.1]

theorem remoteBase_join (h : target ≠ []) (name : FileName) :
    remoteBase (join target name.bytes) = remoteBase target++[Piece.name name.lossy] := by
  have hlast : (join target name.bytes).getLast? ≠ some SLASH := by
    obtain ⟨q,hq⟩ := join_name target name
    rw [hq,getLast?_append_of_ne_nil _ name.plain.1]
    intro hslash
    exact name.plain.2.1 (mem_of_getLast? hslash)
  rw [← parse_lossy_join h,remoteBase,if_neg hlast]

/-- The device's own directory, whose path is text. -/
theorem dirAt_remoteBase (deviceDir : Text) :
    fs.dirAt (remoteBase deviceDir.bytes) = fs.dirAt (parse deviceDir.bytes) := by
  have htext := Utf8.fromUtf8Lossy_of_valid deviceDir.utf8
  unfold remoteBase
  by_cases hlast : deviceDir.bytes.getLast? = some SLASH
  · obtain ⟨q,hq⟩ := getLast?_eq_some_iff.mp hlast
    have hslash : SLASH < 0x80 := by decide
    rw [hq,Utf8.fromUtf8Lossy_append_ascii hslash] at htext
    have hq' : Utf8.fromUtf8Lossy q = q := append_cancel_right htext
    rw [if_pos hlast,hq,dropLast_concat,hq',parse_append_slash]
    exact (dirAt_append_empty (parse_ne_nil q)).symm
  · rw [if_neg hlast,htext]

section

variable {root : List (Piece FileName)} {x : Level} {w' : World} {s : State} {reply : Reply}

/-- The directory is there if it can be. -/
def Reached (fs : Graph FileName) (root : List (Piece FileName)) (w : World) (p : List (Piece FileName)) : Prop :=
  fs.dirAt root = true → Unblocked fs p → There fs w.device p

/-- What holds between the steps of a push. -/
structure Kept (fs : Graph FileName) (root : List (Piece FileName)) (w : World) : Prop where
  part : Part fs w.device
  grown : Grown fs w.device
  same : w.device = fs ∨ fs.dirAt root = true
  served : ∀ job ∈ w.queued, Reached fs root w (parse job.2.destination).dropLast

/-- A directory on the stack. -/
structure Pending (fs : Graph FileName) (root : List (Piece FileName)) (w : World) (x : Level) : Prop where
  target_ne : x.target ≠ []
  below : root <+: remoteBase x.target
  reached : Reached fs root w (remoteBase x.target)

theorem Reached.mono (h : Reached fs root w p) (hw : Part w.device w'.device) : Reached fs root w' p :=
  fun hroot hfree => (h hroot hfree).mono hw

theorem Pending.mono (h : Pending fs root w x) (hw : Part w.device w'.device) : Pending fs root w' x :=
  ⟨h.target_ne,h.below,h.reached.mono hw⟩

theorem parse_remoteStr (h : Pending fs root w x) (entry : LocalEntry) :
    parse (remoteStr x entry) = remoteBase x.target++[Piece.name entry.name.lossy] := parse_lossy_join h.target_ne _

theorem mkdir_kept (hroot : root ≠ []) (henv : env.mkdir = posixMkdir) (hk : Kept fs root w) (hx : Pending fs root w x)
    (entry : LocalEntry) : Kept fs root (w.mkdir env (remoteStr x entry)) ∧
      Part w.device (w.mkdir env (remoteStr x entry)).device ∧
      Pending fs root (w.mkdir env (remoteStr x entry)) (pushChild x entry) := by
  have hpath := parse_remoteStr hx entry
  have hbase : remoteBase (pushChild x entry).target = remoteBase x.target++[Piece.name entry.name.lossy] :=
    remoteBase_join hx.target_ne _
  have hdevice : (w.mkdir env (remoteStr x entry)).device = (posixMkdir w.device (remoteStr x entry)).2 := by
    rw [World.mkdir,henv]
  have hpart : Part w.device (w.mkdir env (remoteStr x entry)).device := hdevice ▸ part_mkdir hpath
  refine ⟨⟨hk.part.trans hpart,?_,?_,?_⟩,hpart,join_ne_nil _ _,?_,?_⟩
  · rw [hdevice]
    exact grown_mkdir hpath hk.part hk.grown
  · obtain hsame | hdir := hk.same
    · rw [hdevice,hsame]
      refine (dirAt_of_mkdir hpath).imp_right fun h => ?_
      exact dirAt_above hroot hx.below h
    · exact .inr hdir
  · intro job hjob
    exact (hk.served job hjob).mono hpart
  · rw [hbase]
    exact hx.below.trans (prefix_append _ _)
  · intro hdir hfree
    rw [hbase] at hfree ⊢
    rw [hdevice]
    exact there_mkdir (remoteBase_ne_nil _) hpath hk.part hk.grown
      (hx.reached hdir (hfree.mono (prefix_append _ _))) hfree

theorem submit_kept (hk : Kept fs root w) (hx : Pending fs root w x) (entry : LocalEntry) :
    Kept fs root (w.submit env (pushJob device options x entry)) := by
  refine ⟨hk.part,hk.grown,hk.same,?_⟩
  intro job hjob
  obtain hjob | hjob := mem_append.mp hjob
  · exact hk.served job hjob
  obtain rfl := mem_singleton.mp hjob
  show Reached fs root _ (parse (remoteStr x entry)).dropLast
  rw [parse_remoteStr hx,dropLast_concat]
  exact hx.reached

theorem step_kept (device : String) (options : JobOptions) (hroot : root ≠ []) (henv : env.mkdir = posixMkdir) (hk : Kept fs root s.2)
    (hx : Pending fs root s.2 x) (e : Except String LocalEntry) :
    match step env s (sightPush env device options x e) with
    | .ok t => Kept fs root t.2 ∧ Part s.2.device t.2.device ∧ ∀ y, childPush x e = some y → Pending fs root t.2 y
    | .error r => Kept fs root r.2 := by
  cases e with
  | error e => exact hk
  | ok entry =>
    cases hcap : treeFileCapError s.1.enqueued.length with
    | some e =>
      rw [step_full (isEntry_sightPush entry) hcap]
      exact hk
    | none =>
      rw [step_entry (isEntry_sightPush entry) hcap,sightPush,childPush]
      cases entry.fileType with
      | error e => exact hk
      | ok kind =>
        cases kind with
        | symlink | other => exact ⟨hk,Part.refl _,by simp⟩
        | dir =>
          obtain ⟨hk',hpart,hchild⟩ := mkdir_kept hroot henv hk hx entry
          refine ⟨hk',hpart,?_⟩
          rintro y ⟨⟩
          exact hchild
        | file => exact ⟨submit_kept hk hx entry,Part.refl _,by simp⟩

theorem entries_kept (device : String) (options : JobOptions) (hroot : root ≠ [])
    (henv : env.mkdir = posixMkdir) (entries : List (Except String LocalEntry))
    (hk : Kept fs root s.2) (hx : Pending fs root s.2 x) :
    match (entries.map (sightPush env device options x)).foldlM (step env) s with
    | .ok t => Kept fs root t.2 ∧ Part s.2.device t.2.device ∧
        ∀ y ∈ entries.filterMap (childPush x), Pending fs root t.2 y
    | .error r => Kept fs root r.2 := by
  induction entries generalizing s with
  | nil => exact ⟨hk,Part.refl _,by simp⟩
  | cons e rest ih =>
    have hstep := step_kept device options hroot henv hk hx e
    rw [map_cons,foldlM_cons]
    cases hs : step env s (sightPush env device options x e) with
    | error r =>
      rw [hs] at hstep
      exact hstep
    | ok t =>
      rw [hs] at hstep
      obtain ⟨hkt,hpart,hchild⟩ := hstep
      have hrest := ih hkt (hx.mono hpart)
      show match (rest.map (sightPush env device options x)).foldlM (step env) t with
        | .ok u => _
        | .error r => _
      cases hu : (rest.map (sightPush env device options x)).foldlM (step env) t with
      | error r =>
        rw [hu] at hrest
        exact hrest
      | ok u =>
        rw [hu] at hrest
        obtain ⟨hku,hpart',hkids⟩ := hrest
        refine ⟨hku,hpart.trans hpart',?_⟩
        intro y hy
        obtain ⟨e',he',hchild'⟩ := mem_filterMap.mp hy
        obtain rfl | he' := mem_cons.mp he'
        · exact (hchild y hchild').mono hpart'
        · exact hkids y (mem_filterMap.mpr ⟨e',he',hchild'⟩)

theorem lookPush_kept (device : String) (options : JobOptions) (hroot : root ≠ []) (henv : env.mkdir = posixMkdir)
    (hk : Kept fs root s.2) (hx : Pending fs root s.2 x) :
    match (lookPush env device options x).foldlM (step env) s with
    | .ok t => Kept fs root t.2 ∧ Part s.2.device t.2.device ∧ ∀ y ∈ kidsPush env x, Pending fs root t.2 y
    | .error r => Kept fs root r.2 := by
  unfold lookPush kidsPush
  by_cases hdeep : x.depth ≥ TREE_MAX_DEPTH
  · rw [if_pos hdeep,if_pos hdeep]
    exact ⟨hk,Part.refl _,by simp⟩
  rw [if_neg hdeep,if_neg hdeep]
  cases env.readDir x.source with
  | error e => exact hk
  | ok entries => simpa using entries_kept device options hroot henv entries hk hx

theorem treeLoop_kept (hroot : root ≠ []) (henv : env.mkdir = posixMkdir)
    (hk : Kept fs root w) (hx : Pending fs root w x)
    (h : (treeLoop (visitPush device options) rounds [x] out).play (act env) w = some (reply,w')) : Kept fs root w' := by
  rw [play_treeLoop play_visitPush] at h
  obtain ⟨result,hdrain,hfinish⟩ := Option.map_eq_some_iff.mp h
  have hresult : result.casesOn (fun r => Kept fs root r.2) (fun t => Kept fs root t.2) := by
    refine drain_rule (I:=fun t => Kept fs root t.2) (J:=fun t y => Pending fs root t.2 y)
      (R:=fun r => Kept fs root r.2) ?_ ?_ hk (by simpa using hx) hdrain
    · intro y t u ht hy hu
      have hlook := lookPush_kept device options hroot henv ht hy
      rw [hu] at hlook
      exact ⟨hlook.1,hlook.2.2,fun z hz => hz.mono hlook.2.1⟩
    · intro y t r ht hy hr
      have hlook := lookPush_kept device options hroot henv ht hy
      rw [hr] at hlook
      exact hlook
  cases result with
  | error r =>
    obtain rfl : r = (reply,w') := hfinish
    exact hresult
  | ok t =>
    obtain rfl : t.2 = w' := congrArg Prod.snd hfinish
    exact hresult

end

/-- What the call needs of the device, for the files it meets on the host: its directory, and directories where it
needs them. -/
def Prepared (fs : Graph FileName) (deviceDir : Text) (sights : List Sight) : Prop :=
  fs.dirAt (parse deviceDir.bytes) = true ∧
    ∀ job ∈ TreeReport.files sights, Unblocked fs (parse job.destination).dropLast

/-- The directory and the parents of all destinations are there. -/
def Served (deviceDir : Text) (w : World) : Prop :=
  w.device.dirAt (parse deviceDir.bytes) = true ∧
    ∀ job ∈ w.queued, w.device.dirAt (parse job.2.destination).dropLast = true

theorem isAbsolute_of_checkArgs (h : checkArgs overwrite verify first second = .ok options) : isAbsolute second := by
  by_contra hrel
  have hsecond : checkTreePath second = .error (.invalidArgs "tree paths must be absolute") :=
    if_pos (by simpa using hrel)
  unfold checkArgs at h
  rw [hsecond] at h
  cases hopt : parseJobOptions overwrite verify with
  | error e =>
    rw [hopt] at h
    cases h
  | ok o =>
    rw [hopt] at h
    cases hfirst : checkTreePath first with
    | error e | ok u =>
      rw [hfirst] at h
      cases h

theorem enqueueTreePush_kept (henv : env.mkdir = posixMkdir)
    (h : (enqueueTreePush rounds device localDir deviceDir overwrite verify).play (act env) ⟨fs,[]⟩ = some (.ok out,w)) :
    Kept fs (remoteBase deviceDir.bytes) w := by
  unfold enqueueTreePush at h
  cases hargs : checkArgs overwrite verify localDir.bytes deviceDir.bytes with
  | error e =>
    rw [hargs] at h
    cases h
  | ok options =>
    rw [hargs] at h
    rw [play_perform_bind,TreeWalk.act] at h
    have hne : deviceDir.bytes ≠ [] := by
      intro hnil
      have habs := isAbsolute_of_checkArgs hargs
      rw [hnil] at habs
      cases habs
    have hstart : Kept fs (remoteBase deviceDir.bytes) ⟨fs,[]⟩ :=
      ⟨Part.refl fs,fun _ _ _ hi => .inl hi,.inl rfl,by simp⟩
    cases hconn : env.connected with
    | false =>
      rw [hconn] at h
      cases h
    | true =>
      rw [hconn] at h
      refine treeLoop_kept (remoteBase_ne_nil _) henv hstart ⟨hne,prefix_rfl,?_⟩ h
      intro hdir _
      obtain ⟨t,ht,htdir⟩ := dirAt_iff.mp hdir
      exact ⟨t,ht,htdir,.inl ht⟩

/-- Only files that were met are queued. -/
theorem queued_files {sights : List Sight}
    (h : finish (sights.foldlM (step env) (.empty,⟨fs,[]⟩)) = (.ok out,w)) : ∀ job ∈ w.queued, job.2 ∈ TreeReport.files sights := by
  have hended : TreeReport.Ended (.empty,⟨fs,[]⟩) 0 sights (sights.foldlM (step env) (.empty,⟨fs,[]⟩)) :=
    TreeReport.ended_fold rfl (Nat.zero_le _)
  obtain ⟨done,t,hwent,-,hend⟩ := hended
  obtain ⟨new,hq,-,hjob⟩ := hwent.jobs
  intro job hin
  have hdone : w = t.2 → job.2 ∈ TreeReport.files done := by
    rintro rfl
    rw [hq] at hin
    rw [← hjob]
    exact mem_map_of_mem hin
  cases hhalt : TreeReport.halt 0 sights with
  | through =>
    rw [hhalt] at hend
    obtain ⟨rfl,hresult⟩ := hend
    rw [hresult] at h
    exact hdone (Prod.mk.inj h).2.symm
  | failed m =>
    rw [hhalt] at hend
    obtain ⟨-,e,hresult⟩ := hend
    rw [hresult] at h
    cases h
  | full left =>
    rw [hhalt] at hend
    obtain ⟨rfl,hresult⟩ := hend
    rw [hresult] at h
    rw [TreeReport.files_append]
    exact mem_append_left _ (hdone (Prod.mk.inj h).2.symm)

/-- A host with the files `/s/a` and `/s/b/c`. -/
def smallHost : Env where
  connected := true
  readDir dir :=
    if dir = [47,115] then .ok [.ok ⟨.a,.ok .file⟩,.ok ⟨.b,.ok .dir⟩]
    else .ok [.ok ⟨⟨[99],by decide⟩,.ok .file⟩]
  createDirAll _ := .ok ()
  mkdir := posixMkdir
  listdir _ := .ok []
  id n := n+1

theorem unblocked_bareDevice (p : List (Piece FileName)) : Unblocked bareDevice p := by
  intro q _ _ htaken
  obtain ⟨t,ht⟩ := Option.isSome_iff_exists.mp htaken
  exact dirAt_iff.mpr ⟨t,resolve_follow ht (by simp [bareDevice]),rfl⟩

end AdbShare.TreeParents

import AdbShare.TreeRun

/-! What a tree transfer tells its caller. The jobs it queues are the files it meets, one for
one, and a directory that is too deep is named among the errors. A failure after the first
file takes the numbers of the queued jobs with it, and the limit on files leaves out what
comes after it without naming it. -/
namespace AdbShare.TreeReport

open TreeWalk List TreeEnqueueResult

def files (sights : List Sight) : List NewJob :=
  sights.filterMap fun
    | .file job => some job
    | _ => none

/-- What is skipped for its depth or because it cannot be read. -/
def skips (sights : List Sight) : List Bytes :=
  sights.filterMap fun
    | .deep dir => some dir
    | .lost skipped _ => skipped
    | .unknown path _ => some path
    | _ => none

/-- The error is about the path. -/
def Names (path : Bytes) (e : String) : Prop := ∃ reason, e = Utf8.toString path++": "++reason

/-- The caller can account for everything that the call has met. -/
structure Accounted (sights : List Sight) (reply : Reply) (w : World) : Prop where
  few : w.queued.length ≤ TREE_MAX_FILES
  /-- No failure is returned once a job has been queued. -/
  told : ∀ e, reply = .error e → w.queued = []
  ids : ∀ out, reply = .ok out → out.enqueued = w.queued.map Prod.fst
  once : ∀ out, reply = .ok out → w.queued.map Prod.snd = files sights
  /-- Each thing skipped has an error of its own. -/
  named : ∀ out, reply = .ok out → ∃ es, es.Sublist out.errors ∧ List.Forall₂ Names (skips sights) es

/-- How a call ends: at the end, at a failure when so many files have been queued, or at the
limit, with what is left. -/
inductive Halt
  | through
  | failed (count : ℕ)
  | full (left : List Sight)

def halt : ℕ → List Sight → Halt
  | _, [] => .through
  | n, sight::rest =>
    match sight with
    | .deep _ => halt n rest
    | .lost _ _ => .failed n
    | .unknown _ _ => if n ≥ TREE_MAX_FILES then .full (sight::rest) else .failed n
    | .passed => if n ≥ TREE_MAX_FILES then .full (sight::rest) else halt n rest
    | .dir _ => if n ≥ TREE_MAX_FILES then .full (sight::rest) else halt n rest
    | .file _ => if n ≥ TREE_MAX_FILES then .full (sight::rest) else halt (n+1) rest

/-- No failure comes after a file, and at the limit nothing is left to queue or to report. -/
def Clear (sights : List Sight) : Prop :=
  match halt 0 sights with
  | .through => True
  | .failed n => n = 0
  | .full left => files left = [] ∧ skips left = []

@[simp] theorem files_append (a b : List Sight) : files (a++b) = files a++files b := filterMap_append

@[simp] theorem skips_append (a b : List Sight) : skips (a++b) = skips a++skips b := filterMap_append

section

variable {env : Env} {s t u : State} {sights done rest : List Sight} {sight : Sight} {n m : ℕ} {paths : List Bytes}
  {result : Except (Reply × World) State} {r : Reply × World} {es errors : List String}

/-- What has been done when the call has got past some sights. -/
structure Went (s : State) (done : List Sight) (t : State) : Prop where
  jobs : ∃ new, t.2.queued = s.2.queued++new ∧ t.1.enqueued = s.1.enqueued++new.map Prod.fst ∧
    new.map Prod.snd = files done
  errors : t.1.errors = s.1.errors++(skips done).map nestingError

theorem Went.refl (s : State) : Went s [] s := ⟨⟨[],by simp [files]⟩,by simp [skips]⟩

theorem Went.trans (h : Went s done t) (h' : Went t rest u) : Went s (done++rest) u := by
  obtain ⟨⟨new,hq,hid,hjob⟩,herr⟩ := h
  obtain ⟨⟨new',hq',hid',hjob'⟩,herr'⟩ := h'
  refine ⟨⟨new++new',?_,?_,?_⟩,?_⟩
  · rw [hq',hq,append_assoc]
  · rw [hid',hid,map_append,append_assoc]
  · rw [map_append,hjob,hjob',files_append]
  · rw [herr',herr,skips_append,map_append,append_assoc]

theorem went_step (h : step env s sight = .ok t) : Went s [sight] t := by
  obtain ⟨out,w⟩ := s
  cases hentry : sight.isEntry with
  | false =>
    cases sight with
    | deep dir =>
      cases h
      exact ⟨⟨[],by simp [files,report]⟩,by simp [skips,report]⟩
    | lost skipped e => cases h
    | _ => cases hentry
  | true =>
    cases hcap : treeFileCapError out.enqueued.length with
    | some e =>
      rw [step_full hentry hcap] at h
      cases h
    | none =>
      rw [step_entry hentry hcap] at h
      cases sight with
      | deep _ | lost _ _ => cases hentry
      | unknown _ _ => cases h
      | passed | dir _ =>
        cases h
        exact ⟨⟨[],by simp [files]⟩,by simp [skips]⟩
      | file job =>
        cases h
        refine ⟨⟨[(w.nextId env,job)],rfl,?_,?_⟩,?_⟩
        · simp [queued]
        · simp [files]
        · simp [skips,queued]

def capError : String := "too many files (limit "++toString TREE_MAX_FILES++")"

/-- How the fold ends and what has been done by then. -/
def Ended (s : State) (n : ℕ) (sights : List Sight) (result : Except (Reply × World) State) : Prop :=
  ∃ done t, Went s done t ∧ t.1.enqueued.length ≤ TREE_MAX_FILES ∧
    match halt n sights with
    | .through => sights = done ∧ result = .ok t
    | .failed m => m = n+(files done).length ∧ ∃ e, result = .error (.error e,t.2)
    | .full left => sights = done++left ∧ result = .error (.ok (t.1.report capError),t.2)

/-- A sight that is got past. -/
theorem Ended.cons (h : Went s [sight] t)
    (hn : m = n+(files [sight]).length) (hhalt : halt n (sight::rest) = halt m rest)
    (hrest : Ended t m rest result) : Ended s n (sight::rest) result := by
  obtain ⟨done,u,hu,hle,hend⟩ := hrest
  refine ⟨sight::done,u,h.trans hu,hle,?_⟩
  have hfiles : (files (sight::done)).length = (files [sight]).length+(files done).length := by
    rw [← length_append,← files_append]
    rfl
  rw [hhalt]
  cases hm : halt m rest with
  | through | full left =>
    rw [hm] at hend
    exact ⟨congrArg _ hend.1,hend.2⟩
  | failed k =>
    rw [hm] at hend
    exact ⟨by rw [hfiles]; omega,hend.2⟩

theorem halt_of_ok (rest : List Sight) (hn : s.1.enqueued.length = n) (h : step env s sight = .ok t) :
    halt n (sight::rest) = halt (n+(files [sight]).length) rest ∧
      (n ≤ TREE_MAX_FILES → n+(files [sight]).length ≤ TREE_MAX_FILES) := by
  obtain ⟨out,w⟩ := s
  subst hn
  cases hcap : treeFileCapError out.enqueued.length with
  | some e =>
    cases sight with
    | deep dir => exact ⟨rfl,id⟩
    | lost _ _ => cases h
    | _ =>
      rw [step_full rfl hcap] at h
      cases h
  | none =>
    have hlt : ¬ out.enqueued.length ≥ TREE_MAX_FILES := by
      intro hge
      rw [treeFileCapError,if_pos hge] at hcap
      cases hcap
    cases sight with
    | deep dir => exact ⟨rfl,id⟩
    | lost _ _ => cases h
    | unknown _ _ =>
      rw [step_entry rfl hcap] at h
      cases h
    | passed | dir _ => exact ⟨if_neg hlt,id⟩
    | file job => exact ⟨if_neg hlt,fun _ => Nat.lt_of_not_ge hlt⟩

theorem halt_of_error (rest : List Sight) (hn : s.1.enqueued.length = n) (h : step env s sight = .error r) :
    (halt n (sight::rest) = .failed n ∧ ∃ e, r = (.error e,s.2)) ∨
      (halt n (sight::rest) = .full (sight::rest) ∧ r = (.ok (s.1.report capError),s.2)) := by
  obtain ⟨out,w⟩ := s
  subst hn
  cases hentry : sight.isEntry with
  | false =>
    cases sight with
    | deep dir => cases h
    | lost skipped e =>
      cases h
      exact Or.inl ⟨rfl,e,rfl⟩
    | _ => cases hentry
  | true =>
    by_cases hge : out.enqueued.length ≥ TREE_MAX_FILES
    · have hcap : treeFileCapError out.enqueued.length = some capError := if_pos hge
      rw [step_full hentry hcap] at h
      cases h
      refine Or.inr ⟨?_,rfl⟩
      cases sight with
      | deep _ | lost _ _ => cases hentry
      | _ => exact if_pos hge
    · have hcap : treeFileCapError out.enqueued.length = none := if_neg hge
      rw [step_entry hentry hcap] at h
      cases sight with
      | unknown path e =>
        cases h
        exact Or.inl ⟨if_neg hge,e,rfl⟩
      | _ => cases h

theorem ended_fold (hn : s.1.enqueued.length = n) (hmax : n ≤ TREE_MAX_FILES) :
    Ended s n sights (sights.foldlM (step env) s) := by
  induction sights generalizing s n with
  | nil => exact ⟨[],s,Went.refl s,hn ▸ hmax,rfl,rfl⟩
  | cons sight rest ih =>
    rw [foldlM_cons]
    cases hstep : step env s sight with
    | ok t =>
      have hwent := went_step hstep
      obtain ⟨hhalt,hle⟩ := halt_of_ok rest hn hstep
      have ht : t.1.enqueued.length = n+(files [sight]).length := by
        obtain ⟨new,-,hid,hjob⟩ := hwent.jobs
        rw [hid,← hjob]
        simp [hn]
      exact Ended.cons hwent rfl hhalt (ih ht (hle hmax))
    | error r =>
      refine ⟨[],s,Went.refl s,hn ▸ hmax,?_⟩
      obtain ⟨hhalt,e,rfl⟩ | ⟨hhalt,rfl⟩ := halt_of_error rest hn hstep
      · rw [hhalt]
        exact ⟨rfl,e,rfl⟩
      · rw [hhalt]
        exact ⟨rfl,rfl⟩

theorem not_names_capError (path : Bytes) : ¬ Names path capError := by
  rintro ⟨reason,h⟩
  have hcolon : ':' ∈ capError.toList := by
    rw [h]
    simp
  exact absurd hcolon (by decide +kernel)

theorem forall₂_names (paths : List Bytes) : List.Forall₂ Names paths (paths.map nestingError) := by
  induction paths with
  | nil => exact .nil
  | cons path paths ih => exact .cons ⟨"directory nesting too deep",by simp [nestingError,String.append_assoc]⟩ ih

theorem exists_names (h : List.Forall₂ Names paths es) : ∀ e ∈ es, ∃ path, Names path e := by
  induction h with
  | nil => simp
  | cons hname _ ih =>
    intro e he
    obtain rfl | he := mem_cons.mp he
    · exact ⟨_,hname⟩
    · exact ih e he

theorem length_le_of_names (hes : es.Sublist (errors++[capError]))
    (h : List.Forall₂ Names paths es) : paths.length ≤ errors.length := by
  obtain ⟨es₁,es₂,rfl,h₁,h₂⟩ := sublist_append_iff.mp hes
  have hcap : capError ∉ es₂ := by
    intro hmem
    obtain ⟨path,hpath⟩ := exists_names h capError (mem_append_right _ hmem)
    exact not_names_capError path hpath
  have hnil : es₂ = [] := by
    obtain hnil | hone := sublist_singleton.mp h₂
    · exact hnil
    · simp [hone] at hcap
  rw [h.length_eq,hnil,append_nil]
  exact h₁.length_le

theorem accounted_iff_clear (env : Env) (sights : List Sight) (fs : Posix.Graph PathText.FileName) :
    Accounted sights (finish (sights.foldlM (step env) (.empty,⟨fs,[]⟩))).1
      (finish (sights.foldlM (step env) (.empty,⟨fs,[]⟩))).2 ↔ Clear sights := by
  have hended : Ended (.empty,⟨fs,[]⟩) 0 sights (sights.foldlM (step env) (.empty,⟨fs,[]⟩)) :=
    ended_fold rfl (Nat.zero_le _)
  obtain ⟨done,t,hwent,hle,hend⟩ := hended
  obtain ⟨⟨new,hq,hid,hjob⟩,herr⟩ := hwent
  simp only [empty,nil_append] at hq hid herr
  subst hq
  have hfew : t.2.queued.length ≤ TREE_MAX_FILES := by simpa [hid] using hle
  unfold Clear
  cases hhalt : halt 0 sights with
  | through =>
    rw [hhalt] at hend
    obtain ⟨rfl,hresult⟩ := hend
    rw [hresult]
    refine iff_of_true ⟨hfew,?_,?_,?_,?_⟩ trivial
    · exact nofun
    · rintro out ⟨⟩
      exact hid
    · rintro out ⟨⟩
      exact hjob
    · rintro out ⟨⟩
      exact ⟨_,List.Sublist.refl _,herr ▸ forall₂_names _⟩
  | failed m =>
    rw [hhalt] at hend
    obtain ⟨hm,e,hresult⟩ := hend
    rw [hresult]
    have hlen : t.2.queued.length = m := by
      rw [hm,← hjob,length_map,Nat.zero_add]
    constructor
    · intro h
      have hnil : t.2.queued = [] := h.told e rfl
      rw [← hlen,hnil]
      rfl
    · intro h
      refine ⟨hfew,?_,?_,?_,?_⟩
      · intro e' _
        exact length_eq_zero_iff.mp (hlen.trans h)
      all_goals
        intro out hout
        cases hout
  | full left =>
    rw [hhalt] at hend
    obtain ⟨rfl,hresult⟩ := hend
    rw [hresult]
    have herrors : (t.1.report capError).errors = (skips done).map nestingError++[capError] := by
      rw [report,herr]
    constructor
    · intro h
      obtain ⟨es,hes,hnames⟩ := h.named _ rfl
      have hlen := length_le_of_names (herrors ▸ hes) hnames
      have hfiles : files done = files done++files left := by
        rw [← files_append,← h.once _ rfl,← hjob]
        rfl
      refine ⟨by simpa using hfiles,?_⟩
      rw [skips_append,length_append,length_map] at hlen
      exact length_eq_zero_iff.mp (by omega)
    · rintro ⟨hfiles,hskips⟩
      refine ⟨hfew,?_,?_,?_,?_⟩
      · exact nofun
      · rintro out ⟨⟩
        exact hid
      · rintro out ⟨⟩
        rw [files_append,hfiles,append_nil,← hjob]
        rfl
      · rintro out ⟨⟩
        refine ⟨(skips done).map nestingError,?_,?_⟩
        · rw [herrors]
          exact sublist_append_left _ _
        · rw [skips_append,hskips,append_nil]
          exact forall₂_names _

end

/-- For every tree and every pattern of failures both calls come to an end, and the caller can
account for what they met exactly if no failure comes after a file and nothing is left out at
the limit on files. -/
theorem tree_accounted_iff (env : Env) (device overwrite : String) (verify : Bool) (fs : Posix.Graph PathText.FileName) :
    (∀ localDir deviceDir, ∃ enough, ∀ rounds ≥ enough, ∃ reply w,
      (enqueueTreePush rounds device localDir deviceDir overwrite verify).play (act env) ⟨fs,[]⟩ = some (reply,w) ∧
        (Accounted (pushSights env device overwrite verify localDir deviceDir) reply w ↔
          Clear (pushSights env device overwrite verify localDir deviceDir))) ∧
      ∀ deviceDir localDir, ∃ enough, ∀ rounds ≥ enough, ∃ reply w,
        (enqueueTreePull rounds device deviceDir localDir overwrite verify).play (act env) ⟨fs,[]⟩ = some (reply,w) ∧
          (Accounted (pullSights env device overwrite verify deviceDir localDir) reply w ↔
            Clear (pullSights env device overwrite verify deviceDir localDir)) := by
  constructor
  · intro localDir deviceDir
    obtain ⟨enough,h⟩ := play_enqueueTreePush env device overwrite verify localDir deviceDir
    exact ⟨enough,fun rounds hrounds => ⟨_,_,h rounds hrounds _,accounted_iff_clear env _ fs⟩⟩
  · intro deviceDir localDir
    obtain ⟨enough,h⟩ := play_enqueueTreePull env device overwrite verify deviceDir localDir
    exact ⟨enough,fun rounds hrounds => ⟨_,_,h rounds hrounds _,accounted_iff_clear env _ fs⟩⟩

/-- A host with a file and a directory in `/s`, of which the directory cannot be read. -/
def lockedHost : Env where
  connected := true
  readDir dir :=
    if dir = [47,115] then .ok [.ok ⟨.a,.ok .file⟩,.ok ⟨.b,.ok .dir⟩]
    else .error "Permission denied"
  createDirAll _ := .ok ()
  mkdir g _ := (.error .timeout,g)
  listdir _ := .error .timeout
  id n := n+1

/-- The call fails when it comes to the directory, but the job for the file is in the queue. -/
theorem error_after_job : ∃ e w,
    (enqueueTreePush 3 "serial" ⟨[47,115],by decide⟩ ⟨[47,100],by decide⟩ "skip" false).play (act lockedHost)
        ⟨bareDevice,[]⟩ = some (.error e,w) ∧ w.queued.length = 1 ∧
      ¬ Accounted (pushSights lockedHost "serial" "skip" false ⟨[47,115],by decide⟩ ⟨[47,100],by decide⟩)
        (.error e) w := by
  refine ⟨_,_,rfl,rfl,?_⟩
  intro h
  cases h.told _ rfl

end AdbShare.TreeReport

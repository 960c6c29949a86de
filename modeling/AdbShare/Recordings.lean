import AdbShare.Onlooker

/-! Screen recordings: `start_record`, the `screenrecord` it leaves running, and `stop_record`.
What an `adb` command answers and whether it was carried out on the device are left open; only
a pull that exits successfully has copied the file. -/
namespace AdbShare.Recordings

open Service Transition Function List Option

/-- The daemon's table, the recordings on the devices, how many there have been so far, those a
pull has copied, and the commands that are spawned and still to run. -/
structure State where
  recording : String → Option String
  files : String → String → Option ℕ
  created : ℕ
  copied : List ℕ
  spawned : List (String × String)

inductive Act : Type → Type
  | clientFor (device : String) : Act Bool
  | now : Act String
  | insert (device remote : String) : Act Unit
  | spawn (device remote : String) : Act Unit
  | screenrecord (device remote : String) : Act Unit
  | remove (device : String) : Act (Option String)
  | pkill (device : String) : Act Unit
  | sleep : Act Unit
  | videoDir : Act (Option String)
  | createDirAll (dir : String) : Act (Except String Unit)
  | pull (device remote dest : String) : Act (Except String Bool)
  | rm (device remote : String) : Act Unit

/-- What the world adds to an action: whether a command is carried out on the device, the stamp,
the directory, and how `create_dir_all` and `adb pull` end. -/
structure Choice where
  yes : Bool := true
  stamp : String := ""
  dir : Option String := none
  made : Except String Unit := .ok ()
  exit : Except String Bool := .ok true

inductive Req
  | startRecord (device : String)
  | screenrecord (device remote : String)
  | stopRecord (device : String)

inductive Reply
  | started
  | recorded
  | saved (path : String)
  | failed (text : String)

def setEntry (table : String → Option String) (device : String) (remote : Option String) : String → Option String :=
  update table device remote

def setFile (files : String → String → Option ℕ) (device remote : String) (file : Option ℕ) :
    String → String → Option ℕ :=
  update files device (update (files device) remote file)

def run : {β : Type} → Act β → Choice → State → Option (β × State)
  | _, .clientFor _, x, s => some (x.yes,s)
  | _, .now, x, s => some (x.stamp,s)
  | _, .insert d p, _, s => some ((),{ s with recording := setEntry s.recording d (some p) })
  | _, .spawn d p, _, s => some ((),{ s with spawned := (d,p)::s.spawned })
  | _, .screenrecord d p, x, s =>
    if x.yes then some ((),{ s with files := setFile s.files d p (some s.created), created := s.created+1 })
    else some ((),s)
  | _, .remove d, _, s => some (s.recording d,{ s with recording := setEntry s.recording d none })
  | _, .pkill _, _, s => some ((),s)
  | _, .sleep, _, s => some ((),s)
  | _, .videoDir, x, s => some (x.dir,s)
  | _, .createDirAll _, x, s => some (x.made,s)
  | _, .pull d p _, x, s =>
    match x.exit,s.files d p with
    | .ok true, some k => some (.ok true,{ s with copied := k::s.copied })
    | .ok true, none => none
    | r, _ => some (r,s)
  | _, .rm d p, x, s => if x.yes then some ((),{ s with files := setFile s.files d p none }) else some ((),s)

open Prog (perform)

def remotePath (stamp : String) : String := "/sdcard/adbshare-rec-"++stamp++".mp4"

/-- `file_name` of the remote path. -/
def fileName (remote : String) : String := (remote.splitOn "/").getLastD "adbshare-recording.mp4"

def startRecord (device : String) : Prog Act Reply :=
  if device = "" then pure (.failed "device is required")
  else do
    if ← perform (.clientFor device) then
      let remote := remotePath (← perform .now)
      perform (.insert device remote)
      perform (.spawn device remote)
      pure .started
    else pure (.failed "device not connected")

/-- The result of the pull is looked at only where `adb` could not be run or timed out. -/
def stopRecord (device : String) : Prog Act Reply := do
  match ← perform (.remove device) with
  | none => pure (.failed "no recording in progress")
  | some remote =>
    perform (.pkill device)
    perform .sleep
    match ← perform .videoDir with
    | none => pure (.failed "no home directory")
    | some dir =>
      match ← perform (.createDirAll dir) with
      | .error e => pure (.failed ("mkdir: "++e))
      | .ok _ =>
        let dest := dir++"/"++fileName remote
        match ← perform (.pull device remote dest) with
        | .error e => pure (.failed ("pull recording: "++e))
        | .ok _ =>
          perform (.rm device remote)
          pure (.saved dest)

def handler : Req → Prog Act Reply
  | .startRecord device => startRecord device
  | .screenrecord device remote => do
    perform (.screenrecord device remote)
    pure .recorded
  | .stopRecord device => stopRecord device

/-- Only what was spawned runs. -/
def arrive : Req → State → Option State
  | .screenrecord d p, s => if (d,p) ∈ s.spawned then some { s with spawned := s.spawned.erase (d,p) } else none
  | _, s => some s

def service : Service Act State Choice Req Reply := ⟨run,handler,arrive,fun _ _ s => s⟩

/-- What a call has taken out of the table: it has yet to pull the file, or it is through with the pull. -/
inductive Hand
  | empty
  | took (d p : String)
  | pulled (d p : String)

def Hand.has (g : Hand) (d p : String) : Prop := g = .took d p ∨ g = .pulled d p

def Hand.after (g : Hand) : {β : Type} → Act β → β → Hand
  | _, .remove d, some p => .took d p
  | _, .pull d p _, _ => .pulled d p
  | _, _, _ => g

/-- The hands of the calls, and the places that have been given to recordings. -/
structure Ledger where
  hand : ℕ → Hand
  used : List (String × String)

def places : {β : Type} → Act β → List (String × String)
  | _, .insert d p => [(d,p)]
  | _, _ => []

def onlooker : Onlooker Act State Choice Req Reply Ledger where
  start _ _ n := n
  act t _ _ a _ _ b n := ⟨update n.hand t ((n.hand t).after a b),places a++n.used⟩
  reply t _ _ n := { n with hand := update n.hand t .empty }

abbrev World := Watched Act State Req Reply Ledger

def init : World := ⟨⟨⟨fun _ => none,fun _ _ => none,0,[],[]⟩,fun _ => none⟩,⟨fun _ => .empty,[]⟩⟩

/-- What is at the place has been copied. -/
def Spare (s : State) (d p : String) : Prop := ∀ k, s.files d p = some k → k ∈ s.copied

/-- No recording is gone before it has been copied, and until then it is in the table, or the
call that has taken it out has yet to pull it. -/
structure Safe (s : State) (hand : ℕ → Hand) : Prop where
  there : ∀ k < s.created, k ∈ s.copied ∨ ∃ d p, s.files d p = some k
  tracked : ∀ d p, Spare s d p ∨ s.recording d = some p ∨ ∃ t, hand t = .took d p

/-- A recording is started while the device has none in the table, at a place of its own; its file is made
while it is in the table; there is a directory to save to, and the pull of a file that is there succeeds. -/
def Fine (s : State) (used : List (String × String)) : (β : Type) → Act β → Choice → Prop
  | _, .insert d p, _ => s.recording d = none ∧ (d,p) ∉ used
  | _, .screenrecord d p, x => x.yes = true → s.recording d = some p ∧ s.files d p = none
  | _, .videoDir, x => x.dir.isSome
  | _, .createDirAll _, x => x.made = .ok ()
  | _, .pull d p _, x => (s.files d p).isSome → x.exit = .ok true
  | _, _, _ => True

def Gentle (w : World) : Event Choice Req → Prop
  | .act t x => ∀ q (β : Type) (a : Act β) k, w.config.threads t = some (q,.act a k) → Fine w.config.shared w.notes.used β a x
  | _ => True

variable {s s' : State} {n : Ledger} {d p d' p' : String} {file : Option ℕ} {β : Type} {a : Act β} {x : Choice} {b : β} {t : ℕ} {q : Req}

section

variable {files : String → String → Option ℕ} {remote : Option String} {table : String → Option String}

theorem setFile_self : setFile files d p file d p = file := by
  simp [setFile]

theorem setFile_other (h : ¬(d' = d ∧ p' = p)) : setFile files d p file d' p' = files d' p' := by
  by_cases hd : d' = d
  · subst hd
    have hp : p' ≠ p := fun hp => h ⟨rfl,hp⟩
    simp [setFile,hp]
  · simp [setFile,hd]

theorem setEntry_self : setEntry table d remote d = remote := by
  simp [setEntry]

theorem setEntry_other (h : d' ≠ d) : setEntry table d remote d' = table d' := by
  simp [setEntry,h]

end

/-- What a call's hand has to be for its next action. -/
def Ready (g : Hand) : (β : Type) → Act β → Prop
  | _, .remove _ => g = .empty
  | _, .pull d p _ => g = .took d p
  | _, .rm d p => g = .pulled d p
  | _, _ => True

/-- The answers that the host gives. -/
def Obliging : (β : Type) → Act β → β → Prop
  | _, .videoDir, dir => dir.isSome
  | _, .createDirAll _, made => made = .ok ()
  | _, _, _ => True

def Next (_ : Req) (g : Hand) (β : Type) (a : Act β) (b : β) (g' : Hand) : Prop := Obliging β a b ∧ g' = g.after a b

def Done (g : Hand) (_ : Reply) : Prop := ∀ d p, g ≠ .took d p

section

variable {ρ : Type} {g : Hand} {post : Hand → ρ → Prop} {f : β → Prog Act ρ}

theorem obeys_act (ha : Ready g β a) (hf : ∀ b, Obliging β a b → (f b).Obeys Ready (Next q) post (g.after a b)) :
    (perform a >>= f).Obeys Ready (Next q) post g := by
  refine ⟨ha,?_⟩
  rintro b _ ⟨hb,rfl⟩
  exact hf b hb

end

/-- What `stop_record` takes out of the table it pulls before it removes it and before it returns. -/
theorem obeys_stopRecord (device : String) : (stopRecord device).Obeys Ready (Next q) Done .empty := by
  refine obeys_act rfl fun entry _ => ?_
  cases entry with
  | none => exact nofun
  | some remote =>
    iterate 2 refine obeys_act trivial fun _ _ => ?_
    refine obeys_act trivial fun dir hdir => ?_
    obtain ⟨dir,rfl⟩ := isSome_iff_exists.mp hdir
    refine obeys_act trivial fun made hmade => ?_
    obtain rfl : made = .ok () := hmade
    refine obeys_act rfl fun exit _ => ?_
    cases exit with
    | error e => exact nofun
    | ok status => exact obeys_act rfl fun _ _ => nofun

theorem obeys_handler (q : Req) : (handler q).Obeys Ready (Next q) Done .empty := by
  cases q with
  | startRecord device =>
    show (startRecord device).Obeys _ _ _ _
    unfold startRecord
    split
    · exact nofun
    refine obeys_act trivial fun there _ => ?_
    cases there with
    | false => exact nofun
    | true => exact obeys_act trivial fun _ _ => obeys_act trivial fun _ _ => obeys_act trivial fun _ _ => nofun
  | screenrecord device remote => exact obeys_act trivial fun _ _ => nofun
  | stopRecord device => exact obeys_stopRecord device

/-- What is in a hand is not in the table, and what has been pulled is copied. -/
structure Held (s : State) (used : List (String × String)) (g : Hand) : Prop where
  out : ∀ d p, g.has d p → (d,p) ∈ used ∧ s.recording d ≠ some p
  pulled : ∀ d p, g = .pulled d p → Spare s d p

theorem held_empty {used : List (String × String)} : Held s used .empty := ⟨fun d p h => by simp [Hand.has] at h,nofun⟩

structure Kept (s : State) (n : Ledger) : Prop extends Safe s n.hand where
  listed : ∀ d p, s.recording d = some p → (d,p) ∈ n.used
  held : ∀ t, Held s n.used (n.hand t)

namespace Kept

theorem insert (h : Kept s n) (hnone : s.recording d = none) (hnew : (d,p) ∉ n.used) :
    Kept { s with recording := setEntry s.recording d (some p) } { n with used := (d,p)::n.used } where
  there := h.there
  tracked d' p' := by
    refine (h.tracked d' p').imp_right (Or.imp_left fun hentry => ?_)
    refine (setEntry_other ?_).trans hentry
    rintro rfl
    cases hnone.symm.trans hentry
  listed d' p' hentry := by
    by_cases hd : d' = d
    · subst hd
      cases setEntry_self.symm.trans hentry
      exact mem_cons_self
    · exact mem_cons_of_mem _ (h.listed d' p' ((setEntry_other hd).symm.trans hentry))
  held t := by
    refine ⟨fun d' p' hhas => ?_,(h.held t).pulled⟩
    obtain ⟨hused,hout⟩ := (h.held t).out d' p' hhas
    refine ⟨mem_cons_of_mem _ hused,fun hentry => ?_⟩
    by_cases hd : d' = d
    · subst hd
      cases setEntry_self.symm.trans hentry
      exact hnew hused
    · exact hout ((setEntry_other hd).symm.trans hentry)

theorem create (h : Kept s n) (hentry : s.recording d = some p) (hnone : s.files d p = none) :
    Kept { s with files := setFile s.files d p (some s.created), created := s.created+1 } n where
  there k hk := by
    obtain hlt | rfl := Nat.lt_succ_iff_lt_or_eq.mp hk
    · refine (h.there k hlt).imp_right ?_
      rintro ⟨d',p',hk'⟩
      refine ⟨d',p',(setFile_other ?_).trans hk'⟩
      rintro ⟨rfl,rfl⟩
      cases hnone.symm.trans hk'
    · exact .inr ⟨d,p,setFile_self⟩
  tracked d' p' := by
    by_cases heq : d' = d ∧ p' = p
    · obtain ⟨rfl,rfl⟩ := heq
      exact .inr (.inl hentry)
    · exact (h.tracked d' p').imp_left fun hspare k hk => hspare k ((setFile_other heq).symm.trans hk)
  listed := h.listed
  held t := by
    refine ⟨(h.held t).out,fun d' p' ht k hk => ?_⟩
    refine (h.held t).pulled d' p' ht k ((setFile_other ?_).symm.trans hk)
    rintro ⟨rfl,rfl⟩
    exact ((h.held t).out d' p' (.inr ht)).2 hentry

theorem remove (h : Kept s n) (ht : n.hand t = .empty) : Kept { s with recording := setEntry s.recording d none }
    { n with hand := update n.hand t (Hand.empty.after (.remove d) (s.recording d)) } where
  there := h.there
  tracked d' p' := by
    obtain hspare | hentry | ⟨t',ht'⟩ := h.tracked d' p'
    · exact .inl hspare
    · by_cases hd : d' = d
      · subst hd
        rw [hentry]
        exact .inr (.inr ⟨t,update_self ..⟩)
      · exact .inr (.inl ((setEntry_other hd).trans hentry))
    · refine .inr (.inr ⟨t',(update_of_ne ?_ ..).trans ht'⟩)
      rintro rfl
      cases ht.symm.trans ht'
  listed d' p' hentry := by
    by_cases hd : d' = d
    · subst hd
      cases setEntry_self.symm.trans hentry
    · exact h.listed d' p' ((setEntry_other hd).symm.trans hentry)
  held := by
    have hout : ∀ {d' p'}, s.recording d' ≠ some p' → setEntry s.recording d none d' ≠ some p' := by
      intro d' p' hne
      by_cases hd : d' = d
      · simp [hd,setEntry_self]
      · rwa [setEntry_other hd]
    refine (forall_update_iff n.hand fun _ => Held _ n.used).mpr ⟨?_,fun t' _ => ?_⟩
    · cases hentry : s.recording d with
      | none => exact held_empty
      | some p =>
        refine ⟨?_,nofun⟩
        rintro d' p' (⟨⟨⟩⟩ | ⟨⟨⟩⟩)
        exact ⟨h.listed d p hentry,by simp [setEntry_self]⟩
    · exact ⟨fun d' p' hhas => ((h.held t').out d' p' hhas).imp_right hout,(h.held t').pulled⟩

/-- After the pull what is at the place has been copied: it was there and the pull has succeeded, or nothing was. -/
theorem pull {copied : List ℕ} (h : Kept s n) (ht : n.hand t = .took d p) (hsub : s.copied ⊆ copied)
    (hspare : ∀ k, s.files d p = some k → k ∈ copied) :
    Kept { s with copied := copied } { n with hand := update n.hand t (.pulled d p) } where
  there k hk := (h.there k hk).imp_left fun hin => hsub hin
  tracked d' p' := by
    obtain hold | hentry | ⟨t',ht'⟩ := h.tracked d' p'
    · exact .inl fun k hk => hsub (hold k hk)
    · exact .inr (.inl hentry)
    by_cases htt : t' = t
    · subst htt
      cases ht.symm.trans ht'
      exact .inl hspare
    · exact .inr (.inr ⟨t',(update_of_ne htt ..).trans ht'⟩)
  listed := h.listed
  held := by
    refine (forall_update_iff n.hand fun _ => Held _ n.used).mpr ⟨⟨?_,?_⟩,fun t' _ => ?_⟩
    · rintro d' p' (⟨⟨⟩⟩ | ⟨⟨⟩⟩)
      exact (h.held t).out d p (.inl ht)
    · rintro d' p' ⟨⟩
      exact hspare
    · exact ⟨(h.held t').out,fun d' p' ht' k hk => hsub ((h.held t').pulled d' p' ht' k hk)⟩

theorem rm (h : Kept s n) (ht : n.hand t = .pulled d p) : Kept { s with files := setFile s.files d p none } n := by
  have hold : ∀ {d' p' k}, setFile s.files d p none d' p' = some k → s.files d' p' = some k := by
    intro d' p' k hk
    by_cases heq : d' = d ∧ p' = p
    · obtain ⟨rfl,rfl⟩ := heq
      cases setFile_self.symm.trans hk
    · exact (setFile_other heq).symm.trans hk
  refine ⟨⟨?_,fun d' p' => (h.tracked d' p').imp_left fun hspare k hk => hspare k (hold hk)⟩,h.listed,
    fun t' => ⟨(h.held t').out,fun d' p' ht' k hk => (h.held t').pulled d' p' ht' k (hold hk)⟩⟩
  intro k hk
  obtain hin | ⟨d',p',hk'⟩ := h.there k hk
  · exact .inl hin
  by_cases heq : d' = d ∧ p' = p
  · obtain ⟨rfl,rfl⟩ := heq
    exact .inl ((h.held t).pulled _ _ ht k hk')
  · exact .inr ⟨d',p',(setFile_other heq).trans hk'⟩

theorem reply (h : Kept s n) (ht : ∀ d p, n.hand t ≠ .took d p) : Kept s { n with hand := update n.hand t .empty } where
  there := h.there
  tracked d p := by
    refine (h.tracked d p).imp_right (Or.imp_right ?_)
    rintro ⟨t',ht'⟩
    refine ⟨t',(update_of_ne ?_ ..).trans ht'⟩
    rintro rfl
    exact ht d p ht'
  listed := h.listed
  held := (forall_update_iff n.hand fun _ => Held s n.used).mpr ⟨held_empty,fun t' _ => h.held t'⟩

theorem arrive {spawned : List (String × String)} (h : Kept s n) : Kept { s with spawned := spawned } n :=
  ⟨⟨h.there,h.tracked⟩,h.listed,fun t => ⟨(h.held t).out,(h.held t).pulled⟩⟩

/-- An action with no trace in the table, on the device or in the hand of its call. -/
theorem same {spawned : List (String × String)} (h : Kept s n) :
    Kept { s with spawned := spawned } { n with hand := update n.hand t (n.hand t) } := by
  rw [update_eq_self]
  exact h.arrive

theorem run (h : Kept s n) (hready : Ready (n.hand t) β a) (hfine : Fine s n.used β a x)
    (hrun : run a x s = some (b,s')) : Kept s' ⟨update n.hand t ((n.hand t).after a b),places a++n.used⟩ := by
  cases a with
  | insert d p =>
    cases hrun
    simpa only [Hand.after,update_eq_self,places,nil_append,singleton_append] using h.insert hfine.1 hfine.2
  | screenrecord d p =>
    rw [Recordings.run] at hrun
    split_ifs at hrun with hx
    · cases hrun
      simpa only [Hand.after,update_eq_self,places,nil_append,singleton_append] using h.create (hfine hx).1 (hfine hx).2
    · cases hrun
      exact h.same
  | remove d =>
    cases hrun
    have ht : n.hand t = .empty := hready
    rw [ht]
    exact h.remove ht
  | pull d p dest =>
    rw [Recordings.run] at hrun
    split at hrun
    · rename_i k hk
      cases hrun
      refine h.pull hready (subset_cons_self ..) fun j hj => ?_
      cases hk.symm.trans hj
      exact mem_cons_self
    · cases hrun
    · rename_i hfailed _
      cases hrun
      refine h.pull hready (Subset.refl _) fun j hj => ?_
      exact (hfailed j (hfine (isSome_of_mem hj)) hj).elim
  | rm d p =>
    rw [Recordings.run] at hrun
    split_ifs at hrun with hx
    · cases hrun
      simpa only [Hand.after,update_eq_self,places,nil_append,singleton_append] using h.rm hready
    · cases hrun
      exact h.same
  | _ =>
    cases hrun
    exact h.same

end Kept

theorem arrive_eq (h : arrive q s = some s') : ∃ spawned, s' = { s with spawned := spawned } := by
  cases q with
  | screenrecord d p =>
    obtain ⟨_,h⟩ := ite_none_right_eq_some.mp h
    exact ⟨_,(some.inj h).symm⟩
  | _ => exact ⟨_,(some.inj h).symm⟩

/-- What all states of a gentle run have in common. -/
structure Sound (w : World) : Prop where
  kept : Kept w.config.shared w.notes
  abides : Abides Ledger.hand Ready Next Done .empty w

theorem obliging_of_fine {used : List (String × String)} (hfine : Fine s used β a x) (hrun : run a x s = some (b,s')) :
    Obliging β a b := by
  cases a with
  | videoDir =>
    cases hrun
    exact hfine
  | createDirAll dir =>
    cases hrun
    exact hfine
  | _ => trivial

theorem sound_watch (w : World) (e : Event Choice Req) (w' : World) (hw : Sound w) (he : Gentle w e)
    (h : watch service onlooker w e = some w') : Sound w' := by
  refine ⟨?_,?_⟩
  · cases watch_watches h with
    | @start t q s hfree hs =>
      obtain ⟨spawned,rfl⟩ := arrive_eq hs
      exact hw.kept.arrive
    | @act t x q β a k b s ht hr => exact hw.kept.run (hw.abides.busy t q _ ht).1 (he q β a k ht) hr
    | @reply t q r ht => exact hw.kept.reply (hw.abides.busy t q _ ht)
  · refine hw.abides.watches (i:=fun _ => .empty) (fun q _ _ _ => obeys_handler q) ?_ ?_ (fun _ _ _ _ => rfl) ?_
      (watch_watches h)
    · intro t q n hn
      exact (update_eq_self_iff.mpr hn.symm).symm
    · exact fun t q β a x s b n t' htt => update_of_ne htt ..
    · rintro t x q β a k b s rfl ht hr
      exact ⟨obliging_of_fine (he q β a k ht) hr,update_self ..⟩

/-- The recordings are safe all along a run in which they are started one at a time on each device, made
before they are stopped, and saved by pulls that succeed. -/
theorem recordings_safe (es : List (Event Choice Req)) (h : Meets (watch service onlooker) Gentle init es) :
    Always (watch service onlooker) (fun w => Safe w.config.shared w.notes.hand) init es := by
  refine always_of_meets sound_watch (fun w hw => hw.kept.toSafe) ⟨⟨⟨nofun,?_⟩,nofun,fun _ => held_empty⟩,nofun,fun _ _ => rfl⟩ h
  exact fun _ _ => .inl nofun

def isFine (s : State) (used : List (String × String)) (x : Choice) : {β : Type} → Act β → Bool
  | _, .insert d p => (s.recording d).isNone && !used.contains (d,p)
  | _, .screenrecord d p => s.recording d == some p && (s.files d p).isNone
  | _, .videoDir => x.dir.isSome
  | _, .createDirAll _ => x.made.isOk
  | _, .pull _ _ _ => decide (x.exit = .ok true)
  | _, _ => true

def isGentle (w : World) : Event Choice Req → Bool
  | .act t x =>
    match w.config.threads t with
    | some (_,.act a _) => isFine w.config.shared w.notes.used x a
    | _ => true
  | _ => true

theorem fine_of_isFine {used : List (String × String)} (h : isFine s used x a) : Fine s used β a x := by
  cases a with
  | insert d p => simpa [isFine,Fine] using h
  | screenrecord d p =>
    intro _
    simpa [isFine] using h
  | videoDir => exact h
  | createDirAll dir =>
    cases hmade : x.made with
    | ok _ => exact hmade
    | error e => simp [isFine,hmade,Except.isOk,Except.toBool] at h
  | pull d p dest => exact fun _ => of_decide_eq_true h
  | _ => trivial

theorem gentle_of_isGentle (w : World) (e : Event Choice Req) (h : isGentle w e) : Gentle w e := by
  cases e with
  | act t x =>
    intro q β a k ht
    rw [isGentle,ht] at h
    exact fine_of_isFine h
  | _ => trivial

/-- A recording is started, made and stopped; the pull exits as given. -/
def recorded (exit : Except String Bool) : List (Event Choice Req) :=
  [Event.start 0 (Req.startRecord "p"),Event.act 0 {},Event.act 0 {},Event.act 0 {},Event.act 0 {},Event.reply 0,
    Event.start 1 (Req.screenrecord "p" (remotePath "")),Event.act 1 {},Event.reply 1,
    Event.start 2 (Req.stopRecord "p"),Event.act 2 {},Event.act 2 {},Event.act 2 {},Event.act 2 { dir := some "v" },
    Event.act 2 {},Event.act 2 { exit := exit },Event.act 2 {},Event.reply 2]

theorem recordings_safe_pulled :
    Always (watch service onlooker) (fun w => Safe w.config.shared w.notes.hand) init (recorded (.ok true)) :=
  recordings_safe _ (meets_of_check gentle_of_isGentle rfl)

/-- The pull ends with a non-zero status, and the recording is removed all the same. -/
theorem failed_pull_removes : ∃ w, exec (watch service onlooker) init (recorded (.ok false)) = some w ∧
    w.config.shared.created = 1 ∧ w.config.shared.copied = [] ∧ ¬Safe w.config.shared w.notes.hand := by
  refine ⟨_,rfl,rfl,rfl,fun hsafe => ?_⟩
  obtain hin | ⟨d,p,hk⟩ := hsafe.there 0 Nat.one_pos
  · cases hin
  change setFile (setFile (fun _ _ => none) "p" (remotePath "") (some 0)) "p" (remotePath "") none d p = some 0 at hk
  by_cases hplace : d = "p" ∧ p = remotePath ""
  · obtain ⟨rfl,rfl⟩ := hplace
    cases setFile_self.symm.trans hk
  · rw [setFile_other hplace,setFile_other hplace] at hk
    cases hk

end AdbShare.Recordings

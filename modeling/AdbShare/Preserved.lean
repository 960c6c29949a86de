import AdbShare.Transfer

/-! What a job that must not overwrite leaves alone. It opens its destination under a name
that it has found free, so the file it writes and the name it may take away are its own. -/
namespace AdbShare.Preserved

open Prog Service Transition Transfer Files Option
open JobQueue (JobState)
open Worker hiding Act

/-- The destination is open, and what the handle leads to was not there before. -/
structure Safe (d : Direction) (w : World) (dst : ℕ) (g : World) : Prop where
  source : reading d g = reading d w
  keeps : Keeps (writing d w) (writing d g)
  opened : dst < g.next
  own : ∀ h m, g.handles dst = some h → h.file = some m → (writing d w).next ≤ m

variable {d : Direction} {w g g' : World} {dst : ℕ} {plan : Plan} {mode : OverwriteMode}

theorem Safe.step (hplan : plan.created → (writing d w).names plan.dest = none) (h : Handled d plan dst g g')
    (hg : Safe d w dst g) : Safe d w dst g' := by
  have hcontents : ∀ n, n < (writing d w).next → (writing d g').contents n = (writing d g).contents n := by
    intro n hn
    refine h.contents n ?_
    intro k hk hfile
    have := hg.own k n hk hfile
    omega
  have hnames : ∀ p node, (writing d w).names p = some node → (writing d g').names p = some node := by
    intro p node hp
    have hold := (hg.keeps p node hp).1
    obtain hsame | ⟨hcreated,hunlink⟩ := h.names
    · rw [hsame]
      exact hold
    · exact (hg.keeps.unlink (hplan hcreated) hunlink p node hp).1
  refine ⟨h.source.trans hg.source,?_,(h.handle hg.opened).1,?_⟩
  · intro p node hp
    refine ⟨hnames p node hp,?_⟩
    rintro n rfl
    exact (hcontents n ((writing d w).named p n hp)).trans ((hg.keeps p _ hp).2 n rfl)
  · intro k m hk hm
    obtain ⟨k',hk',hfile⟩ := (h.handle hg.opened).2 k hk
    exact hg.own k' m hk' (hfile.symm.trans hm)

/-- On both sides whatever was there is there still. -/
def Intact (w g : World) : Prop := Keeps w.here g.here ∧ Keeps w.there g.there

/-- Where the job means to write, a probe fails only if there is nothing, not even a link. -/
def Probed (task : Task) : Cond
  | w, _, .stat p, .error _, _ => task.direction = .push → w.there.names p = none
  | w, _, .metadata p, .error _, _ => task.direction = .pull → w.here.names p = none
  | _, _, _, _, _ => true

section

variable {sha256 : Bytes → String} {chunkSize rounds : ℕ} {task : Task} {ok : Cond} {ρ : Type} {p : Prog Worker.Act ρ}
  {source : Path}

theorem Safe.intact (h : Safe d w dst g) : Intact w g := by
  cases d with
  | push => exact ⟨keeps_of_eq h.source,h.keeps⟩
  | pull => exact ⟨h.keeps,keeps_of_eq h.source⟩

/-- Once the destination is open, the rest of the transfer does no harm. -/
theorem runs_handling (hp : p.Only (Handling d plan dst))
    (hplan : plan.created → (writing d w).names plan.dest = none) (hg : Safe d w dst g) :
    Runs (Intact w) ok (fun g _ => Intact w g) p g := by
  refine Obeys.mono (hp.obeys (fun _ _ _ hg _ => hg.intact) ?_ hg) fun _ _ hg => hg.intact
  exact fun g β a b g' hg ha hn => hg.step hplan (handled_of_handling ha hn.1)

theorem runs_pushTo {p : Path} (hfree : w.there.names p = none) (hhere : g.here = w.here) (hthere : g.there = w.there) :
    Runs (Intact w) ok (fun g _ => Intact w g) (pushTo sha256 chunkSize rounds task ⟨p,0,true,.create⟩) g := by
  have hintact : ∀ g : World, g.here = w.here → g.there = w.there → Intact w g :=
    fun g hhere hthere => ⟨keeps_of_eq hhere,keeps_of_eq hthere⟩
  refine runs_perform (hintact g hhere hthere) fun b g₁ hopen _ => ?_
  cases b with
  | error e =>
    cases hopen
    exact hintact g hhere hthere
  | ok src =>
    obtain ⟨-,rfl⟩ := does_openLocal_read hopen
    refine runs_perform (hintact _ hhere hthere) fun b g₂ hopen _ => ?_
    have hnew : ∀ {file fs}, openAt g.there p .create = some (file,fs) →
        file = some w.there.next ∧ fs = w.there.addFile p := by
      intro file fs hfs
      obtain ⟨⟨n,fs⟩,hopen,he⟩ := map_eq_some_iff.mp hfs
      cases he
      rw [hthere] at hopen
      obtain ⟨rfl,rfl⟩ := openWrite_of_free hfree hopen
      exact ⟨rfl,rfl⟩
    cases b with
    | error e =>
      obtain rfl | ⟨file,fs,hfs,rfl⟩ := hopen
      · exact hintact _ hhere hthere
      · obtain ⟨rfl,rfl⟩ := hnew hfs
        exact ⟨keeps_of_eq hhere,keeps_addFile hfree⟩
    | ok dst =>
      obtain ⟨rfl,file,fs,hfs,rfl⟩ := hopen
      obtain ⟨rfl,rfl⟩ := hnew hfs
      refine runs_handling (only_bind (only_pushLoop _ _ _ _ _ _ _) fun _ =>
        only_pushFinish _ _ _ _ _ _ _) (fun _ => hfree) ⟨hhere,keeps_addFile hfree,Nat.lt_succ_self _,?_⟩
      intro h m hh hm
      obtain rfl := some.inj ((World.opening_handles_self _ _).symm.trans hh)
      exact (some.inj hm).le

theorem runs_pullTo {p : Path} (hfree : g.here.names p = none)
    (hkeeps : Keeps w.here g.here) (hnext : g.here.next = w.here.next) (hthere : g.there = w.there) :
    Runs (Intact w) ok (fun g _ => Intact w g) (pullTo sha256 chunkSize rounds task ⟨p,0,true,.create⟩ source) g := by
  have hintact : Intact w g := ⟨hkeeps,keeps_of_eq hthere⟩
  refine runs_perform hintact fun b g₁ hopen _ => ?_
  cases b with
  | error e =>
    cases hopen
    exact hintact
  | ok dst =>
    obtain ⟨rfl,file,fs,hfs,rfl⟩ := hopen
    obtain ⟨⟨n,fs⟩,hopen,he⟩ := map_eq_some_iff.mp hfs
    cases he
    obtain ⟨rfl,rfl⟩ := openWrite_of_free hfree hopen
    refine runs_handling (only_pullOpened _ _ _ _ _ _ _) (fun _ => hkeeps.free hfree)
      ⟨hthere,hkeeps.trans (keeps_addFile hfree),Nat.lt_succ_self _,?_⟩
    intro h m hh hm
    obtain rfl := some.inj ((World.opening_handles_self _ _).symm.trans hh)
    exact hnext ▸ (some.inj hm).le

theorem runs_push (hd : task.direction = .push) (hmode : task.overwrite = .skipExisting ∨ task.overwrite = .rename)
    (hroom : task.overwrite = .rename → Room task w.there) (hhere : g.here = w.here)
    (hthere : g.there = w.there) :
    Runs (Intact w) (Probed task) (fun g _ => Intact w g) (push sha256 chunkSize rounds task) g := by
  have hintact : ∀ g : World, g.here = w.here → g.there = w.there → Intact w g :=
    fun g hhere hthere => ⟨keeps_of_eq hhere,keeps_of_eq hthere⟩
  have hprobe : ∀ (g : World) p e g', Probed task g _ (.stat p) (.error e) g' → g.there.names p = none :=
    fun g p e g' h => of_decide_eq_true h hd
  have hdest : destination task = task.destination.toTextLossy := by simp [destination,hd]
  refine runs_perform (hintact g hhere hthere) fun b g₁ hmeta _ => ?_
  obtain ⟨rfl,-⟩ := hmeta
  cases b with
  | error e => exact hintact _ hhere hthere
  | ok sourceLen =>
  refine runs_perform (hintact _ hhere hthere) fun b g₂ hstat hok => ?_
  cases b with
  | error e =>
    cases hstat
    exact runs_pushTo (hthere ▸ hprobe _ _ _ _ hok) hhere hthere
  | ok size =>
  obtain ⟨-,rfl⟩ := hstat
  obtain hskip | hrename := hmode
  · simp only [hskip]
    exact runs_aloof (J:=fun here there => Keeps w.here here ∧ Keeps w.there there)
      (only_skip_aloof size) (fun _ hg => hg) (hintact _ hhere hthere)
  · simp only [hrename]
    rw [← hdest]
    refine Runs.bind (runs_pickRemoteRename hd hintact hprobe (hroom hrename) hhere hthere) ?_
    rintro g p ⟨⟨hhere,hthere⟩,hfree⟩
    exact runs_pushTo hfree hhere hthere

theorem runs_pull (hd : task.direction = .pull) (hmode : task.overwrite = .skipExisting ∨ task.overwrite = .rename)
    (hroom : task.overwrite = .rename → Room task w.here) (hhere : g.here = w.here)
    (hthere : g.there = w.there) :
    Runs (Intact w) (Probed task) (fun g _ => Intact w g) (pull sha256 chunkSize rounds task) g := by
  have hprobe : ∀ (g : World) p e g', Probed task g _ (.metadata p) (.error e) g' → g.here.names p = none :=
    fun g p e g' h => of_decide_eq_true h hd
  have hdest : destination task = task.destination := by simp [destination,hd]
  -- Directories may be made first; the names that the job goes on to try are not among them.
  let Parted (g : World) : Prop := Keeps w.here g.here ∧ g.here.next = w.here.next ∧ g.there = w.there ∧
    (task.overwrite = .rename → Room task g.here)
  have hparted : ∀ g, Parted g → Intact w g := fun g hg => ⟨hg.1,keeps_of_eq hg.2.2.1⟩
  have hg : Parted g := ⟨keeps_of_eq hhere,by rw [hhere],hthere,by rwa [hhere]⟩
  have hparent : Runs (Intact w) (Probed task) (fun g _ => Parted g) (ensureParent task.destination) g := by
    unfold ensureParent
    split
    · rename_i dir hdir
      refine runs_perform (hparted g hg) fun b g₁ hdirs _ => ?_
      obtain rfl | ⟨q,hq,rfl⟩ := hdirs
      · exact hg
      · exact ⟨hg.1.trans (keeps_addDirs _ _),hg.2.1,hg.2.2.1,
          fun hrename => room_addDirs hd hdir hq (hg.2.2.2 hrename)⟩
    · exact hg
  refine Runs.bind hparent fun g₁ _ hg₁ => ?_
  obtain ⟨hkeeps,hnext,hthere₁,hroom₁⟩ := hg₁
  have hintact : Intact w g₁ := ⟨hkeeps,keeps_of_eq hthere₁⟩
  refine runs_perform hintact fun existing g₂ hmeta hok => ?_
  obtain ⟨rfl,-⟩ := hmeta
  split
  · exact hintact
  rename_i source hsource
  unfold pullFrom
  cases existing with
  | error e => exact runs_pullTo (hprobe _ _ _ _ hok) hkeeps hnext hthere₁
  | ok size =>
    dsimp only
    obtain hskip | hrename := hmode
    · simp only [hskip]
      exact runs_aloof (J:=fun here there => Keeps w.here here ∧ Keeps w.there there)
        (only_skip_aloof size) (fun _ hg => hg) hintact
    · simp only [hrename]
      rw [← hdest]
      refine Runs.bind (runs_pickLocalRename hd ?_ hprobe (hroom₁ hrename) rfl rfl) ?_
      · exact fun g hhere hthere => ⟨hhere ▸ hkeeps,keeps_of_eq (hthere.trans hthere₁)⟩
      · rintro g p ⟨⟨hhere,hthere⟩,hfree⟩
        exact runs_pullTo (hhere ▸ hfree) (hhere ▸ hkeeps) (hhere ▸ hnext) (hthere.trans hthere₁)

theorem runs_run (hmode : task.overwrite = .skipExisting ∨ task.overwrite = .rename)
    (hroom : task.overwrite = .rename → Room task (writing task.direction w)) :
    Runs (Intact w) (Probed task) (fun g _ => Intact w g) (run sha256 chunkSize rounds task) (view w) := by
  let same (here there : Files) : Prop := here = w.here ∧ there = w.there
  have hintact : ∀ g : World, same g.here g.there → Intact w g := fun g h => ⟨keeps_of_eq h.1,keeps_of_eq h.2⟩
  have hstart : same (view w).here (view w).there := ⟨rfl,rfl⟩
  refine runs_perform (hintact _ hstart) fun cancelled g₁ hflag _ => ?_
  cases hflag
  split
  · exact runs_end (hintact _ hstart) fun _ => hintact _ hstart
  refine Runs.bind (runs_aloof only_markRunning hintact hstart) fun g₁ _ hg₁ => ?_
  refine runs_perform (hintact _ hg₁) fun _ g₂ hstarted _ => ?_
  cases hstarted
  refine Runs.bind (runs_aloof (only_totalSize task (fun _ => trivial) (fun _ => trivial) fun _ => trivial)
    hintact hg₁) fun g₃ r hg₃ => ?_
  cases r with
  | error e => exact runs_end (hintact _ hg₃) fun _ => hintact _ hg₃
  | ok total =>
    refine runs_perform (hintact _ hg₃) fun _ g₄ hset _ => ?_
    cases hset
    have hbody : Runs (Intact w) (Probed task) (fun g _ => Intact w g) (transfer sha256 chunkSize rounds task)
        { g₃ with cell := { g₃.cell with bytesTotal := .ofNat total } } := by
      unfold transfer
      cases hd : task.direction with
      | push => exact runs_push hd hmode (by simpa [writing,hd] using hroom) hg₃.1 hg₃.2
      | pull => exact runs_pull hd hmode (by simpa [writing,hd] using hroom) hg₃.1 hg₃.2
    refine Runs.bind hbody fun g₅ r hg₅ => ?_
    exact runs_aloof (J:=fun here there => Keeps w.here here ∧ Keeps w.there there) (only_conclude r)
      (fun _ hg => hg) hg₅

/-- A job that skips or renames changes and removes nothing that was there, in any state of
any run in which the probes are right and a name can be found. -/
theorem existing_untouched (hw : Fresh w) (hmode : task.overwrite = .skipExisting ∨ task.overwrite = .rename)
    (hroom : task.overwrite = .rename → Room task (writing task.direction w))
    {es : List (Event Choice Req)} {c : Config Act World Req Outcome}
    (hm : Meets (service sha256 chunkSize rounds task).step (Within sha256 chunkSize rounds task (Probed task))
      ⟨w,fun _ => none⟩ es)
    (hexec : exec (service sha256 chunkSize rounds task).step ⟨w,fun _ => none⟩ es = some c) :
    Keeps w.here c.shared.here ∧ Keeps w.there c.shared.there :=
  (exec_runs (fun _ _ a b _ h => by cases a <;> first | exact h | (cases b <;> exact h)) hw.started (runs_run hmode hroom) hm hexec).holds (q:=.work) rfl

end

/-- `/a` of the computer to `/b` of the device, which exists. -/
def sendNew (mode : OverwriteMode) : Task := ⟨.push,[[97]],[[98]],.off,mode⟩

theorem exists_truncating_run (hmode : mode = .skipExisting ∨ mode = .rename) :
    ∃ es c, exec (service (fun _ => "") 2 1 (sendNew mode)).step ⟨opening [1] [7,7],fun _ => none⟩ es = some c ∧
      ¬ Keeps (opening [1] [7,7]).there c.shared.there := by
  refine ⟨steps 7++[.act 0 { calm 0 with fate := .refused .busy },.act 0 (calm 0),.act 0 (calm 0)],?_⟩
  obtain rfl | rfl := hmode
  all_goals
    refine ⟨_,rfl,fun hkeeps => ?_⟩
    obtain ⟨-,hsame⟩ := hkeeps [[98]] (.file 0) rfl
    cases hsame 0 rfl

/-- The pool is busy when the destination is looked up, so it is taken for absent and its
contents are gone. -/
theorem busy_stat_truncates :
    (∃ es c, exec (service (fun _ => "") 2 1 (sendNew .skipExisting)).step ⟨opening [1] [7,7],fun _ => none⟩ es = some c ∧
      ¬ Keeps (opening [1] [7,7]).there c.shared.there) ∧
    ∃ es c, exec (service (fun _ => "") 2 1 (sendNew .rename)).step ⟨opening [1] [7,7],fun _ => none⟩ es = some c ∧
      ¬ Keeps (opening [1] [7,7]).there c.shared.there :=
  ⟨exists_truncating_run (Or.inl rfl),exists_truncating_run (Or.inr rfl)⟩

/-- A renaming push is cancelled after its first byte, and the new name is taken away again. -/
theorem existing_untouched_cancelled :
    ∃ es c, exec (service (fun _ => "") 1 2 (sendNew .rename)).step ⟨opening [1,2] [7,7],fun _ => none⟩ es = some c ∧
      c.threads 0 = some (.work,.ret (.ok ())) ∧ c.shared.cell.state = .cancelled ∧
      Keeps (opening [1,2] [7,7]).there c.shared.there := by
  let es := steps 18++[.start 1 .cancel,.act 1 (calm 0)]++List.replicate 6 (.act 0 (calm 0))
  obtain ⟨c,hc⟩ : ∃ c, exec (service (fun _ => "") 1 2 (sendNew .rename)).step
      ⟨opening [1,2] [7,7],fun _ => none⟩ es = some c := ⟨_,rfl⟩
  have hroom : Room (sendNew .rename) (opening [1,2] [7,7]).there :=
    fun htaken => (htaken 1 le_rfl (by decide) rfl).elim
  exact ⟨es,c,hc,by cases hc; rfl,by cases hc; rfl,(existing_untouched (fresh_opening _ _) (Or.inr rfl) (fun _ => hroom)
    (meets_within (by decide +kernel)) hc).2⟩

end AdbShare.Preserved

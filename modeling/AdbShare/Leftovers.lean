import AdbShare.Completed

/-! What a job that does not succeed leaves at its destination. A name that the job made is
taken away again if the loop fails; the exits before and after the loop do not clean up. -/
namespace AdbShare.Leftovers

open Prog Service Transition Transfer Files Function Option World Obeys
open JobQueue (JobState)
open Worker hiding Act

/-- The names that were there are there. -/
def Kept (d : Direction) (w : World) (names : Path → Option Node) : Prop :=
  ∀ p node, (writing d w).names p = some node → names p = some node

/-- A directory on the way to the destination, which a pull may make and does not take away. -/
def OnTheWay (task : Task) (p : Path) : Prop := task.direction = .pull ∧ p <+: task.destination.dropLast

/-- The names that were not there are not there, but for directories on the way. -/
def Clean (task : Task) (w : World) (names : Path → Option Node) : Prop :=
  ∀ p, ¬ OnTheWay task p → (writing task.direction w).names p = none → names p = none

/-- The destination is open: what the job made is its name alone, and it has made none if it
found one. -/
structure Held (task : Task) (w : World) (plan : Plan) (fs : Files) : Prop where
  kept : Kept task.direction w fs.names
  made : plan.created = true → (writing task.direction w).names plan.dest = none ∧
    fs.next ≠ (writing task.direction w).next ∧
    ∀ p, ¬ OnTheWay task p → (writing task.direction w).names p = none → p ≠ plan.dest → fs.names p = none
  found : plan.created = false → Clean task w fs.names

/-- The job has made a file. -/
def made (task : Task) (start w : World) : Bool :=
  decide ((writing task.direction w).next ≠ (writing task.direction start).next)

/-- The job has made its destination and come to the end of its source. -/
def through (task : Task) (start w : World) : Bool := w.ended && made task start w

/-- Nothing that was there is removed, and in a pull nothing is changed before the source is
open. -/
def Guarded (d : Direction) (w g : World) : Prop :=
  Kept d w (writing d g).names ∧ (d = .pull → g.sourceOpen = false →
    ∀ p n, w.here.names p = some (.file n) → g.here.contents n = w.here.contents n)

section

variable {task : Task} {w g g' : World} {plan : Plan} {fs fs' : Files} {β ρ : Type} {a : Worker.Act β} {b : β}
  {ok : Cond} {p : Prog Worker.Act ρ}

theorem Held.congr (h : Held task w plan fs) (hnames : fs'.names = fs.names)
    (hnext : fs'.next = fs.next) : Held task w plan fs' :=
  ⟨hnames ▸ h.kept,hnames ▸ hnext ▸ h.made,hnames ▸ h.found⟩

/-- The name that the job made is taken away. -/
theorem Held.unlink (h : Held task w plan fs) (hcreated : plan.created) (hu : fs.unlink plan.dest = some fs') :
    Kept task.direction w fs'.names ∧ Clean task w fs'.names := by
  obtain ⟨hfree,-,hrest⟩ := h.made hcreated
  obtain rfl : fs.remove plan.dest = fs' := by
    unfold Files.unlink at hu
    split at hu
    · cases hu
    · cases hu
    · exact some.inj hu
  constructor
  · intro p node hp
    have hne : p ≠ plan.dest := by
      rintro rfl
      cases hfree.symm.trans hp
    exact (update_of_ne hne _ _).trans (h.kept p node hp)
  · intro p hway hp
    by_cases hne : p = plan.dest
    · subst hne
      exact update_self _ _ _
    · exact (update_of_ne hne _ _).trans (hrest p hway hp hne)

/-- The conditions of a tidy run. Probes are right and cleaning up succeeds; a pull does not
empty what it finds; an open that is answered with an error has made nothing, and the source
of a pull opens once the destination is made. When the destination is made and the source has
been read to the end, no call fails any more and the job is not found cancelled. -/
def Tidy (task : Task) (start : World) : Cond
  | w, _, .stat p, .error _, _ => task.direction = .push → w.there.names p = none
  | w, _, .metadata p, .error _, _ => task.direction = .pull → w.here.names p = none
  | _, _, .unlink _, .error _, _ => false
  | _, _, .removeFile _, .error _, _ => false
  | w, _, .openLocal p m, .ok _, _ => m = .create → w.here.names p = none
  | w, _, .openRemote _ m, .error _, w' =>
    if m = .read then task.direction = .pull ∨ w.ended = true → made task start w = false
    else w'.there.next = w.there.next
  | w, _, .openLocal _ _, .error _, _ => !through task start w
  | w, _, .read _ _, .error _, _ => !through task start w
  | w, _, .readAt _ _ _, .error _, _ => !through task start w
  | w, _, .close _, .error _, _ => !through task start w
  | w, _, .flush _, .error _, _ => !through task start w
  | w, _, .isCancelled, cancelled, _ => !(cancelled && through task start w)
  | _, _, _, _, _ => true

theorem tidy_view (task : Task) (start w : World) (β : Type) (a : Worker.Act β) (b : β) (w' : World)
    (h : Tidy task start w β a b w') : Tidy task start (view w) β a b (view w') := by
  obtain ⟨d,source,destination,verify,overwrite⟩ := task
  cases d <;> cases a <;> first | exact h | (cases b <;> exact h)

/-- The destination is open, and in a pull the source too. -/
def Opened (task : Task) (w : World) (plan : Plan) (g : World) : Prop :=
  Held task w plan (writing task.direction g) ∧ (task.direction = .pull → g.sourceOpen = true)

theorem Opened.guarded (h : Opened task w plan g) : Guarded task.direction w g := by
  refine ⟨h.1.kept,?_⟩
  intro hpull hclosed
  cases hclosed.symm.trans (h.2 hpull)

theorem Opened.step (hg : Opened task w plan g) (dst : ℕ)
    (ha : Handling task.direction { plan with created := false } dst β a) (h : Does g a b g') :
    Opened task w plan g' ∧ (g.ended → g'.ended) := by
  have h := handled_of_handling ha h
  have hnames := h.names.resolve_right fun hun => by cases hun.1
  exact ⟨⟨hg.1.congr hnames h.nextFile,fun hpull => h.sourceOpen (hg.2 hpull)⟩,h.ended⟩

theorem runs_opened (dst : ℕ)
    (hp : p.Only (Handling task.direction { plan with created := false } dst)) (hg : Opened task w plan g) :
    Runs (Guarded task.direction w) ok (fun g' _ => Opened task w plan g' ∧ (g.ended → g'.ended)) p g := by
  refine hp.obeys (fun _ _ _ hg _ => hg.1.guarded) ?_ ⟨hg,id⟩
  rintro g₁ β a b g₂ ⟨hopened,hend⟩ ha ⟨hdoes,-⟩
  obtain ⟨hopened',hend'⟩ := hopened.step dst ha hdoes
  exact ⟨hopened',fun he => hend' (hend he)⟩

section

variable {sha256 : Bytes → String} {chunkSize rounds n : ℕ} {src dst : ℕ} {p : Prog Worker.Act Outcome} {outcome : Outcome}
  {truncate : Bool} {file : Option ℕ} {d : Direction} {offset : ℕ} {done : UInt64} {total : List Path → UInt64 → Prop}

/-- The loop ends well only at the end of the source. -/
theorem runs_pushLoop_ended (left offset : ℕ) (g : World) :
    Completed.Brings ok (fun g => g.ended) (pushLoop chunkSize rounds src dst left offset) g := by
  refine Completed.runs_chunkLoop (I:=fun _ _ => True) ?_ left trivial
  rintro offset bytes g _ - ⟨h,n,k,-,-,-,rfl⟩
  exact ⟨fun hnil => by simp [hnil],fun _ _ => trivial⟩

theorem runs_pullLoop_ended (left offset : ℕ) (g : World) :
    Completed.Brings ok (fun g => g.ended) (pullLoop chunkSize rounds src dst left offset) g := by
  refine Completed.runs_chunkLoop (I:=fun _ _ => True) ?_ left trivial
  rintro offset bytes g _ - ⟨h,n,k,-,-,-,rfl⟩
  exact ⟨fun hnil => by simp [hnil],fun _ _ => trivial⟩

/-- What the job leaves when the transfer has ended so: nothing new, unless it went well. -/
def Left (task : Task) (w g : World) (r : Outcome) : Prop :=
  Guarded task.direction w g ∧
    (Clean task w (writing task.direction g).names ∨ through task w g = true ∧ r = .ok ())

abbrev Leaves (task : Task) (w : World) (p : Prog Worker.Act Outcome) (g : World) : Prop :=
  Runs (Guarded task.direction w) (Tidy task w) (Left task w) p g

theorem Opened.through (h : Opened task w plan g) (hend : g.ended) : plan.created = false ∨ through task w g := by
  cases hcreated : plan.created with
  | false => exact .inl rfl
  | true => exact .inr (by simp [Leftovers.through,hend,made,(h.1.made hcreated).2.1])

theorem Opened.left_of_found (h : Opened task w plan g) (hfound : plan.created = false) (r : Outcome) : Left task w g r :=
  ⟨h.guarded,.inl (h.1.found hfound)⟩

theorem Opened.left (h : Opened task w plan g) (hend : g.ended) : Left task w g (.ok ()) := by
  obtain hfound | hthrough := h.through hend
  · exact h.left_of_found hfound _
  · exact ⟨h.guarded,.inr ⟨hthrough,rfl⟩⟩

/-- Nothing fails once the job is through. -/
theorem Opened.left_of_tidy (h : Opened task w plan g) (hend : g.ended) (hok : !Leftovers.through task w g)
    (hg' : Opened task w plan g') (r : Outcome) : Left task w g' r := by
  refine hg'.left_of_found ((h.through hend).resolve_right fun hthrough => ?_) r
  simp [hthrough] at hok

theorem Opened.left_of_unlinked (h : Opened task w plan g) (hcreated : plan.created)
    (hfs : (writing task.direction g).unlink plan.dest = some (writing task.direction g'))
    (hopen : g'.sourceOpen = g.sourceOpen) (r : Outcome) : Left task w g' r := by
  obtain ⟨hkept,hclean⟩ := h.1.unlink hcreated hfs
  refine ⟨⟨hkept,?_⟩,.inl hclean⟩
  intro hpull hclosed
  cases (h.2 hpull).symm.trans (hopen.symm.trans hclosed)

section

variable {data acc all : Bytes} {src dst : Path} {f max k : ℕ}

theorem prefix_of_read (hacc : acc <+: all) (hmax : 0 < max) : acc++(all.drop acc.length).take (min max (k+1)) <+: all ∧
      ((all.drop acc.length).take (min max (k+1)) = [] → acc = all) := by
  obtain ⟨rest,rfl⟩ := hacc
  rw [List.drop_left]
  refine ⟨(List.prefix_append_right_inj acc).mpr (List.take_prefix _ _),fun hnil => ?_⟩
  obtain hzero | rfl := List.take_eq_nil_iff.mp hnil
  · omega
  · exact (List.append_nil acc).symm

/-- The files of a job that is through stay as they are. -/
structure Checking (w₀ g : World) : Prop where
  here : g.here = w₀.here
  there : g.there = w₀.there
  ended : g.ended = true

variable (hthrough : ∀ g', Checking g g' → through task w g' = true)
include hthrough

theorem runs_hashLocalLoop {g' : World} {h : Handle} (left : ℕ) (hg' : Checking g g') (hacc : acc <+: g.here.contents n)
    (hh : g'.handles f = some h) (hfile : h.file = some n) (hpos : h.pos = acc.length) :
    Runs (fun _ => True) (Tidy task w) (fun g' r => Checking g g' ∧ r = .ok (g.here.contents n))
      (hashLocalLoop f left acc) g' := by
  induction left generalizing acc h g' with
  | zero => exact ⟨trivial,fun b => b.elim⟩
  | succ left ih =>
    refine runs_perform trivial fun b g₁ hdoes hok => ?_
    cases b with
    | error e => simp [Tidy,hthrough g' hg'] at hok
    | ok bytes =>
    obtain ⟨h',n',k,hh',hfile',hbytes,rfl⟩ := hdoes
    obtain rfl := some.inj (hh.symm.trans hh')
    obtain rfl := some.inj (hfile.symm.trans hfile')
    rw [hg'.here,hpos] at hbytes
    obtain ⟨hpart,hend⟩ := prefix_of_read (k:=k) hacc (show 0 < 64*1024 by decide)
    rw [← hbytes] at hpart hend
    have hon : Checking g { g'.keep f { h with pos := h.pos+bytes.length } g'.here with ended := g'.ended || bytes.isEmpty } :=
      ⟨hg'.here,hg'.there,by simp [hg'.ended]⟩
    dsimp only
    split
    · rename_i hnil
      exact ⟨hon,by rw [hend hnil]⟩
    · exact ih hon hpart (update_self _ _ _) hfile (by simp [hpos])

theorem runs_hashRemoteLoop {g' : World} {h : Handle} (left : ℕ) (hmax : 0 < max) (hg' : Checking g g')
    (hacc : acc <+: g.there.contents n) (hh : g'.handles f = some h) (hfile : h.file = some n) :
    Runs (fun _ => True) (Tidy task w) (fun g' r => Checking g g' ∧ r = .ok (g.there.contents n))
      (hashRemoteLoop f max left acc) g' := by
  induction left generalizing acc g' with
  | zero => exact ⟨trivial,fun b => b.elim⟩
  | succ left ih =>
    refine runs_perform trivial fun b g₁ hdoes hok => ?_
    cases b with
    | error e => simp [Tidy,hthrough g' hg'] at hok
    | ok bytes =>
    obtain ⟨h',n',k,hh',hfile',hbytes,rfl⟩ := hdoes
    obtain rfl := some.inj (hh.symm.trans hh')
    obtain rfl := some.inj (hfile.symm.trans hfile')
    rw [hg'.there] at hbytes
    obtain ⟨hpart,hend⟩ := prefix_of_read (k:=k) hacc hmax
    rw [← hbytes] at hpart hend
    have hon : Checking g { g' with ended := g'.ended || bytes.isEmpty } := ⟨hg'.here,hg'.there,by simp [hg'.ended]⟩
    dsimp only
    split
    · rename_i hnil
      exact ⟨hon,by rw [hend hnil]⟩
    · exact ih hon hpart hh

/-- Files with the same bytes pass the verification. -/
theorem runs_verifyPaths (hchunk : 0 < chunkSize) (hg : Checking g g) (hhere : g.here.read src = some data)
    (hthere : g.there.read dst = some data) :
    Runs (fun _ => True) (Tidy task w) (fun _ r => r = .ok ()) (verifyPaths sha256 chunkSize rounds src dst) g := by
  have hlocal : Runs (fun _ => True) (Tidy task w) (fun g' r => Checking g g' ∧ r = .ok (sha256 data))
      (sha256File sha256 rounds src) g := by
    obtain ⟨n,hn,rfl⟩ := map_eq_some_iff.mp hhere
    refine runs_perform trivial fun b g₁ hopen hok => ?_
    cases b with
    | error e => simp [Tidy,hthrough g hg] at hok
    | ok f =>
      obtain ⟨rfl,rfl⟩ := does_openLocal_read hopen
      refine Runs.bind (runs_hashLocalLoop hthrough rounds ⟨hg.here,hg.there,hg.ended⟩ List.nil_prefix
        (opening_handles_self _ _) hn rfl) ?_
      rintro g₂ r ⟨hg₂,rfl⟩
      exact ⟨hg₂,rfl⟩
  refine Runs.bind hlocal ?_
  rintro g₁ r ⟨hg₁,rfl⟩
  have hremote : Runs (fun _ => True) (Tidy task w) (fun _ r => r = .ok (sha256 data))
      (hashRemote sha256 chunkSize rounds dst) g₁ := by
    obtain ⟨n,hn,rfl⟩ := map_eq_some_iff.mp hthere
    have hmade := hthrough g₁ hg₁
    refine runs_perform trivial fun b g₂ hopen hok => ?_
    cases b with
    | error e => simp_all [Tidy,through]
    | ok f =>
      obtain ⟨rfl,rfl⟩ := does_openRemote_read hopen
      refine Runs.bind (runs_hashRemoteLoop hthrough rounds (lt_min hchunk (by decide)) ⟨hg₁.here,hg₁.there,hg₁.ended⟩
        List.nil_prefix (opening_handles_self _ _) (by rw [hg₁.there]; exact hn)) ?_
      rintro g₃ r ⟨hg₃,rfl⟩
      refine runs_perform trivial fun b g₄ _ hok => ?_
      cases b with
      | error e => simp [Tidy,hthrough g₃ hg₃] at hok
      | ok _ => exact rfl
  refine Runs.bind hremote ?_
  rintro g₂ r rfl
  simp only [ne_eq,not_true_eq_false,if_false]
  exact rfl

end

theorem runs_verified {src dst : Path} (hchunk : 0 < chunkSize) (hg : Opened task w plan g) (hend : g.ended)
    (hread : plan.created → ∃ data, g.here.read src = some data ∧ g.there.read dst = some data) :
    Leaves task w (verifyPaths sha256 chunkSize rounds src dst) g := by
  have hopened : Runs (Guarded task.direction w) (Tidy task w) _ _ g := runs_opened 0
    ((only_verifyPaths sha256 chunkSize rounds src dst).mono handling_of_reads) hg
  obtain hfound | hthrough := hg.through hend
  · exact mono hopened fun _ r h => h.1.left_of_found hfound r
  cases hcreated : plan.created with
  | false => exact mono hopened fun _ r h => h.1.left_of_found hcreated r
  | true =>
    have hstays : ∀ g', Checking g g' → Leftovers.through task w g' := by
      intro g' hg'
      have hsame : writing task.direction g' = writing task.direction g := by
        unfold writing
        rw [hg'.here,hg'.there]
      simpa [Leftovers.through,made,hsame,hg'.ended,hend] using hthrough
    obtain ⟨data,hhere,hthere⟩ := hread hcreated
    refine mono (and hopened (runs_verifyPaths hstays hchunk ⟨rfl,rfl,hend⟩ hhere hthere)) ?_
    rintro g' r ⟨⟨hg',hend'⟩,rfl⟩
    exact hg'.left (hend' hend)

theorem runs_pushFinish (hd : task.direction = .push) (hchunk : task.verify = .on → 0 < chunkSize)
    (hg : Opened task w plan g) (hend : ∀ u, outcome = .ok u → g.ended)
    (hread : ∀ u, outcome = .ok u → plan.created → task.verify = .on →
      ∃ data, g.here.read task.source = some data ∧ g.there.read plan.dest = some data) :
    Leaves task w (pushFinish sha256 chunkSize rounds task plan dst outcome) g := by
  cases outcome with
  | error e =>
    refine runs_perform hg.guarded fun b g₁ hclose _ => ?_
    obtain ⟨hg₁,-⟩ := hg.step dst (a:=.close dst) trivial hclose
    split
    · rename_i hcreated
      refine runs_perform hg₁.guarded fun b g₂ hunlink hok => ?_
      cases b with
      | error e => cases hok
      | ok _ =>
        obtain ⟨fs,hfs,rfl⟩ := hunlink
        refine hg₁.left_of_unlinked hcreated ?_ ?_ _
        · rw [hd]
          exact hfs
        · rfl
    · rename_i hfound
      exact hg₁.left_of_found (by simpa using hfound) _
  | ok u =>
    refine runs_perform hg.guarded fun b g₁ hclose hok => ?_
    obtain ⟨hg₁,hend₁⟩ := hg.step dst (a:=.close dst) trivial hclose
    have hended := hend u rfl
    cases b with
    | error e => exact hg.left_of_tidy hended hok hg₁ _
    | ok _ =>
      dsimp only
      split
      · rename_i hverify
        refine runs_verified (hchunk hverify) hg₁ (hend₁ hended) fun hcreated => ?_
        obtain rfl | rfl := hclose <;> exact hread u rfl hcreated hverify
      · exact hg₁.left (hend₁ hended)

theorem runs_pullFinish (hd : task.direction = .pull) (hchunk : task.verify = .on → 0 < chunkSize)
    (hg : Opened task w plan g) (hend : ∀ u, outcome = .ok u → g.ended)
    (hread : ∀ u, outcome = .ok u → plan.created → task.verify = .on → ∀ {g₁ g₂}, Does g (.close src) (.ok ()) g₁ →
      Does g₁ (.flush dst) (.ok ()) g₂ →
        ∃ data, g₂.here.read plan.dest = some data ∧ g₂.there.read task.source.toTextLossy = some data) :
    Leaves task w (pullFinish sha256 chunkSize rounds task plan src dst outcome) g := by
  cases outcome with
  | error e =>
    refine runs_perform hg.guarded fun b g₁ hclose _ => ?_
    obtain ⟨hg₁,-⟩ := hg.step dst (a:=.close src) trivial hclose
    split
    · rename_i hcreated
      refine runs_perform hg₁.guarded fun b g₂ hflush _ => ?_
      obtain ⟨hg₂,-⟩ := hg₁.step dst (a:=.flush dst) ⟨hd,rfl⟩ hflush
      refine runs_perform hg₂.guarded fun b g₃ hremove hok => ?_
      cases b with
      | error e => cases hok
      | ok _ =>
        obtain ⟨fs,hfs,rfl⟩ := hremove
        refine hg₂.left_of_unlinked hcreated ?_ ?_ _
        · rw [hd]
          exact hfs
        · rfl
    · rename_i hfound
      exact hg₁.left_of_found (by simpa using hfound) _
  | ok u =>
    refine runs_perform hg.guarded fun b g₁ hclose hok => ?_
    obtain ⟨hg₁,hend₁⟩ := hg.step dst (a:=.close src) trivial hclose
    have hended := hend u rfl
    cases b with
    | error e => exact hg.left_of_tidy hended hok hg₁ _
    | ok _ =>
    refine runs_perform hg₁.guarded fun b g₂ hflush hok => ?_
    obtain ⟨hg₂,hend₂⟩ := hg₁.step dst (a:=.flush dst) ⟨hd,rfl⟩ hflush
    cases b with
    | error e => exact hg₁.left_of_tidy (hend₁ hended) hok hg₂ _
    | ok _ =>
      dsimp only
      split
      · rename_i hverify
        exact runs_verified (hchunk hverify) hg₂ (hend₂ (hend₁ hended)) fun hcreated => hread u rfl hcreated hverify hclose hflush
      · exact hg₂.left (hend₂ (hend₁ hended))

/-- Before the destination is open. -/
structure Begun (task : Task) (w g : World) : Prop where
  kept : Kept task.direction w (writing task.direction g).names
  clean : Clean task w (writing task.direction g).names
  nextFile : (writing task.direction g).next = (writing task.direction w).next
  contents : (writing task.direction g).contents = (writing task.direction w).contents

theorem Begun.guarded (h : Begun task w g) : Guarded task.direction w g := by
  refine ⟨h.kept,?_⟩
  intro hpull _ p n _
  have hsame := h.contents
  rw [hpull] at hsame
  exact congrFun hsame n

theorem Begun.left (h : Begun task w g) (r : Outcome) : Left task w g r := ⟨h.guarded,.inl h.clean⟩

/-- The plan suits what the probes have found. -/
def Suits (plan : Plan) (fs : Files) : Prop :=
  plan.created = true ∧ plan.mode = .create ∧ plan.offset = 0 ∧ fs.names plan.dest = none ∨
    plan.created = false ∧ plan.mode ≠ .read ∧ (fs.target plan.dest).isSome

theorem openWrite_of_target {p : Path} (hp : (fs.target p).isSome)
    (h : fs.openWrite p truncate = some (n,fs')) : fs' = if truncate then fs.setContents n [] else fs := by
  obtain ⟨-,hfs⟩ | ⟨q,hq,hfree,-,-⟩ := openWrite_cases h
  · exact hfs
  · simp [Files.target,hq,hfree] at hp

theorem Begun.held (h : Begun task w g) (hsuits : Suits plan (writing task.direction g))
    (ho : openAt (writing task.direction g) plan.dest plan.mode = some (file,fs)) : Held task w plan fs := by
  obtain ⟨hcreated,hmode,-,hfree⟩ | ⟨hfound,hmode,hsome⟩ := hsuits
  · rw [hmode] at ho
    obtain ⟨⟨n,fs⟩,hopen,he⟩ := map_eq_some_iff.mp ho
    cases he
    obtain ⟨rfl,rfl⟩ := openWrite_of_free hfree hopen
    refine ⟨?_,?_,fun hfound => by cases hcreated.symm.trans hfound⟩
    · intro p node hp
      have hne : p ≠ plan.dest := by
        rintro rfl
        cases hfree.symm.trans (h.kept _ _ hp)
      exact (update_of_ne hne _ _).trans (h.kept p node hp)
    · intro _
      refine ⟨?_,?_,?_⟩
      · cases hp : (writing task.direction w).names plan.dest with
        | none => rfl
        | some node => cases hfree.symm.trans (h.kept _ _ hp)
      · have := h.nextFile
        show (writing task.direction g).next+1 ≠ _
        omega
      · intro p hway hp hne
        exact (update_of_ne hne _ _).trans (h.clean p hway hp)
  · have hsame : fs.names = (writing task.direction g).names := by
      cases hm : plan.mode with
      | read => exact (hmode hm).elim
      | update | create =>
        rw [hm] at ho
        obtain ⟨⟨n,fs⟩,hopen,he⟩ := map_eq_some_iff.mp ho
        cases he
        rw [openWrite_of_target hsome hopen]
        rfl
    exact ⟨hsame ▸ h.kept,fun hcreated => (by cases hcreated.symm.trans hfound),fun _ => hsame ▸ h.clean⟩

theorem Begun.congr (h : Begun task w g) (hsame : writing task.direction g' = writing task.direction g) :
    Begun task w g' :=
  ⟨hsame ▸ h.kept,hsame ▸ h.clean,hsame ▸ h.nextFile,hsame ▸ h.contents⟩

/-- Nothing is done to the files. -/
theorem runs_begun {p : Prog Worker.Act ρ} (hp : p.Only Aloof) (hg : Begun task w g) :
    Runs (Guarded task.direction w) ok (fun g _ => Begun task w g) p g := by
  refine hp.obeys (fun _ _ _ hg _ => hg.guarded) ?_ hg
  rintro g₁ β a b g₂ hg₁ ha ⟨hdoes,-⟩
  obtain ⟨hhere,hthere⟩ := does_aloof ha hdoes
  refine hg₁.congr ?_
  cases task.direction with
  | push => exact hthere
  | pull => exact hhere

theorem Suits.writes (h : Suits plan fs) : plan.mode ≠ .read := by
  obtain ⟨-,hmode,-⟩ | ⟨-,hmode,-⟩ := h
  · simp [hmode]
  · exact hmode

theorem Suits.fresh (h : Suits plan fs) (hcreated : plan.created) : plan.mode = .create ∧ plan.offset = 0 := by
  obtain ⟨-,hmode,hoffset,-⟩ | ⟨hfound,-⟩ := h
  · exact ⟨hmode,hoffset⟩
  · cases hcreated.symm.trans hfound

theorem Suits.planned (h : Suits plan fs) (hcreated : plan.created) (source : Option Bytes) :
    Completed.Planned fs plan source :=
  .inl (h.fresh hcreated)

theorem runs_pushLoop_read (hd : task.direction = .push) (hchunk : 0 < chunkSize)
    (hg : Completed.Pushing task w plan src dst done total offset g) :
    Runs (fun _ => True) ok (fun g r => ∀ u, r = .ok u →
        ∃ data, g.here.read task.source = some data ∧ g.there.read plan.dest = some data)
      (pushLoop chunkSize rounds src dst rounds offset) g := by
  refine mono (Completed.runs_pushLoop hd hchunk rounds hg) fun g r h u hu => ?_
  obtain ⟨data,hcopied⟩ := h u hu
  exact ⟨data,by simpa [reading,writing,hd] using hcopied.read⟩

theorem runs_pushOpened (hd : task.direction = .push) (hchunk : task.verify = .on → 0 < chunkSize)
    (hg : Begun task w g) (hsuits : Suits plan (writing task.direction g))
    (hsrc : plan.created → g.handles src = some ⟨g.here.fileAt task.source,0,[]⟩ ∧ src < g.next) :
    Leaves task w (pushOpened sha256 chunkSize rounds task plan src) g := by
  have hthere := writing_push hd
  refine runs_perform hg.guarded fun b g₁ hopen hok => ?_
  cases b with
  | error e =>
    obtain rfl | ⟨file,fs,hfs,rfl⟩ := hopen
    · exact hg.left _
    have hheld := hg.held hsuits (hthere g ▸ hfs)
    have hunmade : (opening { g with there := fs } file).there.next = g.there.next := by
      simpa [Tidy,hsuits.writes] using hok
    have hnext : fs.next = (writing task.direction w).next := by
      rw [← hg.nextFile,hthere]
      exact hunmade
    have hgone : writing task.direction (opening { g with there := fs } file) = fs := hthere _
    refine ⟨⟨hgone.symm ▸ hheld.kept,fun hpull => by cases hd.symm.trans hpull⟩,.inl ?_⟩
    rw [hgone]
    cases hcreated : plan.created with
    | true => exact ((hheld.made hcreated).2.1 hnext).elim
    | false => exact hheld.found hcreated
  | ok dst =>
    obtain ⟨rfl,file,fs,hfs,rfl⟩ := hopen
    have hheld := hg.held hsuits (hthere g ▸ hfs)
    have hopened : Opened task w plan (opening { g with
            there := fs
            target := if plan.mode = .read then g.target else some plan.dest
            sourceOpen := g.sourceOpen || plan.mode = .read } file) :=
      ⟨(hthere _).symm ▸ hheld,fun hpull => by cases hd.symm.trans hpull⟩
    have hloop : Runs _ (Tidy task w) _ _ _ := and (runs_opened g.next (hd.symm ▸ only_pushLoop chunkSize rounds _ src g.next rounds plan.offset)
      hopened) (runs_pushLoop_ended rounds plan.offset _)
    by_cases hverified : plan.created ∧ task.verify = .on
    · have hoffset := (hsuits.fresh hverified.1).2
      obtain ⟨hsource,hnext⟩ := hsrc hverified.1
      have hpushing : Completed.Pushing task g plan src g.next g.cell.bytesDone (fun _ _ => True) plan.offset _ :=
        .opening rfl (hoffset ▸ hsource) hnext (hthere g ▸ hsuits.planned hverified.1 _) hfs (by simp [hoffset]) trivial
      refine Runs.bind (and hloop (runs_pushLoop_read hd (hchunk hverified.2) hpushing)) ?_
      exact fun g₂ outcome h => runs_pushFinish hd hchunk h.1.1.1 h.1.2 fun u hu _ _ => h.2 u hu
    · refine Runs.bind hloop fun g₂ outcome h => runs_pushFinish hd hchunk h.1.1 h.2 ?_
      exact fun u hu hcreated hon => (hverified ⟨hcreated,hon⟩).elim

theorem runs_pushTo (hd : task.direction = .push) (hchunk : task.verify = .on → 0 < chunkSize)
    (hg : Begun task w g) (hsuits : Suits plan (writing task.direction g)) :
    Leaves task w (pushTo sha256 chunkSize rounds task plan) g := by
  have hthere := writing_push hd
  -- Nothing that the push does before it opens its destination is done to the device.
  have hon : ∀ g', g'.there = g.there → Begun task w g' ∧ Suits plan (writing task.direction g') := by
    intro g' hsame
    have hw : writing task.direction g' = writing task.direction g := by rw [hthere,hthere,hsame]
    exact ⟨hg.congr hw,hw ▸ hsuits⟩
  refine runs_perform hg.guarded fun b g₁ hopen _ => ?_
  cases b with
  | error e =>
    cases hopen
    exact hg.left _
  | ok src =>
    obtain ⟨rfl,rfl⟩ := does_openLocal_read hopen
    obtain ⟨hg₁,hsuits₁⟩ := hon (g.opening (g.here.fileAt task.source)) rfl
    dsimp only
    split
    · rename_i hoffset
      refine runs_perform hg₁.guarded fun b g₂ hseek _ => ?_
      have hsame : g₂.there = g.there := by
        cases b with
        | error e =>
          obtain ⟨n,rfl⟩ := hseek
          unfold spoil
          split <;> rfl
        | ok _ =>
          obtain ⟨h,-,rfl⟩ := hseek
          rfl
      obtain ⟨hg₂,hsuits₂⟩ := hon g₂ hsame
      cases b with
      | error e => exact hg₂.left _
      | ok _ =>
        refine runs_perform hg₂.guarded fun _ g₃ hadd _ => ?_
        cases hadd
        obtain ⟨hg₃,hsuits₃⟩ := hon
          { g₂ with cell := { g₂.cell with bytesDone := g₂.cell.bytesDone+.ofNat plan.offset } } hsame
        exact runs_pushOpened hd hchunk hg₃ hsuits₃ fun hcreated => by simp [(hsuits.fresh hcreated).2] at hoffset
    · exact runs_pushOpened hd hchunk hg₁ hsuits₁ fun _ => ⟨opening_handles_self _ _,Nat.lt_succ_self _⟩

theorem runs_push (hd : task.direction = .push) (hchunk : task.verify = .on → 0 < chunkSize)
    (hroom : task.overwrite = .rename → Room task w.there) (hg : Begun task w g) (hthere : g.there = w.there) :
    Leaves task w (push sha256 chunkSize rounds task) g := by
  have hwriting := writing_push hd
  have hprobe : ∀ (g : World) p e g', Tidy task w g _ (.stat p) (.error e) g' → g.there.names p = none :=
    fun g p e g' h => of_decide_eq_true h hd
  have hdest : destination task = task.destination.toTextLossy := by simp [destination,hd]
  refine runs_perform hg.guarded fun b g₁ hmeta _ => ?_
  obtain ⟨rfl,-⟩ := hmeta
  cases b with
  | error e => exact hg.left _
  | ok sourceLen =>
  refine runs_perform hg.guarded fun b g₂ hstat hok => ?_
  cases b with
  | error e =>
    cases hstat
    exact runs_pushTo hd hchunk hg (.inl ⟨rfl,rfl,rfl,by rw [hwriting]; exact hprobe _ _ _ _ hok⟩)
  | ok size =>
  obtain ⟨⟨k,hsize⟩,rfl⟩ := hstat
  have hg₂ : Begun task w { g₁ with sized := task.destination.toTextLossy::g₁.sized } :=
    hg.congr (by rw [hwriting,hwriting])
  have hfound : ((writing task.direction { g₁ with sized := task.destination.toTextLossy::g₁.sized }).target
      task.destination.toTextLossy).isSome := by
    rw [hwriting]
    exact sizeAt_target hsize
  dsimp only
  split
  · exact mono (runs_begun (only_skip_aloof size) hg₂) fun _ _ hg => hg.left _
  · split <;> exact runs_pushTo hd hchunk hg₂ (.inr ⟨rfl,by simp,hfound⟩)
  · rename_i hmode
    rw [← hdest] at hg₂ ⊢
    have hstays : ∀ g : World, g.there = g₁.there → Begun task w g :=
      fun g hsame => hg.congr (by rw [hwriting,hwriting,hsame])
    refine Runs.bind (runs_pickRemoteRename hd (fun g _ hsame => (hstays g hsame).guarded) hprobe
      (hthere ▸ hroom hmode) rfl rfl) ?_
    rintro g p ⟨⟨-,hsame⟩,hfree⟩
    exact runs_pushTo hd hchunk (hstays g hsame) (.inl ⟨rfl,rfl,rfl,by rw [hwriting,hsame]; exact hfree⟩)
  · exact runs_pushTo hd hchunk hg₂ (.inr ⟨rfl,by simp,hfound⟩)

/-- The destination of a pull is open, and its source is not. -/
structure Half (task : Task) (w : World) (plan : Plan) (g : World) : Prop where
  held : Held task w plan g.here
  contents : ∀ p n, w.here.names p = some (.file n) → g.here.contents n = w.here.contents n

section

variable (hd : task.direction = .pull) {source dir q : Path}
include hd

theorem Half.guarded (h : Half task w plan g) : Guarded task.direction w g := by
  refine ⟨?_,fun _ _ => h.contents⟩
  have hkept := h.held.kept
  rw [hd] at hkept ⊢
  exact hkept

theorem Half.left_of_found (h : Half task w plan g) (hfound : plan.created = false) (r : Outcome) : Left task w g r := by
  have hhere := writing_pull hd g
  exact ⟨h.guarded hd,.inl (hhere.symm ▸ h.held.found hfound)⟩

theorem Half.found (h : Half task w plan g) (hunmade : made task w g = false) : plan.created = false := by
  cases hcreated : plan.created with
  | false => rfl
  | true =>
    have hmade := (h.held.made hcreated).2.1
    rw [hd] at hmade
    simp [made,hd] at hunmade
    exact (hmade hunmade).elim

/-- The loop of a pull has copied the source if it ends well, once the destination is written out. -/
theorem runs_pullLoop_read (hwant : chunkSize%2^32 ≠ 0)
    (hg : Completed.Pulling task w plan src dst done total offset g) :
    Runs (fun _ => True) ok (fun g r => ∀ u, r = .ok u → ∀ {g₁ g₂}, Does g (.close src) (.ok ()) g₁ →
        Does g₁ (.flush dst) (.ok ()) g₂ →
          ∃ data, g₂.here.read plan.dest = some data ∧ g₂.there.read task.source = some data)
      (pullLoop chunkSize rounds src dst rounds offset) g := by
  refine mono (Completed.runs_pullLoop hwant rounds hg) fun g r h u hu g₁ g₂ hclose hflush => ?_
  obtain ⟨data,hcopied⟩ := (h u hu).copied hd hclose hflush
  obtain ⟨hsource,hdest⟩ := hcopied.read
  rw [hd] at hsource hdest
  exact ⟨data,hdest,hsource⟩

variable (hwant : task.verify = .on → chunkSize%2^32 ≠ 0) (hlossy : task.source.toTextLossy = task.source)
include hwant hlossy

theorem runs_pullOpened (hg : Half task w plan g) (hdst : plan.created → plan.offset = 0 ∧
      (∃ h, g.handles dst = some h ∧ Completed.Buffered g.here plan.dest h (g.there.read task.source) 0) ∧
      dst < g.next ∧ g.target = some plan.dest) :
    Leaves task w (pullOpened sha256 chunkSize rounds task plan task.source dst) g := by
  refine runs_perform (hg.guarded hd) fun b g₁ hopen hok => ?_
  cases b with
  | error e =>
    have hfound := hg.found hd (show made task w g = false by simpa [Tidy,hd] using hok)
    obtain rfl | ⟨file,fs,hfs,rfl⟩ := hopen
    · exact hg.left_of_found hd hfound _
    · obtain ⟨-,rfl⟩ := openAt_read hfs
      exact Half.left_of_found hd ⟨hg.held,hg.contents⟩ hfound _
  | ok src =>
    obtain ⟨rfl,rfl⟩ := does_openRemote_read hopen
    have hopened : Opened task w plan (opening { g with sourceOpen := true } (g.there.fileAt task.source)) := by
      refine ⟨?_,fun _ => rfl⟩
      exact (writing_pull hd _).symm ▸ hg.held
    have hloop : Runs _ (Tidy task w) _ _ _ := and (runs_opened dst (hd.symm ▸ only_pullLoop chunkSize rounds _ g.next dst rounds plan.offset)
      hopened) (runs_pullLoop_ended rounds plan.offset _)
    have hchunk : task.verify = .on → 0 < chunkSize := fun hon => Nat.pos_of_ne_zero fun hzero => hwant hon (by simp [hzero])
    by_cases hverified : plan.created ∧ task.verify = .on
    · obtain ⟨hoffset,hfile,hnext,htarget⟩ := hdst hverified.1
      have hpulling : Completed.Pulling task g plan g.next dst g.cell.bytesDone (fun _ _ => True) plan.offset _ :=
        .opening rfl (hoffset ▸ hfile) hnext htarget (by simp [hoffset]) trivial
      refine Runs.bind (and hloop (runs_pullLoop_read hd (hwant hverified.2) hpulling)) ?_
      intro g₂ outcome h
      refine runs_pullFinish hd hchunk h.1.1.1 h.1.2 fun u hu _ _ _ _ hclose hflush => ?_
      rw [hlossy]
      exact h.2 u hu hclose hflush
    · refine Runs.bind hloop fun g₂ outcome h => runs_pullFinish hd hchunk h.1.1 h.2 ?_
      exact fun u hu hcreated hon => (hverified ⟨hcreated,hon⟩).elim

theorem runs_pullTo (hg : Begun task w g) (hsuits : Suits plan (writing task.direction g)) :
    Leaves task w (pullTo sha256 chunkSize rounds task plan task.source) g := by
  have hhere := writing_pull hd
  refine runs_perform hg.guarded fun b g₁ hopen hok => ?_
  cases b with
  | error e =>
    cases hopen
    exact hg.left _
  | ok dst =>
    obtain ⟨rfl,file,fs,hfs,rfl⟩ := hopen
    have hheld := hg.held hsuits (hhere g ▸ hfs)
    have hcontents : ∀ p n, w.here.names p = some (.file n) → fs.contents n = w.here.contents n := by
      intro p n hp
      have hbefore : g.here.contents n = w.here.contents n := by
        have hsame := hg.contents
        rw [hd] at hsame
        exact congrFun hsame n
      rw [← hbefore]
      obtain ⟨-,hmode,-,hfree⟩ | ⟨-,hmode,hsome⟩ := hsuits
      · rw [hhere] at hfree
        rw [hmode] at hfs
        obtain ⟨⟨m,fs⟩,hopen,he⟩ := map_eq_some_iff.mp hfs
        cases he
        obtain ⟨-,rfl⟩ := openWrite_of_free hfree hopen
        have hlt := w.here.named p n hp
        have hnext := hg.nextFile
        rw [hd] at hnext
        have hnext : g.here.next = w.here.next := hnext
        exact update_of_ne (by omega) _ _
      · rw [hhere] at hsome
        cases hm : plan.mode with
        | read => exact (hmode hm).elim
        | create =>
          rw [hm] at hok
          exact (names_of_target hsome (of_decide_eq_true hok rfl)).elim
        | update =>
          rw [hm] at hfs
          obtain ⟨⟨m,fs⟩,hopen,he⟩ := map_eq_some_iff.mp hfs
          cases he
          rw [openWrite_of_target hsome hopen]
          rfl
    dsimp only
    split
    · rename_i hupdate
      have hhalf : ∀ g', g'.here = fs → Half task w plan g' := fun g' hsame => ⟨hsame ▸ hheld,hsame ▸ hcontents⟩
      refine runs_perform ((hhalf _ rfl).guarded hd) fun b g₂ hseek _ => ?_
      cases b with
      | error e =>
        obtain ⟨n,rfl⟩ := hseek
        obtain ⟨-,hmode,-⟩ | ⟨hfound,-,-⟩ := hsuits
        · cases hupdate.symm.trans hmode
        · exact (hhalf _ (spoil_here _ (opening_handles_self _ _) rfl n)).left_of_found hd hfound _
      | ok _ =>
        obtain ⟨h,hh,rfl⟩ := hseek
        obtain rfl := some.inj ((opening_handles_self _ _).symm.trans hh)
        refine runs_perform ((hhalf _ (Handle.settle_of_nil rfl _)).guarded hd) fun _ g₃ hadd _ => ?_
        cases hadd
        refine runs_pullOpened hd hwant hlossy (hhalf _ (Handle.settle_of_nil rfl _)) fun hcreated => ?_
        cases hupdate.symm.trans (hsuits.fresh hcreated).1
    · refine runs_pullOpened hd hwant hlossy ⟨hheld,hcontents⟩ fun hcreated => ?_
      rw [hhere] at hsuits
      obtain ⟨n,rfl,hholding⟩ := Completed.openAt_planned (hsuits.planned hcreated (g.there.read task.source)) hfs
      have hoffset := (hsuits.fresh hcreated).2
      rw [hoffset] at hholding
      exact ⟨hoffset,⟨_,opening_handles_self _ _,hholding.buffered⟩,Nat.lt_succ_self _,if_neg hsuits.writes⟩

omit hwant hlossy in
theorem Begun.addDirs (hg : Begun task w g) (hdir : task.destination.parent = some dir) (hq : q <+: dir) :
    Begun task w { g with here := g.here.addDirs q } := by
  obtain rfl : dir = task.destination.dropLast := by
    unfold Path.parent at hdir
    split_ifs at hdir
    exact (some.inj hdir).symm
  have hhere := writing_pull hd g
  have hnow := writing_pull hd { g with here := g.here.addDirs q }
  constructor
  · intro p node hp
    rw [hnow]
    exact (keeps_addDirs g.here q p node (hhere ▸ hg.kept p node hp)).1
  · intro p hway hp
    rw [hnow]
    have hold : g.here.names p = none := hhere ▸ hg.clean p hway hp
    exact (if_neg fun h => hway ⟨hd,h.2.trans hq⟩).trans hold
  · rw [hnow,← hg.nextFile,hhere]
    rfl
  · rw [hnow,← hg.contents,hhere]
    rfl

omit hlossy in
theorem runs_pull (hroom : task.overwrite = .rename → Room task w.here)
    (hg : Begun task w g) (hhere : g.here = w.here) :
    Leaves task w (pull sha256 chunkSize rounds task) g := by
  have hwriting := writing_pull hd
  have hprobe : ∀ (g : World) p e g', Tidy task w g _ (.metadata p) (.error e) g' → g.here.names p = none :=
    fun g p e g' h => of_decide_eq_true h hd
  have hdest : destination task = task.destination := by simp [destination,hd]
  have hparent : Runs (Guarded task.direction w) (Tidy task w)
      (fun g _ => Begun task w g ∧ (task.overwrite = .rename → Room task g.here))
      (ensureParent task.destination) g := by
    unfold ensureParent
    split
    · rename_i dir hdir
      refine runs_perform hg.guarded fun b g₁ hdirs _ => ?_
      obtain rfl | ⟨q,hq,rfl⟩ := hdirs
      · exact ⟨hg,hhere.symm ▸ hroom⟩
      · exact ⟨hg.addDirs hd hdir hq,fun hrename => room_addDirs hd hdir hq (hhere.symm ▸ hroom hrename)⟩
    · exact ⟨hg,hhere.symm ▸ hroom⟩
  refine Runs.bind hparent ?_
  rintro g₁ _ ⟨hg₁,hroom₁⟩
  refine runs_perform hg₁.guarded fun existing g₂ hmeta hok => ?_
  obtain ⟨rfl,hsize⟩ := hmeta
  split
  · exact hg₁.left _
  rename_i source hsource
  have hlossy := Path.toTextLossy_of_toText hsource
  obtain rfl := Path.toText_eq hsource
  unfold pullFrom
  cases existing with
  | error e => exact runs_pullTo hd hwant hlossy hg₁ (.inl ⟨rfl,rfl,rfl,by rw [hwriting]; exact hprobe _ _ _ _ hok⟩)
  | ok size =>
    obtain ⟨k,hsize⟩ := hsize size rfl
    have hfound : ((writing task.direction g₂).target task.destination).isSome := by
      rw [hwriting]
      exact sizeAt_target hsize
    dsimp only
    split
    · exact mono (runs_begun (only_skip_aloof size) hg₁) fun _ _ hg => hg.left _
    · refine runs_perform hg₁.guarded fun total g₃ htotal _ => ?_
      obtain ⟨-,rfl⟩ := htotal
      split <;> exact runs_pullTo hd hwant hlossy hg₁ (.inr ⟨rfl,by simp,hfound⟩)
    · rename_i hmode
      rw [← hdest]
      have hstays : ∀ g : World, g.here = g₂.here → Begun task w g :=
        fun g hsame => hg₁.congr (by rw [hwriting,hwriting,hsame])
      refine Runs.bind (runs_pickLocalRename hd (fun g hsame _ => (hstays g hsame).guarded) hprobe
        (hroom₁ hmode) rfl rfl) ?_
      rintro g p ⟨⟨hsame,-⟩,hfree⟩
      exact runs_pullTo hd hwant hlossy (hstays g hsame) (.inl ⟨rfl,rfl,rfl,by rw [hwriting,hsame]; exact hfree⟩)
    · exact runs_pullTo hd hwant hlossy hg₁ (.inr ⟨rfl,by simp,hfound⟩)

end

/-- What can be said when the worker is done. -/
def Ends (task : Task) (w g : World) : Prop :=
  Guarded task.direction w g ∧
    (g.marked = some .failed ∨ g.marked = some .cancelled → Clean task w (writing task.direction g).names)

theorem Guarded.marked (h : Guarded d w g) (marked : Option JobState) : Guarded d w { g with marked := marked } := by
  cases d <;> exact h

theorem Guarded.ends (h : Guarded task.direction w g) {s : JobState}
    (hclean : s = .failed ∨ s = .cancelled → Clean task w (writing task.direction g).names) :
    Ends task w { g with marked := some s } := by
  have hsame : writing task.direction { g with marked := some s } = writing task.direction g := by
    cases task.direction <;> rfl
  refine ⟨h.marked _,fun hs => ?_⟩
  rw [hsame]
  exact hclean (by simpa using hs)

theorem runs_fail {result : Outcome} {e : String} {s : JobState} (hg : Guarded task.direction w g)
    (hclean : Clean task w (writing task.direction g).names) :
    Runs (Guarded task.direction w) (Tidy task w) (fun g _ => Ends task w g) (do
        perform (.setError e)
        perform (.setState s)
        return result) g :=
  runs_end hg fun _ => hg.ends fun _ => hclean

theorem runs_conclude {result : Outcome} (hg : Left task w g result)
    (hmarked : ¬ (g.marked = some .failed ∨ g.marked = some .cancelled)) :
    Runs (Guarded task.direction w) (Tidy task w) (fun g _ => Ends task w g) (conclude result) g := by
  refine runs_perform hg.1 fun cancelled g₁ hflag hok => ?_
  cases hflag
  split
  · rename_i hcancelled
    refine runs_fail hg.1 (hg.2.resolve_right fun hthrough => ?_)
    simp [Tidy,hcancelled,hthrough.1] at hok
  cases result with
  | error e => exact runs_fail hg.1 (hg.2.resolve_right fun hthrough => by cases hthrough.2)
  | ok u =>
    refine runs_perform hg.1 fun s g₂ hstate _ => ?_
    cases hstate
    split
    · refine runs_perform hg.1 fun _ g₃ hset _ => ?_
      cases hset
      exact hg.1.ends (by simp)
    · exact ⟨hg.1,fun h => (hmarked h).elim⟩

theorem begun_of_same (hhere : g.here = w.here) (hthere : g.there = w.there) : Begun task w g := by
  have hsame : writing task.direction g = writing task.direction w := by
    cases task.direction with
    | push => exact hthere
    | pull => exact hhere
  exact ⟨hsame ▸ fun _ _ hp => hp,hsame ▸ fun _ _ hp => hp,by rw [hsame],by rw [hsame]⟩

variable (hverify : task.verify = .on → 0 < chunkSize ∧ (task.direction = .pull → chunkSize%2^32 ≠ 0))
include hverify

theorem runs_transfer (hroom : task.overwrite = .rename → Room task (writing task.direction w))
    (hhere : g.here = w.here) (hthere : g.there = w.there) :
    Leaves task w (transfer sha256 chunkSize rounds task) g := by
  have hg : Begun task w g := begun_of_same hhere hthere
  cases hd : task.direction with
  | push =>
    have hprog : transfer sha256 chunkSize rounds task = push sha256 chunkSize rounds task := by
      simp [transfer,hd]
    rw [hd] at hroom
    rw [hprog]
    exact runs_push hd (fun hon => (hverify hon).1) hroom hg hthere
  | pull =>
    have hprog : transfer sha256 chunkSize rounds task = pull sha256 chunkSize rounds task := by
      simp [transfer,hd]
    rw [hd] at hroom
    rw [hprog]
    exact runs_pull hd (fun hon => (hverify hon).2 hd) hroom hg hhere

theorem runs_run (hw : Fresh w) (hroom : task.overwrite = .rename → Room task (writing task.direction w)) :
    Runs (Guarded task.direction w) (Tidy task w) (fun g _ => Ends task w g)
      (run sha256 chunkSize rounds task) (view w) := by
  let same (here there : Files) : Prop := here = w.here ∧ there = w.there
  let going (marked : Option JobState) : Prop := ¬ (marked = some .failed ∨ marked = some .cancelled)
  have hbegun : ∀ g : World, same g.here g.there → Begun task w g := fun g h => begun_of_same h.1 h.2
  have hguarded : ∀ g : World, same g.here g.there → Guarded task.direction w g := fun g h => (hbegun g h).guarded
  have hstart : same (view w).here (view w).there := ⟨rfl,rfl⟩
  refine runs_perform (hguarded _ hstart) fun cancelled g₁ hflag _ => ?_
  cases hflag
  split
  · exact runs_fail (hguarded _ hstart) (hbegun _ hstart).clean
  have hmark : Runs (Guarded task.direction w) (Tidy task w) (fun g _ => same g.here g.there ∧ going g.marked)
      markRunning (view w) := by
    refine runs_perform (hguarded _ hstart) fun s g₁ hstate _ => ?_
    cases hstate
    split
    · refine ⟨hstart,?_⟩
      show going w.marked
      simp [going,hw.marked]
    · refine ⟨hguarded _ hstart,fun _ g₂ hset => ?_⟩
      cases hset.1
      exact ⟨hstart,by simp [going]⟩
  refine Runs.bind hmark ?_
  rintro g₁ _ ⟨hg₁,hgoing₁⟩
  refine runs_perform (hguarded _ hg₁) fun _ g₂ hstarted _ => ?_
  cases hstarted
  refine Runs.bind (and (runs_aloof (J:=same) (only_totalSize task (fun _ => trivial)
    (fun _ => trivial) fun _ => trivial) hguarded hg₁) (runs_bodily (P:=going) (only_totalSize task
      (fun _ => trivial) (fun _ => trivial) fun _ => trivial) (by simp [going]) hgoing₁)) ?_
  rintro g₃ r ⟨hg₃,hgoing₃⟩
  cases r with
  | error e => exact runs_fail (hguarded _ hg₃) (hbegun _ hg₃).clean
  | ok total =>
    refine runs_perform (hguarded _ hg₃) fun _ g₄ hset _ => ?_
    cases hset
    refine Runs.bind (and (runs_transfer hverify hroom hg₃.1 hg₃.2) (runs_bodily (P:=going)
      (only_transfer _ _ _ _) (by simp [going]) hgoing₃)) ?_
    exact fun g₅ r h => runs_conclude h.1 h.2

/-- In a tidy run nothing that was at the destination is removed, a pull changes nothing there
before its source is open, and a job that ends Failed or Cancelled leaves no new name but for
directories on the way. -/
theorem failed_leaves_nothing (hw : Fresh w)
    (hroom : task.overwrite = .rename → Room task (writing task.direction w)) {es : List (Event Choice Req)}
    {c : Config Act World Req Outcome}
    (hm : Meets (service sha256 chunkSize rounds task).step (Within sha256 chunkSize rounds task (Tidy task w))
      ⟨w,fun _ => none⟩ es)
    (hexec : exec (service sha256 chunkSize rounds task).step ⟨w,fun _ => none⟩ es = some c) :
    (∀ p node, (writing task.direction w).names p = some node → (writing task.direction c.shared).names p = some node) ∧
    (task.direction = .pull → c.shared.sourceOpen = false →
      ∀ p n, w.here.names p = some (.file n) → c.shared.here.contents n = w.here.contents n) ∧
    ∀ t r, c.threads t = some (.work,.ret r) → c.shared.cell.state = .failed ∨ c.shared.cell.state = .cancelled →
      ∀ p, ¬ OnTheWay task p → (writing task.direction w).names p = none →
        (writing task.direction c.shared).names p = none := by
  have hview : writing task.direction (view c.shared) = writing task.direction c.shared := by
    cases task.direction <;> rfl
  have hsolo := exec_runs (tidy_view task w) hw.started (runs_run hverify hw hroom) hm hexec
  have hguarded : Guarded task.direction w (view c.shared) :=
    (exec_runs (tidy_view task w) hw.started (mono (runs_run hverify hw hroom) fun _ _ h => h.1) hm hexec).holds
      (q:=.work) rfl
  refine ⟨hview ▸ hguarded.1,hguarded.2,?_⟩
  intro t r ht hstate
  have hend : Ends task w (view c.shared) := hsolo.obeys t .work _ ht rfl
  have hmarked : c.shared.marked = some c.shared.cell.state := by
    refine exec_settled hw.settled hexec _ rfl ?_ ?_ ?_
    all_goals rintro h; simp [h] at hstate
  refine hview ▸ hend.2 ?_
  obtain h | h := hstate
  · exact .inl (hmarked.trans (congrArg some h))
  · exact .inr (hmarked.trans (congrArg some h))

end

end

/-- `/b` of the device to the computer. -/
def fetch (dest : Path) : Task := ⟨.pull,[[98]],dest,.off,.always⟩

/-- A pull whose source does not open leaves an empty file behind, and one over a file empties
it before it has opened its source. -/
theorem empty_file_left :
    (∃ es c, exec (service (fun _ => "") 2 1 (fetch [[99]])).step ⟨opening [7] [1],fun _ => none⟩ es = some c ∧
      c.threads 0 = some (.work,.ret (.error .busy)) ∧ c.shared.cell.state = .failed ∧
      (opening [7] [1]).here.names [[99]] = none ∧ c.shared.here.read [[99]] = some []) ∧
    ∃ es c, exec (service (fun _ => "") 2 1 (fetch [[97]])).step ⟨opening [7] [1],fun _ => none⟩ es = some c ∧
      c.shared.sourceOpen = false ∧ (opening [7] [1]).here.read [[97]] = some [7] ∧
      c.shared.here.read [[97]] = some [] := by
  constructor
  · refine ⟨steps 9++.act 0 { calm 0 with fate := .refused .busy }::List.replicate 3 (.act 0 (calm 0)),_,rfl,?_⟩
    exact ⟨rfl,rfl,rfl,rfl⟩
  · exact ⟨steps 9,_,rfl,rfl,rfl,rfl⟩

/-- A push to a new name is cancelled after its first byte. -/
theorem failed_leaves_nothing_cancelled :
    ∃ es c, exec (service (fun _ => "") 1 2 ⟨.push,[[97]],[[99]],.off,.always⟩).step
        ⟨opening [1,2] [7],fun _ => none⟩ es = some c ∧
      c.shared.cell.state = .cancelled ∧ c.shared.there.names [[99]] = none := by
  let es := steps 17++[.start 1 .cancel,.act 1 (calm 0)]++List.replicate 6 (.act 0 (calm 0))
  obtain ⟨c,hc⟩ : ∃ c, exec (service (fun _ => "") 1 2 ⟨.push,[[97]],[[99]],.off,.always⟩).step
      ⟨opening [1,2] [7],fun _ => none⟩ es = some c := ⟨_,rfl⟩
  obtain ⟨-,-,hclean⟩ := failed_leaves_nothing (fun h => by cases h) (fresh_opening _ _) (by simp) (meets_within (by decide +kernel)) hc
  cases hc
  exact ⟨es,_,rfl,rfl,hclean 0 _ rfl (.inr rfl) [[99]] (fun h => by cases h.1) rfl⟩

end AdbShare.Leftovers

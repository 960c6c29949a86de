import AdbShare.Transfer

/-! A job that ends Completed has copied its source. The destination holds the beginning of
the source that has been read so far, at every turn of the loop. -/
namespace AdbShare.Completed

open Prog Service Transition Transfer Function List Option Files Runs
open JobQueue (JobState)
open Worker hiding Act

variable {data bytes : Bytes} {n k size max offset chunkSize rounds dst : ℕ} {h : Handle} {fs' fs : Files}
  {plan : Plan} {file : Option ℕ} {task : Task} {w g g' : World} {ε α : Type} {a : Worker.Act (Except ε α)}
  {f : Except ε α → Prog Worker.Act Outcome} {ok : Cond} {P : World → Prop} {src : Option Bytes} {p : Path}
  {sha256 : Bytes → String} {outcome : Outcome} {done : UInt64} {total : List Path → UInt64 → Prop}

theorem take_append_of_prefix (h : bytes <+: data.drop n) : data.take n++bytes = data.take (n+bytes.length) := by
  rw [take_add,← prefix_iff_eq_take.mp h]

theorem length_le_of_prefix_drop (hn : n ≤ data.length) (h : bytes <+: data.drop n) : n+bytes.length ≤ data.length := by
  have := h.length_le
  rw [length_drop] at this
  omega

/-- The file that a name leads to holds so much of the source; of a source that cannot be
read nothing is said. -/
def Holding (fs : Files) (p : Path) (n : ℕ) (src : Option Bytes) (offset : ℕ) : Prop :=
  fs.fileAt p = some n ∧ ∀ data, src = some data → fs.contents n = data.take offset ∧ offset ≤ data.length

/-- The bytes are the next ones of the source. -/
def Coming (src : Option Bytes) (offset : ℕ) (bytes : Bytes) : Prop :=
  ∀ data, src = some data → bytes <+: data.drop offset

theorem Holding.write (h : Holding fs p n src offset) (hb : Coming src offset bytes) :
    Holding (fs.write n offset bytes) p n src (offset+bytes.length) := by
  refine ⟨h.1,?_⟩
  intro data hdata
  obtain ⟨hheld,hle⟩ := h.2 data hdata
  have hoffset : offset = (fs.contents n).length := by rw [hheld,length_take]; omega
  refine ⟨?_,length_le_of_prefix_drop hle (hb data hdata)⟩
  rw [Files.write,Files.contents_setContents,hoffset,overwriteAt_end,← hoffset,hheld]
  exact take_append_of_prefix (hb data hdata)

/-- The same for a handle with bytes still to be written. -/
def Buffered (fs : Files) (p : Path) (h : Handle) (src : Option Bytes) (offset : ℕ) : Prop :=
  ∃ n, h.file = some n ∧ fs.fileAt p = some n ∧ ∀ data, src = some data →
    h.pos = (fs.contents n).length ∧ fs.contents n++h.pending = data.take offset ∧ offset ≤ data.length

theorem Holding.buffered (h : Holding fs p n src offset) : Buffered fs p ⟨some n,offset,[]⟩ src offset := by
  refine ⟨n,rfl,h.1,?_⟩
  intro data hdata
  obtain ⟨hheld,hle⟩ := h.2 data hdata
  refine ⟨?_,by simpa using hheld,hle⟩
  rw [hheld,length_take]
  exact (min_eq_left hle).symm

theorem Buffered.settle (hb : Buffered fs p h src offset) : Buffered (h.settle fs) p h.settled src offset := by
  obtain ⟨n,hn,hp,hsrc⟩ := hb
  by_cases hpending : h.pending = []
  · rw [Handle.settle_of_nil hpending]
    refine ⟨n,hn,hp,?_⟩
    intro data hdata
    simpa [Handle.settled,hpending] using hsrc data hdata
  · have hsettle : h.settle fs = fs.write n h.pos h.pending := by simp [Handle.settle,hn,hpending]
    rw [hsettle]
    refine ⟨n,hn,hp,?_⟩
    intro data hdata
    obtain ⟨hpos,hheld,hle⟩ := hsrc data hdata
    rw [write,contents_setContents,hpos,overwriteAt_end]
    exact ⟨by simp [Handle.settled,hpos],by simpa [Handle.settled] using hheld,hle⟩

theorem Buffered.extend (hb : Buffered fs p h.settled src offset) (hbytes : Coming src offset bytes) :
    Buffered fs p { h.settled with pending := bytes } src (offset+bytes.length) := by
  obtain ⟨n,hn,hp,hsrc⟩ := hb
  refine ⟨n,hn,hp,?_⟩
  intro data hdata
  obtain ⟨hpos,hheld,hle⟩ := hsrc data hdata
  refine ⟨hpos,?_,length_le_of_prefix_drop hle (hbytes data hdata)⟩
  rw [← take_append_of_prefix (hbytes data hdata),← hheld]
  simp [Handle.settled]

theorem Coming.take (h : Coming src offset bytes) (k : ℕ) : Coming src offset (bytes.take k) :=
  fun data hdata => (List.take_prefix k bytes).trans (h data hdata)

theorem Coming.drop (h : Coming src offset bytes) (k : ℕ) :
    Coming src (offset+(bytes.take k).length) (bytes.drop k) := by
  intro data hdata
  obtain ⟨rest,hrest⟩ := h data hdata
  refine ⟨rest,?_⟩
  have hcut : bytes++rest = bytes.take k++(bytes.drop k++rest) := by
    rw [← append_assoc,take_append_drop]
  rw [← drop_drop,← hrest,hcut,drop_left]

/-- How the destination is to be opened suits what is there. -/
def Planned (fs : Files) (plan : Plan) (src : Option Bytes) : Prop :=
  plan.mode = .create ∧ plan.offset = 0 ∨
    plan.mode = .update ∧ (fs.target plan.dest).isSome ∧
      ∀ n, fs.fileAt plan.dest = some n → Holding fs plan.dest n src plan.offset

theorem openAt_planned (h : Planned fs plan src) (ho : openAt fs plan.dest plan.mode = some (file,fs')) :
    ∃ n, file = some n ∧ Holding fs' plan.dest n src plan.offset := by
  obtain ⟨hmode,hoffset⟩ | ⟨hmode,hsome,hheld⟩ := h
  · rw [hmode] at ho
    obtain ⟨⟨n,fs⟩,hopen,he⟩ := map_eq_some_iff.mp ho
    cases he
    refine ⟨n,rfl,openWrite_fileAt hopen,?_⟩
    intro data _
    simp [openWrite_truncate hopen,hoffset]
  · rw [hmode] at ho
    obtain ⟨⟨n,fs⟩,hopen,he⟩ := map_eq_some_iff.mp ho
    cases he
    refine ⟨n,rfl,?_⟩
    obtain ⟨hn,rfl⟩ | ⟨q,hq,hfree,-,-⟩ := openWrite_cases hopen
    · exact hheld n hn
    · simp [target,hq,hfree] at hsome

/-- A destination that is a beginning of the source can be gone on with. -/
theorem planned_update (hold : ∀ old data, fs.read p = some old → src = some data → old <+: data)
    (hsize : sizeAt fs p k = some size) : Planned fs ⟨p,size,false,.update⟩ src := by
  refine .inr ⟨rfl,sizeAt_target hsize,?_⟩
  intro n hn
  refine ⟨hn,?_⟩
  intro data hdata
  have hbegin : fs.contents n <+: data := hold _ _ (by simp [Files.read,hn]) hdata
  rw [sizeAt_file hn hsize]
  exact ⟨prefix_iff_eq_take.mp hbegin,hbegin.length_le⟩

theorem coming_of_read (hn : fs.fileAt p = some n) (offset k : ℕ) :
    Coming (fs.read p) offset (((fs.contents n).drop offset).take k) := by
  intro data hdata
  obtain rfl : fs.contents n = data := by simpa [Files.read,hn] using hdata
  exact take_prefix _ _

theorem length_le_of_read_nil (hmax : 0 < max)
    (h : (data.drop offset).take (min max (k+1)) = []) : data.length ≤ offset := by
  obtain hzero | hnil := take_eq_nil_iff.mp h
  · omega
  · exact drop_eq_nil_iff.mp hnil

/-- The destination that the job wrote holds the source, and its size has been counted. -/
def Arrived (task : Task) (w g : World) : Prop :=
  ∃ data p, (reading task.direction w).read task.source = some data ∧ g.target = some p ∧
    (task.overwrite ≠ .rename → p = destination task) ∧ (writing task.direction g).read p = some data ∧
    g.cell.bytesDone = .ofNat data.length ∧
    ((task.direction = .pull → task.source ∈ g.sized) → g.cell.bytesTotal = .ofNat data.length)

/-- The destination of a plan holds the source. The bytes are counted from `done` on, and `total` is
what is known of the size and of whose sizes were learnt. -/
structure Copied (task : Task) (w : World) (plan : Plan) (done : UInt64) (total : List Path → UInt64 → Prop)
    (data : Bytes) (g : World) : Prop where
  kept : reading task.direction g = reading task.direction w
  source : (reading task.direction w).read task.source = some data
  dest : (writing task.direction g).read plan.dest = some data
  target : g.target = some plan.dest
  bytesDone : g.cell.bytesDone = done+.ofNat data.length
  bytesTotal : total g.sized g.cell.bytesTotal

theorem Copied.read (h : Copied task w plan done total data g) :
    (reading task.direction g).read task.source = some data ∧ (writing task.direction g).read plan.dest = some data :=
  ⟨h.kept ▸ h.source,h.dest⟩

theorem Copied.arrived (h : Copied task w plan 0 total data g)
    (hplan : task.overwrite ≠ .rename → plan.dest = destination task)
    (htotal : (task.direction = .pull → task.source ∈ g.sized) → g.cell.bytesTotal = .ofNat data.length) : Arrived task w g :=
  ⟨data,plan.dest,h.source,h.target,hplan,h.dest,by rw [h.bytesDone,UInt64.zero_add],htotal⟩

theorem Arrived.same (h : Arrived task w g) (hs : Same g g') : Arrived task w g' := by
  obtain ⟨_,_,_,_,rfl⟩ := hs
  exact h

/-- Before a push opens anything. -/
structure PushBegun (task : Task) (w g : World) : Prop where
  here : g.here = w.here
  there : g.there = w.there
  bytesDone : g.cell.bytesDone = 0
  bytesTotal : ∀ data, w.here.read task.source = some data → g.cell.bytesTotal = .ofNat data.length

/-- The program ends well only in such a world. -/
abbrev Brings (ok : Cond) (P : World → Prop) (p : Prog Worker.Act Outcome) (g : World) : Prop :=
  Runs (fun _ => True) ok (fun g r => ∀ u, r = .ok u → P g) p g

def SkippedOrArrived (task : Task) (w g : World) : Prop := g.marked = some .skipped ∨ Arrived task w g

/-- A destination that is gone on with is a beginning of the source. -/
def Resumable (task : Task) (w : World) : Prop :=
  task.overwrite = .resume → ∀ old data, (writing task.direction w).read (destination task) = some old →
    (reading task.direction w).read task.source = some data → old <+: data

theorem runs_try (herror : ∀ e, ∃ e', f (.error e) = .ret (.error e'))
    (hf : ∀ v g', Does g a (.ok v) g' → Brings ok P (f (.ok v)) g') : Brings ok P (perform a >>= f) g := by
  refine runs_perform trivial fun b g' hdoes _ => ?_
  cases b with
  | error e =>
    obtain ⟨e',he⟩ := herror e
    rw [he]
    exact fun _ hu => by cases hu
  | ok v => exact hf v g' hdoes

/-- What the loop keeps up from piece to piece; it ends well where nothing more is read. -/
theorem runs_chunkLoop {δ : Type} {I : ℕ → World → Prop} {read : ℕ → Worker.Act (Except ε Bytes)}
    {write : ℕ → Bytes → Worker.Act (Except δ Unit)} {readError : ε → ProxyError} {writeError : δ → ProxyError}
    (hpiece : ∀ offset bytes g g₁, I offset g → Does g (read offset) (.ok bytes) g₁ → (bytes = [] → P g₁) ∧
      ∀ g₂, Does g₁ (write offset bytes) (.ok ()) g₂ →
        I (offset+bytes.length) { g₂ with cell := { g₂.cell with bytesDone := g₂.cell.bytesDone+.ofNat bytes.length } })
    (left : ℕ) (hg : I offset g) : Brings ok P (chunkLoop rounds read write readError writeError left offset) g := by
  induction left generalizing offset g with
  | zero => exact ⟨trivial,fun b => b.elim⟩
  | succ left ih =>
    refine bind (runs_waits (only_cancelledOrParked rounds) trivial) ?_
    rintro g cancelled rfl
    split
    · exact nofun
    refine runs_try (fun _ => ⟨_,rfl⟩) fun bytes g₁ hread => ?_
    obtain ⟨hend,hon⟩ := hpiece offset bytes g g₁ hg hread
    dsimp only
    split
    · rename_i hnil
      exact fun _ _ => hend hnil
    refine runs_try (fun _ => ⟨_,rfl⟩) fun _ g₂ hwrite => ?_
    refine runs_perform trivial fun _ g₃ hadd _ => ?_
    cases hadd
    refine runs_perform trivial fun _ g₄ hprogress _ => ?_
    cases hprogress
    exact ih (hon g₂ hwrite)

theorem runs_skip (size : ℕ) (g : World) : Brings ok (SkippedOrArrived task w) (skip size) g := by
  refine runs_perform trivial fun _ g₁ _ _ => ?_
  refine runs_perform trivial fun _ g₂ _ _ => ?_
  refine runs_perform trivial fun _ g₃ hset _ => ?_
  cases hset
  exact fun _ _ => .inl rfl

open World

section

structure Pushing (task : Task) (w : World) (plan : Plan) (src dst : ℕ) (done : UInt64)
    (total : List Path → UInt64 → Prop) (offset : ℕ) (g : World) : Prop where
  here : g.here = w.here
  source : g.handles src = some ⟨w.here.fileAt task.source,offset,[]⟩
  dest : ∃ n h, g.handles dst = some h ∧ h.file = some n ∧
    Holding g.there plan.dest n (w.here.read task.source) offset
  apart : src ≠ dst
  target : g.target = some plan.dest
  bytesDone : g.cell.bytesDone = done+.ofNat offset
  bytesTotal : total g.sized g.cell.bytesTotal

/-- The destination of a push is opened. -/
theorem Pushing.opening {src : ℕ}
    (hhere : g.here = w.here) (hsrc : g.handles src = some ⟨w.here.fileAt task.source,plan.offset,[]⟩)
    (hnext : src < g.next) (hplanned : Planned g.there plan (w.here.read task.source))
    (hfs : openAt g.there plan.dest plan.mode = some (file,fs)) (hdone : g.cell.bytesDone = done+.ofNat plan.offset)
    (htotal : total g.sized g.cell.bytesTotal) :
    Pushing task w plan src g.next done total plan.offset (World.opening { g with
        there := fs
        target := if plan.mode = .read then g.target else some plan.dest
        sourceOpen := g.sourceOpen || plan.mode = .read } file) := by
  obtain ⟨n,rfl,hheld⟩ := openAt_planned hplanned hfs
  have hwrites : plan.mode ≠ .read := by
    rcases hplanned with ⟨hmode,-⟩ | ⟨hmode,-⟩ <;> simp [hmode]
  exact
    { here := hhere
      source := (opening_handles_of_ne _ _ hnext.ne).trans hsrc
      dest := ⟨n,⟨some n,0,[]⟩,opening_handles_self _ _,rfl,hheld⟩
      apart := hnext.ne
      target := if_neg hwrites
      bytesDone := hdone
      bytesTotal := htotal }

variable (hpush : task.direction = .push) (hchunk : 0 < chunkSize)
  (hplan : task.overwrite ≠ .rename → plan.dest = destination task)

include hpush in
theorem Pushing.copied {src : ℕ} (h : Pushing task w plan src dst done total offset g)
    (hn : w.here.fileAt task.source = some n) (hend : (w.here.contents n).length ≤ offset) :
    Copied task w plan done total (w.here.contents n) g := by
  have hread : w.here.read task.source = some (w.here.contents n) := by simp [Files.read,hn]
  obtain ⟨m,-,-,-,hm,hheld⟩ := h.dest
  obtain ⟨hcontents,hle⟩ := hheld _ hread
  obtain rfl : offset = (w.here.contents n).length := le_antisymm hle hend
  refine ⟨?_,?_,?_,h.target,h.bytesDone,h.bytesTotal⟩
  · simpa [reading,hpush] using h.here
  · simpa [reading,hpush] using hread
  · simp [writing,hpush,Files.read,hm,hcontents]

include hpush hchunk in
theorem runs_pushLoop {src : ℕ} (left : ℕ) (hg : Pushing task w plan src dst done total offset g) :
    Brings ok (fun g => ∃ data, Copied task w plan done total data g) (pushLoop chunkSize rounds src dst left offset) g := by
  refine runs_chunkLoop (I:=Pushing task w plan src dst done total) ?_ left hg
  rintro offset bytes g _ hg ⟨h,n,k,hh,hn,hbytes,rfl⟩
  obtain rfl := some.inj (hg.source.symm.trans hh)
  rw [hg.here] at hbytes
  refine ⟨?_,?_⟩
  · intro hnil
    obtain ⟨hkept,hsource,hdest,htarget,hdone,htotal⟩ :=
      hg.copied hpush hn (length_le_of_read_nil hchunk (hbytes.symm.trans hnil))
    exact ⟨_,hkept,hsource,hdest,htarget,hdone,htotal⟩
  · intro g₂ hwrite
    have hcoming := coming_of_read hn offset (min chunkSize (k+1))
    rw [← hbytes] at hcoming
    obtain ⟨m,h,hdst,hm,hheld⟩ := hg.dest
    obtain ⟨h',m',hdst',hm',rfl⟩ := hwrite
    have hkept : g.handles dst = some h' := by
      rw [← hdst']
      exact (update_of_ne hg.apart.symm _ _).symm
    obtain rfl := some.inj (hdst.symm.trans hkept)
    obtain rfl := some.inj (hm.symm.trans hm')
    refine ⟨hg.here,update_self _ _ _,⟨m,h,hdst',hm,hheld.write hcoming⟩,hg.apart,hg.target,?_,hg.bytesTotal⟩
    show g.cell.bytesDone+.ofNat bytes.length = _
    rw [hg.bytesDone,UInt64.ofNat_add,UInt64.add_assoc]

theorem runs_pushFinish (hg : ∀ u, outcome = .ok u → Arrived task w g) :
    Brings ok (Arrived task w) (pushFinish sha256 chunkSize rounds task plan dst outcome) g := by
  cases outcome with
  | error e =>
    refine runs_perform trivial fun b g₁ _ _ => ?_
    split
    · refine runs_perform trivial fun b g₂ _ _ => ?_
      intro u hu
      cases hu
    · exact nofun
  | ok u =>
    have harrived := hg u rfl
    refine runs_perform trivial fun b g₁ hclose _ => ?_
    have hsame : Same g g₁ := same_of_reads (a:=.close dst) trivial hclose
    cases b with
    | error e => exact nofun
    | ok _ =>
    dsimp only
    split
    · refine Obeys.mono (runs_reads (only_verifyPaths _ _ _ _ _) fun _ _ => trivial) ?_
      exact fun g₂ _ hverify _ _ => (harrived.same hsame).same hverify
    · exact fun _ _ => harrived.same hsame

include hpush hchunk hplan in
theorem runs_pushOpened {src : ℕ}
    (hhere : g.here = w.here) (hsrc : g.handles src = some ⟨w.here.fileAt task.source,plan.offset,[]⟩)
    (hnext : src < g.next) (hplanned : Planned g.there plan (w.here.read task.source))
    (hdone : g.cell.bytesDone = .ofNat plan.offset)
    (htotal : ∀ data, w.here.read task.source = some data → g.cell.bytesTotal = .ofNat data.length) :
    Brings ok (Arrived task w) (pushOpened sha256 chunkSize rounds task plan src) g := by
  refine runs_try (fun _ => ⟨_,rfl⟩) fun dst g₁ hopen => ?_
  obtain ⟨rfl,file,fs,hfs,rfl⟩ := hopen
  have hpushing : Pushing task w plan src g.next 0
      (fun _ t => ∀ data, w.here.read task.source = some data → t = .ofNat data.length) plan.offset _ :=
    .opening hhere hsrc hnext hplanned hfs (hdone.trans (UInt64.zero_add _).symm) htotal
  refine bind (runs_pushLoop hpush hchunk rounds hpushing) fun g₂ outcome h => runs_pushFinish fun u hu => ?_
  obtain ⟨data,hcopied⟩ := h u hu
  refine hcopied.arrived hplan fun _ => hcopied.bytesTotal data ?_
  simpa [reading,hpush] using hcopied.source

include hpush hchunk hplan in
theorem runs_pushTo (hg : PushBegun task w g) (hplanned : Planned w.there plan (w.here.read task.source)) :
    Brings ok (Arrived task w) (pushTo sha256 chunkSize rounds task plan) g := by
  refine runs_try (fun _ => ⟨_,rfl⟩) fun src g₁ hopen => ?_
  obtain ⟨rfl,rfl⟩ := does_openLocal_read hopen
  dsimp only
  split
  · refine runs_try (fun _ => ⟨_,rfl⟩) fun _ g₂ hseek => ?_
    obtain ⟨h,hh,rfl⟩ := hseek
    obtain rfl := some.inj ((opening_handles_self g _).symm.trans hh)
    refine runs_perform trivial fun _ g₃ hadd _ => ?_
    cases hadd
    refine runs_pushOpened hpush hchunk hplan ((Handle.settle_of_nil rfl _).trans hg.here) ?_ (Nat.lt_succ_self _) ?_ ?_
      hg.bytesTotal
    · rw [← hg.here]
      exact update_self _ _ _
    · exact hg.there ▸ hplanned
    · show g.cell.bytesDone+.ofNat plan.offset = _
      rw [hg.bytesDone,UInt64.zero_add]
  · rename_i hzero
    have hoffset : plan.offset = 0 := by omega
    refine runs_pushOpened hpush hchunk hplan hg.here ?_ (Nat.lt_succ_self _) ?_ ?_ hg.bytesTotal
    · rw [hoffset,← hg.here]
      exact opening_handles_self _ _
    · exact hg.there ▸ hplanned
    · rw [hoffset]
      exact hg.bytesDone

include hpush hchunk in
theorem runs_push (hresume : Resumable task w) (hg : PushBegun task w g) :
    Brings ok (SkippedOrArrived task w) (push sha256 chunkSize rounds task) g := by
  have hto : ∀ {plan : Plan} {g : World}, (task.overwrite ≠ .rename → plan.dest = destination task) →
      PushBegun task w g → Planned w.there plan (w.here.read task.source) →
      Brings ok (SkippedOrArrived task w) (pushTo sha256 chunkSize rounds task plan) g := by
    intro plan g hplan hg hplanned
    refine Obeys.mono (runs_pushTo hpush hchunk hplan hg hplanned) ?_
    exact fun _ _ h u hu => .inr (h u hu)
  have hdest : destination task = task.destination.toTextLossy := by simp [destination,hpush]
  refine runs_perform trivial fun b g₁ hmeta _ => ?_
  obtain ⟨rfl,-⟩ := hmeta
  cases b with
  | error e => rintro _ ⟨⟩
  | ok sourceLen =>
  refine runs_perform trivial fun b g₂ hstat _ => ?_
  cases b with
  | error e =>
    cases hstat
    exact hto (fun _ => hdest.symm) hg (.inl ⟨rfl,rfl⟩)
  | ok size =>
  obtain ⟨⟨k,hsize⟩,rfl⟩ := hstat
  have hbegun : PushBegun task w { g₁ with sized := task.destination.toTextLossy::g₁.sized } :=
    ⟨hg.here,hg.there,hg.bytesDone,hg.bytesTotal⟩
  dsimp only
  split
  · exact runs_skip size _
  · rename_i hmode
    split
    · refine hto (fun _ => hdest.symm) hbegun (planned_update ?_ (hg.there ▸ hsize))
      simpa [writing,reading,hpush,hdest] using hresume hmode
    · exact hto (fun _ => hdest.symm) hbegun (.inl ⟨rfl,rfl⟩)
  · rename_i hmode
    refine bind (runs_pickRename (PushBegun task w) (fun _ => True) (fun _ => True)
      (fun _ _ => trivial) ?_ _ _ (fun _ => trivial) hbegun) ?_
    · intro p g b g' hg hdoes _
      cases b with
      | error e =>
        cases hdoes
        exact ⟨hg,trivial⟩
      | ok n =>
        obtain ⟨-,rfl⟩ := hdoes
        exact ⟨⟨hg.here,hg.there,hg.bytesDone,hg.bytesTotal⟩,trivial⟩
    · rintro g p ⟨hg,-⟩
      exact hto (fun hne => (hne hmode).elim) hg (.inl ⟨rfl,rfl⟩)
  · exact hto (fun _ => hdest.symm) hbegun (.inl ⟨rfl,rfl⟩)

end

/-- Before a pull opens anything; directories may have been made. -/
structure PullBegun (task : Task) (w g : World) : Prop where
  there : g.there = w.there
  fileAt : ∀ p, g.here.fileAt p = w.here.fileAt p
  contents : g.here.contents = w.here.contents
  bytesDone : g.cell.bytesDone = 0
  bytesTotal : ∀ p ∈ g.sized, ∀ data, w.there.read p = some data → g.cell.bytesTotal = .ofNat data.length

section

structure Pulling (task : Task) (w : World) (plan : Plan) (src dst : ℕ) (done : UInt64)
    (total : List Path → UInt64 → Prop) (offset : ℕ) (g : World) : Prop where
  there : g.there = w.there
  source : ∃ h, g.handles src = some h ∧ h.file = w.there.fileAt task.source
  dest : ∃ h, g.handles dst = some h ∧ Buffered g.here plan.dest h (w.there.read task.source) offset
  apart : src ≠ dst
  target : g.target = some plan.dest
  bytesDone : g.cell.bytesDone = done+.ofNat offset
  bytesTotal : total g.sized g.cell.bytesTotal

/-- The source of a pull is opened. -/
theorem Pulling.opening (hthere : g.there = w.there)
    (hdst : ∃ h, g.handles dst = some h ∧ Buffered g.here plan.dest h (w.there.read task.source) plan.offset)
    (hnext : dst < g.next) (htarget : g.target = some plan.dest) (hdone : g.cell.bytesDone = done+.ofNat plan.offset)
    (htotal : total g.sized g.cell.bytesTotal) :
    Pulling task w plan g.next dst done total plan.offset
      (World.opening { g with sourceOpen := true } (g.there.fileAt task.source)) := by
  obtain ⟨h,hh,hbuffered⟩ := hdst
  exact
    { there := hthere
      source := ⟨_,opening_handles_self _ _,by rw [hthere]⟩
      dest := ⟨h,(opening_handles_of_ne _ _ hnext.ne).trans hh,hbuffered⟩
      apart := hnext.ne'
      target := htarget
      bytesDone := hdone
      bytesTotal := htotal }

/-- The source has been read to its end. -/
def Fetched (task : Task) (w : World) (plan : Plan) (src dst : ℕ) (done : UInt64) (total : List Path → UInt64 → Prop)
    (g : World) : Prop :=
  ∃ offset n, Pulling task w plan src dst done total offset g ∧ w.there.fileAt task.source = some n ∧
    (w.there.contents n).length ≤ offset

variable (hpull : task.direction = .pull) (hwant : chunkSize%2^32 ≠ 0)
  (hplan : task.overwrite ≠ .rename → plan.dest = destination task)

include hwant in
theorem runs_pullLoop {src : ℕ} (left : ℕ) (hg : Pulling task w plan src dst done total offset g) :
    Brings ok (Fetched task w plan src dst done total) (pullLoop chunkSize rounds src dst left offset) g := by
  refine runs_chunkLoop (I:=Pulling task w plan src dst done total) ?_ left hg
  rintro offset bytes g _ hg ⟨h,n,k,hh,hn,hbytes,rfl⟩
  obtain ⟨hs,hsrc,hfile⟩ := hg.source
  obtain rfl := some.inj (hsrc.symm.trans hh)
  rw [hg.there] at hbytes
  refine ⟨?_,?_⟩
  · intro hnil
    have hend := length_le_of_read_nil (Nat.pos_of_ne_zero hwant) (hbytes.symm.trans hnil)
    exact ⟨offset,n,⟨hg.there,hg.source,hg.dest,hg.apart,hg.target,hg.bytesDone,hg.bytesTotal⟩,hfile.symm.trans hn,hend⟩
  · intro g₂ hwrite
    have hcoming := coming_of_read (hfile.symm.trans hn) offset (min (want chunkSize) (k+1))
    rw [← hbytes] at hcoming
    obtain ⟨hd,hdst,hbuffered⟩ := hg.dest
    obtain ⟨hd',m,hdst',rfl⟩ := hwrite
    obtain rfl := some.inj (hdst.symm.trans hdst')
    have hpart := (hbuffered.settle.extend (hcoming.take m)).settle.extend (hcoming.drop m)
    have hlength : offset+(bytes.take m).length+(bytes.drop m).length = offset+bytes.length := by
      simp only [length_take,length_drop]
      omega
    rw [hlength] at hpart
    refine ⟨hg.there,?_,⟨_,update_self _ _ _,hpart⟩,hg.apart,hg.target,?_,hg.bytesTotal⟩
    · exact ⟨hs,(update_of_ne hg.apart _ _).trans hsrc,hfile⟩
    · show g.cell.bytesDone+.ofNat bytes.length = _
      rw [hg.bytesDone,UInt64.ofNat_add,UInt64.add_assoc]

include hpull in
/-- What is fetched is at the destination once it is written out. -/
theorem Fetched.copied {src : ℕ} {g₁ g₂ : World} (h : Fetched task w plan src dst done total g)
    (hclose : Does g (.close src) (.ok ()) g₁) (hflush : Does g₁ (.flush dst) (.ok ()) g₂) :
    ∃ data, Copied task w plan done total data g₂ := by
  obtain ⟨offset,n,hpulling,hn,hend⟩ := h
  obtain ⟨h,hdst,hbuffered⟩ := hpulling.dest
  have hopen : g₁.handles dst = some h ∧ ∃ handles, g₁ = { g with handles := handles } := by
    obtain rfl | rfl := hclose
    · exact ⟨hdst,_,rfl⟩
    · exact ⟨(update_of_ne hpulling.apart.symm _ _).trans hdst,_,rfl⟩
  obtain ⟨hdst₁,handles,rfl⟩ := hopen
  obtain ⟨h',hdst₂,rfl⟩ := hflush
  obtain rfl := some.inj (hdst₁.symm.trans hdst₂)
  have hread : w.there.read task.source = some (w.there.contents n) := by simp [Files.read,hn]
  obtain ⟨m,hm,hfile,hheld⟩ := hbuffered.settle
  obtain ⟨-,hcontents,hle⟩ := hheld _ hread
  obtain rfl : offset = (w.there.contents n).length := le_antisymm hle hend
  refine ⟨w.there.contents n,?_,?_,?_,hpulling.target,hpulling.bytesDone,hpulling.bytesTotal⟩
  · simpa [reading,hpull,keep] using hpulling.there
  · simpa [reading,hpull] using hread
  · simpa [writing,hpull,keep,Files.read,hfile,Handle.settled] using hcontents

include hpull hplan in
theorem runs_pullFinish {src : ℕ} (hg : ∀ u, outcome = .ok u → Fetched task w plan src dst 0
      (fun sized t => ∀ p ∈ sized, ∀ data, w.there.read p = some data → t = .ofNat data.length) g) :
    Brings ok (Arrived task w) (pullFinish sha256 chunkSize rounds task plan src dst outcome) g := by
  cases outcome with
  | error e =>
    refine runs_perform trivial fun b g₁ _ _ => ?_
    split
    · refine runs_perform trivial fun b g₂ _ _ => ?_
      refine runs_perform trivial fun b g₃ _ _ => ?_
      intro u hu
      cases hu
    · exact nofun
  | ok u =>
    refine runs_try (fun _ => ⟨_,rfl⟩) fun _ g₁ hclose => ?_
    refine runs_try (fun _ => ⟨_,rfl⟩) fun _ g₂ hflush => ?_
    obtain ⟨data,hcopied⟩ := (hg u rfl).copied hpull hclose hflush
    have harrived : Arrived task w g₂ := by
      refine hcopied.arrived hplan fun hsized => hcopied.bytesTotal _ (hsized hpull) data ?_
      simpa [reading,hpull] using hcopied.source
    dsimp only
    split
    · refine Obeys.mono (runs_reads (only_verifyPaths _ _ _ _ _) fun _ _ => trivial) ?_
      exact fun g₃ _ hverify _ _ => harrived.same hverify
    · exact fun _ _ => harrived

include hpull hwant hplan in
theorem runs_pullOpened (hthere : g.there = w.there)
    (hdst : ∃ h, g.handles dst = some h ∧ Buffered g.here plan.dest h (w.there.read task.source) plan.offset)
    (hnext : dst < g.next) (htarget : g.target = some plan.dest) (hdone : g.cell.bytesDone = .ofNat plan.offset)
    (htotal : ∀ p ∈ g.sized, ∀ data, w.there.read p = some data → g.cell.bytesTotal = .ofNat data.length) :
    Brings ok (Arrived task w) (pullOpened sha256 chunkSize rounds task plan task.source dst) g := by
  refine runs_try (fun _ => ⟨_,rfl⟩) fun src g₁ hopen => ?_
  obtain ⟨rfl,rfl⟩ := does_openRemote_read hopen
  have hpulling : Pulling task w plan g.next dst 0
      (fun sized t => ∀ p ∈ sized, ∀ data, w.there.read p = some data → t = .ofNat data.length) plan.offset _ :=
    .opening hthere hdst hnext htarget (hdone.trans (UInt64.zero_add _).symm) htotal
  exact bind (runs_pullLoop hwant rounds hpulling) fun _ _ => runs_pullFinish hpull hplan

include hpull hwant hplan in
theorem runs_pullTo (hg : PullBegun task w g) (hplanned : Planned g.here plan (w.there.read task.source)) :
    Brings ok (Arrived task w) (pullTo sha256 chunkSize rounds task plan task.source) g := by
  refine runs_try (fun _ => ⟨_,rfl⟩) fun dst g₁ hopen => ?_
  obtain ⟨rfl,file,fs,hfs,rfl⟩ := hopen
  obtain ⟨n,rfl,hheld⟩ := openAt_planned hplanned hfs
  dsimp only
  split
  · rename_i hmode
    refine runs_try (fun _ => ⟨_,rfl⟩) fun _ g₂ hseek => ?_
    obtain ⟨h,hh,rfl⟩ := hseek
    obtain rfl := some.inj ((World.opening_handles_self _ _).symm.trans hh)
    refine runs_perform trivial fun _ g₃ hadd _ => ?_
    cases hadd
    refine runs_pullOpened hpull hwant hplan hg.there ⟨_,update_self _ _ _,hheld.buffered⟩
      (Nat.lt_succ_self _) ?_ ?_ hg.bytesTotal
    · simp [World.keep,World.opening,hmode]
    · show g.cell.bytesDone+.ofNat plan.offset = _
      rw [hg.bytesDone,UInt64.zero_add]
  · rename_i hmode
    obtain ⟨hcreate,hoffset⟩ := hplanned.resolve_right fun h => hmode h.1
    rw [hoffset] at hheld
    refine runs_pullOpened hpull hwant hplan hg.there ⟨_,World.opening_handles_self _ _,?_⟩
      (Nat.lt_succ_self _) ?_ ?_ hg.bytesTotal
    · rw [hoffset]
      exact hheld.buffered
    · simp [World.opening,hcreate]
    · rw [hoffset]
      exact hg.bytesDone

include hpull hwant in
theorem runs_pull (hresume : Resumable task w) (hg : PullBegun task w g) :
    Brings ok (SkippedOrArrived task w) (pull sha256 chunkSize rounds task) g := by
  have hto : ∀ {plan : Plan} {g : World}, (task.overwrite ≠ .rename → plan.dest = destination task) →
      PullBegun task w g → Planned g.here plan (w.there.read task.source) →
      Brings ok (SkippedOrArrived task w) (pullTo sha256 chunkSize rounds task plan task.source) g := by
    intro plan g hplan hg hplanned
    refine Obeys.mono (runs_pullTo hpull hwant hplan hg hplanned) ?_
    exact fun _ _ h u hu => .inr (h u hu)
  have hdest : destination task = task.destination := by simp [destination,hpull]
  have hparent : Runs (fun _ => True) ok (fun g _ => PullBegun task w g) (ensureParent task.destination) g := by
    unfold ensureParent
    split
    · refine runs_perform trivial fun b g₁ hdirs _ => ?_
      obtain rfl | ⟨q,-,rfl⟩ := hdirs
      · exact hg
      · exact ⟨hg.there,fun p => Files.fileAt_addDirs.trans (hg.fileAt p),hg.contents,hg.bytesDone,
          hg.bytesTotal⟩
    · exact hg
  refine bind hparent fun g₁ _ hg₁ => ?_
  refine runs_perform trivial fun existing g₂ hmeta _ => ?_
  obtain ⟨rfl,hsize⟩ := hmeta
  split
  · rintro _ ⟨⟩
  rename_i source hsource
  obtain rfl := Path.toText_eq hsource
  unfold pullFrom
  cases existing with
  | error e => exact hto (fun _ => hdest.symm) hg₁ (.inl ⟨rfl,rfl⟩)
  | ok size =>
    dsimp only
    split
    · exact runs_skip size _
    · rename_i hmode
      refine runs_perform trivial fun total g₃ htotal _ => ?_
      obtain ⟨-,rfl⟩ := htotal
      split
      · obtain ⟨k,hsize⟩ := hsize size rfl
        refine hto (fun _ => hdest.symm) hg₁ (planned_update ?_ hsize)
        intro old data hold hdata
        refine hresume hmode old data ?_ (by simpa [reading,hpull] using hdata)
        simpa [writing,hpull,hdest,Files.read,hg₁.fileAt,hg₁.contents] using hold
      · exact hto (fun _ => hdest.symm) hg₁ (.inl ⟨rfl,rfl⟩)
    · rename_i hmode
      refine bind (runs_pickRename (PullBegun task w) (fun _ => True) (fun _ => True)
        (fun _ _ => trivial) ?_ _ _ (fun _ => trivial) hg₁) ?_
      · intro p g b g' hg hdoes _
        obtain ⟨rfl,-⟩ := hdoes
        exact ⟨hg,by cases b <;> trivial⟩
      · rintro g p ⟨hg,-⟩
        exact hto (fun hne => (hne hmode).elim) hg (.inl ⟨rfl,rfl⟩)
    · exact hto (fun _ => hdest.symm) hg₁ (.inl ⟨rfl,rfl⟩)

end

section

variable {result : Outcome}

/-- The worker's last look at the state does not find a job it has skipped Running again. -/
def SkipStands : Cond
  | w, _, .state, s, _ => w.marked = some .skipped → s ≠ .running
  | _, _, _, _, _ => true

/-- What is known of the job when the transfer itself begins. -/
def Begun (task : Task) (w g : World) : Prop :=
  match task.direction with
  | .push => PushBegun task w g
  | .pull => PullBegun task w g

theorem runs_transfer (hchunk : 0 < chunkSize) (hwant : task.direction = .pull → chunkSize%2^32 ≠ 0)
    (hresume : Resumable task w) (hg : Begun task w g)
    (hmarked : g.marked ≠ some .completed) :
    Runs (fun _ => True) SkipStands (fun g r => (∀ u, r = .ok u → g.marked = some .skipped ∨ Arrived task w g) ∧
      g.marked ≠ some .completed) (transfer sha256 chunkSize rounds task) g := by
  refine Obeys.and ?_ (runs_bodily (only_transfer _ _ _ _) (P:=fun m => m ≠ some .completed) (by simp) hmarked)
  cases hd : task.direction with
  | push =>
    simp only [Begun,hd] at hg
    simp only [transfer,hd]
    exact runs_push hd hchunk hresume hg
  | pull =>
    simp only [Begun,hd] at hg
    simp only [transfer,hd]
    exact runs_pull hd (hwant hd) hresume hg

/-- The size that progress is reported against. -/
theorem runs_totalSize (hhere : g.here = w.here) (hthere : g.there = w.there)
    (hdone : g.cell.bytesDone = 0) (hsized : g.sized = []) (hmarked : g.marked ≠ some .completed) :
    Runs (fun _ => True) SkipStands (fun g r => g.marked ≠ some .completed ∧ ∀ n, r = .ok n →
      Begun task w { g with cell := { g.cell with bytesTotal := .ofNat n } })
      (totalSize task) g := by
  unfold totalSize Begun
  cases hd : task.direction with
  | push =>
    refine runs_perform trivial fun b g₁ hmeta _ => ?_
    obtain ⟨rfl,hsize⟩ := hmeta
    cases b with
    | error e => exact ⟨hmarked,by rintro n hn; cases hn⟩
    | ok len =>
      refine ⟨hmarked,?_⟩
      rintro n hn
      cases hn
      refine ⟨hhere,hthere,hdone,?_⟩
      intro data hdata
      obtain ⟨k,hsize⟩ := hsize len rfl
      rw [hhere] at hsize
      rw [sizeAt_read hdata hsize]
  | pull =>
    have hlearnt : ∀ p k size, sizeAt g.there p k = some size → PullBegun task w
        { g with sized := p::g.sized, cell := { g.cell with bytesTotal := .ofNat size } } := by
      intro p k size hsize
      refine ⟨hthere,fun _ => by rw [← hhere],by rw [← hhere],hdone,?_⟩
      intro q hq data hdata
      obtain rfl : q = p := by simpa [hsized] using hq
      rw [hthere] at hsize
      rw [sizeAt_read hdata hsize]
    refine runs_perform trivial fun b g₁ hstat _ => ?_
    cases b with
    | ok size =>
      obtain ⟨⟨k,hsize⟩,rfl⟩ := hstat
      refine ⟨hmarked,?_⟩
      rintro n hn
      cases hn
      exact hlearnt _ k size hsize
    | error e =>
      cases hstat
      refine runs_perform trivial fun _ g₂ hsleep _ => ?_
      cases hsleep
      refine runs_perform trivial fun b g₃ hstat _ => ?_
      cases b with
      | ok size =>
        obtain ⟨⟨k,hsize⟩,rfl⟩ := hstat
        refine ⟨hmarked,?_⟩
        rintro n hn
        cases hn
        exact hlearnt _ k size hsize
      | error e =>
        cases hstat
        refine ⟨hmarked,?_⟩
        intro n _
        exact ⟨hthere,fun _ => by rw [← hhere],by rw [← hhere],hdone,by simp [hsized]⟩

theorem runs_conclude (hg : ∀ u, result = .ok u → g.marked = some .skipped ∨ Arrived task w g)
    (hmarked : g.marked ≠ some .completed) :
    Runs (fun _ => True) SkipStands (fun g _ => g.marked = some .completed → Arrived task w g) (conclude result) g := by
  refine runs_perform trivial fun cancelled g₁ hflag _ => ?_
  cases hflag
  split
  · exact runs_end trivial fun _ => nofun
  cases result with
  | error e => exact runs_end trivial fun _ => nofun
  | ok u =>
    refine runs_perform trivial fun s g₂ hstate hstands => ?_
    cases hstate
    split
    · rename_i hrunning
      obtain hskipped | harrived := hg u rfl
      · exact (of_decide_eq_true hstands hskipped hrunning).elim
      · refine runs_perform trivial fun _ g₃ hset _ => ?_
        cases hset
        exact fun _ => harrived
    · exact fun hcompleted => (hmarked hcompleted).elim

theorem runs_run (hw : Fresh w) (hchunk : 0 < chunkSize) (hwant : task.direction = .pull → chunkSize%2^32 ≠ 0)
    (hresume : Resumable task w) :
    Runs (fun _ => True) SkipStands (fun g _ => g.marked = some .completed → Arrived task w g)
      (run sha256 chunkSize rounds task) (view w) := by
  refine runs_perform trivial fun cancelled g₁ hflag _ => ?_
  cases hflag
  split
  · exact runs_end trivial fun _ => nofun
  have hmark : Runs (fun _ => True) SkipStands
      (fun g _ => ∃ marked, g = { view w with marked := marked } ∧ marked ≠ some .completed)
      markRunning (view w) := by
    refine runs_perform trivial fun s g₁ hstate _ => ?_
    cases hstate
    split
    · exact ⟨w.marked,rfl,by simp [hw.marked]⟩
    · refine ⟨trivial,fun _ g₂ hset => ?_⟩
      cases hset.1
      exact ⟨_,rfl,by simp⟩
  refine bind hmark ?_
  rintro g _ ⟨marked,rfl,hmarked⟩
  refine runs_perform trivial fun _ g₁ hstarted _ => ?_
  cases hstarted
  refine bind (runs_totalSize (w:=w) rfl rfl hw.bytesDone hw.sized hmarked) ?_
  rintro g₂ r ⟨hmarked₂,htotal⟩
  cases r with
  | error e => exact runs_end trivial fun _ => nofun
  | ok total =>
    refine runs_perform trivial fun _ g₃ hset _ => ?_
    cases hset
    refine bind (runs_transfer hchunk hwant hresume (htotal total rfl) hmarked₂) ?_
    exact fun g r h => runs_conclude h.1 h.2

/-- A job that the worker leaves Completed has its source at the destination, byte for
byte, and the counters say so. -/
theorem completed_holds_source (hw : Fresh w) (hchunk : 0 < chunkSize)
    (hwant : task.direction = .pull → chunkSize%2^32 ≠ 0)
    (hresume : task.overwrite = .resume → ∀ old data, (writing task.direction w).read (destination task) = some old →
      (reading task.direction w).read task.source = some data → old <+: data)
    {es : List (Event Choice Req)} {c : Config Act World Req Outcome}
    (hm : Meets (service sha256 chunkSize rounds task).step (Within sha256 chunkSize rounds task SkipStands)
      ⟨w,fun _ => none⟩ es)
    (hexec : exec (service sha256 chunkSize rounds task).step ⟨w,fun _ => none⟩ es = some c)
    {t : ℕ} {r : Outcome} (ht : c.threads t = some (.work,.ret r)) (hstate : c.shared.cell.state = .completed) :
    Arrived task w c.shared := by
  have hsolo := exec_runs (fun _ _ a _ _ h => by cases a <;> exact h) hw.started (runs_run hw hchunk hwant hresume) hm hexec
  have hmarked : c.shared.marked = some .completed :=
    exec_settled hw.settled hexec _ hstate (by simp) (by simp) (by simp)
  exact hsolo.obeys t .work _ ht rfl hmarked

end

/-- `/b` of the device to `/c`. -/
def fetch : Task := ⟨.pull,[[98]],[[99]],.off,.always⟩

/-- `/a` of the computer to `/b`, which exists. -/
def send : Task := ⟨.push,[[97]],[[98]],.off,.always⟩

/-- `/a` of the computer to `/b`, if there is nothing. -/
def keep : Task := ⟨.push,[[97]],[[98]],.off,.skipExisting⟩

/-- A pause looks at the state before the worker stores Skipped and stores its own after that, and a
resume follows. -/
def raced : List (Event Choice Req) :=
  steps 10++.start 1 .pause::.act 1 (calm 0)::.act 1 (calm 0)::.act 0 (calm 0)::.act 1 (calm 0)::.reply 1::
    .start 1 .resume::(List.replicate 3 (.act 1 (calm 0))++.reply 1::List.replicate 3 (.act 0 (calm 0)))

/-- A chunk size of 4 GiB is zero to the device, so a pull is over before its first byte; and a job that
is skipped over an older file is Completed if a pause and a resume come in between. -/
theorem completed_without_bytes : (0 < 2^32 ∧
    ∃ es c, exec (service (fun _ => "") (2^32) 1 fetch).step ⟨opening [] [1,2,3],fun _ => none⟩ es = some c ∧
      c.threads 0 = some (.work,.ret (.ok ())) ∧ c.shared.cell.state = .completed ∧
      ¬ Arrived fetch (opening [] [1,2,3]) c.shared) ∧
    ∃ c, exec (service (fun _ => "") 2 4 keep).step ⟨opening [1,2,3] [7],fun _ => none⟩ raced = some c ∧
      c.threads 0 = some (.work,.ret (.ok ())) ∧ c.shared.cell.state = .completed ∧
      c.shared.there.read [[98]] = some [7] ∧ ¬ Arrived keep (opening [1,2,3] [7]) c.shared := by
  refine ⟨⟨by decide,steps 19,_,rfl,rfl,rfl,?_⟩,_,rfl,rfl,rfl,rfl,?_⟩
  · rintro ⟨data,p,hsource,hp,-,hwritten,-⟩
    cases hsource
    cases hp
    cases hwritten
  · rintro ⟨data,p,hsource,hp,-⟩
    cases hp

/-- A push of three bytes over five others, a byte at a time, with a pause in between. -/
theorem completed_holds_source_pushed :
    ∃ es c, exec (service (fun _ => "") 2 4 send).step ⟨opening [1,2,3] [7,7,7,7,7],fun _ => none⟩ es = some c ∧
      Arrived send (opening [1,2,3] [7,7,7,7,7]) c.shared := by
  let aside (q : Req) : List (Event Choice Req) := .start 1 q::List.replicate 3 (.act 1 (calm 0))++[.reply 1]
  let es := steps 17++aside .pause++List.replicate 4 (.act 0 (calm 0))++aside .resume++
    List.replicate 21 (.act 0 (calm 0))
  obtain ⟨c,hc⟩ : ∃ c, exec (service (fun _ => "") 2 4 send).step
      ⟨opening [1,2,3] [7,7,7,7,7],fun _ => none⟩ es = some c := ⟨_,rfl⟩
  exact ⟨es,c,hc,completed_holds_source (fresh_opening _ _) (by decide) (by decide) (by simp [send])
    (meets_within (by decide +kernel)) hc (t:=0) (by cases hc; rfl) (by cases hc; rfl)⟩

end AdbShare.Completed

import AdbShare.Files
import AdbShare.Solo
import AdbShare.Worker

/-! A transfer: the worker's program on the files of the computer and of the device, while
others pause, resume or cancel the job. Nobody else writes to the files. -/
namespace AdbShare.Transfer

open Prog Service JobQueue Transition Function Option
open Worker (OpenMode Task Outcome)

/-- An open file. What is written to a local one may stay in the program for a while. -/
structure Handle where
  /-- A directory can be opened but not read. -/
  file : Option ℕ
  pos : ℕ
  pending : Bytes

namespace Handle

variable (h : Handle)

/-- The files once the pending bytes are written. -/
def settle (fs : Files) : Files :=
  match h.file with
  | some n => if h.pending = [] then fs else fs.write n h.pos h.pending
  | none => fs

theorem settle_of_nil {h : Handle} (hnil : h.pending = []) (fs : Files) : h.settle fs = fs := by
  unfold settle
  split
  · exact if_pos hnil
  · rfl

def settled : Handle := { h with pos := h.pos+h.pending.length, pending := [] }

end Handle

def openAt (fs : Files) (p : Path) : OpenMode → Option (Option ℕ × Files)
  | .read => (fs.openRead p).map fun file => (file,fs)
  | .update => (fs.openWrite p false).map fun nf => (some nf.1,nf.2)
  | .create => (fs.openWrite p true).map fun nf => (some nf.1,nf.2)

/-- The length of what a name leads to; that of a directory can be anything. -/
def sizeAt (fs : Files) (p : Path) (n : ℕ) : Option ℕ :=
  match fs.target p with
  | some (.file m) => some (fs.contents m).length
  | some _ => some n
  | none => none

variable {p : Path} {fs : Files} {n k size : ℕ} {data : Bytes} {d : Worker.Direction} {w : World} {β : Type}

theorem sizeAt_file (hn : fs.fileAt p = some n) (h : sizeAt fs p k = some size) : size = (fs.contents n).length := by
  unfold sizeAt at h
  unfold Files.fileAt at hn
  split at hn
  · rename_i m hm
    cases hn
    rw [hm] at h
    exact (some.inj h).symm
  · cases hn

theorem sizeAt_read (hdata : fs.read p = some data) (h : sizeAt fs p k = some size) : size = data.length := by
  obtain ⟨n,hn,rfl⟩ := map_eq_some_iff.mp hdata
  exact sizeAt_file hn h

theorem sizeAt_target (h : sizeAt fs p k = some size) : (fs.target p).isSome := by
  unfold sizeAt at h
  split at h <;> simp_all

/-- The shared fields of the job, both sides' files and the worker's handles. The last five
are notes about what the worker has done, which it does not see. -/
structure World where
  cell : Cell
  here : Files
  there : Files
  handles : ℕ → Option Handle
  next : ℕ
  started : Bool
  /-- The state the worker set last. -/
  marked : Option JobState
  /-- The path it opened last for writing. -/
  target : Option Path
  /-- The paths of the device whose size it has learnt. -/
  sized : List Path
  /-- It has opened a file of the device for reading. -/
  sourceOpen : Bool
  /-- It has read to the end of a file. -/
  ended : Bool

/-- What becomes of a request to the device; a reply can be lost after all is done. -/
inductive Fate
  | done
  | refused (e : ProxyError)
  | lost (e : ProxyError)

/-- What a step leaves open: the clock, a failure of the computer's system, the fate of a
request, and a number for short reads, for what is written before a failure and so on. -/
structure Choice where
  clock : Worker.Clock
  io : Option String
  fate : Fate
  n : ℕ

namespace Choice

variable (x : Choice)

def computer (r : Option (β × World)) (fail : World) : Except String β × World :=
  match x.io, r with
  | none, some (b,w) => (.ok b,w)
  | io, _ => (.error (io.getD "os error"),fail)

def device (r : Option (β × World)) (w : World) : Except ProxyError β × World :=
  match x.fate, r with
  | .done, some (b,w') => (.ok b,w')
  | .done, none => (.error (.status .ioError []),w)
  | .refused e, _ => (.error e,w)
  | .lost e, some (_,w') => (.error e,w')
  | .lost e, none => (.error e,w)

end Choice

namespace World

variable (w : World) {f f' : ℕ} {h : Handle} {w' : World} {b : β}

/-- A new handle. -/
def opening (file : Option ℕ) : World :=
  { w with handles := update w.handles w.next (some ⟨file,0,[]⟩), next := w.next+1 }

def keep (f : ℕ) (h : Handle) (fs : Files) : World :=
  { w with here := fs, handles := update w.handles f (some h) }

/-- A write failed: some of the pending bytes are written, the others lost. -/
def spoil (f n : ℕ) : World :=
  match w.handles f with
  | some h => w.keep f { h with pending := [] } (Handle.settle { h with pending := h.pending.take n } w.here)
  | none => w

theorem opening_handles_self (file : Option ℕ) : (w.opening file).handles w.next = some ⟨file,0,[]⟩ := update_self _ _ _

theorem opening_handles_of_ne (file : Option ℕ) (hf : f ≠ w.next) : (w.opening file).handles f = w.handles f :=
  update_of_ne hf _ _

theorem keep_handles_self (f : ℕ) (h : Handle) (fs : Files) : (w.keep f h fs).handles f = some h := update_self _ _ _

theorem spoil_here (hh : w.handles f = some h) (hnil : h.pending = []) (n : ℕ) : (w.spoil f n).here = w.here := by
  unfold spoil
  rw [hh]
  exact Handle.settle_of_nil (by simp [hnil]) _

/-- New bytes behind the pending ones, of which so many are written at once. -/
def append (f : ℕ) (h : Handle) (data : Bytes) (n : ℕ) : World :=
  let h' := { h.settled with pending := data.take n }
  w.keep f { h'.settled with pending := data.drop n } (h'.settle (h.settle w.here))

/-- The worker's notes. -/
def note : {β : Type} → Worker.Act β → β → World
  | _, .setState s, _ => { w with marked := some s }
  | _, .openLocal p m, .ok _ => { w with target := if m = .read then w.target else some p }
  | _, .openRemote p m, .ok _ =>
    { w with target := if m = .read then w.target else some p, sourceOpen := w.sourceOpen || m = .read }
  | _, .stat p, .ok _ => { w with sized := p::w.sized }
  | _, .read _ _, .ok data => { w with ended := w.ended || data.isEmpty }
  | _, .readAt _ _ _, .ok data => { w with ended := w.ended || data.isEmpty }
  | _, _, _ => w

end World

/-- Offsets are signed on the device. -/
def MAX_OFFSET : ℕ := 2^63

/-- An action of the worker or on the job's fields. -/
def act (x : Choice) (w : World) : {β : Type} → Worker.Act β → Option (β × World)
  | _, .sleep _ => some ((),w)
  | _, .metadata p => some (x.computer ((sizeAt w.here p x.n).map fun n => (n,w)) w)
  | _, .createDirAll p => some (x.computer ((w.here.makeDirs p).map fun fs => ((),{ w with here := fs }))
      { w with here := (w.here.makeDirs (p.take x.n)).getD w.here })
  | _, .openLocal p m => some (x.computer ((openAt w.here p m).map fun nf =>
      (w.next,World.opening { w with here := nf.2 } nf.1)) w)
  | _, .seek f pos => some (x.computer ((w.handles f).map fun h =>
      ((),w.keep f { h.settled with pos := pos } (h.settle w.here))) (w.spoil f x.n))
  | _, .read f max => some (x.computer ((w.handles f).bind fun h => h.file.map fun n =>
      let data := ((w.here.contents n).drop h.pos).take (min max (x.n+1))
      (data,w.keep f { h with pos := h.pos+data.length } w.here)) w)
  | _, .writeAll f data => some (x.computer ((w.handles f).map fun h => ((),w.append f h data x.n))
      (w.spoil f x.n))
  | _, .flush f => some (x.computer ((w.handles f).map fun h => ((),w.keep f h.settled (h.settle w.here)))
      (w.spoil f x.n))
  | _, .removeFile p => some (x.computer ((w.here.unlink p).map fun fs => ((),{ w with here := fs })) w)
  | _, .stat p => some (x.device ((sizeAt w.there p x.n).map fun n => (n,w)) w)
  | _, .openRemote p m => some (x.device ((openAt w.there p m).map fun nf =>
      (w.next,World.opening { w with there := nf.2 } nf.1)) w)
  | _, .readAt f offset len => some (x.device (if len > MAX_RESPONSE ∨ offset ≥ MAX_OFFSET then none
      else (w.handles f).bind fun h => h.file.map fun n =>
        (((w.there.contents n).drop offset).take (min len (x.n+1)),w)) w)
  | _, .writeAt f offset data => some (if data.length+16 > MAX_REQUEST then (.error (.tooLarge (data.length+16)),w)
      else x.device (if offset ≥ MAX_OFFSET then none
        else (w.handles f).bind fun h => h.file.map fun n =>
          let sent := match x.fate with
            | .lost _ => data.take x.n
            | _ => data
          ((),{ w with there := w.there.write n offset sent })) w)
  | _, .close f => some (x.device ((w.handles f).map fun _ =>
      ((),{ w with handles := update w.handles f none })) w)
  | _, .unlink p => some (x.device ((w.there.unlink p).map fun fs => ((),{ w with there := fs })) w)
  | _, .stuck => none
  | _, a => (Worker.fields x.clock w.cell a).map fun bc => (bc.1,{ w with cell := bc.2 })

/-- The worker's actions and those of others on the job. -/
inductive Act : Type → Type
  | mine {β : Type} (a : Worker.Act β) : Act β
  | theirs {β : Type} (a : Worker.Act β) : Act β

inductive Req
  | work | pause | resume | cancel
  deriving DecidableEq

def run : {β : Type} → Act β → Choice → World → Option (β × World)
  | _, .mine a, x, w => (act x w a).map fun bw => (bw.1,bw.2.note a bw.1)
  | _, .theirs a, x, w => act x w a

def done (p : Prog Worker.Act Unit) : Prog Act Outcome := do
  p.embed .theirs
  return .ok ()

section

variable (sha256 : Bytes → String) (chunkSize rounds : ℕ) (task : Task)

def handler : Req → Prog Act Outcome
  | .work => (Worker.run sha256 chunkSize rounds task).embed .mine
  | .pause => done Worker.pause
  | .resume => done Worker.resume
  | .cancel => done (perform .cancel)

/-- The worker is given the job once. -/
def service : Service Act World Choice Req Outcome where
  run := run
  handler := handler sha256 chunkSize rounds task
  arrive := fun q w =>
    match q with
    | .work => if w.started then none else some { w with started := true }
    | _ => some w
  leave := fun _ _ w => w

end

/-- The part of the world that is the worker's own. -/
def view (w : World) : World :=
  { w with
    cell := { Cell.new with bytesDone := w.cell.bytesDone, bytesTotal := w.cell.bytesTotal }
    started := false }

/-- What the worker's actions can do to its view. -/
def Does (g : World) : {β : Type} → Worker.Act β → β → World → Prop
  | _, .setState s, _, g' => g' = { g with marked := some s }
  | _, .bytesTotal, b, g' => b = g.cell.bytesTotal ∧ g' = g
  | _, .setTotal n, _, g' => g' = { g with cell := { g.cell with bytesTotal := .ofNat n } }
  | _, .addBytes n, _, g' => g' = { g with cell := { g.cell with bytesDone := g.cell.bytesDone+.ofNat n } }
  | _, .metadata p, b, g' => g' = g ∧ ∀ n, b = .ok n → ∃ k, sizeAt g.here p k = some n
  | _, .createDirAll p, _, g' => g' = g ∨ ∃ q, q <+: p ∧ g' = { g with here := g.here.addDirs q }
  | _, .openLocal p m, .ok f, g' => f = g.next ∧ ∃ file fs, openAt g.here p m = some (file,fs) ∧
      g' = World.opening { g with here := fs, target := if m = .read then g.target else some p } file
  | _, .openLocal _ _, .error _, g' => g' = g
  | _, .seek f pos, .ok _, g' => ∃ h, g.handles f = some h ∧
      g' = g.keep f { h.settled with pos := pos } (h.settle g.here)
  | _, .seek f _, .error _, g' => ∃ n, g' = g.spoil f n
  | _, .read f max, .ok data, g' => ∃ h n k, g.handles f = some h ∧ h.file = some n ∧
      data = ((g.here.contents n).drop h.pos).take (min max (k+1)) ∧
      g' = { g.keep f { h with pos := h.pos+data.length } g.here with ended := g.ended || data.isEmpty }
  | _, .read _ _, .error _, g' => g' = g
  | _, .writeAll f data, .ok _, g' => ∃ h n, g.handles f = some h ∧ g' = g.append f h data n
  | _, .writeAll f _, .error _, g' => ∃ n, g' = g.spoil f n
  | _, .flush f, .ok _, g' => ∃ h, g.handles f = some h ∧ g' = g.keep f h.settled (h.settle g.here)
  | _, .flush f, .error _, g' => ∃ n, g' = g.spoil f n
  | _, .removeFile p, .ok _, g' => ∃ fs, g.here.unlink p = some fs ∧ g' = { g with here := fs }
  | _, .removeFile _, .error _, g' => g' = g
  | _, .stat p, .ok n, g' => (∃ k, sizeAt g.there p k = some n) ∧ g' = { g with sized := p::g.sized }
  | _, .stat _, .error _, g' => g' = g
  | _, .openRemote p m, .ok f, g' => f = g.next ∧ ∃ file fs, openAt g.there p m = some (file,fs) ∧
      g' = World.opening
        { g with
          there := fs
          target := if m = .read then g.target else some p
          sourceOpen := g.sourceOpen || m = .read } file
  | _, .openRemote p m, .error _, g' => g' = g ∨ ∃ file fs, openAt g.there p m = some (file,fs) ∧
      g' = World.opening { g with there := fs } file
  | _, .readAt f offset len, .ok data, g' => ∃ h n k, g.handles f = some h ∧ h.file = some n ∧
      data = ((g.there.contents n).drop offset).take (min len (k+1)) ∧
      g' = { g with ended := g.ended || data.isEmpty }
  | _, .readAt _ _ _, .error _, g' => g' = g
  | _, .writeAt f offset data, .ok _, g' => ∃ h n, g.handles f = some h ∧ h.file = some n ∧
      g' = { g with there := g.there.write n offset data }
  | _, .writeAt f offset data, .error _, g' => g' = g ∨ ∃ h n k, g.handles f = some h ∧ h.file = some n ∧
      g' = { g with there := g.there.write n offset (data.take k) }
  | _, .close f, _, g' => g' = g ∨ g' = { g with handles := update g.handles f none }
  | _, .unlink p, .ok _, g' => ∃ fs, g.there.unlink p = some fs ∧ g' = { g with there := fs }
  | _, .unlink p, .error _, g' => g' = g ∨ ∃ fs, g.there.unlink p = some fs ∧ g' = { g with there := fs }
  | _, _, _, g' => g' = g

open World

section

variable {α : Type} {x : Choice} {w fail u : World} {v : β} {r : Option (β × World)} {a : Worker.Act β} {o : Option α}
  {f : α → β × World} {sha256 : Bytes → String} {chunkSize rounds : ℕ} {task : Task} {q : Req}

theorem computer_cases {b : Except String β} (h : x.computer r fail = (b,w')) :
    (∃ v, b = .ok v ∧ r = some (v,w')) ∨ ∃ e, b = .error e ∧ w' = fail := by
  unfold Choice.computer at h
  split at h
  · cases h
    exact .inl ⟨_,rfl,rfl⟩
  · cases h
    exact .inr ⟨_,rfl,rfl⟩

theorem device_cases {b : Except ProxyError β} (h : x.device r w = (b,w')) :
    (∃ v, b = .ok v ∧ x.fate = .done ∧ r = some (v,w')) ∨
      ∃ e, b = .error e ∧ (w' = w ∨ ∃ v, x.fate = .lost e ∧ r = some (v,w')) := by
  unfold Choice.device at h
  split at h
  · rename_i hf
    cases h
    exact .inl ⟨_,rfl,hf,rfl⟩
  · cases h
    exact .inr ⟨_,rfl,.inl rfl⟩
  · cases h
    exact .inr ⟨_,rfl,.inl rfl⟩
  · rename_i hf
    cases h
    exact .inr ⟨_,rfl,.inr ⟨_,hf,rfl⟩⟩
  · cases h
    exact .inr ⟨_,rfl,.inl rfl⟩

theorem view_spoil (w : World) (f n : ℕ) : view (w.spoil f n) = (view w).spoil f n := by
  have hhandles : (view w).handles f = w.handles f := rfl
  unfold spoil
  rw [hhandles]
  cases w.handles f <;> rfl

theorem does_mine (hrun : run (.mine a) x w = some (b,w')) : Does (view w) a b (view w') := by
  obtain ⟨⟨b,v⟩,hact,he⟩ := map_eq_some_iff.mp hrun
  obtain ⟨rfl,rfl⟩ := Prod.mk.inj he
  cases a with
  | isCancelled | cancel | isPaused | setPaused | state | setState | setError | markStarted | setTotal
    | addBytes | progress | sleep =>
    cases hact
    rfl
  | bytesTotal =>
    cases hact
    exact ⟨rfl,rfl⟩
  | stuck => cases hact
  | metadata p =>
    obtain ⟨n,rfl,hn⟩ | ⟨e,rfl,rfl⟩ := computer_cases (some.inj hact)
    · obtain ⟨m,hm,hn⟩ := map_eq_some_iff.mp hn
      cases hn
      refine ⟨rfl,?_⟩
      rintro n hn
      cases hn
      exact ⟨x.n,hm⟩
    · exact ⟨rfl,by rintro n hn; cases hn⟩
  | createDirAll p =>
    have hmade : ∀ {q fs}, w.here.makeDirs q = some fs → fs = w.here.addDirs q := by
      intro q fs hq
      unfold Files.makeDirs at hq
      split_ifs at hq
      exact (some.inj hq).symm
    obtain ⟨u,rfl,hr⟩ | ⟨e,rfl,rfl⟩ := computer_cases (some.inj hact)
    · obtain ⟨fs,hfs,he⟩ := map_eq_some_iff.mp hr
      cases he
      obtain rfl := hmade hfs
      exact .inr ⟨p,List.prefix_rfl,rfl⟩
    · cases hfs : w.here.makeDirs (p.take x.n) with
      | none => exact .inl rfl
      | some fs =>
        obtain rfl := hmade hfs
        exact .inr ⟨p.take x.n,List.take_prefix _ _,rfl⟩
  | openLocal p m =>
    obtain ⟨f,rfl,hr⟩ | ⟨e,rfl,rfl⟩ := computer_cases (some.inj hact)
    · obtain ⟨⟨file,fs⟩,hfs,he⟩ := map_eq_some_iff.mp hr
      cases he
      exact ⟨rfl,file,fs,hfs,rfl⟩
    · rfl
  | seek f pos | flush f =>
    obtain ⟨u,rfl,hr⟩ | ⟨e,rfl,rfl⟩ := computer_cases (some.inj hact)
    · obtain ⟨h,hh,he⟩ := map_eq_some_iff.mp hr
      cases he
      exact ⟨h,hh,rfl⟩
    · exact ⟨x.n,view_spoil w f x.n⟩
  | read f max =>
    obtain ⟨data,rfl,hr⟩ | ⟨e,rfl,rfl⟩ := computer_cases (some.inj hact)
    · obtain ⟨h,hh,hr⟩ := bind_eq_some_iff.mp hr
      obtain ⟨n,hn,he⟩ := map_eq_some_iff.mp hr
      cases he
      exact ⟨h,n,x.n,hh,hn,rfl,rfl⟩
    · rfl
  | writeAll f data =>
    obtain ⟨u,rfl,hr⟩ | ⟨e,rfl,rfl⟩ := computer_cases (some.inj hact)
    · obtain ⟨h,hh,he⟩ := map_eq_some_iff.mp hr
      cases he
      exact ⟨h,x.n,hh,rfl⟩
    · exact ⟨x.n,view_spoil w f x.n⟩
  | removeFile p =>
    obtain ⟨u,rfl,hr⟩ | ⟨e,rfl,rfl⟩ := computer_cases (some.inj hact)
    · obtain ⟨fs,hfs,he⟩ := map_eq_some_iff.mp hr
      cases he
      exact ⟨fs,hfs,rfl⟩
    · rfl
  | stat p =>
    obtain ⟨n,rfl,-,hr⟩ | ⟨e,rfl,hv⟩ := device_cases (some.inj hact)
    · obtain ⟨m,hm,he⟩ := map_eq_some_iff.mp hr
      cases he
      exact ⟨⟨x.n,hm⟩,rfl⟩
    · obtain rfl | ⟨u,-,hr⟩ := hv
      · rfl
      · obtain ⟨m,hm,he⟩ := map_eq_some_iff.mp hr
        cases he
        rfl
  | openRemote p m =>
    obtain ⟨f,rfl,-,hr⟩ | ⟨e,rfl,hv⟩ := device_cases (some.inj hact)
    · obtain ⟨⟨file,fs⟩,hfs,he⟩ := map_eq_some_iff.mp hr
      cases he
      exact ⟨rfl,file,fs,hfs,rfl⟩
    · obtain rfl | ⟨u,-,hr⟩ := hv
      · exact .inl rfl
      · obtain ⟨⟨file,fs⟩,hfs,he⟩ := map_eq_some_iff.mp hr
        cases he
        exact .inr ⟨file,fs,hfs,rfl⟩
  | readAt f offset len =>
    obtain ⟨data,rfl,-,hr⟩ | ⟨e,rfl,hv⟩ := device_cases (some.inj hact)
    · split_ifs at hr
      obtain ⟨h,hh,hr⟩ := bind_eq_some_iff.mp hr
      obtain ⟨n,hn,he⟩ := map_eq_some_iff.mp hr
      cases he
      exact ⟨h,n,x.n,hh,hn,rfl,rfl⟩
    · obtain rfl | ⟨u,-,hr⟩ := hv
      · rfl
      split_ifs at hr
      obtain ⟨h,hh,hr⟩ := bind_eq_some_iff.mp hr
      obtain ⟨n,hn,he⟩ := map_eq_some_iff.mp hr
      cases he
      rfl
  | writeAt f offset data =>
    have hsent := some.inj hact
    split at hsent
    · cases hsent
      exact .inl rfl
    obtain ⟨u,rfl,hf,hr⟩ | ⟨e,rfl,hv⟩ := device_cases hsent
    · split_ifs at hr
      obtain ⟨h,hh,hr⟩ := bind_eq_some_iff.mp hr
      obtain ⟨n,hn,he⟩ := map_eq_some_iff.mp hr
      rw [hf] at he
      cases he
      exact ⟨h,n,hh,hn,rfl⟩
    · obtain rfl | ⟨u,hf,hr⟩ := hv
      · exact .inl rfl
      split_ifs at hr
      obtain ⟨h,hh,hr⟩ := bind_eq_some_iff.mp hr
      obtain ⟨n,hn,he⟩ := map_eq_some_iff.mp hr
      rw [hf] at he
      cases he
      exact .inr ⟨h,n,x.n,hh,hn,rfl⟩
  | close f =>
    obtain ⟨u,rfl,-,hr⟩ | ⟨e,rfl,hv⟩ := device_cases (some.inj hact)
    · obtain ⟨h,hh,he⟩ := map_eq_some_iff.mp hr
      cases he
      exact .inr rfl
    · obtain rfl | ⟨u,-,hr⟩ := hv
      · exact .inl rfl
      · obtain ⟨h,hh,he⟩ := map_eq_some_iff.mp hr
        cases he
        exact .inr rfl
  | unlink p =>
    obtain ⟨u,rfl,-,hr⟩ | ⟨e,rfl,hv⟩ := device_cases (some.inj hact)
    · obtain ⟨fs,hfs,he⟩ := map_eq_some_iff.mp hr
      cases he
      exact ⟨fs,hfs,rfl⟩
    · obtain rfl | ⟨u,-,hr⟩ := hv
      · exact .inl rfl
      · obtain ⟨fs,hfs,he⟩ := map_eq_some_iff.mp hr
        cases he
        exact .inr ⟨fs,hfs,rfl⟩

/-- What an action on files leaves alone. -/
def Beside (w u : World) : Prop := u.cell = w.cell ∧ u.started = w.started ∧ u.marked = w.marked

theorem computer_beside {b : Except String β} (h : x.computer r fail = (b,w'))
    (hr : ∀ v u, r = some (v,u) → Beside w u) (hfail : Beside w fail) : Beside w w' := by
  obtain ⟨v,-,hv⟩ | ⟨e,-,rfl⟩ := computer_cases h
  · exact hr v w' hv
  · exact hfail

theorem device_beside {b : Except ProxyError β} (h : x.device r w = (b,w'))
    (hr : ∀ v u, r = some (v,u) → Beside w u) : Beside w w' := by
  obtain ⟨v,-,-,hv⟩ | ⟨e,-,rfl | ⟨v,-,hv⟩⟩ := device_cases h
  · exact hr v w' hv
  · exact ⟨rfl,rfl,rfl⟩
  · exact hr v w' hv

theorem map_beside (hu : o.map f = some (v,u)) (hf : ∀ y, Beside w (f y).2) : Beside w u := by
  obtain ⟨y,-,hy⟩ := map_eq_some_iff.mp hu
  have := hf y
  rwa [hy] at this

theorem beside_spoil (w : World) (f n : ℕ) : Beside w (w.spoil f n) := by
  unfold spoil
  split <;> exact ⟨rfl,rfl,rfl⟩

/-- An action is one on the fields of the job or has nothing to do with them. -/
theorem act_cases (h : act x w a = some (b,w')) :
    (∃ c, Worker.fields x.clock w.cell a = some (b,c) ∧ w' = { w with cell := c }) ∨ a.sets = none ∧ Beside w w' := by
  cases a with
  | isCancelled | cancel | isPaused | setPaused | state | setState | setError | markStarted | setTotal
    | addBytes | progress | bytesTotal =>
    cases h
    exact .inl ⟨_,rfl,rfl⟩
  | stuck => cases h
  | sleep =>
    cases h
    exact .inr ⟨rfl,rfl,rfl,rfl⟩
  | metadata | createDirAll | openLocal | removeFile =>
    exact .inr ⟨rfl,computer_beside (some.inj h) (fun _ _ hu => map_beside hu fun _ => ⟨rfl,rfl,rfl⟩) ⟨rfl,rfl,rfl⟩⟩
  | seek f _ | writeAll f _ | flush f =>
    exact .inr ⟨rfl,computer_beside (some.inj h) (fun _ _ hu => map_beside hu fun _ => ⟨rfl,rfl,rfl⟩)
      (beside_spoil w f x.n)⟩
  | read f max =>
    refine .inr ⟨rfl,computer_beside (some.inj h) ?_ ⟨rfl,rfl,rfl⟩⟩
    intro v u hu
    obtain ⟨h,-,hu⟩ := bind_eq_some_iff.mp hu
    exact map_beside hu fun _ => ⟨rfl,rfl,rfl⟩
  | stat | openRemote | close | unlink =>
    exact .inr ⟨rfl,device_beside (some.inj h) (fun _ _ hu => map_beside hu fun _ => ⟨rfl,rfl,rfl⟩)⟩
  | readAt f offset len =>
    refine .inr ⟨rfl,device_beside (some.inj h) ?_⟩
    intro v u hu
    split_ifs at hu
    obtain ⟨h,-,hu⟩ := bind_eq_some_iff.mp hu
    exact map_beside hu fun _ => ⟨rfl,rfl,rfl⟩
  | writeAt f offset data =>
    have hsent := some.inj h
    split at hsent
    · cases hsent
      exact .inr ⟨rfl,rfl,rfl,rfl⟩
    refine .inr ⟨rfl,device_beside hsent ?_⟩
    intro v u hu
    split_ifs at hu
    obtain ⟨h,-,hu⟩ := bind_eq_some_iff.mp hu
    exact map_beside hu fun _ => ⟨rfl,rfl,rfl⟩

theorem note_beside (a : Worker.Act β) (b : β) : (w.note a b).cell = w.cell ∧ (w.note a b).started = w.started ∧
      (w.note a b).marked = (a.sets <|> w.marked) := by
  cases a with
  | openLocal | openRemote | stat | read | readAt => cases b <;> exact ⟨rfl,rfl,rfl⟩
  | _ => exact ⟨rfl,rfl,rfl⟩

theorem run_started {a : Act β} (h : run a x w = some (b,w')) : w'.started = w.started := by
  have hact : ∀ {a : Worker.Act β} {u}, act x w a = some (b,u) → u.started = w.started := by
    intro a u hu
    obtain ⟨c,-,rfl⟩ | ⟨-,-,hs,-⟩ := act_cases hu
    · rfl
    · exact hs
  cases a with
  | mine a =>
    obtain ⟨⟨b,u⟩,hu,he⟩ := map_eq_some_iff.mp h
    obtain ⟨rfl,rfl⟩ := Prod.mk.inj he
    exact (note_beside a b).2.1.trans (hact hu)
  | theirs a => exact hact h

/-- The actions of the job's `pause`, `resume` and `cancel`. -/
def Control (β : Type) : Worker.Act β → Prop
  | .state | .setPaused _ | .cancel => True
  | .setState s => s = .paused ∨ s = .running
  | _ => False

def Foreign (β : Type) : Act β → Prop
  | .mine _ => False
  | .theirs a => Control β a

theorem run_foreign {a : Act β} (ha : Foreign β a) (h : run a x w = some (b,w')) : view w' = view w := by
  cases a with
  | mine a => exact ha.elim
  | theirs a =>
    cases a with
    | state | setPaused | cancel | setState =>
      cases h
      rfl
    | _ => exact ha.elim

/-- The requests of others come to actions of that kind only. -/
theorem only_handler (hq : q ≠ .work) : (handler sha256 chunkSize rounds task q).Only Foreign := by
  cases q with
  | work => exact (hq rfl).elim
  | pause =>
    refine only_bind ⟨trivial,fun _ => ⟨trivial,?_⟩⟩ fun _ => trivial
    intro s
    cases s with
    | pending | running => exact ⟨.inl rfl,fun _ => trivial⟩
    | _ => trivial
  | resume =>
    refine only_bind ⟨trivial,fun _ => ⟨trivial,?_⟩⟩ fun _ => trivial
    intro s
    cases s with
    | paused => exact ⟨.inr rfl,fun _ => trivial⟩
    | _ => trivial
  | cancel => exact only_bind ⟨trivial,fun _ => trivial⟩ fun _ => trivial

end

/-- A job that has come to an end is as the worker left it. -/
def Settled (w : World) : Prop := ∀ s, w.cell.state = s → s ≠ .pending → s ≠ .running → s ≠ .paused →
  w.marked = some s

/-- A condition on the worker's steps. -/
abbrev Cond := World → (β : Type) → Worker.Act β → β → World → Bool

def permits (ok : Cond) (β : Type) : Act β → World → β → World → Bool
  | .mine a, w, b, w' => ok w β a b w'
  | .theirs _, _, _, _ => true

def own (q : Req) : Bool := q = .work

/-- How the worker's view develops. -/
def Next (ok : Cond) (g : World) (β : Type) : Act β → β → World → Prop
  | .mine a, b, g' => Does g a b g' ∧ ok g β a b g'
  | .theirs _, _, _ => True

/-- What a program of the worker makes of its view, with an invariant all along. -/
def Runs {ρ : Type} (I : World → Prop) (ok : Cond) (post : World → ρ → Prop) (p : Prog Worker.Act ρ)
    (g : World) : Prop :=
  p.Obeys (fun g _ _ => I g) (fun g β a b g' => Does g a b g' ∧ ok g β a b g') post g

variable {I : World → Prop} {ok : Cond} {g g' : World} {fs' : Files}

section

variable {sha256 : Bytes → String} {chunkSize rounds : ℕ} {task : Task} {post : World → Outcome → Prop}
  {es : List (Event Choice Req)} {c : Config Act World Req Outcome} {w : World} {a : Act β} {x : Choice}

theorem undisturbed (hok : ∀ w β a b w', ok w β a b w' → ok (view w) β a b (view w')) :
    Undisturbed (service sha256 chunkSize rounds task) own started view (permits ok)
      (fun g _ _ => I g) (Next ok) post Foreign where
  arrive_own := by
    intro q w w' hq h
    cases q with
    | work =>
      simp only [service] at h
      split_ifs at h with hs
      cases h
      exact ⟨by simpa using hs,rfl,rfl⟩
    | _ => cases hq
  arrive_other := by
    intro q w w' hq h
    cases q with
    | work => cases hq
    | _ =>
      cases h
      exact ⟨rfl,rfl⟩
  handler_other := by
    intro q hq
    refine only_handler ?_
    rintro rfl
    cases hq
  run_started := fun _ _ _ _ _ _ h => run_started h
  run_own := by
    intro β a x w b w' hI hperm h
    cases a with
    | mine a => exact ⟨does_mine h,hok w β a b w' hperm⟩
    | theirs a => trivial
  run_foreign := fun _ _ _ _ _ _ ha h => run_foreign ha h
  leave := fun _ _ _ => ⟨rfl,rfl⟩

/-- The worker's steps meet the condition. -/
def Within (sha256 : Bytes → String) (chunkSize rounds : ℕ) (task : Task) (ok : Cond) :
    Config Act World Req Outcome → Event Choice Req → Prop :=
  Allowed (service sha256 chunkSize rounds task) own (permits ok)

theorem meets_within (h : check (service sha256 chunkSize rounds task).step
      ((service sha256 chunkSize rounds task).allowed own (permits ok)) c es) :
    Meets (service sha256 chunkSize rounds task).step (Within sha256 chunkSize rounds task ok) c es :=
  meets_of_check (fun _ _ => allowed_of_eq_true) h

theorem exec_runs (hok : ∀ w β a b w', ok w β a b w' → ok (view w) β a b (view w'))
    (hw : w.started = false) (hruns : Runs I ok post (Worker.run sha256 chunkSize rounds task) (view w))
    (hm : Meets (service sha256 chunkSize rounds task).step (Within sha256 chunkSize rounds task ok)
      ⟨w,fun _ => none⟩ es) (hexec : exec (service sha256 chunkSize rounds task).step ⟨w,fun _ => none⟩ es = some c) :
    Solo (service sha256 chunkSize rounds task) own started view (fun g _ _ => I g) (Next ok) post Foreign c := by
  refine exec_solo (undisturbed hok) (solo_idle hw ?_) hm hexec
  intro q hq
  cases q with
  | work => exact obeys_embed.mpr hruns
  | _ => cases hq

theorem run_settled (hw : Settled w)
    (ha : ∀ a', a = .theirs a' → Control β a') (h : run a x w = some (b,w')) : Settled w' := by
  have hkeeps : ∀ {a : Worker.Act β} {u : World}, a.sets = none → act x w a = some (b,u) → Settled u := by
    intro a u hset hu
    obtain ⟨c,hc,rfl⟩ | ⟨-,hcell,-,hmarked⟩ := act_cases hu
    · have hstate := Worker.fields_state hc
      rw [hset] at hstate
      exact fun s hs => hw s (hstate.symm.trans hs)
    · intro s hs
      rw [hmarked]
      exact hw s (hcell ▸ hs)
  cases a with
  | mine a =>
    obtain ⟨⟨b,u⟩,hu,he⟩ := map_eq_some_iff.mp h
    obtain ⟨rfl,rfl⟩ := Prod.mk.inj he
    obtain ⟨hcell,-,hmarked⟩ := note_beside a b
    cases hset : a.sets with
    | none =>
      intro s hs
      rw [hmarked,hset]
      exact hkeeps hset hu s (hcell ▸ hs)
    | some new =>
      obtain ⟨c,hc,rfl⟩ | ⟨hnone,-⟩ := act_cases hu
      · have hstate := Worker.fields_state hc
        rw [hset] at hstate
        intro s hs _ _ _
        rw [hcell] at hs
        rw [hmarked,hset]
        exact congrArg some (hstate.symm.trans hs)
      · cases hset.symm.trans hnone
  | theirs a =>
    have hact : act x w a = some (b,w') := h
    cases a with
    | setState s =>
      cases hact
      intro s' hs' _ hrunning hpaused
      obtain rfl : s = s' := hs'
      exact ((ha _ rfl).elim hpaused hrunning).elim
    | _ => exact hkeeps rfl hact

theorem exec_settled (hw : Settled w)
    (hexec : exec (service sha256 chunkSize rounds task).step ⟨w,fun _ => none⟩ es = some c) : Settled c.shared := by
  refine exec_shared_of_only (P:=fun β a => ∀ a', a = .theirs a' → Control β a') ?_ ?_ ?_ ?_ hw hexec
  · intro q
    by_cases hq : q = .work
    · subst hq
      exact only_embed fun _ _ _ h => by cases h
    · refine (only_handler hq).mono ?_
      rintro β a ha a' rfl
      exact ha
  · exact fun _ _ _ _ _ _ hw ha h => run_settled hw ha h
  · intro q w w' hw h
    cases q with
    | work =>
      simp only [service] at h
      split_ifs at h
      cases h
      exact hw
    | _ =>
      cases h
      exact hw
  · exact fun _ _ _ hw => hw

end

section

variable {ρ τ : Type} {a : Worker.Act β} {post : World → τ → Prop} {f : ρ → Prog Worker.Act τ}
  {mid : World → ρ → Prop} {e : String} {s : JobState} {r : τ} {file : Option ℕ} {J : Files → Files → Prop}
  {P : Option JobState → Prop}

theorem Runs.bind {p : Prog Worker.Act ρ}
    (hp : Runs I ok mid p g) (hf : ∀ g' r, mid g' r → Runs I ok post (f r) g') : Runs I ok post (p >>= f) g :=
  Obeys.bind hp hf

theorem runs_perform {a : Worker.Act ρ} (hI : I g)
    (hf : ∀ b g', Does g a b g' → ok g ρ a b g' → Runs I ok post (f b) g') :
    Runs I ok post (perform a >>= f) g :=
  ⟨hI,fun b g' hn => hf b g' hn.1 hn.2⟩

/-- The two stores that end a job. -/
theorem runs_end (hI : I g)
    (hpost : ok g _ (.setState s) () { g with marked := some s } → post { g with marked := some s } r) :
    Runs I ok post (do perform (.setError e); perform (.setState s); return r) g := by
  refine runs_perform hI fun _ g₁ herror _ => ?_
  cases herror
  refine runs_perform hI fun _ g₂ hset hok => ?_
  cases hset
  exact hpost hok

theorem runs_waits {p : Prog Worker.Act ρ} (hp : p.Only Worker.Waits) (hI : I g) :
    Runs I ok (fun g' _ => g' = g) p g := by
  refine hp.obeys ?_ ?_ rfl
  · rintro g' β a rfl -
    exact hI
  · rintro g' β a b g'' rfl ha ⟨hdoes,-⟩
    cases a <;> first | exact hdoes | exact ha.elim

theorem openAt_read (h : openAt fs p .read = some (file,fs')) : file = fs.fileAt p ∧ fs' = fs := by
  obtain ⟨file',hread,he⟩ := map_eq_some_iff.mp h
  obtain ⟨rfl,rfl⟩ := Prod.mk.inj he
  unfold Files.openRead at hread
  split_ifs at hread
  exact ⟨(some.inj hread).symm,rfl⟩

theorem does_openLocal_read {f : ℕ} (h : Does g (.openLocal p .read) (.ok f) g') :
    f = g.next ∧ g' = g.opening (g.here.fileAt p) := by
  obtain ⟨rfl,file,fs,hfs,rfl⟩ := h
  obtain ⟨rfl,rfl⟩ := openAt_read hfs
  exact ⟨rfl,rfl⟩

theorem does_openRemote_read {f : ℕ} (h : Does g (.openRemote p .read) (.ok f) g') :
    f = g.next ∧ g' = opening { g with sourceOpen := true } (g.there.fileAt p) := by
  obtain ⟨rfl,file,fs,hfs,rfl⟩ := h
  obtain ⟨rfl,rfl⟩ := openAt_read hfs
  simp

theorem does_aloof (ha : Worker.Aloof β a) (h : Does g a b g') : g'.here = g.here ∧ g'.there = g.there := by
  cases a with
  | bytesTotal =>
    obtain ⟨-,rfl⟩ := h
    exact ⟨rfl,rfl⟩
  | metadata p =>
    obtain ⟨rfl,-⟩ := h
    exact ⟨rfl,rfl⟩
  | stat p =>
    cases b with
    | error e =>
      cases h
      exact ⟨rfl,rfl⟩
    | ok n =>
      obtain ⟨-,rfl⟩ := h
      exact ⟨rfl,rfl⟩
  | isCancelled | cancel | isPaused | setPaused | state | setState | setError | markStarted | setTotal
    | addBytes | progress | sleep =>
    cases h
    exact ⟨rfl,rfl⟩
  | stuck => exact b.elim
  | _ => exact ha.elim

theorem runs_aloof {p : Prog Worker.Act ρ} (hp : p.Only Worker.Aloof)
    (hJ : ∀ g : World, J g.here g.there → I g) (hg : J g.here g.there) :
    Runs I ok (fun g' _ => J g'.here g'.there) p g := by
  refine hp.obeys (fun g _ _ hg _ => hJ g hg) ?_ hg
  rintro g β a b g' hg ha ⟨hdoes,-⟩
  obtain ⟨hhere,hthere⟩ := does_aloof ha hdoes
  rwa [hhere,hthere]

theorem does_marked (h : Does g a b g') : g'.marked = (a.sets <|> g.marked) := by
  have hspoil : ∀ f n, (g.spoil f n).marked = g.marked := fun f n => (beside_spoil g f n).2.2
  cases a with
  | isCancelled | cancel | isPaused | setPaused | state | setState | setError | markStarted | setTotal
    | addBytes | progress | sleep =>
    cases h
    rfl
  | bytesTotal => exact congrArg marked h.2
  | metadata p => exact congrArg marked h.1
  | createDirAll p =>
    obtain rfl | ⟨q,-,rfl⟩ := h <;> rfl
  | openLocal p m =>
    cases b with
    | error e => exact congrArg marked h
    | ok f =>
      obtain ⟨-,file,fs,-,rfl⟩ := h
      rfl
  | seek f _ | flush f =>
    cases b with
    | error e =>
      obtain ⟨n,rfl⟩ := h
      exact hspoil f n
    | ok _ =>
      obtain ⟨h,-,rfl⟩ := h
      rfl
  | writeAll f _ =>
    cases b with
    | error e =>
      obtain ⟨n,rfl⟩ := h
      exact hspoil f n
    | ok _ =>
      obtain ⟨h,n,-,rfl⟩ := h
      rfl
  | read f max | readAt f offset max =>
    cases b with
    | error e => exact congrArg marked h
    | ok f =>
      obtain ⟨h,n,k,-,-,-,rfl⟩ := h
      rfl
  | removeFile p =>
    cases b with
    | error e => exact congrArg marked h
    | ok f =>
      obtain ⟨fs,-,rfl⟩ := h
      rfl
  | stat p =>
    cases b with
    | error e => exact congrArg marked h
    | ok f =>
      obtain ⟨-,rfl⟩ := h
      rfl
  | openRemote p m =>
    cases b with
    | error e => obtain rfl | ⟨file,fs,-,rfl⟩ := h <;> rfl
    | ok f =>
      obtain ⟨-,file,fs,-,rfl⟩ := h
      rfl
  | writeAt f offset data =>
    cases b with
    | error e => obtain rfl | ⟨h,n,k,-,-,rfl⟩ := h <;> rfl
    | ok f =>
      obtain ⟨h,n,-,-,rfl⟩ := h
      rfl
  | close f => obtain rfl | rfl := h <;> rfl
  | unlink p =>
    cases b with
    | error e => obtain rfl | ⟨fs,-,rfl⟩ := h <;> rfl
    | ok f =>
      obtain ⟨fs,-,rfl⟩ := h
      rfl
  | stuck => exact b.elim

/-- The transfer itself marks the job as nothing but skipped. -/
theorem runs_bodily {p : Prog Worker.Act ρ} (hp : p.Only Worker.Bodily)
    (hskipped : P (some .skipped)) (hg : P g.marked) : Runs (fun _ => True) ok (fun g _ => P g.marked) p g := by
  refine hp.obeys (fun _ _ _ _ _ => trivial) ?_ hg
  rintro g β a b g' hg ha ⟨hdoes,-⟩
  rw [does_marked hdoes]
  cases a with
  | setState s =>
    obtain rfl : s = .skipped := ha
    exact hskipped
  | _ => exact hg

/-- Handles apart, nothing has changed. -/
def Same (g g' : World) : Prop :=
  ∃ handles next sourceOpen ended,
    g' = { g with handles := handles, next := next, sourceOpen := sourceOpen, ended := ended }

theorem same_of_reads (ha : Worker.Reads β a) (h : Does g a b g') : Same g g' := by
  cases a with
  | openLocal p m =>
    obtain rfl : m = .read := ha
    cases b with
    | error e => exact ⟨_,_,_,_,h⟩
    | ok f =>
      obtain ⟨-,rfl⟩ := does_openLocal_read h
      exact ⟨_,_,_,_,rfl⟩
  | openRemote p m =>
    obtain rfl : m = .read := ha
    cases b with
    | error e =>
      obtain rfl | ⟨file,fs,hfs,rfl⟩ := h
      · exact ⟨_,_,_,_,rfl⟩
      · obtain ⟨-,rfl⟩ := openAt_read hfs
        exact ⟨_,_,_,_,rfl⟩
    | ok f =>
      obtain ⟨-,rfl⟩ := does_openRemote_read h
      exact ⟨_,_,_,_,rfl⟩
  | read f max | readAt f offset len =>
    cases b with
    | error e => exact ⟨_,_,_,_,h⟩
    | ok data =>
      obtain ⟨h,n,k,-,-,-,rfl⟩ := h
      exact ⟨_,_,_,_,rfl⟩
  | close f =>
    obtain rfl | rfl := h <;> exact ⟨_,_,_,_,rfl⟩
  | stuck => exact b.elim
  | _ => exact ha.elim

theorem runs_reads {p : Prog Worker.Act ρ} (hp : p.Only Worker.Reads) (hI : ∀ g', Same g g' → I g') :
    Runs I ok (fun g' _ => Same g g') p g := by
  refine hp.obeys ?_ ?_ ⟨_,_,_,_,rfl⟩
  · exact fun g' β a hg' _ => hI g' hg'
  · rintro g' β a b g'' ⟨_,_,_,_,rfl⟩ ha ⟨hdoes,-⟩
    obtain ⟨_,_,_,_,rfl⟩ := same_of_reads ha hdoes
    exact ⟨_,_,_,_,rfl⟩

/-- A name is picked that the probe does not find, or else the fallback. -/
theorem runs_pickRename {ε : Type} {probe : Path → Worker.Act (Except ε ℕ)} {candidate : ℕ → Path}
    {fallback : Path} (J : World → Prop) (free taken : Path → Prop) (hJ : ∀ g, J g → I g)
    (hprobe : ∀ p g b g', J g → Does g (probe p) b g' → ok g _ (probe p) b g' → J g' ∧ match b with
        | .ok _ => taken p
        | .error _ => free p)
    (left n : ℕ) (hroom : (∀ k, n ≤ k → k < n+left → taken (candidate k)) → free fallback) (hg : J g) :
    Runs I ok (fun g' p => J g' ∧ free p) (Worker.pickRename probe candidate fallback left n) g := by
  induction left generalizing n g with
  | zero => exact ⟨hg,hroom fun k hle hlt => by omega⟩
  | succ left ih =>
    refine runs_perform (hJ g hg) fun b g' hdoes hok => ?_
    obtain ⟨hg',hb⟩ := hprobe _ g b g' hg hdoes hok
    cases b with
    | error e => exact ⟨hg',hb⟩
    | ok size =>
      refine ih (n+1) ?_ hg'
      intro htaken
      refine hroom ?_
      intro k hle hlt
      obtain rfl | hgt := Nat.eq_or_lt_of_le hle
      · exact hb
      · exact htaken k hgt (by omega)

end

/-- The side that is read. -/
def reading (d : Worker.Direction) (w : World) : Files :=
  match d with
  | .push => w.here
  | .pull => w.there

/-- The side that is written. -/
def writing (d : Worker.Direction) (w : World) : Files :=
  match d with
  | .push => w.there
  | .pull => w.here

theorem writing_push (hd : d = .push) (w : World) : writing d w = w.there := by rw [hd]; rfl

theorem writing_pull (hd : d = .pull) (w : World) : writing d w = w.here := by rw [hd]; rfl

def destination (task : Task) : Path :=
  match task.direction with
  | .push => task.destination.toTextLossy
  | .pull => task.destination

/-- What a step can do once the destination is open: it changes the file behind the handle
and takes away no name but one that the job made. -/
structure Handled (d : Worker.Direction) (plan : Worker.Plan) (dst : ℕ) (g g' : World) : Prop where
  source : reading d g' = reading d g
  names : (writing d g').names = (writing d g).names ∨
    plan.created = true ∧ (writing d g).unlink plan.dest = some (writing d g')
  contents : ∀ n, (∀ h, g.handles dst = some h → h.file ≠ some n) →
    (writing d g').contents n = (writing d g).contents n
  nextFile : (writing d g').next = (writing d g).next
  handle : dst < g.next → dst < g'.next ∧ ∀ h', g'.handles dst = some h' →
    ∃ h, g.handles dst = some h ∧ h'.file = h.file
  sourceOpen : g.sourceOpen = true → g'.sourceOpen = true
  ended : g.ended = true → g'.ended = true

section

variable {plan : Worker.Plan} {dst f : ℕ} {g'' : World} {sourceOpen ended : Bool} {h h' : Handle} {a : Worker.Act β}

theorem handled_refl (g : World) : Handled d plan dst g g :=
  ⟨rfl,.inl rfl,fun _ _ => rfl,rfl,fun hlt => ⟨hlt,fun h hh => ⟨h,hh,rfl⟩⟩,id,id⟩

/-- Only what is noted has changed. -/
theorem handled_note (hopen : g.sourceOpen → sourceOpen) (hend : g.ended → ended) :
    Handled d plan dst g { g with sourceOpen := sourceOpen, ended := ended } := by
  cases d <;> exact ⟨rfl,.inl rfl,fun _ _ => rfl,rfl,fun hlt => ⟨hlt,fun h hh => ⟨h,hh,rfl⟩⟩,hopen,hend⟩

theorem handled_opening (file : Option ℕ) : Handled d plan dst g (g.opening file) := by
  have hhandle : dst < g.next → dst < (g.opening file).next ∧ ∀ h', (g.opening file).handles dst = some h' →
      ∃ h, g.handles dst = some h ∧ h'.file = h.file :=
    fun hlt => ⟨Nat.lt_succ_of_lt hlt, fun h hh => ⟨h,(opening_handles_of_ne g file hlt.ne).symm.trans hh,rfl⟩⟩
  cases d <;> exact ⟨rfl,.inl rfl,fun _ _ => rfl,rfl,hhandle,id,id⟩

theorem Handled.trans_note (h : Handled d plan dst g g')
    (hg'' : g'' = { g' with sourceOpen := sourceOpen, ended := ended })
    (hopen : g.sourceOpen → sourceOpen) (hend : g.ended → ended) :
    Handled d plan dst g g'' := by
  subst hg''
  cases d <;> exact ⟨h.source,h.names,h.contents,h.nextFile,h.handle,hopen,hend⟩

theorem handled_keep (hh : g.handles f = some h) (hfile : h'.file = h.file)
    (hsource : reading d (g.keep f h' fs) = reading d g)
    (hnames : (writing d (g.keep f h' fs)).names = (writing d g).names)
    (hnext : (writing d (g.keep f h' fs)).next = (writing d g).next)
    (hcontents : ∀ n, (∀ h, g.handles dst = some h → h.file ≠ some n) →
      (writing d (g.keep f h' fs)).contents n = (writing d g).contents n) : Handled d plan dst g (g.keep f h' fs) := by
  refine ⟨hsource,.inl hnames,hcontents,hnext,?_,id,id⟩
  refine fun hlt => ⟨hlt,?_⟩
  intro k hk
  by_cases hf : dst = f
  · subst hf
    obtain rfl := some.inj ((keep_handles_self g dst h' fs).symm.trans hk)
    exact ⟨h,hh,hfile⟩
  · exact ⟨k,(update_of_ne hf ..).symm.trans hk,rfl⟩

theorem settle_names (h : Handle) (fs : Files) : (h.settle fs).names = fs.names := by
  unfold Handle.settle
  split
  · split <;> rfl
  · rfl

theorem settle_next (h : Handle) (fs : Files) : (h.settle fs).next = fs.next := by
  unfold Handle.settle
  split
  · split <;> rfl
  · rfl

theorem settle_contents (hn : h.file ≠ some n) : (h.settle fs).contents n = fs.contents n := by
  unfold Handle.settle
  split
  · rename_i m hm
    split
    · rfl
    · refine update_of_ne ?_ _ _
      rintro rfl
      exact hn hm
  · rfl

theorem handled_spoil (n : ℕ) : Handled .pull plan dst g (g.spoil dst n) := by
  unfold spoil
  split
  · rename_i h hh
    exact handled_keep hh rfl rfl (settle_names _ _) (settle_next _ _) fun m hm => settle_contents (hm h hh)
  · exact handled_refl g

theorem handled_append (hh : g.handles dst = some h) (data : Bytes) (n : ℕ) :
    Handled .pull plan dst g (g.append dst h data n) :=
  handled_keep hh rfl rfl ((settle_names _ _).trans (settle_names _ _)) ((settle_next _ _).trans (settle_next _ _))
    fun _ hm => (settle_contents (h:={ h.settled with pending := data.take n }) (hm h hh)).trans
      (settle_contents (hm h hh))

theorem unlink_next (h : fs.unlink p = some fs') : fs'.next = fs.next ∧ fs'.contents = fs.contents := by
  unfold Files.unlink at h
  split at h
  · cases h
  · cases h
  · cases h
    exact ⟨rfl,rfl⟩

theorem handled_of_handling (ha : Worker.Handling d plan dst β a) (h : Does g a b g') : Handled d plan dst g g' := by
  cases a with
  | isCancelled | isPaused | sleep | progress =>
    cases h
    exact handled_refl g
  | addBytes n =>
    cases h
    cases d <;> exact ⟨rfl,.inl rfl,fun _ _ => rfl,rfl,fun hlt => ⟨hlt,fun h hh => ⟨h,hh,rfl⟩⟩,id,id⟩
  | openLocal p m =>
    obtain rfl : m = .read := ha
    cases b with
    | error e =>
      cases h
      exact handled_refl g
    | ok f =>
      obtain ⟨-,rfl⟩ := does_openLocal_read h
      exact handled_opening _
  | openRemote p m =>
    obtain rfl : m = .read := ha
    cases b with
    | error e =>
      obtain rfl | ⟨file,fs,hfs,rfl⟩ := h
      · exact handled_refl _
      · obtain ⟨-,rfl⟩ := openAt_read hfs
        exact handled_opening _
    | ok f =>
      obtain ⟨-,rfl⟩ := does_openRemote_read h
      exact (handled_opening _).trans_note rfl (fun _ => rfl) id
  | read f max =>
    cases b with
    | error e =>
      cases h
      exact handled_refl g
    | ok data =>
      obtain ⟨k,n,m,hk,-,-,rfl⟩ := h
      have hkept : Handled d plan dst g (g.keep f { k with pos := k.pos+data.length } g.here) := by
        cases d <;> exact handled_keep hk rfl rfl rfl rfl fun _ _ => rfl
      exact hkept.trans_note rfl id fun hend => by simp [hend]
  | readAt f offset len =>
    cases b with
    | error e =>
      cases h
      exact handled_refl g
    | ok data =>
      obtain ⟨k,n,m,-,-,-,rfl⟩ := h
      exact handled_note id fun hend => by simp [hend]
  | close f =>
    obtain rfl | rfl := h
    · exact handled_refl _
    have hhandle : ∀ h', update g.handles f none dst = some h' → ∃ h, g.handles dst = some h ∧ h'.file = h.file := by
      intro h' hh'
      by_cases hf : dst = f
      · simp [hf] at hh'
      · exact ⟨h',by simpa [hf] using hh',rfl⟩
    cases d <;> exact ⟨rfl,.inl rfl,fun _ _ => rfl,rfl,fun hlt => ⟨hlt,hhandle⟩,id,id⟩
  | writeAt f offset data =>
    obtain ⟨rfl,rfl⟩ := ha
    have hwritten : ∀ {k : Handle} {n : ℕ} (bytes : Bytes), g.handles f = some k → k.file = some n →
        Handled .push plan f g { g with there := g.there.write n offset bytes } := by
      intro k n bytes hk hn
      refine ⟨rfl,.inl rfl,?_,rfl,fun hlt => ⟨hlt,fun h hh => ⟨h,hh,rfl⟩⟩,id,id⟩
      intro m hm
      refine update_of_ne ?_ _ _
      rintro rfl
      exact hm k hk hn
    cases b with
    | error e =>
      obtain rfl | ⟨k,n,j,hk,hn,rfl⟩ := h
      · exact handled_refl _
      · exact hwritten _ hk hn
    | ok _ =>
      obtain ⟨k,n,hk,hn,rfl⟩ := h
      exact hwritten _ hk hn
  | unlink p =>
    obtain ⟨rfl,rfl,hcreated⟩ := ha
    have hgone : ∀ {fs}, g.there.unlink plan.dest = some fs → Handled .push plan dst g { g with there := fs } :=
      fun hfs => ⟨rfl,.inr ⟨hcreated,hfs⟩,fun n _ => congrFun (unlink_next hfs).2 n,(unlink_next hfs).1,
        fun hlt => ⟨hlt,fun h hh => ⟨h,hh,rfl⟩⟩,id,id⟩
    cases b with
    | error e =>
      obtain rfl | ⟨fs,hfs,rfl⟩ := h
      · exact handled_refl _
      · exact hgone hfs
    | ok _ =>
      obtain ⟨fs,hfs,rfl⟩ := h
      exact hgone hfs
  | removeFile p =>
    obtain ⟨rfl,rfl,hcreated⟩ := ha
    cases b with
    | error e =>
      cases h
      exact handled_refl g
    | ok _ =>
      obtain ⟨fs,hfs,rfl⟩ := h
      exact ⟨rfl,.inr ⟨hcreated,hfs⟩,fun n _ => congrFun (unlink_next hfs).2 n,(unlink_next hfs).1,
        fun hlt => ⟨hlt,fun h hh => ⟨h,hh,rfl⟩⟩,id,id⟩
  | writeAll f data =>
    obtain ⟨rfl,rfl⟩ := ha
    cases b with
    | error e =>
      obtain ⟨n,rfl⟩ := h
      exact handled_spoil n
    | ok _ =>
      obtain ⟨k,n,hk,rfl⟩ := h
      exact handled_append hk data n
  | flush f | seek f _ =>
    obtain ⟨rfl,rfl⟩ := ha
    cases b with
    | error e =>
      obtain ⟨n,rfl⟩ := h
      exact handled_spoil n
    | ok _ =>
      obtain ⟨k,hk,rfl⟩ := h
      exact handled_keep hk rfl rfl (settle_names _ _) (settle_next _ _) fun m hm => settle_contents (hm k hk)
  | stuck => exact b.elim
  | _ => exact ha.elim

end

/-- The names that a job tries which must not use its destination's. -/
def candidate (task : Task) (k : ℕ) : Path :=
  match task.direction with
  | .push => (Worker.renameCandidate (destination task) k).toTextLossy
  | .pull => Worker.renameCandidate (destination task) k

def fallback (task : Task) : Path :=
  match task.direction with
  | .push => Worker.remoteFallback (destination task)
  | .pull => Worker.localFallback (destination task)

/-- One of the names that are tried is free, or else the one that is not. -/
def Room (task : Task) (fs : Files) : Prop :=
  (∀ k, 1 ≤ k → k ≤ Worker.RENAME_ATTEMPTS → fs.names (candidate task k) ≠ none) →
    fs.names (fallback task) = none

section

variable {task : Task} {here there : Files} {q dir : Path}

theorem runs_pickRemoteRename (hd : task.direction = .push) (hI : ∀ g : World, g.here = here → g.there = there → I g)
    (hok : ∀ (g : World) p e g', ok g _ (.stat p) (.error e) g' → g.there.names p = none)
    (hroom : Room task there) (hhere : g.here = here) (hthere : g.there = there) :
    Runs I ok (fun g p => (g.here = here ∧ g.there = there) ∧ there.names p = none)
      (Worker.pickRemoteRename (destination task)) g := by
  refine runs_pickRename (fun g => g.here = here ∧ g.there = there) (fun p => there.names p = none)
    (fun p => there.names p ≠ none) (fun g hg => hI g hg.1 hg.2) ?_ _ _ ?_ ⟨hhere,hthere⟩
  · rintro p g b g' ⟨hhere,hthere⟩ hdoes hprobe
    cases b with
    | error e =>
      cases hdoes
      exact ⟨⟨hhere,hthere⟩,hthere ▸ hok g p e g hprobe⟩
    | ok n =>
      obtain ⟨⟨k,hsize⟩,rfl⟩ := hdoes
      exact ⟨⟨hhere,hthere⟩,hthere ▸ Files.names_of_target (sizeAt_target hsize)⟩
  · intro htaken
    have hfree := hroom
    simp only [Room,candidate,fallback,hd] at hfree
    exact hfree fun k hle hlt => htaken k hle (by omega)

theorem runs_pickLocalRename (hd : task.direction = .pull) (hI : ∀ g : World, g.here = here → g.there = there → I g)
    (hok : ∀ (g : World) p e g', ok g _ (.metadata p) (.error e) g' → g.here.names p = none)
    (hroom : Room task here) (hhere : g.here = here) (hthere : g.there = there) :
    Runs I ok (fun g p => (g.here = here ∧ g.there = there) ∧ here.names p = none)
      (Worker.pickLocalRename (destination task)) g := by
  refine runs_pickRename (fun g => g.here = here ∧ g.there = there) (fun p => here.names p = none)
    (fun p => here.names p ≠ none) (fun g hg => hI g hg.1 hg.2) ?_ _ _ ?_ ⟨hhere,hthere⟩
  · rintro p g b g' ⟨hhere,hthere⟩ hdoes hprobe
    obtain ⟨rfl,hsize⟩ := hdoes
    refine ⟨⟨hhere,hthere⟩,?_⟩
    cases b with
    | error e => exact hhere ▸ hok _ p e _ hprobe
    | ok n =>
      obtain ⟨k,hsize⟩ := hsize n rfl
      exact hhere ▸ Files.names_of_target (sizeAt_target hsize)
  · intro htaken
    have hfree := hroom
    simp only [Room,candidate,fallback,hd] at hfree
    exact hfree fun k hle hlt => htaken k hle (by omega)

/-- Directories on the way to the destination are none of the names that are tried. -/
theorem room_addDirs (hd : task.direction = .pull)
    (hdir : task.destination.parent = some dir) (hq : q <+: dir) (h : Room task fs) : Room task (fs.addDirs q) := by
  have hshort : q.length < task.destination.length := by
    unfold Path.parent at hdir
    split_ifs at hdir with hne
    cases hdir
    have := hq.length_le
    have := List.length_pos_iff.mpr hne
    rw [List.length_dropLast] at *
    omega
  have hname : ∀ p : Path, task.destination.length ≤ p.length → (fs.addDirs q).names p = fs.names p :=
    fun p hp => Files.names_addDirs_of_length (by omega)
  have hcandidate : ∀ k, task.destination.length ≤ (candidate task k).length := by
    intro k
    simp [candidate,destination,hd,Worker.renameCandidate]
    omega
  have hfallback : task.destination.length ≤ (fallback task).length := by
    simp only [fallback,destination,hd,Worker.localFallback]
    split
    · simp
      omega
    · simp
  intro htaken
  rw [hname _ hfallback]
  exact h fun k hle hlt => hname _ (hcandidate k) ▸ htaken k hle hlt

end

/-- A job that nobody has worked on. -/
structure Fresh (w : World) : Prop where
  started : w.started = false
  marked : w.marked = none
  sized : w.sized = []
  ended : w.ended = false
  sourceOpen : w.sourceOpen = false
  bytesDone : w.cell.bytesDone = 0
  waiting : w.cell.state = .pending ∨ w.cell.state = .paused

theorem Fresh.settled (hw : Fresh w) : Settled w := by
  intro s hs hpending _ hpaused
  obtain h | h := hw.waiting
  · exact (hpending (hs.symm.trans h)).elim
  · exact (hpaused (hs.symm.trans h)).elim

/-- One file beside the root. -/
def single (p : Path) (data : Bytes) : Files where
  names := fun q => if q = [] then some .dir else if q = p then some (.file 0) else none
  contents := fun _ => data
  next := 1
  named := by
    intro q n hq
    split at hq
    · cases hq
    · split_ifs at hq
      cases hq
      exact one_pos

/-- The computer has `/a`, the device has `/b`, and the job is new. -/
def opening (here there : Bytes) : World :=
  ⟨.new,single [[97]] here,single [[98]] there,fun _ => none,0,false,none,none,[],false,false⟩

theorem fresh_opening (here there : Bytes) : Fresh (opening here there) := ⟨rfl,rfl,rfl,rfl,rfl,rfl,.inl rfl⟩

/-- Nothing fails, and reads give so many bytes. -/
def calm (n : ℕ) : Choice := ⟨⟨0,0,0⟩,none,.done,n⟩

/-- The worker takes up the job and goes on for so many steps. -/
def steps (n : ℕ) : List (Event Choice Req) := .start 0 .work::List.replicate n (.act 0 (calm 0))

end AdbShare.Transfer

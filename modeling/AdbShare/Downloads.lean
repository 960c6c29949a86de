import AdbShare.BrowserLoads
import AdbShare.DirEntries
import AdbShare.TextCodes

/-! Saving a selection on a phone to the computer. The folder is chosen later, while the browser goes on. -/
namespace AdbShare.Downloads

open Transition DirEntries Option

structure Pull where
  device : String
  recursive : Bool
  source : PathBuf
  dest : PathBuf
  deriving DecidableEq

/-- An open folder picker. The last three are notes of the selection that nothing reads: the phone that the
browser showed, its directory and the entries. -/
structure Download where
  device : String
  sources : List (Text × PathBuf)
  phone : Option String
  path : PathBuf
  entries : List DirEntry
  deriving DecidableEq

structure State where
  browser : BrowserLoads.State
  entries : List DirEntry
  picking : List Download
  /-- The downloads that were started, each with its folder and its pulls. -/
  started : List (Download × PathBuf × List Pull)
  deriving DecidableEq

def init : State := ⟨BrowserLoads.init,[],[],[]⟩

def inDir (dir : PathBuf) (name : Text) : PathBuf := dir.join (.ofText (TextCodes.utf8 name))

def fullPath (s : State) (entry : DirEntry) : PathBuf := inDir s.browser.path entry.name

def entryNamed (s : State) (name : Text) : Option DirEntry := s.entries.find? fun entry => entry.name = name

/-- On the disk a copy is made instead. -/
def download (s : State) (entries : List DirEntry) : State :=
  match s.browser.targetDevice with
  | none => s
  | some device =>
    let sources := entries.map fun entry => (entry.name,(fullPath s entry).toStringLossy)
    { s with picking := s.picking++[⟨device,sources,s.browser.device,s.browser.path,entries⟩] }

def pulls (s : State) (d : Download) (folder : PathBuf) : List Pull :=
  d.sources.map fun x =>
    ⟨d.device,(entryNamed s x.1).any DirEntry.isDir,x.2,(inDir folder x.1).toStringLossy⟩

inductive Event
  /-- The answer, if it is one that is taken, brings these entries. -/
  | browse (e : BrowserLoads.Event) (answer : List DirEntry)
  | sort (entries : List DirEntry)
  | download (selection : List ℕ)
  | choose (i : ℕ) (folder : PathBuf)
  | dismiss (i : ℕ)

/-- The entries after a step of the browser. -/
def listed (s : State) (t : BrowserLoads.State) (answer : List DirEntry) : BrowserLoads.Event → List DirEntry
  | .reply id => if (s.browser.issued[id]?).any (BrowserLoads.applies s.browser) then answer else s.entries
  | _ => if t.shown = none then [] else s.entries

def step (s : State) : Event → Option State
  | .browse e answer => (BrowserLoads.step s.browser e).map fun t =>
    { s with browser := t, entries := listed s t answer e }
  | .sort entries => if entries.Perm s.entries then some { s with entries := entries } else none
  | .download selection =>
    let selected := selection.filterMap fun ix => s.entries[ix]?
    if selected = [] then none else some (download s selected)
  | .choose i folder => (s.picking[i]?).map fun d =>
    { s with picking := s.picking.eraseIdx i, started := s.started++[(d,folder,pulls s d folder)] }
  | .dismiss i => some { s with picking := s.picking.eraseIdx i }

/-- The pulls that the selection asks for. -/
def wanted (d : Download) (folder : PathBuf) : List Pull :=
  d.entries.map fun entry =>
    ⟨d.device,entry.isDir,inDir d.path entry.name,(inDir folder entry.name).toStringLossy⟩

/-- Whatever was started is what was selected, on the phone that was shown then. -/
def AsSelected (s : State) : Prop :=
  ∀ x ∈ s.started, x.1.phone = some x.1.device ∧ x.2.2 = wanted x.1 x.2.1

instance : DecidablePred AsSelected := fun s => inferInstanceAs (Decidable (∀ x ∈ s.started, _))

/-- A folder is chosen while the first entry shown under each selected name, if any, is a directory exactly if
the selected one was; and the paths that were selected are text. -/
def Alike (s : State) : Event → Prop
  | .choose i _ => ∀ d ∈ s.picking[i]?, ∀ entry ∈ d.entries,
    (entryNamed s entry.name).any DirEntry.isDir = entry.isDir ∧ (inDir d.path entry.name).IsText
  | _ => True

instance (s : State) (e : Event) : Decidable (Alike s e) := by
  unfold Alike
  split <;> infer_instance

/-- What a picker holds is what was noted of the selection. -/
structure Noted (d : Download) : Prop where
  phone : d.phone = some d.device
  sources : d.sources = d.entries.map fun entry => (entry.name,(inDir d.path entry.name).toStringLossy)

structure Sound (s : State) : Prop where
  device : s.browser.targetDevice ≠ none → s.browser.device = s.browser.targetDevice
  noted : ∀ d ∈ s.picking, Noted d

variable {s t : State} {e : Event} {d : Download}

theorem sound_step (hs : Sound s) (h : step s e = some t) : Sound t := by
  have herase : ∀ i, ∀ d ∈ s.picking.eraseIdx i, Noted d := fun i d hd => hs.noted d (List.mem_of_mem_eraseIdx hd)
  cases e with
  | browse e answer =>
    obtain ⟨b,hb,rfl⟩ := map_eq_some_iff.mp h
    exact ⟨BrowserLoads.device_step hs.device hb,hs.noted⟩
  | sort entries =>
    simp only [step] at h
    split_ifs at h
    cases h
    exact ⟨hs.device,hs.noted⟩
  | download selection =>
    simp only [step] at h
    split_ifs at h
    cases h
    unfold download
    split
    · exact hs
    rename_i device hdevice
    refine ⟨hs.device,fun d hd => ?_⟩
    obtain hd | hd := List.mem_append.mp hd
    · exact hs.noted d hd
    · obtain rfl := List.mem_singleton.mp hd
      exact ⟨(hs.device (by simp [hdevice])).trans hdevice,rfl⟩
  | choose i folder =>
    obtain ⟨d,-,rfl⟩ := map_eq_some_iff.mp h
    exact ⟨hs.device,herase i⟩
  | dismiss i =>
    cases h
    exact ⟨hs.device,herase i⟩

theorem pulls_eq_wanted_iff (hd : Noted d) (folder : PathBuf) : pulls s d folder = wanted d folder ↔
    ∀ entry ∈ d.entries,
      (entryNamed s entry.name).any DirEntry.isDir = entry.isDir ∧ (inDir d.path entry.name).IsText := by
  rw [pulls,wanted,hd.sources,List.map_map,List.map_inj_left]
  simp only [Function.comp_apply,Pull.mk.injEq,true_and,and_true,PathBuf.toStringLossy_eq_self_iff]

theorem asSelected_step_iff (hs : Sound s) (hp : AsSelected s) (h : step s e = some t) : AsSelected t ↔ Alike s e := by
  cases e with
  | choose i folder =>
    obtain ⟨d,hd,rfl⟩ := map_eq_some_iff.mp h
    have hnoted := hs.noted d (List.mem_of_getElem? hd)
    simp only [AsSelected,List.forall_mem_append,List.forall_mem_singleton,Alike,mem_def,hd, some.injEq,forall_eq']
    rw [← pulls_eq_wanted_iff hnoted folder]
    exact ⟨fun hall => hall.2.2,fun hnew => ⟨hp,hnoted.phone,hnew⟩⟩
  | browse e answer =>
    obtain ⟨b,-,rfl⟩ := map_eq_some_iff.mp h
    exact iff_of_true hp trivial
  | dismiss i =>
    cases h
    exact iff_of_true hp trivial
  | sort | download =>
    simp only [step] at h
    split_ifs at h
    cases h
    refine iff_of_true ?_ trivial
    first
      | exact hp
      | unfold download; split <;> exact hp

/-- In every interleaving of selections, navigation, refreshes, changes of the phone and chosen folders: what is
started is always what was selected, from where it was and with the kind that it had, exactly if each folder is
chosen while the browser shows nothing else under the selected names. -/
theorem always_asSelected_iff {events : List Event} (h : exec step init events = some s) :
    Always step AsSelected init events ↔ Meets step Alike init events :=
  always_iff_meets (fun _ _ _ hs hstep => sound_step hs hstep) (fun _ _ _ hs hp hstep => asSelected_step_iff hs hp hstep)
    ⟨fun h => absurd rfl h,nofun⟩ nofun h

/-- A directory `a` is selected on the phone. -/
def selecting : List Event :=
  [.browse (.selectDevice "phone") [],.browse (.reply 0) [⟨['a'],true,0,0⟩],.download [0]]

theorem always_asSelected_selecting :
    Always step AsSelected init (selecting++[.browse .refresh [],.choose 0 BrowserLoads.rootPath]) := by
  have hexec : (exec step init (selecting++[.browse .refresh [],.choose 0 BrowserLoads.rootPath])).isSome := by
    decide +kernel
  obtain ⟨s,hs⟩ := isSome_iff_exists.mp hexec
  exact (always_asSelected_iff hs).mpr (meets_of_check (fun _ _ => of_decide_eq_true) (by decide +kernel))

/-- The directory above is opened before the folder is chosen: `a` is pulled as a file. -/
theorem directory_pulled_as_file :
    ∃ s, exec step init (selecting++[.browse .up [],.choose 0 BrowserLoads.rootPath]) = some s ∧ ¬AsSelected s := by
  exact ⟨_,rfl,by decide +kernel⟩

end AdbShare.Downloads

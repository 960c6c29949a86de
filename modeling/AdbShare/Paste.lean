import AdbShare.PathBuf

/-! Copy and paste of files in the browser. Pasting answers with a message or with the calls it
makes: to the local file system, or over the bus with the paths as text. -/
namespace AdbShare.Paste

open List PathBuf

open PathText (FileName)

structure DirEntry where
  name : Bytes
  isDir : Bool
  deriving DecidableEq

structure ClipboardFiles where
  fromLocal : Bool
  device : Option String
  fromDir : PathBuf
  entries : List DirEntry
  deriving DecidableEq

inductive Selection
  | device (serial : String)
  | disk (path : PathBuf)
  deriving DecidableEq

/-- The part of the window that copy and paste read: what is chosen in the sidebar, whether the
browser is in local mode, the directory it shows, and what was copied. -/
structure App where
  selection : Option Selection
  isLocal : Bool
  path : PathBuf
  clipboard : Option ClipboardFiles
  deriving DecidableEq

inductive Call
  | localCopyTree (src dst : PathBuf)
  | localCopyFile (src dst : PathBuf)
  | copyTree (device : String) (srcDir dstDir : PathBuf)
  | copyFile (device : String) (src dst : PathBuf)
  | enqueueTreePush (device : String) (localDir deviceDir : PathBuf)
  | enqueuePush (device : String) (localPath remotePath : PathBuf)
  | enqueuePull (device : String) (remotePath localPath : PathBuf)
  deriving DecidableEq

def App.targetDevice (app : App) : Option String :=
  match app.selection with
  | some (.device serial) => some serial
  | _ => none

/-- What a path without a name is called. -/
def untitled : FileName := ⟨[117,110,116,105,116,108,101,100],by decide⟩

def fileNameOf (path : PathBuf) : Bytes := (path.fileName.map fun n => n.lossy.bytes).getD untitled.bytes

def copy (app : App) (entries : List DirEntry) : App :=
  { app with clipboard := some ⟨app.isLocal,app.targetDevice,app.path,entries⟩ }

def absolutePaths (entries : List DirEntry) (fromDir : PathBuf) : List PathBuf :=
  entries.map fun entry =>
    let name := ofText entry.name
    if name.absolute then name else fromDir.join name

/-- Where a source goes in the target directory. -/
def destinationOf (targetDir src : PathBuf) : PathBuf :=
  targetDir.join (ofName (src.fileName.getD untitled))

def resolveDestination (snapshot : ClipboardFiles) (targetDir : PathBuf) (targetDevice : Option String) :
    Except String (List PathBuf) :=
  let destinations := (absolutePaths snapshot.entries snapshot.fromDir).map (destinationOf targetDir)
  match snapshot.device,targetDevice with
  | some origin,some target =>
    if origin ≠ target then
      .error s!"These files were copied from {origin}. Paste into that device, or copy them again."
    else .ok destinations
  | _,_ => .ok destinations

def pasteTree (snapshot : ClipboardFiles) (source destination : PathBuf) (targetDevice : Option String) :
    Except String (List Call) :=
  match snapshot.fromLocal,targetDevice with
  | true,none => .ok [.localCopyTree source destination]
  | true,some device => .ok [.enqueueTreePush device source.toStringLossy destination.toStringLossy]
  | false,some device =>
    if source.absolute then
      .ok [.copyTree device source.toStringLossy (destination.parent.getD root).toStringLossy]
    else .ok [.enqueueTreePush device source.toStringLossy destination.toStringLossy]
  | false,none => .error "Those files are on a phone; open one to save it to this computer."

def copyOnDevice (device : String) (source destination : PathBuf) : Call :=
  .copyFile device source.toStringLossy destination.toStringLossy

def enqueueOne (source destination : PathBuf) (sourceDevice targetDevice : Option String) : Call :=
  match sourceDevice,targetDevice with
  | none,some target => .enqueuePush target source.toStringLossy destination.toStringLossy
  | some origin,_ => .enqueuePull origin source.toStringLossy destination.toStringLossy
  | none,none => .localCopyFile source destination

def pasteSnapshot (app : App) (snapshot : ClipboardFiles) : Except String (List Call) := do
  let destinations ← resolveDestination snapshot app.path app.targetDevice
  let sources := absolutePaths snapshot.entries snapshot.fromDir
  match sources,destinations,snapshot.entries with
  | [source],destination::_,entry::_ =>
    if entry.isDir then pasteTree snapshot source destination app.targetDevice
    else files sources destinations
  | _,_,_ => files sources destinations
where
  files (sources destinations : List PathBuf) : Except String (List Call) :=
    match app.selection,snapshot.device with
    | some (.device device),some origin =>
      if device = origin then .ok (List.zipWith (copyOnDevice device) sources destinations)
      else .ok (List.zipWith (enqueueOne · · snapshot.device app.targetDevice) sources destinations)
    | _,_ => .ok (List.zipWith (enqueueOne · · snapshot.device app.targetDevice) sources destinations)

/-- What is taken from the paths on the system clipboard; `isDir` is what the disk says. -/
def systemSnapshot (isDir : PathBuf → Bool) (first : PathBuf) (paths : List PathBuf) : ClipboardFiles where
  fromLocal := true
  device := none
  fromDir := first.parent.getD root
  entries := paths.map fun path => ⟨fileNameOf path,isDir path⟩

/-- With nothing copied in the window the paths on the system clipboard are taken. -/
def paste (isDir : PathBuf → Bool) (systemPaths : List PathBuf) (app : App) : App × Except String (List Call) :=
  match app.clipboard,systemPaths with
  | some snapshot,_ => (app,pasteSnapshot app snapshot)
  | none,[] => (app,.error "Nothing copied yet")
  | none,first::rest =>
    let snapshot := systemSnapshot isDir first (first::rest)
    ({ app with clipboard := some snapshot },pasteSnapshot app snapshot)

/-- A place and a path on it: a phone, or the disk. -/
abbrev Location := Option String × PathBuf

def Call.source : Call → Location
  | .localCopyTree src _ => (none,src)
  | .localCopyFile src _ => (none,src)
  | .copyTree device src _ => (some device,src)
  | .copyFile device src _ => (some device,src)
  | .enqueueTreePush _ src _ => (none,src)
  | .enqueuePush _ src _ => (none,src)
  | .enqueuePull device src _ => (some device,src)

def Call.destination : Call → Location
  | .localCopyTree _ dst => (none,dst)
  | .localCopyFile _ dst => (none,dst)
  | .copyTree device _ dst => (some device,dst)
  | .copyFile device _ dst => (some device,dst)
  | .enqueueTreePush device _ dst => (some device,dst)
  | .enqueuePush device _ dst => (some device,dst)
  | .enqueuePull _ _ dst => (none,dst)

def Call.recursive : Call → Bool
  | .localCopyTree _ _ => true
  | .localCopyFile _ _ => false
  | .copyTree _ _ _ => true
  | .copyFile _ _ _ => false
  | .enqueueTreePush _ _ _ => true
  | .enqueuePush _ _ _ => false
  | .enqueuePull _ _ _ => false

/-- A path from the system clipboard: absolute, and read from text. -/
structure SystemPath where
  path : PathBuf
  absolute : path.absolute = true
  text : path.IsText

/-- What was copied, and where: in the window from the disk or from a phone, or elsewhere. -/
inductive Copied
  | disk (dir : PathBuf) (entries : List DirEntry)
  | phone (serial : String) (dir : PathBuf) (entries : List DirEntry)
  | system (paths : List SystemPath)

structure Item where
  location : Location
  isDir : Bool

/-- The window while it shows a directory of the disk or of a phone. -/
def browsing (device : Option String) (dir : PathBuf) : App where
  selection := some (device.elim (.disk dir) .device)
  isLocal := device.isNone
  path := dir
  clipboard := none

namespace Copied

def clipboard : Copied → Option ClipboardFiles
  | .disk dir entries => (copy (browsing none dir) entries).clipboard
  | .phone serial dir entries => (copy (browsing (some serial) dir) entries).clipboard
  | .system _ => none

def systemPaths : Copied → List PathBuf
  | .system paths => paths.map SystemPath.path
  | _ => []

def items (isDir : PathBuf → Bool) : Copied → List Item
  | .disk dir entries => entries.map fun e => ⟨(none,dir.join (ofText e.name)),e.isDir⟩
  | .phone serial dir entries => entries.map fun e => ⟨(some serial,dir.join (ofText e.name)),e.isDir⟩
  | .system paths => paths.map fun p => ⟨(none,p.path),isDir p.path⟩

def place : Copied → Option String
  | .phone serial _ _ => some serial
  | _ => none

end Copied

/-- Paste what was copied into the directory the window shows now. -/
def pasteCopied (isDir : PathBuf → Bool) (copied : Copied) (target : App) : Except String (List Call) :=
  (paste isDir copied.systemPaths { target with clipboard := copied.clipboard }).2

/-- The call takes the item to its name in the target directory, with all that is below it if it is a directory. -/
def Carries (target : App) (item : Item) (call : Call) : Prop :=
  call.source = item.location ∧
  (∃ name, item.location.2.fileName = some name ∧
    call.destination = (target.targetDevice,target.path.join (ofName name))) ∧
  call.recursive = item.isDir

/-- Paths from the system clipboard are all in one directory. -/
def Copied.Together : Copied → Prop
  | .system paths => ∃ dir, ∀ p ∈ paths, p.path.parent = some dir
  | _ => True

/-- Every item has a name, and those from elsewhere are in one directory; there is no directory but
a single one of the disk; where a phone takes part all paths are UTF-8. -/
def Plain (isDir : PathBuf → Bool) (copied : Copied) (target : App) : Prop :=
  (∀ item ∈ copied.items isDir, item.location.2.fileName ≠ none) ∧
  copied.Together ∧
  (∀ item ∈ copied.items isDir, item.isDir = true → (copied.items isDir).length = 1 ∧ copied.place = none) ∧
  (copied.place ≠ none ∨ target.targetDevice ≠ none →
    ∀ item ∈ copied.items isDir, item.location.2.IsText ∧ target.path.IsText)

/-- A path as it is passed on: over the bus it is text. -/
def sent (origin target : Option String) (p : PathBuf) : PathBuf :=
  if origin = none ∧ target = none then p else p.toStringLossy

/-- The call made for one file. -/
def fileCall (origin target : Option String) (src dst : PathBuf) : Call :=
  match origin,target with
  | some origin,some device =>
    if device = origin then copyOnDevice device src dst else enqueueOne src dst (some origin) (some device)
  | _,_ => enqueueOne src dst origin target

variable {origin target : Option String} {p : PathBuf} {α : Type} {L : List α} {isDir : PathBuf → Bool}
  {src : α → PathBuf}

theorem sent_eq_iff : sent origin target p = p ↔ (origin ≠ none ∨ target ≠ none → p.IsText) := by
  unfold sent
  split
  · simp_all
  · rename_i h
    rw [toStringLossy_eq_self_iff,imp_iff_right (by rwa [← not_and_or])]

/-- A destination that was not refused. -/
def Accepted (origin target : Option String) : Prop := origin = none ∨ target = none ∨ origin = target

section

variable (src dst : PathBuf)

theorem source_fileCall : (fileCall origin target src dst).source = (origin,sent origin target src) := by
  cases origin <;> cases target <;> simp only [fileCall,enqueueOne,copyOnDevice,sent]
  · rfl
  · rfl
  · rfl
  · split <;> simp_all [Call.source]

theorem destination_fileCall (h : Accepted origin target) :
    (fileCall origin target src dst).destination = (target,sent origin target dst) := by
  cases origin <;> cases target <;> simp only [fileCall,enqueueOne,copyOnDevice,sent]
  · rfl
  · rfl
  · rfl
  · rename_i origin device
    obtain rfl : origin = device := by simpa [Accepted] using h
    simp [Call.destination]

theorem recursive_fileCall : (fileCall origin target src dst).recursive = false := by
  cases origin <;> cases target <;> simp only [fileCall,enqueueOne]
  · rfl
  · rfl
  · rfl
  · split <;> rfl

end

theorem absolutePaths_eq (entries : List DirEntry) (dir : PathBuf) :
    absolutePaths entries dir = entries.map fun e => dir.join (ofText e.name) := by
  refine map_congr_left fun e _ => ?_
  simp only [join]
  split <;> rfl

theorem resolveDestination_eq (s : ClipboardFiles) (dir : PathBuf) (target : Option String) :
    (∃ msg, resolveDestination s dir target = .error msg) ∨
    resolveDestination s dir target = .ok ((absolutePaths s.entries s.fromDir).map (destinationOf dir)) ∧
      Accepted s.device target := by
  unfold resolveDestination
  cases hs : s.device with
  | none => exact .inr ⟨rfl,.inl rfl⟩
  | some origin =>
    cases target with
    | none => exact .inr ⟨rfl,.inr (.inl rfl)⟩
    | some device =>
      by_cases heq : origin = device
      · exact .inr ⟨if_neg (not_not.mpr heq),.inr (.inr (congrArg some heq))⟩
      · exact .inl ⟨_,if_pos heq⟩

section

variable {app : App} {s : ClipboardFiles} {calls : List Call} {src dst path : PathBuf} {call : Call} {r : Bool}

theorem files_eq (app : App) (s : ClipboardFiles) (sources : List PathBuf) :
    pasteSnapshot.files app s sources (sources.map (destinationOf app.path)) =
      .ok (sources.map fun src => fileCall s.device app.targetDevice src (destinationOf app.path src)) := by
  have hzip : ∀ f : PathBuf → PathBuf → Call, List.zipWith f sources (sources.map (destinationOf app.path)) =
      sources.map fun src => f src (destinationOf app.path src) := by
    intro f
    rw [zipWith_map_right,zipWith_self]
  unfold pasteSnapshot.files App.targetDevice fileCall
  obtain _ | ⟨device⟩ | ⟨path⟩ := app.selection <;> obtain _ | origin := s.device <;> simp only [hzip]
  split <;> rfl

/-- One directory goes as a tree, and all else file by file. -/
theorem pasteSnapshot_ok (h : pasteSnapshot app s = .ok calls) : Accepted s.device app.targetDevice ∧
    ((∃ e, s.entries = [e] ∧ e.isDir ∧ pasteTree s (s.fromDir.join (ofText e.name))
        (destinationOf app.path (s.fromDir.join (ofText e.name))) app.targetDevice = .ok calls) ∨
    (∀ e, s.entries = [e] → e.isDir = false) ∧
      calls = s.entries.map fun e => fileCall s.device app.targetDevice (s.fromDir.join (ofText e.name))
        (destinationOf app.path (s.fromDir.join (ofText e.name)))) := by
  unfold pasteSnapshot at h
  obtain ⟨msg,herr⟩ | ⟨hok,haccept⟩ := resolveDestination_eq s app.path app.targetDevice
  · rw [herr] at h
    cases h
  refine ⟨haccept,?_⟩
  have hfiles := files_eq app s (absolutePaths s.entries s.fromDir)
  rw [hok] at h
  simp only [absolutePaths_eq,map_map] at h hfiles
  rcases hes : s.entries with _ | ⟨e,_ | ⟨e',es⟩⟩
  · refine .inr ⟨by simp,?_⟩
    rw [hes] at h hfiles
    exact Except.ok.inj (h.symm.trans hfiles)
  · rw [hes] at h hfiles
    cases hdir : e.isDir with
    | true =>
      refine .inl ⟨e,rfl,hdir,?_⟩
      simpa [hdir,bind,Except.bind] using h
    | false =>
      refine .inr ⟨by simp [hdir],?_⟩
      simp only [map_cons,map_nil,bind,Except.bind,hdir] at h
      exact Except.ok.inj (h.symm.trans hfiles)
  · refine .inr ⟨by simp,?_⟩
    rw [hes] at h hfiles
    exact Except.ok.inj (h.symm.trans hfiles)

theorem pasteTree_disk (hlocal : s.fromLocal) (h : pasteTree s src dst target = .ok calls) :
    ∃ call, calls = [call] ∧ call.source = (none,sent none target src) ∧
      call.destination = (target,sent none target dst) ∧ call.recursive := by
  unfold pasteTree at h
  rw [hlocal] at h
  cases target <;> obtain rfl := Except.ok.inj h <;> exact ⟨_,rfl,rfl,rfl,rfl⟩

/-- A tree of a phone goes into the target directory itself, or is looked for on the disk. -/
theorem pasteTree_phone (hlocal : s.fromLocal = false)
    (h : pasteTree s src dst target = .ok calls) : ∃ call, calls = [call] ∧
      (call.source.1 = none ∨ call.destination.2 = (dst.parent.getD root).toStringLossy) := by
  unfold pasteTree at h
  rw [hlocal] at h
  obtain _ | device := target
  · cases h
  simp only at h
  split at h <;> obtain rfl := Except.ok.inj h
  · exact ⟨_,rfl,.inr rfl⟩
  · exact ⟨_,rfl,.inl rfl⟩

theorem carries_iff (item : Item) (hsource : call.source = (origin,sent origin app.targetDevice src))
    (hdestination : call.destination = (app.targetDevice,sent origin app.targetDevice (destinationOf app.path src)))
    (hrecursive : call.recursive = r) (hloc : item.location = (origin,path))
    (hsrc : sent origin app.targetDevice src = path → src = path) :
    Carries app item call ↔ path.fileName ≠ none ∧ src = path ∧ item.isDir = r ∧
      (origin ≠ none ∨ app.targetDevice ≠ none → path.IsText ∧ app.path.IsText) := by
  unfold Carries
  rw [hsource,hdestination,hrecursive,hloc]
  constructor
  · rintro ⟨hs,⟨n,hn,hd⟩,hr⟩
    have hs' := (Prod.mk.inj hs).2
    obtain rfl := hsrc hs'
    have hd' := (Prod.mk.inj hd).2
    rw [destinationOf,hn,Option.getD_some] at hd'
    refine ⟨by simp [hn],rfl,hr.symm,fun hbus => ⟨sent_eq_iff.mp hs' hbus,?_⟩⟩
    exact (isText_join_ofName.mp (sent_eq_iff.mp hd' hbus)).1
  · rintro ⟨hn,rfl,hr,htext⟩
    obtain ⟨n,hn⟩ := Option.ne_none_iff_exists'.mp hn
    have hd : sent origin app.targetDevice (app.path.join (ofName n)) = app.path.join (ofName n) :=
      sent_eq_iff.mpr fun hbus => isText_join_ofName.mpr ⟨(htext hbus).2,(htext hbus).1.fileName hn⟩
    refine ⟨by rw [sent_eq_iff.mpr fun hbus => (htext hbus).1],⟨n,hn,?_⟩,hr.symm⟩
    rw [destinationOf,hn,Option.getD_some,hd]

/-- No name is joined by leaving it out. -/
theorem not_carries_phone (item : Item) (hloc : item.location.1 ≠ none) (h : call.source.1 = none ∨
      call.destination.2 = ((destinationOf app.path src).parent.getD root).toStringLossy) : ¬Carries app item call := by
  rintro ⟨hs,⟨n,-,hd⟩,-⟩
  obtain h | h := h
  · rw [hs] at h
    exact hloc h
  · rw [hd,destinationOf,parent_join_ofName] at h
    have hlen := congrArg (fun p => p.components.length) h
    simp [join_ofName,toStringLossy] at hlen

/-- The items `L` under the entries of a snapshot. -/
theorem carried_iff (entry : α → DirEntry) (item : α → Item) (hlocal : s.fromLocal = s.device.isNone)
    (hentries : s.entries = L.map entry)
    (hdir : ∀ a ∈ L, (entry a).isDir = (item a).isDir) (hdevice : ∀ a ∈ L, (item a).location.1 = s.device)
    (hsrc : ∀ a ∈ L, sent s.device app.targetDevice (s.fromDir.join (ofText (entry a).name)) = (item a).location.2 →
      s.fromDir.join (ofText (entry a).name) = (item a).location.2)
    (h : pasteSnapshot app s = .ok calls) :
    List.Forall₂ (Carries app) (L.map item) calls ↔ ∀ a ∈ L, (item a).location.2.fileName ≠ none ∧
        s.fromDir.join (ofText (entry a).name) = (item a).location.2 ∧
        ((item a).isDir → L.length = 1 ∧ s.device = none) ∧
        (s.device ≠ none ∨ app.targetDevice ≠ none → (item a).location.2.IsText ∧ app.path.IsText) := by
  obtain ⟨haccept,⟨e,hes,he,htree⟩ | ⟨hno,rfl⟩⟩ := pasteSnapshot_ok h
  · obtain ⟨a,rfl,rfl⟩ := map_eq_singleton_iff.mp (hentries.symm.trans hes)
    have ha : a ∈ [a] := mem_singleton_self a
    have hisDir : (item a).isDir := (hdir a ha).symm.trans he
    obtain hs | ⟨origin,hs⟩ := s.device.eq_none_or_eq_some
    · obtain ⟨call,rfl,hsource,hdestination,hrecursive⟩ := pasteTree_disk (by rw [hlocal,hs]; rfl) htree
      have hc := carries_iff (item a) hsource hdestination hrecursive
        (Prod.ext ((hdevice a ha).trans hs) rfl) (hs ▸ hsrc a ha)
      simp [hc,hs,hisDir]
    · obtain ⟨call,rfl,hcall⟩ := pasteTree_phone (by rw [hlocal,hs]; rfl) htree
      have hc := not_carries_phone (item a) (by simp [hdevice a ha,hs]) hcall
      simp [hc,hs,hisDir]
  · have hc : ∀ a ∈ L, _ := fun a ha => carries_iff (item a) (source_fileCall _ _)
      (destination_fileCall _ _ haccept) (recursive_fileCall _ _) (Prod.ext (hdevice a ha) rfl) (hsrc a ha)
    rw [hentries,map_map,List.forall₂_map_left_iff,List.forall₂_map_right_iff,List.forall₂_same]
    refine forall₂_congr fun a ha => ?_
    rw [Function.comp_apply,hc a ha]
    have hsingle : L.length = 1 → (item a).isDir = false := by
      intro hlen
      obtain ⟨b,rfl⟩ := length_eq_one_iff.mp hlen
      obtain rfl := mem_singleton.mp ha
      exact (hdir a ha).symm.trans (hno (entry a) hentries)
    cases hd : (item a).isDir <;> simp_all

end

section

variable {first : SystemPath} {p : SystemPath} {n : FileName} {paths : List SystemPath}

/-- The directory that paths from elsewhere are taken to be in. -/
def base (first : SystemPath) : PathBuf := first.path.parent.getD root

theorem isText_base : (base first).IsText := by
  unfold base
  cases h : first.path.parent with
  | none => simp [root,IsText]
  | some q => exact first.text.parent h

theorem lossy_of_fileName (h : p.path.fileName = some n) : n.lossy = n := by
  have hself := Utf8.fromUtf8Lossy_of_valid (p.text.fileName h)
  cases n
  simpa [FileName.lossy] using hself

theorem ofText_fileNameOf (p : SystemPath) : ofText (fileNameOf p.path) = ofName (p.path.fileName.getD untitled) := by
  unfold fileNameOf
  cases h : p.path.fileName with
  | none => exact ofText_name untitled
  | some n =>
    simp only [Option.map_some,Option.getD_some,lossy_of_fileName h]
    exact ofText_name n

theorem isText_source : ((base first).join (ofText (fileNameOf p.path))).IsText := by
  rw [ofText_fileNameOf,isText_join_ofName]
  refine ⟨isText_base,?_⟩
  cases h : p.path.fileName with
  | none => decide
  | some n => exact p.text.fileName h

theorem source_eq_iff (h : p.path.fileName ≠ none) :
    (base first).join (ofText (fileNameOf p.path)) = p.path ↔ p.path.parent = some (base first) := by
  obtain ⟨n,hn⟩ := Option.ne_none_iff_exists'.mp h
  rw [ofText_fileNameOf,hn,eq_comm,eq_join_iff]
  simp [hn]

theorem together_iff : (Copied.system (first::paths)).Together ↔ ∀ p ∈ first::paths, p.path.parent = some (base first) := by
  constructor
  · rintro ⟨dir,h⟩
    have hbase : base first = dir := by simp [base,h first mem_cons_self]
    rwa [hbase]
  · exact fun h => ⟨_,h⟩

end

/-- What is asked of each item makes what was copied plain. -/
theorem plain_iff {target : App} (copied : Copied) (item : α → Item) (hitems : copied.items isDir = L.map item)
    (htogether : (∀ a ∈ L, (item a).location.2.fileName ≠ none) →
      ((∀ a ∈ L, src a = (item a).location.2) ↔ copied.Together)) :
    (∀ a ∈ L, (item a).location.2.fileName ≠ none ∧ src a = (item a).location.2 ∧
        ((item a).isDir → L.length = 1 ∧ copied.place = none) ∧
        (copied.place ≠ none ∨ target.targetDevice ≠ none → (item a).location.2.IsText ∧ target.path.IsText)) ↔
      Plain isDir copied target := by
  unfold Plain
  rw [hitems,length_map]
  simp only [forall_mem_map]
  constructor
  · intro h
    have hnamed := fun a ha => (h a ha).1
    exact ⟨hnamed,(htogether hnamed).mp fun a ha => (h a ha).2.1,fun a ha => (h a ha).2.2.1,
      fun hbus a ha => (h a ha).2.2.2 hbus⟩
  · rintro ⟨hnamed,htog,hdirs,htext⟩ a ha
    exact ⟨hnamed a ha,(htogether hnamed).mpr htog a ha,hdirs a ha,fun hbus => htext hbus a ha⟩

/-- A paste that is not refused makes one call for each item, from its own path to its name in the
target directory, recursive for directories, exactly if what was copied is plain. -/
theorem paste_carries_iff (isDir : PathBuf → Bool) (copied : Copied) (target : App) (calls : List Call)
    (h : pasteCopied isDir copied target = .ok calls) :
    List.Forall₂ (Carries target) (copied.items isDir) calls ↔ Plain isDir copied target := by
  cases copied with
  | disk dir entries =>
    let item : DirEntry → Item := fun e => ⟨(none,dir.join (ofText e.name)),e.isDir⟩
    have hiff := carried_iff id item rfl (map_id _).symm (fun _ _ => rfl) (fun _ _ => rfl) (fun _ _ _ => rfl) h
    exact hiff.trans (plain_iff (.disk dir entries) item rfl fun _ => iff_of_true (fun _ _ => rfl) trivial)
  | phone serial dir entries =>
    let item : DirEntry → Item := fun e => ⟨(some serial,dir.join (ofText e.name)),e.isDir⟩
    have hiff := carried_iff id item rfl (map_id _).symm (fun _ _ => rfl) (fun _ _ => rfl) (fun _ _ _ => rfl) h
    exact hiff.trans (plain_iff (.phone serial dir entries) item rfl fun _ => iff_of_true (fun _ _ => rfl) trivial)
  | system paths =>
    obtain _ | ⟨first,rest⟩ := paths
    · cases h
    let item : SystemPath → Item := fun p => ⟨(none,p.path),isDir p.path⟩
    let entry : SystemPath → DirEntry := fun p => ⟨fileNameOf p.path,isDir p.path⟩
    have hentries : (systemSnapshot isDir first.path ((first::rest).map SystemPath.path)).entries =
        (first::rest).map entry := map_map
    have hiff := carried_iff entry item rfl hentries (fun _ _ => rfl) (fun _ _ => rfl)
      (fun p _ hp => (sent_eq_iff.mpr fun _ => isText_source).symm.trans hp) h
    refine hiff.trans (plain_iff (.system (first::rest)) item rfl fun hnamed => ?_)
    rw [together_iff]
    exact forall₂_congr fun p hp => source_eq_iff (hnamed p hp)

/-- The files `x` and `y` of `/a` on the disk, pasted into `/b` of a phone. -/
theorem paste_carries_files :
    ∃ calls, pasteCopied (fun _ => false) (.disk (ofText [47,97]) [⟨[120],false⟩,⟨[121],false⟩])
        (browsing (some "phone") (ofText [47,98])) = .ok calls ∧ calls.length = 2 ∧
      List.Forall₂ (Carries (browsing (some "phone") (ofText [47,98])))
        (Copied.items (fun _ => false) (.disk (ofText [47,97]) [⟨[120],false⟩,⟨[121],false⟩])) calls := by
  refine ⟨_,rfl,rfl,(paste_carries_iff _ _ _ _ rfl).mpr ⟨?_,trivial,?_,fun _ => ?_⟩⟩
  · decide +kernel
  · decide +kernel
  · decide +kernel

/-- Two directories of the disk are copied like files; the directory `d` of a phone, pasted into `/b`, is
spread over `/b`; of `/a/x` and `/b/y` on the system clipboard the second is looked for in `/a`. -/
theorem paste_misplaces : (∃ calls, pasteCopied (fun _ => false) (.disk (ofText [47,97]) [⟨[120],true⟩,⟨[121],true⟩])
        (browsing none (ofText [47,98])) = .ok calls ∧
      ¬List.Forall₂ (Carries (browsing none (ofText [47,98])))
        (Copied.items (fun _ => false) (.disk (ofText [47,97]) [⟨[120],true⟩,⟨[121],true⟩])) calls) ∧
    (∃ calls, pasteCopied (fun _ => false) (.phone "phone" (ofText [47,97]) [⟨[100],true⟩])
        (browsing (some "phone") (ofText [47,98])) = .ok calls ∧
      calls = [.copyTree "phone" (ofText [47,97,47,100]) (ofText [47,98])] ∧
      ¬List.Forall₂ (Carries (browsing (some "phone") (ofText [47,98])))
        (Copied.items (fun _ => false) (.phone "phone" (ofText [47,97]) [⟨[100],true⟩])) calls) ∧
    ∃ x y : SystemPath, ∃ calls, x.path = ofText [47,97,47,120] ∧ y.path = ofText [47,98,47,121] ∧
      pasteCopied (fun _ => false) (.system [x,y]) (browsing none (ofText [47,99])) = .ok calls ∧
      calls.map Call.source = [(none,ofText [47,97,47,120]),(none,ofText [47,97,47,121])] ∧
      ¬List.Forall₂ (Carries (browsing none (ofText [47,99])))
        (Copied.items (fun _ => false) (.system [x,y])) calls := by
  refine ⟨⟨_,rfl,?_⟩,⟨_,rfl,by decide +kernel,?_⟩,
    ⟨ofText [47,97,47,120],by decide,by decide +kernel⟩,⟨ofText [47,98,47,121],by decide,by decide +kernel⟩,
    _,rfl,rfl,rfl,by decide +kernel,?_⟩
  · rintro (_ | ⟨⟨-,-,hrecursive⟩,-⟩)
    exact absurd hrecursive (by decide)
  · rintro (_ | ⟨⟨-,⟨n,hn,hd⟩,-⟩,-⟩)
    exact absurd (congrArg (fun l => l.2.components.length) hd) (by simp [join_ofName]; decide +kernel)
  · rintro (_ | ⟨-,_ | ⟨⟨hsource,-⟩,-⟩⟩)
    exact absurd hsource (by decide +kernel)

end AdbShare.Paste

import AdbShare.Filesystem

/-! A device with files apart from their names: names lead to files, and an open handle
keeps its file whatever happens to the name. -/
namespace AdbShare

open Filesystem Function List

structure Disk where
  /-- The root has no parent and is a directory. -/
  names : Dict Path ℕ
  isDir : ℕ → Bool
  sizes : ℕ → UInt64
  handles : ℕ → Option ℕ
  nextFile : ℕ
  nextHandle : ℕ

namespace Disk

/-- Only the root directory, file 0. -/
def blank : Disk where
  names := AList.insert [] 0 ∅
  isDir := fun f => f = 0
  sizes := fun _ => 0
  handles := fun _ => none
  nextFile := 1
  nextHandle := 1

def fails {β : Type} (s : Status) (d : Disk) : Except ProxyError β × Disk := (.error (.status s []),d)

def parentIsDir (d : Disk) (path : Path) : Bool :=
  match Path.parent path with
  | some parent => (d.names.lookup parent).any d.isDir
  | none => false

/-- Does the directory at the path have anything in it? -/
def isEmpty (d : Disk) (path : Path) : Bool := d.names.keys.all fun q => q = path || !q.startsWith path

def statOf (d : Disk) (f : ℕ) : Reading Stat :=
  ⟨madeUpStat (if d.isDir f then .dir else .file) (d.sizes f) 1 0,none⟩

def statAt (d : Disk) (path : Path) : Except ProxyError (Reading Stat) × Disk :=
  match d.names.lookup path with
  | some f => (.ok (d.statOf f),d)
  | none => d.fails .notFound

def fstat (d : Disk) (file : ProxyFile) : Except ProxyError (Reading Stat) × Disk :=
  match d.handles file with
  | some f => (.ok (d.statOf f),d)
  | none => d.fails .invalidArg

/-- A new handle on a file. -/
def handle (d : Disk) (f : ℕ) : Except ProxyError ProxyFile × Disk :=
  (.ok d.nextHandle,{ d with
    handles := update d.handles d.nextHandle (some f), nextHandle := d.nextHandle+1 })

def resize (d : Disk) (f : ℕ) (size : UInt64) : Disk := { d with sizes := update d.sizes f size }

def addFile (d : Disk) (path : Path) (dir : Bool) : Disk :=
  { d with
    names := d.names.insert path d.nextFile
    isDir := update d.isDir d.nextFile dir
    sizes := update d.sizes d.nextFile 0
    nextFile := d.nextFile+1 }

def openFile (d : Disk) (path : Path) (flags : UInt32) : Except ProxyError ProxyFile × Disk :=
  match d.names.lookup path with
  | some f =>
    if d.isDir f then d.fails .isDir
    else if OpenFlags.contains flags OpenFlags.CREATE && OpenFlags.contains flags OpenFlags.EXCL then
      d.fails .exists
    else if OpenFlags.contains flags OpenFlags.TRUNC then (d.resize f 0).handle f
    else d.handle f
  | none =>
    if OpenFlags.contains flags OpenFlags.CREATE && d.parentIsDir path then
      (d.addFile path false).handle d.nextFile
    else d.fails .notFound

def truncate (d : Disk) (path : Path) (size : UInt64) : Except ProxyError Unit × Disk :=
  match d.names.lookup path with
  | some f => if d.isDir f then d.fails .isDir else (.ok (),d.resize f size)
  | none => d.fails .notFound

def unlink (d : Disk) (path : Path) : Except ProxyError Unit × Disk :=
  match d.names.lookup path with
  | some f => if d.isDir f then d.fails .isDir else (.ok (),{ d with names := d.names.erase path })
  | none => d.fails .notFound

def rmdir (d : Disk) (path : Path) : Except ProxyError Unit × Disk :=
  match d.names.lookup path with
  | some f =>
    if d.isDir f && d.isEmpty path && path ≠ [] then (.ok (),{ d with names := d.names.erase path })
    else d.fails .notEmpty
  | none => d.fails .notFound

def mkdir (d : Disk) (path : Path) : Except ProxyError Unit × Disk :=
  match d.names.lookup path with
  | some _ => d.fails .exists
  | none => if d.parentIsDir path then (.ok (),d.addFile path true) else d.fails .notFound

/-- Everything at or under `src` gets its place under `dst`, and what was there goes. -/
def move (names : Dict Path ℕ) (src dst : Path) : Dict Path ℕ :=
  Dict.insertAll (Dict.retain names fun q _ => !q.startsWith src && !q.startsWith dst)
    ((names.entries.filter fun e => e.1.startsWith src).map fun e => (Path.rebase src dst e.1,e.2))

/-- May a file or directory be moved over what is at the path? -/
def replaceable (d : Disk) (f : ℕ) (dst : Path) : Bool :=
  match d.names.lookup dst with
  | none => d.isEmpty dst
  | some g => d.isDir f == d.isDir g && d.isEmpty dst

def rename (d : Disk) (src dst : Path) : Except ProxyError Unit × Disk :=
  match d.names.lookup src with
  | none => d.fails .notFound
  | some f =>
    if src = dst then (.ok (),d)
    else if dst.startsWith src then d.fails .invalidArg
    else if d.parentIsDir dst && d.replaceable f dst then
      (.ok (),{ d with names := move d.names src dst })
    else d.fails .notEmpty

/-- Requests that do not concern files and their names find no support here. -/
def answer {β : Type} (c : Call β) (d : Disk) : Except ProxyError β × Disk :=
  match c with
  | .stat path | .lstat path => d.statAt path
  | .fstat file => d.fstat file
  | .openFile path flags _ => d.openFile path flags
  | .truncate path size => d.truncate path size
  | .unlink path => d.unlink path
  | .rmdir path => d.rmdir path
  | .mkdir path _ => d.mkdir path
  | .rename src dst => d.rename src dst
  | .close file => (.ok (),{ d with handles := update d.handles file none })
  | .readlink _ | .symlink _ _ | .listdir _ | .readAt _ _ _ | .writeAt _ _ _ => d.fails .notSupported

/-- A request may fail on its way; then it changes nothing. -/
def device : Device Disk (Option ProxyError) where
  answer := fun c x d =>
    match x with
    | some e => (.error e,d)
    | none => d.answer c

variable {src dst q path rel : Path} {d d' : Disk} {names : Dict Path ℕ} {f g : ℕ} {e : ProxyError}

theorem mem_moved : (q,f) ∈ (names.entries.filter fun e => e.1.startsWith src).map
        (fun e => (Path.rebase src dst e.1,e.2)) ↔ ∃ rel, q = dst++rel ∧ names.lookup (src++rel) = some f := by
  simp only [mem_map,mem_filter,Prod.mk.injEq]
  constructor
  · rintro ⟨⟨p,g⟩,⟨hp,hsrc⟩,hq,rfl⟩
    obtain ⟨rel,rfl⟩ := Path.startsWith_iff.mp hsrc
    exact ⟨rel,by rw [← hq,Path.rebase_append],Dict.mem_entries_iff.mp hp⟩
  · rintro ⟨rel,rfl,hf⟩
    exact ⟨⟨src++rel,f⟩,⟨Dict.mem_entries_iff.mpr hf,Path.startsWith_iff.mpr (prefix_append _ _)⟩,
      Path.rebase_append src dst rel,rfl⟩

/-- What the names lead to after a move. -/
theorem lookup_move : (move names src dst).lookup q = some f ↔
      (∃ rel, q = dst++rel ∧ names.lookup (src++rel) = some f) ∨ ¬ src <+: q ∧ ¬ dst <+: q ∧ names.lookup q = some f := by
  have huniq : ∀ k v v', (k,v) ∈ (names.entries.filter fun e => e.1.startsWith src).map
        (fun e => (Path.rebase src dst e.1,e.2)) →
      (k,v') ∈ (names.entries.filter fun e => e.1.startsWith src).map
        (fun e => (Path.rebase src dst e.1,e.2)) → v = v' := by
    intro k v v' hv hv'
    obtain ⟨rel,rfl,hf⟩ := mem_moved.mp hv
    obtain ⟨rel',he,hf'⟩ := mem_moved.mp hv'
    obtain rfl : rel = rel' := append_cancel_left he
    exact Option.some.inj (hf.symm.trans hf')
  unfold move
  rw [Dict.lookup_insertAll_iff huniq,mem_moved,Dict.lookup_retain_iff]
  simp only [Bool.and_eq_true,Bool.not_eq_true',← Bool.not_eq_true,Path.startsWith_iff]
  constructor
  · rintro (h | ⟨-,hq,hsrc,hdst⟩)
    · exact .inl h
    · exact .inr ⟨hsrc,hdst,hq⟩
  · rintro (h | ⟨hsrc,hdst,hq⟩)
    · exact .inl h
    refine .inr ⟨?_,hq,hsrc,hdst⟩
    intro v hv
    obtain ⟨rel,he,-⟩ := mem_moved.mp hv
    exact hdst ⟨rel,he.symm⟩

theorem isEmpty_lookup (h : d.isEmpty path) (hq : path <+: q) (hne : q ≠ path) : d.names.lookup q = none := by
  apply AList.lookup_eq_none.mpr
  intro hmem
  have hall := all_eq_true.mp h q (AList.mem_keys.mp hmem)
  have hsw := Path.startsWith_iff.mpr hq
  simp [hne,hsw] at hall

/-- A rename that goes through leaves the names alone or moves them to an empty place. -/
theorem rename_ok (h : d.rename src dst = (.ok (),d')) : src = dst ∧ d' = d ∨
      d' = { d with names := move d.names src dst } ∧ d.isEmpty dst := by
  unfold rename at h
  cases hs : d.names.lookup src with
  | none => simp [hs,fails] at h
  | some f =>
    simp only [hs] at h
    split at h
    · rename_i he
      exact .inl ⟨he,(Prod.mk.inj h).2.symm⟩
    split at h
    · simp [fails] at h
    split at h
    · rename_i hr
      refine .inr ⟨(Prod.mk.inj h).2.symm,?_⟩
      have hr' := (Bool.and_eq_true _ _ ▸ hr).2
      unfold replaceable at hr'
      split at hr'
      · exact hr'
      · exact (Bool.and_eq_true _ _ ▸ hr').2
    · simp [fails] at h

theorem rename_error (h : d.rename src dst = (.error e,d')) : d' = d := by
  unfold rename at h
  cases hs : d.names.lookup src with
  | none => exact (Prod.mk.inj (by simpa [hs,fails] using h)).2.symm
  | some f =>
    simp only [hs] at h
    split at h
    · cases h
    split at h
    · exact (Prod.mk.inj h).2.symm
    · split at h
      · cases h
      · exact (Prod.mk.inj h).2.symm

theorem rename_moved (h : d.rename src dst = (.ok (),d'))
    (hf : d.names.lookup (src++rel) = some f) (hg : d'.names.lookup (dst++rel) = some g) : g = f := by
  obtain ⟨rfl,rfl⟩ | ⟨rfl,-⟩ := rename_ok h
  · exact Option.some.inj (hg.symm.trans hf)
  obtain ⟨rel',he,hg⟩ | ⟨-,hdst,-⟩ := lookup_move.mp hg
  · obtain rfl : rel = rel' := append_cancel_left he
    exact Option.some.inj (hg.symm.trans hf)
  · exact absurd (prefix_append dst rel) hdst

/-- A name that is there before and after, apart from the destination, is the same. -/
theorem rename_stays (h : d.rename src dst = (.ok (),d'))
    (hne : q ≠ dst) (hf : d.names.lookup q = some f) (hg : d'.names.lookup q = some g) : g = f := by
  obtain ⟨-,rfl⟩ | ⟨rfl,hempty⟩ := rename_ok h
  · exact Option.some.inj (hg.symm.trans hf)
  obtain ⟨rel,rfl,-⟩ | ⟨-,-,hg⟩ := lookup_move.mp hg
  · rw [isEmpty_lookup hempty (prefix_append dst rel) hne] at hf
    cases hf
  · exact Option.some.inj (hg.symm.trans hf)

end Disk
end AdbShare

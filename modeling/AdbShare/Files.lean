import AdbShare.Path

/-! Files and their names. A name leads to a file, to a directory or, as a symbolic link, to
another name; a file has contents and keeps them whatever happens to its names. Paths are
taken with the links to directories in them already followed. -/
namespace AdbShare

open Function

inductive Node
  | file (n : ℕ)
  | dir
  | link (target : Path)
  deriving DecidableEq

structure Files where
  names : Path → Option Node
  contents : ℕ → Bytes
  /-- The first of the numbers of files to come. -/
  next : ℕ
  named : ∀ p n, names p = some (.file n) → n < next

/-- The bytes after a write at an offset; a gap is filled with zeros. -/
def overwriteAt (old : Bytes) (offset : ℕ) (data : Bytes) : Bytes :=
  old.take offset++List.replicate (offset-old.length) 0++data++old.drop (offset+data.length)

theorem overwriteAt_end (old data : Bytes) : overwriteAt old old.length data = old++data := by
  simp [overwriteAt]

namespace Files

/-- How many links are followed before the system gives up. -/
def MAX_LINKS : ℕ := 40

def follow (names : Path → Option Node) : ℕ → Path → Option Path
  | 0, _ => none
  | k+1, p =>
    match names p with
    | some (.link q) => follow names k q
    | _ => some p

section

variable (fs : Files)

/-- The name at the end of the links. -/
def resolve (p : Path) : Option Path := follow fs.names MAX_LINKS p

def target (p : Path) : Option Node := (fs.resolve p).bind fs.names

/-- The file that a name leads to. -/
def fileAt (p : Path) : Option ℕ :=
  match fs.target p with
  | some (.file n) => some n
  | _ => none

def read (p : Path) : Option Bytes := (fs.fileAt p).map fs.contents

def parentIsDir (p : Path) : Bool :=
  match p.parent with
  | some dir => decide (fs.target dir = some .dir)
  | none => false

def setContents (n : ℕ) (data : Bytes) : Files := { fs with contents := update fs.contents n data }

def addFile (p : Path) : Files where
  names := update fs.names p (some (.file fs.next))
  contents := update fs.contents fs.next []
  next := fs.next+1
  named := by
    intro q n hq
    by_cases hqp : q = p
    · subst hqp
      obtain rfl : fs.next = n := by simpa using hq
      omega
    · have := fs.named q n (by simpa [hqp] using hq)
      omega

def remove (p : Path) : Files where
  names := update fs.names p none
  contents := fs.contents
  next := fs.next
  named := by
    intro q n hq
    by_cases hqp : q = p
    · simp [hqp] at hq
    · exact fs.named q n (by simpa [hqp] using hq)

/-- `open` for reading, which a directory allows too. -/
def openRead (p : Path) : Option (Option ℕ) := if (fs.target p).isSome then some (fs.fileAt p) else none

/-- `open` for writing: the number of the file that the name leads to, or of a new one. -/
def openWrite (p : Path) (truncate : Bool) : Option (ℕ × Files) :=
  match fs.resolve p with
  | none => none
  | some q =>
    match fs.names q with
    | some (.file n) => some (n,if truncate then fs.setContents n [] else fs)
    | some _ => none
    | none => if fs.parentIsDir q then some (fs.next,fs.addFile q) else none

/-- `unlink`: takes away a name, also that of a link, but not a directory's. -/
def unlink (p : Path) : Option Files :=
  match fs.names p with
  | some .dir | none => none
  | some _ => some (fs.remove p)

def write (n offset : ℕ) (data : Bytes) : Files := fs.setContents n (overwriteAt (fs.contents n) offset data)

/-- A directory at every free name on the way to a path and at the path itself. -/
def addDirs (p : Path) : Files where
  names := fun q => if fs.names q = none ∧ q <+: p then some .dir else fs.names q
  contents := fs.contents
  next := fs.next
  named := by
    intro q n hq
    split at hq
    · cases hq
    · exact fs.named q n hq

/-- `create_dir_all`. -/
def makeDirs (p : Path) : Option Files :=
  if ∀ q ∈ p.inits, fs.names q = none ∨ fs.target q = some .dir then some (fs.addDirs p) else none

end

variable {p : Path} {n : ℕ}

section

variable {fs : Files} {q : Path} {names : Path → Option Node} {fs' : Files} {truncate : Bool} {node : Option Node}

theorem follow_of_not_link (h : ∀ t, names p ≠ some (.link t)) (k : ℕ) : follow names (k+1) p = some p := by
  rw [follow]
  split
  · rename_i t ht
    exact absurd ht (h t)
  · rfl

/-- Links lead on as before when a name that is no link becomes another that is none. -/
theorem follow_update (hq : ∀ t, names q ≠ some (.link t)) (hnode : ∀ t, node ≠ some (.link t)) (k : ℕ) (p : Path) :
    follow (update names q node) k p = follow names k p := by
  induction k generalizing p with
  | zero => rfl
  | succ k ih =>
    by_cases hpq : p = q
    · subst hpq
      rw [follow_of_not_link hq,follow_of_not_link (by simpa using hnode)]
    simp only [follow,update_of_ne hpq]
    split
    · exact ih _
    · rfl

theorem resolve_of_free (h : fs.names p = none) : fs.resolve p = some p := by
  exact follow_of_not_link (by simp [h]) _

theorem fileAt_addFile (hp : fs.resolve p = some q) (hq : fs.names q = none) :
    (fs.addFile q).fileAt p = some fs.next := by
  have hresolve : (fs.addFile q).resolve p = some q := by
    rw [← hp]
    exact follow_update (by simp [hq]) (by simp) _ _
  have htarget : (fs.addFile q).target p = some (.file fs.next) := by
    rw [target,hresolve]
    simp [addFile]
  simp [fileAt,htarget]

@[simp] theorem fileAt_setContents (m : ℕ) (data : Bytes) : (fs.setContents m data).fileAt p = fs.fileAt p := rfl

@[simp] theorem contents_setContents (data : Bytes) : (fs.setContents n data).contents n = data := by
  simp [setContents]

theorem openWrite_cases (h : fs.openWrite p truncate = some (n,fs')) :
    (fs.fileAt p = some n ∧ fs' = if truncate then fs.setContents n [] else fs) ∨
      ∃ q, fs.resolve p = some q ∧ fs.names q = none ∧ n = fs.next ∧ fs' = fs.addFile q := by
  unfold openWrite at h
  split at h
  · cases h
  rename_i q hq
  split at h
  · rename_i m hm
    cases h
    exact Or.inl ⟨by simp [fileAt,target,hq,hm],rfl⟩
  · cases h
  · rename_i hfree
    split_ifs at h
    cases h
    exact Or.inr ⟨q,hq,hfree,rfl,rfl⟩

theorem openWrite_fileAt (h : fs.openWrite p truncate = some (n,fs')) : fs'.fileAt p = some n := by
  obtain ⟨hn,rfl⟩ | ⟨q,hp,hq,rfl,rfl⟩ := openWrite_cases h
  · split <;> simpa using hn
  · exact fileAt_addFile hp hq

theorem openWrite_truncate (h : fs.openWrite p true = some (n,fs')) : fs'.contents n = [] := by
  obtain ⟨hn,rfl⟩ | ⟨q,hp,hq,rfl,rfl⟩ := openWrite_cases h
  · simp
  · simp [addFile]

theorem openWrite_of_free (hp : fs.names p = none)
    (h : fs.openWrite p truncate = some (n,fs')) : n = fs.next ∧ fs' = fs.addFile p := by
  obtain ⟨hn,-⟩ | ⟨q,hq,-,rfl,rfl⟩ := openWrite_cases h
  · simp [fileAt,target,resolve_of_free hp,hp] at hn
  · obtain rfl := Option.some.inj ((resolve_of_free hp).symm.trans hq)
    exact ⟨rfl,rfl⟩

theorem follow_addDirs (k : ℕ) (p : Path) : follow (fs.addDirs q).names k p = follow fs.names k p := by
  induction k generalizing p with
  | zero => rfl
  | succ k ih =>
    by_cases hp : fs.names p = none ∧ p <+: q
    · have hnew : (fs.addDirs q).names p = some .dir := if_pos hp
      rw [follow_of_not_link (by simp [hnew]),follow_of_not_link (by simp [hp.1])]
    have hold : (fs.addDirs q).names p = fs.names p := if_neg hp
    simp only [follow,hold]
    split
    · exact ih _
    · rfl

theorem fileAt_addDirs : (fs.addDirs q).fileAt p = fs.fileAt p := by
  have hresolve : (fs.addDirs q).resolve p = fs.resolve p := follow_addDirs _ _
  unfold fileAt target
  rw [hresolve]
  cases fs.resolve p with
  | none => rfl
  | some t =>
    by_cases ht : fs.names t = none ∧ t <+: q
    · have hnew : (fs.addDirs q).names t = some .dir := if_pos ht
      simp [hnew,ht.1]
    · have hold : (fs.addDirs q).names t = fs.names t := if_neg ht
      simp [hold]

theorem names_addDirs_of_length (hlen : q.length < p.length) : (fs.addDirs q).names p = fs.names p := by
  refine if_neg ?_
  rintro ⟨-,hpre⟩
  have := hpre.length_le
  omega

theorem names_of_target (h : (fs.target p).isSome) : fs.names p ≠ none := by
  intro hp
  simp [target,resolve_of_free hp,hp] at h

end

/-- Whatever was there is there still, and the files hold what they held. -/
def Keeps (old new : Files) : Prop :=
  ∀ p node, old.names p = some node → new.names p = some node ∧
    ∀ n, node = .file n → new.contents n = old.contents n

section

variable {old fs new : Files}

theorem keeps_of_eq (h : new = old) : Keeps old new := by
  subst h
  exact fun _ _ hp => ⟨hp,fun _ _ => rfl⟩

theorem Keeps.trans (h : Keeps old fs) (h' : Keeps fs new) : Keeps old new := by
  intro p node hp
  obtain ⟨hfs,hcontents⟩ := h p node hp
  obtain ⟨hnew,hcontents'⟩ := h' p node hfs
  exact ⟨hnew,fun n hn => (hcontents' n hn).trans (hcontents n hn)⟩

theorem Keeps.free (h : Keeps old fs) (hp : fs.names p = none) : old.names p = none := by
  cases hold : old.names p with
  | none => rfl
  | some node => cases hp.symm.trans (h p node hold).1

theorem keeps_addDirs (fs : Files) (p : Path) : Keeps fs (fs.addDirs p) := by
  intro q node hq
  refine ⟨?_,fun _ _ => rfl⟩
  show (if fs.names q = none ∧ q <+: p then some .dir else fs.names q) = some node
  rw [if_neg (by simp [hq]),hq]

theorem keeps_addFile (hp : fs.names p = none) : Keeps fs (fs.addFile p) := by
  intro q node hq
  have hne : q ≠ p := by
    rintro rfl
    cases hp.symm.trans hq
  refine ⟨(update_of_ne hne _ _).trans hq,?_⟩
  rintro n rfl
  have := fs.named q n hq
  exact update_of_ne (by omega) _ _

/-- A name that was not there may go. -/
theorem Keeps.remove (h : Keeps old fs) (hp : old.names p = none) : Keeps old (fs.remove p) := by
  intro q node hq
  obtain ⟨hfs,hcontents⟩ := h q node hq
  have hne : q ≠ p := by
    rintro rfl
    cases hp.symm.trans hq
  exact ⟨(update_of_ne hne _ _).trans hfs,hcontents⟩

theorem Keeps.unlink (h : Keeps old fs) (hp : old.names p = none) (hu : fs.unlink p = some new) : Keeps old new := by
  unfold Files.unlink at hu
  split at hu
  · cases hu
  · cases hu
  · cases hu
    exact h.remove hp

end

end Files
end AdbShare

import AdbShare.Filesystem
import AdbShare.Onlooker

/-! What the handlers do to keep the caches in step with the device: a request that changes
something on the device goes on to invalidate what the caches may know of it, and a listing
is stored under the epoch that was read before it was fetched. -/
namespace AdbShare.Upkeep

open Filesystem Service Prog Set

/-- What can change on the device and be known to a cache: the attributes of a path and the
names in a directory. -/
inductive Matter
  | attrs (path : Path)
  | names (path : Path)
  deriving DecidableEq

namespace Matter

def path : Matter → Path
  | .attrs p | .names p => p

def isAttrs : Matter → Bool
  | .attrs _ => true
  | .names _ => false

def isNames (m : Matter) : Bool := !m.isAttrs

end Matter

/-- What `invalidate_parent_listing` sees to. -/
def kin (p : Path) : Set Matter := {m | Path.parent p = some m.path}

/-- A path's own attributes and what concerns its parent. -/
def near (p : Path) : Set Matter := {.attrs p} ∪ kin p

/-- Everything at and below a path. -/
def below (p : Path) : Set Matter := {m | p <+: m.path}

/-- What an action drops from a cache, or replaces there. -/
def pays : (β : Type) → Act β → Set Matter
  | _, .statPut path _ | _, .statInvalidate path => {.attrs path}
  | _, .statInvalidatePrefix base => {m | m.isAttrs = true ∧ base <+: m.path}
  | _, .dirInvalidate path => {.names path}
  | _, .dirInvalidatePrefix base => {m | m.isNames = true ∧ base <+: m.path}
  | _, _ => ∅

/-- Does a change of this matter by the call count? The names in directories are changed by
`create`, `mkdir`, `symlink`, `unlink`, `rmdir` and `rename`, and attributes by those and by
`write`, by an `open` that truncates and by a `setattr` with a size. -/
def counts (q : Req) : {β : Type} → Call β → Matter → Bool
  | _, .openFile _ flags _, m =>
    match q with
    | .create _ _ _ _ => true
    | _ => m.isAttrs && OpenFlags.contains flags OpenFlags.TRUNC
  | _, .writeAt _ _ _, m | _, .truncate _ _, m => m.isAttrs
  | _, .mkdir _ _, _ | _, .symlink _ _, _ | _, .unlink _, _ | _, .rmdir _, _ | _, .rename _ _, _ => true
  | _, _, _ => false

/-- What an action may change, by its answer, for its handler to be up to it. A call that
fails changes no attributes, unless it is a truncating `open`. -/
def mayChange (q : Req) : (β : Type) → Act β → β → Set Matter
  | _, .call (.openFile path flags _), res =>
    match q, res with
    | .create _ _ _ _, .ok _ => near path
    | .create _ _ _ _, .error _ => {m | m.isNames = true}
    | _, _ => if OpenFlags.contains flags OpenFlags.TRUNC then near path else ∅
  | _, .call (.mkdir path _), .ok _ | _, .call (.symlink _ path), .ok _
  | _, .call (.unlink path), .ok _ => near path
  | _, .call (.rmdir path), .ok _ => {.names path} ∪ near path
  | _, .call (.rename src dst), .ok _ => (near src ∪ near dst) ∪ (below src ∪ below dst)
  | _, .call (.truncate path _), .ok _ =>
    match q with
    | .setattr _ true _ _ => kin path
    | _ => near path
  | _, .call (.writeAt _ _ _), .ok _ => Set.univ
  | _, .call (.mkdir _ _), .error _ | _, .call (.symlink _ _), .error _ | _, .call (.unlink _), .error _
  | _, .call (.rmdir _), .error _ | _, .call (.rename _ _), .error _ => {m | m.isNames = true}
  | _, _, _ => ∅

/-- Is what the request owes such that the rest of its handler will see to it? The path
found after a `write` is that of the file written, a `rename` that moves more than one path
knows that it moves a directory, and a `setattr` that has truncated gets its stat. -/
def Manages (q : Req) (owed : Set Matter) : (β : Type) → Act β → β → Prop
  | _, .inoToPath _, found =>
    match q with
    | .write _ _ _ _ => ∀ m ∈ owed, ∃ p, found = some p ∧ m ∈ near p
    | _ => True
  | _, .renamePaths src dst isDir, _ => isDir = false → owed ⊆ near src.1 ∪ near dst.1
  | _, .call (.lstat _), res | _, .call (.fstat _), res =>
    match q, res with
    | .setattr _ _ _ _, .error _ => owed = ∅
    | _, _ => True
  | _, _, _ => True

def May (q : Req) (owed : Set Matter) (β : Type) (a : Act β) (b : β) (changed : Set Matter) : Prop :=
  Manages q owed β a b ∧ changed ⊆ mayChange q β a b

/-- How far a request is with fetching a listing: the epoch it has read, and the directory
it has listed since, with the time of the listing. -/
structure Phase where
  epoch : Option UInt64
  listed : Option (Path × Option ℕ)

def Phase.after (ph : Phase) : (β : Type) → Act β → β → Phase
  | _, .dirEpoch, e => ⟨some e,none⟩
  | _, .call (.listdir path), .ok entries => { ph with listed := some (path,entries.fetched) }
  | _, _, _ => ph

/-- A listing is stored as it was fetched, under the epoch read before. -/
def Ready (g : Set Matter × Phase) : (β : Type) → Act β → Prop
  | _, .dirPut path entries epoch => g.2 = ⟨some epoch,some (path,entries.fetched)⟩
  | _, _ => True

def Next (q : Req) (g : Set Matter × Phase) (β : Type) (a : Act β) (b : β) (g' : Set Matter × Phase) :
    Prop :=
  ∃ changed, May q g.1 β a b changed ∧ g' = ((g.1 \ pays β a) ∪ changed,g.2.after β a b)

/-- Must the matter have been seen to before this reply? The names in directories need not
when the reply is an error. -/
def due : Reply → Matter → Bool
  | .error _, .names _ => false
  | _, _ => true

def Done (g : Set Matter × Phase) (r : Reply) : Prop := ∀ m ∈ g.1, due r m = false

/-- A program of the request that starts owing no more than this sees to everything it owes
and changes. -/
def SeesTo (q : Req) (B : Set Matter) (p : Prog Act Reply) : Prop :=
  ∀ D ⊆ B, ∀ ph, p.Obeys Ready (Next q) Done (D,ph)

variable {q : Req} {B : Set Matter} {β : Type} {a : Act β} {r : Reply} {part : Matter → Bool}
  {good : Record → ℕ → (β : Type) → Act β → Prop} {w w' : Watched Act (Fs ℕ) Req Reply Record} {t : ℕ} {m : Matter}
  {e : Event (Choice Deed) Req}

section

variable {C : Set Matter} {ρ : Type} {path : Path} {f : β → Prog Act Reply} {p : Prog Act Reply} {stat : Reading Stat}

theorem SeesTo.mono (h : SeesTo q C p) (hb : B ⊆ C) : SeesTo q B p := fun D hd ph => h D (hd.trans hb) ph

theorem seesTo_ret (h : ∀ m ∈ B, due r m = false) : SeesTo q B (.ret r) := fun _ hd _ m hm => h m (hd hm)

theorem seesTo_done (r : Reply) : SeesTo q ∅ (.ret r) := seesTo_ret fun _ hm => hm.elim

/-- The general rule for an action other than storing a listing. -/
theorem seesTo_act (ha : ∀ g, Ready g β a)
    (h : ∀ D ⊆ B, ∀ b, Manages q D β a b → SeesTo q ((D \ pays β a) ∪ mayChange q β a b) (f b)) :
    SeesTo q B (perform a >>= f) := by
  intro D hd ph
  refine obeys_perform_bind.mpr ⟨ha _,?_⟩
  rintro b _ ⟨changed,⟨hm,hc⟩,rfl⟩
  exact h D hd b hm _ (union_subset_union_right _ hc) _

/-- Actions that change nothing on the device and store no listing. -/
def Tame : (β : Type) → Act β → Prop
  | _, .call (.openFile _ _ _) | _, .call (.mkdir _ _) | _, .call (.symlink _ _) | _, .call (.unlink _)
  | _, .call (.rmdir _) | _, .call (.rename _ _) | _, .call (.truncate _ _)
  | _, .call (.writeAt _ _ _) | _, .dirPut _ _ _ => False
  | _, _ => True

theorem Tame.ready (h : Tame β a) (g : Set Matter × Phase) : Ready g β a := by
  cases a with
  | dirPut path entries epoch => exact h.elim
  | _ => trivial

theorem Tame.mayChange (h : Tame β a) (q : Req) (b : β) : Upkeep.mayChange q β a b = ∅ := by
  cases a with
  | call c => cases c <;> first | exact h.elim | rfl
  | _ => rfl

theorem seesTo_tame (ha : Tame β a) (h : ∀ b, SeesTo q (B \ pays β a) (f b)) : SeesTo q B (perform a >>= f) := by
  refine seesTo_act ha.ready ?_
  intro D hd b _
  rw [ha.mayChange q b,union_empty]
  exact (h b).mono (sdiff_subset_sdiff_left hd)

/-- Tame actions on the way, whatever they see to. -/
theorem seesTo_step (ha : Tame β a) (h : ∀ b, SeesTo q B (f b)) : SeesTo q B (perform a >>= f) :=
  seesTo_tame ha fun b => (h b).mono sdiff_subset

theorem seesTo_tame_bind {p : Prog Act ρ} {f : ρ → Prog Act Reply} (hp : p.Only Tame)
    (h : ∀ x, SeesTo q B (f x)) : SeesTo q B (p >>= f) := by
  induction p with
  | ret x => exact h x
  | act a k ih => exact seesTo_step hp.1 fun b => ih b (hp.2 b)

theorem seesTo_parent {f : Unit → Prog Act Reply} (h : SeesTo q (B \ kin path) (f ())) :
    SeesTo q B (invalidateParentListing path >>= f) := by
  unfold invalidateParentListing
  split
  · rename_i par hpar
    refine seesTo_tame trivial fun _ => ?_
    refine seesTo_tame trivial fun _ => h.mono ?_
    rintro m ⟨⟨hm,hnames⟩,hattrs⟩
    refine ⟨hm,?_⟩
    intro hkin
    cases hpar.symm.trans hkin
    cases m with
    | attrs p => exact hattrs rfl
    | names p => exact hnames rfl
  · rename_i hpar
    refine h.mono fun m hm => ⟨hm,?_⟩
    intro hkin
    cases hpar.symm.trans hkin

theorem seesTo_invalidate {f : Unit → Prog Act Reply}
    (h : SeesTo q (B \ {.attrs path}) (f ())) : SeesTo q B (perform (.statInvalidate path) >>= f) :=
  seesTo_tame trivial fun _ => h

theorem seesTo_put {f : Unit → Prog Act Reply}
    (h : SeesTo q (B \ {.attrs path}) (f ())) : SeesTo q B (perform (.statPut path stat) >>= f) :=
  seesTo_tame trivial fun _ => h

end

section

variable {ino parent : ℕ} {name : Bytes} {body : ChildPath → Path → Prog Act Reply}

theorem tame_inoFor (path : Path) : (inoFor path).Only Tame := by
  refine only_perform_bind trivial ?_
  intro r
  split
  · exact ⟨trivial,fun _ => trivial⟩
  · trivial

theorem tame_resolveChild (parent : ℕ) (name : Bytes) : (resolveChild parent name).Only Tame := by
  refine only_perform_bind trivial ?_
  intro p
  cases p <;> trivial

theorem tame_openHandle (fh : Option ℕ) : (openHandle fh).Only Tame := by
  cases fh with
  | some fh => exact ⟨trivial,fun _ => trivial⟩
  | none => trivial

theorem tame_probeIsDir (src text : Path) : (probeIsDir src text).Only Tame := by
  refine only_perform_bind trivial ?_
  intro cached
  cases cached with
  | some s => trivial
  | none =>
    refine only_perform_bind trivial ?_
    intro res
    cases res <;> trivial

theorem tame_closeFile (file : Option ProxyFile) : (closeFile file).Only Tame := by
  cases file with
  | some file => exact ⟨trivial,fun _ => trivial⟩
  | none => trivial

theorem tame_adoptListingEntry (parent : Path) (entry : Reading DirEntry) (fresh : Bool) :
    (adoptListingEntry parent entry fresh).Only Tame := by
  refine only_bind (tame_inoFor _) ?_
  intro ino
  cases fresh with
  | true => exact ⟨trivial,fun _ => trivial⟩
  | false => trivial

theorem seesTo_withPath {body : Path → Path → Prog Act Reply}
    (h : ∀ path, SeesTo q ∅ (body path path)) : SeesTo q ∅ (withPath ino body) := by
  refine seesTo_step trivial fun path => ?_
  split
  · exact seesTo_done _
  split
  · exact seesTo_done _
  · rename_i ht
    exact Path.toText_eq ht ▸ h _

theorem seesTo_withChild (h : ∀ path, SeesTo q ∅ (body path path.1)) : SeesTo q ∅ (withChild parent name body) := by
  refine seesTo_tame_bind (tame_resolveChild parent name) fun path => ?_
  split
  · exact seesTo_done _
  split
  · exact seesTo_done _
  · rename_i ht
    exact Path.toText_eq ht ▸ h _

theorem seesTo_addEntries (path : Path) (fresh : Bool) (fetched : Option ℕ) (es : List (DirEntry × ℕ))
    (reply : ReplyDirectory) : SeesTo q ∅ (addEntries path fresh fetched es reply) := by
  induction es generalizing reply with
  | nil => exact seesTo_done _
  | cons e es ih => exact seesTo_tame_bind (tame_adoptListingEntry _ _ _) fun _ => ih _

end

section

variable {c : Call β} {f : Except ProxyError β → Prog Act Reply}

theorem seesTo_lookup (parent : ℕ) (name : Bytes) : SeesTo q ∅ (lookup parent name) := by
  refine seesTo_withChild fun path => seesTo_step trivial fun res => ?_
  split
  · exact seesTo_step trivial fun _ =>
      seesTo_tame_bind (tame_inoFor path.1) fun _ => seesTo_done _
  · exact seesTo_done _
  · exact seesTo_done _

theorem seesTo_getattr (ino : ℕ) (fh : Option ℕ) : SeesTo q ∅ (getattr ino fh) := by
  refine seesTo_step trivial fun path => ?_
  split
  · exact seesTo_done _
  refine seesTo_tame_bind (tame_openHandle fh) fun file => ?_
  split
  · refine seesTo_step trivial fun res => ?_
    split <;> exact seesTo_done _
  refine seesTo_step trivial fun cached => ?_
  split
  · exact seesTo_done _
  split
  · exact seesTo_done _
  refine seesTo_step trivial fun res => ?_
  split
  · exact seesTo_step trivial fun _ => seesTo_done _
  · exact seesTo_done _

theorem seesTo_readdir (ino offset : ℕ) (reply : ReplyDirectory) : SeesTo q ∅ (readdir ino offset reply) := by
  refine seesTo_withPath fun path => seesTo_step trivial fun cached => ?_
  split
  · exact seesTo_addEntries _ _ _ _ _
  intro D hd ph
  obtain rfl := subset_empty_iff.mp hd
  refine obeys_perform_bind.mpr ⟨trivial,?_⟩
  rintro e _ ⟨changed,⟨-,hc⟩,rfl⟩
  obtain rfl := subset_empty_iff.mp hc
  refine obeys_perform_bind.mpr ⟨trivial,?_⟩
  rintro res _ ⟨changed,⟨-,hc⟩,rfl⟩
  obtain rfl := subset_empty_iff.mp hc
  cases res with
  | error err => exact seesTo_done _ _ (by simp) _
  | ok entries =>
    refine obeys_perform_bind.mpr ⟨rfl,?_⟩
    rintro _ _ ⟨changed,⟨-,hc⟩,rfl⟩
    obtain rfl := subset_empty_iff.mp hc
    exact seesTo_addEntries _ _ _ _ _ _ (by simp) _

theorem seesTo_call (h : ∀ res, SeesTo q (mayChange q _ (.call c) res) (f res)) : SeesTo q ∅ (perform (.call c) >>= f) := by
  refine seesTo_act (fun _ => trivial) ?_
  intro D hd res _
  refine (h res).mono ?_
  rintro m (hm | hm)
  · exact (hd hm.1).elim
  · exact hm

theorem seesTo_failed (e : Errno) : SeesTo q {m | m.isNames} (.ret (.error e)) := by
  refine seesTo_ret ?_
  rintro (p | p) hm
  · cases hm
  · rfl

theorem near_done (p : Path) : (near p \ kin p) \ {.attrs p} ⊆ ∅ := by
  rintro m ⟨⟨hm | hm,hkin⟩,hattrs⟩
  · exact hattrs hm
  · exact hkin hm

theorem near_done_comm (p : Path) : (near p \ {.attrs p}) \ kin p ⊆ ∅ := by
  rw [Set.sdiff_sdiff_comm]
  exact near_done p

theorem seesTo_unlink (parent : ℕ) (name : Bytes) : SeesTo q ∅ (unlink parent name) := by
  refine seesTo_withChild fun path => seesTo_call fun res => ?_
  cases res with
  | error e => exact seesTo_failed _
  | ok _ => exact seesTo_parent (seesTo_invalidate ((seesTo_done _).mono (near_done path.1)))

theorem seesTo_rmdir (parent : ℕ) (name : Bytes) : SeesTo q ∅ (rmdir parent name) := by
  refine seesTo_withChild fun path => seesTo_call fun res => ?_
  cases res with
  | error e => exact seesTo_failed _
  | ok _ =>
    refine seesTo_tame trivial fun _ => SeesTo.mono (C:=near path.1) ?_ ?_
    · exact seesTo_parent (seesTo_invalidate ((seesTo_done _).mono (near_done path.1)))
    · rintro m ⟨hm | hm,hnames⟩
      · exact (hnames hm).elim
      · exact hm

theorem seesTo_mkdir (parent : ℕ) (name : Bytes) (mode : UInt32) : SeesTo q ∅ (mkdir parent name mode) := by
  refine seesTo_withChild fun path => seesTo_call fun res => ?_
  cases res with
  | error e => exact seesTo_failed _
  | ok _ =>
    refine seesTo_tame_bind (tame_inoFor path.1) fun ino => seesTo_step trivial fun stat => ?_
    exact seesTo_parent (seesTo_put ((seesTo_done _).mono (near_done path.1)))

theorem seesTo_create (parent : ℕ) (name : Bytes) (mode flags : UInt32) :
    SeesTo (.create parent name mode flags) ∅ (create parent name mode flags) := by
  refine seesTo_withChild fun path => seesTo_call fun res => ?_
  cases res with
  | error e => exact seesTo_failed _
  | ok file =>
    refine seesTo_step trivial fun fh => seesTo_tame_bind (tame_inoFor path.1) fun ino => ?_
    refine seesTo_step trivial fun stat => ?_
    exact seesTo_parent (seesTo_put ((seesTo_done _).mono (near_done path.1)))

theorem seesTo_symlink (parent : ℕ) (linkName target : Bytes) : SeesTo q ∅ (symlink parent linkName target) := by
  refine seesTo_tame_bind (tame_resolveChild parent linkName) fun path => ?_
  split
  · exact seesTo_done _
  rename_i path
  refine seesTo_call fun res => ?_
  cases res with
  | error e => exact seesTo_failed _
  | ok _ =>
    refine seesTo_step trivial fun stat => seesTo_tame_bind (tame_inoFor path.1) fun ino => ?_
    exact seesTo_parent (seesTo_put ((seesTo_done _).mono (near_done path.1)))

theorem seesTo_finishOpen (res : Except ProxyError ProxyFile) : SeesTo q ∅ (finishOpen res) := by
  cases res with
  | error e => exact seesTo_done _
  | ok file => exact seesTo_step trivial fun _ => seesTo_done _

theorem seesTo_openFile (ino : ℕ) (flags : UInt32) : SeesTo (.openFile ino flags) ∅ (openFile ino flags) := by
  refine seesTo_withPath fun path => seesTo_call fun res => ?_
  by_cases ht : OpenFlags.contains (openFlags flags) OpenFlags.TRUNC
  · simp only [mayChange,ht,if_true]
    exact seesTo_invalidate (seesTo_parent ((seesTo_finishOpen res).mono (near_done_comm path)))
  · simp only [mayChange,ht]
    exact seesTo_finishOpen res

theorem seesTo_write (ino fh : ℕ) (offset : UInt64) (data : Bytes) :
    SeesTo (.write ino fh offset data) ∅ (write ino fh offset data) := by
  refine seesTo_step trivial fun file => ?_
  split
  · exact seesTo_done _
  refine seesTo_call fun res => ?_
  cases res with
  | error e => exact seesTo_done _
  | ok _ =>
    refine seesTo_act (fun _ => trivial) fun D _ found hm => ?_
    cases found with
    | none =>
      refine (seesTo_done _).mono ?_
      rintro m (⟨hd,-⟩ | hm')
      · obtain ⟨p,hp,-⟩ := hm m hd
        cases hp
      · exact hm'
    | some path =>
      refine SeesTo.mono (C:=near path) ?_ ?_
      · exact seesTo_invalidate (seesTo_parent ((seesTo_done _).mono (near_done_comm path)))
      rintro m (⟨hd,-⟩ | hm')
      · obtain ⟨p,hp,hmem⟩ := hm m hd
        cases hp
        exact hmem
      · exact hm'.elim

/-- Everything that moved is dropped from the caches. -/
theorem seesTo_invalidateAfterRename (src dst : Path) (isDir : Bool)
    (hB : ∀ m ∈ B, m ∈ near src ∪ near dst ∨ isDir ∧ m ∈ below src ∪ below dst) :
    SeesTo q B (invalidateAfterRename src dst isDir >>= fun _ => .ret .ok) := by
  unfold invalidateAfterRename
  simp only [Prog.bind_assoc]
  refine seesTo_parent (seesTo_parent ?_)
  cases isDir with
  | false =>
    refine seesTo_invalidate (seesTo_invalidate ((seesTo_done _).mono ?_))
    rintro m ⟨⟨⟨⟨hm,hks⟩,hkd⟩,hs⟩,hd⟩
    obtain (hm | hm) | ⟨hf,-⟩ := hB m hm
    · exact near_done src ⟨⟨hm,hks⟩,hs⟩
    · exact near_done dst ⟨⟨hm,hkd⟩,hd⟩
    · cases hf
  | true =>
    refine seesTo_tame trivial fun _ => seesTo_tame trivial fun _ => ?_
    refine seesTo_tame trivial fun _ => seesTo_tame trivial fun _ => (seesTo_done _).mono ?_
    rintro m ⟨⟨⟨⟨⟨⟨hm,hks⟩,hkd⟩,hps⟩,hpd⟩,hns⟩,hnd⟩
    have hunder : ¬ (src <+: m.path ∨ dst <+: m.path) := by
      cases m with
      | attrs p => exact fun h => h.elim (fun h => hps ⟨rfl,h⟩) fun h => hpd ⟨rfl,h⟩
      | names p => exact fun h => h.elim (fun h => hns ⟨rfl,h⟩) fun h => hnd ⟨rfl,h⟩
    obtain ((hm | hm) | (hm | hm)) | ⟨-,hm⟩ := hB m hm
    · exact hunder (Or.inl (by rw [hm]; exact List.prefix_refl _))
    · exact hks hm
    · exact hunder (Or.inr (by rw [hm]; exact List.prefix_refl _))
    · exact hkd hm
    · exact hunder hm

theorem seesTo_renameFrom (src dst : ChildPath) : SeesTo q ∅ (renameFrom src dst src.1 dst.1) := by
  refine seesTo_tame_bind (tame_probeIsDir src.1 src.1) fun isDir => seesTo_call fun res => ?_
  cases res with
  | error e => exact seesTo_failed _
  | ok _ =>
    refine seesTo_act (fun _ => trivial) fun D hd _ hm => seesTo_invalidateAfterRename _ _ _ ?_
    rintro m (⟨hmD,-⟩ | hm')
    · cases isDir with
      | false => exact Or.inl (hm rfl hmD)
      | true => exact (hd hmD).imp_right fun h => ⟨rfl,h⟩
    · exact hm'.elim

theorem seesTo_rename (parent : ℕ) (name : Bytes) (newparent : ℕ) (newname : Bytes) (flags : UInt32) :
    SeesTo q ∅ (rename parent name newparent newname flags) := by
  refine seesTo_tame_bind (tame_resolveChild parent name) fun src => ?_
  split
  · exact seesTo_done _
  refine seesTo_tame_bind (tame_resolveChild newparent newname) fun dst => ?_
  split
  · exact seesTo_done _
  split
  · rename_i hs hd
    rw [Path.toText_eq hs,Path.toText_eq hd]
    unfold renameChecked
    split
    · exact seesTo_done _
    split
    · refine seesTo_step trivial fun res => ?_
      split
      · exact seesTo_done _
      · exact seesTo_renameFrom _ _
      · exact seesTo_done _
    · exact seesTo_renameFrom _ _
  · exact seesTo_done _

theorem seesTo_setattrRest (ino : ℕ) (path text : Path) (size : Option UInt64) (fh : Option ℕ) :
    SeesTo (.setattr ino false size fh) {.attrs path} (setattrRest ino path text false fh) := by
  refine seesTo_tame_bind (tame_openHandle fh) fun file => ?_
  have hfinish : ∀ (a : Act (Except ProxyError (Reading Stat))) (k : _ → Prog Act Reply), Tame _ a →
      (∀ D e, Manages (.setattr ino false size fh) D _ a (.error e) → D = ∅) →
      (∀ e, k (.error e) = .ret (.error (proxyToErrno e))) →
      (∀ stat, k (.ok stat) = perform (.statPut path stat) >>= fun _ => .ret (.attr (stat.attr ino))) →
      SeesTo (.setattr ino false size fh) {.attrs path} (perform a >>= k) := by
    intro a k ha hm herror hok
    refine seesTo_act ha.ready fun D hd res hres => ?_
    rw [ha.mayChange,union_empty]
    cases res with
    | error e =>
      obtain rfl := hm D e hres
      rw [herror]
      exact (seesTo_done _).mono sdiff_subset
    | ok stat =>
      rw [hok]
      refine seesTo_put ((seesTo_done _).mono ?_)
      rintro m ⟨⟨hmD,-⟩,hne⟩
      exact hne (hd hmD)
  cases file with
  | some file => exact hfinish (.call (.fstat file)) _ trivial (fun _ _ h => h) (fun _ => rfl) fun _ => rfl
  | none => exact hfinish (.call (.lstat text)) _ trivial (fun _ _ h => h) (fun _ => rfl) fun _ => rfl

theorem seesTo_setattr (ino : ℕ) (others : Bool) (size : Option UInt64) (fh : Option ℕ) :
    SeesTo (.setattr ino others size fh) ∅ (setattr ino others size fh) := by
  refine seesTo_withPath fun path => ?_
  cases others with
  | true =>
    cases size with
    | none => exact seesTo_done _
    | some n =>
      refine seesTo_call fun res => ?_
      cases res with
      | error e => exact seesTo_done _
      | ok _ => exact seesTo_parent ((seesTo_done _).mono fun m hm => hm.2 hm.1)
  | false =>
    cases size with
    | none => exact (seesTo_setattrRest ino path path none fh).mono (empty_subset _)
    | some n =>
      refine seesTo_call fun res => ?_
      cases res with
      | error e => exact seesTo_done _
      | ok _ =>
        refine seesTo_parent ((seesTo_setattrRest ino path path (some n) fh).mono ?_)
        rintro m ⟨hm | hm,hkin⟩
        · exact hm
        · exact (hkin hm).elim

/-- Every handler sees to what its request changes. -/
theorem seesTo_handler (q : Req) : SeesTo q ∅ (handler q) := by
  cases q with
  | lookup parent name => exact seesTo_lookup parent name
  | forget ino nlookup => exact seesTo_step trivial fun _ => seesTo_done _
  | getattr ino fh => exact seesTo_getattr ino fh
  | readdir ino offset reply => exact seesTo_readdir ino offset reply
  | symlink parent linkName target => exact seesTo_symlink parent linkName target
  | readlink ino =>
    refine seesTo_withPath fun path => seesTo_step trivial fun res => ?_
    split <;> exact seesTo_done _
  | openFile ino flags => exact seesTo_openFile ino flags
  | read fh offset size =>
    refine seesTo_step trivial fun file => ?_
    split
    · exact seesTo_done _
    · refine seesTo_step trivial fun res => ?_
      split <;> exact seesTo_done _
  | write ino fh offset data => exact seesTo_write ino fh offset data
  | release ino fh =>
    refine seesTo_step trivial fun file => seesTo_tame_bind (tame_closeFile file) fun _ => ?_
    refine seesTo_step trivial fun path => ?_
    split
    · exact seesTo_step trivial fun _ => seesTo_done _
    · exact seesTo_done _
  | create parent name mode flags => exact seesTo_create parent name mode flags
  | mkdir parent name mode => exact seesTo_mkdir parent name mode
  | unlink parent name => exact seesTo_unlink parent name
  | rmdir parent name => exact seesTo_rmdir parent name
  | rename parent name newparent newname flags => exact seesTo_rename parent name newparent newname flags
  | setattr ino others size fh => exact seesTo_setattr ino others size fh

end

/-- What the device does on a request: how it answers and what it changes. -/
structure Deed where
  oracle : Oracle
  changed : Matter → Bool

/-- Readings bear the stamp of the request that fetched them. -/
def stampedAt (n : ℕ) (x : Oracle) : Oracle :=
  { x with
    stat := x.stat.map fun r => ⟨r.value,some n⟩
    listing := x.listing.map fun r => ⟨r.value,some n⟩ }

/-- A device whose state is the number of requests it has answered. -/
def stamped : Device ℕ Deed where
  answer := fun c x n => ((stampedAt (n+1) x.oracle).answer c,n+1)

/-- What an action changes, of the part that is watched. -/
def changes (part : Matter → Bool) (q : Req) (x : Choice Deed) : {β : Type} → Act β → Matter → Bool
  | _, .call c, m => counts q c m && (part m && x.device.changed m)
  | _, _, _ => false

def bump : {β : Type} → Act β → ℕ
  | _, .dirInvalidate _ | _, .dirInvalidatePrefix _ => 1
  | _, _ => 0

/-- The notes on a run: changes, how far each request is with its listing, how often the
epoch was bumped, and how often that had happened when each request read it. -/
structure Record where
  notes : Notes Matter
  phases : ℕ → Phase
  bumps : ℕ
  readAt : ℕ → ℕ

def noPhase : Phase := ⟨none,none⟩

def readsEpoch : {β : Type} → Act β → Bool
  | _, .dirEpoch => true
  | _, _ => false

/-- Watch one part of the matters. -/
def onlooker (part : Matter → Bool) : Onlooker Act (Fs ℕ) (Choice Deed) Req Reply Record where
  start := fun _ _ r => r
  act := fun t q β a x s b r =>
    { notes := r.notes.act t (changes part q x a) (pays β a) (s.device+1)
      phases := Function.update r.phases t ((r.phases t).after β a b)
      bumps := r.bumps+bump a
      readAt := if readsEpoch a then Function.update r.readAt t r.bumps else r.readAt }
  reply := fun t _ r c =>
    { c with notes := c.notes.reply t (due r), phases := Function.update c.phases t noPhase }

/-- The device answers every request for good, says that paths have this stat and changes
these matters when it changes anything. -/
def deed (stat : Stat) (changed : List Matter) : Choice Deed :=
  ⟨0,⟨(goesWell stat).device,fun m => changed.contains m⟩⟩

/-- A new mount on a device that has answered no request. -/
def opening : Watched Act (Fs ℕ) Req Reply Record :=
  ⟨start 0,⟨Notes.blank,fun _ => noPhase,0,fun _ => 0⟩⟩

/-- What is noted about a thread. -/
def ledger (r : Record) (t : ℕ) : Set Matter × Phase := (r.notes.owes t,r.phases t)

/-- Each action changes what its handler is up to, and meets a further condition. -/
def Usual (part : Matter → Bool) (good : Record → ℕ → (β : Type) → Act β → Prop)
    (w : Watched Act (Fs ℕ) Req Reply Record) (e : Event (Choice Deed) Req) : Prop :=
  ∀ t x q (β : Type) (a : Act β) (k : β → Prog Act Reply) b s, e = .act t x →
    w.config.threads t = some (q,.act a k) → run stamped a x w.config.shared = some (b,s) →
      May q (w.notes.notes.owes t) β a b {m | changes part q x a m = true} ∧ good w.notes t β a

section

variable {s : Fs ℕ} {k : β → Prog Act Reply} {x : Choice Deed} {b : β} {stat : Stat} {l : List Matter}

theorem usual_start : Usual part good w (.start t q) := by
  intro _ _ _ _ _ _ _ _ he
  cases he

theorem usual_reply : Usual part good w (.reply t) := by
  intro _ _ _ _ _ _ _ _ he
  cases he

theorem usual_act (ht : w.config.threads t = some (q,.act a k)) (hr : run stamped a x w.config.shared = some (b,s))
    (hmay : May q (w.notes.notes.owes t) β a b {m | changes part q x a m})
    (hg : good w.notes t β a) : Usual part good w (.act t x) := by
  intro t' x' q' β' a' k' b' s' he ht' hr'
  cases he
  rw [ht] at ht'
  cases ht'
  rw [hr] at hr'
  cases hr'
  exact ⟨hmay,hg⟩

/-- An action that changes nothing. -/
theorem usual_plain (ht : w.config.threads t = some (q,.act a k)) (hr : run stamped a x w.config.shared = some (b,s))
    (hm : Manages q (w.notes.notes.owes t) β a b) (hc : ∀ m, changes part q x a m = false)
    (hg : good w.notes t β a) : Usual part good w (.act t x) := by
  refine usual_act ht hr ⟨hm,?_⟩ hg
  intro m hm'
  cases (hc m).symm.trans hm'

theorem mem_of_changes (h : changes part q (deed stat l) a m) : m ∈ l := by
  cases a with
  | call c =>
    simp only [changes,deed,Bool.and_eq_true,List.contains_iff_mem] at h
    exact h.2.2
  | _ => cases h

theorem usual_change (ht : w.config.threads t = some (q,.act a k))
    (hr : run stamped a (deed stat l) w.config.shared = some (b,s)) (hm : Manages q (w.notes.notes.owes t) β a b)
    (hl : ∀ m ∈ l, m ∈ mayChange q β a b) (hg : good w.notes t β a) : Usual part good w (.act t (deed stat l)) :=
  usual_act ht hr ⟨hm,fun m hc => hl m (mem_of_changes hc)⟩ hg

end

/-- The notes about each thread suit the rest of its program. -/
abbrev Kept (w : Watched Act (Fs ℕ) Req Reply Record) : Prop :=
  Abides ledger Ready Next Done (∅,noPhase) w

theorem kept_opening : Kept opening where
  busy := by
    intro t q p h
    cases h
  free := fun _ _ => rfl

theorem watches_kept (hw : Kept w) (he : Usual part good w e)
    (h : Watches (service stamped) (onlooker part) w e w') : Kept w' := by
  refine hw.watches (fun q _ _ _ => seesTo_handler q ∅ (Set.Subset.refl _) noPhase)
    (fun _ _ _ hidle => (Function.update_eq_self_iff.mpr hidle.symm).symm) ?_ ?_ ?_ h
  · intro t q β a x s b n t' ht
    simp [ledger,onlooker,Notes.act,ht]
  · intro t q r n
    funext t'
    by_cases ht : t' = t
    · subst ht
      simp [ledger,onlooker,Notes.reply]
    · simp [ledger,onlooker,Notes.reply,ht]
  · intro t x q β a k b s he' ht hs
    exact ⟨_,(he t x q β a k b s he' ht hs).1,by simp [ledger,onlooker,Notes.act]⟩

/-- What a request that replies still owes is not due. -/
theorem Kept.done (hw : Kept w) (ht : w.config.threads t = some (q,.ret r)) (hm : m ∈ w.notes.notes.owes t) :
    due r m = false := hw.busy t q _ ht m hm

end AdbShare.Upkeep

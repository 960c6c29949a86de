import AdbShare.Disk
import AdbShare.InodeTable

/-! Which device file an inode and an open handle stand for, over requests served one
after the other. Inodes go by path; handles keep their file. -/
namespace AdbShare.OpenFile

open Filesystem Prog InodeTable Option Disk Prod Inodes

/-- The inode counter has not wrapped when a new number is drawn. -/
def NoWrap : (β : Type) → Act β → Fs Disk → Prop
  | _, .reserveIno path, s => s.inodes.pathToIno.lookup path = none → s.inodes.nextIno < 2^64
  | _, _, _ => True

def does (β : Type) (a : Act β) (s : Fs Disk) (b : β) (t : Fs Disk) : Prop :=
  NoWrap β a s ∧ ∃ x, run device a x s = some (b,t)

/-- The request is served from start to reply. -/
def Serves (q : Req) (s : Fs Disk) (r : Reply) (t : Fs Disk) : Prop := (handler q).Yields does s r t

/-- `lookup` gives this inode for the path. -/
def Bound (s : Fs Disk) (i : ℕ) (p : Path) : Prop :=
  (settled s).inoToPath.lookup i = some p ∧ (settled s).pathToIno.lookup p = some i

/-- The file at the path of the inode. -/
def Denotes (s : Fs Disk) (i f : ℕ) : Prop := ∃ p, Bound s i p ∧ s.device.names.lookup p = some f

structure Tidy (s : Fs Disk) : Prop where
  backed : (settled s).Backed
  old : ∀ i p, (settled s).inoToPath.lookup i = some p → i < (settled s).nextIno

variable {s t u : Fs Disk} {i f ino : ℕ} {q : Req} {β ρ : Type} {r : Reply} {P : Fs Disk → Prop}
  {x : Option ProxyError} {body : Path → Path → Prog Act Reply}

theorem Bound.path_unique {i : ℕ} {p q : Path} (hp : Bound s i p) (hq : Bound s i q) :
    p = q := some.inj (hp.1.symm.trans hq.1)

/-- Names stay, and so does what known inodes are bound to. -/
structure Still (s t : Fs Disk) : Prop where
  tidy : Tidy t
  names : t.device.names = s.device.names
  next : (settled s).nextIno ≤ (settled t).nextIno
  bound : ∀ i p, i < (settled s).nextIno → (Bound t i p ↔ Bound s i p)

theorem Still.refl (h : Tidy s) : Still s s := ⟨h,rfl,le_rfl,fun _ _ _ => Iff.rfl⟩

theorem Still.trans (h : Still s t) (h' : Still t u) : Still s u where
  tidy := h'.tidy
  names := h'.names.trans h.names
  next := h.next.trans h'.next
  bound := fun i p hi => (h'.bound i p (lt_of_lt_of_le hi h.next)).trans (h.bound i p hi)

theorem Still.denotes (h : Still s t) (hi : i < (settled s).nextIno) : Denotes t i f ↔ Denotes s i f := by
  constructor
  · rintro ⟨p,hp,hf⟩
    exact ⟨p,(h.bound i p hi).mp hp,by rwa [← h.names]⟩
  · rintro ⟨p,hp,hf⟩
    exact ⟨p,(h.bound i p hi).mpr hp,by rwa [h.names]⟩

/-- Actions that leave names and bindings alone. -/
def Calm : (β : Type) → Act β → Prop
  | _, .call c => ∀ d : Disk, (d.answer c).2.names = d.names
  | _, .forgetIno _ => False
  | _, .renamePaths _ _ _ => False
  | _, _ => True

theorem calm_lookups (path : Path) : Calm _ (.call (.stat path)) ∧ Calm _ (.call (.lstat path)) := by
  have h : ∀ d : Disk, (d.statAt path).2.names = d.names := by
    intro d
    unfold statAt
    split <;> rfl
  exact ⟨h,h⟩

theorem calm_fstat (file : ProxyFile) : Calm _ (.call (.fstat file)) := by
  intro d
  show (d.fstat file).2.names = d.names
  unfold fstat
  split <;> rfl

theorem calm_truncate (path : Path) (size : UInt64) : Calm _ (.call (.truncate path size)) := by
  intro d
  show (d.truncate path size).2.names = d.names
  unfold truncate
  split
  · split <;> rfl
  · rfl

/-- A new inode is bound without touching the known ones. -/
theorem still_reserve {path : Path} (h : Tidy s) (hst : s.storing = none)
    (hp : s.inodes.pathToIno.lookup path = none) (hn : s.inodes.nextIno < 2^64) : Still s { s with
      inodes := (s.inodes.reserve path).2.2
      storing := some (s.inodes.nextIno%2^64,path) } := by
  have hs : settled s = s.inodes := by simp [settled,hst]
  have hb : s.inodes.Backed := hs ▸ h.backed
  have hold : ∀ i p, s.inodes.inoToPath.lookup i = some p → i < s.inodes.nextIno := hs ▸ h.old
  rw [reserve_new hp,Nat.mod_eq_of_lt hn]
  refine ⟨⟨?_,?_⟩,rfl,?_,?_⟩
  · intro q i hq
    simp only [settled,store,Dict.lookup_insert_if] at hq ⊢
    by_cases hqp : q = path
    · simp_all
    · have hqi := hb q i (by simpa [hqp] using hq)
      simp [(hold i q hqi).ne,hqi]
  · intro i q hi
    simp only [settled,store,Dict.lookup_insert_if] at hi ⊢
    by_cases hin : i = s.inodes.nextIno
    · omega
    · have := hold i q (by simpa [hin] using hi)
      omega
  · simp [settled,hst,store]
  · intro i q hi
    rw [hs] at hi
    simp only [Bound,settled,hst,store,Dict.lookup_insert_if,hi.ne,if_false]
    by_cases hqp : q = path
    · subst hqp
      simp [hp,hi.ne']
    · simp [hqp]

theorem still_atomically (hs : Tidy s) {a : Act β} (ha : Calm β a)
    (hw : NoWrap β a s) {b : β} (h : atomically device x s a = some (b,t)) : Still s t := by
  cases atomically_tabled h with
  | known hst hp => exact Still.refl hs
  | reserved hst hp => exact still_reserve hs hst hp (hw hp)
  | @stored ino path hst =>
    have hsame : settled { s with inodes := s.inodes.store ino path, storing := none } = settled s := by
      simp [settled,hst]
    exact ⟨⟨hsame ▸ hs.backed,hsame ▸ hs.old⟩,rfl,by rw [hsame],fun i p _ => by
      unfold Bound
      rw [hsame]⟩
  | forgot | renamed => exact ha.elim
  | other hother =>
    cases a with
    | call c =>
      cases h
      have hn : (device.answer c x s.device).2.names = s.device.names := by
        cases x with
        | none => exact ha s.device
        | some e => rfl
      exact ⟨⟨hs.backed,hs.old⟩,hn,le_rfl,fun _ _ _ => Iff.rfl⟩
    | reserveIno | storePath | forgetIno | renamePaths => cases hother
    | _ =>
      cases h
      exact ⟨⟨hs.backed,hs.old⟩,rfl,le_rfl,fun _ _ _ => Iff.rfl⟩

theorem still_does (β : Type) (a : Act β) (s : Fs Disk) (b : β) (t : Fs Disk) (ha : Calm β a)
    (h : does β a s b t) (hs : Tidy s) : Still s t := by
  obtain ⟨hw,x,hx⟩ := h
  have hw' : NoWrap β a { s with now := s.now+x.elapsed } := by cases a <;> exact hw
  have hlater := still_atomically (s:={ s with now := s.now+x.elapsed }) ⟨hs.backed,hs.old⟩ ha hw' hx
  exact ⟨hlater.tidy,hlater.names,hlater.next,hlater.bound⟩

theorem still_yields {p : Prog Act ρ} (hp : p.Only Calm) {r : ρ}
    (h : p.Yields does s r t) (hs : Tidy s) : Still s t := by
  have htrans : ∀ s t u : Fs Disk, (Tidy s → Still s t) → (Tidy t → Still t u) → Tidy s → Still s u := by
    intro s t u hst htu hs
    exact (hst hs).trans (htu (hst hs).tidy)
  exact hp.yields (fun s => Still.refl) htrans still_does h hs

theorem calm_inoFor (path : Path) : (inoFor path).Only Calm := by
  refine only_perform_bind trivial ?_
  intro r
  split
  · exact ⟨trivial,fun _ => trivial⟩
  · trivial

theorem calm_invalidateParentListing (path : Path) : (invalidateParentListing path).Only Calm := by
  unfold invalidateParentListing
  split
  · exact ⟨trivial,fun _ => ⟨trivial,fun _ => trivial⟩⟩
  · trivial

theorem calm_invalidateAfterRename (src dst : Path) (isDir : Bool) :
    (invalidateAfterRename src dst isDir).Only Calm := by
  refine only_bind (calm_invalidateParentListing src) fun _ => ?_
  refine only_bind (calm_invalidateParentListing dst) fun _ => ?_
  cases isDir with
  | true => exact ⟨trivial,fun _ => ⟨trivial,fun _ => ⟨trivial,fun _ => ⟨trivial,fun _ => trivial⟩⟩⟩⟩
  | false => exact ⟨trivial,fun _ => ⟨trivial,fun _ => trivial⟩⟩

theorem calm_finishOpen (res : Except ProxyError ProxyFile) : (finishOpen res).Only Calm := by
  cases res with
  | ok file => exact ⟨trivial,fun _ => trivial⟩
  | error e => trivial

theorem calm_probeIsDir (src text : Path) : (probeIsDir src text).Only Calm := by
  refine only_perform_bind trivial ?_
  intro cached
  cases cached with
  | some s => trivial
  | none =>
    refine only_perform_bind (calm_lookups text).1 ?_
    intro res
    cases res <;> trivial

theorem only_setattrRest {P : (β : Type) → Act β → Prop} (ino : ℕ) (path text : Path) (others : Bool) (fh : Option ℕ)
    (hopen : ∀ fh, P _ (.openGet fh)) (hfstat : ∀ file, P _ (.call (.fstat file))) (hlstat : P _ (.call (.lstat text)))
    (hput : ∀ stat, P _ (.statPut path stat)) : (setattrRest ino path text others fh).Only P := by
  cases others with
  | true => trivial
  | false =>
    refine only_bind ?_ fun file => only_bind ?_ fun res => ?_
    · cases fh with
      | some fh => exact ⟨hopen fh,fun _ => trivial⟩
      | none => trivial
    · cases file with
      | some file => exact ⟨hfstat file,fun _ => trivial⟩
      | none => exact ⟨hlstat,fun _ => trivial⟩
    · cases res with
      | ok stat => exact ⟨hput stat,fun _ => trivial⟩
      | error e => trivial

theorem calm_setattrRest (ino : ℕ) (path text : Path) (others : Bool) (fh : Option ℕ) :
    (setattrRest ino path text others fh).Only Calm :=
  only_setattrRest ino path text others fh (fun _ => trivial) calm_fstat (calm_lookups text).2 fun _ => trivial

theorem only_withPath {P : (β : Type) → Act β → Prop} {ino : ℕ} {body : Path → Path → Prog Act Reply}
    (hino : P _ (.inoToPath ino)) (h : ∀ path text, (body path text).Only P) : (withPath ino body).Only P := by
  refine only_perform_bind hino ?_
  intro path
  split
  · trivial
  · split
    · trivial
    · exact h _ _

theorem calm_setattr (ino : ℕ) (others : Bool) (size : Option UInt64) (fh : Option ℕ) :
    (setattr ino others size fh).Only Calm := by
  refine only_withPath trivial fun path text => ?_
  cases size with
  | none => exact calm_setattrRest ino path text others fh
  | some n =>
    refine only_perform_bind (calm_truncate text n) ?_
    intro res
    cases res with
    | ok u => exact only_bind (calm_invalidateParentListing path) fun _ => calm_setattrRest ..
    | error e => trivial

/-- An inode that stands for a file before and after stands for the same one. -/
structure Faithful (s t : Fs Disk) : Prop where
  tidy : Tidy t
  next : (settled s).nextIno ≤ (settled t).nextIno
  file : ∀ i f g, Denotes s i f → Denotes t i g → g = f

theorem Tidy.denotes_old (h : Tidy s) (hf : Denotes s i f) : i < (settled s).nextIno := by
  obtain ⟨p,hp,-⟩ := hf
  exact h.old i p hp.1

theorem Denotes.unique {i f g : ℕ} (hf : Denotes s i f) (hg : Denotes s i g) : g = f := by
  obtain ⟨p,hp,hpf⟩ := hf
  obtain ⟨q,hq,hqg⟩ := hg
  rw [hq.path_unique hp] at hqg
  exact some.inj (hqg.symm.trans hpf)

theorem Still.faithful (hs : Tidy s) (h : Still s t) : Faithful s t :=
  ⟨h.tidy,h.next,fun _ _ _ hf hg => hf.unique ((h.denotes (hs.denotes_old hf)).mp hg)⟩

theorem Faithful.after_still (hs : Tidy s) (h : Still s t) (h' : Faithful t u) : Faithful s u :=
  ⟨h'.tidy,h.next.trans h'.next,fun i f g hf hg => h'.file i f g ((h.denotes (hs.denotes_old hf)).mpr hf) hg⟩

theorem Faithful.then_still (hs : Tidy s) (h : Faithful s t) (h' : Still t u) : Faithful s u :=
  ⟨h'.tidy,h.next.trans h'.next,fun i f g hf hg =>
    h.file i f g hf ((h'.denotes (lt_of_lt_of_le (hs.denotes_old hf) h.next)).mp hg)⟩

/-- The program is faithful from wherever it starts. -/
def Trusty {ρ : Type} (p : Prog Act ρ) : Prop :=
  ∀ s r t, Tidy s → p.Yields does s r t → Faithful s t

theorem trusty_calm {p : Prog Act ρ} (hp : p.Only Calm) : Trusty p := by
  intro s r t hs h
  exact (still_yields hp h hs).faithful hs

theorem trusty_calm_bind {ρ τ : Type} {p : Prog Act ρ} {f : ρ → Prog Act τ} (hp : p.Only Calm)
    (hf : ∀ x, Trusty (f x)) : Trusty (p >>= f) := by
  intro s r t hs h
  obtain ⟨x,u,hx,hr⟩ := yields_bind_iff.mp h
  have hu := still_yields hp hx hs
  exact (hf x u r t hu.tidy hr).after_still hs hu

/-- A request to the device fails and changes nothing, or it is answered. -/
theorem does_call {c : Call β} {b : Except ProxyError β}
    (h : does _ (.call c) s b t) : ∃ now d, t = { s with now := now, device := d } ∧
      ((∃ e, b = .error e ∧ d = s.device) ∨ s.device.answer c = (b,d)) := by
  obtain ⟨-,x,hx⟩ := h
  simp only [run,atomically,some.injEq,Prod.mk.injEq] at hx
  obtain ⟨hb,rfl⟩ := hx
  refine ⟨_,_,rfl,?_⟩
  cases hxd : x.device with
  | none =>
    rw [hxd] at hb
    exact .inr (Prod.ext hb rfl)
  | some e =>
    rw [hxd] at hb
    exact .inl ⟨e,hb.symm,rfl⟩

theorem trusty_call_bind {β τ : Type} {c : Call β} {f : Except ProxyError β → Prog Act τ}
    (hc : ∀ (d : Disk) p g g', d.names.lookup p = some g → (d.answer c).2.names.lookup p = some g' →
      g' = g) (hf : ∀ x, (f x).Only Calm) : Trusty (perform (.call c) >>= f) := by
  intro s r t hs h
  obtain ⟨b,u,hb,hr⟩ := h
  have hu : Faithful s u := by
    obtain ⟨now,d,rfl,hd⟩ := does_call hb
    refine ⟨⟨hs.backed,hs.old⟩,le_rfl,?_⟩
    rintro i g g' ⟨p,hp,hg⟩ ⟨q,hq,hg'⟩
    obtain rfl : q = p := Bound.path_unique (s:=s) hq hp
    rcases hd with ⟨e,-,rfl⟩ | hd
    · exact some.inj (hg'.symm.trans hg)
    · exact hc s.device q g g' hg (by rw [hd]; exact hg')
  exact hu.then_still hs (still_yields (hf b) hr hu.tidy)

theorem trusty_ret (r : ρ) : Trusty (.ret r : Prog Act ρ) := trusty_calm trivial

theorem calm_resolveChild (parent : ℕ) (name : Bytes) : (resolveChild parent name).Only Calm := by
  refine only_perform_bind trivial ?_
  intro p
  cases p <;> trivial

theorem trusty_withChild {parent : ℕ} {name : Bytes} {body : ChildPath → Path → Prog Act Reply}
    (h : ∀ path, Trusty (body path path.1)) : Trusty (withChild parent name body) := by
  refine trusty_calm_bind (calm_resolveChild parent name) ?_
  intro path
  split
  · exact trusty_ret _
  split
  · exact trusty_ret _
  · rename_i ht
    exact Path.toText_eq ht ▸ h _

theorem trusty_withPath (h : ∀ path, Trusty (body path path)) : Trusty (withPath ino body) := by
  refine trusty_calm_bind ⟨trivial,fun _ => trivial⟩ ?_
  intro path
  split
  · exact trusty_ret _
  split
  · exact trusty_ret _
  · rename_i ht
    exact Path.toText_eq ht ▸ h _

theorem openFile_names (path : Path) (flags mode : UInt32) (d : Disk) (p : Path) (g g' : ℕ)
    (hg : d.names.lookup p = some g)
    (hg' : (d.answer (.openFile path flags mode)).2.names.lookup p = some g') : g' = g := by
  have hsame : d.names.lookup p = some g' → g' = g := fun h => some.inj (h.symm.trans hg)
  simp only [Disk.answer,Disk.openFile] at hg'
  cases hp : d.names.lookup path with
  | some f =>
    simp only [hp] at hg'
    split at hg'
    · exact hsame hg'
    · split at hg'
      · exact hsame hg'
      · split at hg' <;> exact hsame hg'
  | none =>
    simp only [hp] at hg'
    split at hg'
    · have hne : p ≠ path := fun he => by
        rw [he,hp] at hg
        cases hg
      refine hsame ?_
      simpa [handle,addFile,hne] using hg'
    · exact hsame hg'

theorem unlink_names (path : Path) (d : Disk) (p : Path) (g g' : ℕ) (hg : d.names.lookup p = some g)
    (hg' : (d.answer (.unlink path)).2.names.lookup p = some g') : g' = g := by
  have hsame : d.names.lookup p = some g' → g' = g := fun h => some.inj (h.symm.trans hg)
  simp only [Disk.answer,Disk.unlink] at hg'
  cases hp : d.names.lookup path with
  | some f =>
    simp only [hp] at hg'
    split at hg'
    · exact hsame hg'
    rw [Dict.lookup_erase_if] at hg'
    by_cases hpp : p = path
    · simp [hpp] at hg'
    · exact hsame (by simpa [hpp] using hg')
  | none =>
    simp only [hp] at hg'
    exact hsame hg'

/-- Renaming on the device and in the table takes each moved inode along with its file. -/
theorem faithful_rename (hs : Tidy s) (hst : s.storing = none) {src dst : Path}
    {isDir : Bool} {d : Disk} (hd : s.device.rename src dst = (.ok (),d)) :
    Faithful s { s with device := d, inodes := s.inodes.renamePaths src dst isDir } := by
  have hset : settled s = s.inodes := by simp [settled,hst]
  have hset' : settled { s with device := d, inodes := s.inodes.renamePaths src dst isDir } =
      s.inodes.renamePaths src dst isDir := by simp [settled,hst]
  have hb : s.inodes.Backed := hset ▸ hs.backed
  have hn : (s.inodes.renamePaths src dst isDir).nextIno = s.inodes.nextIno := renamePaths_nextIno
  refine ⟨⟨hset'.symm ▸ hb.renamePaths,?_⟩,?_,?_⟩
  · rw [hset',hn]
    exact renamePaths_old hb (hset ▸ hs.old)
  · rw [hset,hset',hn]
  rintro i f g ⟨p,hp,hf⟩ ⟨q,⟨-,hq⟩,hg⟩
  have hpath : ∀ p', s.inodes.pathToIno.lookup p' = some i → p' = p := by
    intro p' hp'
    have hback := hb p' i hp'
    rw [← hset] at hback
    exact some.inj (hback.symm.trans hp.1)
  rw [hset'] at hq
  rcases renamePaths_pathToIno_cases hq with ⟨rel,hrel,rfl⟩ | ⟨hne,hqi⟩
  · have he := hpath _ hrel
    exact rename_moved hd (he ▸ hf) hg
  · have he := hpath _ hqi
    exact rename_stays hd hne (he ▸ hf) hg

theorem does_renamePaths {src dst : ChildPath} {isDir : Bool} {b : Unit}
    (h : does _ (.renamePaths src dst isDir) s b t) : s.storing = none ∧
      ∃ now, t = { s with now := now, inodes := s.inodes.renamePaths src.1 dst.1 isDir } := by
  obtain ⟨-,x,hx⟩ := h
  cases hst : s.storing with
  | some e => simp [run,atomically,hst] at hx
  | none =>
    simp only [run,atomically,hst,some.injEq,Prod.mk.injEq,true_and] at hx
    exact ⟨rfl,_,hx.symm⟩

theorem trusty_renameFrom (src dst : ChildPath) : Trusty (renameFrom src dst src.1 dst.1) := by
  refine trusty_calm_bind (calm_probeIsDir src.1 src.1) ?_
  intro isDir s r t hs h
  obtain ⟨b,u,hb,hr⟩ := h
  obtain ⟨now,d,rfl,hd⟩ := does_call hb
  cases b with
  | error e =>
    obtain ⟨-,rfl⟩ : _ ∧ t = _ := hr
    obtain rfl : d = s.device := by
      obtain ⟨_,-,hd⟩ | hd := hd
      · exact hd
      · exact rename_error hd
    exact ⟨⟨hs.backed,hs.old⟩,le_rfl,fun _ _ _ hf hg => Denotes.unique hf hg⟩
  | ok v =>
    have hd : s.device.rename src.1 dst.1 = (.ok (),d) := by
      rcases hd with ⟨_,he,-⟩ | hd
      · cases he
      · exact hd
    obtain ⟨_,u,hu,hr⟩ := hr
    obtain ⟨hst,now,rfl⟩ := does_renamePaths hu
    have hf := @faithful_rename s hs hst src.1 dst.1 isDir d hd
    have hmoved : Faithful s { s with
        now := now, device := d, inodes := s.inodes.renamePaths src.1 dst.1 isDir } :=
      ⟨⟨hf.tidy.backed,hf.tidy.old⟩,hf.next,hf.file⟩
    have hcalm : (invalidateAfterRename src.1 dst.1 isDir >>= fun _ => Prog.ret Reply.ok).Only Calm :=
      only_bind (calm_invalidateAfterRename src.1 dst.1 isDir) fun _ => trivial
    exact hmoved.then_still hs (still_yields hcalm hr hmoved.tidy)

theorem trusty_renameChecked (src dst : ChildPath) (flags : UInt32) :
    Trusty (renameChecked src dst src.1 dst.1 flags) := by
  unfold renameChecked
  split
  · exact trusty_ret _
  split
  · refine trusty_calm_bind ⟨(calm_lookups dst.1).2,fun _ => trivial⟩ ?_
    intro res
    split
    · exact trusty_ret _
    · exact trusty_renameFrom src dst
    · exact trusty_ret _
  · exact trusty_renameFrom src dst

theorem trusty_rename (parent : ℕ) (name : Bytes) (newparent : ℕ) (newname : Bytes) (flags : UInt32) :
    Trusty (rename parent name newparent newname flags) := by
  refine trusty_calm_bind (calm_resolveChild parent name) ?_
  intro src
  cases src with
  | none => exact trusty_ret _
  | some src =>
    refine trusty_calm_bind (calm_resolveChild newparent newname) ?_
    intro dst
    cases dst with
    | none => exact trusty_ret _
    | some dst =>
      dsimp only
      split
      · rename_i hs hd
        rw [Path.toText_eq hs,Path.toText_eq hd]
        exact trusty_renameChecked src dst flags
      · exact trusty_ret _

theorem trusty_unlink (parent : ℕ) (name : Bytes) : Trusty (unlink parent name) := by
  refine trusty_withChild fun path => trusty_call_bind (unlink_names path.1) ?_
  intro res
  cases res with
  | error e => trivial
  | ok u => exact only_bind (calm_invalidateParentListing path.1) fun _ => ⟨trivial,fun _ => trivial⟩

theorem trusty_create (parent : ℕ) (name : Bytes) (mode flags : UInt32) : Trusty (create parent name mode flags) := by
  refine trusty_withChild fun path => trusty_call_bind (openFile_names path.1 _ mode) ?_
  intro res
  cases res with
  | error e => trivial
  | ok file =>
    refine only_perform_bind trivial fun fh => only_bind (calm_inoFor path.1) fun ino => ?_
    refine only_perform_bind (calm_lookups path.1).1 fun stat => ?_
    exact only_bind (calm_invalidateParentListing path.1) fun _ => ⟨trivial,fun _ => trivial⟩

theorem trusty_openFile (ino : ℕ) (flags : UInt32) : Trusty (Filesystem.openFile ino flags) := by
  refine trusty_withPath fun path => trusty_call_bind (openFile_names path _ _) ?_
  intro res
  split
  · refine only_perform_bind trivial fun _ => ?_
    exact only_bind (calm_invalidateParentListing path) fun _ => calm_finishOpen res
  · exact calm_finishOpen res

theorem trusty_lookup (parent : ℕ) (name : Bytes) : Trusty (lookup parent name) := by
  refine trusty_withChild fun path => trusty_calm (only_perform_bind (calm_lookups path.1).2 ?_)
  intro res
  split
  · exact only_perform_bind trivial fun _ => only_bind (calm_inoFor path.1) fun _ => trivial
  · trivial
  · trivial

/-- Requests that find, make, open, resize and rename files. -/
inductive FileReq : Req → Prop
  | lookup (parent : ℕ) (name : Bytes) : FileReq (.lookup parent name)
  | openFile (ino : ℕ) (flags : UInt32) : FileReq (.openFile ino flags)
  | create (parent : ℕ) (name : Bytes) (mode flags : UInt32) : FileReq (.create parent name mode flags)
  | unlink (parent : ℕ) (name : Bytes) : FileReq (.unlink parent name)
  | rename (parent : ℕ) (name : Bytes) (newparent : ℕ) (newname : Bytes) (flags : UInt32) :
      FileReq (.rename parent name newparent newname flags)
  | setattr (ino : ℕ) (others : Bool) (size : Option UInt64) (fh : Option ℕ) :
      FileReq (.setattr ino others size fh)

theorem trusty_handler (hq : FileReq q) : Trusty (handler q) := by
  cases hq with
  | lookup parent name => exact trusty_lookup parent name
  | openFile ino flags => exact trusty_openFile ino flags
  | create parent name mode flags => exact trusty_create parent name mode flags
  | unlink parent name => exact trusty_unlink parent name
  | rename parent name newparent newname flags => exact trusty_rename parent name newparent newname flags
  | setattr ino others size fh => exact trusty_calm (calm_setattr ino others size fh)

/-- Requests served one after the other, each ending in a state of the given kind. -/
inductive Session (P : Fs Disk → Prop) (s : Fs Disk) : Fs Disk → Prop
  | nil : Session P s s
  | serve {t u : Fs Disk} {q : Req} {r : Reply} (h : Session P s t) (hq : FileReq q)
      (hr : Serves q t r u) (hu : P u) : Session P s u

theorem Session.tidy (hs : Tidy s) (h : Session P s t) : Tidy t := by
  induction h with
  | nil => exact hs
  | serve h hq hr hu ih => exact (trusty_handler hq _ _ _ ih hr).tidy

/-- An inode that stands for some file all along stands for one file all along. -/
theorem Session.denotes (hs : Tidy s) (hf : Denotes s i f)
    (h : Session (fun t => ∃ g, Denotes t i g) s t) : Denotes t i f := by
  induction h with
  | nil => exact hf
  | serve h hq hr hu ih =>
    obtain ⟨g,hg⟩ := hu
    exact (trusty_handler hq _ _ _ (h.tidy hs) hr).file i f g ih hg ▸ hg

theorem tidy_new (d : Disk) : Tidy (Fs.new d) := ⟨init_ok.backed,init_ok.old⟩

/-- Actions that change neither the device nor the open files. -/
def Quiet : (β : Type) → Act β → Prop
  | _, .call c => ∀ d : Disk, (d.answer c).2 = d
  | _, .openInsert _ => False
  | _, .openRemove _ => False
  | _, _ => True

def SameFiles (s t : Fs Disk) : Prop := t.device = s.device ∧ t.openFiles = s.openFiles

theorem quiet_atomically {a : Act β} (ha : Quiet β a)
    {b : β} (h : atomically device x s a = some (b,t)) : SameFiles s t := by
  cases a with
  | call c =>
    cases h
    cases x with
    | none => exact ⟨ha s.device,rfl⟩
    | some e => exact ⟨rfl,rfl⟩
  | openInsert file => exact ha.elim
  | openRemove fh => exact ha.elim
  | reserveIno _ | storePath _ _ | forgetIno _ | renamePaths _ _ _ =>
    obtain ⟨_,_,rfl⟩ := atomically_table rfl h
    exact ⟨rfl,rfl⟩
  | _ =>
    cases h
    exact ⟨rfl,rfl⟩

theorem quiet_lstat (path : Path) : Quiet _ (.call (.lstat path)) := by
  intro d
  show (d.statAt path).2 = d
  unfold statAt
  split <;> rfl

theorem quiet_fstat (file : ProxyFile) : Quiet _ (.call (.fstat file)) := by
  intro d
  show (d.fstat file).2 = d
  unfold fstat
  split <;> rfl

theorem quiet_invalidateParentListing (path : Path) : (invalidateParentListing path).Only Quiet := by
  unfold invalidateParentListing
  split
  · exact ⟨trivial,fun _ => ⟨trivial,fun _ => trivial⟩⟩
  · trivial

theorem quiet_setattrRest (ino : ℕ) (path text : Path) (others : Bool) (fh : Option ℕ) :
    (setattrRest ino path text others fh).Only Quiet :=
  only_setattrRest ino path text others fh (fun _ => trivial) quiet_fstat (quiet_lstat text) fun _ => trivial

/-- Truncation resizes the file at the path or does nothing. -/
theorem truncate_sizes {d d' : Disk} {p : Path} {n : UInt64} {b : Except ProxyError Unit}
    (h : d.truncate p n = (b,d')) :
    (∃ e, b = .error e) ∧ d' = d ∨ ∃ f, d.names.lookup p = some f ∧ b = .ok () ∧ d' = d.resize f n := by
  unfold truncate at h
  split at h
  · rename_i f hf
    split at h
    · exact .inl ⟨⟨_,(mk.inj h).1.symm⟩,(mk.inj h).2.symm⟩
    · exact .inr ⟨f,hf,(mk.inj h).1.symm,(mk.inj h).2.symm⟩
  · exact .inl ⟨⟨_,(mk.inj h).1.symm⟩,(mk.inj h).2.symm⟩

section

/-- How long each action of a request takes, and which calls fail on their way. -/
abbrev Fate := (β : Type) → Act β → Choice (Option ProxyError)

def meets (fate : Fate) (β : Type) (a : Act β) (s : Fs Disk) : Option (β × Fs Disk) := run device a (fate β a) s

def answered {β : Type} (fate : Fate) (c : Call β) (d : Disk) : Except ProxyError β × Disk :=
  device.answer c (fate _ (.call c)).device d

/-- The call for the attributes. -/
def statCall (s : Fs Disk) (p : Path) (fh : Option ℕ) : Call (Reading Stat) :=
  match fh.bind s.openFiles.lookup with
  | some x => .fstat x
  | none => .lstat p

def StatSucceeds (fate : Fate) (s : Fs Disk) (p : Path) (fh : Option ℕ) (d : Disk) : Prop :=
  ∃ stat, (answered fate (statCall s p fh) d).1 = .ok stat

variable {n : UInt64} {path p : Path} {fate : Fate} {others : Bool} {fh : Option ℕ}

theorem meets_call {β : Type} (c : Call β) : meets fate _ (.call c) s = some ((answered fate c s.device).1,
    { s with device := (answered fate c s.device).2, now := s.now+(fate _ (.call c)).elapsed }) := rfl

theorem answered_statCall (d : Disk) : (answered fate (statCall s p fh) d).2 = d := by
  have hquiet : Quiet _ (.call (statCall s p fh)) := by
    unfold statCall
    split
    · exact quiet_fstat _
    · exact quiet_lstat _
  unfold answered device
  cases (fate _ (.call (statCall s p fh))).device with
  | none => exact hquiet d
  | some e => rfl

theorem answered_truncate {e : ProxyError} {d : Disk} (h : (answered fate (.truncate p n) d).1 = .error e) :
    (answered fate (.truncate p n) d).2 = d := by
  unfold answered device at h ⊢
  cases hfate : (fate _ (.call (.truncate p n))).device with
  | some e => rfl
  | none =>
    rw [hfate] at h
    obtain ⟨-,hd⟩ | ⟨f,-,hb,-⟩ := truncate_sizes (mk.eta).symm
    · exact hd
    · cases hb.symm.trans h

/-- What `setattr` answers once the size is set and the device is in this state. -/
def restReply (fate : Fate) (s : Fs Disk) (ino : ℕ) (p : Path) (others : Bool) (fh : Option ℕ) (d : Disk) : Reply :=
  if others then .error .enosys
  else match (answered fate (statCall s p fh) d).1 with
    | .ok stat => .attr (stat.attr ino)
    | .error e => .error (proxyToErrno e)

theorem restReply_error_iff (d : Disk) : (∃ e, restReply fate s ino p others fh d = .error e) ↔
    ¬(others = false ∧ StatSucceeds fate s p fh d) := by
  unfold restReply StatSucceeds
  cases others with
  | true => simp
  | false => cases (answered fate (statCall s p fh) d).1 <;> simp

/-- What `setattr` does after the size changes nothing. -/
theorem setattrRest_play : ∃ t, (setattrRest ino path p others fh).play (meets fate) s =
    some (restReply fate s ino p others fh s.device,t) ∧ t.device = s.device := by
  unfold restReply
  cases others with
  | true => exact ⟨s,rfl,rfl⟩
  | false =>
    obtain ⟨now,hopen⟩ : ∃ now, (openHandle fh).play (meets fate) s =
        some (fh.bind s.openFiles.lookup,{ s with now := now }) := by
      cases fh <;> exact ⟨_,rfl⟩
    have hstat : statOpenOr (fh.bind s.openFiles.lookup) p = perform (.call (statCall s p fh)) := by
      unfold statCall
      cases fh.bind s.openFiles.lookup <;> rfl
    have hsame : (answered fate (statCall s p fh) s.device).2 = s.device := answered_statCall s.device
    rw [setattrRest,if_neg Bool.false_ne_true,play_bind,hopen,bind_some,hstat,play_perform_bind,meets_call]
    dsimp only
    cases (answered fate (statCall s p fh) s.device).1 with
    | ok stat => exact ⟨_,rfl,hsame⟩
    | error e => exact ⟨_,rfl,hsame⟩

/-- An unknown inode is refused; else the size is set first. -/
theorem setattr_play (fate : Fate) (s : Fs Disk) (ino : ℕ) (others : Bool) (n : UInt64) (fh : Option ℕ) :
    ∃ now, (setattr ino others (some n) fh).play (meets fate) s =
      match (s.inodes.inoToPath.lookup ino).bind Path.toText with
      | none => some (.error .einval,{ s with now := now })
      | some p =>
        match answered fate (.truncate p n) s.device with
        | (.error e,d) => some (.error (proxyToErrno e),{ s with device := d, now := now })
        | (.ok (),d) => (invalidateParentListing p >>= fun _ => setattrRest ino p p others fh).play (meets fate)
            { s with device := d, now := now } := by
  show ∃ now, Prog.play _ (match s.inodes.inoToPath.lookup ino with | none => _ | some path => _) _ = _
  cases s.inodes.inoToPath.lookup ino with
  | none => exact ⟨_,rfl⟩
  | some path =>
    cases ht : Path.toText path with
    | none => exact ⟨_,by simp only [ht,bind_some]; rfl⟩
    | some p =>
      cases Path.toText_eq ht
      simp only [ht,bind_some,play_perform_bind,meets_call]
      refine ⟨s.now+(fate _ (.inoToPath ino)).elapsed+(fate _ (.call (.truncate path n))).elapsed,?_⟩
      obtain ⟨b,d⟩ := answered fate (.truncate path n) s.device
      cases b <;> rfl

theorem quiet_play {ρ : Type} {q : Prog Act ρ} {r : ρ} {t : Fs Disk} (hq : q.Only Quiet)
    (h : q.play (meets fate) s = some (r,t)) : SameFiles s t := by
  induction q generalizing s with
  | ret r' =>
    cases h
    exact ⟨rfl,rfl⟩
  | act a k ih =>
    obtain ⟨⟨b,u⟩,hu,hrest⟩ := bind_eq_some_iff.mp h
    have hfirst := quiet_atomically (s:={ s with now := s.now+(fate _ a).elapsed }) hq.1 hu
    have hlast := ih b (hq.2 b) hrest
    exact ⟨hlast.1.trans hfirst.1,hlast.2.trans hfirst.2⟩

theorem resized_play (fate : Fate) (s : Fs Disk) (p : Path) (ino : ℕ) (others : Bool) (fh : Option ℕ) : ∃ t,
    (invalidateParentListing p >>= fun _ => setattrRest ino p p others fh).play (meets fate) s =
      some (restReply fate s ino p others fh s.device,t) ∧ t.device = s.device := by
  obtain ⟨u,hu⟩ : ∃ u, (invalidateParentListing p).play (meets fate) s = some ((),u) := by
    unfold invalidateParentListing
    split <;> exact ⟨_,rfl⟩
  obtain ⟨hdev,hopen⟩ := quiet_play (quiet_invalidateParentListing p) hu
  obtain ⟨t,hrest,hsame⟩ : ∃ t, (setattrRest ino p p others fh).play (meets fate) u = some (_,t) ∧ _ := setattrRest_play
  rw [play_bind,hu]
  refine ⟨t,hrest.trans ?_,hsame.trans hdev⟩
  rw [restReply,restReply,statCall,statCall,hopen,hdev]

/-- The inode is known, its path names a file, and the request to resize it gets there. -/
structure Reaches (fate : Fate) (s : Fs Disk) (ino : ℕ) (n : UInt64) (p : Path) (f : ℕ) : Prop where
  path : (s.inodes.inoToPath.lookup ino).bind Path.toText = some p
  names : s.device.names.lookup p = some f
  file : s.device.isDir f = false
  sent : (fate _ (.call (.truncate p n))).device = none

/-- What `setattr` does when a size is given. It resizes the file at the path of the inode and no other, and if
nothing else is asked for and the handle is open, it answers with the attributes of the handle's file; or there
is no such file or the device fails, and then it changes nothing and fails. -/
structure SetsSize (fate : Fate) (s : Fs Disk) (ino : ℕ) (others : Bool) (n : UInt64) (fh : Option ℕ) (r : Reply)
    (t : Fs Disk) : Prop where
  resized : ∀ p f, Reaches fate s ino n p f → t.device = s.device.resize f n
  refused : (¬∃ p f, Reaches fate s ino n p f) → t.device = s.device ∧ ∃ e, r = .error e
  unsupported : ∀ p f, Reaches fate s ino n p f → others = true → r = .error .enosys
  attr : ∀ p f h x g, Reaches fate s ino n p f → others = false → fh = some h → s.openFiles.lookup h = some x →
    s.device.handles x = some g → (fate _ (.call (.fstat x))).device = none → r = .attr ((t.device.statOf g).attr ino)

theorem answered_truncate_reached (h : Reaches fate s ino n p f) :
    answered fate (.truncate p n) s.device = (.ok (),s.device.resize f n) := by
  unfold answered device
  rw [h.sent]
  show s.device.truncate p n = _
  rw [Disk.truncate,h.names]
  exact if_neg (by simp [h.file])

theorem answered_truncate_ok {d : Disk} (hp : (s.inodes.inoToPath.lookup ino).bind Path.toText = some p)
    (h : answered fate (.truncate p n) s.device = (.ok (),d)) : ∃ f, Reaches fate s ino n p f := by
  unfold answered device at h
  cases hfate : (fate _ (.call (.truncate p n))).device with
  | some e =>
    rw [hfate] at h
    cases h
  | none =>
    rw [hfate] at h
    have h : s.device.truncate p n = (.ok (),d) := h
    unfold Disk.truncate at h
    split at h
    · rename_i f hf
      split at h
      · cases h
      · rename_i hdir
        exact ⟨f,hp,hf,by simpa using hdir,hfate⟩
    · cases h

theorem restReply_attr {h x g : ℕ} {d : Disk} (hfh : fh = some h) (hx : s.openFiles.lookup h = some x)
    (hg : d.handles x = some g) (hsent : (fate _ (.call (.fstat x))).device = none) :
    restReply fate s ino p false fh d = .attr ((d.statOf g).attr ino) := by
  have hcall : statCall s p fh = .fstat x := by simp [statCall,hfh,hx]
  have hstat : answered fate (.fstat x) d = (.ok (d.statOf g),d) := by
    unfold answered device
    rw [hsent]
    show d.fstat x = _
    rw [Disk.fstat,hg]
  rw [restReply,if_neg Bool.false_ne_true,hcall,hstat]

theorem setattr_sets (fate : Fate) (s : Fs Disk) (ino : ℕ) (others : Bool) (n : UInt64) (fh : Option ℕ) : ∃ r t,
    (handler (.setattr ino others (some n) fh)).play (meets fate) s = some (r,t) ∧ SetsSize fate s ino others n fh r t := by
  obtain ⟨now,hplay⟩ := setattr_play fate s ino others n fh
  show ∃ r t, (setattr ino others (some n) fh).play (meets fate) s = some (r,t) ∧ _
  rw [hplay]
  have hpath : ∀ {p f p'}, Reaches fate s ino n p f → (s.inodes.inoToPath.lookup ino).bind Path.toText = some p' → p = p' :=
    fun hreach hp => some.inj (hreach.path.symm.trans hp)
  cases hp : (s.inodes.inoToPath.lookup ino).bind Path.toText with
  | none =>
    have hnone : ¬∃ p f, Reaches fate s ino n p f := fun ⟨p,f,hreach⟩ => nomatch hp.symm.trans hreach.path
    exact ⟨_,_,rfl,fun p f h => absurd ⟨p,f,h⟩ hnone,fun _ => ⟨rfl,_,rfl⟩,fun p f h => absurd ⟨p,f,h⟩ hnone,
      fun p f _ _ _ h => absurd ⟨p,f,h⟩ hnone⟩
  | some p =>
    dsimp only
    rcases hans : answered fate (.truncate p n) s.device with ⟨b,d⟩
    cases b with
    | error e =>
      have hsame := answered_truncate (congrArg fst hans)
      have hnone : ¬∃ p f, Reaches fate s ino n p f := by
        rintro ⟨p',f,hreach⟩
        cases hpath hreach hp
        cases hans.symm.trans (answered_truncate_reached hreach)
      rw [hans] at hsame
      exact ⟨_,_,rfl,fun p f h => absurd ⟨p,f,h⟩ hnone,fun _ => ⟨hsame,_,rfl⟩,fun p f h => absurd ⟨p,f,h⟩ hnone,
        fun p f _ _ _ h => absurd ⟨p,f,h⟩ hnone⟩
    | ok u =>
      obtain ⟨f,hreach⟩ := answered_truncate_ok hp hans
      obtain ⟨t,hrest,hdev⟩ := resized_play fate { s with device := d, now := now } p ino others fh
      have hresize : ∀ p' f', Reaches fate s ino n p' f' → t.device = s.device.resize f' n := by
        intro p' f' h
        cases hpath h hp
        exact hdev.trans (mk.inj (hans.symm.trans (answered_truncate_reached h))).2
      refine ⟨_,t,hrest,hresize,fun hnone => absurd ⟨p,f,hreach⟩ hnone,?_,?_⟩
      · rintro p' f' - rfl
        rfl
      · rintro p' f' h x g hreach' rfl hfh hx hg hsent
        rw [hdev]
        refine restReply_attr hfh hx ?_ hsent
        have hd := (hdev.symm.trans (hresize p' f' hreach'))
        exact (congrArg (fun d => Disk.handles d x) hd).trans hg

end

/-- In every session of requests served one by one on any device: `setattr` resizes the file
at the path of the inode, whatever the handle has open, and answers with the attributes of
the handle's file; and an inode stands for the same file as long as its path names one. -/
theorem inode_and_size_by_path (d : Disk) (s : Fs Disk) (hs : Session (fun _ => True) (Fs.new d) s) :
    (∀ fate ino others n fh, ∃ r t, (handler (.setattr ino others (some n) fh)).play (meets fate) s = some (r,t) ∧
      SetsSize fate s ino others n fh r t) ∧
    ∀ i f t, Denotes s i f → Session (fun t => ∃ g, Denotes t i g) s t → Denotes t i f :=
  ⟨fun fate ino others n fh => setattr_sets fate s ino others n fh,fun _ _ _ hf h => h.denotes (hs.tidy (tidy_new d)) hf⟩

/-- No request fails and no time passes. -/
def smoothly (β : Type) (a : Act β) (s : Fs Disk) : Option (β × Fs Disk) :=
  if s.inodes.nextIno < 2^64 then run device a ⟨0,none⟩ s else none

theorem serves_smoothly (h : (handler q).play smoothly s = some (r,t)) : Serves q s r t := by
  refine play_yields ?_ h
  intro β a s b t hb
  unfold smoothly at hb
  split_ifs at hb with hn
  refine ⟨?_,_,hb⟩
  cases a with
  | reserveIno path => exact fun _ => hn
  | _ => trivial

/-- The state after a request that meets no obstacle. -/
def after (q : Req) (s : Fs Disk) : Fs Disk := (((handler q).play smoothly s).map Prod.snd).getD s

theorem serves_after (h : ((handler q).play smoothly s).isSome) : ∃ r, Serves q s r (after q s) := by
  obtain ⟨⟨r,t⟩,ht⟩ := isSome_iff_exists.mp h
  have hafter : after q s = t := by simp [after,ht]
  exact ⟨r,hafter ▸ serves_smoothly ht⟩

theorem Session.after (h : Session P s t)
    (hq : FileReq q) (hr : ((handler q).play smoothly t).isSome) (hP : P (OpenFile.after q t)) :
    Session P s (OpenFile.after q t) := by
  obtain ⟨r,hr⟩ := serves_after hr
  exact .serve h hq hr hP

/-- `/a` is created on a blank device. -/
def created : Fs Disk := after (.create ROOT [97] 0 0) (Fs.new blank)

theorem created_session : Session (fun _ => True) (Fs.new blank) created :=
  Session.nil.after (.create ROOT [97] 0 0) rfl trivial

theorem created_denotes : Denotes created 100 1 := ⟨[[97]],⟨rfl,rfl⟩,rfl⟩

/-- Renaming `/a` to `/b` takes the inode along, and its file can be resized. -/
theorem inode_and_size_by_path_renamed :
    Denotes created 100 1 ∧ Denotes (after (.rename ROOT [97] ROOT [98] 0) created) 100 1 ∧
    ∃ r t, (handler (.setattr 100 false (some 5) (some 1))).play (meets fun _ _ => ⟨0,none⟩) created = some (r,t) ∧
      t.device = created.device.resize 1 5 ∧ r = .attr ((t.device.statOf 1).attr 100) := by
  have hsession : Session (fun t => ∃ g, Denotes t 100 g) created _ :=
    Session.nil.after (.rename ROOT [97] ROOT [98] 0) rfl ⟨1,[[98]],⟨rfl,rfl⟩,rfl⟩
  obtain ⟨hsize,hfile⟩ := inode_and_size_by_path blank created created_session
  obtain ⟨r,t,hplay,hsets⟩ := hsize (fun _ _ => ⟨0,none⟩) 100 false 5 (some 1)
  have hreach : Reaches (fun _ _ => ⟨0,none⟩) created 100 5 [[97]] 1 := ⟨rfl,rfl,rfl,rfl⟩
  exact ⟨created_denotes,hfile 100 1 _ created_denotes hsession,r,t,hplay,hsets.resized _ _ hreach,
    hsets.attr _ _ 1 1 1 hreach rfl rfl rfl rfl rfl⟩

/-- `/a` is unlinked and created again while the first file is still open. -/
def recreated : Fs Disk := after (.create ROOT [97] 0 0) (after (.unlink ROOT [97]) created)

theorem recreated_session : Session (fun _ => True) created recreated :=
  (Session.nil.after (.unlink ROOT [97]) rfl trivial).after (.create ROOT [97] 0 0) rfl trivial

/-- The inode of the first file now stands for the second, and resizing the first through
its handle resizes the second. -/
theorem recreated_name_takes_inode : (∃ a, Serves (.create ROOT [97] 0 0) (Fs.new blank) (.created a 1) created ∧
      a.value.ino = 100) ∧
    Denotes created 100 1 ∧ Session (fun _ => True) created recreated ∧ Denotes recreated 100 2 ∧
    recreated.openFiles.lookup 1 = some 1 ∧ recreated.device.handles 1 = some 1 ∧
    ∃ r t, Serves (.setattr 100 false (some 5) (some 1)) recreated r t ∧
      t.device.sizes 1 = recreated.device.sizes 1 ∧ t.device.sizes 2 ≠ recreated.device.sizes 2 := by
  refine ⟨⟨_,serves_smoothly rfl,rfl⟩,created_denotes,recreated_session,⟨[[97]],⟨rfl,rfl⟩,rfl⟩,rfl,rfl,?_⟩
  obtain ⟨r,hr⟩ := serves_after (q:=.setattr 100 false (some 5) (some 1)) (s:=recreated) rfl
  exact ⟨r,_,hr,rfl,by decide⟩

/-- An error reply of `setattr` means that nothing has changed, exactly unless the file was resized
before an attribute that is not supported was found in the request or its stat failed. -/
theorem setattr_error_harmless_iff (fate : Fate) (s : Fs Disk) (ino : ℕ) (others : Bool) (size : Option UInt64)
    (fh : Option ℕ) :
    (∀ e t, (handler (.setattr ino others size fh)).play (meets fate) s = some (.error e,t) → t.device = s.device) ↔
      ∀ n, size = some n → ∀ p, (s.inodes.inoToPath.lookup ino).bind Path.toText = some p →
        (answered fate (.truncate p n) s.device).2 ≠ s.device →
        others = false ∧ StatSucceeds fate s p fh (answered fate (.truncate p n) s.device).2 := by
  cases size with
  | none =>
    have hquiet : (setattr ino others none fh).Only Quiet := only_withPath trivial fun path text => quiet_setattrRest ..
    exact iff_of_true (fun e t h => (quiet_play hquiet h).1) nofun
  | some n =>
    obtain ⟨now,hplay⟩ := setattr_play fate s ino others n fh
    show (∀ e t, (setattr ino others (some n) fh).play (meets fate) s = _ → _) ↔ _
    rw [hplay]
    cases (s.inodes.inoToPath.lookup ino).bind Path.toText with
    | none => exact iff_of_true (fun e t h => by cases h; rfl) fun _ _ => nofun
    | some p =>
      simp only [some.injEq,forall_eq']
      rcases hans : answered fate (.truncate p n) s.device with ⟨b,d⟩
      cases b with
      | error e =>
        have hsame := answered_truncate (congrArg fst hans)
        rw [hans] at hsame
        exact iff_of_true (fun e t h => by cases h; exact hsame) fun hd => absurd hsame hd
      | ok u =>
        obtain ⟨t,hrest,hdev⟩ := resized_play fate { s with device := d, now := now } p ino others fh
        have herr : (∃ e, restReply fate s ino p others fh d = .error e) ↔ _ := restReply_error_iff d
        dsimp only
        rw [hrest,← not_imp_not,← herr,not_not]
        constructor
        · rintro h ⟨e,he⟩
          exact hdev.symm.trans (h e t (congrArg (fun r => some (r,t)) he))
        · rintro h e t' ht
          obtain ⟨he,rfl⟩ := mk.inj (some.inj ht)
          exact hdev.trans (h ⟨e,he⟩)

/-- `/a` is empty and gets five bytes, yet the request is refused for the mode that it also sets. -/
theorem setattr_refused_and_resized : Session (fun _ => True) (Fs.new blank) created ∧
    ∃ t, (handler (.setattr 100 true (some 5) none)).play (meets fun _ _ => ⟨0,none⟩) created = some (.error .enosys,t) ∧
      created.device.sizes 1 = 0 ∧ t.device.sizes 1 = 5 :=
  ⟨created_session,_,rfl,by decide,by decide⟩

end AdbShare.OpenFile

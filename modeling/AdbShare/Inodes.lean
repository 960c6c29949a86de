import AdbShare.Dict
import AdbShare.Path

/-! The inode table of the mount: the two maps between inode numbers and paths, and the
critical sections that change them. `path_to_ino` is locked throughout each of them. -/
namespace AdbShare

open List Dict

def ROOT : ℕ := 1

/-- A path with a parent, as `resolve_child` makes them. -/
abbrev ChildPath := {p : Path // p ≠ []}

structure Inodes where
  pathToIno : Dict Path ℕ
  inoToPath : Dict ℕ Path
  /-- The counter behind `next_ino`; the number it gives out is its low 64 bits. -/
  nextIno : ℕ

namespace Inodes

def init : Inodes where
  pathToIno := AList.insert [] ROOT ∅
  inoToPath := AList.insert ROOT [] ∅
  nextIno := 100

/-- `ino_for` up to the lock of `ino_to_path`: the inode, and whether it is new. -/
def reserve (s : Inodes) (path : Path) : ℕ × Bool × Inodes :=
  match s.pathToIno.lookup path with
  | some ino => (ino,false,s)
  | none =>
    let ino := s.nextIno%2^64
    (ino,true,{ s with pathToIno := s.pathToIno.insert path ino, nextIno := s.nextIno+1 })

/-- The rest of `ino_for`. -/
def store (s : Inodes) (ino : ℕ) (path : Path) : Inodes :=
  { s with inoToPath := s.inoToPath.insert ino path }

def forgetIno (s : Inodes) (ino : ℕ) : Inodes :=
  if ino = ROOT then s
  else match s.inoToPath.lookup ino with
    | some path =>
      { s with inoToPath := s.inoToPath.erase ino, pathToIno := s.pathToIno.erase path }
    | none => s

/-- The old inode of an overwritten destination is gone. -/
def dropDst (s : Inodes) (dst : Path) : Inodes :=
  match s.pathToIno.lookup dst with
  | some ino => { s with pathToIno := s.pathToIno.erase dst, inoToPath := s.inoToPath.erase ino }
  | none => s

/-- Take the listed paths out of `path_to_ino`, each with its inode and new path. -/
def takeStale (src dst : Path) : List Path → Dict Path ℕ → Dict Path ℕ × List (ℕ × Path)
  | [], p2i => (p2i,[])
  | old::stale, p2i =>
    match p2i.lookup old with
    | some ino =>
      let rest := takeStale src dst stale (p2i.erase old)
      (rest.1,(ino,Path.rebase src dst old)::rest.2)
    | none => takeStale src dst stale p2i

/-- Everything a rename takes out of `path_to_ino`, after the destination. -/
def takeMoved (s : Inodes) (src dst : Path) (isDir : Bool) : Dict Path ℕ × List (ℕ × Path) :=
  let self := match s.pathToIno.lookup src with
    | some ino => [(ino,dst)]
    | none => []
  let p2i := s.pathToIno.erase src
  let below := if isDir then takeStale src dst (Dict.keysWhere p2i fun p => p.startsWith src) p2i
    else (p2i,[])
  (below.1,self++below.2)

/-- The section of `rename` that moves the mappings from `src` to `dst`. -/
def renamePaths (s : Inodes) (src dst : Path) (isDir : Bool) : Inodes :=
  let s := s.dropDst dst
  let taken := s.takeMoved src dst isDir
  { s with
    inoToPath := Dict.insertAll s.inoToPath taken.2
    pathToIno := Dict.insertAll taken.1 (taken.2.map Prod.swap) }

/-- The paths whose mappings a rename takes out to put them back elsewhere. -/
def Taken (src dst : Path) (isDir : Bool) (p : Path) : Prop :=
  p ≠ dst ∧ (p = src ∨ isDir = true ∧ src <+: p)

instance (src dst : Path) (isDir : Bool) : DecidablePred (Taken src dst isDir) := fun p =>
  inferInstanceAs (Decidable (p ≠ dst ∧ (p = src ∨ isDir ∧ src <+: p)))

/-- No moved path lands on a mapping that stays. -/
def Clear (s : Inodes) (src dst : Path) (isDir : Bool) : Prop :=
  ∀ p i j, Taken src dst isDir p → s.pathToIno.lookup p = some i →
    s.pathToIno.lookup (Path.rebase src dst p) = some j →
      Path.rebase src dst p = dst ∨ Taken src dst isDir (Path.rebase src dst p)

variable {s s' : Inodes} {src dst path p q : Path} {isDir : Bool} {ino i : ℕ} {stale : List Path} {m : Dict Path ℕ}

/-- It is enough to look at the mapped paths. -/
theorem clear_iff_keys : s.Clear src dst isDir ↔
    ∀ p ∈ s.pathToIno.keys, Taken src dst isDir p → Path.rebase src dst p ∈ s.pathToIno.keys →
      Path.rebase src dst p = dst ∨ Taken src dst isDir (Path.rebase src dst p) := by
  have hkey : ∀ p, p ∈ s.pathToIno.keys ↔ ∃ i, s.pathToIno.lookup p = some i := by
    intro p
    rw [← AList.mem_keys,← AList.lookup_isSome,Option.isSome_iff_exists]
  simp only [Clear,hkey]
  constructor
  · rintro h p ⟨i,hp⟩ ht ⟨j,hj⟩
    exact h p i j ht hp hj
  · intro h p i j ht hp hj
    exact h p ⟨i,hp⟩ ht ⟨j,hj⟩

/-- The two maps are inverse to each other, the root is mapped and numbers are not
given out twice. -/
structure Ok (s : Inodes) : Prop where
  inverse : Dict.Inverse s.pathToIno s.inoToPath
  root : s.pathToIno.lookup [] = some ROOT
  old : ∀ i p, s.inoToPath.lookup i = some p → i < s.nextIno

theorem init_ok : init.Ok where
  inverse := by
    apply Dict.Inverse.insert
    · intro k v
      simp
    · rfl
    · rfl
  root := rfl
  old := by
    intro i p h
    simp only [init,lookup_insert_if] at h
    by_cases hi : i = ROOT
    · subst hi; decide
    · simp [hi] at h

theorem Ok.root_path (h : s.Ok) : s.inoToPath.lookup ROOT = some [] := (h.inverse [] ROOT).mpr h.root

/-- Nothing is mapped from the next number as long as the counter has not wrapped. -/
theorem Ok.next_free (h : s.Ok) (hn : s.nextIno < 2^64) : s.inoToPath.lookup (s.nextIno%2^64) = none := by
  rw [Nat.mod_eq_of_lt hn]
  cases hp : s.inoToPath.lookup s.nextIno with
  | none => rfl
  | some p => exact absurd (h.old _ p hp) (lt_irrefl _)

/-- `ino_for` as a whole. -/
theorem Ok.reserve_store (h : s.Ok)
    (hn : s.nextIno < 2^64) (hr : s.reserve path = (ino,true,s')) : (s'.store ino path).Ok := by
  unfold reserve at hr
  cases hp : s.pathToIno.lookup path with
  | some i => simp [hp] at hr
  | none =>
    simp only [hp,Prod.mk.injEq,true_and] at hr
    obtain ⟨rfl,rfl⟩ := hr
    refine ⟨h.inverse.insert hp (h.next_free hn),?_,?_⟩
    · have hne : ([] : Path) ≠ path := fun he => by
        rw [← he,h.root] at hp
        cases hp
      simpa [store,hne] using h.root
    · intro i p hi
      simp only [store,lookup_insert_if,Nat.mod_eq_of_lt hn] at hi ⊢
      by_cases hin : i = s.nextIno
      · omega
      · simp only [hin,if_false] at hi
        exact Nat.lt_succ_of_lt (h.old i p hi)

theorem Ok.forgetIno (h : s.Ok) (ino : ℕ) : (s.forgetIno ino).Ok := by
  unfold Inodes.forgetIno
  by_cases hr : ino = ROOT
  · simpa [hr] using h
  simp only [hr,if_false]
  cases hp : s.inoToPath.lookup ino with
  | none => exact h
  | some path =>
    have hpi := (h.inverse path ino).mp hp
    refine ⟨h.inverse.erase hpi,?_,?_⟩
    · have hne : ([] : Path) ≠ path := fun he => hr (by
        rw [← he,h.root] at hpi
        exact (Option.some.inj hpi).symm)
      simpa [hne] using h.root
    · intro i p hi
      rw [lookup_erase_if] at hi
      by_cases hii : i = ino
      · simp [hii] at hi
      · exact h.old i p (by simpa [hii] using hi)

theorem dropDst_pathToIno (s : Inodes) (dst q : Path) :
    (s.dropDst dst).pathToIno.lookup q = if q = dst then none else s.pathToIno.lookup q := by
  unfold dropDst
  cases hd : s.pathToIno.lookup dst with
  | some ino => exact lookup_erase_if s.pathToIno dst q
  | none =>
    by_cases hq : q = dst
    · subst hq
      simp [hd]
    · simp [hq]

theorem Ok.dropDst_inverse (h : s.Ok) (dst : Path) :
    Dict.Inverse (s.dropDst dst).pathToIno (s.dropDst dst).inoToPath := by
  unfold dropDst
  cases hd : s.pathToIno.lookup dst with
  | some ino => exact h.inverse.erase hd
  | none => exact h.inverse

/-- The inode of a mapped path points back to it. -/
def Backed (s : Inodes) : Prop := ∀ p i, s.pathToIno.lookup p = some i → s.inoToPath.lookup i = some p

theorem Ok.backed (h : s.Ok) : s.Backed := fun p i => (h.inverse p i).mpr

theorem Backed.inj (h : s.Backed) (hp : s.pathToIno.lookup p = some i) (hq : s.pathToIno.lookup q = some i) : p = q :=
  Option.some.inj ((h p i hp).symm.trans (h q i hq))

theorem Backed.dropDst (h : s.Backed) (dst : Path) : (s.dropDst dst).Backed := by
  intro p i hp
  rw [dropDst_pathToIno] at hp
  by_cases hpd : p = dst
  · simp [hpd] at hp
  simp only [hpd,if_false] at hp
  unfold Inodes.dropDst
  cases hd : s.pathToIno.lookup dst with
  | none => exact h p i hp
  | some d =>
    have hne : i ≠ d := fun he => hpd (h.inj hp (he ▸ hd))
    simpa [hne] using h p i hp

theorem takeStale_fst (src dst : Path) (stale : List Path) (m : Dict Path ℕ) (q : Path) :
    (takeStale src dst stale m).1.lookup q = if q ∈ stale then none else m.lookup q := by
  induction stale generalizing m with
  | nil => simp [takeStale]
  | cons old stale ih =>
    cases ho : m.lookup old with
    | some ino =>
      simp only [takeStale,ho,ih,lookup_erase_if]
      by_cases hq : q = old <;> by_cases hm : q ∈ stale <;> simp [hm]
    | none =>
      simp only [takeStale,ho,ih]
      by_cases hq : q = old
      · subst hq
        simp [ho]
      · simp [hq]

theorem mem_takeStale (hs : stale.Nodup) : (i,q) ∈ (takeStale src dst stale m).2 ↔
      ∃ old ∈ stale, m.lookup old = some i ∧ q = Path.rebase src dst old := by
  induction stale generalizing m with
  | nil => simp [takeStale]
  | cons old stale ih =>
    obtain ⟨hnew,hs⟩ := nodup_cons.mp hs
    have hkeep : ∀ p ∈ stale, (AList.erase old m).lookup p = m.lookup p := by
      intro p hp
      have hne : p ≠ old := fun he => hnew (he ▸ hp)
      simp [hne]
    cases ho : m.lookup old with
    | some ino =>
      simp only [takeStale,ho,mem_cons,Prod.mk.injEq,ih hs]
      constructor
      · rintro (⟨rfl,rfl⟩ | ⟨p,hp,hi,hq⟩)
        · exact ⟨old,.inl rfl,ho,rfl⟩
        · exact ⟨p,.inr hp,by rwa [← hkeep p hp],hq⟩
      · rintro ⟨p,rfl | hp,hi,hq⟩
        · exact .inl ⟨(Option.some.inj (ho.symm.trans hi)).symm,hq⟩
        · exact .inr ⟨p,hp,by rwa [hkeep p hp],hq⟩
    | none =>
      simp only [takeStale,ho,ih hs,mem_cons]
      constructor
      · rintro ⟨p,hp,hi,hq⟩
        exact ⟨p,.inr hp,hi,hq⟩
      · rintro ⟨p,rfl | hp,hi,hq⟩
        · simp [ho] at hi
        · exact ⟨p,hp,hi,hq⟩

theorem takeMoved_fst (s : Inodes) (src dst : Path) (isDir : Bool) (q : Path) (hq : ¬ (q = src ∨ isDir ∧ src <+: q)) :
    (s.takeMoved src dst isDir).1.lookup q = s.pathToIno.lookup q := by
  obtain ⟨hne,hbelow⟩ := not_or.mp hq
  cases isDir with
  | false => simp [takeMoved,hne]
  | true =>
    have hstale : q ∉ keysWhere (AList.erase src s.pathToIno) fun p => p.startsWith src :=
      fun h => hbelow ⟨rfl,Path.startsWith_iff.mp (mem_keysWhere.mp h).2⟩
    simp [takeMoved,takeStale_fst,hstale,hne]

theorem takeMoved_fst_none (s : Inodes) (src dst : Path) (isDir : Bool) (q : Path) (hq : q = src ∨ isDir ∧ src <+: q) :
    (s.takeMoved src dst isDir).1.lookup q = none := by
  cases isDir with
  | false =>
    obtain rfl : q = src := by simpa using hq
    simp [takeMoved]
  | true =>
    have hsrc : src <+: q := by
      rcases hq with rfl | ⟨-,h⟩
      · exact prefix_refl _
      · exact h
    simp only [takeMoved,if_true,takeStale_fst]
    cases hv : (AList.erase src s.pathToIno).lookup q with
    | none => simp
    | some i =>
      have hm : q ∈ keysWhere (AList.erase src s.pathToIno) fun p => p.startsWith src :=
        mem_keysWhere.mpr ⟨⟨i,hv⟩,Path.startsWith_iff.mpr hsrc⟩
      simp [hm]

theorem mem_takeMoved : (i,q) ∈ (s.takeMoved src dst isDir).2 ↔ ∃ p, (p = src ∨ isDir ∧ src <+: p) ∧
      s.pathToIno.lookup p = some i ∧ q = Path.rebase src dst p := by
  have hself : (i,q) ∈ (match s.pathToIno.lookup src with
      | some ino => [(ino,dst)]
      | none => []) ↔ s.pathToIno.lookup src = some i ∧ q = Path.rebase src dst src := by
    have hdst : Path.rebase src dst src = dst := by simp [Path.rebase]
    rw [hdst]
    cases hs : s.pathToIno.lookup src with
    | none => simp
    | some ino => simp [Prod.ext_iff,eq_comm]
  cases isDir with
  | false => simp [takeMoved,hself]
  | true =>
    simp only [takeMoved,if_true,mem_append,hself,mem_takeStale (keysWhere_nodup _ _)]
    constructor
    · rintro (⟨hi,hq⟩ | ⟨p,hp,hi,hq⟩)
      · exact ⟨src,.inl rfl,hi,hq⟩
      have hsrc := Path.startsWith_iff.mp (mem_keysWhere.mp hp).2
      refine ⟨p,.inr ⟨trivial,hsrc⟩,?_,hq⟩
      rw [lookup_erase_if] at hi
      by_cases hps : p = src
      · simp [hps] at hi
      · simpa [hps] using hi
    · rintro ⟨p,hp,hi,hq⟩
      by_cases hps : p = src
      · subst hps
        exact .inl ⟨hi,hq⟩
      have hsrc : src <+: p := by
        rcases hp with h | ⟨-,h⟩
        · exact absurd h hps
        · exact h
      have hi' : (AList.erase src s.pathToIno).lookup p = some i := by simpa [hps] using hi
      exact .inr ⟨p,mem_keysWhere.mpr ⟨⟨i,hi'⟩,Path.startsWith_iff.mpr hsrc⟩,hi',hq⟩

theorem prefix_of_moved (h : p = src ∨ isDir ∧ src <+: p) : src <+: p := by
  obtain rfl | ⟨-,h⟩ := h
  · exact prefix_refl _
  · exact h

section

variable {n : ℕ}

/-- An inode moves to one place. -/
theorem takeMoved_path_unique (h : s.Backed) (i : ℕ) (q q' : Path)
    (hq : (i,q) ∈ (s.takeMoved src dst isDir).2) (hq' : (i,q') ∈ (s.takeMoved src dst isDir).2) :
    q = q' := by
  obtain ⟨p,-,hp,rfl⟩ := mem_takeMoved.mp hq
  obtain ⟨p',-,hp',rfl⟩ := mem_takeMoved.mp hq'
  rw [h.inj hp hp']

theorem takeMoved_ino_unique (q : Path) (i i' : ℕ) (hi : (q,i) ∈ (s.takeMoved src dst isDir).2.map Prod.swap)
    (hi' : (q,i') ∈ (s.takeMoved src dst isDir).2.map Prod.swap) : i = i' := by
  simp only [mem_map,Prod.exists,Prod.swap_prod_mk,Prod.mk.injEq] at hi hi'
  obtain ⟨_,_,hm,rfl,rfl⟩ := hi
  obtain ⟨_,_,hm',he,rfl⟩ := hi'
  obtain ⟨p,hs,hp,hq⟩ := mem_takeMoved.mp hm
  obtain ⟨p',hs',hp',hq'⟩ := mem_takeMoved.mp hm'
  have hpp : p = p' := Path.rebase_inj (prefix_of_moved hs) (prefix_of_moved hs') (hq.symm.trans (he.symm.trans hq'))
  subst hpp
  exact Option.some.inj (hp.symm.trans hp')

theorem renamePaths_inoToPath (h : s.Backed) (i : ℕ) (q : Path) :
    (s.renamePaths src dst isDir).inoToPath.lookup i = some q ↔ (i,q) ∈ ((s.dropDst dst).takeMoved src dst isDir).2 ∨
      (∀ q', (i,q') ∉ ((s.dropDst dst).takeMoved src dst isDir).2) ∧ (s.dropDst dst).inoToPath.lookup i = some q :=
  lookup_insertAll_iff (takeMoved_path_unique (h.dropDst dst))

theorem renamePaths_pathToIno (i : ℕ) (q : Path) : (s.renamePaths src dst isDir).pathToIno.lookup q = some i ↔
      (i,q) ∈ ((s.dropDst dst).takeMoved src dst isDir).2 ∨
      (∀ i', (i',q) ∉ ((s.dropDst dst).takeMoved src dst isDir).2) ∧
        ((s.dropDst dst).takeMoved src dst isDir).1.lookup q = some i := by
  have hswap : ∀ i', (q,i') ∈ ((s.dropDst dst).takeMoved src dst isDir).2.map Prod.swap ↔
      (i',q) ∈ ((s.dropDst dst).takeMoved src dst isDir).2 := by simp
  have hl : (s.renamePaths src dst isDir).pathToIno.lookup q = some i ↔ _ := lookup_insertAll_iff takeMoved_ino_unique
  simpa only [hswap] using hl

theorem Backed.renamePaths (h : s.Backed) : (s.renamePaths src dst isDir).Backed := by
  have hd := h.dropDst dst
  intro q i hq
  rw [renamePaths_inoToPath h]
  obtain hm | ⟨-,hq⟩ := renamePaths_pathToIno i q |>.mp hq
  · exact .inl hm
  have hstay : ¬ (q = src ∨ isDir ∧ src <+: q) := fun hs => by
    rw [takeMoved_fst_none _ _ _ _ _ hs] at hq
    cases hq
  rw [takeMoved_fst _ _ _ _ _ hstay] at hq
  refine .inr ⟨?_,hd q i hq⟩
  intro q' hm
  obtain ⟨p,hp,hpi,-⟩ := mem_takeMoved.mp hm
  exact hstay (hd.inj hpi hq ▸ hp)

theorem Ok.renamePaths_inverse (h : s.Ok) (hc : s.Clear src dst isDir) :
    Dict.Inverse (s.renamePaths src dst isDir).pathToIno (s.renamePaths src dst isDir).inoToPath := by
  have hd := h.dropDst_inverse dst
  intro q i
  rw [renamePaths_inoToPath h.backed,renamePaths_pathToIno]
  constructor
  · rintro (hm | ⟨hnot,hi⟩)
    · exact .inl hm
    have hqi := (hd q i).mp hi
    have hstay : ¬ (q = src ∨ isDir ∧ src <+: q) := fun hq => hnot _ (mem_takeMoved.mpr ⟨q,hq,hqi,rfl⟩)
    refine .inr ⟨?_,by rw [takeMoved_fst _ _ _ _ _ hstay,hqi]⟩
    intro i' hm
    obtain ⟨p,hp,hpi,hq⟩ := mem_takeMoved.mp hm
    rw [dropDst_pathToIno] at hpi hqi
    by_cases hpd : p = dst
    · simp [hpd] at hpi
    by_cases hqd : q = dst
    · simp [hqd] at hqi
    simp only [hpd,hqd,if_false] at hpi hqi
    rcases hc p i' i ⟨hpd,hp⟩ hpi (hq ▸ hqi) with he | ⟨-,ht⟩
    · exact hqd (hq.trans he)
    · exact hstay (hq ▸ ht)
  · intro hq
    exact (renamePaths_inoToPath h.backed i q).mp (h.backed.renamePaths q i ((renamePaths_pathToIno i q).mpr hq))

theorem renamePaths_old (h : s.Backed) (hold : ∀ i p, s.inoToPath.lookup i = some p → i < n)
    (i : ℕ) (q : Path) (hi : (s.renamePaths src dst isDir).inoToPath.lookup i = some q) : i < n := by
  obtain hm | ⟨-,hi⟩ := (renamePaths_inoToPath h i q).mp hi
  · obtain ⟨p,-,hp,-⟩ := mem_takeMoved.mp hm
    rw [dropDst_pathToIno] at hp
    by_cases hpd : p = dst
    · simp [hpd] at hp
    · exact hold i p (h p i (by simpa [hpd] using hp))
  · refine hold i q ?_
    unfold dropDst at hi
    cases hd : s.pathToIno.lookup dst with
    | none => simpa [hd] using hi
    | some d =>
      simp only [hd,lookup_erase_if] at hi
      by_cases hid : i = d
      · simp [hid] at hi
      · simpa [hid] using hi

theorem renamePaths_nextIno : (s.renamePaths src dst isDir).nextIno = s.nextIno := by
  unfold Inodes.renamePaths dropDst
  split <;> rfl

/-- Every inode but that of the destination keeps a path. -/
theorem renamePaths_keeps (h : s.Ok) (hi : s.inoToPath.lookup i = some p) (hd : s.pathToIno.lookup dst ≠ some i) :
    ∃ q, (s.renamePaths src dst isDir).inoToPath.lookup i = some q := by
  by_cases hm : ∃ q, (i,q) ∈ ((s.dropDst dst).takeMoved src dst isDir).2
  · obtain ⟨q,hq⟩ := hm
    exact ⟨q,(renamePaths_inoToPath h.backed i q).mpr (.inl hq)⟩
  have hkept : (s.dropDst dst).inoToPath.lookup i = some p := by
    unfold dropDst
    cases hj : s.pathToIno.lookup dst with
    | none => exact hi
    | some j =>
      have hne : i ≠ j := fun he => hd (he ▸ hj)
      simpa [hne] using hi
  exact ⟨p,(renamePaths_inoToPath h.backed i p).mpr (.inr ⟨fun q hq => hm ⟨q,hq⟩,hkept⟩)⟩

theorem renamePaths_root (h : s.Ok) (hsrc : src ≠ []) (hdst : dst ≠ []) :
    (s.renamePaths src dst isDir).pathToIno.lookup [] = some ROOT := by
  have hroot : ¬ (([] : Path) = src ∨ isDir ∧ src <+: []) := by
    rintro (he | ⟨-,hp⟩)
    · exact hsrc he.symm
    · exact hsrc (prefix_nil.mp hp)
  rw [renamePaths_pathToIno]
  refine .inr ⟨?_,?_⟩
  · intro i hm
    obtain ⟨p,-,-,hq⟩ := mem_takeMoved.mp hm
    exact hdst (append_eq_nil_iff.mp hq.symm).1
  · rw [takeMoved_fst _ _ _ _ _ hroot,dropDst_pathToIno,if_neg (Ne.symm hdst),h.root]

theorem Ok.renamePaths (h : s.Ok) (hsrc : src ≠ []) (hdst : dst ≠ []) (hc : s.Clear src dst isDir) :
    (s.renamePaths src dst isDir).Ok :=
  ⟨h.renamePaths_inverse hc,renamePaths_root h hsrc hdst,by
    rw [renamePaths_nextIno]
    exact renamePaths_old h.backed h.old⟩

/-- What an inode leads to after a rename, it or the path that moved there led to before. -/
theorem renamePaths_pathToIno_cases (hq : (s.renamePaths src dst isDir).pathToIno.lookup q = some i) :
    (∃ rel, s.pathToIno.lookup (src++rel) = some i ∧ q = dst++rel) ∨ q ≠ dst ∧ s.pathToIno.lookup q = some i := by
  have hkept : ∀ p, (s.dropDst dst).pathToIno.lookup p = some i → p ≠ dst ∧ s.pathToIno.lookup p = some i := by
    intro p hp
    rw [dropDst_pathToIno] at hp
    by_cases hpd : p = dst
    · simp [hpd] at hp
    · exact ⟨hpd,by simpa [hpd] using hp⟩
  obtain hm | ⟨-,hq⟩ := (renamePaths_pathToIno i q).mp hq
  · obtain ⟨p,hmoved,hp,rfl⟩ := mem_takeMoved.mp hm
    obtain ⟨rel,rfl⟩ := prefix_of_moved hmoved
    exact .inl ⟨rel,(hkept _ hp).2,Path.rebase_append src dst rel⟩
  · by_cases hstay : q = src ∨ isDir ∧ src <+: q
    · rw [takeMoved_fst_none _ _ _ _ _ hstay] at hq
      cases hq
    · rw [takeMoved_fst _ _ _ _ _ hstay] at hq
      exact .inr (hkept q hq)

end

end Inodes
end AdbShare

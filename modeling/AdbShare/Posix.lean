import AdbShare.Dict
import Mathlib.Data.List.DropRight

/-! A file system as a graph of nodes with named entries, and how a path is walked in it:
piece by piece, through symbolic links, the last of them only if asked to or if something
comes after it. -/
namespace AdbShare.Posix

open Function List Option

/-- What stands between two slashes of a path. -/
inductive Piece (N : Type)
  | empty | dot | dotdot
  | name (n : N)
  deriving DecidableEq

inductive Kind (N : Type)
  | file
  | dir
  | link (target : List (Piece N))
  deriving DecidableEq

structure Graph (N : Type) [DecidableEq N] where
  kind : ℕ → Kind N
  entries : ℕ → Dict N ℕ
  /-- Where `..` leads. -/
  up : ℕ → ℕ
  root : ℕ
  cwd : ℕ
  /-- The first of the numbers of nodes to come. -/
  next : ℕ
  root_lt : root < next
  cwd_lt : cwd < next
  up_lt : ∀ i, i < next → up i < next
  entry_lt : ∀ d n i, (entries d).lookup n = some i → d < next ∧ i < next

/-- Where a walk has come to and, if by a name, the entry that led there. -/
structure Spot (N : Type) where
  node : ℕ
  via : Option (ℕ × N)
  deriving DecidableEq

def MAX_LINKS : ℕ := 40

namespace Graph

variable {N : Type} [DecidableEq N] (fs : Graph N) {follow : Bool} {k i d k' : ℕ} {s t : Spot N} {n : N}
  {p : List (Piece N)} {fs' : Graph N}

def lookup (d : ℕ) (n : N) : Option ℕ := (fs.entries d).lookup n

def isDir (i : ℕ) : Bool := decide (fs.kind i = .dir)

/-- A path that begins with a slash starts at the root. -/
def start (d : ℕ) (p : List (Piece N)) : Spot N := ⟨if p.head? = some .empty then fs.root else d,none⟩

/-- The pieces up to a link, which goes on elsewhere; `k` links may still be followed. -/
def walkFrom (follow : Bool) (k : ℕ) (jump : Spot N → List (Piece N) → Option (Spot N × ℕ)) :
    Spot N → List (Piece N) → Option (Spot N × ℕ)
  | s, [] => some (s,k)
  | s, p::rest =>
    if fs.isDir s.node then
      match p with
      | .empty => walkFrom follow k jump s rest
      | .dot => walkFrom follow k jump ⟨s.node,none⟩ rest
      | .dotdot => walkFrom follow k jump ⟨fs.up s.node,none⟩ rest
      | .name n =>
        match fs.lookup s.node n with
        | none => none
        | some i =>
          match fs.kind i with
          | .link target =>
            if rest.isEmpty && !follow then some (⟨i,some (s.node,n)⟩,k)
            else jump (fs.start s.node target) (target++rest)
          | _ => walkFrom follow k jump ⟨i,some (s.node,n)⟩ rest
    else none

def walk (follow : Bool) : ℕ → Spot N → List (Piece N) → Option (Spot N × ℕ)
  | 0 => fs.walkFrom follow 0 fun _ _ => none
  | k+1 => fs.walkFrom follow (k+1) (walk follow k)

def resolve (follow : Bool) (p : List (Piece N)) : Option (Spot N) :=
  (fs.walk follow MAX_LINKS (fs.start fs.cwd p) p).map Prod.fst

/-- A directory is found at the path. -/
def dirAt (p : List (Piece N)) : Bool := (fs.resolve true p).any fun s => fs.isDir s.node

/-- Something is there, be it a link that leads nowhere. -/
def takenAt (p : List (Piece N)) : Bool := (fs.resolve false p).isSome

def remove (d : ℕ) (n : N) : Graph N :=
  { fs with
    entries := update fs.entries d ((fs.entries d).erase n)
    entry_lt := by
      intro d' n' i h
      by_cases hd : d' = d
      · subst hd
        rw [update_self,Dict.lookup_erase_if] at h
        split at h
        · cases h
        · exact fs.entry_lt _ _ _ h
      · rw [update_of_ne hd] at h
        exact fs.entry_lt _ _ _ h }

def addDir (d : ℕ) (n : N) (hd : d < fs.next) : Graph N where
  kind := update fs.kind fs.next .dir
  entries := update fs.entries d ((fs.entries d).insert n fs.next)
  up := update fs.up fs.next d
  root := fs.root
  cwd := fs.cwd
  next := fs.next+1
  root_lt := Nat.lt_succ_of_lt fs.root_lt
  cwd_lt := Nat.lt_succ_of_lt fs.cwd_lt
  up_lt := by
    intro i hi
    by_cases hin : i = fs.next
    · subst hin
      rw [update_self]
      omega
    · rw [update_of_ne hin]
      have := fs.up_lt i (by omega)
      omega
  entry_lt := by
    intro d' n' i h
    by_cases hdd : d' = d
    · subst hdd
      rw [update_self,Dict.lookup_insert_if] at h
      split at h
      · cases h
        omega
      · have := fs.entry_lt _ _ _ h
        omega
    · rw [update_of_ne hdd] at h
      have := fs.entry_lt _ _ _ h
      omega

/-- `unlink`: an entry that leads to no directory. -/
def unlink (p : List (Piece N)) : Option (Graph N) :=
  match fs.resolve false p with
  | some ⟨i,some (d,n)⟩ => if fs.isDir i then none else some (fs.remove d n)
  | _ => none

/-- `rmdir`: an entry that leads to an empty directory; not one reached as `.` or `..`. -/
def rmdir (p : List (Piece N)) : Option (Graph N) :=
  match fs.resolve false p with
  | some ⟨i,some (d,n)⟩ => if fs.isDir i && (fs.entries i).keys.isEmpty then some (fs.remove d n) else none
  | _ => none

/-- The names in the directory at a path, with what they lead to. -/
def readdir (p : List (Piece N)) : Option (List (N × Kind N)) :=
  match fs.resolve true p with
  | some s =>
    if fs.isDir s.node then
      some ((fs.entries s.node).entries.map fun e => (e.1,fs.kind e.2))
    else none
  | none => none

def lstat (p : List (Piece N)) : Option (Kind N) := (fs.resolve false p).map fun s => fs.kind s.node

/-- `mkdir`: a new directory at a free name in a directory. -/
def mkdir (p : List (Piece N)) : Option (Graph N) :=
  let q := p.rdropWhile fun c => decide (c = .empty)
  match q.getLast?, fs.resolve true q.dropLast with
  | some (.name n), some s =>
    if h : s.node < fs.next ∧ fs.isDir s.node ∧ fs.lookup s.node n = none then some (fs.addDir s.node n h.1)
    else none
  | _, _ => none

def addFile (d : ℕ) (n : N) (hd : d < fs.next) : Graph N :=
  { fs.addDir d n hd with kind := Function.update fs.kind fs.next .file }

/-- `open` with `O_CREAT|O_EXCL`: a new file at a free name in a directory. -/
def create (p : List (Piece N)) : Option (Graph N) :=
  match p.getLast?, fs.resolve true p.dropLast with
  | some (.name n), some s =>
    if h : s.node < fs.next ∧ fs.isDir s.node ∧ fs.lookup s.node n = none then some (fs.addFile s.node n h.1)
    else none
  | _, _ => none

open Piece

section

variable {fs} {j : ℕ} {q rest : List (Piece N)} {P : Spot N → Prop}

theorem isDir_iff : fs.isDir i ↔ fs.kind i = .dir := by simp [isDir]

theorem lookup_lt (h : fs.lookup d n = some i) : d < fs.next ∧ i < fs.next := fs.entry_lt d n i h

/-- What a walk does at a link. -/
def hop (fs : Graph N) (follow : Bool) : ℕ → Spot N → List (Piece N) → Option (Spot N × ℕ)
  | 0, _, _ => none
  | k+1, s, p => fs.walk follow k s p

@[simp] theorem walk_nil : fs.walk follow k s [] = some (s,k) := by cases k <;> rfl

theorem walk_cons {c : Piece N} : fs.walk follow k s (c::rest) = if fs.isDir s.node then
      match c with
      | .empty => fs.walk follow k s rest
      | .dot => fs.walk follow k ⟨s.node,none⟩ rest
      | .dotdot => fs.walk follow k ⟨fs.up s.node,none⟩ rest
      | .name n =>
        match fs.lookup s.node n with
        | none => none
        | some i =>
          match fs.kind i with
          | .link target =>
            if rest.isEmpty && !follow then some (⟨i,some (s.node,n)⟩,k)
            else fs.hop follow k (fs.start s.node target) (target++rest)
          | _ => fs.walk follow k ⟨i,some (s.node,n)⟩ rest
    else none := by
  cases k <;> rfl

theorem walk_append_of_hop (hq : q ≠ [])
    (hhop : ∀ s p, fs.hop follow k s (p++q) = (fs.hop true k s p).bind fun t => fs.walk follow t.2 t.1 q)
    (s : Spot N) (p : List (Piece N)) :
    fs.walk follow k s (p++q) = (fs.walk true k s p).bind fun t => fs.walk follow t.2 t.1 q := by
  induction p generalizing s with
  | nil => simp
  | cons c rest ih =>
    rw [cons_append,walk_cons,walk_cons]
    have hrest : (rest++q).isEmpty = false := by simp [hq]
    split
    · cases c with
      | empty | dot | dotdot => exact ih _
      | name n =>
        dsimp only
        cases fs.lookup s.node n with
        | none => rfl
        | some i =>
          dsimp only
          cases fs.kind i with
          | file | dir => exact ih _
          | link target =>
            simp only [hrest,Bool.false_and,Bool.not_true,Bool.and_false]
            rw [← append_assoc]
            exact hhop _ _
    · rfl

/-- A walk goes on from where the first part of it has come to, whose last link it follows. -/
theorem walk_append (hq : q ≠ []) (k : ℕ) (s : Spot N) (p : List (Piece N)) :
    fs.walk follow k s (p++q) = (fs.walk true k s p).bind fun t => fs.walk follow t.2 t.1 q := by
  induction k generalizing s p with
  | zero => exact walk_append_of_hop hq (fun _ _ => rfl) s p
  | succ k ih => exact walk_append_of_hop (k:=k+1) hq ih s p

theorem resolve_append (hp : p ≠ []) (hq : q ≠ []) : fs.resolve follow (p++q) =
    ((fs.walk true MAX_LINKS (fs.start fs.cwd p) p).bind fun t => fs.walk follow t.2 t.1 q).map Prod.fst := by
  have hstart : fs.start fs.cwd (p++q) = fs.start fs.cwd p := by
    cases p with
    | nil => exact absurd rfl hp
    | cons c rest => rfl
  rw [resolve,hstart,walk_append hq]

/-- The walks that come to an end, step by step. -/
inductive Walks (fs : Graph N) (follow : Bool) : ℕ → Spot N → List (Piece N) → Spot N → ℕ → Prop
  | done {k : ℕ} {s : Spot N} : Walks fs follow k s [] s k
  | empty {k k' : ℕ} {s t : Spot N} {rest : List (Piece N)} (hdir : fs.isDir s.node = true)
      (hrest : Walks fs follow k s rest t k') : Walks fs follow k s (.empty::rest) t k'
  | dot {k k' : ℕ} {s t : Spot N} {rest : List (Piece N)} (hdir : fs.isDir s.node = true)
      (hrest : Walks fs follow k ⟨s.node,none⟩ rest t k') : Walks fs follow k s (.dot::rest) t k'
  | dotdot {k k' : ℕ} {s t : Spot N} {rest : List (Piece N)} (hdir : fs.isDir s.node = true)
      (hrest : Walks fs follow k ⟨fs.up s.node,none⟩ rest t k') : Walks fs follow k s (.dotdot::rest) t k'
  | name {k k' i : ℕ} {n : N} {s t : Spot N} {rest : List (Piece N)} (hdir : fs.isDir s.node = true)
      (hi : fs.lookup s.node n = some i) (hkind : ∀ target, fs.kind i ≠ .link target)
      (hrest : Walks fs follow k ⟨i,some (s.node,n)⟩ rest t k') : Walks fs follow k s (.name n::rest) t k'
  | last {k i : ℕ} {n : N} {s : Spot N} {target : List (Piece N)} (hdir : fs.isDir s.node = true)
      (hi : fs.lookup s.node n = some i) (hkind : fs.kind i = .link target) (hfollow : follow = false) :
      Walks fs follow k s [.name n] ⟨i,some (s.node,n)⟩ k
  | link {k k' i : ℕ} {n : N} {s t : Spot N} {target rest : List (Piece N)} (hdir : fs.isDir s.node = true)
      (hi : fs.lookup s.node n = some i) (hkind : fs.kind i = .link target)
      (hmore : rest ≠ [] ∨ follow = true)
      (hrest : Walks fs follow k (fs.start s.node target) (target++rest) t k') :
      Walks fs follow (k+1) s (.name n::rest) t k'

theorem walks_of_hop (hhop : ∀ s p, fs.hop follow k s p = some (t,k') → ∃ j, k = j+1 ∧ Walks fs follow j s p t k')
    (h : fs.walk follow k s p = some (t,k')) : Walks fs follow k s p t k' := by
  induction p generalizing s with
  | nil =>
    cases h.symm.trans walk_nil
    exact .done
  | cons c rest ih =>
    rw [walk_cons] at h
    split at h
    · rename_i hdir
      cases c with
      | empty => exact .empty hdir (ih h)
      | dot => exact .dot hdir (ih h)
      | dotdot => exact .dotdot hdir (ih h)
      | name n =>
        cases hi : fs.lookup s.node n with
        | none => simp [hi] at h
        | some i =>
          simp only [hi] at h
          cases hkind : fs.kind i with
          | file | dir =>
            simp only [hkind] at h
            exact .name hdir hi (by simp [hkind]) (ih h)
          | link target =>
            simp only [hkind] at h
            split at h
            · rename_i hend
              simp only [Bool.and_eq_true,List.isEmpty_iff,Bool.not_eq_true'] at hend
              obtain ⟨rfl,hfollow⟩ := hend
              cases h
              exact .last hdir hi hkind hfollow
            · rename_i hend
              obtain ⟨j,rfl,hj⟩ := hhop _ _ h
              refine .link hdir hi hkind ?_ hj
              cases rest <;> cases follow <;> simp_all
    · cases h

theorem walks_of_walk (h : fs.walk follow k s p = some (t,k')) : Walks fs follow k s p t k' := by
  induction k generalizing s p with
  | zero => exact walks_of_hop (fun s p h => by cases h) h
  | succ k ih => exact walks_of_hop (fun s p h => ⟨k,rfl,ih h⟩) h

theorem Walks.walk (h : Walks fs follow k s p t k') : fs.walk follow k s p = some (t,k') := by
  induction h with
  | done => exact walk_nil
  | empty hdir _ ih | dot hdir _ ih | dotdot hdir _ ih =>
    rw [walk_cons,if_pos hdir]
    exact ih
  | @name k k' i n s t rest hdir hi hkind _ ih =>
    rw [walk_cons,if_pos hdir]
    dsimp only
    rw [hi]
    cases hki : fs.kind i with
    | file | dir => simpa [hki] using ih
    | link target => exact absurd hki (hkind target)
  | last hdir hi hkind hfollow =>
    rw [walk_cons,if_pos hdir]
    simp [hi,hkind,hfollow]
  | @link k k' i n s t target rest hdir hi hkind hmore _ ih =>
    rw [walk_cons,if_pos hdir]
    have hend : (rest.isEmpty && !follow) = false := by
      obtain hrest | hfollow := hmore
      · simp [hrest]
      · simp [hfollow]
    simpa [hi,hkind,hend,hop] using ih

theorem walk_iff : fs.walk follow k s p = some (t,k') ↔ Walks fs follow k s p t k' := ⟨walks_of_walk,Walks.walk⟩

theorem resolve_iff : fs.resolve follow p = some t ↔ ∃ k', Walks fs follow MAX_LINKS (fs.start fs.cwd p) p t k' := by
  simp [resolve,walk_iff]

/-- The rule for what holds at every spot of a walk. -/
theorem Walks.rule (hroot : P ⟨fs.root,none⟩) (hhere : ∀ s, P s → P ⟨s.node,none⟩)
    (hup : ∀ s, P s → P ⟨fs.up s.node,none⟩)
    (hname : ∀ s n i, P s → fs.lookup s.node n = some i → P ⟨i,some (s.node,n)⟩)
    (h : Walks fs follow k s p t k') (hs : P s) : P t := by
  induction h with
  | done => exact hs
  | empty _ _ ih => exact ih hs
  | dot _ _ ih => exact ih (hhere _ hs)
  | dotdot _ _ ih => exact ih (hup _ hs)
  | name _ hi _ _ ih => exact ih (hname _ _ _ hs hi)
  | last _ hi _ _ => exact hname _ _ _ hs hi
  | @link k k' i n s t target rest _ _ _ _ _ ih =>
    apply ih
    unfold start
    split
    · exact hroot
    · exact hhere s hs

theorem resolve_rule (hroot : P ⟨fs.root,none⟩) (hcwd : P ⟨fs.cwd,none⟩)
    (hhere : ∀ s, P s → P ⟨s.node,none⟩) (hup : ∀ s, P s → P ⟨fs.up s.node,none⟩)
    (hname : ∀ s n i, P s → fs.lookup s.node n = some i → P ⟨i,some (s.node,n)⟩)
    (h : fs.resolve follow p = some t) : P t := by
  obtain ⟨k',hk⟩ := resolve_iff.mp h
  refine hk.rule hroot hhere hup hname ?_
  unfold start
  split
  · exact hroot
  · exact hcwd

theorem resolve_lt (h : fs.resolve follow p = some t) : t.node < fs.next :=
  resolve_rule fs.root_lt fs.cwd_lt (fun _ hs => hs) (fun _ hs => fs.up_lt _ hs) (fun _ _ _ _ hi => (lookup_lt hi).2) h

theorem resolve_via (h : fs.resolve follow p = some t) (hvia : t.via = some (d,n)) : fs.lookup d n = some t.node := by
  refine resolve_rule (P:=fun s => ∀ d n, s.via = some (d,n) → fs.lookup d n = some s.node) ?_ ?_ ?_ ?_ ?_ h d n hvia
  · simp
  · simp
  · simp
  · simp
  · rintro s m i - hi d' n' hvia'
    cases hvia'
    exact hi

theorem walk_single : fs.walk false k s [.name n] =
    if fs.isDir s.node then (fs.lookup s.node n).map fun i => (⟨i,some (s.node,n)⟩,k) else none := by
  rw [walk_cons]
  split
  · dsimp only
    cases fs.lookup s.node n with
    | none => rfl
    | some i =>
      dsimp only
      cases fs.kind i <;> simp
  · rfl

theorem resolve_name (hp : p ≠ []) : fs.resolve false (p++[name n]) = (fs.resolve true p).bind fun s =>
      if fs.isDir s.node then (fs.lookup s.node n).map fun i => ⟨i,some (s.node,n)⟩ else none := by
  rw [resolve_append hp (by simp),resolve]
  cases fs.walk true MAX_LINKS (fs.start fs.cwd p) p with
  | none => rfl
  | some t =>
    simp only [bind_some,map_some,walk_single]
    split
    · cases fs.lookup t.1.node n <;> rfl
    · rfl

/-- At a node that is no link it makes no difference whether a last link is followed. -/
theorem Walks.followed (h : Walks fs false k s p t k') (ht : ∀ target, fs.kind t.node ≠ .link target) :
    Walks fs true k s p t k' := by
  induction h with
  | done => exact .done
  | empty hdir _ ih => exact .empty hdir (ih ht)
  | dot hdir _ ih => exact .dot hdir (ih ht)
  | dotdot hdir _ ih => exact .dotdot hdir (ih ht)
  | name hdir hi hkind _ ih => exact .name hdir hi hkind (ih ht)
  | last _ _ hkind _ => exact absurd hkind (ht _)
  | link hdir hi hkind _ _ ih => exact .link hdir hi hkind (.inr rfl) (ih ht)

theorem resolve_follow (h : fs.resolve false p = some t) (ht : ∀ target, fs.kind t.node ≠ .link target) :
    fs.resolve true p = some t := by
  obtain ⟨k',hk⟩ := resolve_iff.mp h
  exact resolve_iff.mpr ⟨k',hk.followed ht⟩

/-- The pieces that lead somewhere else. -/
def essential (p : List (Piece N)) : List (Piece N) := p.filter fun c => decide (c ≠ .empty ∧ c ≠ .dot)

theorem Walks.budget (h : Walks fs follow k s p t k') : k' ≤ k := by
  induction h with
  | done | last => exact le_rfl
  | empty _ _ ih | dot _ _ ih | dotdot _ _ ih | name _ _ _ _ ih => exact ih
  | link _ _ _ _ _ ih => exact ih.trans (Nat.le_succ _)

theorem walk_of_not_dir (hs : fs.isDir s.node = false) (hp : p ≠ []) : fs.walk follow k s p = none := by
  cases p with
  | nil => exact absurd rfl hp
  | cons c rest => rw [walk_cons,if_neg (by simp [hs])]

theorem walk_via {c : Piece N} (hc : c ≠ .empty) (i : ℕ) (v v' : Option (ℕ × N)) :
    fs.walk follow k ⟨i,v⟩ (c::rest) = fs.walk follow k ⟨i,v'⟩ (c::rest) := by
  rw [walk_cons,walk_cons]
  cases c with
  | empty => exact absurd rfl hc
  | _ => rfl

/-- On the way to a name, slashes and dots make no difference. -/
theorem walk_essential (k : ℕ) (s : Spot N) (p : List (Piece N)) :
    fs.walk follow k s (p++[name n]) = fs.walk follow k s (essential p++[name n]) := by
  induction k using Nat.strong_induction_on generalizing s p with
  | _ k hk =>
    induction p generalizing s with
    | nil => rfl
    | cons c rest ih =>
      have hne : essential rest++[name n] ≠ [] := by simp
      rw [cons_append,walk_cons]
      cases c with
      | empty =>
        have hcut : essential (.empty::rest) = essential rest := rfl
        rw [hcut,← ih]
        split
        · rfl
        · rename_i hdir
          exact (walk_of_not_dir (by simpa using hdir) (by simp)).symm
      | dot =>
        have hcut : essential (.dot::rest) = essential rest := rfl
        rw [hcut]
        split
        · dsimp only
          rw [ih]
          cases hhead : essential rest++[name n] with
          | nil => exact absurd hhead hne
          | cons c tail =>
            refine walk_via ?_ s.node none s.via
            rintro rfl
            have hmem : empty ∈ essential rest++[name n] := by simp [hhead]
            simp [essential] at hmem
        · rename_i hdir
          exact (walk_of_not_dir (by simpa using hdir) hne).symm
      | dotdot =>
        have hcut : essential (.dotdot::rest) = .dotdot::essential rest := rfl
        rw [hcut,cons_append,walk_cons]
        split
        · exact ih _
        · rfl
      | name m =>
        have hcut : essential (.name m::rest) = .name m::essential rest := rfl
        rw [hcut,cons_append,walk_cons]
        split
        · dsimp only
          cases fs.lookup s.node m with
          | none => rfl
          | some i =>
            dsimp only
            cases fs.kind i with
            | file | dir => exact ih _
            | link target =>
              have hend : (rest++[name n]).isEmpty = false := by simp
              have hend' : (essential rest++[name n]).isEmpty = false := by simp
              simp only [hend,hend',Bool.false_and]
              cases k with
              | zero => rfl
              | succ k =>
                show fs.walk follow k _ (target++(rest++[name n])) =
                  fs.walk follow k _ (target++(essential rest++[name n]))
                rw [walk_append (by simp),walk_append hne]
                cases ht : fs.walk true k (fs.start s.node target) target with
                | none => rfl
                | some t =>
                  have hbudget := (walks_of_walk ht).budget
                  exact hk t.2 (by omega) t.1 rest
        · rfl

theorem resolve_essential : fs.resolve follow (.empty::(p++[name n])) =
    fs.resolve follow (.empty::(essential p++[name n])) := by
  have hstart : fs.start fs.cwd (.empty::(p++[name n])) = fs.start fs.cwd (.empty::(essential p++[name n])) := rfl
  rw [resolve,resolve,hstart,walk_cons,walk_cons,walk_essential]

theorem resolve_essential_relative (hp : p.head? ≠ some .empty) :
    fs.resolve follow (p++[name n]) = fs.resolve follow (essential p++[name n]) := by
  have hhead : (p++[name n]).head? ≠ some .empty := by
    cases p <;> simp_all
  have hhead' : (essential p++[name n]).head? ≠ some .empty := by
    intro h
    have hmem := mem_of_head? h
    simp [essential] at hmem
  rw [resolve,resolve,start,start,if_neg hhead,if_neg hhead',walk_essential]

theorem dirAt_iff : fs.dirAt p ↔ ∃ s, fs.resolve true p = some s ∧ fs.isDir s.node := by
  cases h : fs.resolve true p <;> simp [dirAt,h]

/-- On the way to a path there are directories. -/
theorem resolve_of_append (hp : p ≠ []) (hq : q ≠ []) (h : fs.resolve follow (p++q) = some t) :
    ∃ s, fs.resolve true p = some s ∧ fs.isDir s.node := by
  rw [resolve_append hp hq] at h
  obtain ⟨t',ht,-⟩ := map_eq_some_iff.mp h
  obtain ⟨s,hs,hwalk⟩ := bind_eq_some_iff.mp ht
  refine ⟨s.1,by rw [resolve,hs]; rfl,?_⟩
  cases q with
  | nil => exact absurd rfl hq
  | cons c rest =>
    rw [walk_cons] at hwalk
    split at hwalk
    · assumption
    · cases hwalk

theorem dirAt_above (hp : p ≠ []) (hpq : p <+: q) (h : fs.dirAt q) : fs.dirAt p := by
  obtain ⟨r,rfl⟩ := hpq
  by_cases hr : r = []
  · rwa [hr,append_nil] at h
  · obtain ⟨t,ht,-⟩ := dirAt_iff.mp h
    exact dirAt_iff.mpr (resolve_of_append hp hr ht)

theorem dirAt_append_empty (hp : p ≠ []) : fs.dirAt (p++[.empty]) = fs.dirAt p := by
  rw [Bool.eq_iff_iff]
  refine ⟨dirAt_above hp (prefix_append _ _),?_⟩
  intro h
  obtain ⟨s,hs,hdir⟩ := dirAt_iff.mp h
  obtain ⟨⟨s',k⟩,hwalk,hs'⟩ := map_eq_some_iff.mp hs
  obtain rfl : s' = s := hs'
  refine dirAt_iff.mpr ⟨s',?_,hdir⟩
  rw [resolve_append hp (by simp),hwalk]
  simp [walk_cons,hdir]

theorem walk_slashes {j k' : ℕ} (h : fs.walk follow k s (List.replicate j .empty) = some (t,k')) : t = s := by
  induction j with
  | zero =>
    cases h.symm.trans walk_nil
    rfl
  | succ j ih =>
    rw [replicate_succ,walk_cons] at h
    split at h
    · exact ih h
    · cases h

theorem resolve_of_slashes (hp : p ≠ []) (h : fs.resolve false (p++List.replicate j .empty) = some t)
    (hdir : fs.isDir t.node) : fs.resolve true p = some t := by
  cases j with
  | zero =>
    rw [replicate_zero,append_nil] at h
    exact resolve_follow h (by simp [isDir_iff.mp hdir])
  | succ j =>
    rw [resolve_append hp (by simp)] at h
    obtain ⟨⟨t',k'⟩,ht,htt⟩ := map_eq_some_iff.mp h
    obtain rfl : t' = t := htt
    obtain ⟨u,hu,hwalk⟩ := bind_eq_some_iff.mp ht
    obtain rfl := walk_slashes hwalk
    rw [resolve,hu]
    rfl

theorem resolve_name_follow (hp : p ≠ []) (hs : fs.resolve true p = some s) (hdir : fs.isDir s.node)
    (hi : fs.lookup s.node n = some i) (hkind : ∀ target, fs.kind i ≠ .link target) :
    fs.resolve true (p++[name n]) = some ⟨i,some (s.node,n)⟩ := by
  refine resolve_follow ?_ hkind
  rw [resolve_name hp,hs]
  simp [hdir,hi]

theorem lookup_remove (d : ℕ) (m : N) (d' : ℕ) (n' : N) :
    (fs.remove d m).lookup d' n' = if d' = d ∧ n' = m then none else fs.lookup d' n' := by
  show (update fs.entries d ((fs.entries d).erase m) d').lookup n' = _
  by_cases hd : d' = d
  · subst hd
    rw [update_self,Dict.lookup_erase_if]
    simp [lookup]
  · simp [hd,lookup]

theorem lookup_addDir (hd : d < fs.next) (m : N) (d' : ℕ) (n' : N) :
    (fs.addDir d m hd).lookup d' n' = if d' = d ∧ n' = m then some fs.next else fs.lookup d' n' := by
  show (update fs.entries d ((fs.entries d).insert m fs.next) d').lookup n' = _
  by_cases hdd : d' = d
  · subst hdd
    rw [update_self,Dict.lookup_insert_if]
    simp [lookup]
  · simp [hdd,lookup]

theorem unlink_cases (h : fs.unlink p = some fs') : ∃ i d m,
    fs.resolve false p = some ⟨i,some (d,m)⟩ ∧ fs.isDir i = false ∧ fs' = fs.remove d m := by
  unfold unlink at h
  split at h
  · rename_i i d m hr
    split at h
    · cases h
    · rename_i hdir
      cases h
      exact ⟨i,d,m,hr,by simpa using hdir,rfl⟩
  · cases h

theorem rmdir_cases (h : fs.rmdir p = some fs') : ∃ i d m,
    fs.resolve false p = some ⟨i,some (d,m)⟩ ∧ fs.isDir i ∧ fs' = fs.remove d m := by
  unfold rmdir at h
  split at h
  · rename_i i d m hr
    split at h
    · rename_i hdir
      cases h
      exact ⟨i,d,m,hr,(Bool.and_eq_true _ _ ▸ hdir).1,rfl⟩
    · cases h
  · cases h

theorem mkdir_name : fs.mkdir (p++[name n]) =
    match fs.resolve true p with
    | some s =>
      if h : s.node < fs.next ∧ fs.isDir s.node ∧ fs.lookup s.node n = none then some (fs.addDir s.node n h.1)
      else none
    | none => none := by
  have hlast : (p++[name n]).rdropWhile (fun c => decide (c = .empty)) = p++[name n] :=
    rdropWhile_concat_neg _ _ _ (by simp)
  unfold mkdir
  simp only [hlast,getLast?_concat,dropLast_concat]
  cases fs.resolve true p <;> rfl

end

/-- Every walk in the first comes to the same spot in the second. -/
structure Part (fs fs' : Graph N) : Prop where
  root_eq : fs'.root = fs.root
  cwd_eq : fs'.cwd = fs.cwd
  next_le : fs.next ≤ fs'.next
  kind_eq : ∀ i, i < fs.next → fs'.kind i = fs.kind i
  up_eq : ∀ i, i < fs.next → fs'.up i = fs.up i
  lookup_eq : ∀ d n i, fs.lookup d n = some i → fs'.lookup d n = some i

namespace Part

variable {fs fs'' : Graph N}

theorem refl (fs : Graph N) : Part fs fs := ⟨rfl,rfl,le_rfl,fun _ _ => rfl,fun _ _ => rfl,fun _ _ _ h => h⟩

section

variable (h : Part fs fs')
include h

theorem trans (h' : Part fs' fs'') : Part fs fs'' where
  root_eq := h'.root_eq.trans h.root_eq
  cwd_eq := h'.cwd_eq.trans h.cwd_eq
  next_le := h.next_le.trans h'.next_le
  kind_eq i hi := (h'.kind_eq i (hi.trans_le h.next_le)).trans (h.kind_eq i hi)
  up_eq i hi := (h'.up_eq i (hi.trans_le h.next_le)).trans (h.up_eq i hi)
  lookup_eq d n i hi := h'.lookup_eq d n i (h.lookup_eq d n i hi)

theorem isDir_eq (hi : i < fs.next) : fs'.isDir i = fs.isDir i := by
  simp [isDir,h.kind_eq i hi]

theorem start_eq (d : ℕ) (p : List (Piece N)) : fs'.start d p = fs.start d p := by
  simp [start,h.root_eq]

theorem walks (hw : Walks fs follow k s p t k') (hs : s.node < fs.next) : Walks fs' follow k s p t k' := by
  induction hw with
  | done => exact .done
  | empty hdir _ ih => exact .empty ((h.isDir_eq hs).trans hdir) (ih hs)
  | dot hdir _ ih => exact .dot ((h.isDir_eq hs).trans hdir) (ih hs)
  | dotdot hdir _ ih =>
    refine .dotdot ((h.isDir_eq hs).trans hdir) ?_
    rw [h.up_eq _ hs]
    exact ih (fs.up_lt _ hs)
  | name hdir hi hkind _ ih =>
    have hlt := (lookup_lt hi).2
    refine .name ((h.isDir_eq hs).trans hdir) (h.lookup_eq _ _ _ hi) ?_ (ih hlt)
    rwa [h.kind_eq _ hlt]
  | last hdir hi hkind hfollow =>
    exact .last ((h.isDir_eq hs).trans hdir) (h.lookup_eq _ _ _ hi) ((h.kind_eq _ (lookup_lt hi).2).trans hkind) hfollow
  | @link k k' i n s t target rest hdir hi hkind hmore _ ih =>
    refine .link ((h.isDir_eq hs).trans hdir) (h.lookup_eq _ _ _ hi)
      ((h.kind_eq _ (lookup_lt hi).2).trans hkind) hmore ?_
    rw [h.start_eq]
    apply ih
    unfold start
    split
    · exact fs.root_lt
    · exact hs

theorem resolve (hr : fs.resolve follow p = some t) : fs'.resolve follow p = some t := by
  obtain ⟨k',hk⟩ := resolve_iff.mp hr
  refine resolve_iff.mpr ⟨k',?_⟩
  rw [h.cwd_eq,h.start_eq]
  apply h.walks hk
  unfold start
  split
  · exact fs.root_lt
  · exact fs.cwd_lt

theorem dirAt (hd : fs.dirAt p) : fs'.dirAt p := by
  obtain ⟨s,hs,hdir⟩ := dirAt_iff.mp hd
  exact dirAt_iff.mpr ⟨s,h.resolve hs,(h.isDir_eq (resolve_lt hs)).trans hdir⟩

theorem takenAt (hp : fs.takenAt p) : fs'.takenAt p := by
  obtain ⟨s,hs⟩ := isSome_iff_exists.mp hp
  exact isSome_iff_exists.mpr ⟨s,h.resolve hs⟩

end

theorem remove (fs : Graph N) (d : ℕ) (n : N) : Part (fs.remove d n) fs where
  root_eq := rfl
  cwd_eq := rfl
  next_le := le_rfl
  kind_eq _ _ := rfl
  up_eq _ _ := rfl
  lookup_eq d' n' i h := by
    rw [lookup_remove] at h
    split at h
    · cases h
    · exact h

theorem addDir (hd : d < fs.next) (hfree : fs.lookup d n = none) : Part fs (fs.addDir d n hd) where
  root_eq := rfl
  cwd_eq := rfl
  next_le := Nat.le_succ _
  kind_eq i hi := update_of_ne (Nat.ne_of_lt hi) _ _
  up_eq i hi := update_of_ne (Nat.ne_of_lt hi) _ _
  lookup_eq d' n' i h := by
    rw [lookup_addDir]
    split
    · rename_i heq
      rw [heq.1,heq.2,hfree] at h
      cases h
    · exact h

end Part

end Graph
end AdbShare.Posix

import AdbShare.Posix

/-! A file system to which things are only added: new files and directories at free names.
What was there before stays where it was, and an old directory in which nothing is new leads
where it did. -/
namespace AdbShare.Posix
namespace Graph

open List Option

variable {N : Type} [DecidableEq N] (fs : Graph N) {fs' fs'' : Graph N} {s t : Spot N} {n : N} {p : List (Piece N)}
  {d i : ℕ} {ns : List N}

/-- Names one after another, from directory to directory. -/
def downTo : ℕ → List N → Option ℕ
  | d, [] => some d
  | d, n::ns => if fs.isDir d then (fs.lookup d n).bind fun i => downTo i ns else none

section

variable {fs} {j : ℕ} {ms : List N}

theorem lookup_addFile (hd : d < fs.next) (m : N) (d' : ℕ) (n' : N) :
    (fs.addFile d m hd).lookup d' n' = if d' = d ∧ n' = m then some fs.next else fs.lookup d' n' :=
  lookup_addDir hd m d' n'

/-- What `mkdir` has done. -/
theorem mkdir_cases (h : fs.mkdir p = some fs') : ∃ q n s, ∃ hlt : s.node < fs.next,
    p.rdropWhile (fun c => decide (c = .empty)) = q++[.name n] ∧ fs.resolve true q = some s ∧
      fs.isDir s.node ∧ fs.lookup s.node n = none ∧ fs' = fs.addDir s.node n hlt := by
  unfold mkdir at h
  dsimp only at h
  split at h
  · rename_i n s hlast hs
    split_ifs at h with hfree
    cases h
    exact ⟨_,n,s,hfree.1,(dropLast_append_getLast? _ hlast).symm,hs,hfree.2.1,hfree.2.2,rfl⟩
  · cases h

theorem mkdir_eq {q : List (Piece N)} (hp : p.rdropWhile (fun c => decide (c = .empty)) = q++[.name n])
    (hs : fs.resolve true q = some s) (hdir : fs.isDir s.node) (hfree : fs.lookup s.node n = none) :
    fs.mkdir p = some (fs.addDir s.node n (resolve_lt hs)) := by
  unfold mkdir
  dsimp only
  rw [hp,getLast?_concat,dropLast_concat,hs]
  exact dif_pos ⟨resolve_lt hs,hdir,hfree⟩

theorem create_eq (hs : fs.resolve true p = some s) (hdir : fs.isDir s.node) (hfree : fs.lookup s.node n = none) :
    fs.create (p++[.name n]) = some (fs.addFile s.node n (resolve_lt hs)) := by
  unfold create
  rw [getLast?_concat,dropLast_concat,hs]
  exact dif_pos ⟨resolve_lt hs,hdir,hfree⟩

theorem create_cases (h : fs.create (p++[.name n]) = some fs') : ∃ s, ∃ hlt : s.node < fs.next,
    fs.resolve true p = some s ∧ fs.isDir s.node ∧ fs.lookup s.node n = none ∧ fs' = fs.addFile s.node n hlt := by
  unfold create at h
  rw [getLast?_concat,dropLast_concat] at h
  cases hs : fs.resolve true p with
  | none =>
    rw [hs] at h
    cases h
  | some s =>
    rw [hs] at h
    dsimp only at h
    split_ifs at h with hfree
    cases h
    exact ⟨s,hfree.1,rfl,hfree.2.1,hfree.2.2,rfl⟩

@[simp] theorem downTo_nil (d : ℕ) : fs.downTo d [] = some d := rfl

theorem downTo_cons_iff : fs.downTo d (n::ns) = some j ↔
    fs.isDir d ∧ ∃ i, fs.lookup d n = some i ∧ fs.downTo i ns = some j := by
  rw [downTo]
  split
  · rename_i hdir
    simp [hdir,bind_eq_some_iff]
  · rename_i hdir
    simp [hdir]

theorem downTo_append (h : fs.downTo d ns = some i) (hi : fs.downTo i ms = some j) : fs.downTo d (ns++ms) = some j := by
  induction ns generalizing d with
  | nil =>
    cases h
    exact hi
  | cons m ns ih =>
    obtain ⟨hdir,e,he,hrest⟩ := downTo_cons_iff.mp h
    exact downTo_cons_iff.mpr ⟨hdir,e,he,ih hrest⟩

theorem downTo_child (h : fs.downTo d ns = some i) (hdir : fs.isDir i)
    (hj : fs.lookup i n = some j) : fs.downTo d (ns++[n]) = some j :=
  downTo_append h (downTo_cons_iff.mpr ⟨hdir,j,hj,rfl⟩)

theorem resolve_name_cases (hp : p ≠ []) (h : fs.resolve true (p++[.name n]) = some t) : ∃ s i,
    fs.resolve true p = some s ∧ fs.isDir s.node ∧ fs.lookup s.node n = some i ∧
      ((∀ target, fs.kind i ≠ .link target) → t = ⟨i,some (s.node,n)⟩) := by
  obtain ⟨s,hs,hdir⟩ := resolve_of_append hp (by simp) h
  cases hi : fs.lookup s.node n with
  | some i =>
    refine ⟨s,i,hs,hdir,hi,?_⟩
    intro hkind
    exact some.inj (h.symm.trans (resolve_name_follow hp hs hdir hi hkind))
  | none =>
    obtain ⟨u,hu,rfl⟩ := map_eq_some_iff.mp hs
    rw [resolve_append hp (by simp),hu,bind_some,walk_cons] at h
    simp [hi] at h

theorem resolve_slashes_iff (hp : p ≠ []) (hdir : fs.isDir t.node) :
    fs.resolve true (p++List.replicate j .empty) = some t ↔ fs.resolve true p = some t := by
  cases j with
  | zero => simp
  | succ j =>
    rw [resolve_append hp (by simp),resolve]
    cases hw : fs.walk true MAX_LINKS (fs.start fs.cwd p) p with
    | none => simp
    | some u =>
      rw [bind_some,map_some]
      constructor
      · intro h
        obtain ⟨⟨t',k'⟩,ht,htt⟩ := map_eq_some_iff.mp h
        obtain rfl : t' = t := htt
        rw [walk_slashes ht]
      · intro h
        cases h
        have hstay : ∀ j, fs.walk true u.2 u.1 (List.replicate j .empty) = some (u.1,u.2) := by
          intro j
          induction j with
          | zero => exact walk_nil
          | succ j ih => rw [replicate_succ,walk_cons,if_pos hdir,ih]
        rw [hstay,map_some]

end

namespace Part

variable {fs} {follow : Bool} {k k' : ℕ}

theorem addFile (hd : d < fs.next) (hfree : fs.lookup d n = none) : Part fs (fs.addFile d n hd) where
  root_eq := rfl
  cwd_eq := rfl
  next_le := Nat.le_succ _
  kind_eq _ hi := Function.update_of_ne (Nat.ne_of_lt hi) _ _
  up_eq := (Part.addDir hd hfree).up_eq
  lookup_eq := (Part.addDir hd hfree).lookup_eq

/-- A walk among old directories in which nothing is new. -/
theorem walks_back (h : Part fs fs') (hold : ∀ d n i, d < fs.next → fs'.lookup d n = some i → fs.lookup d n = some i)
    (hw : Walks fs' follow k s p t k') (hs : s.node < fs.next) : Walks fs follow k s p t k' := by
  induction hw with
  | done => exact .done
  | empty hdir _ ih => exact .empty ((h.isDir_eq hs).symm.trans hdir) (ih hs)
  | dot hdir _ ih => exact .dot ((h.isDir_eq hs).symm.trans hdir) (ih hs)
  | dotdot hdir _ ih =>
    refine .dotdot ((h.isDir_eq hs).symm.trans hdir) ?_
    rw [← h.up_eq _ hs]
    apply ih
    rw [h.up_eq _ hs]
    exact fs.up_lt _ hs
  | name hdir hi hkind _ ih =>
    have hi := hold _ _ _ hs hi
    have hlt := (lookup_lt hi).2
    refine .name ((h.isDir_eq hs).symm.trans hdir) hi ?_ (ih hlt)
    rwa [← h.kind_eq _ hlt]
  | last hdir hi hkind hfollow =>
    have hi := hold _ _ _ hs hi
    exact .last ((h.isDir_eq hs).symm.trans hdir) hi ((h.kind_eq _ (lookup_lt hi).2).symm.trans hkind) hfollow
  | link hdir hi hkind hmore _ ih =>
    have hi := hold _ _ _ hs hi
    refine .link ((h.isDir_eq hs).symm.trans hdir) hi ((h.kind_eq _ (lookup_lt hi).2).symm.trans hkind) hmore ?_
    rw [← h.start_eq]
    apply ih
    unfold start
    split
    · rw [h.root_eq]
      exact fs.root_lt
    · exact hs

theorem resolve_back (h : Part fs fs') (hold : ∀ d n i, d < fs.next → fs'.lookup d n = some i → fs.lookup d n = some i)
    (hr : fs'.resolve follow p = some t) : fs.resolve follow p = some t := by
  obtain ⟨k',hk⟩ := resolve_iff.mp hr
  rw [h.cwd_eq,h.start_eq] at hk
  refine resolve_iff.mpr ⟨k',h.walks_back hold hk ?_⟩
  unfold start
  split
  · exact fs.root_lt
  · exact fs.cwd_lt

theorem entries_perm (h : Part fs fs') (d : ℕ) : ∃ extra, (fs'.entries d).entries.Perm ((fs.entries d).entries++extra) ∧
      ∀ e ∈ extra, fs.lookup d e.1 = none ∧ fs'.lookup d e.1 = some e.2 := by
  refine ⟨(fs'.entries d).entries.filter fun e => !(fs.lookup d e.1).isSome,?_,?_⟩
  · have hsplit := filter_append_perm (fun e => (fs.lookup d e.1).isSome) (fs'.entries d).entries
    refine hsplit.symm.trans (List.Perm.append_right _ ?_)
    rw [perm_ext_iff_of_nodup ((fs'.entries d).nodupKeys.nodup.filter _) (fs.entries d).nodupKeys.nodup]
    rintro ⟨n,i⟩
    rw [mem_filter,Dict.mem_entries_iff,Dict.mem_entries_iff]
    constructor
    · rintro ⟨hi,hsome⟩
      obtain ⟨j,hj⟩ := isSome_iff_exists.mp hsome
      have hij : j = i := some.inj ((h.lookup_eq _ _ _ hj).symm.trans hi)
      rw [← hij]
      exact hj
    · intro hi
      exact ⟨h.lookup_eq _ _ _ hi,isSome_iff_exists.mpr ⟨i,hi⟩⟩
  · intro e he
    obtain ⟨hmem,hnone⟩ := mem_filter.mp he
    exact ⟨by simpa using hnone,Dict.mem_entries_iff.mp hmem⟩

end Part

/-- New entries lead to new nodes, and these are no links. -/
structure Growth (fs fs' : Graph N) : Prop where
  part : Part fs fs'
  fresh : ∀ d n i, fs'.lookup d n = some i → fs.lookup d n = some i ∨ fs.next ≤ i
  plain : ∀ i, fs.next ≤ i → i < fs'.next → ∀ target, fs'.kind i ≠ .link target

namespace Growth

variable {fs}

theorem refl (fs : Graph N) : Growth fs fs := ⟨Part.refl fs,fun _ _ _ h => .inl h,fun _ h h' => absurd h (by omega)⟩

theorem trans (h : Growth fs fs') (h' : Growth fs' fs'') : Growth fs fs'' where
  part := h.part.trans h'.part
  fresh d n i hi := by
    obtain hi | hi := h'.fresh d n i hi
    · exact h.fresh d n i hi
    · exact .inr (h.part.next_le.trans hi)
  plain i hi hlt target := by
    by_cases hold : i < fs'.next
    · rw [h'.part.kind_eq i hold]
      exact h.plain i hi hold target
    · exact h'.plain i (by omega) hlt target

theorem addDir (hd : d < fs.next) (hfree : fs.lookup d n = none) : Growth fs (fs.addDir d n hd) where
  part := Part.addDir hd hfree
  fresh d' n' i hi := by
    rw [lookup_addDir] at hi
    split at hi
    · exact .inr (some.inj hi).le
    · exact .inl hi
  plain i hi hlt target := by
    obtain rfl : i = fs.next := Nat.le_antisymm (Nat.le_of_lt_succ hlt) hi
    rw [show (fs.addDir d n hd).kind fs.next = .dir from Function.update_self _ _ _]
    simp

theorem addFile (hd : d < fs.next) (hfree : fs.lookup d n = none) : Growth fs (fs.addFile d n hd) where
  part := Part.addFile hd hfree
  fresh := (addDir hd hfree).fresh
  plain i hi hlt target := by
    obtain rfl : i = fs.next := Nat.le_antisymm (Nat.le_of_lt_succ hlt) hi
    rw [show (fs.addFile d n hd).kind fs.next = .file from Function.update_self _ _ _]
    simp

end Growth
end Graph
end AdbShare.Posix

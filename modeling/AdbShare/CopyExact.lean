import AdbShare.CopyTree
import AdbShare.DeleteLinks

/-! What `copy_tree` copies. If the destination lies apart from the source, the copies are the
regular files that were in the source, one for one. If it lies in the source, the walk comes
to it and copies its own files once more. -/
namespace AdbShare.CopyTree

open Prog PathText Posix Posix.Graph TreeWalk StackWalk Delete List Option Device

/-- The pieces of the destination, to which names are added. -/
abbrev stem (dst : Bytes) : List (Piece FileName) := parse (trimEnd dst)

/-- The call has returned a result and the limit on files was not passed. -/
def Complete (reply : Reply) : Prop := ∃ out, reply = .ok out ∧ out.count ≤ TREE_MAX_FILES

/-- The result counts the copies that were made, and a refused one is among its errors. -/
def Tallied (s : State) : Prop := s.1.copied = s.2.copies.length ∧ s.2.missed.length ≤ s.1.errors.length

/-- Copies are asked for regular files that were in the source, each once and at its place below
the destination, and for all of them if the walk was not cut short; no copy is one of a file that
the call has made, and a refused one is reported. -/
structure Copied (dev : Device) (src dst : Bytes) (reply : Reply) (w : World) : Prop where
  only : (w.copies++w.missed).Subperm (dev.filesUnder src dst)
  once : (w.copies.map Prod.snd).Nodup
  old : ∀ c ∈ w.copies, c.1 < dev.graph.next
  all : Complete reply → (w.copies++w.missed).Perm (dev.filesUnder src dst)
  told : ∀ out, reply = .ok out → Tallied (out,w)

/-- Every request that the file system allows is carried out. -/
structure Obliging (env : Env) : Prop where
  connected : env.connected = true
  never : ∀ w β a, env.refuses w β a = false

/-- Nothing stands in the way: what is below the directory are links, directories within the limit
on levels and regular files, fewer than the limit on files, and the destination is a free name in
a directory that is not one of these. -/
structure Clear (dev : Device) (r : ℕ) (src dst : Bytes) : Prop where
  plain : ∀ ns i, dev.graph.downTo r ns = some i → dev.graph.kind i = .file → dev.regular i = true
  shallow : ∀ ns i, dev.graph.downTo r ns = some i → dev.graph.isDir i = true → ns.length < TREE_MAX_DEPTH
  few : (dev.filesUnder src dst).length < TREE_MAX_FILES
  free : ∃ q n p, stem dst = q++[.name n] ∧ dev.graph.resolve true q = some p ∧ dev.graph.isDir p.node = true ∧
    dev.graph.lookup p.node n = none ∧ ∀ ns, dev.graph.downTo r ns ≠ some p.node

/-- The call ends well, and each file of the source is copied. -/
def Whole (dev : Device) (src dst : Bytes) (reply : Reply) (w : World) : Prop :=
  reply = .ok ⟨(dev.filesUnder src dst).length,[]⟩ ∧ w.copies.Perm (dev.filesUnder src dst) ∧ w.missed = []

/-- The destination lies apart from the directory. If it is there, nothing below it is a link or a
directory that the walk lists; if it is not, the walk does not list it in the directory in which
it is made, or finds it too deep. -/
structure Apart (g : Graph FileName) (r : ℕ) (dst : Bytes) : Prop where
  there : ∀ b, g.resolve true (stem dst) = some b → ∀ i, Relation.ReflTransGen (Leads g) b.node i →
    (∀ target, g.kind i ≠ .link target) ∧
      (g.isDir i = true → ∀ ns, ns.length < TREE_MAX_DEPTH → g.downTo r ns ≠ some i)
  free : g.resolve true (stem dst) = none → ∀ q n p, stem dst = q++[.name n] → g.resolve true q = some p →
    ∀ ns, ns.length+1 < TREE_MAX_DEPTH → g.downTo r ns ≠ some p.node

/-- All names below the directory are text. -/
def Named (g : Graph FileName) (r : ℕ) : Prop :=
  ∀ ns d n i, g.downTo r ns = some d → g.lookup d n = some i → n.lossy = n

/-- A node at or below the destination, old or new. -/
def Dest (g : Graph FileName) (dst : Bytes) (i : ℕ) : Prop :=
  g.next ≤ i ∨ ∃ b, g.resolve true (stem dst) = some b ∧ Relation.ReflTransGen (Leads g) b.node i

/-- The entry at which the destination is made. -/
def Gate (g : Graph FileName) (dst : Bytes) (d : ℕ) (n : FileName) : Prop :=
  g.resolve true (stem dst) = none ∧ ∃ q p, stem dst = q++[.name n] ∧ g.resolve true q = some p ∧ p.node = d

/-- What is new is at or below the destination. -/
structure Kept (fs : Graph FileName) (dst : Bytes) (g : Graph FileName) : Prop where
  growth : Growth fs g
  place : ∀ d n i, g.lookup d n = some i → fs.lookup d n = none →
    Dest fs dst d ∨ Gate fs dst d n ∧ g.isDir i = true

variable {g g' : Graph FileName} {dst src : Bytes} {r d i rounds : ℕ} {n : FileName} {t : Spot FileName}
  {q : List (Piece FileName)} {ns : List FileName} {env : Env} {dev : Device} {w w' : World} {s s' : State}
  {x : Level} {stack stack' : List Level} {result : Except (Reply × World) State}

section

variable {fs : Graph FileName}

theorem ne_nil_of_stem (habs : isAbsolute dst) (h : stem dst = q++[.name n]) : q ≠ [] := by
  rintro rfl
  obtain ⟨j,hj⟩ := parse_trimEnd dst
  rw [show parse (trimEnd dst) = [.name n] from h] at hj
  cases dst with
  | nil => cases habs
  | cons b bs =>
    obtain rfl : b = SLASH := by simpa [isAbsolute] using habs
    have hhead : (parse (SLASH::bs)).head? = some .empty := rfl
    rw [hj] at hhead
    cases hhead

theorem Kept.refl (fs : Graph FileName) (dst : Bytes) : Kept fs dst fs :=
  ⟨Growth.refl fs,fun _ _ _ h h' => absurd (h.symm.trans h') (by simp)⟩

section

variable (h : Kept fs dst g) {p : List (Piece FileName)} {path : Bytes}
include h

/-- If something is new in an old directory, it is the destination or below it. -/
theorem Kept.old (hd : d < fs.next) (hi : g.lookup d n = some i) (hnone : fs.lookup d n = none)
    (hbase : fs.resolve true (stem dst) = none) : Gate fs dst d n ∧ g.isDir i := by
  obtain (hd' | ⟨b,hb,-⟩) | hgate := h.place d n i hi hnone
  · omega
  · cases hb.symm.trans hbase
  · exact hgate

/-- As long as the destination is not there, paths lead where they did, or it has been made. -/
theorem Kept.resolve_old (hbase : fs.resolve true (stem dst) = none)
    (ht : g.resolve true p = some t) : fs.resolve true p = some t ∨
      ∃ d n i, Gate fs dst d n ∧ fs.lookup d n = none ∧ g.lookup d n = some i ∧ g.isDir i := by
  by_cases hnew : ∃ d n i, d < fs.next ∧ g.lookup d n = some i ∧ fs.lookup d n = none
  · obtain ⟨d,n,i,hd,hi,hnone⟩ := hnew
    obtain ⟨hgate,hdir⟩ := h.old hd hi hnone hbase
    exact .inr ⟨d,n,i,hgate,hnone,hi,hdir⟩
  · left
    refine h.growth.part.resolve_back ?_ ht
    intro d n i hd hi
    cases hold : fs.lookup d n with
    | none => exact absurd ⟨d,n,i,hd,hi,hold⟩ hnew
    | some j => exact (h.growth.part.lookup_eq _ _ _ hold).symm.trans hi

theorem Kept.resolve_stem (habs : isAbsolute dst) (ht : g.resolve true (stem dst) = some t) : Dest fs dst t.node := by
  cases hbase : fs.resolve true (stem dst) with
  | some b =>
    obtain rfl : b = t := some.inj ((h.growth.part.resolve hbase).symm.trans ht)
    exact .inr ⟨b,hbase,.refl⟩
  | none =>
    obtain hold | ⟨d,n,i,⟨-,q,p,hq,hp,rfl⟩,hnone,hi,hdir⟩ := h.resolve_old hbase ht
    · cases hbase.symm.trans hold
    have hne := ne_nil_of_stem habs hq
    rw [hq] at ht
    obtain ⟨s,j,hs,-,hj,hspot⟩ := resolve_name_cases hne ht
    cases (h.growth.part.resolve hp).symm.trans hs
    cases hj.symm.trans hi
    rw [hspot (by simp [isDir_iff.mp hdir])]
    exact .inl ((h.growth.fresh _ _ _ hi).resolve_left (by simp [hnone]))

theorem Kept.dest_child (hd : Dest fs dst d) (hdir : g.isDir d) (hi : g.lookup d n = some i) : Dest fs dst i := by
  obtain hi' | hnew := h.growth.fresh _ _ _ hi
  · have hlt := (lookup_lt hi').1
    obtain hd' | ⟨b,hb,hreach⟩ := hd
    · omega
    · exact .inr ⟨b,hb,hreach.tail ⟨(h.growth.part.isDir_eq hlt).symm.trans hdir,n,hi'⟩⟩
  · exact .inl hnew

theorem Kept.dest_plain (hapart : Apart fs r dst) (hi : Dest fs dst i) (hlt : i < g.next)
    (target : List (Piece FileName)) : g.kind i ≠ .link target := by
  by_cases hold : i < fs.next
  · rw [h.growth.part.kind_eq i hold]
    obtain hi | ⟨b,hb,hreach⟩ := hi
    · omega
    · exact (hapart.there b hb i hreach).1 target
  · exact h.growth.plain i (by omega) hlt target

theorem Kept.resolve_below (habs : isAbsolute dst) (hapart : Apart fs r dst)
    (ht : g.resolve true (stem dst++ns.map .name) = some t) : Dest fs dst t.node := by
  induction ns using List.reverseRecOn generalizing t with
  | nil =>
    rw [map_nil,append_nil] at ht
    exact h.resolve_stem habs ht
  | append_singleton ns n ih =>
    rw [map_append,map_singleton,← append_assoc] at ht
    have hne : stem dst++ns.map Piece.name ≠ [] := by simp [parse_ne_nil]
    obtain ⟨s,i,hs,hdir,hi,hspot⟩ := resolve_name_cases hne ht
    have hdest := h.dest_child (ih hs) hdir hi
    rw [hspot (h.dest_plain hapart hdest (lookup_lt hi).2)]
    exact hdest

theorem Kept.add (hgrowth : Growth g g')
    (hlookup : ∀ d' n', g'.lookup d' n' = if d' = d ∧ n' = n then some g.next else g.lookup d' n')
    (hplace : Dest fs dst d ∨ Gate fs dst d n ∧ g'.isDir g.next) : Kept fs dst g' where
  growth := h.growth.trans hgrowth
  place d' n' i hi hnone := by
    rw [hlookup] at hi
    split at hi
    · rename_i heq
      obtain ⟨rfl,rfl⟩ := heq
      cases hi
      exact hplace
    · exact (h.place _ _ _ hi hnone).imp_right fun hgate =>
        ⟨hgate.1,(hgrowth.part.isDir_eq (lookup_lt hi).2).trans hgate.2⟩

theorem Kept.addDir (hlt : d < g.next) (hfree : g.lookup d n = none)
    (hplace : Dest fs dst d ∨ Gate fs dst d n) : Kept fs dst (g.addDir d n hlt) := by
  refine h.add (Growth.addDir hlt hfree) (lookup_addDir hlt n) (hplace.imp_right ?_)
  intro hgate
  exact ⟨hgate,isDir_iff.mpr (Function.update_self _ _ _)⟩

theorem Kept.addFile (hlt : d < g.next) (hfree : g.lookup d n = none)
    (hplace : Dest fs dst d) : Kept fs dst (g.addFile d n hlt) :=
  h.add (Growth.addFile hlt hfree) (lookup_addFile hlt n) (.inl hplace)

theorem Kept.mkdir (habs : isAbsolute dst) (hapart : Apart fs r dst)
    (hpath : stem path = stem dst++ns.map .name) (hg : g.mkdir (parse path) = some g') : Kept fs dst g' := by
  obtain ⟨q,n,s,hlt,hq,hs,hdir,hfree,rfl⟩ := mkdir_cases hg
  refine h.addDir hlt hfree ?_
  have hq := (parse_trimEnd_of_rdropWhile hq).symm.trans hpath
  induction ns using List.reverseRecOn with
  | nil =>
    rw [map_nil,append_nil] at hq
    have hne := ne_nil_of_stem habs hq.symm
    have hbase : fs.resolve true (stem dst) = none := by
      rw [eq_none_iff_forall_not_mem]
      intro b hb
      have hb : g.resolve true (stem dst) = some b := h.growth.part.resolve hb
      rw [← hq] at hb
      obtain ⟨s',i,hs',-,hi,-⟩ := resolve_name_cases hne hb
      cases hs'.symm.trans hs
      cases hi.symm.trans hfree
    right
    refine ⟨hbase,q,s,hq.symm,?_,rfl⟩
    obtain hold | ⟨d,m,i,⟨-,q',p,hq',hp,rfl⟩,-,-,-⟩ := h.resolve_old hbase hs
    · exact hold
    · obtain ⟨rfl,-⟩ := append_inj' (hq.trans hq') rfl
      rwa [some.inj ((h.growth.part.resolve hp).symm.trans hs)] at hp
  | append_singleton ns m _ =>
    rw [map_append,map_singleton,← append_assoc] at hq
    obtain ⟨rfl,-⟩ := append_inj' hq rfl
    exact .inl (h.resolve_below habs hapart hs)

end

end

/-- A directory that the walk has still to list: one of the source, at its place below the
destination. -/
structure Sound (g : Graph FileName) (r : ℕ) (dst : Bytes) (x : Level) : Prop where
  target : ∃ ns : List FileName, stem x.target = stem dst++ns.map .name
  source : x.depth < TREE_MAX_DEPTH → ∃ t ns, g.resolve true (stem x.source) = some t ∧ g.isDir t.node = true ∧
    ns.length = x.depth ∧ g.downTo r ns = some t.node

/-- The copies that are still to come from a directory on the stack. -/
def pending (dev : Device) (x : Level) : List (ℕ × Bytes) :=
  match dev.graph.resolve true (stem x.source) with
  | some t => dev.filesBelow (TREE_MAX_DEPTH-x.depth) t.node x.target
  | none => []

/-- The copies that are still to come from a name in the directory that is being listed; none from
what was not there. -/
def owed (dev : Device) (x : Level) (d : ℕ) (e : (_ : FileName) × ℕ) : List (ℕ × Bytes) :=
  if dev.graph.lookup d e.1 = some e.2 then dev.share (dev.filesBelow (TREE_MAX_DEPTH-(x.depth+1))) x.target e else []

/-- What holds between the steps: what is copied or refused and what is still to come are
together the files of the source. -/
structure Inv (dev : Device) (r : ℕ) (src dst : Bytes) (w : World) (todo : List (ℕ × Bytes)) (stack : List Level) :
    Prop where
  kept : Kept dev.graph dst w.device.graph
  regular : ∀ i, i < dev.graph.next → w.device.regular i = dev.regular i
  taken : ∀ c ∈ w.copies, w.device.graph.takenAt (parse c.2) = true
  once : (w.copies.map Prod.snd).Nodup
  sound : ∀ y ∈ stack, Sound dev.graph r dst y
  law : (w.copies++w.missed++(todo++stack.flatMap (pending dev))).Perm (dev.filesUnder src dst)

section

variable {listing dev' : Device} {levels : ℕ} {target : Bytes} {todo : List (ℕ × Bytes)} {u : Spot FileName}
  {e : (_ : FileName) × ℕ} {stop : Reply × World} {path : Bytes} {kind : Kind FileName} {mode : FileMode}
  {entry : DirEntry} {entries : List DirEntry} {es : List ((_ : FileName) × ℕ)} {c : ℕ × Bytes}

/-- The walk lists a directory of the source. -/
structure Here (dev : Device) (r : ℕ) (dst : Bytes) (x : Level) (t : Spot FileName) : Prop where
  sound : Sound dev.graph r dst x
  shallow : x.depth < TREE_MAX_DEPTH
  leads : dev.graph.resolve true (stem x.source) = some t
  isDir : dev.graph.isDir t.node = true

theorem stem_childPath (path : Bytes) (n : FileName) : stem (childPath path n.bytes) = stem path++[.name n] := by
  rw [stem,trimEnd_childPath,parse_childPath]

theorem pending_deep (h : TREE_MAX_DEPTH ≤ x.depth) : pending dev x = [] := by
  unfold pending
  rw [Nat.sub_eq_zero_of_le h]
  split <;> rfl

theorem pending_eq (h : x.depth < TREE_MAX_DEPTH) (ht : dev.graph.resolve true (stem x.source) = some t) :
    pending dev x = (dev.graph.entries t.node).entries.flatMap (owed dev x t.node) := by
  have hlevels : TREE_MAX_DEPTH-x.depth = (TREE_MAX_DEPTH-(x.depth+1))+1 := by omega
  unfold pending
  rw [ht]
  dsimp only
  rw [hlevels,filesBelow,flatMap_def]
  congr 1
  apply map_congr_left
  intro e he
  have hold : dev.graph.lookup t.node e.1 = some e.2 := Dict.mem_entries_iff.mp he
  rw [owed,if_pos hold]

theorem Inv.taken_later (h : Inv dev r src dst w todo stack) (hlater : Later w w') :
    ∀ c ∈ w.copies, w'.device.graph.takenAt (parse c.2) :=
  fun c hc => hlater.growth.part.takenAt (h.taken c hc)

theorem Inv.regular_later (h : Inv dev r src dst w todo stack) (hlater : Later w w') :
    ∀ i, i < dev.graph.next → w'.device.regular i = dev.regular i :=
  fun i hi => (hlater.regular i (hi.trans_le h.kept.growth.part.next_le)).trans (h.regular i hi)

theorem Inv.mkdir (h : Inv dev r src dst w todo stack) (habs : isAbsolute dst)
    (hapart : Apart dev.graph r dst) (hx : Sound dev.graph r dst x) (mode : ℕ) :
    Inv dev r src dst (w.mkdir env x.target mode).2 todo stack := by
  obtain ⟨ns,hns⟩ := hx.target
  have hlater : Later w (w.mkdir env x.target mode).2 := later_mkdir _ _
  obtain heq | ⟨g,hg,heq⟩ := mkdir_world env w x.target mode
  · rwa [heq]
  · rw [heq] at hlater ⊢
    exact ⟨h.kept.mkdir habs hapart hns hg,h.regular_later hlater,h.taken_later hlater,h.once,h.sound,h.law⟩

/-- The source path of a file leads to it. -/
theorem regularAt_child (ht : dev.graph.resolve true (stem path) = some t) (hdir : dev.graph.isDir t.node)
    (hi : dev.graph.lookup t.node n = some i) (hfile : dev.graph.kind i = .file) :
    dev.regularAt (childPath path n.bytes) = if dev.regular i then some i else none := by
  have hspot : dev.graph.resolve false (parse (childPath path n.bytes)) = some ⟨i,some (t.node,n)⟩ := by
    rw [parse_childPath,resolve_name (parse_ne_nil _),ht]
    simp [hdir,hi]
  rw [regularAt,hspot]
  simp [hfile]

theorem not_taken_of_create (h : dev.create (childPath path n.bytes) = some dev') :
    dev.graph.takenAt (parse (childPath path n.bytes)) = false ∧
      dev'.graph.takenAt (parse (childPath path n.bytes)) := by
  obtain ⟨t,hlt,ht,hdir,hfree,rfl⟩ := create_child h
  have hpart : Part dev.graph (dev.graph.addFile t.node n hlt) := Part.addFile hlt hfree
  have hnew : (dev.graph.addFile t.node n hlt).lookup t.node n = some dev.graph.next := by
    rw [lookup_addFile,if_pos ⟨rfl,rfl⟩]
  rw [takenAt,takenAt,parse_childPath,resolve_name (parse_ne_nil _),resolve_name (parse_ne_nil _),ht,hpart.resolve ht]
  simp [hdir,hfree,hnew,hpart.isDir_eq hlt]

theorem Inv.copyFile (habs : isAbsolute dst) (hapart : Apart dev.graph r dst) (hx : Here dev r dst x t)
    (he : dev.graph.lookup t.node e.1 = some e.2) (hfile : dev.graph.kind e.2 = .file)
    (h : Inv dev r src dst w (owed dev x t.node e++todo) stack) :
    Inv dev r src dst (w.copyFile env (childPath x.source e.1.bytes) (childPath x.target e.1.bytes)).2 todo stack := by
  have hpart := h.kept.growth.part
  have hlt := lookup_lt he
  have hlater : Later w (w.copyFile env (childPath x.source e.1.bytes) (childPath x.target e.1.bytes)).2 :=
    later_copyFile _ _ _
  have hat := regularAt_child (hpart.resolve hx.leads) ((hpart.isDir_eq hlt.1).trans hx.isDir)
    (hpart.lookup_eq _ _ _ he) ((hpart.kind_eq _ hlt.2).trans hfile)
  rw [h.regular _ hlt.2] at hat
  have howed : owed dev x t.node e = if dev.regular e.2 then [(e.2,childPath x.target e.1.bytes)] else [] := by
    rw [owed,if_pos he,share,hfile]
  obtain ⟨hnone,heq⟩ | ⟨i,hi,hrest⟩ :=
    copyFile_world env w (childPath x.source e.1.bytes) (childPath x.target e.1.bytes)
  · rw [heq]
    rw [hat] at hnone
    rwa [howed,if_neg (by simpa using hnone)] at h
  · rw [hat] at hi
    split_ifs at hi with hreg
    cases hi
    have hlaw := h.law
    rw [howed,if_pos hreg] at hlaw
    obtain heq | ⟨dev',hdev',heq⟩ := hrest
    · rw [heq]
      refine ⟨h.kept,h.regular,h.taken,h.once,h.sound,(perm_iff_count.mpr ?_).trans hlaw⟩
      intro c
      simp only [count_append]
      omega
    · obtain ⟨hfree,hgot⟩ := not_taken_of_create hdev'
      have hkept : Kept dev.graph dst dev'.graph := by
        obtain ⟨u,hlt',hu,-,hnone,rfl⟩ := create_child hdev'
        obtain ⟨ns,hns⟩ := hx.sound.target
        rw [show parse (trimEnd x.target) = _ from hns] at hu
        exact h.kept.addFile hlt' hnone (h.kept.resolve_below habs hapart hu)
      rw [heq] at hlater ⊢
      refine ⟨hkept,h.regular_later hlater,?_,?_,h.sound,(perm_iff_count.mpr ?_).trans hlaw⟩
      · intro c hc
        obtain hc | hc := mem_append.mp hc
        · exact h.taken_later hlater c hc
        · rwa [mem_singleton.mp hc]
      · rw [map_append,map_singleton]
        refine List.Nodup.append h.once (nodup_singleton _) ?_
        rw [disjoint_singleton]
        intro hmem
        obtain ⟨c,hc,hpath⟩ := mem_map.mp hmem
        have := h.taken c hc
        rw [hpath,hfree] at this
        cases this
      · intro c
        simp only [count_append]
        omega

/-- A name in the directory that is being listed: one of the source, which is text, or a new
directory that is too deep. -/
def Listed (dev listing : Device) (x : Level) (d : ℕ) (e : (_ : FileName) × ℕ) : Prop :=
  listing.graph.lookup d e.1 = some e.2 ∧
    (dev.graph.lookup d e.1 = some e.2 ∧ e.1.lossy = e.1 ∨
      dev.graph.lookup d e.1 = none ∧ listing.graph.isDir e.2 = true ∧ TREE_MAX_DEPTH ≤ x.depth+1)

/-- A directory of the source is put on the stack. -/
theorem sound_child (hx : Here dev r dst x t) (he : dev.graph.lookup t.node e.1 = some e.2) (hkind : dev.graph.isDir e.2) :
    Sound dev.graph r dst (copyChild x e.1.bytes) ∧ pending dev (copyChild x e.1.bytes) = owed dev x t.node e := by
  have hspot : dev.graph.resolve true (stem (childPath x.source e.1.bytes)) = some ⟨e.2,some (t.node,e.1)⟩ := by
    rw [stem_childPath]
    exact resolve_name_follow (parse_ne_nil _) hx.leads hx.isDir he (by simp [isDir_iff.mp hkind])
  obtain ⟨ns,hns⟩ := hx.sound.target
  obtain ⟨t',ms,ht',-,hlen,hdown⟩ := hx.sound.source hx.shallow
  cases ht'.symm.trans hx.leads
  refine ⟨⟨⟨ns++[e.1],?_⟩,?_⟩,?_⟩
  · rw [copyChild,stem_childPath,hns]
    simp
  · intro _
    exact ⟨_,ms++[e.1],hspot,hkind,by simp [hlen,copyChild],downTo_child hdown hx.isDir he⟩
  · rw [owed,if_pos he,share,isDir_iff.mp hkind]
    unfold pending
    rw [copyChild,hspot]

theorem file_of_shows (h : Shows kind mode) (hlink : mode.isSymlink = false)
    (hdir : mode.isDir = false) : kind = .file := by
  cases kind with
  | file => rfl
  | dir => cases (h.1.mpr rfl).symm.trans hdir
  | link target => cases (h.2.mpr ⟨target,rfl⟩).symm.trans hlink

theorem inv_enter (habs : isAbsolute dst) (hapart : Apart dev.graph r dst) (hx : Here dev r dst x t)
    (he : Listed dev listing x t.node e) (hpart : Part dev.graph listing.graph) (h : Inv dev r src dst s.2 (owed dev x t.node e++todo) stack)
    (hstep : enter env x (s,stack) (env.listed listing e) = .ok (s',stack')) :
    Inv dev r src dst s'.2 todo stack' := by
  obtain ⟨hhere,hold⟩ := he
  have hshows := env.shows listing e.2
  obtain ⟨-,⟨hlink,rfl,rfl⟩ | ⟨hlink,hkind,rfl,rfl⟩ | ⟨hlink,hkind,rfl,rfl⟩⟩ := enter_ok hstep
  · obtain ⟨target,htarget⟩ := hshows.2.mp hlink
    have howed : owed dev x t.node e = [] := by
      rw [owed]
      split
      · rename_i hsome
        rw [share,← hpart.kind_eq _ (lookup_lt hsome).2,htarget]
      · rfl
    rwa [howed] at h
  · have hkind := isDir_iff.mpr (hshows.1.mp hkind)
    have hchild : Sound dev.graph r dst (copyChild x e.1.lossy.bytes) ∧
        pending dev (copyChild x e.1.lossy.bytes) = owed dev x t.node e := by
      obtain ⟨hsome,htext⟩ | ⟨hnone,-,hdeep⟩ := hold
      · rw [htext]
        exact sound_child hx hsome ((hpart.isDir_eq (lookup_lt hsome).2).symm.trans hkind)
      rw [pending_deep hdeep,owed,if_neg (by simp [hnone])]
      obtain ⟨ns,hns⟩ := hx.sound.target
      refine ⟨⟨⟨ns++[e.1.lossy],?_⟩,?_⟩,rfl⟩
      · rw [copyChild,stem_childPath,hns]
        simp
      · intro hdepth'
        exact absurd hdepth' (Nat.not_lt.mpr hdeep)
    refine ⟨h.kept,h.regular,h.taken,h.once,?_,(perm_iff_count.mpr ?_).trans h.law⟩
    · intro y hy
      obtain rfl | hy := mem_cons.mp hy
      · exact hchild.1
      · exact h.sound y hy
    · intro c
      have hpending : pending dev (copyChild x (env.listed listing e).name) = owed dev x t.node e := hchild.2
      simp only [count_append,flatMap_cons,hpending]
      omega
  · have hfile := file_of_shows hshows hlink hkind
    obtain ⟨hsome,htext⟩ | ⟨-,hnew,-⟩ := hold
    · have hname : (env.listed listing e).name = e.1.bytes := congrArg FileName.bytes htext
      rw [copyOne_world,hname]
      exact h.copyFile habs hapart hx hsome ((hpart.kind_eq _ (lookup_lt hsome).2).symm.trans hfile)
    · rw [isDir_iff.mp hnew] at hfile
      cases hfile

theorem enter_early (h : enter env x (s,stack) entry = .error stop) : ¬ Complete stop.1 := by
  obtain ⟨text,hcap,rfl⟩ := enter_error h
  rintro ⟨out,hout,hcount⟩
  cases hout
  simp only [TreeCopyResult.count,TreeCopyResult.report,length_append,length_singleton] at hcap hcount
  omega

theorem Tallied.report (h : Tallied s) (e : String) : Tallied (s.1.report e,s.2) := by
  refine ⟨h.1,h.2.trans ?_⟩
  simp [TreeCopyResult.report]

theorem Tallied.copyOne (h : Tallied s) (name : Bytes) : Tallied (copyOne env x name s) := by
  obtain ⟨hcopied,hmissed⟩ := h
  unfold CopyTree.copyOne World.copyFile
  cases s.2.device.regularAt (childPath x.source name) with
  | none => exact Tallied.report ⟨hcopied,hmissed⟩ _
  | some i =>
    dsimp only
    split
    · rename_i heq
      split at heq
      · cases heq
      · cases heq
        simpa [Tallied,TreeCopyResult.another] using ⟨hcopied,hmissed⟩
    · rename_i heq
      split at heq
      · cases heq
        simpa [Tallied,TreeCopyResult.report] using ⟨hcopied,hmissed⟩
      · cases heq

theorem Tallied.enter (h : Tallied s) (hstep : enter env x (s,stack) entry = .ok (s',stack')) : Tallied s' := by
  obtain ⟨-,⟨-,rfl,-⟩ | ⟨-,-,rfl,-⟩ | ⟨-,-,rfl,-⟩⟩ := enter_ok hstep
  · exact h
  · exact h
  · exact h.copyOne _

/-- What is known when the call ends early. -/
structure Stopped (dev : Device) (src dst : Bytes) (r : Reply × World) : Prop where
  only : (r.2.copies++r.2.missed).Subperm (dev.filesUnder src dst)
  once : (r.2.copies.map Prod.snd).Nodup
  early : ¬ Complete r.1
  told : ∀ out, r.1 = .ok out → Tallied (out,r.2)

theorem Inv.only (h : Inv dev r src dst w todo stack) : (w.copies++w.missed).Subperm (dev.filesUnder src dst) :=
  (sublist_append_left _ _).subperm.trans h.law.subperm

/-- What a round, or the rest of one, comes to. -/
def Goes (dev : Device) (r : ℕ) (src dst : Bytes) : Except (Reply × World) (State × List Level) → Prop
  | .ok (s,stack) => Inv dev r src dst s.2 [] stack ∧ Tallied s
  | .error stop => Stopped dev src dst stop

theorem inv_foldlM (habs : isAbsolute dst) (hapart : Apart dev.graph r dst) (hx : Here dev r dst x t)
    (hpart : Part dev.graph listing.graph) (hes : ∀ e ∈ es, Listed dev listing x t.node e)
    (h : Inv dev r src dst s.2 (es.flatMap (owed dev x t.node)) stack) (htallied : Tallied s) :
    Goes dev r src dst ((es.map (env.listed listing)).foldlM (enter env x) (s,stack)) := by
  induction es generalizing s stack with
  | nil => exact ⟨h,htallied⟩
  | cons e es ih =>
    rw [map_cons,foldlM_cons]
    cases hfirst : enter env x (s,stack) (env.listed listing e) with
    | error stop =>
      have hearly := enter_early hfirst
      obtain ⟨text,-,rfl⟩ := enter_error hfirst
      refine ⟨h.only,h.once,hearly,?_⟩
      rintro out ⟨⟩
      exact htallied.report text
    | ok next =>
      exact ih (fun e' he' => hes e' (mem_cons_of_mem e he')) (inv_enter habs hapart hx (hes e mem_cons_self) hpart h hfirst)
        (htallied.enter hfirst)

/-- What the listing of a directory of the source shows. -/
theorem Inv.listed (env : Env) (hapart : Apart dev.graph r dst) (hnamed : Named dev.graph r) (hx : Here dev r dst x t)
    (h : Inv dev r src dst w (pending dev x) stack) :
    (∀ e ∈ env.order (w.device.graph.entries t.node).entries, Listed dev w.device x t.node e) ∧
      Inv dev r src dst w ((env.order (w.device.graph.entries t.node).entries).flatMap (owed dev x t.node)) stack := by
  obtain ⟨t',ns,ht',-,hlen,hdown⟩ := hx.sound.source hx.shallow
  obtain rfl : t' = t := some.inj (ht'.symm.trans hx.leads)
  have hlt := resolve_lt hx.leads
  have hdepth := hx.shallow
  constructor
  · intro e he
    have hhere : w.device.graph.lookup t'.node e.1 = some e.2 :=
      Dict.mem_entries_iff.mp ((env.order_perm _).mem_iff.mp he)
    refine ⟨hhere,?_⟩
    cases hold : dev.graph.lookup t'.node e.1 with
    | some i =>
      cases (h.kept.growth.part.lookup_eq _ _ _ hold).symm.trans hhere
      exact .inl ⟨rfl,hnamed ns _ _ _ hdown hold⟩
    | none =>
      right
      obtain (hnew | ⟨b,hb,hreach⟩) | ⟨⟨hfree,q,p,hq,hp,hpt⟩,hnewdir⟩ := h.kept.place _ _ _ hhere hold
      · omega
      · exact absurd hdown ((hapart.there b hb _ hreach).2 hx.isDir ns (by omega))
      refine ⟨rfl,hnewdir,?_⟩
      by_contra hshallow
      apply hapart.free hfree q e.1 p hq hp ns (by omega)
      rw [hpt]
      exact hdown
  · obtain ⟨extra,hperm,hextra⟩ := h.kept.growth.part.entries_perm t'.node
    have hnothing : extra.flatMap (owed dev x t'.node) = [] := by
      rw [flatMap_eq_nil_iff]
      intro e he
      rw [owed,if_neg (by simp [(hextra e he).1])]
    have hsame : ((env.order (w.device.graph.entries t'.node).entries).flatMap (owed dev x t'.node)).Perm
        (pending dev x) := by
      rw [pending_eq hdepth hx.leads]
      refine (((env.order_perm _).trans hperm).flatMap_right _).trans ?_
      rw [flatMap_append,hnothing,append_nil]
    refine ⟨h.kept,h.regular,h.taken,h.once,h.sound,?_⟩
    exact (List.Perm.append_left _ (hsame.append_right _)).trans h.law

theorem spot_of_listing (hpart : Part g g') (ht : g.resolve true (stem path) = some t) (hdir : g.isDir t.node)
    (hu : g'.resolve true (parse path) = some u) : u = t := by
  obtain ⟨j,hj⟩ := parse_trimEnd path
  have hdir' := (hpart.isDir_eq (resolve_lt ht)).trans hdir
  have hsame := (resolve_slashes_iff (j:=j) (parse_ne_nil _) hdir').mpr (hpart.resolve ht)
  rw [← hj] at hsame
  exact some.inj (hu.symm.trans hsame)

/-- A round of the loop. -/
theorem inv_visit (env : Env) (habs : isAbsolute dst) (hapart : Apart dev.graph r dst) (hnamed : Named dev.graph r)
    (h : Inv dev r src dst s.2 [] (x::stack)) (htallied : Tallied s) : Goes dev r src dst (visit env x s stack) := by
  have hx := h.sound x mem_cons_self
  have hrest : Inv dev r src dst s.2 (pending dev x) stack :=
    ⟨h.kept,h.regular,h.taken,h.once,fun y hy => h.sound y (mem_cons_of_mem x hy),by simpa using h.law⟩
  have hw : Inv dev r src dst (s.2.mkdir env x.target 0o755).2 (pending dev x) stack := hrest.mkdir habs hapart hx _
  obtain ⟨hdeep,e,he⟩ | ⟨hdepth,w,rfl,⟨e,he⟩ | ⟨u,hu,-,hfold⟩⟩ := visit_cases env x s stack
  · rw [he]
    rw [pending_deep hdeep] at hrest
    exact ⟨hrest,htallied.report e⟩
  · rw [he]
    exact ⟨hw.only,hw.once,by simp [Complete],by simp⟩
  obtain ⟨t,ns,ht,hdir,-,-⟩ := hx.source hdepth
  obtain rfl := spot_of_listing hw.kept.growth.part ht hdir hu
  have hhere : Here dev r dst x u := ⟨hx,hdepth,ht,hdir⟩
  obtain ⟨hes,hinv⟩ := hw.listed env hapart hnamed hhere
  rw [hfold]
  refine inv_foldlM habs hapart hhere hw.kept.growth.part hes hinv ?_
  obtain heq | ⟨g,-,heq⟩ := mkdir_world env s.2 x.target 0o755
  · rwa [heq]
  · rw [heq]
    exact htallied

theorem lt_of_mem_filesBelow (hc : c ∈ dev.filesBelow levels d target) : c.1 < dev.graph.next := by
  induction levels generalizing d target with
  | zero => cases hc
  | succ levels ih =>
    obtain ⟨e,he,hc⟩ := mem_flatMap.mp hc
    unfold share at hc
    split at hc
    · split at hc
      · rw [mem_singleton.mp hc]
        exact (dev.graph.entry_lt d e.1 e.2 (Dict.mem_entries_iff.mp he)).2
      · cases hc
    · exact ih hc
    · cases hc

theorem lt_of_mem_filesUnder (hc : c ∈ dev.filesUnder src dst) : c.1 < dev.graph.next := by
  unfold filesUnder at hc
  split at hc
  · split at hc
    · exact lt_of_mem_filesBelow hc
    · cases hc
  · cases hc

theorem resolve_stem (ht : dev.graph.resolve true (parse src) = some t) (hdir : dev.graph.isDir t.node) :
    dev.graph.resolve true (stem src) = some t := by
  obtain ⟨j,hj⟩ := parse_trimEnd src
  rw [hj] at ht
  exact (resolve_slashes_iff (parse_ne_nil _) hdir).mp ht

theorem inv_start (ht : dev.graph.resolve true (parse src) = some t) (hdir : dev.graph.isDir t.node) :
    Inv dev t.node src dst ⟨dev,[],[]⟩ [] [⟨src,dst,0⟩] := by
  have hstem := resolve_stem ht hdir
  refine ⟨Kept.refl _ _,fun _ _ => rfl,by simp,by simp,?_,?_⟩
  · intro y hy
    rw [mem_singleton.mp hy]
    exact ⟨⟨[],by simp⟩,fun _ => ⟨t,[],hstem,hdir,rfl,rfl⟩⟩
  · have hfiles : dev.filesUnder src dst = pending dev ⟨src,dst,0⟩ := by
      rw [filesUnder,ht,pending,hstem]
      exact if_pos hdir
    simp [hfiles]

/-- The whole walk, if the destination lies apart. -/
theorem copied_of_apart (habs : isAbsolute dst) (ht : dev.graph.resolve true (parse src) = some t)
    (hdir : dev.graph.isDir t.node) (hnamed : Named dev.graph t.node) (hapart : Apart dev.graph t.node dst)
    (h : roam (visit env) rounds [⟨src,dst,0⟩] (.empty,⟨dev,[],[]⟩) = some result) :
    Copied dev src dst (finish result).1 (finish result).2 := by
  have hrule := roam_rule (I:=fun s stack => Inv dev t.node src dst s.2 [] stack ∧ Tallied s) (R:=Stopped dev src dst) ?_ ?_
    (s:=(TreeCopyResult.empty,⟨dev,[],[]⟩)) ⟨inv_start ht hdir,rfl,le_rfl⟩ h
  · have hold : ∀ {w : World}, (w.copies++w.missed).Subperm (dev.filesUnder src dst) →
        ∀ c ∈ w.copies, c.1 < dev.graph.next :=
      fun honly c hc => lt_of_mem_filesUnder (honly.subset (mem_append_left _ hc))
    cases result with
    | error stop =>
      have hstop : Stopped dev src dst stop := hrule
      exact ⟨hstop.only,hstop.once,hold hstop.only,fun hcomplete => absurd hcomplete hstop.early,hstop.told⟩
    | ok s =>
      obtain ⟨hinv,htallied⟩ : Inv dev t.node src dst s.2 [] [] ∧ Tallied s := hrule
      refine ⟨hinv.only,hinv.once,hold hinv.only,?_,?_⟩
      · intro _
        show (s.2.copies++s.2.missed).Perm _
        simpa using hinv.law
      · intro out hout
        cases hout
        exact htallied
  · intro x s stack s' stack' hs hvisit
    have hgoes := inv_visit env habs hapart hnamed hs.1 hs.2
    rwa [hvisit] at hgoes
  · intro x s stack stop hs hvisit
    have hgoes := inv_visit env habs hapart hnamed hs.1 hs.2
    rwa [hvisit] at hgoes

end

/-- The name at which the directory for a level on the stack can be made. -/
structure Vacant (g : Graph FileName) (y : Level) (p : ℕ × FileName) : Prop where
  shallow : y.depth < TREE_MAX_DEPTH
  way : ∃ q t, q ≠ [] ∧ stem y.target = q++[.name p.2] ∧ g.resolve true q = some t ∧ t.node = p.1
  isDir : g.isDir p.1 = true
  free : g.lookup p.1 p.2 = none

/-- There is room for the levels on the stack, each at a name of its own, and for files at other
names. -/
def Room (g : Graph FileName) (stack : List Level) (reserved : List (ℕ × FileName)) : Prop :=
  ∃ places, Forall₂ (Vacant g) stack places ∧ (reserved++places).Nodup ∧ ∀ p ∈ reserved, g.lookup p.1 p.2 = none

/-- What holds of a walk in which nothing has gone wrong. -/
structure Smooth (s : State) (stack : List Level) (reserved : List (ℕ × FileName)) : Prop where
  clean : s.1.errors = []
  tallied : Tallied s
  room : Room s.2.device.graph stack reserved

/-- The names that are still to come in a directory are free in its copy. -/
structure Going (x : Level) (u : Spot FileName) (s : State) (stack : List Level) (es : List ((_ : FileName) × ℕ)) :
    Prop where
  smooth : Smooth s stack (es.map fun e => (u.node,e.1))
  made : s.2.device.graph.resolve true (stem x.target) = some u
  isDir : s.2.device.graph.isDir u.node = true

section

variable {listing : Device} {e : (_ : FileName) × ℕ} {es : List ((_ : FileName) × ℕ)} {todo : List (ℕ × Bytes)}
  {u : Spot FileName} {y : Level} {p : ℕ × FileName} {places reserved : List (ℕ × FileName)}

theorem Clear.absent (habs : isAbsolute dst) (h : Clear dev r src dst) : dev.graph.resolve true (stem dst) = none := by
  obtain ⟨q,n,p,hq,hp,-,hfree,-⟩ := h.free
  rw [eq_none_iff_forall_not_mem]
  intro b hb
  have hb : dev.graph.resolve true (q++[.name n]) = some b := by rwa [← hq]
  obtain ⟨s,i,hs,-,hi,-⟩ := resolve_name_cases (ne_nil_of_stem habs hq) hb
  cases hp.symm.trans hs
  cases hi.symm.trans hfree

theorem Clear.apart (habs : isAbsolute dst) (h : Clear dev r src dst) : Apart dev.graph r dst := by
  constructor
  · intro b hb
    cases hb.symm.trans (h.absent habs)
  · intro _ q' n' p' hq' hp' ns _
    obtain ⟨q,n,p,hq,hp,-,-,hout⟩ := h.free
    obtain ⟨rfl,-⟩ := append_inj' (hq.symm.trans hq') rfl
    cases hp.symm.trans hp'
    exact hout ns

section

variable (hpart : Part g g')
  (hlookup : ∀ d' n', g'.lookup d' n' = if d' = d ∧ n' = n then some g.next else g.lookup d' n')
include hpart hlookup

/-- Another name is taken. -/
theorem Vacant.add (h : Vacant g y p) (hne : p ≠ (d,n)) : Vacant g' y p := by
  obtain ⟨q,t,hq,hstem,ht,hnode⟩ := h.way
  refine ⟨h.shallow,⟨q,t,hq,hstem,hpart.resolve ht,hnode⟩,?_,?_⟩
  · rw [← hnode,hpart.isDir_eq (resolve_lt ht),hnode]
    exact h.isDir
  · rw [hlookup,if_neg (fun heq => hne (Prod.ext heq.1 heq.2))]
    exact h.free

theorem vacant_add (h : Forall₂ (Vacant g) stack places) (hne : (d,n) ∉ places) : Forall₂ (Vacant g') stack places := by
  induction h with
  | nil => exact .nil
  | cons hfirst _ ih =>
    rw [mem_cons,not_or] at hne
    exact .cons (hfirst.add hpart hlookup (Ne.symm hne.1)) (ih hne.2)

theorem Room.add (h : Room g stack ((d,n)::reserved)) : Room g' stack reserved := by
  obtain ⟨places,hall,hnodup,hfree⟩ := h
  rw [cons_append,nodup_cons,mem_append,not_or] at hnodup
  obtain ⟨⟨hreserved,hplaces⟩,hnodup⟩ := hnodup
  refine ⟨places,vacant_add hpart hlookup hall hplaces,hnodup,?_⟩
  intro p hp
  rw [hlookup,if_neg]
  · exact hfree p (mem_cons_of_mem _ hp)
  · intro heq
    rw [show p = (d,n) from Prod.ext heq.1 heq.2] at hp
    exact hreserved hp

end

theorem Room.pop (h : Room g (x::stack) reserved) : ∃ p, Vacant g x p ∧ Room g stack (p::reserved) := by
  obtain ⟨places,hall,hnodup,hfree⟩ := h
  obtain ⟨p,places,hp,hrest,rfl⟩ := forall₂_cons_left_iff.mp hall
  refine ⟨p,hp,places,hrest,(perm_middle.nodup_iff).mp hnodup,?_⟩
  intro p' hp'
  obtain rfl | hp' := mem_cons.mp hp'
  · exact hp.free
  · exact hfree p' hp'

theorem Room.push (h : Room g stack (p::reserved)) (hp : Vacant g y p) : Room g (y::stack) reserved := by
  obtain ⟨places,hall,hnodup,hfree⟩ := h
  exact ⟨p::places,.cons hp hall,(perm_middle.nodup_iff).mpr hnodup,fun p' hp' => hfree p' (mem_cons_of_mem _ hp')⟩

theorem Room.free (h : Room g stack (p::reserved)) : g.lookup p.1 p.2 = none := by
  obtain ⟨places,-,-,hfree⟩ := h
  exact hfree p mem_cons_self

theorem Room.drop (h : Room g stack (p::reserved)) : Room g stack reserved := by
  obtain ⟨places,hall,hnodup,hfree⟩ := h
  exact ⟨places,hall,(nodup_cons.mp hnodup).2,fun p' hp' => hfree p' (mem_cons_of_mem _ hp')⟩

theorem vacant_lt (h : Forall₂ (Vacant g) stack places) : ∀ p ∈ places, p.1 < g.next := by
  induction h with
  | nil => simp
  | cons hfirst _ ih =>
    obtain ⟨q,t,-,-,ht,hnode⟩ := hfirst.way
    rw [forall_mem_cons,← hnode]
    exact ⟨resolve_lt ht,ih⟩

theorem Room.addDir (hlt : d < g.next) (h : Room g stack [(d,n)]) (hnames : (es.map Sigma.fst).Nodup) :
    Room (g.addDir d n hlt) stack (es.map fun e => (g.next,e.1)) := by
  obtain ⟨places,hall,hnodup,hfree⟩ := h
  have hplaces : (d,n) ∉ places := (nodup_cons.mp hnodup).1
  have hpart : Part g (g.addDir d n hlt) := Part.addDir hlt (hfree _ mem_cons_self)
  refine ⟨places,vacant_add hpart (lookup_addDir hlt n) hall hplaces,Nodup.append ?_ (nodup_cons.mp hnodup).2 ?_,?_⟩
  · have hmap := hnames.map (Prod.mk_right_injective g.next)
    rwa [List.map_map] at hmap
  · intro p hp hmem
    obtain ⟨e,-,rfl⟩ := mem_map.mp hp
    exact absurd (vacant_lt hall _ hmem) (Nat.lt_irrefl _)
  · intro p hp
    obtain ⟨e,-,rfl⟩ := mem_map.mp hp
    rw [lookup_addDir,if_neg (by simp; omega)]
    cases hi : g.lookup g.next e.1 with
    | none => rfl
    | some i => exact absurd (lookup_lt hi).1 (Nat.lt_irrefl _)

section

variable (hnever : ∀ w β a, env.refuses w β a = false)
include hnever

theorem mkdir_vacant (h : Vacant w.device.graph x p) (mode : ℕ) : ∃ hlt : p.1 < w.device.graph.next,
    (w.mkdir env x.target mode).2 = { w with device := { w.device with graph := w.device.graph.addDir p.1 p.2 hlt } } ∧
      (w.device.graph.addDir p.1 p.2 hlt).resolve true (stem x.target) = some ⟨w.device.graph.next,some p⟩ := by
  obtain ⟨q,t,hq,hstem,ht,hnode⟩ := h.way
  obtain ⟨d,n⟩ := p
  obtain rfl : t.node = d := hnode
  have hfree : w.device.graph.lookup t.node n = none := h.free
  have hdrop : (parse x.target).rdropWhile (fun c => decide (c = .empty)) = q++[.name n] := by
    obtain ⟨j,hj⟩ := parse_trimEnd x.target
    rw [hj,rdropWhile_append_replicate (by simp),show parse (trimEnd x.target) = _ from hstem]
    exact rdropWhile_concat_neg _ _ _ (by simp)
  refine ⟨resolve_lt ht,?_,?_⟩
  · unfold World.mkdir
    rw [hnever,if_neg Bool.false_ne_true,mkdir_eq hdrop ht h.isDir hfree]
  · have hpart : Part w.device.graph (w.device.graph.addDir t.node n (resolve_lt ht)) := Part.addDir _ hfree
    rw [hstem]
    refine resolve_name_follow hq (hpart.resolve ht) ((hpart.isDir_eq (resolve_lt ht)).trans h.isDir) ?_ ?_
    · rw [lookup_addDir,if_pos ⟨rfl,rfl⟩]
    · intro target
      rw [show (w.device.graph.addDir t.node n _).kind w.device.graph.next = .dir from Function.update_self _ _ _]
      simp

theorem copyOne_free (hi : s.2.device.regularAt (childPath x.source n.bytes) = some i)
    (hu : s.2.device.graph.resolve true (stem x.target) = some u) (hdir : s.2.device.graph.isDir u.node)
    (hfree : s.2.device.graph.lookup u.node n = none) : ∃ w, copyOne env x n.bytes s = (s.1.another,w) ∧
      w.device.graph = s.2.device.graph.addFile u.node n (resolve_lt hu) := by
  have hcreate : s.2.device.create (childPath x.target n.bytes) =
      some ⟨s.2.device.graph.addFile u.node n (resolve_lt hu),
        Function.update s.2.device.regular s.2.device.graph.next true⟩ := by
    rw [Device.create,parse_childPath,create_eq hu hdir hfree]
    rfl
  rw [copyOne,World.copyFile,hi]
  dsimp only
  rw [hnever,if_neg Bool.false_ne_true,hcreate]
  exact ⟨_,rfl,rfl⟩

theorem listdir_dir {path : Bytes} (ht : w.device.graph.resolve true (parse path) = some t) (hdir : w.device.graph.isDir t.node) :
    w.listdir env path = .ok ((env.order (w.device.graph.entries t.node).entries).map (env.listed w.device)) := by
  unfold World.listdir
  rw [hnever,if_neg Bool.false_ne_true,ht]
  exact if_pos hdir

end

theorem Inv.entry_old (habs : isAbsolute dst) (hclear : Clear dev r src dst) (hx : Here dev r dst x t)
    (h : Inv dev r src dst w todo stack) (hi : w.device.graph.lookup t.node n = some i) :
    dev.graph.lookup t.node n = some i := by
  obtain ⟨q,m,p,hq,hp,-,hfree,hout⟩ := hclear.free
  cases hold : dev.graph.lookup t.node n with
  | some j => rw [← hi,h.kept.growth.part.lookup_eq _ _ _ hold]
  | none =>
    obtain ⟨hgate,-⟩ := h.kept.old (resolve_lt hx.leads) hi hold (hclear.absent habs)
    obtain ⟨-,q',p',hq',hp',hnode⟩ := hgate
    obtain ⟨t',ns,ht',-,-,hdown⟩ := hx.sound.source hx.shallow
    cases ht'.symm.trans hx.leads
    obtain ⟨rfl,-⟩ := append_inj' (hq.symm.trans hq') rfl
    cases hp.symm.trans hp'
    rw [hnode] at hout
    exact absurd hdown (hout ns)

theorem going_enter (hnever : ∀ w β a, env.refuses w β a = false) (hclear : Clear dev r src dst)
    (hx : Here dev r dst x t) (he : dev.graph.lookup t.node e.1 = some e.2) (htext : e.1.lossy = e.1)
    (hpart : Part dev.graph listing.graph) (hinv : Inv dev r src dst s.2 (owed dev x t.node e++todo) stack)
    (h : Going x u s stack (e::es)) :
    ∃ s' stack', enter env x (s,stack) (env.listed listing e) = .ok (s',stack') ∧ Going x u s' stack' es := by
  obtain ⟨⟨hclean,htallied,hroom⟩,hu,hdir⟩ := h
  obtain ⟨t',ns,ht',-,hlen,hdown⟩ := hx.sound.source hx.shallow
  cases ht'.symm.trans hx.leads
  have hchild := downTo_child hdown hx.isDir he
  have hlt := lookup_lt he
  have hshows := env.shows listing e.2
  rw [hpart.kind_eq _ hlt.2] at hshows
  have hname : (env.listed listing e).name = e.1.bytes := congrArg FileName.bytes htext
  have hcount : s.1.count < TREE_MAX_FILES := by
    have hle := hinv.only.length_le
    have hfew := hclear.few
    rw [length_append] at hle
    rw [TreeCopyResult.count,hclean,htallied.1,length_nil]
    omega
  rw [enter_eq hcount,hname]
  cases hkind : dev.graph.kind e.2 with
  | link target =>
    have hlink : (env.listed listing e).stat.mode.isSymlink = true := hshows.2.mpr ⟨target,hkind⟩
    rw [if_pos hlink]
    exact ⟨s,stack,rfl,⟨hclean,htallied,hroom.drop⟩,hu,hdir⟩
  | dir =>
    have hmode : (env.listed listing e).stat.mode.isDir = true := hshows.1.mpr hkind
    have hlink : ¬ (env.listed listing e).stat.mode.isSymlink = true := by
      intro hlink
      obtain ⟨target,htarget⟩ := hshows.2.mp hlink
      cases hkind.symm.trans htarget
    rw [if_neg hlink,if_pos hmode]
    refine ⟨s,_,rfl,⟨hclean,htallied,hroom.push ⟨?_,?_,hdir,?_⟩⟩,hu,hdir⟩
    · have hshallow := hclear.shallow _ _ hchild (isDir_iff.mpr hkind)
      simp only [length_append,length_singleton,hlen] at hshallow
      exact hshallow
    · exact ⟨stem x.target,u,parse_ne_nil _,stem_childPath _ _,hu,rfl⟩
    · exact hroom.free
  | file =>
    have hmode : ¬ (env.listed listing e).stat.mode.isDir = true := by
      intro hmode
      cases hkind.symm.trans (hshows.1.mp hmode)
    have hlink : ¬ (env.listed listing e).stat.mode.isSymlink = true := by
      intro hlink
      obtain ⟨target,htarget⟩ := hshows.2.mp hlink
      cases hkind.symm.trans htarget
    rw [if_neg hlink,if_neg hmode]
    have hgrown := hinv.kept.growth.part
    have hat := regularAt_child (hgrown.resolve hx.leads) ((hgrown.isDir_eq hlt.1).trans hx.isDir)
      (hgrown.lookup_eq _ _ _ he) ((hgrown.kind_eq _ hlt.2).trans hkind)
    rw [hinv.regular _ hlt.2,if_pos (hclear.plain _ _ hchild hkind)] at hat
    obtain ⟨w,hcopy,hgraph⟩ := copyOne_free hnever hat hu hdir hroom.free
    have hadd : Part s.2.device.graph w.device.graph := by
      rw [hgraph]
      exact Part.addFile _ hroom.free
    have htallied' : Tallied (copyOne env x e.1.bytes s) := htallied.copyOne _
    rw [hcopy] at htallied' ⊢
    refine ⟨_,stack,rfl,⟨hclean,htallied',?_⟩,hadd.resolve hu,(hadd.isDir_eq (resolve_lt hu)).trans hdir⟩
    refine hroom.add hadd ?_
    rw [hgraph]
    exact lookup_addFile _ _

theorem going_foldlM (hnever : ∀ w β a, env.refuses w β a = false) (habs : isAbsolute dst)
    (hclear : Clear dev r src dst) (hx : Here dev r dst x t)
    (hes : ∀ e ∈ es, listing.graph.lookup t.node e.1 = some e.2 ∧ dev.graph.lookup t.node e.1 = some e.2 ∧ e.1.lossy = e.1)
    (hpart : Part dev.graph listing.graph) (hinv : Inv dev r src dst s.2 (es.flatMap (owed dev x t.node)) stack)
    (h : Going x u s stack es) : ∃ s' stack', (es.map (env.listed listing)).foldlM (enter env x) (s,stack) = .ok (s',stack') ∧
      Inv dev r src dst s'.2 [] stack' ∧ Smooth s' stack' [] := by
  induction es generalizing s stack with
  | nil => exact ⟨s,stack,rfl,hinv,h.smooth⟩
  | cons e es ih =>
    obtain ⟨hhere,he,htext⟩ := hes e mem_cons_self
    obtain ⟨s₁,stack₁,hfirst,hgoing⟩ := going_enter hnever hclear hx he htext hpart hinv h
    rw [map_cons,foldlM_cons,hfirst]
    exact ih (fun e' he' => hes e' (mem_cons_of_mem e he'))
      (inv_enter habs (hclear.apart habs) hx ⟨hhere,.inl ⟨he,htext⟩⟩ hpart hinv hfirst) hgoing

theorem smooth_visit (hnever : ∀ w β a, env.refuses w β a = false) (habs : isAbsolute dst) (hnamed : Named dev.graph r)
    (hclear : Clear dev r src dst) (hinv : Inv dev r src dst s.2 [] (x::stack)) (h : Smooth s (x::stack) []) :
    ∃ s' stack', visit env x s stack = .ok (s',stack') ∧ Inv dev r src dst s'.2 [] stack' ∧ Smooth s' stack' [] := by
  have hapart := hclear.apart habs
  have hsound := hinv.sound x mem_cons_self
  obtain ⟨p,hp,hroom⟩ := h.room.pop
  obtain ⟨t,ns,ht,hdir,-,hdown⟩ := hsound.source hp.shallow
  have hx : Here dev r dst x t := ⟨hsound,hp.shallow,ht,hdir⟩
  have hrest : Inv dev r src dst s.2 (pending dev x) stack :=
    ⟨hinv.kept,hinv.regular,hinv.taken,hinv.once,fun y hy => hinv.sound y (mem_cons_of_mem x hy),by simpa using hinv.law⟩
  have hw : Inv dev r src dst (s.2.mkdir env x.target 0o755).2 (pending dev x) stack := hrest.mkdir habs hapart hsound _
  obtain ⟨hlt,hmade,hu⟩ := mkdir_vacant hnever hp 0o755
  rw [visit_eq hp.shallow]
  rw [hmade] at hw ⊢
  have hpart := hw.kept.growth.part
  have hsource : (s.2.device.graph.addDir p.1 p.2 hlt).resolve true (parse x.source) = some t := by
    obtain ⟨j,hj⟩ := parse_trimEnd x.source
    rw [hj]
    exact (resolve_slashes_iff (parse_ne_nil _) ((hpart.isDir_eq (resolve_lt ht)).trans hdir)).mpr (hpart.resolve ht)
  rw [listdir_dir hnever hsource ((hpart.isDir_eq (resolve_lt ht)).trans hdir)]
  obtain ⟨-,hlisted⟩ := hw.listed env hapart hnamed hx
  refine going_foldlM (u:=⟨s.2.device.graph.next,some p⟩) hnever habs hclear hx ?_ hpart hlisted ⟨⟨h.clean,h.tallied,?_⟩,hu,?_⟩
  · intro e he
    have hhere : (s.2.device.graph.addDir p.1 p.2 hlt).lookup t.node e.1 = some e.2 :=
      Dict.mem_entries_iff.mp ((env.order_perm _).mem_iff.mp he)
    have hold := hw.entry_old habs hclear hx hhere
    exact ⟨hhere,hold,hnamed ns _ _ _ hdown hold⟩
  · refine hroom.addDir hlt ?_
    exact (((env.order_perm _).map Sigma.fst).nodup_iff).mpr (AList.nodupKeys _)
  · exact isDir_iff.mpr (Function.update_self _ _ _)

/-- The whole walk, if nothing stands in the way. -/
theorem whole_of_clear (hnever : ∀ w β a, env.refuses w β a = false) (habs : isAbsolute dst)
    (ht : dev.graph.resolve true (parse src) = some t) (hdir : dev.graph.isDir t.node) (hnamed : Named dev.graph t.node)
    (hclear : Clear dev t.node src dst) (h : roam (visit env) rounds [⟨src,dst,0⟩] (.empty,⟨dev,[],[]⟩) = some result) :
    Whole dev src dst (finish result).1 (finish result).2 := by
  have hstart : Smooth (.empty,⟨dev,[],[]⟩) [⟨src,dst,0⟩] [] := by
    obtain ⟨q,n,p,hq,hp,hpdir,hfree,-⟩ := hclear.free
    refine ⟨rfl,⟨rfl,le_rfl⟩,[(p.node,n)],.cons ⟨?_,?_,hpdir,hfree⟩ .nil,by simp,by simp⟩
    · exact hclear.shallow [] _ rfl hdir
    · exact ⟨q,p,ne_nil_of_stem habs hq,hq,hp,rfl⟩
  have hrule := roam_rule (I:=fun s stack => Inv dev t.node src dst s.2 [] stack ∧ Smooth s stack []) (R:=fun _ => False) ?_ ?_
    (s:=(TreeCopyResult.empty,⟨dev,[],[]⟩)) ⟨inv_start ht hdir,hstart⟩ h
  · cases result with
    | error stop => exact hrule.elim
    | ok s =>
      obtain ⟨hinv,hclean,⟨hcopied,hmissed⟩,-⟩ : Inv dev t.node src dst s.2 [] [] ∧ Smooth s [] [] := hrule
      have hnone : s.2.missed = [] := by
        rw [hclean] at hmissed
        exact length_eq_zero_iff.mp (Nat.le_zero.mp hmissed)
      have hperm : s.2.copies.Perm (dev.filesUnder src dst) := by simpa [hnone] using hinv.law
      refine ⟨?_,hperm,hnone⟩
      rw [← hperm.length_eq,← hcopied,← hclean]
      rfl
  · intro x s stack s' stack' hs hvisit
    obtain ⟨s₁,stack₁,heq,hnext⟩ := smooth_visit hnever habs hnamed hclear hs.1 hs.2
    cases heq.symm.trans hvisit
    exact hnext
  · intro x s stack stop hs hvisit
    obtain ⟨s₁,stack₁,heq,-⟩ := smooth_visit hnever habs hnamed hclear hs.1 hs.2
    cases heq.symm.trans hvisit

end

theorem play_copyTree (rounds : ℕ) (device : String) (src dst : Text) :
    (copyTree rounds device src dst).play (act env) w =
      match checkCopy src.bytes dst.bytes with
      | .error e => some (.error e,w)
      | .ok _ =>
        if env.connected then (roam (visit env) rounds [⟨src.bytes,dst.bytes,0⟩] (.empty,w)).map finish
        else some (.error notConnected,w) := by
  rw [copyTree]
  cases checkCopy src.bytes dst.bytes with
  | error e => rfl
  | ok _ =>
    dsimp only
    rw [play_perform_bind,act,bind_some]
    cases env.connected with
    | false => rfl
    | true => exact play_copyLoop rounds

theorem isAbsolute_of_checkCopy (h : checkCopy src dst = .ok ()) : isAbsolute dst := by
  by_contra habs
  have hdst : checkTreePath dst = .error (.invalidArgs "tree paths must be absolute") := by
    rw [checkTreePath,if_pos (by simpa using habs)]
  rw [checkCopy,hdst] at h
  cases hsrc : checkTreePath src with
  | error e =>
    rw [hsrc] at h
    cases h
  | ok _ =>
    rw [hsrc] at h
    cases h

def dirName : FileName := .a
def fileName : FileName := ⟨[102],by decide⟩

/-- A device with the directory `/a` and the file `/a/f`. -/
def smallGraph : Graph FileName where
  kind i := if i = 2 then .file else .dir
  entries i :=
    if i = 0 then AList.insert dirName 1 ∅
    else if i = 1 then AList.insert fileName 2 ∅
    else ∅
  up _ := 0
  root := 0
  cwd := 0
  next := 3
  root_lt := by omega
  cwd_lt := by omega
  up_lt _ _ := by omega
  entry_lt d n i h := by
    split_ifs at h with h0 h1
    · rw [Dict.lookup_insert_if] at h
      split at h
      · cases h
        omega
      · cases h
    · rw [Dict.lookup_insert_if] at h
      split at h
      · cases h
        omega
      · cases h
    · cases h

def smallDevice : Device := ⟨smallGraph,fun i => decide (i = 2)⟩

/-- A device that refuses nothing. -/
def willing : Env where
  connected := true
  refuses _ _ _ := false
  error _ _ _ := .busy
  order l := l
  stat dev i := statOf (modeOf (dev.graph.kind i))
  order_perm l := List.Perm.refl l
  shows _ _ := shows_modeOf _

def pathA : Text := ⟨[47,97],by decide⟩
def pathB : Text := ⟨[47,98],by decide⟩
def pathAB : Text := ⟨[47,97,47,98],by decide⟩

/-- What is seen of the run in the end: a copied file that was not there before, nothing refused,
and a result within the limit. -/
def view (r : Reply × World) : Bool × List (ℕ × Bytes) × Bool :=
  (r.2.copies.any fun c => decide (smallGraph.next ≤ c.1),r.2.missed,
    match r.1 with
    | .ok out => decide (out.count ≤ TREE_MAX_FILES)
    | .error _ => false)

theorem view_inside : ((copyTree 40 "serial" pathA pathAB).play (act willing) ⟨smallDevice,[],[]⟩).map view =
    some (true,[],true) := by
  decide +kernel

theorem lookup_smallGraph (h : smallGraph.lookup d n = some i) :
    d = 0 ∧ n = dirName ∧ i = 1 ∨ d = 1 ∧ n = fileName ∧ i = 2 := by
  unfold Graph.lookup smallGraph at h
  dsimp only at h
  split_ifs at h with h0 h1
  · rw [Dict.lookup_insert_if] at h
    split at h
    · rename_i hn
      cases h
      exact .inl ⟨h0,hn,rfl⟩
    · cases h
  · rw [Dict.lookup_insert_if] at h
    split at h
    · rename_i hn
      cases h
      exact .inr ⟨h1,hn,rfl⟩
    · cases h
  · cases h

theorem named_smallGraph (r : ℕ) : Named smallGraph r := by
  intro ns d n i _ hi
  obtain ⟨-,rfl,-⟩ | ⟨-,rfl,-⟩ := lookup_smallGraph hi
  · decide
  · decide

theorem downTo_smallGraph {ns : List FileName} (h : smallGraph.downTo 1 ns = some i) : ns = [] ∧ i = 1 ∨ i = 2 := by
  cases ns with
  | nil =>
    cases h
    exact .inl ⟨rfl,rfl⟩
  | cons m ms =>
    obtain ⟨-,j,hj,hrest⟩ := downTo_cons_iff.mp h
    obtain ⟨hd,-,-⟩ | ⟨-,-,rfl⟩ := lookup_smallGraph hj
    · cases hd
    cases ms with
    | nil =>
      cases hrest
      exact .inr rfl
    | cons m' ms => cases (downTo_cons_iff.mp hrest).1

theorem clear_smallDevice : Clear smallDevice 1 pathA.bytes pathB.bytes where
  plain ns i hi hfile := by
    obtain ⟨-,rfl⟩ | rfl := downTo_smallGraph hi
    · cases hfile
    · rfl
  shallow ns i hi hdir := by
    obtain ⟨rfl,-⟩ | rfl := downTo_smallGraph hi
    · decide
    · cases hdir
  few := by decide +kernel
  free := by
    refine ⟨[.empty],⟨[98],by decide⟩,⟨0,none⟩,by decide,by decide,rfl,by decide,?_⟩
    intro ns hns
    obtain ⟨-,h⟩ | h := downTo_smallGraph hns <;> cases h

end AdbShare.CopyTree

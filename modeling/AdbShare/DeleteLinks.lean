import AdbShare.Delete

/-! Deleting through a link. For every path that ends in a slash or in `/.` there is a device
on which the last name is a link and the call removes something that only the link leads to,
so the paths that are safe on every device are those that end in a name. -/
namespace AdbShare.Delete

open Prog PathText Posix Posix.Graph TreeWalk List

/-- Another name. -/
def otherName (c : FileName) : FileName := if c.bytes = [97] then .b else .a

theorem otherName_ne (c : FileName) : otherName c ≠ c := by
  unfold otherName
  intro h
  split at h
  · rename_i hc
    rw [← h] at hc
    simp [FileName.b] at hc
  · rename_i hc
    rw [← h] at hc
    simp [FileName.a] at hc

variable {i k : ℕ} {n : FileName} {p b L : List (Piece FileName)} {g : Graph FileName} {follow : Bool}
  {s : Spot FileName} {kind : Kind FileName} {path : Bytes}

section

variable (ns : List FileName) (c : FileName) {v : Option (ℕ × FileName)}

def trapEntries (i : ℕ) : Dict FileName ℕ :=
  match ns[i]? with
  | some n => AList.insert n (i+1) ∅
  | none =>
    if i = ns.length then AList.insert (otherName c) (ns.length+2) (AList.insert c (ns.length+1) ∅) else ∅

theorem lookup_trapEntries (i : ℕ) (n : FileName) : (trapEntries ns c i).lookup n =
    match ns[i]? with
    | some m => if n = m then some (i+1) else none
    | none =>
      if i = ns.length then if n = otherName c then some (ns.length+2) else if n = c then some (ns.length+1) else none
      else none := by
  unfold trapEntries
  cases ns[i]? with
  | some m => simp only [Dict.lookup_insert_if,AList.lookup_empty]
  | none =>
    dsimp only
    split
    · simp only [Dict.lookup_insert_if,AList.lookup_empty]
    · simp

/-- A chain of directories of the names given; in the last, a link to `.` and a file. -/
def trap : Graph FileName where
  kind i := if i ≤ ns.length then .dir else if i = ns.length+1 then .link [.dot] else .file
  entries := trapEntries ns c
  up i := i-1
  root := 0
  cwd := 0
  next := ns.length+3
  root_lt := by omega
  cwd_lt := by omega
  up_lt i hi := by omega
  entry_lt d n i h := by
    rw [lookup_trapEntries] at h
    cases hd : ns[d]? with
    | some m =>
      have hlt := (List.getElem?_eq_some_iff.mp hd).1
      simp only [hd,Option.ite_none_right_eq_some,Option.some.injEq] at h
      omega
    | none =>
      simp only [hd,Option.ite_none_right_eq_some] at h
      obtain ⟨hlast,h⟩ := h
      split at h
      · cases h
        omega
      · simp only [Option.ite_none_right_eq_some,Option.some.injEq] at h
        omega

theorem trap_isDir (h : i ≤ ns.length) : (trap ns c).isDir i := by simp [isDir,trap,h]

theorem trap_kind_link : (trap ns c).kind (ns.length+1) = .link [.dot] := by simp [trap]

theorem trap_lookup_next (h : ns[i]? = some n) : (trap ns c).lookup i n = some (i+1) := by
  show (trapEntries ns c i).lookup n = _
  rw [lookup_trapEntries,h]
  simp

theorem trap_lookup_link : (trap ns c).lookup ns.length c = some (ns.length+1) := by
  show (trapEntries ns c ns.length).lookup c = _
  rw [lookup_trapEntries]
  simp [Ne.symm (otherName_ne c)]

theorem trap_lookup_file : (trap ns c).lookup ns.length (otherName c) = some (ns.length+2) := by
  show (trapEntries ns c ns.length).lookup (otherName c) = _
  rw [lookup_trapEntries]
  simp

/-- Slashes and dots between the names make no difference. -/
theorem trap_walk (k : ℕ) (hi : i ≤ ns.length) (hp : essential p = (ns.drop i).map .name) :
    ∃ v', (trap ns c).walk true k ⟨i,v⟩ p = some (⟨ns.length,v'⟩,k) := by
  induction p generalizing i v with
  | nil =>
    have hnil : ns.drop i = [] := by simpa [essential] using hp.symm
    have hlen : ns.length ≤ i := drop_eq_nil_iff.mp hnil
    obtain rfl : i = ns.length := le_antisymm hi hlen
    exact ⟨v,walk_nil⟩
  | cons x rest ih =>
    rw [walk_cons,if_pos (trap_isDir ns c hi)]
    cases x with
    | empty | dot => exact ih hi hp
    | dotdot =>
      have hmem : Piece.dotdot ∈ (ns.drop i).map Piece.name := by
        rw [← hp]
        simp [essential]
      obtain ⟨m,-,hm⟩ := mem_map.mp hmem
      cases hm
    | name n =>
      have hcut : essential (.name n::rest) = .name n::essential rest := rfl
      rw [hcut] at hp
      cases hdrop : ns.drop i with
      | nil =>
        rw [hdrop] at hp
        cases hp
      | cons m tail =>
        rw [hdrop,map_cons] at hp
        obtain ⟨hnm,htail⟩ := List.cons.inj hp
        obtain rfl : n = m := by simpa using hnm
        have hget : ns[i]? = some n := by
          rw [← List.head?_drop,hdrop,List.head?_cons]
        have hlt := (List.getElem?_eq_some_iff.mp hget).1
        have hrest : essential rest = (ns.drop (i+1)).map .name := by
          rw [htail,← tail_drop,hdrop,tail_cons]
        have hkind : (trap ns c).kind (i+1) = .dir := isDir_iff.mp (trap_isDir ns c hlt)
        dsimp only
        rw [trap_lookup_next ns c hget]
        dsimp only
        rw [hkind]
        exact ih hlt hrest

end

theorem walks_quiet (hs : g.isDir s.node) (hb : ∀ x ∈ b, x = .empty ∨ x = .dot) :
    ∃ v, Walks g follow k s b ⟨s.node,v⟩ k := by
  induction b generalizing s with
  | nil => exact ⟨s.via,.done⟩
  | cons x rest ih =>
    rw [forall_mem_cons] at hb
    obtain rfl | rfl := hb.1
    · obtain ⟨v,hv⟩ := ih hs hb.2
      exact ⟨v,.empty hs hv⟩
    · obtain ⟨v,hv⟩ := ih (s:=⟨s.node,none⟩) hs hb.2
      exact ⟨v,.dot hs hv⟩

section

variable (ns : List FileName) (c : FileName)

/-- A path that goes on after the link leads to the directory with the link in it. -/
theorem trap_resolve_dir (hp : essential p = ns.map .name) (hb : ∀ x ∈ b, x = .empty ∨ x = .dot) (hne : b ≠ []) :
    ∃ v, (trap ns c).resolve false (p++Piece.name c::b) = some ⟨ns.length,v⟩ := by
  have hstart : (trap ns c).start (trap ns c).cwd (p++Piece.name c::b) = ⟨0,none⟩ := by simp [start,trap]
  have hdir : (trap ns c).isDir ns.length := trap_isDir ns c le_rfl
  obtain ⟨v,hv⟩ := trap_walk ns c (p:=p) MAX_LINKS (Nat.zero_le _) (by simpa using hp)
  obtain ⟨v',hquiet⟩ := walks_quiet (s:=⟨ns.length,none⟩) (b:=.dot::b) hdir (forall_mem_cons.mpr ⟨.inr rfl,hb⟩)
  have hlink : Walks (trap ns c) false 40 ⟨ns.length,v⟩ (.name c::b) ⟨ns.length,v'⟩ 39 :=
    .link hdir (trap_lookup_link ns c) (trap_kind_link ns c) (.inl hne) hquiet
  refine ⟨v',?_⟩
  rw [resolve,hstart,walk_append (by simp),hv]
  exact congrArg (Option.map Prod.fst) hlink.walk

/-- The path without its end leads to the link. -/
theorem trap_resolve_link (hp : essential p = ns.map .name) :
    (trap ns c).resolve false (p++[Piece.name c]) = some ⟨ns.length+1,some (ns.length,c)⟩ := by
  have hstart : (trap ns c).start (trap ns c).cwd (p++[Piece.name c]) = ⟨0,none⟩ := by simp [start,trap]
  obtain ⟨v,hv⟩ := trap_walk ns c MAX_LINKS (Nat.zero_le _) (by simpa using hp)
  rw [resolve,hstart,walk_append (by simp),hv]
  simp [walk_single,trap_isDir,trap_lookup_link]

/-- Nothing in the last directory but the link itself is in the subtree of the link. -/
theorem trap_not_inSubtree : ¬ InSubtree (trap ns c) ⟨ns.length+1,some (ns.length,c)⟩ ns.length (otherName c) := by
  rintro (hvia | ⟨hreach,-⟩)
  · have heq : c = otherName c := by simpa using hvia
    exact otherName_ne c heq.symm
  obtain heq | ⟨i,hlead,-⟩ := hreach.cases_head
  · simp at heq
  · have hdir := isDir_iff.mp hlead.1
    rw [trap_kind_link] at hdir
    cases hdir

end

theorem exists_last_name (hup : .dotdot ∉ L) (hne : essential L ≠ []) :
    ∃ p c b, L = p++Piece.name c::b ∧ ∀ x ∈ b, x = .empty ∨ x = .dot := by
  induction L using List.reverseRecOn with
  | nil => exact absurd rfl hne
  | append_singleton init x ih =>
    rw [mem_append,not_or] at hup
    by_cases hx : x = .empty ∨ x = .dot
    · have hskip : essential [x] = [] := by
        obtain rfl | rfl := hx <;> rfl
      have hinit : essential init ≠ [] := by rwa [essential_append,hskip,append_nil] at hne
      obtain ⟨p,c,b,rfl,hb⟩ := ih hup.1 hinit
      refine ⟨p,c,b++[x],by simp,?_⟩
      intro y hy
      obtain hy | hy := mem_append.mp hy
      · exact hb y hy
      · rwa [mem_singleton.mp hy]
    · cases x with
      | name c => exact ⟨init,c,[],rfl,by simp⟩
      | dotdot => simp at hup
      | empty | dot => simp at hx

theorem exists_names (hup : .dotdot ∉ L) : ∃ ns : List FileName, essential L = ns.map .name := by
  induction L with
  | nil => exact ⟨[],rfl⟩
  | cons x rest ih =>
    rw [mem_cons,not_or] at hup
    obtain ⟨ns,hns⟩ := ih hup.2
    cases x with
    | empty | dot => exact ⟨ns,hns⟩
    | dotdot => exact absurd rfl hup.1
    | name n => exact ⟨n::ns,congrArg _ hns⟩

theorem dotdot_not_mem_of_accepted (h : accepted path) : .dotdot ∉ parse path := by
  intro hmem
  obtain ⟨c,hc,hpiece⟩ := mem_map.mp hmem
  have hdotdot : c = dotdot := by
    unfold piece at hpiece
    split at hpiece
    · cases hpiece
    split at hpiece
    · cases hpiece
    · split_ifs at hpiece
      assumption
  subst hdotdot
  have hnorm : dotdot ∈ normalized path := mem_filter.mpr ⟨hc,by decide⟩
  simp [accepted,hnorm] at h

theorem essential_ne_nil_of_accepted (h : accepted path) : essential (parse path) ≠ [] := by
  have hne : normalized path ≠ [] := by
    intro hnil
    simp [accepted,hnil] at h
  obtain ⟨c,hc⟩ := exists_mem_of_ne_nil _ hne
  obtain ⟨hmem,hkeep⟩ := mem_filter.mp hc
  have hkeep := of_decide_eq_true hkeep
  have hslash := slash_not_mem_piece hmem
  have hess : piece c ∈ essential (parse path) := by
    refine mem_filter.mpr ⟨mem_map_of_mem hmem,decide_eq_true ⟨?_,?_⟩⟩
    · rw [Ne,piece_eq_empty_iff hslash]
      exact hkeep.1
    · rw [Ne,piece_eq_dot_iff]
      exact hkeep.2
  exact ne_nil_of_mem hess

/-- A stat with that mode. -/
def statOf (mode : FileMode) : Stat := ⟨mode,0,0,0,0,0,0,1,4096,0⟩

def modeOf : Kind FileName → FileMode
  | .file => .file
  | .dir => .dir
  | .link _ => .symlink

theorem shows_modeOf (kind : Kind FileName) : Shows kind (modeOf kind) := by
  cases kind with
  | file | dir | link target => exact ⟨by simpa [modeOf] using by decide,by simpa [modeOf] using by decide⟩

theorem does_lstat (h : g.lstat (parse path) = some kind) : does _ (.lstat path) g (.ok (statOf (modeOf kind))) g := ⟨rfl,kind,h,shows_modeOf kind⟩

section

variable {t : Spot FileName} {m : FileName} {d : ℕ}

theorem resolve_childPath (ht : g.resolve false (parse path) = some t) (hdir : g.isDir t.node)
    (hi : g.lookup t.node n = some i) :
    g.resolve false (parse (childPath path n.bytes)) = some ⟨i,some (t.node,n)⟩ := by
  obtain ⟨j,hj⟩ := parse_trimEnd path
  rw [hj] at ht
  rw [childPath,parse_append_slash,parse_name,resolve_name (parse_ne_nil _),
    resolve_of_slashes (parse_ne_nil _) ht hdir]
  simp [hdir,hi]

theorem does_listdir (ht : g.resolve false (parse path) = some t) (hdir : g.isDir t.node)
    (hi : g.lookup t.node n = some i) (hn : n.lossy.bytes = n.bytes) (st : Stat) :
    does _ (.listdir path) g (.ok [⟨n.bytes,st⟩]) g := by
  have hfollow := resolve_follow ht (by simp [isDir_iff.mp hdir])
  have hmem : (⟨n,i⟩ : (_ : FileName) × ℕ) ∈ (g.entries t.node).entries := Dict.mem_entries_iff.mpr hi
  refine ⟨rfl,_,by rw [readdir,hfollow]; exact if_pos hdir,?_⟩
  rw [map_singleton,singleton_sublist,map_map]
  exact mem_map.mpr ⟨⟨n,i⟩,hmem,hn⟩

/-- A file in a directory is deleted. -/
theorem yields_delete_file (levels : ℕ) (hr : g.resolve false (parse path) = some t)
    (hvia : t.via = some (d,m)) (hfile : g.kind t.node = .file) :
    (deleteRecursive (levels+1) path).Yields does g (.ok ()) (g.remove d m) := by
  obtain ⟨i,v⟩ := t
  obtain rfl : v = some (d,m) := hvia
  have hlstat : g.lstat (parse path) = some .file := by
    rw [lstat,hr]
    exact congrArg some hfile
  have hmode : ((statOf (modeOf .file)).mode.isSymlink || !(statOf (modeOf .file)).mode.isDir) := by decide
  have hunlink : g.unlink (parse path) = some (g.remove d m) := by
    rw [unlink,hr]
    simp [isDir,hfile]
  rw [deleteRecursive,yields_perform_bind]
  refine ⟨_,g,does_lstat hlstat,?_⟩
  dsimp only
  rw [if_pos hmode,attempt]
  exact ⟨.ok (),_,hunlink,rfl,rfl⟩

/-- A directory is found at the path, a file in it is deleted, and then `rmdir` fails. -/
theorem yields_delete_dir (levels : ℕ) (e : ProxyError) (ht : g.resolve false (parse path) = some t) (hdir : g.isDir t.node)
    (hi : g.lookup t.node n = some i) (hfile : g.kind i = .file) (hn : n.lossy.bytes = n.bytes) :
    (deleteRecursive (levels+2) path).Yields does g (.error e.text) (g.remove t.node n) := by
  have hlstat : g.lstat (parse path) = some .dir := by
    rw [lstat,ht]
    exact congrArg some (isDir_iff.mp hdir)
  have hmode : ((statOf (modeOf .dir)).mode.isSymlink || !(statOf (modeOf .dir)).mode.isDir) = false := by decide
  have hchild := yields_delete_file levels (resolve_childPath ht hdir hi) rfl hfile
  rw [deleteRecursive,yields_perform_bind]
  refine ⟨_,g,does_lstat hlstat,?_⟩
  dsimp only
  rw [if_neg (by simp [hmode]),yields_perform_bind]
  refine ⟨_,g,does_listdir ht hdir hi hn (statOf .file),?_⟩
  dsimp only
  rw [yields_bind_iff]
  refine ⟨.ok (),g.remove t.node n,?_,?_⟩
  · rw [tryEach,yields_bind_iff]
    exact ⟨.ok (),_,hchild,rfl,rfl⟩
  · rw [attempt,yields_perform_bind]
    exact ⟨.error e,_,.inl rfl,rfl,rfl⟩

theorem yields_delete_failed {path : Text} {e : String} (hacc : accepted path.bytes)
    (h : (deleteRecursive (DELETE_MAX_DEPTH+1) path.bytes).Yields does g (.error e) g') :
    (delete "serial" path).Yields does g (.error (.failed ("delete: "++e))) g' := by
  rw [delete,if_pos hacc,yields_perform_bind]
  refine ⟨true,_,rfl,?_⟩
  rw [if_pos rfl,yields_bind_iff]
  exact ⟨.error e,_,h,rfl,rfl⟩

end

/-- On a path that ends in a slash or a dot there is a device on which the call reaches through a link. -/
theorem exists_through_link {path : Text} (hacc : accepted path.bytes) (hends : endsInName path.bytes = false) :
    ∃ g reply g', (delete "serial" path).Yields does g reply g' ∧ ¬ Safe path.bytes g reply g' := by
  have hup := dotdot_not_mem_of_accepted hacc
  obtain ⟨p,c,b,hparse,hb⟩ := exists_last_name hup (essential_ne_nil_of_accepted hacc)
  have hup' : .dotdot ∉ p := by
    intro hmem
    exact hup (by simp [hparse,hmem])
  obtain ⟨ns,hns⟩ := exists_names hup'
  have hne : b ≠ [] := by
    rintro rfl
    simp [endsInName,hparse] at hends
  have hquiet : essential b = [] := by
    rw [essential,filter_eq_nil_iff]
    intro x hx
    obtain rfl | rfl := hb x hx <;> simp
  have hess : essential (parse path.bytes) = essential p++[Piece.name c] := by
    rw [hparse,essential_append]
    show _++Piece.name c::essential b = _
    rw [hquiet]
  obtain ⟨v,hdir⟩ := trap_resolve_dir ns c hns hb hne
  rw [← hparse] at hdir
  have hlink : (trap ns c).resolve false (named path.bytes) = some ⟨ns.length+1,some (ns.length,c)⟩ := by
    unfold named
    rw [hess]
    split
    · exact trap_resolve_link ns c (p:=.empty::essential p) ((essential_essential p).trans hns)
    · exact trap_resolve_link ns c ((essential_essential p).trans hns)
  have hrun := yields_delete_dir 63 .timeout hdir (trap_isDir ns c le_rfl) (trap_lookup_file ns c) (by simp [trap])
    (by unfold otherName; split <;> decide)
  refine ⟨trap ns c,_,(trap ns c).remove ns.length (otherName c),yields_delete_failed hacc hrun,?_⟩
  intro hsafe
  obtain ⟨s,hs,hin⟩ := hsafe.inside _ _ _ (trap_lookup_file ns c) (by rw [lookup_remove,if_pos ⟨rfl,rfl⟩])
  obtain rfl := Option.some.inj (hlink.symm.trans hs)
  exact trap_not_inSubtree ns c hin

/-- The paths on which `delete` is safe, whatever is on the device and whatever fails, are those
that end in a name, among the paths it accepts. -/
theorem delete_safe_iff (path : Text) :
    (∀ device g reply g', (delete device path).Yields does g reply g' → Safe path.bytes g reply g') ↔
      (accepted path.bytes = true → endsInName path.bytes = true) := by
  constructor
  · intro h hacc
    by_contra hends
    obtain ⟨g,reply,g',hrun,hbad⟩ := exists_through_link hacc (by simpa using hends)
    exact hbad (h "serial" g reply g' hrun)
  · intro hends device g reply g' hrun
    exact delete_safe hends hrun

/-- A device that answers every action and loses nothing. -/
def serve : (β : Type) → Act β → Graph FileName → Option (β × Graph FileName)
  | _, .clientFor _, g => some (true,g)
  | _, .lstat path, g =>
    match g.lstat (parse path) with
    | some kind => some (.ok (statOf (modeOf kind)),g)
    | none => some (.error (.status .notFound []),g)
  | _, .listdir path, g =>
    match g.readdir (parse path) with
    | some names => some (.ok (names.map fun e => ⟨e.1.lossy.bytes,statOf (modeOf e.2)⟩),g)
    | none => some (.error (.status .notDir []),g)
  | _, .unlink path, g =>
    match g.unlink (parse path) with
    | some g' => some (.ok (),g')
    | none => some (.error (.status .ioError []),g)
  | _, .rmdir path, g =>
    match g.rmdir (parse path) with
    | some g' => some (.ok (),g')
    | none => some (.error (.status .ioError []),g)

theorem does_of_serve (β : Type) (a : Act β) (g : Graph FileName) (b : β) (g' : Graph FileName)
    (h : serve β a g = some (b,g')) : does β a g b g' := by
  cases a with
  | clientFor device =>
    cases h
    exact rfl
  | lstat path =>
    rw [serve] at h
    split at h
    · rename_i kind hkind
      cases h
      exact does_lstat hkind
    · cases h
      exact rfl
  | listdir path =>
    rw [serve] at h
    split at h
    · rename_i names hnames
      cases h
      refine ⟨rfl,names,hnames,?_⟩
      rw [map_map]
      exact List.Sublist.refl _
    · cases h
      exact rfl
  | unlink path | rmdir path =>
    rw [serve] at h
    split at h
    · rename_i g₁ hg
      cases h
      exact hg
    · cases h
      exact .inl rfl

def linkName : FileName := ⟨[108],by decide⟩
def targetName : FileName := ⟨[116],by decide⟩
def fileName : FileName := ⟨[120],by decide⟩

/-- The link `/l` leads to the directory `/t`, in which there is the file `/t/x`. -/
def linked : Graph FileName where
  kind i := if i = 1 then .link [.name targetName] else if i = 3 then .file else .dir
  entries i :=
    if i = 0 then AList.insert linkName 1 (AList.insert targetName 2 ∅)
    else if i = 2 then AList.insert fileName 3 ∅
    else ∅
  up _ := 0
  root := 0
  cwd := 0
  next := 4
  root_lt := by omega
  cwd_lt := by omega
  up_lt _ _ := by omega
  entry_lt d n i h := by
    by_cases hroot : d = 0
    · rw [if_pos hroot,Dict.lookup_insert_if,Dict.lookup_insert_if,AList.lookup_empty] at h
      split at h
      · cases h
        omega
      · split_ifs at h
        cases h
        omega
    · rw [if_neg hroot] at h
      by_cases hdir : d = 2
      · rw [if_pos hdir,Dict.lookup_insert_if,AList.lookup_empty] at h
        split_ifs at h
        cases h
        omega
      · rw [if_neg hdir] at h
        simp at h

/-- Deleting `/l/` deletes the file `/t/x` and then `/t`, and leaves the link: the call succeeds, what only the
link leads to is gone, and the link, which the path names, is still there. Where `rmdir` refuses
a link with a slash after it, the call fails after it has deleted the file. -/
theorem delete_through_link : (∃ g', (delete "serial" ⟨[47,108,47],by decide⟩).Yields does linked (.ok ()) g' ∧
      linked.lookup 2 fileName = some 3 ∧ g'.lookup 2 fileName = none ∧
      linked.resolve false (named [47,108,47]) = some ⟨1,some (0,linkName)⟩ ∧
      g'.resolve false (named [47,108,47]) = some ⟨1,some (0,linkName)⟩ ∧ ¬ Safe [47,108,47] linked (.ok ()) g') ∧
    ∃ reply g', (delete "serial" ⟨[47,108,47],by decide⟩).Yields does linked (.error reply) g' ∧
      g'.lookup 2 fileName = none ∧ ¬ Safe [47,108,47] linked (.error reply) g' := by
  constructor
  · refine ⟨_,play_yields does_of_serve rfl,by decide +kernel,by decide +kernel,by decide +kernel,by decide +kernel,?_⟩
    exact fun hsafe => absurd (hsafe.gone rfl) (by decide +kernel)
  have hdir : linked.resolve false (parse [47,108,47]) = some ⟨2,some (0,targetName)⟩ := by decide +kernel
  have hgone : (linked.remove 2 fileName).lookup 2 fileName = none := by decide +kernel
  refine ⟨_,_,yields_delete_failed (by decide +kernel)
    (yields_delete_dir 63 (.status .notDir []) hdir (by decide) (by decide : linked.lookup 2 fileName = some 3) rfl
      (by decide)),hgone,?_⟩
  intro hsafe
  obtain ⟨s,hs,hin⟩ := hsafe.inside 2 fileName 3 (by decide) hgone
  have hlink : linked.resolve false (named [47,108,47]) = some ⟨1,some (0,linkName)⟩ := by decide +kernel
  obtain rfl := Option.some.inj (hlink.symm.trans hs)
  obtain hvia | ⟨hreach,-⟩ := hin
  · cases hvia
  obtain heq | ⟨i,⟨hdir,-⟩,-⟩ := hreach.cases_head
  · cases heq
  · cases hdir

end AdbShare.Delete

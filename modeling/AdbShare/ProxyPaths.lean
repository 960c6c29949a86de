import AdbShare.ProxyDevice

/-! Which paths the device proxy lets through to the kernel. A request names its paths by a
length and that many bytes. -/
namespace AdbShare.ProxyDevice

open List Option Prog

open Listing (MAX_PATH DirName cStr fullPath readPath frameReply)
open PathText (SLASH pieces isAbsolute)

/-- A length and that many bytes, and what stands behind them. -/
def readField (args : Bytes) : Option (Bytes × Bytes) :=
  if args.length < 4 then none
  else if args.length < 4+u32At args 0 then none
  else some ((args.drop 4).take (u32At args 0),args.drop (4+u32At args 0))

def firstPath (args : Bytes) : List Bytes := ((readField args).map Prod.fst).toList

def bothPaths (args : Bytes) : List Bytes :=
  match readField args with
  | none => []
  | some (p,rest) => p::firstPath rest

/-- The paths of a request. -/
def paths (op : UInt8) (args : Bytes) : List Bytes :=
  match op.toNat with
  | 0x01 => firstPath (args.drop 8)
  | 0x05 | 0x06 | 0x07 | 0x08 | 0x09 | 0x0B | 0x0C | 0x0D | 0x0F | 0x10 | 0x11 => firstPath args
  | 0x0A | 0x0E | 0x12 => bothPaths args
  | _ => []

/-- A path the device should not take. -/
def Bad (p : Bytes) : Prop := 0 ∈ p ∨ p.length > MAX_PATH

/-- The pieces of a path that lead anywhere. -/
def components (p : Bytes) : List Bytes := (pieces p).filter fun c => decide (c ≠ [] ∧ c ≠ PathText.dot)

/-- The directory and the name in it say what the path says. -/
def Splits (path dir name : Bytes) : Prop := isAbsolute dir = true ∧ components path = components dir++[name]

/-- The calls an op makes with the paths of its request. -/
def Makes (op : UInt8) (ps : List Bytes) : (β : Type) → Sys β → Prop
  | _, .openFile q _ _ => op = 0x01 ∧ ∃ p, ps = [p] ∧ q = cStr p
  | _, .track _ _ => op = 0x01
  | _, .close _ | _, .untrack _ => op = 0x02
  | _, .pread _ _ _ => op = 0x03
  | _, .pwrite _ _ _ => op = 0x04
  | _, .stat q => op = 0x05 ∧ ∃ p, ps = [p] ∧ q = cStr p
  | _, .opendir q => op = 0x06 ∧ ∃ p, ps = [p] ∧ q = cStr p
  | _, .lstat q => op = 0x0F ∧ (∃ p, ps = [p] ∧ q = cStr p) ∨
      op = 0x06 ∧ ∃ dir name, ps = [dir] ∧ q = cStr (fullPath dir name)
  | _, .closedir _ => op = 0x06
  | _, .mkdir p _ => op = 0x07 ∧ ps = [p]
  | _, .unlink p => op = 0x08 ∧ ps = [p]
  | _, .rmdir p => op = 0x09 ∧ ps = [p]
  | _, .rename p q => op = 0x0A ∧ ps = [p,q]
  | _, .truncate p _ => op = 0x0B ∧ ps = [p]
  | _, .realpath p => op = 0x0C ∧ ps = [p]
  | _, .readlink p _ => op = 0x0D ∧ ps = [p]
  | _, .symlink p q => op = 0x0E ∧ ps = [p,q]
  | _, .utimes p _ _ => op = 0x10 ∧ ps = [p]
  | _, .statvfs p => op = 0x11 ∧ ps = [p]
  | _, .fsOpen p _ => op = 0x12 ∧ ∃ src dst, ps = [src,dst] ∧ (p = src ∨ ∃ name, Splits dst p name)
  | _, .openat _ name | _, .fstatat _ name | _, .unlinkat _ name =>
    op = 0x12 ∧ ∃ src dst dir, ps = [src,dst] ∧ Splits dst dir name
  | _, .metadata _ | _, .copy _ _ _ | _, .syncAll _ | _, .identity _ | _, .closeFile _ => op = 0x12
  | _, .fstat _ => op = 0x13

/-- The call receives the paths as they were sent: a listing adds the names it found, a copy
opens the directory of its destination and uses the name in it. -/
def Exact (op : UInt8) (ps : List Bytes) : (β : Type) → Sys β → Prop
  | _, .lstat p => ps = [p] ∨ op = 0x06 ∧ ∃ dir name, ps = [dir] ∧ p = fullPath dir name
  | _, .rename p q | _, .symlink p q => ps = [p,q]
  | _, .fsOpen p _ => ∃ src dst, ps = [src,dst] ∧ (p = src ∨ ∃ name, Splits dst p name)
  | _, .openat _ name | _, .fstatat _ name | _, .unlinkat _ name => ∃ src dst dir, ps = [src,dst] ∧ Splits dst dir name
  | _, a => ∀ p ∈ a.paths, ps = [p]

section

variable (errorText : ℕ → Bytes) (op : UInt8) (args : Bytes) (conn : ℕ)

/-- A bad path is answered with an invalid argument and neither it nor a part of it from the
start gets to the kernel; good paths get there as they are. -/
def Guarded : Prop :=
  (∀ p ∈ paths op args, Bad p →
    (dispatch errorText op args conn).Only (fun _ a => ∀ q ∈ a.paths, ¬q <+: p) ∧
    ∀ reply, (dispatch errorText op args conn).Returns (fun _ _ _ => True) reply →
      ∃ msg, reply = frameReply (0x08::msg)) ∧
  ((∀ p ∈ paths op args, ¬Bad p) → (dispatch errorText op args conn).Only (Exact op (paths op args)))

/-- The bad paths the source looks out for: an open looks out for none, the calls that take a
path as it comes only for its length. -/
def Checked : Prop :=
  ∀ p ∈ paths op args, Bad p → op ≠ 0x01 ∧ (op = 0x05 ∨ op = 0x06 ∨ op = 0x0F → p.length > MAX_PATH)

end

/-- Answered with an invalid argument and nothing else. -/
def Refuses (p : Prog Sys Bytes) : Prop := ∃ msg, p = .ret (0x08::msg)

theorem readPath_eq (args : Bytes) : readPath args =
    (readField args).bind fun x => if x.1.length > MAX_PATH then none else some x := by
  unfold readPath readField
  by_cases hshort : args.length < 4
  · simp [hshort]
  rw [if_neg hshort,if_neg hshort]
  change (if u32At args 0 > MAX_PATH ∨ args.length < 4+u32At args 0 then none else _) = _
  by_cases hcut : args.length < 4+u32At args 0
  · rw [if_pos (.inr hcut),if_pos hcut]
    rfl
  have hlen : ((args.drop 4).take (u32At args 0)).length = u32At args 0 := by
    rw [length_take,length_drop]
    omega
  simp only [hcut,or_false,if_false,bind_some,hlen]
  rfl

variable {args p rest : Bytes} {P : (β : Type) → Sys β → Prop} {n : ℕ} {msg : String} {ps : List Bytes} {β : Type}

theorem firstPath_eq (h : readField args = some (p,rest)) : firstPath args = [p] := by
  rw [firstPath,h]
  rfl

theorem mem_firstPath : p ∈ firstPath args ↔ ∃ rest, readField args = some (p,rest) := by
  rw [firstPath]
  cases h : readField args with
  | none => simp
  | some x => simp [Prod.ext_iff,eq_comm]

section

variable {args : Bytes} {k : Bytes → Bytes → Prog Sys Bytes} {k : Bytes → Bytes → Prog Sys Bytes}

theorem refuses_invalid (msg : String) : Refuses (invalid msg) := ⟨_,rfl⟩

theorem refuses_withCString {k : Bytes → Prog Sys Bytes} (h : 0 ∈ p) : Refuses (withCString p k) := by
  rw [withCString,cstring,if_pos h]
  exact refuses_invalid _

theorem withPath_of_field (h : readField args = some (p,rest)) :
    withPath args k = if p.length > MAX_PATH then badPath else k p rest := by
  rw [withPath,readPath_eq,h,bind_some]
  split_ifs <;> rfl

theorem withPath_of_none (h : readField args = none) : withPath args k = badPath := by
  rw [withPath,readPath_eq,h]
  rfl

theorem refuses_withPath (hp : p ∈ firstPath args)
    (hk : p.length ≤ MAX_PATH → ∀ rest, Refuses (k p rest)) : Refuses (withPath args k) := by
  obtain ⟨rest,hrest⟩ := mem_firstPath.mp hp
  rw [withPath_of_field hrest]
  split_ifs with hlong
  · exact refuses_invalid _
  · exact hk (by omega) rest

theorem only_withPath (hk : ∀ p rest, readField args = some (p,rest) → p.length ≤ MAX_PATH → (k p rest).Only P) :
    (withPath args k).Only P := by
  cases h : readField args with
  | none =>
    rw [withPath_of_none h]
    trivial
  | some x =>
    obtain ⟨p,rest⟩ := x
    rw [withPath_of_field h]
    split_ifs with hlong
    · trivial
    · exact hk p rest h (by omega)

theorem only_withCString {k : Bytes → Prog Sys Bytes} (hk : (k p).Only P) : (withCString p k).Only P := by
  rw [withCString,cstring]
  split_ifs
  · trivial
  · exact hk

theorem refuses_twoPaths (hp : p ∈ bothPaths args) (hbad : Bad p) :
    Refuses (withPath args fun src rest => withPath rest fun dst _ =>
      withCString src fun s => withCString dst fun d => k s d) := by
  cases h : readField args with
  | none =>
    rw [withPath_of_none h]
    exact refuses_invalid _
  | some x =>
    obtain ⟨src,rest⟩ := x
    rw [withPath_of_field h]
    split_ifs with hlong
    · exact refuses_invalid _
    rw [bothPaths,h] at hp
    obtain rfl | hp := mem_cons.mp hp
    · cases hdst : readField rest with
      | none =>
        rw [withPath_of_none hdst]
        exact refuses_invalid _
      | some y =>
        obtain ⟨dst,_⟩ := y
        refine refuses_withPath (firstPath_eq hdst ▸ mem_singleton_self dst) ?_
        intro _ _
        exact refuses_withCString (hbad.resolve_right hlong)
    · refine refuses_withPath hp ?_
      intro hle _
      rw [withCString]
      split
      · exact refuses_invalid _
      · exact refuses_withCString (hbad.resolve_right (by omega))

theorem only_twoPaths (hk : ∀ src dst, bothPaths args = [src,dst] → (k src dst).Only P) :
    (withPath args fun src rest => withPath rest fun dst _ =>
      withCString src fun s => withCString dst fun d => k s d).Only P := by
  refine only_withPath ?_
  intro src rest hsrc _
  refine only_withPath ?_
  intro dst rest' hdst _
  refine only_withCString (only_withCString (hk src dst ?_))
  rw [bothPaths,hsrc]
  exact congrArg (src::·) (firstPath_eq hdst)

/-- The arm that gets a C string of the one path it takes. -/
theorem refuses_onePath {k : Bytes → Bytes → Bytes → Prog Sys Bytes} (hp : p ∈ firstPath args) (hbad : Bad p) :
    Refuses (withPath args fun path rest => withCString path (k path rest)) := by
  refine refuses_withPath hp ?_
  intro hle rest
  exact refuses_withCString (hbad.resolve_right (by omega))

/-- The same arm when it needs more bytes behind the path. -/
theorem refuses_onePath_of_rest {k : Bytes → Bytes → Bytes → Prog Sys Bytes} (hp : p ∈ firstPath args) (hbad : Bad p) :
    Refuses (withPath args fun path rest => if rest.length < n then invalid msg else withCString path (k path rest)) := by
  refine refuses_withPath hp ?_
  intro hle rest
  split_ifs
  · exact refuses_invalid _
  · exact refuses_withCString (hbad.resolve_right (by omega))

end

section

variable {cs : List Bytes} {α : Type} {r q : α → Bool} {path : Bytes}

theorem pieces_intercalate (hne : cs ≠ []) (h : ∀ c ∈ cs, SLASH ∉ c) : pieces ([SLASH].intercalate cs) = cs := by
  induction cs with
  | nil => exact absurd rfl hne
  | cons c cs ih =>
    have hc : pieces c = [c] := PathText.pieces_of_not_mem (h c mem_cons_self)
    cases cs with
    | nil => simpa using hc
    | cons d ds =>
      have hrest := ih (by simp) fun e he => h e (mem_cons_of_mem _ he)
      have heq : [SLASH].intercalate (c::d::ds) = c++SLASH::[SLASH].intercalate (d::ds) := by
        simp [List.intercalate,List.intersperse]
      rw [heq,PathText.pieces_append_slash,hc,hrest]
      rfl

theorem filter_rdropWhile (h : ∀ a, q a → r a = false) (l : List α) : (l.rdropWhile q).filter r = l.filter r := by
  induction l using List.reverseRecOn with
  | nil => rfl
  | append_singleton l a ih =>
    by_cases ha : q a
    · rw [rdropWhile_concat_pos q l a ha,ih]
      simp [h a ha]
    · rw [rdropWhile_concat_neg q l a ha]

theorem components_slash (p : Bytes) : components (SLASH::p) = components p := by
  rw [components,pieces]
  rfl

theorem components_intercalate (h : ∀ c ∈ cs, SLASH ∉ c) :
    components ([SLASH].intercalate cs) = cs.filter fun c => decide (c ≠ [] ∧ c ≠ PathText.dot) := by
  by_cases hne : cs = []
  · subst hne
    rfl
  · rw [components,pieces_intercalate hne h]

theorem splits_parentDir (habs : isAbsolute path)
    (hname : ¬(lastPiece path = [] ∨ lastPiece path = PathText.dot ∨ lastPiece path = PathText.dotdot)) :
    Splits path (parentDir path) (lastPiece path) := by
  obtain ⟨bs,rfl⟩ : ∃ bs, path = SLASH::bs := by
    cases path with
    | nil => simp [isAbsolute] at habs
    | cons b bs =>
      have hb : b = SLASH := by simpa [isAbsolute] using habs
      exact ⟨bs,by rw [hb]⟩
  have hpieces : pieces (SLASH::bs) = []::pieces bs := by rw [pieces,if_pos rfl]
  have hlast : pieces bs = (pieces bs).dropLast++[lastPiece (SLASH::bs)] := by
    rw [lastPiece,hpieces,getLastD_cons,getLastD_eq_getLast?,
      getLast?_eq_some_getLast (PathText.pieces_ne_nil bs),getD_some,dropLast_concat_getLast]
  have hplain : ∀ c ∈ (pieces bs).dropLast.rdropWhile (fun c => decide (c = [] ∨ c = PathText.dot)), SLASH ∉ c := by
    intro c hc
    exact PathText.slash_not_mem_piece (dropLast_subset _ ((List.rdropWhile_prefix _ _).subset hc))
  refine ⟨by simp [isAbsolute,parentDir],?_⟩
  rw [parentDir,hpieces,tail_cons,components_slash,components_slash,components_intercalate hplain,
    filter_rdropWhile (by simp),components]
  conv_lhs => rw [hlast]
  rw [filter_append]
  congr 1
  simp only [not_or] at hname
  exact filter_cons_of_pos (decide_eq_true ⟨hname.1,hname.2.1⟩)

end

section

variable {args dir name : Bytes}

theorem readPath_some (h : readPath args = some (p,rest)) : readField args = some (p,rest) ∧ p.length ≤ MAX_PATH := by
  rw [readPath_eq] at h
  obtain ⟨x,hx,hsome⟩ := bind_eq_some_iff.mp h
  split_ifs at hsome with hlong
  cases hsome
  exact ⟨hx,Nat.le_of_not_lt hlong⟩

theorem readTwoPaths_some {src dst : Bytes} (h : readTwoPaths args = some (src,dst)) :
    bothPaths args = [src,dst] ∧ isAbsolute dst ∧ ¬Bad src ∧ ¬Bad dst := by
  obtain ⟨⟨s,rest⟩,hs,h⟩ := bind_eq_some_iff.mp h
  obtain ⟨⟨d,rest'⟩,hd,h⟩ := bind_eq_some_iff.mp h
  dsimp only at h hd
  split_ifs at h with hcheck
  obtain ⟨rfl,rfl⟩ := Prod.mk.inj (some.inj h)
  obtain ⟨hs,hslen⟩ := readPath_some hs
  obtain ⟨hd,hdlen⟩ := readPath_some hd
  simp only [any_cons,any_nil,Bool.or_false,Bool.or_eq_true,Bool.not_eq_true',contains_iff_mem,
    not_or,Bool.not_eq_false] at hcheck
  refine ⟨?_,hcheck.2.2.1,?_,?_⟩
  · rw [bothPaths,hs]
    exact congrArg (s::·) (firstPath_eq hd)
  · rintro (hnul | hlong)
    · exact hcheck.2.1.2 hnul
    · omega
  · rintro (hnul | hlong)
    · exact hcheck.2.2.2 hnul
    · omega

variable {errorText : ℕ → Bytes} {src dst : Bytes}

theorem only_removeOwnedPartial (h : Splits dst dir name) (parent file : ℕ) :
    (removeOwnedPartial parent name file).Only (Makes 0x12 [src,dst]) := by
  refine only_perform_bind (rfl) ?_
  intro owned
  cases owned with
  | none => trivial
  | some owned =>
    refine only_perform_bind ⟨rfl,src,dst,dir,rfl,h⟩ ?_
    intro current
    cases current with
    | none => trivial
    | some current =>
      dsimp only
      split_ifs
      · exact ⟨⟨rfl,src,dst,dir,rfl,h⟩,fun _ => trivial⟩
      · trivial

theorem only_copyInto (source size destination : ℕ) :
    (copyInto errorText source size destination).Only (Makes 0x12 ps) := by
  refine only_perform_bind (rfl) ?_
  intro copied
  refine only_perform_bind (rfl) ?_
  intro _
  cases copied with
  | error e => trivial
  | ok n =>
    dsimp only
    split_ifs
    · trivial
    refine only_perform_bind (rfl) ?_
    rintro (e | _)
    · trivial
    · trivial

theorem only_copyIntoOwned (h : Splits dst dir name) (source size destination parent : ℕ) :
    (copyIntoOwned errorText source size destination parent name).Only (Makes 0x12 [src,dst]) := by
  refine only_bind (only_copyInto ..) ?_
  rintro (e | _)
  · refine only_bind (only_removeOwnedPartial h ..) ?_
    intro _
    trivial
  · trivial

theorem only_copyOpened (habs : isAbsolute dst) (source size : ℕ) :
    (copyOpened errorText source size dst).Only (Makes 0x12 [src,dst]) := by
  unfold copyOpened
  dsimp only
  split_ifs with hname
  · exact ⟨rfl,fun _ => trivial⟩
  have hsplit := splits_parentDir habs hname
  refine only_perform_bind ⟨rfl,src,dst,rfl,.inr ⟨_,hsplit⟩⟩ ?_
  rintro (e | parent)
  · exact ⟨rfl,fun _ => trivial⟩
  refine only_perform_bind ⟨rfl,src,dst,_,rfl,hsplit⟩ ?_
  rintro (e | destination)
  · exact ⟨rfl,fun _ => ⟨rfl,fun _ => trivial⟩⟩
  refine only_bind (only_copyIntoOwned hsplit ..) ?_
  intro result
  exact ⟨rfl,fun _ => ⟨rfl,fun _ => trivial⟩⟩

theorem only_doCopyFile (habs : isAbsolute dst) : (doCopyFile errorText src dst).Only (Makes 0x12 [src,dst]) := by
  unfold doCopyFile
  split_ifs
  · trivial
  refine only_perform_bind ⟨rfl,src,dst,rfl,.inl rfl⟩ ?_
  rintro (e | source)
  · trivial
  refine only_perform_bind (rfl) ?_
  rintro (e | metadata)
  · exact ⟨rfl,fun _ => trivial⟩
  dsimp only
  split_ifs
  · exact only_copyOpened habs ..
  · exact ⟨rfl,fun _ => trivial⟩
  · exact ⟨rfl,fun _ => trivial⟩

theorem only_dispatchCopy (args : Bytes) : (dispatchCopy errorText args).Only (Makes 0x12 (bothPaths args)) := by
  rw [dispatchCopy]
  cases h : readTwoPaths args with
  | none => trivial
  | some x =>
    obtain ⟨hboth,habs,-⟩ := readTwoPaths_some h
    rw [hboth]
    refine only_bind (only_doCopyFile habs) ?_
    rintro (e | _)
    · trivial
    · trivial

theorem refuses_dispatchCopy (hp : p ∈ bothPaths args) (hbad : Bad p) : Refuses (dispatchCopy errorText args) := by
  rw [dispatchCopy]
  cases h : readTwoPaths args with
  | none => exact refuses_invalid _
  | some x =>
    obtain ⟨hboth,-,hsrc,hdst⟩ := readTwoPaths_some h
    rw [hboth] at hp
    simp only [mem_cons,not_mem_nil,or_false] at hp
    obtain rfl | rfl := hp
    · exact absurd hbad hsrc
    · exact absurd hbad hdst

end

section

variable {errorText : ℕ → Bytes} {op : UInt8} {args out : Bytes}
  {q : Bytes → Bytes → Prog Sys (Except (UInt8 × Bytes) Bytes)} {a : Sys β} {k : β → Prog Sys Bytes} {c : Prop}

theorem only_listdirLoop (path : Bytes) (offset maxEntries : ℕ) (ents : List DirName) (seen emitted : ℕ) (body : Bytes) :
    (listdirLoop path offset maxEntries ents seen emitted body).Only (Makes 0x06 [path]) := by
  induction ents generalizing seen emitted body with
  | nil => trivial
  | cons ent ents ih =>
    rw [listdirLoop]
    split
    · exact ih ..
    split
    · exact ih ..
    refine only_perform_bind (.inr ⟨rfl,path,ent.bytes,rfl,rfl⟩) ?_
    rintro (e | st)
    · exact ih ..
    dsimp only
    split
    · trivial
    · exact ih ..

theorem only_doListdir (path : Bytes) (offset maxEntries : ℕ) :
    (doListdir errorText path offset maxEntries).Only (Makes 0x06 [path]) := by
  refine only_perform_bind ⟨rfl,path,rfl,rfl⟩ ?_
  rintro (e | ⟨dir,ents⟩)
  · trivial
  refine only_bind (only_listdirLoop ..) ?_
  intro page
  exact ⟨rfl,fun _ => trivial⟩

theorem only_doStat (path : Bytes) : (doStat errorText path).Only (Makes 0x05 [path]) := by
  refine only_perform_bind ⟨rfl,path,rfl,rfl⟩ ?_
  rintro (e | st) <;> trivial

theorem only_doLstat (path : Bytes) : (doLstat errorText path).Only (Makes 0x0F [path]) := by
  refine only_perform_bind (.inl ⟨rfl,path,rfl,rfl⟩) ?_
  rintro (e | st) <;> trivial

theorem only_rawPath (hq : ∀ path rest, (q path rest).Only (Makes op [path])) :
    (withPath args fun path rest => do report (← q path rest)).Only (Makes op (firstPath args)) := by
  refine only_withPath ?_
  intro path rest hpath _
  rw [firstPath_eq hpath]
  exact only_bind (hq path rest) fun r => by cases r <;> trivial

theorem handleOpen_of_path (hp : p ∈ firstPath (args.drop 8)) :
    handleOpen args = .act (.openFile (cStr p) (openFlags (u32At args 0)) (u32At args 4)) fun
      | .error _ => .ret (.error (0x07,text "open")) | .ok fd => .ret (.ok fd) := by
  obtain ⟨rest,hrest⟩ := mem_firstPath.mp hp
  have hu : u32At (args.drop 8) 0 = u32At args 8 := rfl
  unfold readField at hrest
  rw [length_drop] at hrest
  split_ifs at hrest with hshort hcut
  obtain ⟨rfl,-⟩ := Prod.mk.inj (some.inj hrest)
  rw [handleOpen,if_neg (by omega),if_neg (by omega),if_neg (by omega),drop_drop]
  rfl

theorem handleOpen_of_none (h : readField (args.drop 8) = none) : handleOpen args = .ret (.error (0x08,text "short")) := by
  have hu : u32At (args.drop 8) 0 = u32At args 8 := rfl
  unfold readField at h
  rw [length_drop] at h
  unfold handleOpen
  split_ifs at h ⊢ <;> first | rfl | omega

theorem only_dispatchOpen (args : Bytes) (conn : ℕ) :
    (dispatchOpen args conn).Only (Makes 0x01 (firstPath (args.drop 8))) := by
  rw [dispatchOpen]
  cases h : readField (args.drop 8) with
  | none =>
    rw [handleOpen_of_none h]
    trivial
  | some x =>
    rw [handleOpen_of_path (mem_firstPath.mpr ⟨x.2,h⟩)]
    refine ⟨⟨rfl,x.1,firstPath_eq h,rfl⟩,?_⟩
    rintro (e | fd)
    · trivial
    · exact ⟨rfl,fun _ => trivial⟩

theorem only_fdCall (ha : P β a) (hk : ∀ b, (k b).Only P) [Decidable c] :
    (if c then ret out else (perform a >>= k)).Only P := by
  split_ifs
  · trivial
  · exact ⟨ha,hk⟩

theorem only_dispatchClose (args : Bytes) : (dispatchClose args).Only (Makes 0x02 ps) := by
  refine only_fdCall rfl ?_
  rintro (_ | _)
  · trivial
  · exact ⟨rfl,fun _ => trivial⟩

theorem only_dispatchRead (args : Bytes) : (dispatchRead args).Only (Makes 0x03 ps) := by
  rw [dispatchRead]
  split
  · trivial
  refine only_fdCall rfl ?_
  rintro (_ | data) <;> trivial

theorem only_dispatchWrite (args : Bytes) : (dispatchWrite args).Only (Makes 0x04 ps) := by
  rw [dispatchWrite]
  split
  · trivial
  refine only_fdCall rfl ?_
  rintro (_ | n)
  · trivial
  · dsimp only
    split_ifs <;> trivial

end

section

variable {errorText : ℕ → Bytes} {op : UInt8} {args : Bytes} {conn : ℕ} {a : Bytes → Bytes → Sys β}
  {k : Bytes → Bytes → β → Prog Sys Bytes}

theorem only_onePath
    (ha : ∀ path rest, Makes op [path] β (a path rest)) (hk : ∀ path rest b, (k path rest b).Only (Makes op [path])) :
    (withPath args fun path rest => withCString path fun p => perform (a p rest) >>= k p rest).Only
      (Makes op (firstPath args)) := by
  refine only_withPath ?_
  intro path rest hpath _
  rw [firstPath_eq hpath]
  exact only_withCString ⟨ha path rest,hk path rest⟩

theorem only_onePath_of_rest (ha : ∀ path rest, Makes op [path] β (a path rest))
    (hk : ∀ path rest b, (k path rest b).Only (Makes op [path])) :
    (withPath args fun path rest => if rest.length < n then invalid msg
      else withCString path fun p => perform (a p rest) >>= k p rest).Only (Makes op (firstPath args)) := by
  refine only_withPath ?_
  intro path rest hpath _
  rw [firstPath_eq hpath]
  split_ifs
  · trivial
  · exact only_withCString ⟨ha path rest,hk path rest⟩

theorem op_eq (h : op.toNat = n) : op = UInt8.ofNat n := by rw [← h,UInt8.ofNat_toNat]

/-- Every op makes its own calls and no others. -/
theorem serve_makes (errorText : ℕ → Bytes) (op : UInt8) (args : Bytes) (conn : ℕ) :
    (serve errorText op args conn).Only (Makes op (paths op args)) := by
  generalize hps : paths op args = ps
  rw [serve]
  split <;> rename_i h <;> simp only [paths,h] at hps <;> subst hps <;> try obtain rfl := op_eq h
  · exact only_dispatchOpen ..
  · exact only_dispatchClose ..
  · exact only_dispatchRead ..
  · exact only_dispatchWrite ..
  · exact only_rawPath fun path _ => only_doStat path
  · exact only_rawPath fun path _ => only_doLstat path
  · exact only_fdCall rfl (by rintro (_ | st) <;> trivial)
  · exact only_rawPath fun path _ => only_doListdir path ..
  · exact only_onePath_of_rest (fun path _ => ⟨rfl,rfl⟩) fun _ _ _ => trivial
  · exact only_onePath (fun path _ => ⟨rfl,rfl⟩) fun _ _ _ => trivial
  · exact only_onePath (fun path _ => ⟨rfl,rfl⟩) fun _ _ _ => trivial
  · refine only_twoPaths ?_
    intro src dst hboth
    exact ⟨⟨rfl,hboth⟩,fun _ => trivial⟩
  · exact only_onePath_of_rest (fun path _ => ⟨rfl,rfl⟩) fun _ _ _ => trivial
  · refine only_onePath (fun path _ => ⟨rfl,rfl⟩) ?_
    rintro path _ (_ | resolved) <;> trivial
  · refine only_onePath (fun path _ => ⟨rfl,rfl⟩) ?_
    rintro path _ (errno | target) <;> trivial
  · refine only_twoPaths ?_
    intro src dst hboth
    exact ⟨⟨rfl,hboth⟩,fun _ => trivial⟩
  · exact only_onePath_of_rest (fun path _ => ⟨rfl,rfl⟩) fun _ _ _ => trivial
  · refine only_onePath (fun path _ => ⟨rfl,rfl⟩) ?_
    rintro path _ (_ | st) <;> trivial
  · exact only_dispatchCopy args
  · trivial

theorem cStr_eq_self (h : 0 ∉ p) : cStr p = p := by
  refine takeWhile_eq_self_iff.mpr ?_
  intro b hb
  exact decide_eq_true fun h0 => h (h0 ▸ hb)

theorem cStr_fullPath (h : 0 ∉ p) (name : Bytes) : cStr (fullPath p name) = fullPath p (cStr name) := by
  refine takeWhile_append_of_pos ?_
  intro b hb
  have hne : b ≠ 0 := by
    rintro rfl
    split_ifs at hb
    · exact h hb
    · simp [h] at hb
  exact decide_eq_true hne

theorem exact_of_makes (hg : ∀ p ∈ ps, ¬Bad p) {a : Sys β} (h : Makes op ps β a) : Exact op ps β a := by
  have hself {q : Bytes} (hq : ∃ p, ps = [p] ∧ q = cStr p) : ps = [q] := by
    obtain ⟨p,rfl,rfl⟩ := hq
    rw [cStr_eq_self fun hnul => hg p (mem_singleton_self p) (.inl hnul)]
  have hone {q : Bytes} (hq : ps = [q]) : ∀ r ∈ [q], ps = [r] := by simp [hq]
  cases a with
  | openFile q _ _ | stat q | opendir q => exact hone (hself h.2)
  | lstat q =>
    obtain ⟨_,hq⟩ | ⟨hop,dir,name,rfl,rfl⟩ := h
    · exact .inl (hself hq)
    · refine .inr ⟨hop,dir,_,rfl,cStr_fullPath ?_ name⟩
      intro hnul
      exact hg dir (mem_singleton_self dir) (.inl hnul)
  | mkdir q _ | unlink q | rmdir q | truncate q _ | realpath q | readlink q _ | utimes q _ _ | statvfs q =>
    exact hone h.2
  | rename _ _ | symlink _ _ | fsOpen _ _ | openat _ _ | fstatat _ _ | unlinkat _ _ => exact h.2
  | _ => exact forall_mem_nil _

/-- A bad path the source looks out for is refused. -/
theorem serve_refuses (hc : op ≠ 0x01 ∧ (op = 0x05 ∨ op = 0x06 ∨ op = 0x0F → p.length > MAX_PATH))
    (hp : p ∈ paths op args) (hbad : Bad p) : Refuses (serve errorText op args conn) := by
  have hraw {k : Bytes → Bytes → Prog Sys Bytes} (hop : op = 0x05 ∨ op = 0x06 ∨ op = 0x0F) (hp : p ∈ firstPath args) :
      Refuses (withPath args k) := by
    have hlong := hc.2 hop
    exact refuses_withPath hp fun hle => absurd hle (by omega)
  rw [serve]
  split <;> rename_i h
  · exact absurd (op_eq h) hc.1
  all_goals simp only [paths,h] at hp
  · cases hp
  · cases hp
  · cases hp
  · exact hraw (.inl (op_eq h)) hp
  · exact hraw (.inr (.inr (op_eq h))) hp
  · cases hp
  · exact hraw (.inr (.inl (op_eq h))) hp
  · exact refuses_onePath_of_rest hp hbad
  · exact refuses_onePath hp hbad
  · exact refuses_onePath hp hbad
  · exact refuses_twoPaths hp hbad
  · exact refuses_onePath_of_rest hp hbad
  · exact refuses_onePath hp hbad
  · exact refuses_onePath hp hbad
  · exact refuses_twoPaths hp hbad
  · exact refuses_onePath_of_rest hp hbad
  · exact refuses_onePath hp hbad
  · exact refuses_dispatchCopy hp hbad
  · cases hp

end

section

variable {errorText : ℕ → Bytes} {op : UInt8} {args q : Bytes} {conn : ℕ} {a : Sys β} {k : β → Prog Sys Bytes}

theorem not_guarded_of_call
    (h : serve errorText op args conn = .act a k) (hp : p ∈ paths op args) (hbad : Bad p) (hq : q ∈ a.paths) (hqp : q <+: p) :
    ¬Guarded errorText op args conn := by
  intro hg
  have honly := (hg.1 p hp hbad).1
  rw [dispatch,h] at honly
  exact honly.1 q hq hqp

/-- An open hands every path to the kernel, up to the first NUL. -/
theorem open_unguarded (hp : p ∈ paths 0x01 args) (hbad : Bad p) : ¬Guarded errorText 0x01 args conn := by
  have h : serve errorText 0x01 args conn = _ := congrArg (· >>= _) (handleOpen_of_path hp)
  exact not_guarded_of_call h hp hbad (mem_singleton_self _) (List.takeWhile_prefix _)

/-- So do the calls that take a path as it comes, if it is not too long. -/
theorem raw_unguarded (hop : op = 0x05 ∨ op = 0x06 ∨ op = 0x0F) (hp : p ∈ paths op args) (hbad : Bad p)
    (hle : p.length ≤ MAX_PATH) : ¬Guarded errorText op args conn := by
  have hcall {k : Bytes → Bytes → Prog Sys Bytes} (hfirst : p ∈ firstPath args) : ∃ rest, withPath args k = k p rest := by
    obtain ⟨rest,hrest⟩ := mem_firstPath.mp hfirst
    exact ⟨rest,(withPath_of_field hrest).trans (if_neg (by omega))⟩
  obtain rfl | rfl | rfl := hop
  · obtain ⟨rest,h⟩ := hcall hp
    exact not_guarded_of_call h hp hbad (mem_singleton_self _) (List.takeWhile_prefix _)
  · obtain ⟨rest,h⟩ := hcall hp
    exact not_guarded_of_call h hp hbad (mem_singleton_self _) (List.takeWhile_prefix _)
  · obtain ⟨rest,h⟩ := hcall hp
    exact not_guarded_of_call h hp hbad (mem_singleton_self _) (List.takeWhile_prefix _)

/-- The device keeps bad paths from the kernel and hands on the good ones exactly where the
source looks out for them. -/
theorem guarded_iff_checked (errorText : ℕ → Bytes) (op : UInt8) (args : Bytes) (conn : ℕ) :
    Guarded errorText op args conn ↔ Checked op args := by
  constructor
  · intro hg p hp hbad
    constructor
    · rintro rfl
      exact open_unguarded hp hbad hg
    · intro hop
      by_contra hle
      exact raw_unguarded hop hp hbad (by omega) hg
  · intro hc
    constructor
    · intro p hp hbad
      obtain ⟨msg,hserve⟩ : Refuses (serve errorText op args conn) := serve_refuses (hc p hp hbad) hp hbad
      rw [dispatch,hserve]
      exact ⟨trivial,fun reply hreply => ⟨msg,hreply⟩⟩
    · intro hgood
      refine only_bind ((serve_makes ..).mono ?_) fun _ => trivial
      intro β a ha
      exact exact_of_makes hgood ha

/-- Open and stat `/a\0b`: the kernel is asked for `/a`. -/
theorem nul_truncates_path : ¬Guarded (fun _ => []) 0x01 [1,0,0,0,0,0,0,0,4,0,0,0,47,97,0,98] 1 ∧
    ¬Guarded (fun _ => []) 0x05 [4,0,0,0,47,97,0,98] 1 := by
  refine ⟨open_unguarded (p := [47,97,0,98]) ?_ ?_,raw_unguarded (p := [47,97,0,98]) (.inl rfl) ?_ ?_ ?_⟩
  · decide
  · exact .inl (by decide)
  · decide
  · exact .inl (by decide)
  · decide

end

end AdbShare.ProxyDevice

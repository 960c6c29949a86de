import AdbShare.TreeWalk

/-! Deleting on the device. The path is checked in its normal form, without empty and `.`
components, but the recursion starts from the path as it was given: after a slash or `/.` at
the end a symbolic link is followed and what it leads to is emptied. A path that ends in a
name is safe on every file system. -/
namespace AdbShare.Delete

open Prog PathText Posix Posix.Graph TreeWalk Option

def DELETE_MAX_DEPTH : ℕ := 64

inductive Act : Type → Type
  | clientFor (device : String) : Act Bool
  | lstat (path : Bytes) : Act (Except ProxyError Stat)
  | listdir (path : Bytes) : Act (Except ProxyError (List DirEntry))
  | unlink (path : Bytes) : Act (Except ProxyError Unit)
  | rmdir (path : Bytes) : Act (Except ProxyError Unit)

/-- `?` in a loop: the first failure ends it. -/
def tryEach {α : Type} (f : α → Prog Act (Except String Unit)) : List α → Prog Act (Except String Unit)
  | [] => return .ok ()
  | x::xs => do
    match ← f x with
    | .error e => return .error e
    | .ok _ => tryEach f xs

/-- An action whose answer is the result. -/
def attempt (a : Act (Except ProxyError Unit)) : Prog Act (Except String Unit) := do
  match ← perform a with
  | .error e => return .error e.text
  | .ok _ => return .ok ()

def depthError (path : Bytes) : String :=
  "delete: recursion deeper than "++toString DELETE_MAX_DEPTH++" levels at '"++Utf8.toString path++"'"

/-- `delete_recursive`, with the number of levels left in place of the depth. -/
def deleteRecursive : ℕ → Bytes → Prog Act (Except String Unit)
  | 0, path => return .error (depthError path)
  | levels+1, path => do
    match ← perform (.lstat path) with
    | .error e => return .error e.text
    | .ok st =>
      if st.mode.isSymlink || !st.mode.isDir then attempt (.unlink path)
      else do
        match ← perform (.listdir path) with
        | .error e => return .error e.text
        | .ok entries => do
          match ← tryEach (fun entry => deleteRecursive levels (childPath path entry.name)) entries with
          | .error e => return .error e
          | .ok _ => attempt (.rmdir path)

/-- The components that `delete` looks at. -/
def normalized (path : Bytes) : List Bytes := (pieces path).filter fun c => decide (c ≠ [] ∧ c ≠ dot)

def accepted (path : Bytes) : Bool := !(normalized path).isEmpty && !(normalized path).contains dotdot

def delete (device : String) (path : Text) : Prog Act (Except BusError Unit) :=
  if accepted path.bytes then do
    if ← perform (.clientFor device) then do
      match ← deleteRecursive (DELETE_MAX_DEPTH+1) path.bytes with
      | .error e => return .error (.failed ("delete: "++e))
      | .ok _ => return .ok ()
    else return .error notConnected
  else return .error (.invalidArgs "refusing to delete the device root")

/-- The mode of a node. -/
def Shows (kind : Kind FileName) (mode : FileMode) : Prop :=
  (mode.isDir = true ↔ kind = .dir) ∧ (mode.isSymlink = true ↔ ∃ target, kind = .link target)

/-- What an action does on the device. Any of them may fail, and the answer to one that has
been carried out may be lost; a listing may leave out entries that could not be examined. Bus
strings and names hold no NUL. -/
def does : (β : Type) → Act β → Graph FileName → β → Graph FileName → Prop
  | _, .clientFor _, g, _, g' => g' = g
  | _, .lstat path, g, .ok st, g' => g' = g ∧ ∃ kind, g.lstat (parse path) = some kind ∧ Shows kind st.mode
  | _, .listdir path, g, .ok entries, g' => g' = g ∧ ∃ names, g.readdir (parse path) = some names ∧
      (entries.map DirEntry.name).Sublist (names.map fun e => e.1.lossy.bytes)
  | _, .lstat _, g, .error _, g' => g' = g
  | _, .listdir _, g, .error _, g' => g' = g
  | _, .unlink path, g, .ok _, g' => g.unlink (parse path) = some g'
  | _, .unlink path, g, .error _, g' => g' = g ∨ g.unlink (parse path) = some g'
  | _, .rmdir path, g, .ok _, g' => g.rmdir (parse path) = some g'
  | _, .rmdir path, g, .error _, g' => g' = g ∨ g.rmdir (parse path) = some g'

/-- One directory leads to another node by a name. -/
def Leads (g : Graph FileName) (d i : ℕ) : Prop := g.isDir d = true ∧ ∃ n, g.lookup d n = some i

/-- The entry is the one that leads to the spot, or in a directory below it. -/
def InSubtree (g : Graph FileName) (s : Spot FileName) (d : ℕ) (n : FileName) : Prop :=
  s.via = some (d,n) ∨ Relation.ReflTransGen (Leads g) s.node d ∧ g.isDir d = true

/-- The path after dropping empty and `.` components. -/
def named (path : Bytes) : List (Piece FileName) :=
  if isAbsolute path then .empty::essential (parse path) else essential (parse path)

/-- Entries are only removed, and only in the subtree that the path names; and when the call
succeeds the named object is gone. -/
structure Safe (path : Bytes) (g : Graph FileName) (reply : Except BusError Unit) (g' : Graph FileName) : Prop where
  removes : Part g' g
  inside : ∀ d n i, g.lookup d n = some i → g'.lookup d n = none →
    ∃ s, g.resolve false (named path) = some s ∧ InSubtree g s d n
  gone : reply = .ok () → g'.resolve false (named path) = none

/-- The path ends neither in a slash nor in `/.`. -/
def endsInName (path : Bytes) : Bool :=
  match (parse path).getLast? with
  | some (.name _) => true
  | _ => false

section

variable {g g' g'' g₀ : Graph FileName} {s t : Spot FileName} {d i levels : ℕ} {n : FileName} {path : Bytes}
  {r : Except String Unit} {reply : Except BusError Unit} {a : Act (Except ProxyError Unit)} {entries : List DirEntry}
  {device : String}

theorem Leads.mono (h : Part g' g) (hl : Leads g' d i) : Leads g d i := by
  obtain ⟨hdir,n,hn⟩ := hl
  exact ⟨(h.isDir_eq (lookup_lt hn).1).trans hdir,n,h.lookup_eq _ _ _ hn⟩

/-- What a call has taken away lies in the subtree of the path. -/
structure Took (path : Bytes) (g : Graph FileName) (g' : Graph FileName) : Prop where
  part : Part g' g
  inside : ∀ d n i, g.lookup d n = some i → g'.lookup d n = none →
    ∃ s, g.resolve false (parse path) = some s ∧ InSubtree g s d n

theorem Took.refl (path : Bytes) (g : Graph FileName) : Took path g g := by
  refine ⟨Part.refl g,?_⟩
  intro d n i hi hnone
  cases hi.symm.trans hnone

/-- The entry at the path is taken away. -/
def Removal (path : Bytes) (g g' : Graph FileName) : Prop :=
  ∃ i d n, g.resolve false (parse path) = some ⟨i,some (d,n)⟩ ∧ g' = g.remove d n

theorem Removal.took (h : Removal path g g') : Took path g g' := by
  obtain ⟨i,d,n,hr,rfl⟩ := h
  refine ⟨Part.remove g d n,?_⟩
  intro d' n' i hi hnone
  rw [lookup_remove] at hnone
  split at hnone
  · rename_i heq
    obtain ⟨rfl,rfl⟩ := heq
    exact ⟨_,hr,.inl rfl⟩
  · cases hi.symm.trans hnone

theorem removal_of_unlink (h : g.unlink (parse path) = some g') : Removal path g g' := by
  obtain ⟨i,d,n,hr,-,rfl⟩ := unlink_cases h
  exact ⟨i,d,n,hr,rfl⟩

theorem removal_of_rmdir (h : g.rmdir (parse path) = some g') : Removal path g g' := by
  obtain ⟨i,d,n,hr,-,rfl⟩ := rmdir_cases h
  exact ⟨i,d,n,hr,rfl⟩

/-- An action that takes the entry away when it succeeds and may do so when it fails. -/
def Removes (path : Bytes) (a : Act (Except ProxyError Unit)) : Prop :=
  ∀ g b g', does _ a g b g' → Removal path g g' ∨ g' = g ∧ ∃ e, b = .error e

theorem removes_unlink (path : Bytes) : Removes path (.unlink path) := by
  intro g b g' h
  cases b with
  | ok u => exact .inl (removal_of_unlink h)
  | error e => exact h.symm.imp removal_of_unlink fun h => ⟨h,e,rfl⟩

theorem removes_rmdir (path : Bytes) : Removes path (.rmdir path) := by
  intro g b g' h
  cases b with
  | ok u => exact .inl (removal_of_rmdir h)
  | error e => exact h.symm.imp removal_of_rmdir fun h => ⟨h,e,rfl⟩

theorem attempt_spec (ha : Removes path a)
    (h : (attempt a).Yields does g r g') : Took path g g' ∧ (r = .ok () → Removal path g g') := by
  rw [attempt,yields_perform_bind] at h
  obtain ⟨b,g₁,hb,h⟩ := h
  cases b with
  | error e =>
    obtain ⟨rfl,rfl⟩ := h
    refine ⟨?_,by simp⟩
    obtain hrem | ⟨rfl,-⟩ := ha g _ _ hb
    · exact hrem.took
    · exact Took.refl path _
  | ok u =>
    obtain ⟨rfl,rfl⟩ := h
    obtain hrem | ⟨-,e,he⟩ := ha g _ _ hb
    · exact ⟨hrem.took,fun _ => hrem⟩
    · cases he

theorem InSubtree.mono (h : Part g' g) (hd : d < g'.next) (hs : InSubtree g' s d n) : InSubtree g s d n := by
  obtain hvia | ⟨hreach,hdir⟩ := hs
  · exact .inl hvia
  · exact .inr ⟨Relation.ReflTransGen.mono (fun _ _ => Leads.mono h) _ _ hreach,(h.isDir_eq hd).trans hdir⟩

theorem Took.trans (h : Took path g g') (h' : Took path g' g'') : Took path g g'' := by
  refine ⟨h'.part.trans h.part,?_⟩
  intro d n i hi hnone
  cases hmid : g'.lookup d n with
  | none => exact h.inside d n i hi hmid
  | some j =>
    obtain ⟨s,hs,hin⟩ := h'.inside d n j hmid hnone
    exact ⟨s,h.part.resolve hs,hin.mono h.part (lookup_lt hmid).1⟩

/-- What has been taken away lies below a directory. -/
structure Emptied (s : Spot FileName) (g g' : Graph FileName) : Prop where
  part : Part g' g
  below : ∀ d n i, g.lookup d n = some i → g'.lookup d n = none →
    Relation.ReflTransGen (Leads g) s.node d ∧ g.isDir d = true

theorem Emptied.refl (s : Spot FileName) (g : Graph FileName) : Emptied s g g := by
  refine ⟨Part.refl g,?_⟩
  intro d n i hi hnone
  cases hi.symm.trans hnone

theorem Emptied.took (h : Emptied s g g') (hs : g.resolve false (parse path) = some s) : Took path g g' := by
  refine ⟨h.part,?_⟩
  intro d n i hi hnone
  exact ⟨s,hs,.inr (h.below d n i hi hnone)⟩

/-- A child of the directory at the path. -/
theorem Emptied.child (h : Emptied s g g') (hs : g.resolve false (parse path) = some s)
    (hdir : g.isDir s.node) (h' : Took (childPath path n.bytes) g' g'') : Emptied s g g'' := by
  refine ⟨h'.part.trans h.part,?_⟩
  intro d m i hi hnone
  cases hmid : g'.lookup d m with
  | none => exact h.below d m i hi hmid
  | some j =>
    obtain ⟨u,hu,hin⟩ := h'.inside d m j hmid hnone
    rw [childPath,parse_append_slash,parse_name,resolve_name (parse_ne_nil _)] at hu
    obtain ⟨t,ht,hu⟩ := bind_eq_some_iff.mp hu
    obtain ⟨k,hk⟩ := parse_trimEnd path
    rw [hk] at hs
    -- the directory is the same as when it was listed
    have hsame : s = t := some.inj ((resolve_of_slashes (parse_ne_nil _) hs hdir).symm.trans (h.part.resolve ht))
    subst hsame
    split_ifs at hu
    obtain ⟨i',hi',rfl⟩ := map_eq_some_iff.mp hu
    have hlead : Leads g s.node i' := ⟨hdir,n,h.part.lookup_eq _ _ _ hi'⟩
    obtain hvia | ⟨hreach,hddir⟩ := hin.mono h.part (lookup_lt hmid).1
    · obtain ⟨rfl,-⟩ := Prod.mk.inj (some.inj hvia)
      exact ⟨.refl,hdir⟩
    · exact ⟨.head hlead hreach,hddir⟩

/-- The object at the path is gone. -/
def Gone (path : Bytes) (g g' : Graph FileName) : Prop :=
  ∃ s d n, g.resolve false (parse path) = some s ∧ s.via = some (d,n) ∧ g'.lookup d n = none

theorem Removal.gone (h : Removal path g' g'') (hpart : Part g' g) : Gone path g g'' := by
  obtain ⟨i,d,n,hr,rfl⟩ := h
  exact ⟨_,d,n,hpart.resolve hr,rfl,by rw [lookup_remove,if_pos ⟨rfl,rfl⟩]⟩

/-- The loop over the entries of a directory. -/
theorem tryEach_spec (ih : ∀ {path g g' r}, (deleteRecursive levels path).Yields does g r g' → Took path g g')
    (hs : g₀.resolve false (parse path) = some s) (hdir : g₀.isDir s.node)
    (hnames : ∀ entry ∈ entries, ∃ n : FileName, entry.name = n.bytes) (hg : Emptied s g₀ g)
    (h : (tryEach (fun entry => deleteRecursive levels (childPath path entry.name)) entries).Yields does g r g') :
    Emptied s g₀ g' := by
  induction entries generalizing g with
  | nil =>
    obtain ⟨-,rfl⟩ := h
    exact hg
  | cons entry rest ihrest =>
    rw [List.forall_mem_cons] at hnames
    obtain ⟨⟨n,hn⟩,hrest⟩ := hnames
    rw [tryEach,yields_bind_iff] at h
    obtain ⟨b,g₁,hb,h⟩ := h
    rw [hn] at hb
    have hg₁ := hg.child hs hdir (ih hb)
    cases b with
    | error e =>
      obtain ⟨-,rfl⟩ := h
      exact hg₁
    | ok u => exact ihrest hrest hg₁ h

theorem deleteRecursive_spec (levels : ℕ)
    (h : (deleteRecursive levels path).Yields does g r g') : Took path g g' ∧ (r = .ok () → Gone path g g') := by
  induction levels generalizing path g g' r with
  | zero =>
    obtain ⟨rfl,rfl⟩ := h
    exact ⟨Took.refl path _,by simp⟩
  | succ levels ih =>
    rw [deleteRecursive,yields_perform_bind] at h
    obtain ⟨answer,g₁,hstat,h⟩ := h
    cases answer with
    | error e =>
      obtain rfl : g₁ = g := hstat
      obtain ⟨rfl,rfl⟩ := h
      exact ⟨Took.refl path _,by simp⟩
    | ok st =>
      obtain ⟨rfl,kind,hkind,hshows⟩ := hstat
      dsimp only at h
      split at h
      · obtain ⟨htook,hrem⟩ := attempt_spec (removes_unlink path) h
        exact ⟨htook,fun hr => (hrem hr).gone (Part.refl _)⟩
      rename_i hmode
      obtain ⟨s,hs,hskind⟩ := map_eq_some_iff.mp hkind
      have hdir : g₁.isDir s.node := by
        simp only [Bool.or_eq_true,Bool.not_eq_true',not_or,Bool.not_eq_true,Bool.not_eq_false] at hmode
        exact isDir_iff.mpr (hskind.trans (hshows.1.mp hmode.2))
      rw [yields_perform_bind] at h
      obtain ⟨listing,g₂,hlist,h⟩ := h
      cases listing with
      | error e =>
        obtain rfl : g₂ = g₁ := hlist
        obtain ⟨rfl,rfl⟩ := h
        exact ⟨Took.refl path _,by simp⟩
      | ok entries =>
        obtain ⟨rfl,names,-,hsub⟩ := hlist
        have hnames : ∀ entry ∈ entries, ∃ n : FileName, entry.name = n.bytes := by
          intro entry hentry
          obtain ⟨e,-,he⟩ := List.mem_map.mp (hsub.subset (List.mem_map_of_mem hentry))
          exact ⟨_,he.symm⟩
        dsimp only at h
        rw [yields_bind_iff] at h
        obtain ⟨b,g₃,hb,h⟩ := h
        have hempt := tryEach_spec (fun h => (ih h).1) hs hdir hnames (Emptied.refl s _) hb
        have htook := hempt.took hs
        cases b with
        | error e =>
          obtain ⟨rfl,rfl⟩ := h
          exact ⟨htook,by simp⟩
        | ok u =>
          obtain ⟨htook',hrem⟩ := attempt_spec (removes_rmdir path) h
          exact ⟨htook.trans htook',fun hr => (hrem hr).gone htook.part⟩

theorem essential_append (p q : List (Piece FileName)) : essential (p++q) = essential p++essential q :=
  List.filter_append p q

theorem essential_essential (p : List (Piece FileName)) : essential (essential p) = essential p := by
  simp [essential]

theorem resolve_named (h : endsInName path) : g.resolve false (named path) = g.resolve false (parse path) := by
  obtain ⟨init,c,hparse⟩ : ∃ init c, parse path = init++[Piece.name c] := by
    unfold endsInName at h
    split at h
    · rename_i c hlast
      obtain ⟨init,hinit⟩ := List.getLast?_eq_some_iff.mp hlast
      exact ⟨init,c,hinit⟩
    · cases h
  have hess : essential (parse path) = essential init++[Piece.name c] := by
    rw [hparse,essential_append]
    rfl
  unfold named
  cases path with
  | nil =>
    have hnil : parse [] = [Piece.empty] := rfl
    rw [hnil] at hparse
    cases init <;> simp at hparse
  | cons b bs =>
    by_cases hb : b = SLASH
    · have hslash : parse (b::bs) = .empty::parse bs := by
        rw [hb]
        rfl
      rw [if_pos (by simp [isAbsolute,hb]),hess]
      cases init with
      | nil =>
        rw [hslash] at hparse
        simp at hparse
      | cons x init =>
        obtain ⟨hx,-⟩ := List.cons.inj (hslash.symm.trans hparse)
        subst hx
        rw [hparse]
        show g.resolve false (.empty::(essential init++[Piece.name c])) = g.resolve false (.empty::(init++[Piece.name c]))
        exact resolve_essential.symm
    · have hhead : init.head? ≠ some .empty := by
        have hrel := parse_head_of_relative hb bs
        rw [hparse] at hrel
        intro hinit
        cases init <;> simp_all
      rw [if_neg (by simp [isAbsolute,hb]),hess,hparse]
      exact (resolve_essential_relative hhead).symm

theorem Took.safe (h : endsInName path) (htook : Took path g g')
    (hgone : reply = .ok () → Gone path g g') : Safe path g reply g' := by
  refine ⟨htook.part,?_,?_⟩
  · intro d n i hi hnone
    rw [resolve_named h]
    exact htook.inside d n i hi hnone
  · intro hr
    obtain ⟨s,d,n,hs,hvia,hnone⟩ := hgone hr
    rw [resolve_named h,eq_none_iff_forall_ne_some]
    intro t ht
    cases hs.symm.trans (htook.part.resolve ht)
    cases hnone.symm.trans (resolve_via ht hvia)

/-- On a path that ends in a name the call does what it says. -/
theorem delete_safe {path : Text} (hends : accepted path.bytes → endsInName path.bytes)
    (h : (delete device path).Yields does g reply g') : Safe path.bytes g reply g' := by
  unfold delete at h
  split at h
  · rename_i hacc
    have hname := hends hacc
    rw [yields_perform_bind] at h
    obtain ⟨connected,g₁,hconn,h⟩ := h
    obtain rfl : g₁ = g := hconn
    cases connected with
    | false =>
      obtain ⟨rfl,rfl⟩ := h
      exact (Took.refl _ _).safe hname (by simp)
    | true =>
      rw [if_pos rfl,yields_bind_iff] at h
      obtain ⟨r,g₂,hr,h⟩ := h
      obtain ⟨htook,hgone⟩ := deleteRecursive_spec _ hr
      cases r with
      | error e =>
        obtain ⟨rfl,rfl⟩ := h
        exact htook.safe hname (by simp)
      | ok u =>
        obtain ⟨rfl,rfl⟩ := h
        exact htook.safe hname fun _ => hgone rfl
  · obtain ⟨rfl,rfl⟩ := h
    refine ⟨Part.refl _,?_,by simp⟩
    intro d n i hi hnone
    cases hi.symm.trans hnone

end
end AdbShare.Delete

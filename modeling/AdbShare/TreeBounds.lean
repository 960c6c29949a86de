import AdbShare.TreeRun

/-! Where a pull of a tree writes. The names come from the device and are joined to the local
path as they are, so the call stays inside the directory it was given for exactly those
names that do not lead above the place they are joined to. -/
namespace AdbShare.TreeBounds

open Prog PathText TreeWalk

/-- What is made on the host lies inside the directory. -/
def Inside (base : Bytes) : (β : Type) → Act β → Prop
  | _, .createDirAll path => lexical base <+: lexical path
  | _, .submit job => lexical base <+: lexical job.destination
  | _, _ => True

/-- The names that the device lists are among those given; of the links nothing is asked. -/
def Listed (names : Set Bytes) : (β : Type) → Act β → β → Prop
  | _, .listdir _, .ok entries => ∀ entry ∈ entries, entry.stat.mode.isSymlink = false → entry.name ∈ names
  | _, _, _ => True

/-- Whatever the answers are, as long as the names are among those given, everything lies inside. -/
def Contained {ρ : Type} (names : Set Bytes) (base : Bytes) (post : ρ → Prop) (p : Prog Act ρ) : Prop :=
  p.Obeys (fun _ β a => Inside base β a) (fun (_ : Unit) β a b _ => Listed names β a b) (fun _ r => post r) ()

/-- The name leads to nothing above the place it is joined to. -/
def Descends (name : Bytes) : Prop := isAbsolute name = false ∧ staysBelow 0 (pieces name) = true

variable {names : Set Bytes} {name : Bytes} {localDir : Text}

section

variable {base p : Bytes} {device : String} {options : JobOptions} {x : Level} {stack : List Level} {ρ τ : Type}
  {post : τ → Prop} {a : Act ρ} {k : ρ → Prog Act τ}

theorem join_inside (hp : lexical base <+: lexical p) (hname : Descends name) : lexical base <+: lexical (join p name) := by
  rw [lexical_join hname.1]
  have hbelow : lexical p <+: (pieces name).foldl descend (lexical p++[]) :=
    foldl_descend_of_staysBelow (lexical p) hname.2
  rw [List.append_nil] at hbelow
  exact hp.trans hbelow

theorem contained_perform (ha : Inside base ρ a) (hk : ∀ b, Listed names ρ a b → Contained names base post (k b)) :
    Contained names base post (perform a >>= k) :=
  ⟨ha,fun b _ hb => hk b hb⟩

/-- What a round may leave: a stack of directories inside. -/
def Stacked (base : Bytes) : Except Reply (TreeEnqueueResult × List Level) → Prop
  | .error _ => True
  | .ok (_,stack) => ∀ y ∈ stack, lexical base <+: lexical y.target

section

variable (hnames : ∀ name ∈ names, Descends name) {entries : List DirEntry}
include hnames

theorem contained_pullEntries (hx : lexical base <+: lexical x.target)
    (hentries : ∀ entry ∈ entries, entry.stat.mode.isSymlink = false → entry.name ∈ names)
    (out : TreeEnqueueResult) (hstack : ∀ y ∈ stack, lexical base <+: lexical y.target) :
    Contained names base (Stacked base) (pullEntries device options x entries out stack) := by
  induction entries generalizing out stack with
  | nil => exact hstack
  | cons entry rest ih =>
    rw [List.forall_mem_cons] at hentries
    obtain ⟨hentry,hrest⟩ := hentries
    rw [pullEntries]
    cases treeFileCapError out.enqueued.length with
    | some e => trivial
    | none =>
      dsimp only
      split
      · exact ih hrest out hstack
      rename_i hlink
      have hjoin := join_inside hx (hnames _ (hentry (by simpa using hlink)))
      split
      · refine contained_perform hjoin ?_
        intro made _
        cases made with
        | error e => trivial
        | ok u => exact ih hrest out (List.forall_mem_cons.mpr ⟨hjoin,hstack⟩)
      · refine contained_perform hjoin ?_
        intro id _
        exact ih hrest _ hstack

theorem contained_visitPull (hx : lexical base <+: lexical x.target)
    (out : TreeEnqueueResult) (hstack : ∀ y ∈ stack, lexical base <+: lexical y.target) :
    Contained names base (Stacked base) (visitPull device options x out stack) := by
  unfold visitPull
  cases treeDepthError x.source x.depth with
  | some e => exact hstack
  | none =>
    refine contained_perform trivial ?_
    intro listing hlisted
    cases listing with
    | error e => trivial
    | ok entries => exact contained_pullEntries hnames hx hlisted out hstack

theorem contained_treeLoop (rounds : ℕ)
    (hstack : ∀ y ∈ stack, lexical base <+: lexical y.target) (out : TreeEnqueueResult) :
    Contained names base (fun _ => True) (treeLoop (visitPull device options) rounds stack out) := by
  induction rounds generalizing stack out with
  | zero => exact ⟨trivial,fun b => b.elim⟩
  | succ rounds ih =>
    cases stack with
    | nil => trivial
    | cons x rest =>
      rw [List.forall_mem_cons] at hstack
      refine (contained_visitPull hnames hstack.1 out hstack.2).bind ?_
      rintro ⟨⟩ result hresult
      cases result with
      | error reply => trivial
      | ok next => exact ih hresult next.1

end

end

/-- A regular file of that name. -/
def fileNamed (name : Bytes) : DirEntry := ⟨name,⟨.file,0,0,0,0,0,0,1,4096,0⟩⟩

theorem pullEntries_fileNamed (device : String) (options : JobOptions) (x : Level) (name : Bytes) :
    pullEntries device options x [fileNamed name] .empty [] =
      (perform (.submit (pullJob device options x (fileNamed name))) >>= fun id =>
        return .ok (TreeEnqueueResult.empty.queued id,[])) := by
  have hcap : treeFileCapError TreeEnqueueResult.empty.enqueued.length = none := by decide
  have hlink : ¬ (fileNamed name).stat.mode.isSymlink := by
    show ¬ FileMode.file.isSymlink
    decide
  have hdir : ¬ (fileNamed name).stat.mode.isDir := by
    show ¬ FileMode.file.isDir
    decide
  rw [pullEntries,hcap]
  rw [if_neg hlink,if_neg hdir]
  rfl

/-- The call for a directory when the device lists one file. -/
theorem inside_of_contained (hname : name ∈ names) (hlocal : checkTreePath localDir.bytes = .ok ())
    (h : Contained names localDir.bytes (fun _ => True)
      (enqueueTreePull 1 "serial" ⟨[47],by decide⟩ localDir "skip" false)) :
    lexical localDir.bytes <+: lexical (join localDir.bytes name) := by
  have hargs : checkArgs "skip" false [47] localDir.bytes = .ok ⟨.skipExisting,.off⟩ := by
    rw [checkArgs,hlocal]
    rfl
  have hlisted : Listed names _ (.listdir [47]) (.ok [fileNamed name]) := by
    intro entry hentry _
    rw [List.mem_singleton.mp hentry]
    exact hname
  rw [enqueueTreePull,hargs] at h
  have hconnected := (h.2 (.ok ()) () trivial).2 true () trivial
  have hsubmit : Contained names localDir.bytes (fun _ => True)
      (pullEntries "serial" ⟨.skipExisting,.off⟩ ⟨[47],localDir.bytes,0⟩ [fileNamed name] .empty [] >>= _) :=
    hconnected.2 (.ok [fileNamed name]) () hlisted
  rw [pullEntries_fileNamed] at hsubmit
  exact hsubmit.1

/-- A pull of a tree stays inside its local directory, for all directories and all the answers that
the device can give with certain names, exactly if none of the names leads upwards. -/
theorem pull_inside_iff (names : Set Bytes) : (∀ rounds device deviceDir localDir overwrite verify,
      Contained names localDir.bytes (fun _ => True)
        (enqueueTreePull rounds device deviceDir localDir overwrite verify)) ↔
      ∀ name ∈ names, Descends name := by
  constructor
  · intro h name hname
    have ha : [[97]] <+: lexical (join [47,97] name) :=
      inside_of_contained hname rfl (h 1 "serial" ⟨[47],by decide⟩ ⟨[47,97],by decide⟩ "skip" false)
    have hb : [[98]] <+: lexical (join [47,98] name) :=
      inside_of_contained hname rfl (h 1 "serial" ⟨[47],by decide⟩ ⟨[47,98],by decide⟩ "skip" false)
    by_contra hup
    have hsame : lexical (join [47,97] name) = lexical (join [47,98] name) := by
      cases habs : isAbsolute name with
      | true => simp [join,habs]
      | false =>
        have hclimb : staysBelow 0 (pieces name) = false := by
          by_contra hstays
          exact hup ⟨habs,by simpa using hstays⟩
        rw [lexical_join habs,lexical_join habs]
        exact foldl_descend_of_climb [97] [98] hclimb
    rw [hsame] at ha
    exact absurd (List.prefix_of_prefix_length_le ha hb le_rfl) (by decide)
  · intro hnames rounds device deviceDir localDir overwrite verify
    unfold enqueueTreePull
    cases checkArgs overwrite verify deviceDir.bytes localDir.bytes with
    | error e => trivial
    | ok options =>
      refine contained_perform (List.prefix_rfl) ?_
      intro made _
      cases made with
      | error e => trivial
      | ok u =>
        refine contained_perform trivial ?_
        intro connected _
        cases connected with
        | false => trivial
        | true => exact contained_treeLoop hnames rounds (by simp) .empty

/-- A device that lists the files `/e` and `../x`. -/
def hostileDevice : Env where
  connected := true
  readDir _ := .ok []
  createDirAll _ := .ok ()
  mkdir g _ := (.ok (),g)
  listdir _ := .ok [fileNamed [47,101],fileNamed [46,46,47,120]]
  id n := n+1

/-- Two jobs are queued that write to `/e` and to `/a/../x`, both outside `/a`. -/
theorem job_outside : ∃ out w,
    (enqueueTreePull 2 "serial" ⟨[47],by decide⟩ ⟨[47,97],by decide⟩ "skip" false).play (act hostileDevice)
        ⟨bareDevice,[]⟩ = some (.ok out,w) ∧
      w.queued.map (fun job => job.2.destination) = [[47,101],[47,97,47,46,46,47,120]] ∧
      ¬ lexical [47,97] <+: lexical [47,101] ∧ ¬ lexical [47,97] <+: lexical [47,97,47,46,46,47,120] :=
  ⟨_,_,rfl,rfl,by decide,by decide⟩

end AdbShare.TreeBounds

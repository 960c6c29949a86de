import AdbShare.InodeTable

/-! Lookup counts. The kernel counts the entries it was given for an inode and may use
the inode as long as the count is positive. -/
namespace AdbShare.LookupCount

open Filesystem Service Transition Prog Option InodeTable

variable {δ γ : Type} {i : ℕ} {β : Type} {S : Set ℕ} {a : Act β} {s s' : Fs δ} {x : Choice γ} {D : Device δ γ}
  {k : β → Prog Act Reply} {b : β}

/-- The mount as the kernel sees it: a reply that returns an entry adds one to the lookup
count of its inode, and a forget is sent with no more than the count. -/
structure Mount (δ : Type) where
  fs : Fs δ
  counts : ℕ → ℕ

/-- The inode a reply returns an entry for. -/
def entryIno : Reply → Option ℕ
  | .entry attr | .created attr _ => some attr.value.ino
  | _ => none

def kernel (D : Device δ γ) : Service Act (Mount δ) (Choice γ) Req Reply where
  run := fun a x m => (run D a x m.fs).map fun r => (r.1,{ m with fs := r.2 })
  handler := handler
  arrive := fun q m =>
    match q with
    | .forget ino nlookup =>
      if nlookup ≤ m.counts ino then
        some { m with counts := Function.update m.counts ino (m.counts ino-nlookup) }
      else none
    | _ => some m
  leave := fun _ r m =>
    match entryIno r with
    | some ino => { m with counts := Function.update m.counts ino (m.counts ino+1) }
    | none => m

def kernelStart (d : δ) : Config Act (Mount δ) Req Reply := ⟨⟨Fs.new d,fun _ => 0⟩,fun _ => none⟩

/-- The inode resolves to a path. -/
def Mapped (s : Fs δ) (ino : ℕ) : Prop := (s.inodes.inoToPath.lookup ino).isSome = true

/-- What `ino_for` makes sure of. -/
def maps : (β : Type) → Act β → β → Set ℕ
  | _, .reserveIno _, r => {i | r = (i,false)}
  | _, .storePath ino _, _ => {ino}
  | _, _, _ => ∅

/-- The program may return entries only for the given inodes and for those it gets from
`ino_for` itself. -/
def Within (S : Set ℕ) (p : Prog Act Reply) : Prop :=
  p.Relies (fun _ _ _ => True) (fun _ _ _ => ∅) maps (fun r => {i | entryIno r = some i}) S

theorem within_inoFor {path : Path} {f : ℕ → Prog Act Reply}
    (h : ∀ i T, S ⊆ T → i ∈ T → Within T (f i)) : Within S (inoFor path >>= f) := by
  rintro ⟨i,fresh⟩ -
  cases fresh with
  | false => exact h i _ (fun x hx => .inl ⟨hx,by simp⟩) (.inr rfl)
  | true =>
    rintro ⟨⟩ -
    exact h i _ (fun x hx => .inl ⟨.inl ⟨hx,by simp⟩,by simp⟩) (.inr rfl)

theorem within_ret {r : Reply} (h : entryIno r = none) : Within S (.ret r) := by
  simp [Within,h]

theorem within_bind {ρ : Type} {p : Prog Act ρ} {f : ρ → Prog Act Reply}
    (h : ∀ x, Within S (f x)) : Within S (p >>= f) := by
  induction p generalizing S with
  | ret x => exact h x
  | act a k ih => exact fun b _ => (ih b h).mono fun x hx => .inl ⟨hx,by simp⟩

theorem within_withPath {ino : ℕ} {body : Path → Path → Prog Act Reply}
    (h : ∀ path text, Within S (body path text)) : Within S (withPath ino body) := by
  refine within_bind fun path => ?_
  split
  · exact within_ret rfl
  · split
    · exact within_ret rfl
    · exact h _ _

theorem within_withChild {parent : ℕ} {name : Bytes}
    {body : ChildPath → Path → Prog Act Reply} (h : ∀ path text, Within S (body path text)) :
    Within S (withChild parent name body) := by
  refine within_bind fun path => ?_
  split
  · exact within_ret rfl
  · split
    · exact within_ret rfl
    · exact h _ _

/-- The entry returned is for the inode that `ino_for` gave. -/
theorem within_entry (hi : i ∈ S) (stat : Reading Stat) : Within S (.ret (.entry (stat.attr i))) := by
  intro j hj
  obtain rfl : j = i := by simpa [entryIno,Reading.attr,attrFromStat] using hj
  exact hi

theorem within_created (hi : i ∈ S) (stat : Reading Stat) (fh : ℕ) : Within S (.ret (.created (stat.attr i) fh)) := by
  intro j hj
  obtain rfl : j = i := by simpa [entryIno,Reading.attr,attrFromStat] using hj
  exact hi

theorem within_lookup (S : Set ℕ) (parent : ℕ) (name : Bytes) : Within S (lookup parent name) := by
  refine within_withChild fun path text => within_bind fun res => ?_
  split
  · exact within_bind fun _ => within_inoFor fun i T _ hi => within_entry hi _
  · exact within_ret rfl
  · exact within_ret rfl

theorem within_symlink (S : Set ℕ) (parent : ℕ) (linkName target : Bytes) :
    Within S (symlink parent linkName target) := by
  refine within_bind fun path => ?_
  split
  · exact within_ret rfl
  refine within_bind fun res => ?_
  split
  · exact within_ret rfl
  · exact within_bind fun _ => within_inoFor fun i T _ hi =>
      within_bind fun _ => within_bind fun _ => within_entry hi _

theorem within_create (S : Set ℕ) (parent : ℕ) (name : Bytes) (mode flags : UInt32) :
    Within S (create parent name mode flags) := by
  refine within_withChild fun path text => within_bind fun res => ?_
  split
  · exact within_ret rfl
  · exact within_bind fun _ => within_inoFor fun i T _ hi =>
      within_bind fun _ => within_bind fun _ => within_bind fun _ => within_created hi _ _

theorem within_mkdir (S : Set ℕ) (parent : ℕ) (name : Bytes) (mode : UInt32) : Within S (mkdir parent name mode) := by
  refine within_withChild fun path text => within_bind fun res => ?_
  split
  · exact within_ret rfl
  · exact within_inoFor fun i T _ hi =>
      within_bind fun _ => within_bind fun _ => within_bind fun _ => within_entry hi _

theorem within_getattr (S : Set ℕ) (ino : ℕ) (fh : Option ℕ) : Within S (getattr ino fh) := by
  refine within_bind fun path => ?_
  split
  · exact within_ret rfl
  refine within_bind fun file => ?_
  split
  · refine within_bind fun res => ?_
    split <;> exact within_ret rfl
  refine within_bind fun cached => ?_
  split
  · exact within_ret rfl
  split
  · exact within_ret rfl
  refine within_bind fun res => ?_
  split
  · exact within_bind fun _ => within_ret rfl
  · exact within_ret rfl

theorem within_addEntries (S : Set ℕ) (path : Path) (fresh : Bool) (fetched : Option ℕ)
    (es : List (DirEntry × ℕ)) (reply : ReplyDirectory) :
    Within S (addEntries path fresh fetched es reply) := by
  induction es generalizing reply with
  | nil => exact within_ret rfl
  | cons e es ih => exact within_bind fun _ => ih _

theorem within_readdir (S : Set ℕ) (ino offset : ℕ) (reply : ReplyDirectory) : Within S (readdir ino offset reply) := by
  refine within_withPath fun path text => within_bind fun cached => ?_
  split
  · exact within_addEntries _ _ _ _ _ _
  refine within_bind fun epoch => within_bind fun res => ?_
  split
  · exact within_bind fun _ => within_addEntries _ _ _ _ _ _
  · exact within_ret rfl

theorem within_rename (S : Set ℕ) (parent : ℕ) (name : Bytes) (newparent : ℕ) (newname : Bytes)
    (flags : UInt32) : Within S (rename parent name newparent newname flags) := by
  have hfrom : ∀ src dst srcText dstText, Within S (renameFrom src dst srcText dstText) := by
    intro src dst srcText dstText
    refine within_bind fun isDir => within_bind fun res => ?_
    split
    · exact within_ret rfl
    · exact within_bind fun _ => within_bind fun _ => within_ret rfl
  refine within_bind fun src => ?_
  split
  · exact within_ret rfl
  refine within_bind fun dst => ?_
  split
  · exact within_ret rfl
  split
  · unfold renameChecked
    split
    · exact within_ret rfl
    split
    · refine within_bind fun res => ?_
      split
      · exact within_ret rfl
      · exact hfrom _ _ _ _
      · exact within_ret rfl
    · exact hfrom _ _ _ _
  · exact within_ret rfl

theorem within_setattr (S : Set ℕ) (ino : ℕ) (others : Bool) (size : Option UInt64) (fh : Option ℕ) :
    Within S (setattr ino others size fh) := by
  have hrest : ∀ path text, Within S (setattrRest ino path text others fh) := by
    intro path text
    unfold setattrRest
    split
    · exact within_ret rfl
    refine within_bind fun file => within_bind fun res => ?_
    split
    · exact within_bind fun _ => within_ret rfl
    · exact within_ret rfl
  refine within_withPath fun path text => ?_
  split
  · exact hrest _ _
  refine within_bind fun res => ?_
  split
  · exact within_ret rfl
  · exact within_bind fun _ => hrest _ _

theorem within_openFile (S : Set ℕ) (ino : ℕ) (flags : UInt32) : Within S (openFile ino flags) := by
  have hfinish : ∀ res, Within S (finishOpen res) := by
    intro res
    unfold finishOpen
    split
    · exact within_bind fun _ => within_ret rfl
    · exact within_ret rfl
  refine within_withPath fun path text => within_bind fun res => ?_
  split
  · exact within_bind fun _ => within_bind fun _ => hfinish _
  · exact hfinish _

theorem within_write (S : Set ℕ) (ino fh : ℕ) (offset : UInt64) (data : Bytes) :
    Within S (write ino fh offset data) := by
  refine within_bind fun file => ?_
  split
  · exact within_ret rfl
  refine within_bind fun res => ?_
  split
  · exact within_ret rfl
  refine within_bind fun path => ?_
  split
  · exact within_bind fun _ => within_bind fun _ => within_ret rfl
  · exact within_ret rfl

/-- Every handler returns entries only for inodes it got from `ino_for`. -/
theorem within_handler (S : Set ℕ) (q : Req) : Within S (handler q) := by
  cases q with
  | lookup parent name => exact within_lookup S parent name
  | forget ino nlookup => exact within_bind fun _ => within_ret rfl
  | getattr ino fh => exact within_getattr S ino fh
  | readdir ino offset reply => exact within_readdir S ino offset reply
  | symlink parent linkName target => exact within_symlink S parent linkName target
  | readlink ino =>
    refine within_withPath fun path text => within_bind fun res => ?_
    split <;> exact within_ret rfl
  | openFile ino flags => exact within_openFile S ino flags
  | read fh offset size =>
    refine within_bind fun file => ?_
    split
    · exact within_ret rfl
    · refine within_bind fun res => ?_
      split <;> exact within_ret rfl
  | write ino fh offset data => exact within_write S ino fh offset data
  | release ino fh =>
    refine within_bind fun file => within_bind fun _ => within_bind fun path => ?_
    split
    · exact within_bind fun _ => within_ret rfl
    · exact within_ret rfl
  | create parent name mode flags => exact within_create S parent name mode flags
  | mkdir parent name mode => exact within_mkdir S parent name mode
  | unlink parent name =>
    refine within_withChild fun path text => within_bind fun res => ?_
    split
    · exact within_ret rfl
    · exact within_bind fun _ => within_bind fun _ => within_ret rfl
  | rmdir parent name =>
    refine within_withChild fun path text => within_bind fun res => ?_
    split
    · exact within_ret rfl
    · exact within_bind fun _ => within_bind fun _ => within_bind fun _ => within_ret rfl
  | rename parent name newparent newname flags => exact within_rename S parent name newparent newname flags
  | setattr ino others size fh => exact within_setattr S ino others size fh

/-- The inode whose mapping an action drops. -/
def dropped (s : Fs δ) : {β : Type} → Act β → Option ℕ
  | _, .forgetIno ino => if ino = ROOT then none else some ino
  | _, .renamePaths _ dst _ => s.inodes.pathToIno.lookup dst.1
  | _, _ => none

/-- An action drops only an inode that the kernel does not count and that no request is
about to return. -/
def Considerate (c : Config Act (Mount δ) Req Reply) (e : Event (Choice γ) Req) : Prop :=
  ∀ t x q (β : Type) (a : Act β) (k : β → Prog Act Reply), e = .act t x →
    c.threads t = some (q,.act a k) → Orderly β a c.shared.fs ∧
      ∀ i, dropped c.shared.fs a = some i → c.shared.counts i = 0 ∧
        ∀ t' q' p, c.threads t' = some (q',p) → Within {j | j ≠ i} p

/-- What is counted or about to be returned resolves. -/
structure Counted (c : Config Act (Mount δ) Req Reply) : Prop where
  table : (settled c.shared.fs).Ok
  counted : ∀ i, 0 < c.shared.counts i → Mapped c.shared.fs i
  returned : ∀ t q p, c.threads t = some (q,p) →
    ∃ S : Set ℕ, Within S p ∧ ∀ i ∈ S, Mapped c.shared.fs i

theorem mapped_iff {s : Fs δ} : Mapped s i ↔ ∃ p, s.inodes.inoToPath.lookup i = some p := isSome_iff_exists

/-- An action leaves every other inode mapped. -/
theorem atomically_keeps (D : Device δ γ) (x : γ) (a : Act β)
    (hs : (settled s).Ok) (h : atomically D x s a = some (b,s'))
    (hi : Mapped s i) (hd : dropped s a ≠ some i) : Mapped s' i := by
  obtain ⟨p,hp⟩ := mapped_iff.mp hi
  cases atomically_tabled h with
  | known hst hl => exact hi
  | reserved hst hl =>
    rw [reserve_new hl]
    exact hi
  | @stored ino path hst =>
    simp only [Mapped,Inodes.store,Dict.lookup_insert_if]
    by_cases hii : i = ino
    · simp [hii]
    · simp [hii,hp]
  | @forgot ino hst =>
    by_cases hr : ino = ROOT
    · simpa [Mapped,Inodes.forgetIno,hr] using hi
    have hne : i ≠ ino := fun he => hd (by simp [dropped,hr,he])
    simp only [Mapped,Inodes.forgetIno,hr,if_false]
    cases hino : s.inodes.inoToPath.lookup ino with
    | none => simp [hp]
    | some path => simp [hne,hp]
  | renamed hst => exact mapped_iff.mpr (Inodes.renamePaths_keeps (ok_of_settled hst hs) hp hd)
  | other ha hsame hst => rwa [Mapped,hsame]

theorem atomically_maps (D : Device δ γ) (x : γ) (a : Act β)
    (hs : (settled s).Ok) (h : atomically D x s a = some (b,s'))
    (hi : i ∈ maps β a b) : Mapped s' i := by
  cases atomically_tabled h with
  | @known path ino hst hl =>
    obtain rfl : i = ino := by simpa [maps] using hi
    exact mapped_iff.mpr ⟨path,((ok_of_settled hst hs).inverse path i).mpr hl⟩
  | reserved hst hl => simp [maps] at hi
  | @stored ino path hst =>
    obtain rfl : i = ino := hi
    simp [Mapped,Inodes.store]
  | other ha => cases a <;> first | exact absurd hi (Set.notMem_empty i) | cases ha
  | _ => exact absurd hi (Set.notMem_empty i)

theorem keep_within {p : Prog Act Reply} (hkeep : ∀ i, Mapped s i → dropped s a ≠ some i → Mapped s' i)
    (hdrop : ∀ i, dropped s a = some i → Within {j | j ≠ i} p) (hw : Within S p)
    (hS : ∀ i ∈ S, Mapped s i) : ∃ T : Set ℕ, Within T p ∧ ∀ i ∈ T, Mapped s' i := by
  cases hd : dropped s a with
  | none => exact ⟨S,hw,fun i hi => hkeep i (hS i hi) (by simp [hd])⟩
  | some j =>
    refine ⟨S ∩ {i | i ≠ j},hw.inter (hdrop j hd),fun i hi => hkeep i (hS i hi.1) ?_⟩
    rw [hd]
    exact fun he => hi.2 (some.inj he).symm

theorem arrive_counts {q : Req} {m m' : Mount δ}
    (h : (kernel D).arrive q m = some m') : m'.fs = m.fs ∧ ∀ i, m'.counts i ≤ m.counts i := by
  cases q with
  | forget ino nlookup =>
    simp only [kernel,ite_none_right_eq_some,some.injEq] at h
    obtain ⟨-,rfl⟩ := h
    refine ⟨rfl,fun i => ?_⟩
    by_cases hi : i = ino
    · subst hi
      simp
    · simp [hi]
  | _ =>
    cases h
    exact ⟨rfl,fun i => le_rfl⟩

theorem step_counted (D : Device δ γ) (c : Config Act (Mount δ) Req Reply) (e : Event (Choice γ) Req)
    (c' : Config Act (Mount δ) Req Reply) (hc : Counted c) (he : Considerate c e)
    (h : (kernel D).step c e = some c') : Counted c' := by
  cases step_steps h with
  | @start t q m hfree hm =>
    obtain ⟨hfs,hle⟩ := arrive_counts hm
    refine ⟨by rw [hfs]; exact hc.table,?_,?_⟩
    · intro i hi
      rw [hfs]
      exact hc.counted i (lt_of_lt_of_le hi (hle i))
    · rw [hfs]
      refine forall_threads_update (fun t' q' p' _ => hc.returned t' q' p') ?_
      intro q' p' hth
      cases hth
      exact ⟨∅,within_handler ∅ q,by simp⟩
  | @act t x q β a k b m ht hm =>
    obtain ⟨s',hrun,rfl⟩ : ∃ s', run D a x c.shared.fs = some (b,s') ∧ { c.shared with fs := s' } = m := by
      obtain ⟨⟨b',s'⟩,hr,he'⟩ := map_eq_some_iff.mp hm
      obtain ⟨rfl,rfl⟩ := Prod.mk.inj he'
      exact ⟨s',hr,rfl⟩
    obtain ⟨hord,hdrop⟩ := he t x q β a k rfl ht
    have hkeep : ∀ i, Mapped c.shared.fs i → dropped c.shared.fs a ≠ some i → Mapped s' i :=
      fun i hi hd => atomically_keeps D x.device a (s:={ c.shared.fs with now := c.shared.fs.now+x.elapsed }) hc.table
        hrun hi (by cases a <;> exact hd)
    refine ⟨run_ok D β a x _ b s' hc.table hord hrun,?_,?_⟩
    · intro i hi
      exact hkeep i (hc.counted i hi) fun hd => by simp [(hdrop i hd).1] at hi
    apply forall_threads_update
    · intro t' q' p' _ ht'
      obtain ⟨S,hw,hS⟩ := hc.returned t' q' p' ht'
      exact keep_within hkeep (fun i hi => (hdrop i hi).2 t' q' p' ht') hw hS
    · intro q' p' hth
      cases hth
      obtain ⟨S,hw,hS⟩ := hc.returned t q _ ht
      obtain ⟨T,hT,hmapped⟩ := keep_within hkeep (fun i hi => (hdrop i hi).2 t q _ ht) hw hS
      refine ⟨_,hT b trivial,?_⟩
      rintro i (hi | hi)
      · exact hmapped i hi.1
      · exact atomically_maps D x.device a (s:={ c.shared.fs with now := c.shared.fs.now+x.elapsed }) hc.table hrun hi
  | @reply t q r ht =>
    obtain ⟨S,hw,hS⟩ := hc.returned t q _ ht
    have hfs : ((kernel D).leave q r c.shared).fs = c.shared.fs := by
      unfold kernel
      dsimp only
      split <;> rfl
    refine ⟨by rw [hfs]; exact hc.table,?_,?_⟩
    · intro i hi
      rw [hfs]
      by_cases hr : entryIno r = some i
      · exact hS i (hw hr)
      refine hc.counted i ?_
      unfold kernel at hi
      dsimp only at hi
      split at hi
      · rename_i j hj
        have hne : i ≠ j := fun he => hr (he ▸ hj)
        simpa [hne] using hi
      · exact hi
    · rw [hfs]
      exact forall_threads_update (fun t' q' p' _ => hc.returned t' q' p') nofun

/-- An inode with a positive lookup count resolves in every run in which mappings are
dropped only when nothing counts or is about to return the inode. -/
theorem counted_inodes_resolve (D : Device δ γ) (d : δ) (es : List (Event (Choice γ) Req))
    (c : Config Act (Mount δ) Req Reply) (hm : Meets (kernel D).step Considerate (kernelStart d) es)
    (h : exec (kernel D).step (kernelStart d) es = some c) (i : ℕ) (hi : 0 < c.shared.counts i) :
    ∃ p, c.shared.fs.inodes.inoToPath.lookup i = some p := by
  have hstart : Counted (kernelStart d) := ⟨Inodes.init_ok,by simp [kernelStart],by simp [kernelStart]⟩
  have hc : Counted c := exec_invariant_of_meets (step_counted D) hstart hm h
  exact mapped_iff.mp (hc.counted i hi)

theorem considerate_start (c : Config Act (Mount δ) Req Reply) (t : ℕ) (q : Req) :
    Considerate c (.start t q : Event (Choice γ) Req) := by
  intro t' x' q' β' a' k' he
  cases he

theorem considerate_reply (c : Config Act (Mount δ) Req Reply) (t : ℕ) :
    Considerate c (.reply t : Event (Choice γ) Req) := by
  intro t' x' q' β' a' k' he
  cases he

theorem considerate_act {c : Config Act (Mount δ) Req Reply} {t : ℕ} {q : Req}
    (ht : c.threads t = some (q,.act a k)) (hord : Orderly β a c.shared.fs)
    (hdrop : ∀ i, dropped c.shared.fs a = some i → c.shared.counts i = 0 ∧
      ∀ t' q' p, c.threads t' = some (q',p) → Within {j | j ≠ i} p) :
    Considerate c (.act t x : Event (Choice γ) Req) := by
  intro t' x' q' β' a' k' he ht'
  cases he
  rw [ht] at ht'
  cases ht'
  exact ⟨hord,hdrop⟩

theorem considerate_forget {c : Config Act (Mount δ) Req Reply} {t : ℕ} {q : Req}
    {ino : ℕ} {k : Unit → Prog Act Reply} (ht : c.threads t = some (q,.act (.forgetIno ino) k))
    (hzero : c.shared.counts ino = 0) (hw : ∀ t' q' p, c.threads t' = some (q',p) → Within {j | j ≠ ino} p) :
    Considerate c (.act t x : Event (Choice γ) Req) := by
  refine considerate_act ht trivial fun i hi => ?_
  by_cases hr : ino = ROOT
  · simp [dropped,hr] at hi
  · obtain rfl : ino = i := by simpa [dropped,hr] using hi
    exact ⟨hzero,hw⟩

/-- A file is looked up, forgotten and looked up again. -/
def forgetBetween : List (Event (Choice Oracle) Req) :=
  serve (.lookup ROOT [97]) 5 (goesWell fileStat)++serve (.forget 100 1) 1 (goesWell fileStat)++
  serve (.lookup ROOT [97]) 5 (goesWell fileStat)

theorem forgetBetween_considerate : Meets (kernel oracle).step Considerate (kernelStart ()) forgetBetween := by
  have hkeep : ∀ {i : ℕ} {P : Prop}, (none : Option ℕ) = some i → P := fun h => by cases h
  refine meets_cons rfl (considerate_start _ _ _) ?_
  iterate 3 refine meets_cons rfl (considerate_act rfl trivial fun _ => hkeep) ?_
  refine meets_cons rfl (considerate_act rfl (fun _ => by decide) fun _ => hkeep) ?_
  refine meets_cons rfl (considerate_act rfl trivial fun _ => hkeep) ?_
  refine meets_cons rfl (considerate_reply _ _) ?_
  refine meets_cons rfl (considerate_start _ _ _) ?_
  refine meets_cons rfl (considerate_forget rfl rfl fun t q p ht => ?_) ?_
  · cases t with
    | zero =>
      cases ht
      exact within_bind fun _ => within_ret rfl
    | succ t => cases ht
  refine meets_cons rfl (considerate_reply _ _) ?_
  refine meets_cons rfl (considerate_start _ _ _) ?_
  iterate 3 refine meets_cons rfl (considerate_act rfl trivial fun _ => hkeep) ?_
  refine meets_cons rfl (considerate_act rfl (fun _ => by decide) fun _ => hkeep) ?_
  refine meets_cons rfl (considerate_act rfl trivial fun _ => hkeep) ?_
  refine meets_cons rfl (considerate_reply _ _) ?_
  trivial

theorem counted_inodes_resolve_again : ∃ c, exec (kernel oracle).step (kernelStart ()) forgetBetween = some c ∧
      c.shared.counts 101 = 1 ∧ ∃ p, c.shared.fs.inodes.inoToPath.lookup 101 = some p :=
  ⟨_,rfl,rfl,counted_inodes_resolve oracle () forgetBetween _ forgetBetween_considerate rfl 101 Nat.one_pos⟩

/-- A second lookup has its inode when the forget for the first one is handled. -/
def forgetAcross : List (Event (Choice Oracle) Req) :=
  serve (Req.lookup ROOT [97]) 5 (goesWell fileStat)++
  Event.start 1 (Req.lookup ROOT [97])::(List.replicate 4 (Event.act 1 (goesWell fileStat))++
    serve (Req.forget 100 1) 1 (goesWell fileStat)++[Event.reply 1])

theorem counted_inode_unresolved : ∃ c, exec (kernel oracle).step (kernelStart ()) forgetAcross = some c ∧
      c.shared.counts 100 = 1 ∧ c.shared.fs.inodes.inoToPath.lookup 100 = none :=
  ⟨_,rfl,rfl,by decide⟩

end AdbShare.LookupCount

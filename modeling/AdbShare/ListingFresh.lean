import AdbShare.Upkeep

/-! Freshness of the listing cache: a listing is stored only when nothing has been
invalidated since before it was fetched, so whatever it has missed somebody still has to
invalidate. -/
namespace AdbShare.ListingFresh

open Filesystem Service Transition Upkeep Matter UInt64 DirCache

/-- The listing an action stores, for which directory and under which epoch. -/
def stores : {β : Type} → Act β → Option (Path × Reading (List DirEntry) × UInt64)
  | _, .dirPut path entries epoch => some (path,entries,epoch)
  | _, _ => none

variable {β : Type} {a : Act β} {b : β} {p : Path} {f m n t : ℕ} {w w' : Watched Act (Fs ℕ) Req Reply Record}
  {e : Event (Choice Deed) Req} {r : Record}

section

variable {δ γ : Type} {D : Device δ γ} {x : γ} {s s' : Fs δ} {v : Reading (List DirEntry) × ℕ}

/-- Where an entry of the cache comes from. -/
theorem find_atomically (h : atomically D x s a = some (b,s')) (hv : s'.dirCache.find p = some v) :
    (s.dirCache.find p = some v ∧ .names p ∉ pays β a) ∨ stores a = some (p,v.1,s.dirCache.epoch) := by
  cases a with
  | reserveIno _ | storePath _ _ | forgetIno _ | renamePaths _ _ _ =>
    obtain ⟨_,_,rfl⟩ := atomically_table rfl h
    exact .inl ⟨hv,fun hm => hm⟩
  | dirGet path =>
    cases h
    exact .inl ⟨find_get hv,fun hm => hm⟩
  | dirPut path entries epoch =>
    cases h
    obtain ⟨rfl,rfl,rfl⟩ | hv := find_put hv
    · exact .inr rfl
    · exact .inl ⟨hv,fun hm => hm⟩
  | dirInvalidate path =>
    cases h
    rw [find_invalidate] at hv
    by_cases hp : p = path
    · simp [hp] at hv
    · refine .inl ⟨by simpa [hp] using hv,?_⟩
      intro hm
      exact hp (names.inj hm)
  | dirInvalidatePrefix base =>
    cases h
    rw [find_invalidatePrefix] at hv
    by_cases hp : p.startsWith base
    · simp [hp] at hv
    · refine .inl ⟨by simpa [hp] using hv,?_⟩
      intro hm
      exact hp (Path.startsWith_iff.mpr hm.2)
  | statPut path _ | statInvalidate path =>
    cases h
    refine .inl ⟨hv,?_⟩
    intro hm
    cases hm
  | statInvalidatePrefix base =>
    cases h
    refine .inl ⟨hv,?_⟩
    intro hm
    cases hm.1
  | _ =>
    cases h
    exact .inl ⟨hv,fun hm => hm⟩

theorem epoch_atomically (h : atomically D x s a = some (b,s')) :
    s'.dirCache.epoch = s.dirCache.epoch+UInt64.ofNat (bump a) := by
  have hzero : ∀ e : UInt64, e = e+UInt64.ofNat 0 := fun e => (UInt64.add_zero e).symm
  cases a with
  | reserveIno _ | storePath _ _ | forgetIno _ | renamePaths _ _ _ =>
    obtain ⟨_,_,rfl⟩ := atomically_table rfl h
    exact hzero _
  | dirGet path =>
    cases h
    exact (epoch_get _ _ _).trans (hzero _)
  | dirPut path entries epoch =>
    cases h
    exact (epoch_put _ _ _ _ _).trans (hzero _)
  | dirInvalidate path | dirInvalidatePrefix path =>
    cases h
    rfl
  | _ =>
    cases h
    exact hzero _

theorem names_not_paid (ha : bump a = 0) (p : Path) : .names p ∉ pays β a := by
  intro hm
  cases a with
  | dirInvalidate _ | dirInvalidatePrefix _ => cases ha
  | statPut _ _ | statInvalidate _ => cases hm
  | statInvalidatePrefix _ => cases hm.1
  | _ => exact hm

end

section

variable {x : Deed} {s s' : Fs ℕ} {ph : Phase}

section

variable (h : atomically stamped x s a = some (b,s')) {e : UInt64}
include h

/-- Changes bear the time of the request that makes them. -/
theorem device_atomically : s.device ≤ s'.device ∧ ∀ part q y m, changes part q y a m → s.device+1 ≤ s'.device := by
  have hsame : s'.device = s.device → (∀ part q y m, changes part q y a m = false) →
      s.device ≤ s'.device ∧ ∀ part q y m, changes part q y a m → s.device+1 ≤ s'.device := by
    intro hd hc
    refine ⟨hd.ge,?_⟩
    intro part q y m hm
    cases (hc part q y m).symm.trans hm
  cases a with
  | call c =>
    cases h
    exact ⟨Nat.le_succ _,fun _ _ _ _ _ => le_rfl⟩
  | reserveIno _ | storePath _ _ | forgetIno _ | renamePaths _ _ _ =>
    obtain ⟨_,_,rfl⟩ := atomically_table rfl h
    exact hsame rfl fun _ _ _ _ => rfl
  | _ =>
    cases h
    exact hsame rfl fun _ _ _ _ => rfl

theorem epoch_after (he : (ph.after β a b).epoch = some e) :
    readsEpoch a ∧ e = s.dirCache.epoch ∨ readsEpoch a = false ∧ ph.epoch = some e := by
  cases a with
  | dirEpoch =>
    obtain ⟨rfl,-⟩ := h
    exact .inl ⟨rfl,(Option.some.inj he).symm⟩
  | call c =>
    refine .inr ⟨rfl,?_⟩
    cases c with
    | listdir path => cases b <;> exact he
    | _ => exact he
  | _ => exact .inr ⟨rfl,he⟩

theorem listed_after (hl : (ph.after β a b).listed = some (p,some f)) :
    f = s'.device ∨ readsEpoch a = false ∧ ph.listed = some (p,some f) := by
  cases a with
  | dirEpoch => cases hl
  | call c =>
    cases c with
    | listdir path =>
      simp only [atomically,stamped,Option.some.injEq,Prod.mk.injEq] at h
      obtain ⟨hb,rfl⟩ := h
      cases b with
      | error e => exact .inr ⟨rfl,hl⟩
      | ok entries =>
        refine .inl ?_
        have hf : entries.fetched = some f := (Prod.mk.inj (Option.some.inj hl)).2
        cases ho : x.oracle.listing with
        | error e => simp [Oracle.answer,stampedAt,ho,Except.map] at hb
        | ok l =>
          simp only [Oracle.answer,stampedAt,ho,Except.map,Except.ok.injEq] at hb
          rw [← hb] at hf
          exact (Option.some.inj hf).symm
    | _ => exact .inr ⟨rfl,hl⟩
  | _ => exact .inr ⟨rfl,hl⟩

end

end

/-- When a listing is stored, the epoch has not come round to the same value again. -/
def InTime (r : Record) (t : ℕ) (β : Type) (a : Act β) : Prop :=
  (stores a).isSome → r.bumps < r.readAt t+2^64

structure Timely (w : Watched Act (Fs ℕ) Req Reply Record) : Prop where
  kept : Kept w
  upTo : w.notes.notes.UpTo w.config.shared.device
  epoch : w.config.shared.dirCache.epoch = UInt64.ofNat w.notes.bumps
  read_le : ∀ t, w.notes.readAt t ≤ w.notes.bumps
  read : ∀ t e, (w.notes.phases t).epoch = some e → e = UInt64.ofNat (w.notes.readAt t)
  /-- As long as nothing is invalidated, a listing that was fetched stays fresh. -/
  listed : ∀ t p f, (w.notes.phases t).listed = some (p,some f) → w.notes.readAt t = w.notes.bumps →
    w.notes.notes.Fresh (.names p) f
  fresh : ∀ p v f, w.config.shared.dirCache.find p = some v → v.1.fetched = some f →
    w.notes.notes.Fresh (.names p) f

theorem timely_opening : Timely opening where
  kept := kept_opening
  upTo := fun _ => ⟨le_rfl,fun _ => le_rfl⟩
  epoch := rfl
  read_le := fun _ => le_rfl
  read := by
    intro t e h
    cases h
  listed := by
    intro t p f h
    cases h
  fresh := by
    intro p v f h
    cases h

theorem ofNat_inj_of_lt (hle : n ≤ m) (hlt : m < n+2^64) (h : ofNat m = ofNat n) : n = m := by
  have hmod : m%2^64 = n%2^64 := by
    simpa using congrArg toNat h
  omega

section

variable {t' : ℕ} {x : Choice Deed} {q : Req} {k : β → Prog Act Reply} {s : Fs ℕ} {entries : Reading (List DirEntry)}

/-- The listing that is being stored is fresh if the epoch lets it in. -/
theorem Timely.stored (hw : Timely w) (ht : w.config.threads t = some (q,.act a k)) (hin : InTime w.notes t β a)
    (hst : stores a = some (p,entries,w.config.shared.dirCache.epoch)) (hf : entries.fetched = some f) :
    w.notes.notes.Fresh (.names p) f := by
  have hready : Ready (ledger w.notes t) β a := (hw.kept.busy t q _ ht).1
  cases a with
  | dirPut path l e =>
    cases hst
    have hphase : w.notes.phases t = ⟨some _,some (_,_)⟩ := hready
    have hread := hw.read t _ (by rw [hphase])
    rw [hw.epoch] at hread
    have hsame := ofNat_inj_of_lt (hw.read_le t) (hin rfl) hread
    exact hw.listed t p f (by rw [hphase,hf]) hsame
  | _ => cases hst

/-- The record after an action. -/
def noted (w : Watched Act (Fs ℕ) Req Reply Record) (t : ℕ) (q : Req) (x : Choice Deed) (a : Act β)
    (b : β) : Record :=
  (onlooker Matter.isNames).act t q β a x w.config.shared b w.notes

theorem readAt_noted (t' : ℕ) : (noted w t q x a b).readAt t' =
    if readsEpoch a ∧ t' = t then w.notes.bumps else w.notes.readAt t' := by
  by_cases ha : readsEpoch a <;> by_cases ht : t' = t <;> simp [noted,onlooker,ha,ht]

theorem phases_noted_of_ne (h : t' ≠ t) : (noted w t q x a b).phases t' = w.notes.phases t' := by
  simp [noted,onlooker,h]

theorem phases_noted_self : (noted w t q x a b).phases t = (w.notes.phases t).after β a b := by
  simp [noted,onlooker]

section

variable (hw : Timely w) {r : Reply}
include hw

section

variable (hr : run stamped a x w.config.shared = some (b,s))
include hr

theorem Timely.upTo_noted : (noted w t q x a b).notes.UpTo s.device := by
  have hd := device_atomically hr
  exact hw.upTo.act hd.1 fun m hm => hd.2 _ _ _ m hm

omit hr in
theorem Timely.readAt_noted_le (t' : ℕ) : (noted w t q x a b).readAt t' ≤ w.notes.bumps := by
  rw [readAt_noted]
  split
  · exact le_rfl
  · exact hw.read_le t'

theorem Timely.read_noted (t' : ℕ) (e : UInt64) (he : ((noted w t q x a b).phases t').epoch = some e) :
    e = ofNat ((noted w t q x a b).readAt t') := by
  rw [readAt_noted]
  by_cases htt : t' = t
  · subst htt
    rw [phases_noted_self] at he
    obtain ⟨ha,rfl⟩ | ⟨ha,he⟩ := epoch_after hr he
    · simpa [ha] using hw.epoch
    · simpa [ha] using hw.read t' e he
  · rw [phases_noted_of_ne htt] at he
    simpa [htt] using hw.read t' e he

theorem Timely.listed_noted (t' : ℕ) (p : Path) (f : ℕ) (hl : ((noted w t q x a b).phases t').listed = some (p,some f))
    (hsame : (noted w t q x a b).readAt t' = (noted w t q x a b).bumps) :
    (noted w t q x a b).notes.Fresh (.names p) f := by
  have hbump : bump a = 0 := by
    have hle := hw.readAt_noted_le (t:=t) (q:=q) (x:=x) (a:=a) (b:=b) t'
    rw [hsame] at hle
    exact Nat.le_zero.mp (Nat.le_of_add_le_add_left hle)
  have hold : (w.notes.phases t').listed = some (p,some f) → w.notes.readAt t' = w.notes.bumps →
      (noted w t q x a b).notes.Fresh (.names p) f := by
    intro hl hsame
    exact (hw.listed t' p f hl hsame).act (names_not_paid hbump p)
  have hbumps : (noted w t q x a b).bumps = w.notes.bumps := by
    show w.notes.bumps+bump a = w.notes.bumps
    rw [hbump,Nat.add_zero]
  rw [readAt_noted,hbumps] at hsame
  by_cases htt : t' = t
  · subst htt
    rw [phases_noted_self] at hl
    obtain rfl | ⟨ha,hl⟩ := listed_after hr hl
    · exact (hw.upTo_noted hr).fresh le_rfl
    · exact hold hl (by simpa [ha] using hsame)
  · rw [phases_noted_of_ne htt] at hl
    exact hold hl (by simpa [htt] using hsame)

end

theorem Timely.act (ht : w.config.threads t = some (q,.act a k))
    (hr : run stamped a x w.config.shared = some (b,s)) (hin : InTime w.notes t β a)
    (hkept : Kept ⟨⟨s,Function.update w.config.threads t (some (q,k b))⟩,noted w t q x a b⟩) :
    Timely ⟨⟨s,Function.update w.config.threads t (some (q,k b))⟩,noted w t q x a b⟩ where
  kept := hkept
  upTo := hw.upTo_noted hr
  epoch := by
    have he := epoch_atomically hr
    show s.dirCache.epoch = ofNat (w.notes.bumps+bump a)
    rw [ofNat_add,← hw.epoch]
    exact he
  read_le := fun t' => (hw.readAt_noted_le t').trans (Nat.le_add_right _ _)
  read := hw.read_noted hr
  listed := hw.listed_noted hr
  fresh := by
    intro p v f hv hf
    obtain ⟨hv,hpaid⟩ | hst := find_atomically hr hv
    · exact (hw.fresh p v f hv hf).act hpaid
    · have hnames : .names p ∉ pays β a := names_not_paid (by cases a <;> first | rfl | cases hst) p
      exact (hw.stored ht hin hst hf).act hnames

theorem Timely.reply (ht : w.config.threads t = some (q,.ret r))
    (hkept : Kept ⟨⟨w.config.shared,Function.update w.config.threads t none⟩, (onlooker isNames).reply t q r w.notes⟩) :
    Timely ⟨⟨w.config.shared,Function.update w.config.threads t none⟩, (onlooker isNames).reply t q r w.notes⟩ where
  kept := hkept
  upTo := hw.upTo.reply (due r)
  epoch := hw.epoch
  read_le := hw.read_le
  read := by
    intro t' e he
    by_cases htt : t' = t
    · subst htt
      simp [onlooker,noPhase] at he
    · exact hw.read t' e (by simpa [onlooker,htt] using he)
  listed := by
    intro t' p f hl hsame
    by_cases htt : t' = t
    · subst htt
      simp [onlooker,noPhase] at hl
    · exact (hw.listed t' p f (by simpa [onlooker,htt] using hl) hsame).reply fun hm => hw.kept.done ht hm
  fresh := by
    intro p v f hv hf
    exact (hw.fresh p v f hv hf).reply fun hm => hw.kept.done ht hm

end

end

theorem watch_timely (hw : Timely w) (he : Usual isNames InTime w e)
    (h : watch (service stamped) (onlooker isNames) w e = some w') : Timely w' := by
  have hs := watch_watches h
  have hkept := watches_kept hw.kept he hs
  cases hs with
  | start hfree ha =>
    cases ha
    exact ⟨hkept,hw.upTo,hw.epoch,hw.read_le,hw.read,hw.listed,hw.fresh⟩
  | @act t x q β a k b s ht hr => exact hw.act ht hr (he t x q β a k b s rfl ht hr).2 hkept
  | @reply t q r ht => exact hw.reply ht hkept

/-- In every run in which each request changes the names its handler is up to and the epoch
does not wrap round while a listing is fetched, whatever the listing cache answers for a
directory was fetched after every change of its names by a request that has succeeded. -/
theorem listing_cache_fresh (es : List (Event (Choice Deed) Req)) (w : Watched Act (Fs ℕ) Req Reply Record)
    (hm : Meets (watch (service stamped) (onlooker Matter.isNames)) (Usual Matter.isNames InTime) opening es)
    (h : exec (watch (service stamped) (onlooker Matter.isNames)) opening es = some w)
    (now : ℕ) (p : Path) (entries : Reading (List DirEntry)) (f : ℕ)
    (hget : (w.config.shared.dirCache.get now p).1 = some entries) (hf : entries.fetched = some f) :
    w.notes.notes.settled (.names p) ≤ f := by
  have hw : Timely w := exec_invariant_of_meets (fun _ _ _ => watch_timely) timely_opening hm h
  obtain ⟨_,hv⟩ := get_fst hget
  exact (hw.fresh p _ f hv hf).1

def page : ReplyDirectory := ⟨direntSize,4096,[]⟩

/-- `/d` is looked up, `/d/x` is created and `/d` is listed. -/
def listAfterCreate : List (Event (Choice Deed) Req) :=
  Event.start 0 (Req.lookup ROOT [100])::(List.replicate 5 (Event.act 0 (deed dirStat []))++
  Event.reply 0::Event.start 0 (Req.create 100 [120] 0 0)::
  (List.replicate 9 (Event.act 0 (deed fileStat [.names [[100]]]))++
  Event.reply 0::Event.start 0 (Req.readdir 100 0 page)::(List.replicate 5 (Event.act 0 (deed fileStat []))++[Event.reply 0])))

theorem stores_nothing (h : (stores a).isSome = false) : InTime r t β a := by
  intro hst
  cases h.symm.trans hst

theorem listAfterCreate_usual : Meets (watch (service stamped) (onlooker isNames))
    (Usual isNames InTime) opening listAfterCreate := by
  have hcreate : ∀ m ∈ [names [[100]]], m ∈ mayChange (.create 100 [120] 0 0) _
      (.call (.openFile [[100],[120]] (createFlags 0) 0)) (.ok 0) := by
    intro m hm
    obtain rfl := List.mem_singleton.mp hm
    exact .inr rfl
  refine meets_cons rfl usual_start ?_
  iterate 5 refine meets_cons rfl (usual_plain rfl rfl trivial (fun _ => rfl) (stores_nothing rfl)) ?_
  refine meets_cons rfl usual_reply ?_
  refine meets_cons rfl usual_start ?_
  refine meets_cons rfl (usual_plain rfl rfl trivial (fun _ => rfl) (stores_nothing rfl)) ?_
  refine meets_cons rfl (usual_change rfl rfl trivial hcreate (stores_nothing rfl)) ?_
  iterate 7 refine meets_cons rfl (usual_plain rfl rfl trivial (fun _ => rfl) (stores_nothing rfl)) ?_
  refine meets_cons rfl usual_reply ?_
  refine meets_cons rfl usual_start ?_
  iterate 4 refine meets_cons rfl (usual_plain rfl rfl trivial (fun _ => rfl) (stores_nothing rfl)) ?_
  refine meets_cons rfl (usual_plain rfl rfl trivial (fun _ => rfl) fun _ => by decide) ?_
  refine meets_cons rfl usual_reply ?_
  trivial

theorem listing_cache_fresh_created :
    ∃ w, exec (watch (service stamped) (onlooker Matter.isNames)) opening listAfterCreate = some w ∧
      (w.config.shared.dirCache.get 0 [[100]]).1 = some ⟨[],some 4⟩ ∧
      w.notes.notes.settled (.names [[100]]) = 2 ∧ w.notes.notes.settled (.names [[100]]) ≤ 4 :=
  ⟨_,rfl,rfl,rfl,listing_cache_fresh listAfterCreate _ listAfterCreate_usual rfl 0 [[100]] ⟨[],some 4⟩ 4 rfl rfl⟩

/-- A step some time later, on which listings have the name `x` and stats go well or not. -/
def later (elapsed : ℕ) (goes : Bool) (changed : List Matter) : Choice Deed :=
  ⟨elapsed,
    { oracle := { (goesWell dirStat).device with
        stat := if goes then .ok ⟨dirStat,none⟩ else .error (.status .notFound [])
        listing := .ok ⟨[⟨[120],fileStat⟩],none⟩ }
      changed := fun m => changed.contains m }⟩

/-- `/d` is looked up and, a second later, listed; after another second it is renamed to `/e`,
where the probe of the source fails, and a new `/d` is made. -/
def renameUnprobed : List (Event (Choice Deed) Req) :=
  Event.start 0 (Req.lookup ROOT [100])::(List.replicate 5 (Event.act 0 (later 0 true []))++
  Event.reply 0::Event.start 0 (Req.readdir 100 0 page)::Event.act 0 (later 1000 true [])::
  (List.replicate 7 (Event.act 0 (later 0 true []))++
  Event.reply 0::Event.start 0 (Req.rename ROOT [100] ROOT [101] 0)::Event.act 0 (later 1000 true [])::
  (List.replicate 3 (Event.act 0 (later 0 false []))++
  List.replicate 8 (Event.act 0 (later 0 true [.names [],.names [[100]],.names [[101]]]))++
  Event.reply 0::Event.start 0 (Req.mkdir ROOT [100] 0)::
  (List.replicate 8 (Event.act 0 (later 0 true [.names []]))++[Event.reply 0]))))

def readdirAgain : List (Event (Choice Deed) Req) :=
  .start 0 (.readdir 102 0 page)::List.replicate 3 (.act 0 (later 0 true []))

/-- The rename has succeeded when the `readdir` of the new, empty directory starts, and yet it
is served the listing of the old one. -/
theorem readdir_after_rename_stale :
    ∃ w c r l, exec (watch (service stamped) (onlooker Matter.isNames)) opening renameUnprobed = some w ∧
      w.notes.notes.settled (.names [[100]]) = 4 ∧
      (w.config.shared.dirCache.get 2000 [[100]]).1 = some l ∧ l.fetched = some 2 ∧
      exec (service stamped).step w.config readdirAgain = some c ∧
      c.threads 0 = some (.readdir 102 0 page,.ret (.directory r)) ∧
      r.entries.map Dirent.name = [DOT,DOT_DOT,[120]] :=
  ⟨_,_,_,_,rfl,rfl,rfl,rfl,rfl,rfl,rfl⟩

end AdbShare.ListingFresh

import AdbShare.Upkeep

/-! Freshness of the stat cache: what it has for a path against the changes that requests
have made to the path's attributes. -/
namespace AdbShare.StatFresh

open Filesystem Service Transition Upkeep Matter

/-- The stat an action stores, and for which path. -/
def stores : {β : Type} → Act β → Option (Path × Reading Stat)
  | _, .statPut path stat => some (path,stat)
  | _, _ => none

variable {β δ γ : Type} {a : Act β} {D : Device δ γ} {s s' : Fs δ} {b : β} {p : Path} {v : Reading Stat × ℕ}
  {part : Matter → Bool} {q : Req} {x : Choice Deed} {w w' : Watched Act (Fs ℕ) Req Reply Record}
  {e : Event (Choice Deed) Req} {r : Record} {t f : ℕ} {stat : Reading Stat}

/-- Where an entry of the cache comes from. -/
theorem find_atomically {x : γ} (h : atomically D x s a = some (b,s')) (hv : s'.cache.find p = some v) :
    (s.cache.find p = some v ∧ .attrs p ∉ pays β a) ∨ stores a = some (p,v.1) := by
  cases a with
  | reserveIno _ | storePath _ _ | forgetIno _ | renamePaths _ _ _ =>
    obtain ⟨_,_,rfl⟩ := atomically_table rfl h
    exact .inl ⟨hv,fun hm => hm⟩
  | statGet path =>
    cases h
    exact .inl ⟨StatCache.find_get hv,fun hm => hm⟩
  | statPut path stat =>
    cases h
    obtain ⟨rfl,rfl⟩ | ⟨hne,hv⟩ := StatCache.find_put hv
    · exact .inr rfl
    · refine .inl ⟨hv,?_⟩
      intro hm
      exact hne (attrs.inj hm)
  | statInvalidate path =>
    cases h
    rw [StatCache.find_invalidate] at hv
    by_cases hp : p = path
    · simp [hp] at hv
    · refine .inl ⟨by simpa [hp] using hv,?_⟩
      intro hm
      exact hp (attrs.inj hm)
  | statInvalidatePrefix base =>
    cases h
    rw [StatCache.find_invalidatePrefix] at hv
    by_cases hp : p.startsWith base
    · simp [hp] at hv
    · refine .inl ⟨by simpa [hp] using hv,?_⟩
      intro hm
      exact hp (Path.startsWith_iff.mpr hm.2)
  | dirInvalidate path =>
    cases h
    refine .inl ⟨hv,?_⟩
    intro hm
    cases hm
  | dirInvalidatePrefix base =>
    cases h
    refine .inl ⟨hv,?_⟩
    intro hm
    cases hm.1
  | _ =>
    cases h
    exact .inl ⟨hv,fun hm => hm⟩

/-- A stat is stored only if no request has changed the path since it was fetched, other
requests that still have to invalidate it apart. -/
def PutsCurrent (r : Record) (t : ℕ) (β : Type) (a : Act β) : Prop :=
  ∀ p stat f, stores a = some (p,stat) → stat.fetched = some f → r.notes.settled (.attrs p) ≤ f ∧
    ∀ t', r.notes.made t' (.attrs p) ≤ f ∨ t' ≠ t ∧ .attrs p ∈ r.notes.owes t'

structure Current (w : Watched Act (Fs ℕ) Req Reply Record) : Prop where
  kept : Kept w
  fresh : ∀ p v f, w.config.shared.cache.find p = some v → v.1.fetched = some f →
    w.notes.notes.Fresh (.attrs p) f

theorem stores_changes {e : Path × Reading Stat} (h : stores a = some e) (m : Matter) : changes part q x a m = false := by
  cases a with
  | statPut path stat => rfl
  | _ => cases h

theorem watch_current (hw : Current w) (he : Usual isAttrs PutsCurrent w e)
    (h : watch (service stamped) (onlooker isAttrs) w e = some w') : Current w' := by
  have hs := watch_watches h
  refine ⟨watches_kept hw.kept he hs,?_⟩
  intro p v f hv hf
  cases hs with
  | start hfree ha =>
    cases ha
    exact hw.fresh p v f hv hf
  | @act t x q β a k b s ht hr =>
    obtain ⟨hv,hpaid⟩ | hst := find_atomically hr hv
    · exact (hw.fresh p v f hv hf).act hpaid
    · obtain ⟨hsettled,hmade⟩ := (he t x q β a k b s rfl ht hr).2 p v.1 f hst hf
      exact Notes.fresh_act_of_current hsettled hmade (stores_changes hst _)
  | @reply t q r ht => exact (hw.fresh p v f hv hf).reply fun hm => hw.kept.done ht hm

/-- In every run in which each request changes what its handler is up to and stats are
stored in time, whatever the stat cache answers for a path was fetched after every change of
the path's attributes by a request that has replied. -/
theorem stat_cache_fresh (es : List (Event (Choice Deed) Req)) (w : Watched Act (Fs ℕ) Req Reply Record)
    (hm : Meets (watch (service stamped) (onlooker Matter.isAttrs)) (Usual Matter.isAttrs PutsCurrent) opening es)
    (h : exec (watch (service stamped) (onlooker Matter.isAttrs)) opening es = some w)
    (now : ℕ) (p : Path) (stat : Reading Stat) (f : ℕ)
    (hget : (w.config.shared.cache.get now p).1 = some stat) (hf : stat.fetched = some f) :
    w.notes.notes.settled (.attrs p) ≤ f := by
  have hw : Current w := exec_invariant_of_meets (fun _ _ _ => watch_current) ⟨kept_opening,nofun⟩ hm h
  obtain ⟨at',hv⟩ := StatCache.get_fst hget
  exact (hw.fresh p (stat,at') f hv hf).1

/-- `/a` is looked up and then truncated. -/
def truncateFile : List (Event (Choice Deed) Req) :=
  Event.start 0 (Req.lookup ROOT [97])::(List.replicate 5 (Event.act 0 (deed fileStat []))++
  Event.reply 0::Event.start 0 (Req.setattr 100 false (some 5) none)::
  (List.replicate 6 (Event.act 0 (deed fileStat [.attrs [[97]]]))++[Event.reply 0]))

theorem puts_current (hf : stat.fetched = some f) (hs : r.notes.settled (.attrs p) ≤ f)
    (hm : ∀ t', r.notes.made t' (.attrs p) ≤ f) : PutsCurrent r t _ (.statPut p stat) := by
  intro p' stat' f' hst hf'
  cases hst
  cases hf.symm.trans hf'
  exact ⟨hs,fun t' => .inl (hm t')⟩

theorem puts_nothing (h : stores a = none) : PutsCurrent r t β a := by
  intro p stat f hst
  cases h.symm.trans hst

theorem truncateFile_usual : Meets (watch (service stamped) (onlooker isAttrs))
    (Usual isAttrs PutsCurrent) opening truncateFile := by
  have htruncate : ∀ m ∈ [attrs [[97]]], m ∈ mayChange (.setattr 100 false (some 5) none) _
      (.call (.truncate [[97]] 5)) (.ok ()) := by
    intro m hm
    exact .inl (List.mem_singleton.mp hm)
  refine meets_cons rfl usual_start ?_
  iterate 2 refine meets_cons rfl (usual_plain rfl rfl trivial (fun _ => rfl) (puts_nothing rfl)) ?_
  refine meets_cons rfl (usual_plain rfl rfl trivial (fun _ => rfl) (puts_current rfl (Nat.zero_le _) ?_)) ?_
  · rintro (_ | t') <;> exact Nat.zero_le _
  iterate 2 refine meets_cons rfl (usual_plain rfl rfl trivial (fun _ => rfl) (puts_nothing rfl)) ?_
  refine meets_cons rfl usual_reply ?_
  refine meets_cons rfl usual_start ?_
  refine meets_cons rfl (usual_plain rfl rfl trivial (fun _ => rfl) (puts_nothing rfl)) ?_
  refine meets_cons rfl (usual_change rfl rfl trivial htruncate (puts_nothing rfl)) ?_
  iterate 3 refine meets_cons rfl (usual_plain rfl rfl trivial (fun _ => rfl) (puts_nothing rfl)) ?_
  refine meets_cons rfl (usual_plain rfl rfl trivial (fun _ => rfl) (puts_current rfl (Nat.zero_le _) ?_)) ?_
  · rintro (_ | t')
    · exact Nat.le_succ 2
    · exact Nat.zero_le _
  refine meets_cons rfl usual_reply ?_
  trivial

theorem stat_cache_fresh_truncated :
    ∃ w, exec (watch (service stamped) (onlooker Matter.isAttrs)) opening truncateFile = some w ∧
      (w.config.shared.cache.get 0 [[97]]).1 = some ⟨fileStat,some 3⟩ ∧
      w.notes.notes.settled (.attrs [[97]]) = 2 ∧ w.notes.notes.settled (.attrs [[97]]) ≤ 3 :=
  ⟨_,rfl,rfl,rfl,stat_cache_fresh truncateFile _ truncateFile_usual rfl 0 [[97]] ⟨fileStat,some 3⟩ 3 rfl rfl⟩

/-- The stat of `/a` is fetched for a lookup; before it is stored, `/a` is unlinked. -/
def unlinkInBetween : List (Event (Choice Deed) Req) :=
  Event.start 0 (Req.lookup ROOT [97])::(List.replicate 2 (Event.act 0 (deed fileStat []))++
  Event.start 1 (Req.unlink ROOT [97])::(List.replicate 5 (Event.act 1 (deed fileStat [.attrs [[97]]]))++
  Event.reply 1::(List.replicate 3 (Event.act 0 (deed fileStat []))++[Event.reply 0])))

def getattrAfter : List (Event (Choice Deed) Req) :=
  .start 2 (.getattr 100 none)::List.replicate 2 (.act 2 (deed fileStat []))

/-- The unlink has replied when the `getattr` starts, and yet it answers with the stat from
before the unlink. -/
theorem getattr_after_unlink_stale :
    ∃ w w' attr, exec (watch (service stamped) (onlooker Matter.isAttrs)) opening unlinkInBetween = some w ∧
      w.notes.notes.settled (.attrs [[97]]) = 2 ∧
      exec (service stamped).step w.config getattrAfter = some w' ∧
      w'.threads 2 = some (.getattr 100 none,.ret (.attr attr)) ∧ attr.fetched = some 1 :=
  ⟨_,_,_,rfl,rfl,rfl,rfl,rfl⟩

end AdbShare.StatFresh

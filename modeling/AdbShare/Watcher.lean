import AdbShare.Transition
import Mathlib.Data.Finset.Basic

/-! Subscribers to one device watcher. A poll compares the list it fetches with the one the
previous poll left behind, whoever made it, and sends the differences. -/
namespace AdbShare.Watcher

open Transition List

abbrev DeviceId := String

inductive DeviceState
  | online
  | offline
  | unauthorized
  | recovery
  | sideload
  | bootloader
  | unknown
  deriving DecidableEq

structure DeviceInfo where
  id : DeviceId
  state : DeviceState
  deriving DecidableEq

inductive WatchEvent
  | added (id : DeviceId)
  | removed (id : DeviceId)
  | changed (id : DeviceId)
  deriving DecidableEq

def ids (l : List DeviceInfo) : List DeviceId := l.map DeviceInfo.id

/-- What a poll tells of a device it finds. -/
def tell (differs : DeviceState → DeviceState → Bool) (prev : List DeviceInfo) (d : DeviceInfo) : Option WatchEvent :=
  if d.id ∉ ids prev then some (.added d.id)
  else if ((prev.find? fun p => p.id == d.id).map fun p => differs p.state d.state).getD false then some (.changed d.id)
  else none

def gone (current prev : List DeviceInfo) : List WatchEvent :=
  (prev.filter fun p => decide (p.id ∉ ids current)).map fun p => .removed p.id

def diff (differs : DeviceState → DeviceState → Bool) (prev current : List DeviceInfo) : List WatchEvent :=
  current.filterMap (tell differs prev)++gone current prev

/-- `NetstatWatcher` and `UsbWatcher`. -/
inductive Impl
  | netstat
  | usb

/-- `UsbWatcher` never looks at the state. -/
def Impl.differs : Impl → DeviceState → DeviceState → Bool
  | .netstat, a, b => a != b
  | .usb, _, _ => false

/-- `UsbWatcher` takes every device for an online one. -/
def Impl.list : Impl → List DeviceInfo → List DeviceInfo
  | .netstat, l => l
  | .usb, l => l.map fun d => ⟨d.id,.online⟩

inductive Phase
  | ready
  | sending (events : List WatchEvent)

/-- A poll: the list the subscriber fetched before, the one it fetched now, and what it was told. -/
structure Report where
  prev : List DeviceInfo
  current : List DeviceInfo
  events : List WatchEvent

/-- A subscriber's thread and its channel. What it has fetched so far is kept for the record. -/
structure Subscriber where
  phase : Phase
  isOpen : Bool
  received : List WatchEvent
  seen : List DeviceInfo
  reports : List Report

structure State where
  last : List DeviceInfo
  subs : ℕ → Option Subscriber

inductive Label
  | subscribe (i : ℕ)
  | poll (i : ℕ) (fetched : Except String (List DeviceInfo))
  | send (i : ℕ)
  | wake (i : ℕ)
  | drop (i : ℕ)
  | leave (i : ℕ)

def State.set (s : State) (i : ℕ) (sub : Option Subscriber) : State := { s with subs := Function.update s.subs i sub }

/-- `poll` under the lock. -/
def poll (impl : Impl) (s : State) (i : ℕ) (sub : Subscriber) : Except String (List DeviceInfo) → State
  | .error _ => s.set i (some { sub with phase := .sending [] })
  | .ok fetched =>
    let current := impl.list fetched
    let events := diff impl.differs s.last current
    { s.set i (some { sub with
        phase := .sending events
        seen := current
        reports := sub.reports++[⟨sub.seen,current,events⟩] }) with last := current }

def step (impl : Impl) (s : State) : Label → Option State
  | .subscribe i =>
    match s.subs i with
    | none => some (s.set i (some ⟨.ready,true,[],[],[]⟩))
    | some _ => none
  | .poll i fetched =>
    match s.subs i with
    | some sub =>
      match sub.phase with
      | .ready => some (poll impl s i sub fetched)
      | .sending _ => none
    | none => none
  | .send i =>
    match s.subs i with
    | some sub =>
      match sub.phase with
      | .sending (e::es) =>
        if sub.isOpen then some (s.set i (some { sub with phase := .sending es, received := sub.received++[e] }))
        else some (s.set i none)
      | _ => none
    | none => none
  | .wake i =>
    match s.subs i with
    | some sub =>
      match sub.phase with
      | .sending [] => some (s.set i (some { sub with phase := .ready }))
      | _ => none
    | none => none
  | .drop i => (s.subs i).map fun sub => s.set i (some { sub with isOpen := false })
  | .leave i =>
    match s.subs i with
    | some sub =>
      match sub.phase with
      | .sending [] => if sub.isOpen then none else some (s.set i none)
      | _ => none
    | none => none

def init : State := ⟨[],fun _ => none⟩

/-- The devices present after an event. -/
def follow (present : Finset DeviceId) : WatchEvent → Finset DeviceId
  | .added id => insert id present
  | .removed id => present.erase id
  | .changed _ => present

/-- Only what is absent is added and only what is present removed. -/
def Admits (present : Finset DeviceId) : WatchEvent → Prop
  | .added id => id ∉ present
  | .removed id => id ∈ present
  | .changed _ => True

def Proper : Finset DeviceId → List WatchEvent → Prop
  | _, [] => True
  | present, e::es => Admits present e ∧ Proper (follow present e) es

def Phase.pending : Phase → List WatchEvent
  | .ready => []
  | .sending events => events

/-- What the subscriber was sent agrees with what it has fetched. -/
structure Told (sub : Subscriber) : Prop where
  sent : sub.received++sub.phase.pending = (sub.reports.map Report.events).flatten
  present : sub.phase.pending = [] → sub.received.foldl follow ∅ = (ids sub.seen).toFinset
  proper : Proper ∅ sub.received
  changed : ∀ r ∈ sub.reports, ∀ id, .changed id ∈ r.events ↔
    ∃ p ∈ r.prev, ∃ d ∈ r.current, p.id = id ∧ d.id = id ∧ p.state ≠ d.state

/-- A poll that fetches a list finds behind the list its own subscriber fetched last, and no id
twice in the new one. -/
def Undisturbed (s : State) : Label → Prop
  | .poll i (.ok fetched) => (∀ sub, s.subs i = some sub → s.last = sub.seen) ∧ (ids fetched).Nodup
  | _ => True

section

variable {differs : DeviceState → DeviceState → Bool} {prev current : List DeviceInfo} {present : Finset DeviceId}
  {l : List DeviceInfo} {id : DeviceId} {d p : DeviceInfo} {es es' : List WatchEvent}

theorem proper_append : Proper present (es++es') ↔ Proper present es ∧ Proper (es.foldl follow present) es' := by
  induction es generalizing present with
  | nil => simp [Proper]
  | cons e es ih => rw [cons_append,Proper,Proper,ih,foldl_cons,and_assoc]

theorem tell_of_not_mem (h : d.id ∉ ids prev) : tell differs prev d = some (.added d.id) := if_pos h

theorem tell_of_mem (h : d.id ∈ ids prev) :
    tell differs prev d = none ∨ tell differs prev d = some (.changed d.id) := by
  rw [tell,if_neg (not_not.mpr h)]
  split_ifs
  · exact .inr rfl
  · exact .inl rfl

/-- The new devices are added one by one. -/
theorem mem_foldl_tell :
    id ∈ (l.filterMap (tell differs prev)).foldl follow present ↔ id ∈ present ∨ id ∈ ids l ∧ id ∉ ids prev := by
  induction l generalizing present with
  | nil => simp [ids]
  | cons d l ih =>
    have hcons : ids (d::l) = d.id::ids l := rfl
    by_cases hd : d.id ∈ ids prev
    · have hsame : id ∈ d.id::ids l ∧ id ∉ ids prev ↔ id ∈ ids l ∧ id ∉ ids prev := by
        rw [mem_cons]
        constructor
        · rintro ⟨rfl | hl,hprev⟩
          · exact absurd hd hprev
          · exact ⟨hl,hprev⟩
        · exact fun h => ⟨.inr h.1,h.2⟩
      rw [hcons,hsame]
      obtain hnone | hchanged := @tell_of_mem differs prev d hd
      · rw [filterMap_cons_none hnone,ih]
      · rw [filterMap_cons_some hchanged,foldl_cons,ih]
        rfl
    · rw [filterMap_cons_some (tell_of_not_mem hd),foldl_cons,ih,hcons,follow,Finset.mem_insert,mem_cons]
      constructor
      · rintro ((rfl | hp) | hl)
        · exact .inr ⟨.inl rfl,hd⟩
        · exact .inl hp
        · exact .inr ⟨.inr hl.1,hl.2⟩
      · rintro (hp | ⟨rfl | hl,hprev⟩)
        · exact .inl (.inr hp)
        · exact .inl (.inl rfl)
        · exact .inr ⟨hl,hprev⟩

theorem proper_tell (hnodup : (ids l).Nodup) (hnew : ∀ id ∈ ids l, id ∉ ids prev → id ∉ present) :
    Proper present (l.filterMap (tell differs prev)) := by
  induction l generalizing present with
  | nil => trivial
  | cons d l ih =>
    obtain ⟨hfresh,hnodup⟩ := nodup_cons.mp hnodup
    have htail : ∀ id ∈ ids l, id ∉ ids prev → id ∉ present := fun id hid => hnew id (mem_cons_of_mem _ hid)
    by_cases hd : d.id ∈ ids prev
    · obtain hnone | hchanged := @tell_of_mem differs prev d hd
      · rw [filterMap_cons_none hnone]
        exact ih hnodup htail
      · rw [filterMap_cons_some hchanged]
        exact ⟨trivial,ih hnodup htail⟩
    · rw [filterMap_cons_some (tell_of_not_mem hd)]
      refine ⟨hnew d.id mem_cons_self hd,ih hnodup ?_⟩
      intro id hid hprev hin
      obtain rfl | hin := Finset.mem_insert.mp hin
      · exact hfresh hid
      · exact htail id hid hprev hin

theorem gone_cons (p : DeviceInfo) (l : List DeviceInfo) :
    gone current (p::l) = if p.id ∈ ids current then gone current l else .removed p.id::gone current l := by
  unfold gone
  split_ifs <;> simp_all

theorem mem_foldl_gone :
    id ∈ (gone current l).foldl follow present ↔ id ∈ present ∧ (id ∈ ids l → id ∈ ids current) := by
  induction l generalizing present with
  | nil => simp [gone,ids]
  | cons p l ih =>
    have hcons : ids (p::l) = p.id::ids l := rfl
    rw [gone_cons,hcons,mem_cons]
    split_ifs with hp
    · rw [ih]
      constructor
      · rintro ⟨hin,hl⟩
        exact ⟨hin,fun h => h.elim (fun heq => heq ▸ hp) hl⟩
      · rintro ⟨hin,hl⟩
        exact ⟨hin,fun h => hl (.inr h)⟩
    · rw [foldl_cons,ih,follow,Finset.mem_erase]
      constructor
      · rintro ⟨⟨hne,hin⟩,hl⟩
        exact ⟨hin,fun h => h.elim (fun heq => absurd heq hne) hl⟩
      · rintro ⟨hin,hl⟩
        exact ⟨⟨fun heq => hp (heq ▸ hl (.inl heq)),hin⟩,fun h => hl (.inr h)⟩

theorem proper_gone (hnodup : (ids l).Nodup) (hold : ∀ id ∈ ids l, id ∉ ids current → id ∈ present) :
    Proper present (gone current l) := by
  induction l generalizing present with
  | nil => trivial
  | cons p l ih =>
    obtain ⟨hfresh,hnodup⟩ := nodup_cons.mp hnodup
    rw [gone_cons]
    split_ifs with hp
    · exact ih hnodup fun id hid => hold id (mem_cons_of_mem _ hid)
    refine ⟨hold p.id mem_cons_self hp,ih hnodup ?_⟩
    intro id hid hcurrent
    refine Finset.mem_erase.mpr ⟨?_,hold id (mem_cons_of_mem _ hid) hcurrent⟩
    rintro rfl
    exact hfresh hid

/-- Between two lists without repetition the differences lead from the one to the other. -/
theorem foldl_diff : (diff differs prev current).foldl follow (ids prev).toFinset = (ids current).toFinset := by
  ext id
  rw [diff,foldl_append,mem_foldl_gone,mem_foldl_tell,mem_toFinset,mem_toFinset]
  tauto

theorem proper_diff (hprev : (ids prev).Nodup) (hcurrent : (ids current).Nodup) :
    Proper (ids prev).toFinset (diff differs prev current) := by
  refine proper_append.mpr ⟨proper_tell hcurrent fun id _ hid => mt mem_toFinset.mp hid,proper_gone hprev ?_⟩
  intro id hid _
  exact mem_foldl_tell.mpr (.inl (mem_toFinset.mpr hid))

theorem find?_eq_some_of_nodup (hprev : (ids prev).Nodup) (hp : p ∈ prev) :
    (prev.find? fun p' => p'.id == p.id) = some p := by
  have hfound : (prev.find? fun p' => p'.id == p.id).isSome := find?_isSome.mpr ⟨p,hp,beq_self_eq_true p.id⟩
  obtain ⟨p',hp'⟩ := Option.isSome_iff_exists.mp hfound
  have hbeq := find?_some hp'
  have heq : p'.id = p.id := eq_of_beq hbeq
  rw [hp',inj_on_of_nodup_map hprev (mem_of_find?_eq_some hp') hp heq]

theorem tell_eq_changed (hprev : (ids prev).Nodup) :
    tell differs prev d = some (.changed id) ↔ d.id = id ∧ ∃ p ∈ prev, p.id = id ∧ differs p.state d.state := by
  constructor
  · intro h
    have hd : d.id ∈ ids prev := by
      by_contra hd
      rw [tell_of_not_mem hd] at h
      cases h
    obtain ⟨p,hp,hpd⟩ := mem_map.mp hd
    rw [tell,if_neg (not_not.mpr hd),← hpd,find?_eq_some_of_nodup hprev hp] at h
    split_ifs at h with hdiffers
    cases h
    exact ⟨hpd.symm,p,hp,rfl,hdiffers⟩
  · rintro ⟨hid,p,hp,hpid,hdiffers⟩
    have hpd : p.id = d.id := hpid.trans hid.symm
    have hd : d.id ∈ ids prev := mem_map.mpr ⟨p,hp,hpd⟩
    rw [tell,if_neg (not_not.mpr hd),← hpd,find?_eq_some_of_nodup hprev hp,hpid]
    exact if_pos hdiffers

theorem changed_mem_diff (hprev : (ids prev).Nodup) : .changed id ∈ diff differs prev current ↔
      ∃ p ∈ prev, ∃ d ∈ current, p.id = id ∧ d.id = id ∧ differs p.state d.state := by
  rw [diff,mem_append,or_iff_left (by simp [gone]),mem_filterMap]
  simp only [tell_eq_changed hprev]
  constructor
  · rintro ⟨d,hd,hid,p,hp,hpid,hdiffers⟩
    exact ⟨p,hp,d,hd,hpid,hid,hdiffers⟩
  · rintro ⟨p,hp,d,hd,hpid,hid,hdiffers⟩
    exact ⟨d,hd,hid,p,hp,hpid,hdiffers⟩

end

/-- What holds of a subscriber in the runs considered. -/
structure Sound (impl : Impl) (sub : Subscriber) : Prop where
  nodup : (ids sub.seen).Nodup
  sent : sub.received++sub.phase.pending = (sub.reports.map Report.events).flatten
  present : (sub.received++sub.phase.pending).foldl follow ∅ = (ids sub.seen).toFinset
  proper : Proper ∅ (sub.received++sub.phase.pending)
  changed : ∀ r ∈ sub.reports, ∀ id, .changed id ∈ r.events ↔
    ∃ p ∈ r.prev, ∃ d ∈ r.current, p.id = id ∧ d.id = id ∧ p.state ≠ d.state
  listed : impl.list sub.seen = sub.seen

section

variable {impl : Impl} {sub sub' : Subscriber} {l l' : List DeviceInfo} {p d : DeviceInfo}

theorem Sound.told (h : Sound impl sub) : Told sub where
  sent := h.sent
  present := by
    intro hpending
    have hpresent := h.present
    rwa [hpending,append_nil] at hpresent
  proper := (proper_append.mp h.proper).1
  changed := h.changed

theorem sound_new : Sound impl ⟨.ready,true,[],[],[]⟩ where
  nodup := nodup_nil
  sent := rfl
  present := rfl
  proper := trivial
  changed := nofun
  listed := by cases impl <;> rfl

theorem ids_list (impl : Impl) (l : List DeviceInfo) : ids (impl.list l) = ids l := by
  cases impl
  · rfl
  · simp [Impl.list,ids]

theorem differs_iff (hp : p ∈ impl.list l) (hd : d ∈ impl.list l') :
    impl.differs p.state d.state ↔ p.state ≠ d.state := by
  cases impl with
  | netstat => exact bne_iff_ne
  | usb =>
    obtain ⟨_,-,rfl⟩ := mem_map.mp hp
    obtain ⟨_,-,rfl⟩ := mem_map.mp hd
    simp [Impl.differs]

/-- The channel and the sleep change nothing that was told. -/
theorem Sound.congr (h : Sound impl sub) (hseen : sub'.seen = sub.seen) (hreports : sub'.reports = sub.reports)
    (htold : sub'.received++sub'.phase.pending = sub.received++sub.phase.pending) : Sound impl sub' where
  nodup := hseen ▸ h.nodup
  sent := by rw [htold,hreports,h.sent]
  present := by rw [htold,hseen,h.present]
  proper := by rw [htold]; exact h.proper
  changed := by rw [hreports]; exact h.changed
  listed := by rw [hseen,h.listed]

theorem Sound.poll {fetched : List DeviceInfo} (h : Sound impl sub) (hready : sub.phase = .ready) (hnodup : (ids fetched).Nodup) :
    Sound impl { sub with
      phase := .sending (diff impl.differs sub.seen (impl.list fetched))
      seen := impl.list fetched
      reports := sub.reports++[⟨sub.seen,impl.list fetched,diff impl.differs sub.seen (impl.list fetched)⟩] } := by
  have hcurrent : (ids (impl.list fetched)).Nodup := by
    rw [ids_list]
    exact hnodup
  have hreceived : sub.received++sub.phase.pending = sub.received := by
    rw [hready]
    exact append_nil _
  have hpresent := h.present
  have hproper := h.proper
  have hsent := h.sent
  rw [hreceived] at hpresent hproper hsent
  refine ⟨hcurrent,?_,?_,?_,?_,?_⟩
  · simp [hsent,Phase.pending]
  · show (sub.received++diff impl.differs sub.seen (impl.list fetched)).foldl follow ∅ = _
    rw [foldl_append,hpresent,foldl_diff]
  · refine proper_append.mpr ⟨hproper,?_⟩
    rw [hpresent]
    exact proper_diff h.nodup hcurrent
  · intro r hr id
    obtain hr | hr := mem_append.mp hr
    · exact h.changed r hr id
    obtain rfl := mem_singleton.mp hr
    rw [changed_mem_diff h.nodup]
    have hiff : ∀ p ∈ sub.seen, ∀ d ∈ impl.list fetched, impl.differs p.state d.state ↔ p.state ≠ d.state :=
      fun p hp d hd => differs_iff (h.listed.symm ▸ hp) hd
    constructor
    · rintro ⟨p,hp,d,hd,hpid,hdid,hdiffers⟩
      exact ⟨p,hp,d,hd,hpid,hdid,(hiff p hp d hd).mp hdiffers⟩
    · rintro ⟨p,hp,d,hd,hpid,hdid,hne⟩
      exact ⟨p,hp,d,hd,hpid,hdid,(hiff p hp d hd).mpr hne⟩
  · cases impl <;> simp [Impl.list]

end

/-- What a step does to the subscribers. -/
inductive Steps (impl : Impl) (s : State) : Label → State → Prop
  | subscribe {i : ℕ} : Steps impl s (.subscribe i) (s.set i (some ⟨.ready,true,[],[],[]⟩))
  | poll {i : ℕ} {sub : Subscriber} {fetched : List DeviceInfo} (hi : s.subs i = some sub) (hready : sub.phase = .ready) :
      Steps impl s (.poll i (.ok fetched)) (poll impl s i sub (.ok fetched))
  | quiet {i : ℕ} {l : Label} {sub sub' : Subscriber} (hi : s.subs i = some sub) (hseen : sub'.seen = sub.seen)
      (hreports : sub'.reports = sub.reports)
      (htold : sub'.received++sub'.phase.pending = sub.received++sub.phase.pending) : Steps impl s l (s.set i (some sub'))
  | ended {i : ℕ} {l : Label} : Steps impl s l (s.set i none)

variable {impl : Impl} {s s' : State} {l : Label} {subs : ℕ → Option Subscriber} {i : ℕ} {new : Option Subscriber}

theorem step_steps (h : step impl s l = some s') : Steps impl s l s' := by
  cases l with
  | subscribe i =>
    rw [step] at h
    split at h
    · cases h
      exact .subscribe
    · cases h
  | poll i fetched =>
    rw [step] at h
    split at h
    · rename_i sub hi
      split at h
      · rename_i hready
        cases h
        cases fetched with
        | error e => exact .quiet hi rfl rfl (by rw [hready]; rfl)
        | ok fetched => exact .poll hi hready
      · cases h
    · cases h
  | send i =>
    rw [step] at h
    split at h
    · rename_i sub hi
      split at h
      · rename_i e es hsending
        split_ifs at h
        · cases h
          exact .quiet hi rfl rfl (by rw [hsending]; simp [Phase.pending])
        · cases h
          exact .ended
      · cases h
    · cases h
  | wake i =>
    rw [step] at h
    split at h
    · rename_i sub hi
      split at h
      · rename_i hsending
        cases h
        exact .quiet hi rfl rfl (by rw [hsending]; rfl)
      · cases h
    · cases h
  | drop i =>
    obtain ⟨sub,hi,rfl⟩ := Option.map_eq_some_iff.mp h
    exact .quiet hi rfl rfl rfl
  | leave i =>
    rw [step] at h
    split at h
    · rename_i sub hi
      split at h
      · split_ifs at h
        cases h
        exact .ended
      · cases h
    · cases h

theorem sound_update (h : ∀ i sub, subs i = some sub → Sound impl sub) (hnew : ∀ sub, new = some sub → Sound impl sub) :
    ∀ j sub, Function.update subs i new j = some sub → Sound impl sub :=
  (Function.forall_update_iff subs fun _ sub' => ∀ sub, sub' = some sub → Sound impl sub).mpr ⟨hnew,fun j _ => h j⟩

theorem step_sound {s s' : State} {l : Label} (hs : ∀ i sub, s.subs i = some sub → Sound impl sub)
    (hl : Undisturbed s l) (h : step impl s l = some s') : ∀ i sub, s'.subs i = some sub → Sound impl sub := by
  cases step_steps h with
  | subscribe =>
    refine sound_update hs ?_
    rintro sub ⟨⟩
    exact sound_new
  | @poll i sub fetched hi hready =>
    refine sound_update hs ?_
    rintro _ ⟨⟩
    rw [hl.1 sub hi]
    exact (hs i sub hi).poll hready hl.2
  | quiet hi hseen hreports htold =>
    refine sound_update hs ?_
    rintro _ ⟨⟩
    exact (hs _ _ hi).congr hseen hreports htold
  | ended => exact sound_update hs nofun

/-- In every run in which polls do not take differences from one another and no list repeats an
id, every subscriber is told exactly what it has fetched. -/
theorem told_of_undisturbed {impl : Impl} {ls : List Label} {s : State} (h : exec (step impl) init ls = some s)
    (hundisturbed : Meets (step impl) Undisturbed init ls) : ∀ i sub, s.subs i = some sub → Told sub := by
  have hinit : ∀ i sub, init.subs i = some sub → Sound impl sub := nofun
  have hsound := exec_invariant_of_meets (fun _ _ _ hs hl hstep => step_sound hs hl hstep) hinit hundisturbed h
  exact fun i sub hi => (hsound i sub hi).told

instance (s : State) (l : Label) : Decidable (Undisturbed s l) := by
  unfold Undisturbed
  split
  · exact inferInstanceAs (Decidable ((∀ sub ∈ s.subs _,_) ∧ _))
  · exact isTrue trivial

/-- Two phones come, a query fails, and one goes while the other comes online. -/
def alone : List Label :=
  [.subscribe 0,.poll 0 (.ok [⟨"a",.online⟩,⟨"b",.offline⟩]),.send 0,.send 0,.wake 0,.poll 0 (.error "busy"),.wake 0,
    .poll 0 (.ok [⟨"b",.online⟩]),.send 0,.send 0]

theorem told_alone : ∃ s, exec (step .netstat) init alone = some s ∧ ∀ i sub, s.subs i = some sub → Told sub := by
  have hundisturbed : Meets (step .netstat) Undisturbed init alone :=
    meets_of_check (fun _ _ => of_decide_eq_true) (by decide)
  exact ⟨_,rfl,told_of_undisturbed rfl hundisturbed⟩

/-- A second subscriber polls after the first. -/
def late : List Label :=
  [.subscribe 0,.poll 0 (.ok [⟨"a",.online⟩]),.send 0,.subscribe 1,.poll 1 (.ok [⟨"a",.online⟩])]

/-- Two devices under one name. -/
def repeated : List Label := [.subscribe 0,.poll 0 (.ok [⟨"?",.offline⟩,⟨"?",.offline⟩]),.send 0,.send 0]

/-- What the first poll has taken the second subscriber is never told; and a name that is listed twice
is added twice, also for a subscriber that is alone. -/
theorem late_subscriber_told_nothing :
    (∃ s sub, exec (step .netstat) init late = some s ∧ s.subs 1 = some sub ∧ ¬Told sub) ∧
    ∃ s sub, exec (step .netstat) init repeated = some s ∧ s.subs 0 = some sub ∧ ¬Told sub := by
  refine ⟨⟨_,_,rfl,rfl,fun h => ?_⟩,_,_,rfl,rfl,fun h => ?_⟩
  · exact absurd (h.present rfl) (by decide)
  · exact absurd (Finset.mem_singleton_self _) h.proper.2.1

end AdbShare.Watcher

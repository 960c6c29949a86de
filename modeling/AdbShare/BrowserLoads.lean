import AdbShare.PathBuf
import AdbShare.Transition

/-! Listing requests of the file browser. A request is known by its number; what the browser shows is
the request whose answer it was, a listing or an error. Answers come in any order. -/
namespace AdbShare.BrowserLoads

open Transition List

def LOCAL_DEVICE : String := "__local__"

/-- What a listing is asked of. -/
inductive Place
  | disk
  | phone (serial : String)
  deriving DecidableEq

structure Request where
  place : Place
  path : PathBuf
  deriving DecidableEq

structure State where
  targetDevice : Option String
  device : Option String
  localMode : Bool
  path : PathBuf
  back : List PathBuf
  forward : List PathBuf
  loading : Bool
  shown : Option ℕ
  issued : List Request
  outstanding : Finset ℕ
  deriving DecidableEq

/-- `/`. -/
def rootPath : PathBuf := PathBuf.ofText [47]

/-- `/sdcard/Download`. -/
def downloadDir : PathBuf := PathBuf.ofText [47,115,100,99,97,114,100,47,68,111,119,110,108,111,97,100]

def init : State := ⟨none,none,false,rootPath,[],[],false,none,[],∅⟩

def clearLists (s : State) : State := { s with shown := none, loading := false }

/-- `begin_load`, and the request that is sent if it lets it through. -/
def request (s : State) (r : Request) : State :=
  if s.loading then s
  else { s with loading := true, issued := s.issued++[r], outstanding := insert s.issued.length s.outstanding }

/-- Ask for the directory that the browser is in. -/
def openedDirectory (s : State) : State :=
  if s.localMode then request s ⟨.disk,s.path⟩
  else match s.targetDevice with
    | some device => request s ⟨.phone device,s.path⟩
    | none => s

def navigate (s : State) (path : PathBuf) : State :=
  openedDirectory (clearLists { s with path := path, back := s.path::s.back, forward := [] })

def up (s : State) : State :=
  match s.path.parent with
  | some parent => navigate s parent
  | none => s

def stepBack (s : State) : State :=
  match s.back with
  | [] => s
  | target::rest => openedDirectory (clearLists { s with path := target, back := rest, forward := s.path::s.forward })

def stepForward (s : State) : State :=
  match s.forward with
  | [] => s
  | target::rest => openedDirectory (clearLists { s with path := target, forward := rest, back := s.path::s.back })

def refreshCurrent (s : State) : State := openedDirectory { s with loading := false }

def selectDevice (s : State) (serial : String) : State :=
  openedDirectory (clearLists
    { s with
      targetDevice := some serial, device := some serial, localMode := false
      path := downloadDir, back := [], forward := [] })

def selectLocal (s : State) (path : PathBuf) : State :=
  openedDirectory (clearLists
    { s with
      targetDevice := none, device := some LOCAL_DEVICE, localMode := true
      path := path, back := [], forward := [] })

/-- The phone is gone, or the daemon. -/
def setIdle (s : State) : State :=
  clearLists { s with targetDevice := none, device := none, localMode := false, path := rootPath }

/-- Whether an answer is taken for the directory that the browser is in. -/
def applies (s : State) (r : Request) : Bool :=
  match r.place with
  | .phone serial => decide (s.device = some serial ∧ s.path = r.path)
  | .disk => decide (s.path = r.path) && s.localMode

/-- `set_entries`, `set_error` or `cancel_load`. -/
def reply (s : State) (id : ℕ) (r : Request) : State :=
  let answered := { s with outstanding := s.outstanding.erase id, loading := false }
  if applies s r then { answered with shown := some id } else answered

inductive Event
  | navigate (path : PathBuf)
  | up
  | stepBack
  | stepForward
  | refresh
  | selectDevice (serial : String)
  | selectLocal (path : PathBuf)
  | setIdle
  | reply (id : ℕ)
  deriving DecidableEq

def step (s : State) : Event → Option State
  | .navigate path => some (navigate s path)
  | .up => some (up s)
  | .stepBack => some (stepBack s)
  | .stepForward => some (stepForward s)
  | .refresh => some (refreshCurrent s)
  | .selectDevice serial => some (selectDevice s serial)
  | .selectLocal path => some (selectLocal s path)
  | .setIdle => some (setIdle s)
  | .reply id =>
    match s.issued[id]? with
    | some r => if id ∈ s.outstanding then some (reply s id r) else none
    | none => none

/-- The directory that the browser is in. -/
def here (s : State) : Option Request :=
  if s.localMode then some ⟨.disk,s.path⟩ else s.device.map fun serial => ⟨.phone serial,s.path⟩

/-- What is shown answers a request for the directory the browser is in, and every later request for it is
still unanswered; and nothing is being loaded when no request is left. -/
structure Newest (s : State) : Prop where
  latest : ∀ id ∈ s.shown, ∃ r, here s = some r ∧ s.issued[id]? = some r ∧
    ∀ j, id < j → s.issued[j]? = some r → j ∈ s.outstanding
  loading : s.outstanding = ∅ → s.loading = false

/-- When an answer is taken, no later request for its directory has been answered; and it does not come
from a phone with the serial that stands for the disk while that is shown. -/
def InOrder (s : State) : Event → Prop
  | .reply id => ∀ r, s.issued[id]? = some r → applies s r = true →
    (s.localMode = true → r.place ≠ .phone LOCAL_DEVICE) ∧ ∀ j, id < j → s.issued[j]? = some r → j ∈ s.outstanding
  | _ => True

/-- The sidebar and the browser agree, and what is loading is a request without an answer. -/
structure Sound (s : State) : Prop where
  device : s.localMode = false → s.device = s.targetDevice
  disk : s.localMode = true → s.device = some LOCAL_DEVICE
  known : ∀ id ∈ s.outstanding, id < s.issued.length
  pending : s.loading = true → s.outstanding ≠ ∅

section

variable {s s₀ : State} {t : State} {e : Event} {r : Request} {id : ℕ}

theorem Sound.request (h : Sound s) (r : Request) : Sound (request s r) := by
  unfold BrowserLoads.request
  split
  · exact h
  refine ⟨h.device,h.disk,fun id hid => ?_,fun _ => Finset.insert_ne_empty _ _⟩
  have hlen : (s.issued++[r]).length = s.issued.length+1 := by simp
  obtain rfl | hid := Finset.mem_insert.mp hid
  · exact hlen ▸ Nat.lt_succ_self _
  · exact hlen ▸ Nat.lt_succ_of_lt (h.known id hid)

theorem Sound.openedDirectory (h : Sound s) : Sound (openedDirectory s) := by
  unfold BrowserLoads.openedDirectory
  split
  · exact h.request _
  · split
    · exact h.request _
    · exact h

theorem openedDirectory_shown (s : State) : (openedDirectory s).shown = s.shown := by
  unfold openedDirectory request
  repeat' split
  all_goals rfl

/-- A directory is asked for by at most one new request, and nothing else changes. -/
theorem openedDirectory_cases (s : State) : openedDirectory s = s ∨ ∃ r, openedDirectory s =
      { s with loading := true, issued := s.issued++[r], outstanding := insert s.issued.length s.outstanding } := by
  unfold openedDirectory request
  repeat' split
  all_goals first
    | exact Or.inl rfl
    | exact Or.inr ⟨_,rfl⟩

theorem newest_of_shown_eq_none (h : Sound t) (hshown : t.shown = none) : Newest t where
  latest := by simp [hshown]
  loading := fun hempty => by
    by_contra hloading
    exact h.pending (Bool.not_eq_false _ ▸ hloading) hempty

theorem newest_openedDirectory (hs : Sound s) (h : Newest s) : Newest (openedDirectory s) := by
  have hsound := hs.openedDirectory
  obtain heq | ⟨r,heq⟩ := openedDirectory_cases s
  · rwa [heq]
  rw [heq]
  refine ⟨fun id hid => ?_,fun hempty => absurd hempty (Finset.insert_ne_empty _ _)⟩
  obtain ⟨r',hhere,hr',hlater⟩ := h.latest id hid
  have hlt : id < s.issued.length := (List.getElem?_eq_some_iff.mp hr').1
  refine ⟨r',hhere,(List.getElem?_append_left hlt).trans hr',fun j hj hjr => ?_⟩
  obtain hold | hnew := lt_or_ge j s.issued.length
  · exact Finset.mem_insert_of_mem (hlater j hj ((List.getElem?_append_left hold).symm.trans hjr))
  have hlen : j < (s.issued++[r]).length := (List.getElem?_eq_some_iff.mp hjr).1
  rw [List.length_append,List.length_singleton] at hlen
  obtain rfl : j = s.issued.length := by omega
  exact Finset.mem_insert_self _ _

theorem Sound.clearLists (hdevice : s.localMode = false → s.device = s.targetDevice)
    (hdisk : s.localMode → s.device = some LOCAL_DEVICE) (hknown : ∀ id ∈ s.outstanding, id < s.issued.length) :
    Sound (clearLists s) :=
  ⟨hdevice,hdisk,hknown,nofun⟩

theorem newest_arrive (hdevice : s.localMode = false → s.device = s.targetDevice)
    (hdisk : s.localMode → s.device = some LOCAL_DEVICE) (hknown : ∀ id ∈ s.outstanding, id < s.issued.length) :
    Sound (openedDirectory (clearLists s)) ∧ (Newest s₀ → Newest (openedDirectory (clearLists s))) := by
  have hsound := (Sound.clearLists hdevice hdisk hknown).openedDirectory
  exact ⟨hsound,fun _ => newest_of_shown_eq_none hsound (openedDirectory_shown _)⟩

theorem Sound.reply (hs : Sound s) (id : ℕ) (r : Request) : Sound (reply s id r) := by
  have hknown : ∀ j ∈ s.outstanding.erase id, j < s.issued.length := fun j hj => hs.known j (Finset.mem_of_mem_erase hj)
  unfold BrowserLoads.reply
  split <;> exact ⟨hs.device,hs.disk,hknown,nofun⟩

theorem applies_of_here (h : here s = some r) : applies s r := by
  unfold here at h
  split at h
  · rename_i hlocal
    cases h
    simp [applies,hlocal]
  · obtain ⟨serial,hserial,rfl⟩ := Option.map_eq_some_iff.mp h
    simp [applies,hserial]

theorem here_iff_of_applies (hs : Sound s) (h : applies s r) :
    here s = some r ↔ (s.localMode → r.place ≠ .phone LOCAL_DEVICE) := by
  obtain ⟨place,path⟩ := r
  cases place with
  | disk =>
    simp only [applies,Bool.and_eq_true,decide_eq_true_iff] at h
    obtain ⟨rfl,hlocal⟩ := h
    exact iff_of_true (if_pos hlocal) nofun
  | phone serial =>
    obtain ⟨hdevice,rfl⟩ := of_decide_eq_true h
    cases hlocal : s.localMode with
    | false => simp [here,hlocal,hdevice]
    | true =>
      cases hdevice.symm.trans (hs.disk hlocal)
      simp [here,hlocal]

theorem newest_reply_iff (hs : Sound s) (h : Newest s) (hr : s.issued[id]? = some r) : Newest (reply s id r) ↔ InOrder s (.reply id) := by
  unfold reply
  by_cases happlies : applies s r
  · rw [if_pos happlies]
    constructor
    · intro hnew r' hr' _
      cases hr.symm.trans hr'
      obtain ⟨r',hhere,hr',hlater⟩ := hnew.latest id rfl
      cases hr.symm.trans hr'
      exact ⟨(here_iff_of_applies hs happlies).mp hhere,fun j hj hjr => Finset.mem_of_mem_erase (hlater j hj hjr)⟩
    · intro horder
      obtain ⟨hplace,hlater⟩ := horder r hr happlies
      refine ⟨?_,fun _ => rfl⟩
      rintro i ⟨⟩
      exact ⟨r,(here_iff_of_applies hs happlies).mpr hplace,hr,fun j hj hjr => Finset.mem_erase.mpr ⟨hj.ne',hlater j hj hjr⟩⟩
  · rw [if_neg happlies]
    refine iff_of_true ⟨fun i hi => ?_,fun _ => rfl⟩ ?_
    · obtain ⟨r',hhere,hr',hlater⟩ := h.latest i hi
      refine ⟨r',hhere,hr',fun j hj hjr => Finset.mem_erase.mpr ⟨?_,hlater j hj hjr⟩⟩
      rintro rfl
      cases hr.symm.trans hjr
      exact happlies (applies_of_here hhere)
    · intro r' hr' happlies'
      cases hr.symm.trans hr'
      exact absurd happlies' happlies

theorem navigate_keeps (hs : Sound s) (path : PathBuf) :
    Sound (navigate s path) ∧ (Newest s → Newest (navigate s path)) := by
  exact newest_arrive hs.device hs.disk hs.known

theorem move_keeps (he : ∀ id, e ≠ .reply id) (hs : Sound s) (h : step s e = some t) :
    Sound t ∧ (Newest s → Newest t) := by
  cases e with
  | navigate path =>
    cases h
    exact navigate_keeps hs path
  | up =>
    cases h
    unfold up
    split
    · exact navigate_keeps hs _
    · exact ⟨hs,id⟩
  | stepBack =>
    cases h
    unfold stepBack
    split
    · exact ⟨hs,id⟩
    · exact newest_arrive hs.device hs.disk hs.known
  | stepForward =>
    cases h
    unfold stepForward
    split
    · exact ⟨hs,id⟩
    · exact newest_arrive hs.device hs.disk hs.known
  | refresh =>
    cases h
    have hidle : Sound { s with loading := false } := ⟨hs.device,hs.disk,hs.known,nofun⟩
    exact ⟨hidle.openedDirectory,fun hn => newest_openedDirectory hidle ⟨hn.latest,fun _ => rfl⟩⟩
  | selectDevice serial =>
    cases h
    exact newest_arrive (fun _ => rfl) nofun hs.known
  | selectLocal path =>
    cases h
    exact newest_arrive nofun (fun _ => rfl) hs.known
  | setIdle =>
    cases h
    have hsound : Sound (setIdle s) := Sound.clearLists (fun _ => rfl) nofun hs.known
    exact ⟨hsound,fun _ => newest_of_shown_eq_none hsound rfl⟩
  | reply id => exact absurd rfl (he id)

theorem step_reply_iff :
    step s (.reply id) = some t ↔ ∃ r, s.issued[id]? = some r ∧ id ∈ s.outstanding ∧ reply s id r = t := by
  cases hr : s.issued[id]? with
  | none => simp [step,hr]
  | some r => by_cases hid : id ∈ s.outstanding <;> simp [step,hr]

theorem sound_step (hs : Sound s) (h : step s e = some t) : Sound t := by
  by_cases he : ∃ id, e = .reply id
  · obtain ⟨id,rfl⟩ := he
    obtain ⟨r,-,-,rfl⟩ := step_reply_iff.mp h
    exact hs.reply id r
  · exact (move_keeps (not_exists.mp he) hs h).1

/-- On a phone, the browser shows that phone. -/
theorem device_step (hs : s.targetDevice ≠ none → s.device = s.targetDevice) (h : step s e = some t) :
    t.targetDevice ≠ none → t.device = t.targetDevice := by
  have hopened : ∀ u : State, (u.targetDevice ≠ none → u.device = u.targetDevice) →
      (openedDirectory u).targetDevice ≠ none → (openedDirectory u).device = (openedDirectory u).targetDevice := by
    intro u hu
    obtain heq | ⟨r,heq⟩ := openedDirectory_cases u <;> rwa [heq]
  cases e with
  | navigate | refresh =>
    cases h
    exact hopened _ hs
  | selectDevice | selectLocal =>
    cases h
    exact hopened _ (by simp [clearLists])
  | setIdle =>
    cases h
    exact fun _ => rfl
  | up | stepBack | stepForward =>
    cases h
    simp only [up,stepBack,stepForward]
    split
    all_goals first
      | exact hs
      | exact hopened _ hs
  | reply id =>
    obtain ⟨r,-,-,rfl⟩ := step_reply_iff.mp h
    unfold reply
    split <;> exact hs

theorem newest_step_iff (hs : Sound s) (hn : Newest s) (h : step s e = some t) : Newest t ↔ InOrder s e := by
  by_cases he : ∃ id, e = .reply id
  · obtain ⟨id,rfl⟩ := he
    obtain ⟨r,hr,-,rfl⟩ := step_reply_iff.mp h
    exact newest_reply_iff hs hn hr
  · refine iff_of_true ((move_keeps (not_exists.mp he) hs h).2 hn) ?_
    unfold InOrder
    split
    · exact absurd ⟨_,rfl⟩ he
    · trivial

end

theorem sound_init : Sound init := ⟨fun _ => rfl,nofun,fun _ h => absurd h (Finset.notMem_empty _),nofun⟩

/-- In every interleaving of navigation, refreshes, changes of the phone and answers in any order: what is shown always
answers the latest of the answered requests for the directory the browser is in, and nothing is
loading without a request, exactly if no answer is taken after that to a later request for the same
directory, or as one of the disk from a phone. -/
theorem always_newest_iff {events : List Event} {s : State} (h : exec step init events = some s) :
    Always step Newest init events ↔ Meets step InOrder init events :=
  always_iff_meets (fun _ _ _ hs hstep => sound_step hs hstep) (fun _ _ _ hs hn hstep => newest_step_iff hs hn hstep)
    sound_init (newest_of_shown_eq_none sound_init rfl) h

/-- The condition, checked over the requests there are. -/
def inOrder (s : State) : Event → Bool
  | .reply id => (s.issued[id]?).all fun r => !applies s r || (!s.localMode || r.place != .phone LOCAL_DEVICE) &&
    (List.range s.issued.length).all fun j => !decide (id < j ∧ s.issued[j]? = some r) || decide (j ∈ s.outstanding)
  | _ => true

theorem inOrder_sound (s : State) (e : Event) (h : inOrder s e) : InOrder s e := by
  cases e with
  | reply id =>
    intro r hr happlies
    simp only [inOrder,hr,Option.all_some,happlies,Bool.not_true,Bool.false_or,Bool.and_eq_true,all_eq_true,
      mem_range] at h
    refine ⟨fun hlocal => by simpa [hlocal] using h.1,fun j hj hjr => ?_⟩
    have hlater := h.2 j (List.getElem?_eq_some_iff.mp hjr).1
    simpa [hj,hjr] using hlater
  | _ => trivial

/-- A phone is chosen, the directory above opened before the first answer is there, and refreshed after the second. -/
def visits : List Event := [.selectDevice "phone",.up,.reply 0,.reply 1,.refresh,.reply 2,.stepBack,.reply 3]

theorem always_newest_visits : Always step Newest init visits := by
  have hexec : (exec step init visits).isSome := by decide +kernel
  obtain ⟨s,hs⟩ := Option.isSome_iff_exists.mp hexec
  have hcheck : check step inOrder init visits := by decide +kernel
  exact (always_newest_iff hs).mpr (meets_of_check inOrder_sound hcheck)

def download : Request := ⟨.phone "phone",downloadDir⟩

/-- The first answer shown over the second. -/
def outdated : State :=
  ⟨some "phone",some "phone",false,downloadDir,[],[],false,some 0,[download,download],∅⟩

/-- The phone is refreshed before the first answer is there, and that comes last. -/
theorem older_replaces_newer :
    exec step init [.selectDevice "phone",.refresh,.reply 1,.reply 0] = some outdated ∧ ¬Newest outdated := by
  refine ⟨by decide +kernel,fun h => ?_⟩
  obtain ⟨r,hhere,hr,hlater⟩ := h.latest 0 rfl
  cases hr
  exact absurd (hlater 1 Nat.one_pos rfl) (Finset.notMem_empty 1)

end AdbShare.BrowserLoads

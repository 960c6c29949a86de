import AdbShare.DebloatLedger
import Mathlib.Data.Char
import Mathlib.Data.List.Lex

/-! The debloat view, the sidebar that selects a phone and the card that a change is confirmed on. A row
keeps the phone that listed it and the phone that reported the state it shows; a batch keeps the
card it was accepted on. Package lists and results come in any order. -/
namespace AdbShare.DebloatView

open Transition Shell List Option
open ShellCommands (lit PackageAction PackageRequest)
open DebloatLedger (PackageResult Ledger requests)
open scoped DebloatLedger

structure DeviceEntry where
  serial : Text
  model : Option Text
  transport : Text
  storage : Option (UInt64 × UInt64)
  batteryPct : Option UInt8
  abi : Option Text
  deriving DecidableEq

inductive Selection
  | device (serial : Text)
  | disk
  deriving DecidableEq

structure Package where
  id : Text
  state : Text

structure Row where
  id : Text
  state : Text
  listedBy : Text
  reportedBy : Text

/-- A package on the confirmation card. -/
structure DebloatPackage where
  id : Text
  listedBy : Text

structure DebloatConfirm where
  device : Text
  action : PackageAction
  actions : List PackageRequest
  packages : List DebloatPackage
  undo : Bool

structure Batch where
  device : Text
  actions : List PackageRequest
  accepted : DebloatConfirm

structure State where
  devices : List DeviceEntry
  selection : Option Selection
  autoSelected : Bool
  device : Option Text
  rows : List Row
  selected : List Text
  listing : List Text
  dialog : Option DebloatConfirm
  running : List Batch
  sent : List Batch
  ledger : Ledger

def init (ledger : Ledger) : State := ⟨[],none,false,none,[],[],[],none,[],[],ledger⟩

def connected (devices : List DeviceEntry) (serial : Text) : Bool := devices.any fun d => decide (d.serial = serial)

def targetDevice (s : State) : Option Text :=
  match s.selection with
  | some (.device serial) => some serial
  | _ => none

def selectDevice (s : State) (serial : Text) : State := { s with selection := some (.device serial) }

/-- The selection of a phone that vanished. -/
def dropVanished (s : State) (devices : List DeviceEntry) : State :=
  match s.selection with
  | some (.device serial) => if connected devices serial then s else { s with selection := none }
  | _ => s

/-- The first phone is selected once. -/
def autoSelect (s : State) : State :=
  if s.autoSelected || s.selection.isSome then s
  else match s.devices with
    | [] => s
    | first::_ => selectDevice { s with autoSelected := true } first.serial

def setDevices (s : State) (devices : List DeviceEntry) : State :=
  let s := dropVanished s devices
  if devices = s.devices then s else autoSelect { s with devices := devices }

/-- Ask for the packages of the phone that the view is set to. -/
def reload (s : State) : State :=
  match s.device with
  | some device => { s with listing := s.listing++[device] }
  | none => s

def setDevice (s : State) (device : Text) : State :=
  if s.device = some device then s else reload { s with device := some device, rows := [], selected := [] }

def openDebloatFor (s : State) (device : Text) : State := setDevice s device

def openDebloat (s : State) : State :=
  match targetDevice s with
  | some device => openDebloatFor s device
  | none => { s with dialog := none }

/-- The packages come in the order that the view sorts them into. -/
def join (device : Text) (packages : List Package) : List Row := packages.map fun p => ⟨p.id,p.state,device,device⟩

def listed (s : State) (device : Text) : Option (List Package) → State
  | some packages => { s with rows := join device packages }
  | none => s

def toggle (s : State) (id : Text) : State :=
  if id ∈ s.selected then { s with selected := s.selected.erase id }
  else { s with selected := s.selected.orderedInsert (· ≤ ·) id }

def rowsFor (rows : List Row) (ids : List Text) : List DebloatPackage :=
  ids.filterMap fun id => (rows.find? fun row => decide (row.id = id)).map fun row => ⟨row.id,row.listedBy⟩

def confirmDebloat (s : State) (action : PackageAction) (packages : List Text) : State :=
  match targetDevice s with
  | none => s
  | some device =>
    if packages.isEmpty then s
    else { s with dialog := some ⟨device,action,requests action packages,rowsFor s.rows packages,false⟩ }

/-- The button of an action, for what is selected in the view. -/
def apply (s : State) (action : PackageAction) : State :=
  { confirmDebloat s action s.selected with selected := [] }

def confirmUndo (s : State) : State :=
  match targetDevice s with
  | none => s
  | some device =>
    match DebloatLedger.confirmUndo device s.ledger with
    | .error _ => s
    | .ok actions =>
      { s with dialog := some ⟨device,.enable,actions,rowsFor s.rows (actions.map PackageRequest.package),true⟩ }

/-- The card is accepted. -/
def runDebloat (s : State) (card : DebloatConfirm) : State :=
  match targetDevice s with
  | none => { s with dialog := none }
  | some device =>
    if card.actions.isEmpty then { s with dialog := none }
    else
      { s with
        dialog := none
        running := s.running++[⟨device,card.actions,card⟩]
        sent := s.sent++[⟨device,card.actions,card⟩] }

/-- The first row of the package shows the state that the phone reported. -/
def noteState (device id state : Text) : List Row → List Row
  | [] => []
  | row::rows =>
    if row.id = id then { row with state := state, reportedBy := device }::rows else row::noteState device id state rows

def noteStates (device : Text) (states : List (Text × Text)) (rows : List Row) : List Row :=
  states.foldl (fun rows p => noteState device p.1 p.2 rows) rows

def newStates (results : List PackageResult) : List (Text × Text) :=
  results.filterMap fun r => if r.ok then r.state.map fun state => (r.package,state) else none

def Row.plain (row : Row) : DebloatLedger.Row := ⟨row.id,row.state⟩

def onDebloatResults (s : State) (b : Batch) : Option (List PackageResult) → State
  | some results =>
    { s with
      rows := noteStates b.device (newStates results) s.rows
      ledger := DebloatLedger.onDebloatResults b.device (s.rows.map Row.plain) b.actions results s.ledger
      dialog := none }
  | none => { s with dialog := none }

/-- A list or results are answers to a request; `none` is an error. -/
inductive Event
  | selectDevice (serial : Text)
  | selectLocal
  | setDevices (devices : List DeviceEntry)
  | daemonError
  | openDebloat
  | openDebloatFor (serial : Text)
  | reload
  | listed (request : ℕ) (packages : Option (List Package))
  | toggle (id : Text)
  | apply (action : PackageAction)
  | undo
  | dismiss
  | accept
  | results (request : ℕ) (results : Option (List PackageResult))

def step (s : State) : Event → Option State
  | .selectDevice serial => if connected s.devices serial then some (selectDevice s serial) else none
  | .selectLocal => some { s with selection := some .disk }
  | .setDevices devices => some (setDevices s devices)
  | .daemonError => some { s with devices := [], selection := none }
  | .openDebloat => some (openDebloat s)
  | .openDebloatFor serial => if connected s.devices serial then some (openDebloatFor s serial) else none
  | .reload => some (reload s)
  | .listed i packages =>
    (s.listing[i]?).map fun device => listed { s with listing := s.listing.eraseIdx i } device packages
  | .toggle id => if id ∈ s.rows.map Row.id then some (toggle s id) else none
  | .apply action => some (apply s action)
  | .undo => some (confirmUndo s)
  | .dismiss => some { s with dialog := none }
  | .accept => s.dialog.map (runDebloat s)
  | .results i results =>
    (s.running[i]?).map fun b => onDebloatResults { s with running := s.running.eraseIdx i } b results

/-- The batch went to the phone that the accepted card names, and that listed the packages on it. -/
def Batch.Agreed (b : Batch) : Prop := b.device = b.accepted.device ∧ ∀ p ∈ b.accepted.packages, p.listedBy = b.device

/-- The phone listed all rows, and reported the states they show. -/
def RowsOf (view : Option Text) (rows : List Row) : Prop :=
  ∀ row ∈ rows, view = some row.listedBy ∧ view = some row.reportedBy

/-- The rows are those of the phone that the view is set to, and every batch went to the phone that was agreed to. -/
structure OnePhone (s : State) : Prop where
  rows : RowsOf s.device s.rows
  sent : ∀ b ∈ s.sent, b.Agreed

instance (b : Batch) : Decidable b.Agreed := inferInstanceAs (Decidable (_ ∧ _))

instance : DecidablePred OnePhone := fun s =>
  have : Decidable (RowsOf s.device s.rows) := inferInstanceAs (Decidable (∀ _ ∈ _, _))
  decidable_of_iff (RowsOf s.device s.rows ∧ ∀ b ∈ s.sent, b.Agreed) ⟨fun h => ⟨h.1,h.2⟩,fun h => ⟨h.rows,h.sent⟩⟩

/-- A list comes while the view is set to its phone; a change is asked for while the view is set to the phone that is
selected, and confirmed while that phone is still selected; and results that change a row come while the view is
set to their phone. -/
def SamePhone (s : State) : Event → Prop
  | .listed i (some packages) => ∀ device ∈ s.listing[i]?, packages ≠ [] → s.device = some device
  | .apply _ | .undo => ∀ device ∈ targetDevice s, s.device = some device
  | .accept => ∀ card ∈ s.dialog, ∀ device ∈ targetDevice s, device = card.device
  | .results i (some results) => ∀ b ∈ s.running[i]?,
    (∃ row ∈ s.rows, row.id ∈ (newStates results).map Prod.fst) → s.device = some b.device
  | _ => True

/-- The phone that the card names listed the packages on it. -/
def DebloatConfirm.Own (card : DebloatConfirm) : Prop := ∀ p ∈ card.packages, p.listedBy = card.device

structure Sound (s : State) : Prop extends OnePhone s where
  card : ∀ card ∈ s.dialog, card.Own

variable {device : Text}

section

variable {id state : Text} {rows : List Row} {states : List (Text × Text)} {view : Option Text} {row : Row}
  {packages : List Package} {ids : List Text}

/-- A note changes no package, and what it reports is of its own phone. -/
theorem mem_noteState (h : row ∈ noteState device id state rows) :
    ∃ old ∈ rows, row.listedBy = old.listedBy ∧ (row.reportedBy = old.reportedBy ∨ row.reportedBy = device) := by
  induction rows with
  | nil => simp [noteState] at h
  | cons r rows ih =>
    rw [noteState] at h
    split at h
    · obtain rfl | h := mem_cons.mp h
      · exact ⟨r,mem_cons_self,rfl,.inr rfl⟩
      · exact ⟨row,mem_cons_of_mem r h,rfl,.inl rfl⟩
    · obtain rfl | h := mem_cons.mp h
      · exact ⟨row,mem_cons_self,rfl,.inl rfl⟩
      · obtain ⟨old,hold,hkeeps⟩ := ih h
        exact ⟨old,mem_cons_of_mem r hold,hkeeps⟩

theorem noteState_of_notMem (h : id ∉ rows.map Row.id) : noteState device id state rows = rows := by
  induction rows with
  | nil => rfl
  | cons r rows ih =>
    rw [map_cons,mem_cons,not_or] at h
    rw [noteState,if_neg (Ne.symm h.1),ih h.2]

theorem noteStates_cons (p : Text × Text) (states : List (Text × Text)) :
    noteStates device (p::states) rows = noteStates device states (noteState device p.1 p.2 rows) := rfl

theorem noteStates_of_notMem (h : ¬∃ row ∈ rows, row.id ∈ states.map Prod.fst) :
    noteStates device states rows = rows := by
  induction states with
  | nil => rfl
  | cons p states ih =>
    have hfirst : p.1 ∉ rows.map Row.id := by
      intro hmem
      obtain ⟨row,hrow,hid⟩ := mem_map.mp hmem
      exact h ⟨row,hrow,hid ▸ mem_cons_self⟩
    rw [noteStates_cons,noteState_of_notMem hfirst]
    exact ih fun ⟨row,hrow,hid⟩ => h ⟨row,hrow,mem_cons_of_mem _ hid⟩

theorem RowsOf.noteStates (h : RowsOf (some device) rows) (states : List (Text × Text)) :
    RowsOf (some device) (noteStates device states rows) := by
  induction states generalizing rows with
  | nil => exact h
  | cons p states ih =>
    refine ih fun row hrow => ?_
    obtain ⟨old,hold,hlisted,hreported⟩ := mem_noteState hrow
    obtain ⟨hlistedOld,hreportedOld⟩ := h old hold
    refine ⟨hlisted ▸ hlistedOld,?_⟩
    obtain hreported | hreported := hreported
    · exact hreported ▸ hreportedOld
    · rw [hreported]

theorem rowsOf_noteStates (h : RowsOf view rows)
    (hview : (∃ row ∈ rows, row.id ∈ states.map Prod.fst) → view = some device) :
    RowsOf view (noteStates device states rows) := by
  by_cases hshown : ∃ row ∈ rows, row.id ∈ states.map Prod.fst
  · obtain rfl := hview hshown
    exact h.noteStates states
  · rwa [noteStates_of_notMem hshown]

theorem rowsOf_join (h : packages ≠ [] → view = some device) : RowsOf view (join device packages) := by
  intro row hrow
  obtain ⟨p,hp,rfl⟩ := mem_map.mp hrow
  have hview := h (ne_nil_of_mem hp)
  exact ⟨hview,hview⟩

theorem RowsOf.rowsFor {p : DebloatPackage} (h : RowsOf (some device) rows) (hp : p ∈ rowsFor rows ids) :
    p.listedBy = device := by
  obtain ⟨id,-,hid⟩ := mem_filterMap.mp hp
  obtain ⟨row,hrow,rfl⟩ := map_eq_some_iff.mp hid
  exact (some.inj (h row (mem_of_find?_eq_some hrow)).1).symm

end

/-- The view is as before or empty, nothing is sent, and no card appears. -/
structure Keeps (s t : State) : Prop where
  view : t.device = s.device ∧ t.rows = s.rows ∨ t.rows = []
  sent : t.sent = s.sent
  card : t.dialog = s.dialog ∨ t.dialog = none

section

variable {s t : State} {e : Event} {packages : Option (List Package)} {results : Option (List PackageResult)}

theorem Sound.of_keeps (hs : Sound s) (h : Keeps s t) : Sound t := by
  refine ⟨⟨?_,h.sent ▸ hs.sent⟩,?_⟩
  · obtain ⟨hdevice,hrows⟩ | hrows := h.view
    · rw [hdevice,hrows]
      exact hs.rows
    · simp [hrows,RowsOf]
  · obtain hcard | hcard := h.card
    · rw [hcard]
      exact hs.card
    · simp [hcard]

theorem keeps_of_eq (hdevice : t.device = s.device) (hrows : t.rows = s.rows) (hsent : t.sent = s.sent)
    (hdialog : t.dialog = s.dialog) : Keeps s t :=
  ⟨.inl ⟨hdevice,hrows⟩,hsent,.inl hdialog⟩

theorem keeps_closed (s : State) : Keeps s { s with dialog := none } := ⟨.inl ⟨rfl,rfl⟩,rfl,.inr rfl⟩

theorem keeps_setDevices (s : State) (devices : List DeviceEntry) : Keeps s (setDevices s devices) := by
  apply keeps_of_eq <;>
  · unfold setDevices dropVanished autoSelect selectDevice
    grind

theorem keeps_openDebloatFor (s : State) (device : Text) : Keeps s (openDebloatFor s device) := by
  unfold openDebloatFor setDevice
  split
  · exact keeps_of_eq rfl rfl rfl rfl
  · exact ⟨.inr rfl,rfl,.inl rfl⟩

theorem keeps_openDebloat (s : State) : Keeps s (openDebloat s) := by
  unfold openDebloat
  split
  · exact keeps_openDebloatFor s _
  · exact keeps_closed s

theorem keeps_reload (s : State) : Keeps s (reload s) := by
  unfold reload
  split <;> exact keeps_of_eq rfl rfl rfl rfl

theorem keeps_toggle (s : State) (id : Text) : Keeps s (toggle s id) := by
  unfold toggle
  split <;> exact keeps_of_eq rfl rfl rfl rfl

/-- A card that is shown is of the phone that the view is set to. -/
theorem Sound.shown (hs : Sound s) (hview : s.device = some device) (action : PackageAction)
    (actions : List PackageRequest) (ids : List Text) (undo : Bool) :
    Sound { s with dialog := some ⟨device,action,actions,rowsFor s.rows ids,undo⟩ } := by
  refine ⟨⟨hs.rows,hs.sent⟩,?_⟩
  rintro card ⟨⟩ p hp
  exact RowsOf.rowsFor (hview ▸ hs.rows) hp

theorem Sound.confirmDebloat (hs : Sound s) (hsame : SamePhone s (.apply action)) (packages : List Text) :
    Sound (confirmDebloat s action packages) := by
  unfold DebloatView.confirmDebloat
  split
  · exact hs
  · rename_i htarget
    split
    · exact hs
    · exact hs.shown (hsame _ htarget) ..

theorem Sound.confirmUndo (hs : Sound s) (hsame : SamePhone s .undo) : Sound (confirmUndo s) := by
  unfold DebloatView.confirmUndo
  split
  · exact hs
  · rename_i htarget
    split
    · exact hs
    · exact hs.shown (hsame _ htarget) ..

theorem Sound.listed (hs : Sound s) (h : packages.getD [] ≠ [] → s.device = some device) (listing : List Text) :
    Sound (listed { s with listing := listing } device packages) := by
  cases packages with
  | none => exact ⟨⟨hs.rows,hs.sent⟩,hs.card⟩
  | some packages => exact ⟨⟨rowsOf_join h,hs.sent⟩,hs.card⟩

theorem Sound.runDebloat {card : DebloatConfirm} (hs : Sound s) (hcard : card ∈ s.dialog) (hsame : SamePhone s .accept) :
    Sound (runDebloat s card) := by
  unfold DebloatView.runDebloat
  split
  · exact hs.of_keeps (keeps_closed s)
  rename_i device htarget
  split
  · exact hs.of_keeps (keeps_closed s)
  refine ⟨⟨hs.rows,fun b hb => ?_⟩,nofun⟩
  obtain hb | hb := mem_append.mp hb
  · exact hs.sent b hb
  · obtain rfl := mem_singleton.mp hb
    have hnamed : device = card.device := hsame card hcard device htarget
    exact ⟨hnamed,fun p hp => (hs.card card hcard p hp).trans hnamed.symm⟩

theorem Sound.onDebloatResults {b : Batch} (hs : Sound s)
    (h : ∀ rs ∈ results, (∃ row ∈ s.rows, row.id ∈ (newStates rs).map Prod.fst) → s.device = some b.device)
    (running : List Batch) : Sound (onDebloatResults { s with running := running } b results) := by
  cases results with
  | none => exact ⟨⟨hs.rows,hs.sent⟩,nofun⟩
  | some rs => exact ⟨⟨rowsOf_noteStates hs.rows (h rs rfl),hs.sent⟩,nofun⟩

theorem sound_step (hs : Sound s) (hsame : SamePhone s e) (h : step s e = some t) : Sound t := by
  cases e with
  | selectDevice serial =>
    obtain ⟨-,h⟩ := ite_none_right_eq_some.mp h
    cases h
    exact hs.of_keeps (keeps_of_eq rfl rfl rfl rfl)
  | selectLocal | daemonError =>
    cases h
    exact hs.of_keeps (keeps_of_eq rfl rfl rfl rfl)
  | setDevices devices =>
    cases h
    exact hs.of_keeps (keeps_setDevices s devices)
  | openDebloat =>
    cases h
    exact hs.of_keeps (keeps_openDebloat s)
  | openDebloatFor serial =>
    obtain ⟨-,h⟩ := ite_none_right_eq_some.mp h
    cases h
    exact hs.of_keeps (keeps_openDebloatFor s serial)
  | reload =>
    cases h
    exact hs.of_keeps (keeps_reload s)
  | toggle id =>
    obtain ⟨-,h⟩ := ite_none_right_eq_some.mp h
    cases h
    exact hs.of_keeps (keeps_toggle s id)
  | listed i packages =>
    obtain ⟨device,hdevice,rfl⟩ := map_eq_some_iff.mp h
    refine hs.listed ?_ _
    cases packages with
    | none => exact fun hne => absurd rfl hne
    | some packages => exact hsame device hdevice
  | apply action =>
    cases h
    obtain ⟨hone,hcard⟩ := hs.confirmDebloat hsame s.selected
    exact ⟨⟨hone.rows,hone.sent⟩,hcard⟩
  | undo =>
    cases h
    exact hs.confirmUndo hsame
  | dismiss =>
    cases h
    exact hs.of_keeps (keeps_closed s)
  | accept =>
    obtain ⟨card,hcard,rfl⟩ := map_eq_some_iff.mp h
    exact hs.runDebloat hcard hsame
  | results i results =>
    obtain ⟨b,hb,rfl⟩ := map_eq_some_iff.mp h
    refine hs.onDebloatResults ?_ _
    rintro rs ⟨⟩
    exact hsame b hb

end

/-- In every interleaving of selecting phones, opening the view for any of them, package lists and results in any order,
changes of the device list, and confirming an action or undo: the rows are always those of the phone that the
view is set to, and every batch goes to the phone that the accepted card names and shows packages of, if every
list and every result that changes rows comes while the view is set to its phone, and every change is asked for
and accepted while the phone of the view is the one that is selected. -/
theorem always_onePhone {ledger : Ledger} {events : List Event} (h : Meets step SamePhone (init ledger) events) :
    Always step OnePhone (init ledger) events := by
  refine always_of_meets (fun _ _ _ hs hsame hstep => sound_step hs hsame hstep) (fun _ hs => hs.toOnePhone) ?_ h
  exact ⟨⟨fun _ hrow => absurd hrow not_mem_nil,fun _ hb => absurd hb not_mem_nil⟩,nofun⟩

instance (s : State) (e : Event) : Decidable (SamePhone s e) := by
  unfold SamePhone
  split <;> infer_instance

def phoneA : DeviceEntry := ⟨lit "A",none,lit "usb",none,none,none⟩
def phoneB : DeviceEntry := ⟨lit "B",none,lit "usb",none,none,none⟩
def maps : Package := ⟨lit "maps",lit "enabled"⟩

/-- The first phone is selected on its own; the view is opened for each phone after it is selected, and a
package is disabled and put back. -/
def visits : List Event :=
  [.setDevices [phoneA,phoneB],.openDebloat,.listed 0 (some [maps]),.toggle maps.id,.apply .disable,.accept,
    .results 0 (some [⟨maps.id,true,some (lit "disabled"),none⟩]),.undo,.accept,.selectDevice phoneB.serial,
    .results 0 (some [⟨maps.id,true,some (lit "enabled"),none⟩]),.openDebloat,.reload,.listed 1 (some [maps]),
    .listed 0 none,.setDevices [phoneB]]

theorem always_onePhone_visits : (exec step (init []) visits).isSome ∧ Always step OnePhone (init []) visits :=
  ⟨by decide +kernel,always_onePhone (meets_of_check (fun _ _ => of_decide_eq_true) (by decide +kernel))⟩

/-- The second phone is selected while the view is set to the first. -/
def crossed : List Event :=
  [.setDevices [phoneA,phoneB],.openDebloat,.listed 0 (some [maps]),.selectDevice phoneB.serial,.toggle maps.id,
    .apply .uninstall,.accept]

/-- The list of the first phone comes after the view was set to the second on its card. -/
def late : List Event :=
  [.setDevices [phoneA,phoneB],.openDebloat,.openDebloatFor phoneB.serial,.selectDevice phoneB.serial,
    .listed 1 (some [maps]),.listed 0 (some [maps])]

/-- The packages of one phone are removed from another, and the packages of one phone are shown for another. -/
theorem phones_mixed :
    (∃ s, exec step (init []) crossed = some s ∧ ¬OnePhone s) ∧ ∃ s, exec step (init []) late = some s ∧ ¬OnePhone s := by
  have hcrossed : ((exec step (init []) crossed).any fun s => decide ¬OnePhone s) := by decide +kernel
  have hlate : ((exec step (init []) late).any fun s => decide ¬OnePhone s) := by decide +kernel
  obtain ⟨s,hs,hmixed⟩ := (any_eq_true _ _).mp hcrossed
  obtain ⟨t,ht,hmixed'⟩ := (any_eq_true _ _).mp hlate
  exact ⟨⟨s,hs,of_decide_eq_true hmixed⟩,t,ht,of_decide_eq_true hmixed'⟩

end AdbShare.DebloatView

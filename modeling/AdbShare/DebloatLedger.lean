import AdbShare.Installs

/-! The ledger of package changes and the undo that is made of it. The file that holds the ledger is
read and written back whole. -/
namespace AdbShare.DebloatLedger

open Shell List
open ShellCommands (lit PackageAction PackageRequest)
open Installs (trim)

scoped instance lawfulText : LawfulBEq Text := inferInstance

def LEDGER_CAP : ℕ := 2000
def DEBLOAT_USER : UInt16 := 0

inductive PackageState
  | enabled | disabled | uninstalled
  deriving DecidableEq

def PackageState.name : PackageState → Text
  | .enabled => lit "enabled"
  | .disabled => lit "disabled"
  | .uninstalled => lit "uninstalled"

def targetState : PackageAction → PackageState
  | .disable => .disabled
  | .enable => .enabled
  | .restore => .enabled
  | .uninstall => .uninstalled

def inverse : PackageAction → PackageAction
  | .disable => .enable
  | .enable => .disable
  | .uninstall => .restore
  | .restore => .disable

def actionName : PackageAction → Text
  | .disable => lit "disable"
  | .enable => lit "enable"
  | .uninstall => lit "uninstall"
  | .restore => lit "restore"

def actionFromName (name : Text) : Option PackageAction :=
  if name = lit "disable" then some .disable
  else if name = lit "enable" then some .enable
  else if name = lit "uninstall" then some .uninstall
  else if name = lit "restore" then some .restore
  else none

structure DebloatRecord where
  device : Text
  user : UInt16
  package : Text
  action : Text
  before : Text
  after : Text
  ok : Bool
  error : Option Text
  deriving DecidableEq

structure PackageResult where
  package : Text
  ok : Bool
  state : Option Text
  message : Option Text

/-- A row of the debloat view. -/
structure Row where
  id : Text
  state : Text

abbrev Ledger := List DebloatRecord

def recordChange (ledger : Ledger) (rec : DebloatRecord) : Ledger :=
  let records := ledger++[rec]
  if records.length > LEDGER_CAP then records.drop (records.length-LEDGER_CAP) else records

def undoable (device : Text) (user : UInt16) (ledger : Ledger) : List DebloatRecord :=
  (ledger.filter fun r => decide (r.device = device ∧ r.user = user ∧ r.ok = true)).reverse

/-- The loop of `confirm_undo` over the changes, the newest first. -/
def undoRequests : List Text → List DebloatRecord → List PackageRequest
  | _, [] => []
  | seen, record::records =>
    if record.package ∈ seen then undoRequests seen records
    else match actionFromName record.action with
      | none => undoRequests (record.package::seen) records
      | some action => ⟨record.package,inverse action⟩::undoRequests (record.package::seen) records

/-- The requests that are shown for the chosen phone. -/
def confirmUndo (device : Text) (ledger : Ledger) : Except Text (List PackageRequest) :=
  let actions := undoRequests [] (undoable device DEBLOAT_USER ledger)
  if actions.isEmpty then .error (lit "Nothing on this phone to put back") else .ok actions

def requests (action : PackageAction) (packages : List Text) : List PackageRequest :=
  packages.map fun package => ⟨package,action⟩

def statesFor (rows : List Row) (ids : List Text) : List (Text × Text) :=
  ids.filterMap fun id => (rows.find? fun row => decide (row.id = id)).map fun row => (row.id,row.state)

def resultRecord (device : Text) (before : List (Text × Text)) (actions : List PackageRequest)
    (result : PackageResult) (index : ℕ) : DebloatRecord where
  device := device
  user := DEBLOAT_USER
  package := result.package
  action := actionName ((actions[index]?.map PackageRequest.action).getD .disable)
  before := ((before.find? fun p => decide (p.1 = result.package)).map Prod.snd).getD []
  after := result.state.getD []
  ok := result.ok
  error := result.message

def onDebloatResults (device : Text) (rows : List Row) (actions : List PackageRequest) (results : List PackageResult)
    (ledger : Ledger) : Ledger :=
  let before := statesFor rows (actions.map PackageRequest.package)
  (results.zipIdx.map fun p => resultRecord device before actions p.1 p.2).foldl recordChange ledger

/-- The packages of the phones, and the ledger. -/
structure World where
  phones : Text → Text → PackageState
  ledger : Ledger

/-- What a successful request does to a phone. -/
def carryOut (phone : Text → PackageState) (request : PackageRequest) : Text → PackageState :=
  Function.update phone (trim request.package) (targetState request.action)

/-- What it reports. -/
def success (request : PackageRequest) : PackageResult :=
  ⟨trim request.package,true,some (targetState request.action).name,none⟩

/-- Every request succeeds; the view shows `rows` when the results arrive. -/
def runDebloat (w : World) (device : Text) (rows : List Row) (actions : List PackageRequest) : World where
  phones := Function.update w.phones device (actions.foldl carryOut (w.phones device))
  ledger := onDebloatResults device rows actions (actions.map success) w.ledger

structure Batch where
  device : Text
  action : PackageAction
  packages : List Text
  rows : List Row

def Batch.run (w : World) (b : Batch) : World := runDebloat w b.device b.rows (requests b.action b.packages)

def undo (device : Text) (rows : List Row) (w : World) : World :=
  match confirmUndo device w.ledger with
  | .error _ => w
  | .ok actions => runDebloat w device rows actions

/-- The batch changes the package of the phone. -/
def Batch.names (device package : Text) (b : Batch) : Bool :=
  decide (b.device = device ∧ package ∈ b.packages.map trim)

/-- The last thing that was done to a package. -/
def lastAction (device package : Text) (batches : List Batch) : Option PackageAction :=
  ((batches.filter (Batch.names device package)).getLast?).map Batch.action

/-- An enabled package that was last disabled or uninstalled, or a disabled one that was last enabled or restored. -/
def Reverses (state : PackageState) (action : PackageAction) : Prop :=
  state = .enabled ∧ (action = .disable ∨ action = .uninstall) ∨
  state = .disabled ∧ (action = .enable ∨ action = .restore)

theorem trim_trim (s : Text) : trim (trim s) = trim s := by
  have hpre : trim s <+: s.dropWhile Installs.isWhitespace := rdropWhile_prefix _ _
  have hdrop : (trim s).dropWhile Installs.isWhitespace = trim s := by
    rw [dropWhile_eq_self_iff]
    intro hlen
    rw [hpre.getElem hlen]
    exact dropWhile_get_zero_not _ _ (hlen.trans_le hpre.length_le)
  have hright : (trim s).rdropWhile Installs.isWhitespace = trim s := rdropWhile_idempotent _ _
  rw [trim,hdrop,hright]

@[simp] theorem actionFromName_actionName (a : PackageAction) : actionFromName (actionName a) = some a := by
  cases a <;> decide +kernel

/-- What undoing an action restores is the state of its inverse. -/
theorem reverses_iff {state : PackageState} {action : PackageAction} :
    Reverses state action ↔ targetState (inverse action) = state := by
  cases state <;> cases action <;> simp [Reverses,targetState,inverse]

theorem foldl_recordChange {ledger records : Ledger} (h : ledger.length+records.length < LEDGER_CAP) :
    records.foldl recordChange ledger = ledger++records := by
  induction records generalizing ledger with
  | nil => simp
  | cons r rs ih =>
    rw [length_cons] at h
    have hstep : recordChange ledger r = ledger++[r] := if_neg (by rw [length_append,length_singleton]; omega)
    rw [foldl_cons,hstep,ih (by rw [length_append,length_singleton]; omega)]
    simp

/-- The records of a batch. -/
def Batch.records (b : Batch) : Ledger :=
  let actions := requests b.action b.packages
  let before := statesFor b.rows (actions.map PackageRequest.package)
  (actions.map success).zipIdx.map fun p => resultRecord b.device before actions p.1 p.2

open Batch

theorem length_records (b : Batch) : b.records.length = b.packages.length := by
  simp [records,requests]

/-- Every package of a batch is recorded with the action of the batch. -/
theorem mem_records {b : Batch} {r : DebloatRecord} (h : r ∈ b.records) :
    r.device = b.device ∧ r.user = DEBLOAT_USER ∧ r.ok ∧ r.action = actionName b.action ∧
      ∃ p ∈ b.packages, r.package = trim p := by
  obtain ⟨⟨result,index⟩,hmem,rfl⟩ := mem_map.mp h
  have hget := mem_zipIdx_iff_getElem?.mp hmem
  rw [getElem?_map,Option.map_eq_some_iff] at hget
  obtain ⟨request,hrequest,rfl⟩ := hget
  have hr := hrequest
  rw [requests,getElem?_map,Option.map_eq_some_iff] at hrequest
  obtain ⟨p,hp,rfl⟩ := hrequest
  refine ⟨rfl,rfl,rfl,?_,p,mem_of_getElem? hp,rfl⟩
  simp [resultRecord,hr]

theorem map_package_records (b : Batch) : b.records.map DebloatRecord.package = b.packages.map trim := by
  rw [records,map_map]
  have hpackage : DebloatRecord.package ∘ (fun p : PackageResult × ℕ => resultRecord b.device
      (statesFor b.rows ((requests b.action b.packages).map PackageRequest.package)) (requests b.action b.packages) p.1 p.2) =
      PackageResult.package ∘ Prod.fst := rfl
  rw [hpackage,← map_map]
  simp [requests,success]

/-- The newest change of each package is taken back, and no other. -/
theorem foldl_undoRequests {records : List DebloatRecord} (seen : List Text) (phone : Text → PackageState) (p : Text)
    (h : ∀ r ∈ records, trim r.package = r.package ∧ ∃ a, actionFromName r.action = some a) :
    (undoRequests seen records).foldl carryOut phone p = if p ∈ seen then phone p else
      (((records.find? fun r => decide (r.package = p)).bind fun r => actionFromName r.action).map fun a =>
        targetState (inverse a)).getD (phone p) := by
  induction records generalizing seen phone with
  | nil => simp [undoRequests]
  | cons r rs ih =>
    have hrs := fun r hr => h r (mem_cons_of_mem _ hr)
    obtain ⟨htrim,a,ha⟩ := h r mem_cons_self
    rw [undoRequests]
    by_cases hseen : r.package ∈ seen
    · rw [if_pos hseen,ih seen phone hrs]
      split
      · rfl
      · rename_i hp
        have hne : r.package ≠ p := fun heq => hp (heq ▸ hseen)
        simp [hne]
    · rw [if_neg hseen,ha]
      simp only [foldl_cons]
      rw [ih _ _ hrs]
      by_cases heq : p = r.package
      · subst heq
        simp [hseen,carryOut,htrim,ha]
      · have hkeep : carryOut phone ⟨r.package,inverse a⟩ p = phone p := Function.update_of_ne (by rwa [htrim]) _ _
        simp [heq,Ne.symm heq,hkeep]

section

variable {device package : Text} {b : Batch}

/-- The records of a batch about a package of a phone. -/
def Batch.hits (device package : Text) (b : Batch) : Ledger :=
  b.records.filter fun r =>
    decide (r.package = package) && decide (r.device = device ∧ r.user = DEBLOAT_USER ∧ r.ok = true)

theorem mem_hits_iff {r : DebloatRecord} :
    r ∈ b.hits device package ↔ r ∈ b.records ∧ b.device = device ∧ r.package = package := by
  rw [hits,mem_filter]
  refine and_congr_right fun hr => ?_
  obtain ⟨hdevice,huser,hok,-⟩ := mem_records hr
  simp [hdevice,huser,hok,and_comm]

theorem hits_eq_nil_iff : b.hits device package = [] ↔ b.names device package = false := by
  rw [eq_nil_iff_forall_not_mem,names,decide_eq_false_iff_not,← map_package_records,mem_map]
  simp only [mem_hits_iff]
  constructor
  · rintro h ⟨hdevice,r,hr,hp⟩
    exact h r ⟨hr,hdevice,hp⟩
  · rintro h r ⟨hr,hdevice,hp⟩
    exact h ⟨hdevice,r,hr,hp⟩

theorem action_of_mem_hits {r : DebloatRecord} (h : r ∈ b.hits device package) :
    actionFromName r.action = some b.action := by
  obtain ⟨-,-,-,haction,-⟩ := mem_records (mem_hits_iff.mp h).1
  rw [haction,actionFromName_actionName]

/-- The newest record of a package has its last action. -/
theorem newest_action (device package : Text) (batches : List Batch) :
    ((batches.flatMap (hits device package)).getLast?).bind (fun r => actionFromName r.action) =
      lastAction device package batches := by
  unfold lastAction
  induction batches using List.reverseRecOn with
  | nil => rfl
  | append_singleton bs b ih =>
    rw [flatMap_append,getLast?_append]
    cases hnames : b.names device package with
    | false => simpa [hnames,hits_eq_nil_iff.mpr hnames] using ih
    | true =>
      have hne : b.hits device package ≠ [] := fun hnil => by simp [hits_eq_nil_iff.mp hnil] at hnames
      have haction := action_of_mem_hits (getLast_mem hne)
      simp [hnames,getLast?_eq_some_getLast hne,haction]

section

variable {old : Ledger} {batches : List Batch} (hold : undoable device DEBLOAT_USER old = [])

include hold

theorem undoable_append : undoable device DEBLOAT_USER (old++batches.flatMap records) =
    undoable device DEBLOAT_USER (batches.flatMap records) := by
  unfold undoable at hold ⊢
  rw [filter_append,reverse_append,hold,append_nil]

theorem undoable_newest (package : Text) :
    ((undoable device DEBLOAT_USER (old++batches.flatMap records)).find? fun r => decide (r.package = package)).bind
      (fun r => actionFromName r.action) = lastAction device package batches := by
  rw [undoable_append hold,undoable,← head?_filter,filter_reverse,head?_reverse,filter_filter, filter_flatMap]
  exact newest_action device package batches

theorem of_mem_undoable {r : DebloatRecord} (hr : r ∈ undoable device DEBLOAT_USER (old++batches.flatMap records)) :
    trim r.package = r.package ∧ ∃ a, actionFromName r.action = some a := by
  rw [undoable_append hold,undoable,mem_reverse,mem_filter,mem_flatMap] at hr
  obtain ⟨⟨b,-,hrb⟩,-⟩ := hr
  obtain ⟨-,-,-,haction,p,-,hp⟩ := mem_records hrb
  rw [hp,haction]
  exact ⟨trim_trim p,b.action,actionFromName_actionName b.action⟩

theorem exists_lastAction {r : DebloatRecord} (hr : r ∈ undoable device DEBLOAT_USER (old++batches.flatMap records)) :
    ∃ a, lastAction device r.package batches = some a := by
  rw [← undoable_newest hold]
  cases hfind : List.find? (fun r' : DebloatRecord => decide (r'.package = r.package)) _ with
  | none => exact absurd (decide_eq_true rfl) (find?_eq_none.mp hfind r hr)
  | some r' => exact (of_mem_undoable hold (mem_of_find?_eq_some hfind)).2

end

end

theorem foldl_run (batches : List Batch) (w : World)
    (h : w.ledger.length+(batches.map fun b => b.packages.length).sum < LEDGER_CAP) :
    (batches.foldl run w).ledger = w.ledger++batches.flatMap records := by
  induction batches generalizing w with
  | nil => simp
  | cons b bs ih =>
    rw [map_cons,sum_cons] at h
    have hshort : w.ledger.length+b.records.length < LEDGER_CAP := by
      rw [length_records]
      omega
    have hrun : (b.run w).ledger = w.ledger++b.records := foldl_recordChange hshort
    have hlen : (b.run w).ledger.length = w.ledger.length+b.packages.length := by
      rw [hrun,length_append,length_records]
    rw [foldl_cons,ih _ (by rw [hlen]; omega),hrun,flatMap_cons,append_assoc]

theorem undo_phones (device : Text) (rows : List Row) (w : World) : (undo device rows w).phones device =
    (undoRequests [] (undoable device DEBLOAT_USER w.ledger)).foldl carryOut (w.phones device) := by
  unfold undo confirmUndo
  cases hactions : undoRequests [] (undoable device DEBLOAT_USER w.ledger) with
  | nil => rfl
  | cons request rest => simp [runDebloat]

/-- Undoing puts every package of the phone that the ledger names back to where it started. -/
def Restored (start : Text → Text → PackageState) (device : Text) (rows : List Row) (w : World) : Prop :=
  ∀ r ∈ undoable device DEBLOAT_USER w.ledger, (undo device rows w).phones device r.package = start device r.package

/-- After batches that all succeeded, on this and on other phones, the undo restores a phone exactly if
the last action on each of its packages takes it out of the state that the inverse action leads to. -/
theorem restored_iff (start : Text → Text → PackageState) (old : Ledger) (batches : List Batch) (device : Text)
    (rows : List Row) (hold : undoable device DEBLOAT_USER old = [])
    (hcap : old.length+(batches.map fun b => b.packages.length).sum < LEDGER_CAP) :
    Restored start device rows (batches.foldl Batch.run ⟨start,old⟩) ↔
      ∀ package a, lastAction device package batches = some a → Reverses (start device package) a := by
  have hledger := foldl_run batches ⟨start,old⟩ hcap
  have hafter : ∀ package a, lastAction device package batches = some a →
      (undo device rows (batches.foldl run ⟨start,old⟩)).phones device package = targetState (inverse a) := by
    intro package a ha
    rw [undo_phones,hledger,foldl_undoRequests [] _ package fun _ => of_mem_undoable hold,undoable_newest hold,ha]
    simp
  constructor
  · intro h package a ha
    have hfind : _ = lastAction device package batches := undoable_newest hold package
    rw [ha,Option.bind_eq_some_iff] at hfind
    obtain ⟨r,hr,-⟩ := hfind
    obtain rfl : r.package = package := by simpa using find?_some hr
    have hback := h r (hledger ▸ mem_of_find?_eq_some hr)
    rw [hafter r.package a ha] at hback
    exact reverses_iff.mpr hback
  · intro h r hr
    rw [hledger] at hr
    obtain ⟨a,ha⟩ := exists_lastAction hold hr
    rw [hafter r.package a ha]
    exact reverses_iff.mp (h r.package a ha)

/-- Every app is in the same state. -/
def everywhere (state : PackageState) : Text → Text → PackageState := fun _ _ => state

def phone : Text := lit "phone"

def batch (action : PackageAction) : Batch := ⟨phone,action,[lit "com.app"],[]⟩

/-- An app that is disabled and then uninstalled is enabled again. -/
theorem restored_uninstalled : Restored (everywhere .enabled) phone []
      ([batch .disable,batch .uninstall].foldl Batch.run ⟨everywhere .enabled,[]⟩) := by
  refine (restored_iff (everywhere .enabled) [] [batch .disable,batch .uninstall] phone [] rfl
    (by decide)).mpr fun package a ha => ?_
  have hnames : (batch .disable).names phone package = (batch .uninstall).names phone package := rfl
  cases hb : (batch .uninstall).names phone package with
  | false => simp [lastAction,hnames,hb] at ha
  | true =>
    obtain rfl : (batch .uninstall).action = a := by simpa [lastAction,hnames,hb] using ha
    exact Or.inl ⟨rfl,Or.inr rfl⟩

/-- An app that is disabled and enabled again ends disabled, a disabled app that is uninstalled ends
enabled, and an uninstalled one that is restored ends disabled. -/
theorem undo_misses : ¬Restored (everywhere .enabled) phone []
      ([batch .disable,batch .enable].foldl Batch.run ⟨everywhere .enabled,[]⟩) ∧
    ¬Restored (everywhere .disabled) phone [] ([batch .uninstall].foldl Batch.run ⟨everywhere .disabled,[]⟩) ∧
    ¬Restored (everywhere .uninstalled) phone [] ([batch .restore].foldl Batch.run ⟨everywhere .uninstalled,[]⟩) := by
  refine ⟨fun h => ?_,fun h => ?_,fun h => ?_⟩
  · exact absurd (h _ (head_mem (by decide +kernel))) (by decide +kernel)
  · exact absurd (h _ (head_mem (by decide +kernel))) (by decide +kernel)
  · exact absurd (h _ (head_mem (by decide +kernel))) (by decide +kernel)

end AdbShare.DebloatLedger

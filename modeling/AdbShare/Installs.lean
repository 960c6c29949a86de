import AdbShare.Dict
import AdbShare.Onlooker
import AdbShare.ShellCommands
import Mathlib.Data.List.DropRight
import Mathlib.Data.List.Sort

/-! Installs: `start_install`, the pipeline it leaves running and the task that polls the size of
the staged file meanwhile. What `adb` answers is left open. Ids are taken as unbounded. -/
namespace AdbShare.Installs

open Service Transition Shell Function List
open ShellCommands (lit stageCommand INSTALL_STAGE)

def INSTALL_HISTORY_CAP : ℕ := 25

inductive Progress
  | pending
  | copying
  | installing
  | done
  | failed

structure InstallStatus where
  id : ℕ
  device : Text
  label : Text
  source : Text
  fromDevice : Bool
  stage : ℕ
  percent : ℕ
  bytesDone : ℕ
  bytesTotal : ℕ
  state : Progress
  errorCode : Option Text
  message : Option Text
  raw : Option Text
  finished : Bool

/-- The installs, and the tasks: pipelines that are spawned and have not begun, polls that are
not aborted, and polls between two rounds. -/
structure State where
  installs : Dict ℕ InstallStatus
  installRunning : Bool
  nextInstallId : ℕ
  spawned : List (ℕ × Text × Text)
  polling : List ℕ
  pollers : List (ℕ × Text)

def pruneInstalls (installs : Dict ℕ InstallStatus) : Dict ℕ InstallStatus :=
  let done := installs.keysOf InstallStatus.finished
  if done.length ≤ INSTALL_HISTORY_CAP then installs
  else installs.eraseAll ((done.insertionSort (· ≤ ·)).take (done.length-INSTALL_HISTORY_CAP))

/-- `char::is_whitespace`. -/
def isWhitespace (c : Char) : Bool :=
  let n := c.toNat
  decide (9 ≤ n ∧ n ≤ 13 ∨ n = 32 ∨ n = 0x85 ∨ n = 0xA0 ∨ n = 0x1680 ∨ 0x2000 ≤ n ∧ n ≤ 0x200A ∨
    n = 0x2028 ∨ n = 0x2029 ∨ n = 0x202F ∨ n = 0x205F ∨ n = 0x3000)

def trim (s : Text) : Text := (s.dropWhile isWhitespace).rdropWhile isWhitespace

def contains (s needle : Text) : Bool := decide (needle <:+: s)

/-- `parse::<u64>`. -/
def parseU64 (s : Text) : Option ℕ :=
  let digits := if s.head? = some '+' then s.tail else s
  let n := digits.foldl (fun n c => n*10+(c.toNat-48)) 0
  if digits ≠ [] ∧ digits.all Char.isDigit ∧ n < 2^64 then some n else none

def classifyInstallFailure (trimmed : Text) : Option Text × Text :=
  if contains trimmed (lit "INSTALL_FAILED_VERSION_DOWNGRADE") then
    (some (lit "downgrade"),lit "A newer version of this application is already installed on the device.")
  else if contains trimmed (lit "INSTALL_FAILED_UPDATE_INCOMPATIBLE") then
    (some (lit "signature_mismatch"),
      lit "Signatures do not match the installed version. The old app has to be uninstalled\n             before installing this one; its data will be lost.")
  else if contains trimmed (lit "INSTALL_FAILED_INSUFFICIENT_STORAGE") then
    (some (lit "insufficient_storage"),lit "The device does not have enough storage space for this package.")
  else if contains trimmed (lit "INSTALL_FAILED_CONFLICTING_PROVIDER") then
    (some (lit "conflicting_provider"),lit "Another app already registers the same content provider.")
  else if contains trimmed (lit "INSTALL_FAILED_NO_MATCHING_ABIS") then
    (some (lit "no_matching_abis"),lit "This package does not support the device's CPU architecture.")
  else if contains trimmed (lit "INSTALL_PARSE_FAILED") then
    (some (lit "parse_failed"),lit "The file appears damaged or is not a valid APK.")
  else if ["device not found","no devices","device offline","closed","more than one"].any fun needle =>
      contains (trimmed.map Char.toLower) (lit needle) then
    (some (lit "device_offline"),lit "The phone disconnected (or is not authorised for debugging).")
  else (some (lit "unknown"),trimmed)

/-- The closures given to `update_install`. -/
inductive Mutation
  | copying
  | polled (done : ℕ)
  | pushed
  | installing

def Mutation.apply : Mutation → InstallStatus → InstallStatus
  | .copying, st => { st with state := .copying, stage := 2 }
  | .polled done, st => { st with
      bytesDone := done
      percent := if st.bytesTotal = 0 then st.percent else min (done*100%2^64/st.bytesTotal) 100 }
  | .pushed, st => { st with bytesDone := st.bytesTotal, percent := 100 }
  | .installing, st => { st with state := .installing, stage := 4 }

def sign (code message raw : Option Text) (success : Bool) (st : InstallStatus) : InstallStatus :=
  { st with
    finished := true
    state := if success then .done else .failed
    stage := 5
    percent := if success then 100 else st.percent
    errorCode := code
    message := message
    raw := raw }

/-- A command that ran to its end, its output decoded. -/
structure Output where
  success : Bool
  stdout : Text
  stderr : Text

/-- How the call of `pm install` ends. -/
inductive PmResult
  | timeout
  | error (e : Text)
  | output (out : Output)

inductive Act : Type → Type
  | clientFor (device : Text) : Act Bool
  | pathExists (path : Text) : Act Bool
  | reserve (device path : Text) (fromDevice hostExists : Bool) : Act (Option ℕ)
  | spawn (id : ℕ) (device path : Text) : Act Unit
  | fromDevice (id : ℕ) : Act Bool
  | updateInstall (id : ℕ) (mutate : Mutation) : Act Unit
  | adbShell (device command : Text) : Act (Except Text Text)
  | spawnPoll (id : ℕ) (device : Text) : Act Unit
  | abortPoll (id : ℕ) : Act Unit
  | pollSleep (id : ℕ) : Act Unit
  | pollShell (id : ℕ) (device command : Text) : Act (Except Text Text)
  | adbPush (device path : Text) : Act (Except Text Output)
  | pmInstall (device command : Text) : Act PmResult
  | addInstallSigned (id : ℕ) (code message raw : Option Text) (success : Bool) : Act Unit

/-- What the world adds to an action. -/
structure Choice where
  yes : Bool := true
  len : Option ℕ := none
  answer : Except Text Text := .ok []
  push : Except Text Output := .ok ⟨true,[],[]⟩
  pm : PmResult := .timeout

/-- The last component of a path, if it is a name. -/
def fileName (path : Text) : Option Text :=
  match ((path.splitOn '/').filter fun c => decide (c ≠ [] ∧ c ≠ ['.'])).getLast? with
  | some ['.','.'] => none
  | last => last

def newStatus (id : ℕ) (device path : Text) (fromDevice hostExists : Bool) (len : Option ℕ) : InstallStatus where
  id := id
  device := device
  label := (fileName path).getD path
  source := path
  fromDevice := fromDevice
  stage := 0
  percent := 0
  bytesDone := 0
  bytesTotal := if fromDevice || !hostExists then 0 else len.getD 0
  state := .pending
  errorCode := none
  message := none
  raw := none
  finished := false

/-- `start_install` takes the slot for a new install. -/
def State.reserve (s : State) (device path : Text) (fromDevice hostExists : Bool) (len : Option ℕ) : State :=
  let id := s.nextInstallId
  { s with
    nextInstallId := id+1
    installRunning := true
    installs := pruneInstalls (AList.insert id (newStatus id device path fromDevice hostExists len) s.installs) }

def State.addInstallSigned (s : State) (id : ℕ) (code message raw : Option Text) (success : Bool) : State :=
  { s with
    installRunning := false
    installs := pruneInstalls (s.installs.adjust id (sign code message raw success)) }

def run : {β : Type} → Act β → Choice → State → Option (β × State)
  | _, .clientFor _, x, s => some (x.yes,s)
  | _, .pathExists _, x, s => some (x.yes,s)
  | _, .reserve device path fromDevice hostExists, x, s =>
    if s.installRunning then some (none,s)
    else some (some s.nextInstallId,s.reserve device path fromDevice hostExists x.len)
  | _, .spawn id device path, _, s => some ((),{ s with spawned := (id,device,path)::s.spawned })
  | _, .fromDevice id, _, s => some (((s.installs.lookup id).map InstallStatus.fromDevice).getD false,s)
  | _, .updateInstall id mutate, _, s => some ((),{ s with installs := s.installs.adjust id mutate.apply })
  | _, .adbShell _ _, x, s => some (x.answer,s)
  | _, .spawnPoll id device, _, s => some ((),{ s with polling := id::s.polling, pollers := (id,device)::s.pollers })
  | _, .abortPoll id, _, s => some ((),{ s with polling := s.polling.erase id })
  | _, .pollSleep id, _, s => if id ∈ s.polling then some ((),s) else none
  | _, .pollShell id _ _, x, s => if id ∈ s.polling then some (x.answer,s) else none
  | _, .adbPush _ _, x, s => some (x.push,s)
  | _, .pmInstall _ _, x, s => some (x.pm,s)
  | _, .addInstallSigned id code message raw success, _, s => some ((),s.addInstallSigned id code message raw success)

inductive Req
  | startInstall (device path : Text)
  | pipeline (id : ℕ) (device path : Text)
  | poll (id : ℕ) (device : Text)

inductive Reply
  | started (id : ℕ)
  | invalidArgs (text : Text)
  | serviceUnknown (text : Text)
  | failed (text : Text)
  | ended
  | polled

open Prog (perform)

def isDeviceLocalPath (path : Text) : Prog Act Bool :=
  if ["/sdcard/","/storage/","/data/","/mnt/"].any fun root => (lit root).isPrefixOf path then pure true
  else if path.head? = some '/' then do
    let found ← perform (.pathExists path)
    pure !found
  else pure false

def startInstall (device path : Text) : Prog Act Reply :=
  if device = [] ∨ path = [] then pure (.invalidArgs (lit "device and path are required"))
  else do
    if ← perform (.clientFor device) then
      let fromDevice ← isDeviceLocalPath path
      let hostExists ← perform (.pathExists path)
      if !fromDevice && !hostExists then pure (.invalidArgs (path++lit " does not exist on this computer"))
      else
        match ← perform (.reserve device path fromDevice hostExists) with
        | none => pure (.failed (lit "another installation is already running; wait for it to finish"))
        | some id =>
          perform (.spawn id device path)
          pure (.started id)
    else pure (.serviceUnknown (lit "device not connected"))

def installFailed (id : ℕ) (code : Option Text) (message : Text) (raw : Option Text) : Prog Act Unit :=
  perform (.addInstallSigned id code (some message) raw false)

def installSucceeded (id : ℕ) (raw : Text) : Prog Act Unit :=
  perform (.addInstallSigned id none none (some raw) true)

/-- Copy a file that is on the device already; if that fails, the install has. -/
def stageOnDevice (id : ℕ) (device path : Text) : Prog Act Bool := do
  match ← perform (.adbShell device (stageCommand path)) with
  | .error e =>
    let raw := lit "copying "++path++lit " into the staging area: "++e
    installFailed id (some (lit "unknown")) raw (some raw)
    pure false
  | .ok _ => pure true

/-- Push a file of this computer, with a poll of its size running meanwhile. -/
def stageFromHost (id : ℕ) (device path : Text) : Prog Act Bool := do
  perform (.spawnPoll id device)
  let push ← perform (.adbPush device path)
  perform (.abortPoll id)
  match push with
  | .error _ =>
    let e := lit "push never returned"
    installFailed id (some (lit "device_offline")) e (some e)
    pure false
  | .ok out =>
    if out.success then
      perform (.updateInstall id .pushed)
      pure true
    else
      let trimmed := trim (out.stdout++out.stderr)
      let failure := classifyInstallFailure trimmed
      let message := if failure.2 ≠ trimmed then failure.2++lit "\n\n"++trimmed else failure.2
      installFailed id failure.1 message (some trimmed)
      pure false

def isFailure (success : Bool) (trimmed : Text) : Bool :=
  !success || contains trimmed (lit "Failure [") || (lit "Failure").isPrefixOf trimmed ||
    contains trimmed (lit "INSTALL_FAILED")

/-- `pm install` on the staged file, and its removal. -/
def commitInstall (id : ℕ) (device : Text) : Prog Act Unit := do
  perform (.updateInstall id .installing)
  let out ← perform (.pmInstall device (lit "pm install -r "++lit INSTALL_STAGE))
  let _ ← perform (.adbShell device (lit "rm -f "++lit INSTALL_STAGE))
  match out with
  | .timeout => installFailed id (some (lit "timeout")) (lit "pm install did not answer in time.") none
  | .error e =>
    let raw := lit "pm install: "++e
    installFailed id (some (lit "device_offline")) raw (some raw)
  | .output out =>
    let trimmed := trim (out.stdout++out.stderr)
    if isFailure out.success trimmed then
      let failure := classifyInstallFailure trimmed
      installFailed id failure.1 (failure.2++lit "\n\n"++trimmed) (some trimmed)
    else installSucceeded id trimmed

def performInstall (id : ℕ) (device path : Text) : Prog Act (Except Text Unit) := do
  let fromDevice ← perform (.fromDevice id)
  perform (.updateInstall id .copying)
  let staged ← if fromDevice then stageOnDevice id device path else stageFromHost id device path
  if staged then
    commitInstall id device
    pure (.ok ())
  else pure (.ok ())

def runInstallPipeline (id : ℕ) (device path : Text) : Prog Act Reply := do
  match ← performInstall id device path with
  | .error err =>
    installFailed id (some (lit "unknown")) (lit "the install could not be completed: "++err) (some err)
    pure .ended
  | .ok _ => pure .ended

/-- One round of the poll. -/
def pollRound (id : ℕ) (device : Text) : Prog Act Reply := do
  perform (.pollSleep id)
  match ← perform (.pollShell id device (lit "stat -c %s "++lit INSTALL_STAGE)) with
  | .error _ => pure .polled
  | .ok out =>
    perform (.updateInstall id (.polled ((parseU64 (trim out)).getD 0)))
    pure .polled

def handler : Req → Prog Act Reply
  | .startInstall device path => startInstall device path
  | .pipeline id device path => runInstallPipeline id device path
  | .poll id device => pollRound id device

/-- Only what was spawned runs, and a poll does one round after the other. -/
def arrive : Req → State → Option State
  | .startInstall _ _, s => some s
  | .pipeline id device path, s =>
    if (id,device,path) ∈ s.spawned then some { s with spawned := s.spawned.erase (id,device,path) } else none
  | .poll id device, s =>
    if (id,device) ∈ s.pollers then some { s with pollers := s.pollers.erase (id,device) } else none

def leave : Req → Reply → State → State
  | .poll id device, _, s => { s with pollers := (id,device)::s.pollers }
  | _, _, s => s

def service : Service Act State Choice Req Reply := ⟨run,handler,arrive,leave⟩

/-- What the table says about an install, if it is there. -/
def shows (installs : Dict ℕ InstallStatus) (id : ℕ) : Option Bool := (installs.lookup id).map InstallStatus.finished

/-- The table when the installs before `high` have finished and are kept from `low` on. -/
def expected (low high : ℕ) (running : Bool) (id : ℕ) : Option Bool :=
  if low ≤ id ∧ id < high then some true
  else if running = true ∧ id = high then some false
  else none

section

variable {installs : Dict ℕ InstallStatus} {low high : ℕ} {running : Bool} {id : ℕ}

theorem expected_eq_true : expected low high running id = some true ↔ low ≤ id ∧ id < high := by
  unfold expected
  split_ifs <;> simp_all

theorem expected_eq_false : expected low high running id = some false ↔ running ∧ id = high := by
  unfold expected
  split_ifs with hdone
  · simp only [Option.some.injEq,Bool.true_eq_false,false_iff,not_and]
    omega
  · simpa
  · simp_all

section

variable (h : ∀ id, shows installs id = expected low high running id)
include h

/-- The finished installs in the order of their ids. -/
theorem sorted_finished :
    (installs.keysOf InstallStatus.finished).insertionSort (· ≤ ·) = List.range' low (high-low) := by
  have hperm : (installs.keysOf InstallStatus.finished).Perm (List.range' low (high-low)) := by
    rw [perm_ext_iff_of_nodup (Dict.keysOf_nodup _ _) nodup_range']
    intro id
    rw [Dict.mem_keysOf,← Option.map_eq_some_iff,← shows,h,expected_eq_true,mem_range'_1]
    omega
  exact ((perm_insertionSort _ _).trans hperm).eq_of_sortedLE sortedLE_insertionSort (sortedLE_range' _ _ _)

theorem length_finished : (installs.keysOf InstallStatus.finished).length = high-low := by
  rw [← length_insertionSort (· ≤ ·),sorted_finished h,length_range']

theorem length_unfinished : (installs.keysOf fun st => !st.finished).length = running.toNat := by
  have hmem : ∀ id, id ∈ installs.keysOf (fun st => !st.finished) ↔ running ∧ id = high := by
    intro id
    rw [Dict.mem_keysOf,← @expected_eq_false low,← h,shows,Option.map_eq_some_iff]
    simp
  cases running with
  | false =>
    have hnil : installs.keysOf (fun st => !st.finished) = [] := eq_nil_iff_forall_not_mem.mpr fun id hid => by
      simpa using (hmem id).mp hid
    rw [hnil]
    rfl
  | true =>
    have hperm : (installs.keysOf fun st => !st.finished).Perm [high] := by
      rw [perm_ext_iff_of_nodup (Dict.keysOf_nodup _ _) (nodup_singleton _)]
      intro id
      rw [hmem]
      simp
    exact hperm.length_eq

/-- Pruning keeps the newest of those that have finished. -/
theorem shows_pruneInstalls (id : ℕ) :
    shows (pruneInstalls installs) id = expected (max low (high-INSTALL_HISTORY_CAP)) high running id := by
  have hlength := length_finished h
  rw [pruneInstalls]
  split_ifs with hfew
  · rw [h,max_eq_left (by omega)]
  rw [sorted_finished h,take_range'_of_length_ge (by omega),shows,Dict.lookup_eraseAll]
  have hid := h id
  rw [shows] at hid
  split_ifs with hdrop
  · rw [mem_range'_1] at hdrop
    unfold expected
    rw [if_neg (by omega),if_neg (by omega)]
    rfl
  · rw [hid]
    rw [mem_range'_1] at hdrop
    unfold expected
    split_ifs <;> first | rfl | omega

end

end

/-- What a thread is bound to do: a call that has reserved the slot to spawn the pipeline, a
pipeline to finish its install, and nothing after that. -/
inductive Duty
  | none
  | reserved (id : ℕ)
  | pipes (id : ℕ)
  | through (id : ℕ)

def Duty.holds : Duty → Option ℕ
  | .reserved id => some id
  | .pipes id => some id
  | _ => .none

/-- The ids given out so far, how often each install was marked finished, and the duties. -/
structure Ledger where
  issued : List ℕ
  marks : ℕ → ℕ
  duty : ℕ → Duty

def issues : {β : Type} → Act β → β → List ℕ
  | _, .reserve _ _ _ _, some id => [id]
  | _, _, _ => []

def signs : {β : Type} → Act β → Option ℕ
  | _, .addInstallSigned id _ _ _ _ => some id
  | _, _ => none

def after (g : Duty) : {β : Type} → Act β → β → Duty
  | _, .reserve _ _ _ _, some id => .reserved id
  | _, .spawn _ _ _, _ => .none
  | _, .addInstallSigned id _ _ _ _, _ => .through id
  | _, _, _ => g

def before : Req → Duty
  | .pipeline id _ _ => .pipes id
  | _ => .none

def onlooker : Onlooker Act State Choice Req Reply Ledger where
  start t q n := { n with duty := update n.duty t (before q) }
  act t _ _ a _ _ b n :=
    ⟨n.issued++issues a b,fun id => n.marks id+if signs a = some id then 1 else 0,
      update n.duty t (after (n.duty t) a b)⟩
  reply t _ _ n := { n with duty := update n.duty t .none }

abbrev World := Watched Act State Req Reply Ledger

def init : World := ⟨⟨⟨∅,false,0,[],[],[]⟩,fun _ => none⟩,⟨[],fun _ => 0,fun _ => .none⟩⟩

/-- The duty under which an action is performed. -/
def Suits : Duty → (β : Type) → Act β → Prop
  | g, _, .clientFor _ => g = .none
  | g, _, .pathExists _ => g = .none
  | g, _, .reserve _ _ _ _ => g = .none
  | g, _, .spawn id _ _ => g = .reserved id
  | g, _, .fromDevice id => g = .pipes id
  | g, _, .updateInstall id _ => g = .pipes id ∨ g = .none
  | g, _, .adbShell _ _ => ∃ id, g = .pipes id
  | g, _, .spawnPoll id _ => g = .pipes id
  | g, _, .abortPoll id => g = .pipes id
  | g, _, .pollSleep _ => g = .none
  | g, _, .pollShell _ _ _ => g = .none
  | g, _, .adbPush _ _ => ∃ id, g = .pipes id
  | g, _, .pmInstall _ _ => ∃ id, g = .pipes id
  | g, _, .addInstallSigned id _ _ _ _ => g = .pipes id

def Moves (_ : Req) (g : Duty) (β : Type) (a : Act β) (b : β) (g' : Duty) : Prop := g' = after g a b

def Ends (g : Duty) (_ : Reply) : Prop := g = .none ∨ ∃ id, g = .through id

variable {device path : Text} {q : Req} {β : Type} {a : Act β} {x : Choice} {s s' : State} {b : β} {w w' : World}
  {e : Event Choice Req} {es : List (Event Choice Req)} {t : ℕ} {g : Duty} {p : Prog Act Reply}

section

variable {id : ℕ} {message : Text} {code raw : Option Text}

theorem obeys_installFailed :
    (installFailed id code message raw).Obeys Suits (Moves q) (fun g _ => g = .through id) (.pipes id) :=
  ⟨rfl,fun _ _ h => h⟩

theorem obeys_stageOnDevice : (stageOnDevice id device path).Obeys Suits (Moves q)
    (fun g staged => g = if staged then .pipes id else .through id) (.pipes id) := by
  refine ⟨⟨id,rfl⟩,?_⟩
  rintro (e | out) g rfl
  · exact obeys_installFailed.bind fun g _ hg => hg
  · rfl

theorem obeys_stageFromHost : (stageFromHost id device path).Obeys Suits (Moves q)
    (fun g staged => g = if staged then .pipes id else .through id) (.pipes id) := by
  refine ⟨rfl,?_⟩
  rintro _ g rfl
  refine ⟨⟨id,rfl⟩,?_⟩
  rintro push g rfl
  refine ⟨rfl,?_⟩
  rintro _ g rfl
  cases push with
  | error e => exact obeys_installFailed.bind fun g _ hg => hg
  | ok out =>
    dsimp only [Prog.bind]
    split
    · refine ⟨.inl rfl,?_⟩
      rintro _ g rfl
      rfl
    · exact obeys_installFailed.bind fun g _ hg => hg

theorem obeys_commitInstall : (commitInstall id device).Obeys Suits (Moves q) (fun g _ => g = .through id) (.pipes id) := by
  refine ⟨.inl rfl,?_⟩
  rintro _ g rfl
  refine ⟨⟨id,rfl⟩,?_⟩
  rintro out g rfl
  refine ⟨⟨id,rfl⟩,?_⟩
  rintro _ g rfl
  cases out with
  | timeout => exact obeys_installFailed
  | error e => exact obeys_installFailed
  | output out =>
    dsimp only
    split_ifs
    · exact obeys_installFailed
    · exact ⟨rfl,fun _ _ h => h⟩

/-- The pipeline marks its install once, whichever way it takes, and reports no error. -/
theorem obeys_performInstall : (performInstall id device path).Obeys Suits (Moves q)
    (fun g r => g = .through id ∧ r = .ok ()) (.pipes id) := by
  refine ⟨rfl,?_⟩
  rintro fromDevice g rfl
  refine ⟨.inl rfl,?_⟩
  rintro _ g rfl
  have hrest : ∀ g staged, g = (if staged then .pipes id else .through id) →
      (if staged = true then commitInstall id device >>= fun _ => pure (.ok ()) else pure (.ok ()) :
        Prog Act (Except Text Unit)).Obeys Suits (Moves q) (fun g r => g = .through id ∧ r = .ok ()) g := by
    rintro _ (_ | _) rfl
    · exact ⟨rfl,rfl⟩
    · exact obeys_commitInstall.bind fun g _ hg => ⟨hg,rfl⟩
  cases fromDevice
  · exact obeys_stageFromHost.bind hrest
  · exact obeys_stageOnDevice.bind hrest

theorem obeys_runInstallPipeline : (runInstallPipeline id device path).Obeys Suits (Moves q) Ends (.pipes id) := by
  refine obeys_performInstall.bind ?_
  rintro _ _ ⟨rfl,rfl⟩
  exact .inr ⟨id,rfl⟩

theorem obeys_isDeviceLocalPath : (isDeviceLocalPath path).Obeys Suits (Moves q) (fun g _ => g = .none) .none := by
  unfold isDeviceLocalPath
  split_ifs
  · rfl
  · exact ⟨rfl,fun _ _ h => h⟩
  · rfl

theorem obeys_startInstall : (startInstall device path).Obeys Suits (Moves q) Ends .none := by
  unfold startInstall
  split_ifs
  · exact .inl rfl
  refine ⟨rfl,?_⟩
  rintro (_ | _) g rfl
  · exact .inl rfl
  refine obeys_isDeviceLocalPath.bind ?_
  rintro _ fromDevice rfl
  refine ⟨rfl,?_⟩
  rintro hostExists g rfl
  dsimp only [Prog.bind]
  split_ifs
  · exact .inl rfl
  refine ⟨rfl,?_⟩
  rintro (_ | id) g rfl
  · exact .inl rfl
  · refine ⟨rfl,?_⟩
    rintro _ g rfl
    exact .inl rfl

theorem obeys_pollRound : (pollRound id device).Obeys Suits (Moves q) Ends .none := by
  refine ⟨rfl,?_⟩
  rintro _ g rfl
  refine ⟨rfl,?_⟩
  rintro (e | out) g rfl
  · exact .inl rfl
  · refine ⟨.inr rfl,?_⟩
    rintro _ g rfl
    exact .inl rfl

theorem obeys_handler (q : Req) : (handler q).Obeys Suits (Moves q) Ends (before q) := by
  cases q with
  | startInstall device path => exact obeys_startInstall
  | pipeline id device path => exact obeys_runInstallPipeline
  | poll id device => exact obeys_pollRound

end

/-- The state says the same of the installs. -/
structure Alike (s s' : State) : Prop where
  table : ∀ id, shows s'.installs id = shows s.installs id
  running : s'.installRunning = s.installRunning
  next : s'.nextInstallId = s.nextInstallId

inductive Effect (s : State) : (β : Type) → Act β → β → State → Prop
  | reserve {device path : Text} {fromDevice hostExists : Bool} {len : Option ℕ} (hfree : s.installRunning = false) :
      Effect s _ (.reserve device path fromDevice hostExists) (some s.nextInstallId) (s.reserve device path fromDevice hostExists len)
  | spawn {id : ℕ} {device path : Text} :
      Effect s _ (.spawn id device path) () { s with spawned := (id,device,path)::s.spawned }
  | sign {id : ℕ} {code message raw : Option Text} {success : Bool} :
      Effect s _ (.addInstallSigned id code message raw success) () (s.addInstallSigned id code message raw success)
  | other {β : Type} {a : Act β} {b : β} {s' : State} (hs : Alike s s') (hspawned : s'.spawned = s.spawned)
      (hissues : issues a b = []) (hsigns : signs a = none) (hafter : ∀ g, after g a b = g) : Effect s β a b s'

theorem shows_adjust_apply (installs : Dict ℕ InstallStatus) (id : ℕ) (m : Mutation) (id' : ℕ) :
    shows (installs.adjust id m.apply) id' = shows installs id' := by
  rw [shows,Dict.lookup_adjust]
  split_ifs with h
  · subst h
    rw [Option.map_map,shows]
    congr 1
    funext st
    cases m <;> rfl
  · rfl

theorem run_effect (h : run a x s = some (b,s')) : Effect s β a b s' := by
  cases a with
  | reserve device path fromDevice hostExists =>
    rw [run] at h
    split_ifs at h with hrunning
    · cases h
      exact .other ⟨fun _ => rfl,rfl,rfl⟩ rfl rfl rfl fun _ => rfl
    · cases h
      exact .reserve (by simpa using hrunning)
  | spawn id device path =>
    cases h
    exact .spawn
  | addInstallSigned id code message raw success =>
    cases h
    exact .sign
  | updateInstall id m =>
    cases h
    exact .other ⟨shows_adjust_apply s.installs id m,rfl,rfl⟩ rfl rfl rfl fun _ => rfl
  | pollSleep id | pollShell id device command =>
    rw [run] at h
    split_ifs at h
    cases h
    exact .other ⟨fun _ => rfl,rfl,rfl⟩ rfl rfl rfl fun _ => rfl
  | _ =>
    cases h
    exact .other ⟨fun _ => rfl,rfl,rfl⟩ rfl rfl rfl fun _ => rfl

/-- The installs before `high` have finished, and the one that may be running is `high`. -/
structure Kept (s : State) (n : Ledger) (high : ℕ) : Prop where
  next : s.nextInstallId = high+s.installRunning.toNat
  issued : n.issued = List.range s.nextInstallId
  marks : ∀ id, n.marks id = if id < high then 1 else 0
  table : ∀ id, shows s.installs id = expected (high-INSTALL_HISTORY_CAP) high s.installRunning id

def Waiting (s : State) (duty : ℕ → Duty) (id : ℕ) : Prop :=
  (∃ device path, s.spawned = [(id,device,path)]) ∧ ∀ t, (duty t).holds = none

def Serving (s : State) (duty : ℕ → Duty) (id t : ℕ) : Prop :=
  s.spawned = [] ∧ (duty t).holds = some id ∧ ∀ t', t' ≠ t → (duty t').holds = none

/-- The slot is taken for one install, whose pipeline is yet to begin or in the hands of one
thread. -/
structure Slot (s : State) (duty : ℕ → Duty) (high : ℕ) : Prop where
  free : s.installRunning = false → s.spawned = [] ∧ ∀ t, (duty t).holds = none
  taken : s.installRunning = true → Waiting s duty high ∨ ∃ t, Serving s duty high t

def Fits (marks : ℕ → ℕ) : Req → Duty → Prop
  | .pipeline id _ _, g => g = .pipes id ∨ g = .through id ∧ marks id = 1
  | _, g => ∀ id, g ≠ .pipes id

structure Sound (w : World) (high : ℕ) : Prop where
  kept : Kept w.config.shared w.notes high
  slot : Slot w.config.shared w.notes.duty high
  fits : ∀ t q p, w.config.threads t = some (q,p) → Fits w.notes.marks q (w.notes.duty t)

def Dutiful (w : World) : Prop := Abides (fun n t => n.duty t) Suits Moves Ends .none w

section

variable {n n' : Ledger} {duty duty' : ℕ → Duty} {high id : ℕ} {fromDevice hostExists : Bool} {len : Option ℕ}

theorem Slot.holder (h : Slot s duty high) (hg : duty t = g) (hholds : g.holds = some id) :
    s.installRunning ∧ id = high ∧ Serving s duty high t := by
  have ht : (duty t).holds = some id := hg ▸ hholds
  have hrunning : s.installRunning := by
    by_contra hfree
    rw [(h.free (by simpa using hfree)).2 t] at ht
    cases ht
  obtain hwait | ⟨t',hserve⟩ := h.taken hrunning
  · rw [hwait.2 t] at ht
    cases ht
  by_cases htt : t = t'
  · subst htt
    exact ⟨hrunning,Option.some.inj (ht.symm.trans hserve.2.1),hserve⟩
  · rw [hserve.2.2 t htt] at ht
    cases ht

theorem Slot.congr (h : Slot s duty high) (hs : s'.installRunning = s.installRunning) (hspawned : s'.spawned = s.spawned)
    (hduty : ∀ t, (duty' t).holds = (duty t).holds) : Slot s' duty' high := by
  constructor
  · rw [hs,hspawned]
    exact fun hfree => ⟨(h.free hfree).1,fun t => (hduty t).trans ((h.free hfree).2 t)⟩
  rw [hs]
  intro htaken
  obtain hwait | ⟨t,hserve⟩ := h.taken htaken
  · exact .inl ⟨hspawned ▸ hwait.1,fun t => (hduty t).trans (hwait.2 t)⟩
  · exact .inr ⟨t,hspawned.trans hserve.1,(hduty t).trans hserve.2.1,fun t' ht' => (hduty t').trans (hserve.2.2 t' ht')⟩

theorem holds_update_same (hg : g.holds = (duty t).holds) (t' : ℕ) : (update duty t g t').holds = (duty t').holds :=
  (forall_update_iff duty fun t' g => g.holds = (duty t').holds).mpr ⟨hg,fun _ _ => rfl⟩ t'

/-- The thread gives up what it holds, and nobody else holds anything. -/
theorem holds_update_none (hg : g.holds = none) (hothers : ∀ t', t' ≠ t → (duty t').holds = none) (t' : ℕ) :
    (update duty t g t').holds = none :=
  (forall_update_iff duty fun _ g => g.holds = none).mpr ⟨hg,hothers⟩ t'

theorem serving_update (hspawned : s.spawned = []) (hg : g.holds = some id)
    (hothers : ∀ t', t' ≠ t → (duty t').holds = none) : Serving s (update duty t g) id t := by
  refine ⟨hspawned,?_,?_⟩
  · rwa [update_self]
  · intro t' htt
    rw [update_of_ne htt]
    exact hothers t' htt

theorem Kept.congr (h : Kept s n high) (hs : Alike s s') (hissued : n'.issued = n.issued)
    (hmarks : n'.marks = n.marks) : Kept s' n' high where
  next := by rw [hs.next,hs.running,h.next]
  issued := by rw [hissued,hs.next,h.issued]
  marks := by rw [hmarks]; exact h.marks
  table := by intro id; rw [hs.table,hs.running,h.table]

theorem Kept.marks_eq_one (h : Kept s n high) : n.marks id = 1 ↔ id < high := by
  rw [h.marks]
  split_ifs with hid
  · exact iff_of_true rfl hid
  · exact iff_of_false nofun hid

theorem Kept.next_free (h : Kept s n high) (hfree : s.installRunning = false) : s.nextInstallId = high := by
  rw [h.next,hfree]
  rfl

theorem Kept.reserve (h : Kept s n high) (hfree : s.installRunning = false) (duty' : ℕ → Duty) :
    Kept (s.reserve device path fromDevice hostExists len) ⟨n.issued++[s.nextInstallId],n.marks,duty'⟩ high := by
  have hnext := h.next_free hfree
  refine ⟨?_,?_,h.marks,?_⟩
  · show s.nextInstallId+1 = high+1
    rw [hnext]
  · show n.issued++[s.nextInstallId] = List.range (s.nextInstallId+1)
    rw [h.issued,range_succ]
  intro id
  show shows (pruneInstalls _) id = expected (high-INSTALL_HISTORY_CAP) high true id
  rw [hnext,← max_self (high-INSTALL_HISTORY_CAP)]
  apply shows_pruneInstalls
  intro id'
  rw [shows,Dict.lookup_insert_if]
  split_ifs with hid
  · subst hid
    simp [expected,newStatus]
  have htable := h.table id'
  rw [shows,hfree] at htable
  rw [htable]
  simp [expected,hid]

theorem Kept.sign (h : Kept s n high) (hrunning : s.installRunning) (code message raw : Option Text)
    (success : Bool) (duty' : ℕ → Duty) :
    Kept (s.addInstallSigned high code message raw success)
      ⟨n.issued++[],fun id => n.marks id+if some high = some id then 1 else 0,duty'⟩ (high+1) := by
  refine ⟨?_,(append_nil _).trans h.issued,?_,?_⟩
  · show s.nextInstallId = high+1+0
    rw [h.next,hrunning]
    rfl
  · intro id
    show n.marks id+(if some high = some id then 1 else 0) = if id < high+1 then 1 else 0
    rw [h.marks]
    simp only [Option.some.injEq]
    split_ifs <;> omega
  · intro id
    show shows (pruneInstalls _) id = expected (high+1-INSTALL_HISTORY_CAP) (high+1) false id
    have hmax : max (high-INSTALL_HISTORY_CAP) (high+1-INSTALL_HISTORY_CAP) = high+1-INSTALL_HISTORY_CAP := by omega
    rw [← hmax]
    apply shows_pruneInstalls
    intro id'
    have htable := h.table id'
    rw [hrunning,shows] at htable
    rw [shows,Dict.lookup_adjust]
    split_ifs with hid
    · subst hid
      rw [expected_eq_false.mpr ⟨rfl,rfl⟩,Option.map_eq_some_iff] at htable
      obtain ⟨st,hst,-⟩ := htable
      rw [hst,expected_eq_true.mpr (by omega)]
      rfl
    · have hkeep : id' < high+1 ↔ id' < high := by omega
      rw [htable]
      simp [expected,hkeep,hid]

end

theorem init_dutiful : Dutiful init := ⟨nofun,fun _ _ => rfl⟩

theorem watch_dutiful (hw : Dutiful w) (h : watch service onlooker w e = some w') : Dutiful w' := by
  refine Abides.watches (i := before) hw (fun q _ _ _ => obeys_handler q) (fun _ _ _ _ => rfl) ?_ (fun _ _ _ _ => rfl)
    ?_ (watch_watches h)
  · intro t q β a x s b n t' htt
    exact update_of_ne htt _ _
  · intro t x q β a k b s _ _ _
    exact update_self _ _ _

theorem init_sound : Sound init 0 where
  kept := ⟨rfl,rfl,fun _ => rfl,fun id => by simp [expected,init,shows]⟩
  slot := ⟨fun _ => ⟨rfl,fun _ => rfl⟩,nofun⟩
  fits := fun _ _ _ h => by cases h

section

variable {high id : ℕ} {marks marks' : ℕ → ℕ} {threads : ℕ → Option (Req × Prog Act Reply)} {duty : ℕ → Duty}
  {g' : Duty} {k : β → Prog Act Reply} {r : Reply}

theorem fits_update (hothers : ∀ t' q' p', threads t' = some (q',p') → Fits marks q' (duty t'))
    (hself : Fits marks q g) : ∀ t' q' p', update threads t (some (q,p)) t' = some (q',p') →
      Fits marks q' (update duty t g t') :=
  forall_threads_note_update (fun t' q' p' _ => hothers t' q' p') hself

theorem Sound.start (hw : Sound w high) (hfree : w.notes.duty t = .none) (hs : arrive q w.config.shared = some s) :
    Sound ⟨⟨s,update w.config.threads t (some (q,handler q))⟩,onlooker.start t q w.notes⟩ high := by
  cases q with
  | startInstall device path =>
    cases hs
    exact ⟨hw.kept.congr ⟨fun _ => rfl,rfl,rfl⟩ rfl rfl,
      hw.slot.congr rfl rfl (holds_update_same (by rw [hfree]; rfl)),fits_update hw.fits nofun⟩
  | pipeline id device path =>
    rw [arrive] at hs
    split_ifs at hs with hin
    cases hs
    have hrunning : w.config.shared.installRunning := by
      by_contra hnot
      rw [(hw.slot.free (by simpa using hnot)).1] at hin
      cases hin
    obtain ⟨⟨device',path',hspawned⟩,hnone⟩ | ⟨t',hserve⟩ := hw.slot.taken hrunning
    · rw [hspawned,mem_singleton] at hin
      cases hin
      refine ⟨hw.kept.congr ⟨fun _ => rfl,rfl,rfl⟩ rfl rfl,⟨?_,?_⟩,fits_update hw.fits (.inl rfl)⟩
      · intro hnot
        cases hrunning.symm.trans hnot
      intro _
      refine .inr ⟨t,serving_update ?_ rfl fun t' _ => hnone t'⟩
      rw [hspawned]
      simp
    · rw [hserve.1] at hin
      cases hin
  | poll id device =>
    rw [arrive] at hs
    split_ifs at hs with hin
    cases hs
    exact ⟨hw.kept.congr ⟨fun _ => rfl,rfl,rfl⟩ rfl rfl,
      hw.slot.congr rfl rfl (holds_update_same (by rw [hfree]; rfl)),fits_update hw.fits nofun⟩

theorem Fits.imp (h : Fits marks q g) (hmarks : ∀ id, marks id = 1 → marks' id = 1) : Fits marks' q g := by
  cases q with
  | pipeline id device path => exact h.imp_right fun hover => ⟨hover.1,hmarks id hover.2⟩
  | startInstall device path => exact h
  | poll id device => exact h

theorem Fits.call (h : Fits marks q g) (hg : ∀ id, g ≠ .pipes id ∧ g ≠ .through id)
    (hg' : ∀ id, g' ≠ .pipes id) : Fits marks' q g' := by
  cases q with
  | pipeline id device path => exact (h.elim (hg id).1 fun hover => (hg id).2 hover.1).elim
  | startInstall device path => exact hg'
  | poll id device => exact hg'

theorem Fits.sign (h : Fits marks q (.pipes id)) (hmarks : marks' id = 1) : Fits marks' q (.through id) := by
  cases q with
  | pipeline id' device path =>
    obtain heq | ⟨hover,-⟩ := h
    · cases heq
      exact .inr ⟨rfl,hmarks⟩
    · cases hover
  | startInstall device path => exact absurd rfl (h id)
  | poll id' device => exact absurd rfl (h id)

theorem Sound.act (hw : Sound w high)
    (ht : w.config.threads t = some (q,.act a k)) (hsuits : Suits (w.notes.duty t) β a)
    (h : Effect w.config.shared β a b s) : ∃ high', Sound ⟨⟨s,update w.config.threads t (some (q,k b))⟩,
      onlooker.act t q β a x w.config.shared b w.notes⟩ high' := by
  have hfits := hw.fits t q _ ht
  cases h with
  | reserve hfree =>
    obtain ⟨hspawned,hnone⟩ := hw.slot.free hfree
    have hnext := hw.kept.next_free hfree
    rw [hsuits] at hfits
    refine ⟨high,hw.kept.reserve hfree _,
      ⟨nofun,fun _ => .inr ⟨t,serving_update hspawned (congrArg some hnext) fun t' _ => hnone t'⟩⟩,?_⟩
    exact fits_update hw.fits (hfits.call (fun _ => ⟨nofun,nofun⟩) nofun)
  | @spawn id device path =>
    obtain ⟨hrunning,rfl,hspawned,-,hothers⟩ := hw.slot.holder hsuits rfl
    rw [hsuits] at hfits
    refine ⟨id,hw.kept.congr ⟨fun _ => rfl,rfl,rfl⟩ (append_nil _) rfl,⟨?_,?_⟩,?_⟩
    · intro hfree
      cases hrunning.symm.trans hfree
    · exact fun _ => .inl ⟨⟨device,path,congrArg _ hspawned⟩,holds_update_none rfl hothers⟩
    · exact fits_update hw.fits (hfits.call (fun _ => ⟨nofun,nofun⟩) nofun)
  | @sign id code message raw success =>
    obtain ⟨hrunning,rfl,hspawned,-,hothers⟩ := hw.slot.holder hsuits rfl
    rw [hsuits] at hfits
    have hkept := hw.kept.sign hrunning code message raw success (update w.notes.duty t (.through id))
    refine ⟨id+1,hkept,⟨fun _ => ⟨hspawned,holds_update_none rfl hothers⟩,nofun⟩,?_⟩
    refine fits_update ?_ (hfits.sign (hkept.marks_eq_one.mpr (Nat.lt_succ_self id)))
    intro t' q' p' ht'
    refine (hw.fits t' q' p' ht').imp ?_
    intro id' hid'
    exact hkept.marks_eq_one.mpr ((hw.kept.marks_eq_one.mp hid').trans (Nat.lt_succ_self id))
  | other hs hspawned hissues hsigns hafter =>
    have hmarks : (onlooker.act t q β a x w.config.shared b w.notes).marks = w.notes.marks := by
      funext id
      simp [onlooker,hsigns]
    have hissued : (onlooker.act t q β a x w.config.shared b w.notes).issued = w.notes.issued := by
      simp [onlooker,hissues]
    refine ⟨high,hw.kept.congr hs hissued hmarks,hw.slot.congr hs.running hspawned (holds_update_same (by rw [hafter])),?_⟩
    rw [hmarks]
    refine fits_update hw.fits ?_
    rw [hafter]
    exact hfits

theorem Sound.reply (hw : Sound w high) (hends : Ends (w.notes.duty t) r) :
    Sound ⟨⟨leave q r w.config.shared,update w.config.threads t none⟩,onlooker.reply t q r w.notes⟩ high := by
  have hholds : (w.notes.duty t).holds = none := by
    obtain hnone | ⟨id,hover⟩ := hends
    · rw [hnone]
      rfl
    · rw [hover]
      rfl
  have hleave : Alike w.config.shared (leave q r w.config.shared) ∧
      (leave q r w.config.shared).spawned = w.config.shared.spawned := by
    cases q <;> exact ⟨⟨fun _ => rfl,rfl,rfl⟩,rfl⟩
  refine ⟨hw.kept.congr hleave.1 rfl rfl, hw.slot.congr hleave.1.running hleave.2 (holds_update_same hholds.symm),?_⟩
  refine forall_threads_update ?_ nofun
  intro t' q' p' htt ht'
  simpa [onlooker,htt] using hw.fits t' q' p' ht'

theorem watch_sound (hduty : Dutiful w) (hw : ∃ high, Sound w high)
    (h : watch service onlooker w e = some w') : ∃ high, Sound w' high := by
  obtain ⟨high,hw⟩ := hw
  cases watch_watches h with
  | start hfree hs => exact ⟨high,hw.start (hduty.free _ hfree) hs⟩
  | act ht hs => exact hw.act ht (hduty.busy _ _ _ ht).1 (run_effect hs)
  | reply ht => exact ⟨high,hw.reply (hduty.busy _ _ _ ht)⟩

end

/-- The thread is in the middle of the pipeline of an install. -/
def Pipes (w : World) (t id : ℕ) : Prop :=
  ∃ device path, ∃ (β : Type) (a : Act β) (k : β → Prog Act Reply),
    w.config.threads t = some (.pipeline id device path,.act a k)

/-- The slot is taken exactly while one install is unfinished, whose pipeline is about to be
spawned, spawned or running; a pipeline has marked its install once when it is through, and not
before; ids grow; of the finished installs the newest are kept, and nothing else is dropped. -/
structure Tidy (w : World) : Prop where
  flag : (w.config.shared.installs.keysOf fun st => !st.finished).length = w.config.shared.installRunning.toNat
  one : ∀ t t' id id', Pipes w t id → Pipes w t' id' → t = t'
  served : ∀ id ∈ w.notes.issued, w.notes.marks id = 0 →
    (∃ t q device path k, w.config.threads t = some (q,.act (.spawn id device path) k)) ∨
    (∃ device path, (id,device,path) ∈ w.config.shared.spawned) ∨ ∃ t, Pipes w t id
  marked : ∀ id, w.notes.marks id ≤ 1
  unmarked : ∀ t id, Pipes w t id → w.notes.marks id = 0
  ended : ∀ t id device path r, w.config.threads t = some (.pipeline id device path,.ret r) → w.notes.marks id = 1
  finished : ∀ id, shows w.config.shared.installs id = some true → w.notes.marks id = 1
  unfinished : ∀ id, shows w.config.shared.installs id = some false → w.notes.marks id = 0
  increasing : w.notes.issued.Pairwise (· < ·)
  few : (w.config.shared.installs.keysOf InstallStatus.finished).length ≤ INSTALL_HISTORY_CAP
  dropped : ∀ id ∈ w.notes.issued, shows w.config.shared.installs id = none →
    w.notes.marks id = 1 ∧ ∀ id', shows w.config.shared.installs id' = some true → id < id'

section

variable {id high : ℕ}

theorem Pipes.duty (h : Pipes w t id) (hduty : Dutiful w) (hw : Sound w high) : w.notes.duty t = .pipes id := by
  obtain ⟨device,path,β,a,k,ht⟩ := h
  obtain hpipes | ⟨hover,-⟩ := hw.fits t _ _ ht
  · exact hpipes
  · have hsuits := (hduty.busy t _ _ ht).1
    rw [hover] at hsuits
    cases a <;> simp [Suits] at hsuits

/-- A thread with a duty to pipe is in the middle of the pipeline. -/
theorem pipes_of_duty (hduty : Dutiful w) (hw : Sound w high) (h : w.notes.duty t = .pipes id) : Pipes w t id := by
  cases ht : w.config.threads t with
  | none => cases h.symm.trans (hduty.free t ht)
  | some th =>
    obtain ⟨q,p⟩ := th
    have hfits := hw.fits t q p ht
    have hobeys := hduty.busy t q p ht
    rw [h] at hfits hobeys
    cases q with
    | startInstall device path => exact absurd rfl (hfits id)
    | poll id' device => exact absurd rfl (hfits id)
    | pipeline id' device path =>
      obtain heq | ⟨hover,-⟩ := hfits
      · cases heq
        cases p with
        | ret r => simp [Prog.Obeys,Ends] at hobeys
        | act a k => exact ⟨device,path,_,a,k,ht⟩
      · cases hover

theorem spawns_of_duty (hduty : Dutiful w) (h : w.notes.duty t = .reserved id) :
    ∃ q device path k, w.config.threads t = some (q,.act (.spawn id device path) k) := by
  cases ht : w.config.threads t with
  | none => cases h.symm.trans (hduty.free t ht)
  | some th =>
    obtain ⟨q,p⟩ := th
    have hobeys := hduty.busy t q p ht
    rw [h] at hobeys
    cases p with
    | ret r => simp [Prog.Obeys,Ends] at hobeys
    | act a k =>
      have hsuits := hobeys.1
      cases a with
      | spawn id' device path =>
        cases hsuits
        exact ⟨q,device,path,k,rfl⟩
      | _ => simp [Suits] at hsuits

theorem Sound.served (hduty : Dutiful w) (hw : Sound w high) (hid : id ∈ w.notes.issued) (hmarks : w.notes.marks id = 0) :
    (∃ t q device path k, w.config.threads t = some (q,.act (.spawn id device path) k)) ∨
    (∃ device path, (id,device,path) ∈ w.config.shared.spawned) ∨ ∃ t, Pipes w t id := by
  have hhigh : ¬id < high := by
    intro hlt
    rw [hw.kept.marks_eq_one.mpr hlt] at hmarks
    cases hmarks
  rw [hw.kept.issued,mem_range,hw.kept.next] at hid
  have hrunning : w.config.shared.installRunning := by
    by_contra hnot
    rw [Bool.not_eq_true] at hnot
    rw [hnot] at hid
    exact hhigh hid
  rw [hrunning] at hid
  obtain rfl : id = high := by
    change id < high+1 at hid
    omega
  obtain ⟨⟨device,path,hspawned⟩,-⟩ | ⟨t,-,hholds,-⟩ := hw.slot.taken hrunning
  · exact .inr (.inl ⟨device,path,by rw [hspawned]; exact mem_singleton_self _⟩)
  cases hg : w.notes.duty t with
  | none => simp [hg,Duty.holds] at hholds
  | through id' => simp [hg,Duty.holds] at hholds
  | reserved id' =>
    rw [hg] at hholds
    cases hholds
    exact .inl ⟨t,spawns_of_duty hduty hg⟩
  | pipes id' =>
    rw [hg] at hholds
    cases hholds
    exact .inr (.inr ⟨t,pipes_of_duty hduty hw hg⟩)

theorem Sound.tidy (hduty : Dutiful w) (hw : Sound w high) : Tidy w where
  flag := length_unfinished hw.kept.table
  one := by
    intro t t' id id' ht ht'
    by_contra htt
    have hnone := (hw.slot.holder (ht'.duty hduty hw) rfl).2.2.2.2 t htt
    rw [ht.duty hduty hw] at hnone
    cases hnone
  served := fun id hid hmarks => hw.served hduty hid hmarks
  marked := by
    intro id
    rw [hw.kept.marks]
    split_ifs <;> omega
  unmarked := by
    intro t id ht
    rw [hw.kept.marks,(hw.slot.holder (ht.duty hduty hw) rfl).2.1,if_neg (lt_irrefl _)]
  ended := by
    intro t id device path r ht
    obtain hpipes | ⟨-,hmarks⟩ := hw.fits t _ _ ht
    · have hends := hduty.busy t _ _ ht
      rw [hpipes] at hends
      simp [Prog.Obeys,Ends] at hends
    · exact hmarks
  finished := by
    intro id hid
    rw [hw.kept.table,expected_eq_true] at hid
    exact hw.kept.marks_eq_one.mpr hid.2
  unfinished := by
    intro id hid
    rw [hw.kept.table,expected_eq_false] at hid
    rw [hw.kept.marks,hid.2,if_neg (lt_irrefl _)]
  increasing := by
    rw [hw.kept.issued]
    exact pairwise_lt_range
  few := by
    rw [length_finished hw.kept.table]
    omega
  dropped := by
    intro id hid hnone
    rw [hw.kept.issued,mem_range,hw.kept.next] at hid
    rw [hw.kept.table] at hnone
    unfold expected at hnone
    split_ifs at hnone with hdone hrunning
    have hlt : id < high := by
      cases hr : w.config.shared.installRunning with
      | false => simpa [hr] using hid
      | true =>
        rw [hr] at hid hrunning
        change id < high+1 at hid
        simp only [true_and] at hrunning
        omega
    refine ⟨hw.kept.marks_eq_one.mpr hlt,?_⟩
    intro id' hid'
    rw [hw.kept.table,expected_eq_true] at hid'
    omega

/-- What is left of a pipeline can always go on. -/
theorem only_total (h : p.Obeys Suits (Moves q) Ends g)
    (hg : g = .pipes id ∨ g = .through id) : p.Only fun _ a => ∀ x s, (run a x s).isSome := by
  induction p generalizing g with
  | ret r => trivial
  | act a k ih =>
    have hsuits := h.1
    refine ⟨?_,fun b => ih b (h.2 b _ rfl) ?_⟩
    · intro x s
      obtain rfl | rfl := hg
      · cases a <;> first | rfl | simp [Suits] at hsuits
      · cases a <;> simp [Suits] at hsuits
    · obtain rfl | rfl := hg
      · cases a <;> simp_all [Suits,after]
      · cases a <;> simp [Suits] at hsuits

/-- Until the thread has marked its install, it pipes; then the slot is free. -/
def Own (t id : ℕ) (w : World) : Prop :=
  w.notes.duty t = .pipes id ∨
    w.notes.duty t = .through id ∧ w.config.shared.installRunning = false ∧ w.config.shared.nextInstallId = id+1

theorem watch_own (hduty : Dutiful w) (hw : Sound w high) (hown : Own t id w)
    (h : watch service onlooker w (.act t x) = some w') : Own t id w' := by
  cases watch_watches h with
  | @act _ _ q β a k b s ht hs =>
    have hsuits := (hduty.busy t _ _ ht).1
    obtain hpipes | ⟨hover,-⟩ := hown
    · rw [hpipes] at hsuits
      cases run_effect hs with
      | reserve => cases hsuits
      | spawn => cases hsuits
      | @sign id' code message raw success =>
        cases hsuits
        obtain ⟨hrunning,rfl,-⟩ := hw.slot.holder hpipes rfl
        refine .inr ⟨update_self _ _ _,rfl,?_⟩
        show w.config.shared.nextInstallId = id+1
        rw [hw.kept.next,hrunning]
        rfl
      | other hs hspawned hissues hsigns hafter =>
        refine .inl ((update_self _ _ _).trans ?_)
        rw [hafter,hpipes]
    · rw [hover] at hsuits
      cases a <;> simp [Suits] at hsuits

end

theorem exec_sound (h : exec (watch service onlooker) init es = some w) : Dutiful w ∧ ∃ high, Sound w high := by
  have hstep : ∀ (w : World) (e : Event Choice Req) w', (Dutiful w ∧ ∃ high, Sound w high) →
      watch service onlooker w e = some w' → Dutiful w' ∧ ∃ high, Sound w' high :=
    fun w e w' hw hwatch => ⟨watch_dutiful hw.1 hwatch,watch_sound hw.1 hw.2 hwatch⟩
  exact exec_invariant hstep ⟨init_dutiful,0,init_sound⟩ h

/-- Any run is tidy, and a pipeline left to itself marks its install and frees the slot, whatever
`adb` answers. -/
theorem installs_tidy {es : List (Event Choice Req)} {w : World} (h : exec (watch service onlooker) init es = some w) :
    Tidy w ∧ ∀ t id, Pipes w t id → ∀ outcomes : ℕ → Choice, ∃ n w',
      exec (watch service onlooker) w ((List.range n).map fun i => .act t (outcomes i)) = some w' ∧
      w'.notes.marks id = 1 ∧ shows w'.config.shared.installs id = some true ∧ w'.config.shared.installRunning = false := by
  obtain ⟨hduty,high,hw⟩ := exec_sound h
  refine ⟨hw.tidy hduty,?_⟩
  intro t id hpipes outcomes
  have hpiping := hpipes.duty hduty hw
  obtain ⟨device,path,β,a,k,ht⟩ := hpipes
  have hobeys := hduty.busy t _ _ ht
  rw [hpiping] at hobeys
  have hinv : ∀ (w : World) x w', Dutiful w ∧ (∃ high, Sound w high) ∧ Own t id w →
      watch service onlooker w (.act t x) = some w' → Dutiful w' ∧ (∃ high, Sound w' high) ∧ Own t id w' := by
    rintro w x w' ⟨hduty,⟨high,hw⟩,hown⟩ hstep
    exact ⟨watch_dutiful hduty hstep,watch_sound hduty ⟨high,hw⟩ hstep,watch_own hduty hw hown hstep⟩
  obtain ⟨n,w',r,hexec,hend,hduty',⟨high',hw'⟩,hown⟩ := watch_runs_out (only_total hobeys (.inl rfl)) hinv outcomes ht
    ⟨hduty,⟨high,hw⟩,.inl hpiping⟩
  have hmarks := (hw'.tidy hduty').ended t id device path r hend
  obtain hpipes | ⟨-,hfree,hnext⟩ := hown
  · rw [(hw'.tidy hduty').unmarked t id (pipes_of_duty hduty' hw' hpipes)] at hmarks
    cases hmarks
  refine ⟨n,w',hexec,hmarks,?_,hfree⟩
  have hkept := hw'.kept.next
  rw [hfree,hnext] at hkept
  rw [hw'.kept.table,expected_eq_true]
  change id+1 = high' at hkept
  unfold INSTALL_HISTORY_CAP
  omega

/-- An install of a file on the phone, a second one that is turned away, and the pipeline of the
first up to its copy. -/
def midway : List (Event Choice Req) :=
  [Event.start 0 (.startInstall ['p'] "/sdcard/a.apk".toList),Event.act 0 { },Event.act 0 { yes := false },Event.act 0 { },
    Event.act 0 { },Event.reply 0,Event.start 1 (.pipeline 0 ['p'] "/sdcard/a.apk".toList),
    Event.start 2 (.startInstall ['p'] "/sdcard/b.apk".toList),Event.act 2 { },Event.act 2 { yes := false },
    Event.act 2 { },Event.act 1 { },Event.act 1 { },Event.act 1 { answer := .error ['e'] }]

theorem installs_tidy_midway : ∃ w, exec (watch service onlooker) init midway = some w ∧ Tidy w ∧ w.notes.issued = [0] := by
  obtain ⟨w,hw⟩ := Option.isSome_iff_exists.mp (by decide +kernel : (exec (watch service onlooker) init midway).isSome)
  refine ⟨w,hw,(installs_tidy hw).1,?_⟩
  have hview : (exec (watch service onlooker) init midway).map (fun w => w.notes.issued) = some [0] := by decide +kernel
  rw [hw] at hview
  exact Option.some.inj hview

end AdbShare.Installs

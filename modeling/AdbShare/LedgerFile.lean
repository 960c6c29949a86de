import AdbShare.DebloatLedger
import AdbShare.Transition

/-! The file of the ledger. It is truncated and written again for each change, and what cannot be read or
parsed counts as an empty ledger. -/
namespace AdbShare.LedgerFile

open DebloatLedger Transition List

/-- How a ledger is written as JSON and read back; `part` is what a crash leaves of a text. -/
structure Json (Text : Type) where
  toStringPretty : Ledger → Text
  fromStr : Text → Option Ledger
  part : ℕ → Text → Text
  reads : ∀ ledger, fromStr (toStringPretty ledger) = some ledger

inductive Write
  | refused
  | cut (bytes : ℕ)
  | whole

/-- A call of `record_change`: whether the file can be read, and what becomes of the write. -/
structure Call where
  record : DebloatRecord
  readable : Bool
  write : Write

/-- The file, and every change that it has been given. -/
structure State (Text : Type) where
  file : Option Text
  recorded : Ledger

variable {Text : Type} (J : Json Text)

def loadLedger (file : Option Text) (readable : Bool) : Ledger := if readable then (file.bind J.fromStr).getD [] else []

def step (s : State Text) (c : Call) : Option (State Text) :=
  let text := J.toStringPretty (recordChange (loadLedger J s.file c.readable) c.record)
  match c.write with
  | .refused => some s
  | .cut bytes => some { s with file := some (J.part bytes text) }
  | .whole => some ⟨some text,s.recorded++[c.record]⟩

def start (file : Option Text) : State Text := ⟨file,loadLedger J file true⟩

/-- The newest changes can be loaded. -/
def Kept (s : State Text) : Prop :=
  s.recorded.drop (s.recorded.length-LEDGER_CAP) <:+ loadLedger J s.file true

/-- What is read is there, unless there is nothing to lose, and what is written is written whole or not at all. -/
def Sound (s : State Text) (c : Call) : Prop :=
  c.write = .refused ∨ c.write = .whole ∧ (c.readable = true ∨ s.recorded = [])

/-- Only changes that are old enough are missing. -/
def Late (s : State Text) : Prop :=
  ∃ k ≤ s.recorded.length-LEDGER_CAP, loadLedger J s.file true = s.recorded.drop k

section

variable {J} {file : Option Text} {s t : State Text} {c : Call}

theorem recordChange_drop (ledger : Ledger) (rec : DebloatRecord) {k : ℕ} (hk : k ≤ ledger.length-LEDGER_CAP) :
    ∃ j ≤ (ledger++[rec]).length-LEDGER_CAP, recordChange (ledger.drop k) rec = (ledger++[rec]).drop j := by
  have happend : ledger.drop k++[rec] = (ledger++[rec]).drop k := (drop_append_of_le_length (by omega)).symm
  simp only [recordChange,happend]
  split_ifs with hlong
  · rw [drop_drop]
    refine ⟨_,?_,rfl⟩
    simp only [length_drop] at hlong ⊢
    omega
  · refine ⟨k,?_,rfl⟩
    simp only [length_append,length_singleton]
    omega

theorem step_late (s : State Text) (c : Call) (t : State Text) (h : Late J s) (hsound : Sound s c)
    (ht : step J s c = some t) : Late J t := by
  obtain hw | ⟨hw,hread⟩ := hsound
  · simp_all [step]
  obtain ⟨k,hk,hload⟩ := h
  have hsame : loadLedger J s.file c.readable = s.recorded.drop k := by
    obtain hread | hnil := hread
    · rwa [hread]
    · cases hc : c.readable <;> simp_all [loadLedger]
  simp only [step,hw,hsame,Option.some.injEq] at ht
  subst ht
  obtain ⟨j,hj,heq⟩ := recordChange_drop s.recorded c.record hk
  exact ⟨j,hj,by simp [loadLedger,J.reads,heq]⟩

end

theorem kept_of_sound {file : Option Text} {cs : List Call} {s : State Text} (hsound : Meets (step J) Sound (start J file) cs)
    (h : exec (step J) (start J file) cs = some s) : Kept J s := by
  obtain ⟨k,hk,hload⟩ : Late J s := exec_invariant_of_meets step_late ⟨0,Nat.zero_le _,rfl⟩ hsound h
  rw [Kept,hload]
  exact drop_suffix_drop_left _ hk

/-- A text that has been cut does not parse. -/
def cells : Json (Option Ledger) := ⟨some,id,fun _ _ => none,fun _ => rfl⟩

def change (package : Shell.Text) : DebloatRecord := ⟨[],0,package,[],[],[],true,none⟩

/-- Two changes, and between them one that cannot be written. -/
def twoChanges : List Call := [⟨change ['a'],true,.whole⟩,⟨change ['b'],true,.refused⟩,⟨change ['c'],true,.whole⟩]

theorem kept_of_sound_once : ∃ s, exec (step cells) (start cells none) twoChanges = some s ∧ Kept cells s ∧
    loadLedger cells s.file true = [change ['a'],change ['c']] := by
  have hsound : Meets (step cells) Sound (start cells none) twoChanges :=
    meets_cons rfl (.inr ⟨rfl,.inl rfl⟩) (meets_cons rfl (.inl rfl) (meets_cons rfl (.inr ⟨rfl,.inl rfl⟩) trivial))
  exact ⟨_,rfl,kept_of_sound cells hsound rfl,rfl⟩

/-- A crash while the second change is written takes the first one along, and the third change goes into a new ledger. -/
theorem crash_forgets : ∃ s, exec (step cells) (start cells none)
      [⟨change ['a'],true,.whole⟩,⟨change ['b'],true,.cut 0⟩,⟨change ['c'],true,.whole⟩] = some s ∧
    s.recorded = [change ['a'],change ['c']] ∧ loadLedger cells s.file true = [change ['c']] ∧ ¬Kept cells s := by
  refine ⟨_,rfl,rfl,rfl,?_⟩
  intro h
  exact absurd h.length_le (by decide)

end AdbShare.LedgerFile

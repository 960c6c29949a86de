import AdbShare.Pair
import AdbShare.Transition

/-! Any number of QR pairing sessions in one daemon. `qr_pair_start` puts a new session into the
one slot that `qr_pair_status` reports and spawns a task; a task writes into the slot whatever
session is in it. -/
namespace AdbShare.Pairing
namespace Sessions

open List

open Transition (exec Meets Always)

variable {G : Type} [AddCommGroup G] {Key : Type}

/-- How the world answers one action. -/
abbrev Oracle (Key : Type) := (β : Type) → Act Key β → β

/-- The slot, the tasks by the order of their sessions, and what the task of the newest session
has made of its status. -/
structure State (Key : Type) where
  qr : Option QrState
  tasks : List (Prog (Act Key) Unit)
  own : Option QrState

def init : State Key := ⟨none,[],none⟩

inductive Label (Key : Type) : Type 1
  | start (session : QrSession) (pubkey : Bytes)
  | act (task : ℕ) (answer : Oracle Key)

/-- What an action does to the slot: `set_state` writes into any session that is there. -/
def write {β : Type} : Act Key β → Option QrState → Option QrState
  | .setState f, qr => qr.map f
  | _, qr => qr

def waiting (session : QrSession) : QrState := ⟨session,.waiting,none,none,none⟩

def step (C : Crypto G Key) (s : State Key) : Label Key → Option (State Key)
  | .start session pubkey =>
    some ⟨some (waiting session),s.tasks++[qrPairRun C session pubkey],some (waiting session)⟩
  | .act i answer =>
    match s.tasks[i]? with
    | some (.act a k) => some {
        qr := write a s.qr
        tasks := s.tasks.set i (k (answer _ a))
        own := if i+1 = s.tasks.length then write a s.own else s.own }
    | _ => none

/-- The status that is reported is what the session's own task has made of it. -/
def Own (s : State Key) : Prop := s.qr = s.own

/-- No session is started while the task of an earlier one is running. -/
def Calm (s : State Key) : Label Key → Prop
  | .start _ _ => ∀ p ∈ s.tasks, p = .ret ()
  | .act _ _ => True

/-- Only the newest session's task is still running. -/
def Settled (s : State Key) : Prop := ∀ i, i+1 < s.tasks.length → s.tasks[i]? = some (.ret ())

theorem settled_step (C : Crypto G Key) (s : State Key) (a : Label Key) (t : State Key) (hs : Settled s)
    (hc : Calm s a) (h : step C s a = some t) : Settled t := by
  cases a with
  | start session pubkey =>
    cases h
    intro i hi
    rw [length_append,length_singleton] at hi
    have hlt : i < s.tasks.length := by omega
    rw [getElem?_append_left hlt,getElem?_eq_getElem hlt,hc _ (getElem_mem hlt)]
  | act j answer =>
    rw [step] at h
    split at h
    · rename_i β a k hj
      cases h
      intro i hi
      rw [length_set] at hi
      have hne : j ≠ i := by
        rintro rfl
        rw [hs j hi] at hj
        cases hj
      rw [getElem?_set_ne hne]
      exact hs i hi
    · cases h

/-- A task that acts is the newest session's. -/
theorem own_step (C : Crypto G Key) (s : State Key) (a : Label Key) (t : State Key) (hs : Settled s) (ho : Own s)
    (h : step C s a = some t) : Own t := by
  cases a with
  | start session pubkey =>
    cases h
    rfl
  | act i answer =>
    rw [step] at h
    split at h
    · rename_i β a k hi
      cases h
      have hlast : i+1 = s.tasks.length := by
        have hlt := (List.getElem?_eq_some_iff.mp hi).1
        by_contra hne
        rw [hs i (by omega)] at hi
        cases hi
      rw [Own,if_pos hlast,show s.qr = s.own from ho]
    · cases h

/-- If each session is started after the tasks of the earlier ones have ended, the status is the session's
own all along. -/
theorem own_status (C : Crypto G Key) (as : List (Label Key)) (hm : Meets (step C) Calm init as) :
    Always (step C) Own init as := by
  have hstep : ∀ s a t, Settled s ∧ Own s → Calm s a → step C s a = some t → Settled t ∧ Own t :=
    fun s a t hs hc h => ⟨settled_step C s a t hs.1 hc h,own_step C s a t hs.1 hs.2 h⟩
  exact Transition.always_of_meets hstep (fun _ hs => hs.2) ⟨fun i hi => absurd hi (Nat.not_lt_zero _),rfl⟩ hm

/-- A world in which nothing is found and nothing works. -/
def silent : Oracle Key
  | _, .connect _ | _, .clientConfig | _, .handshake => .error .timeout
  | _, .exporter => .error .timeout
  | _, .urandom => ⟨List.replicate 64 0,rfl⟩
  | _, .overdue => true
  | _, .read _ => .error .timeout
  | _, .write _ => .error .timeout
  | _, .encrypt _ _ _ => []
  | _, .decrypt _ _ _ => none
  | _, .discover _ _ => none
  | _, .adbConnect _ => false
  | _, .setState _ => ()

def later : QrSession := ⟨[116],[52,53,54]⟩

/-- Two sessions whose phones do not appear, one after the other. -/
def oneByOne : List (Label (Block 64)) :=
  [.start qrSession [],.act 0 silent,.act 0 silent,.start later [],.act 1 silent,.act 1 silent]

theorem own_status_oneByOne : (∃ s, exec (step toyCrypto) init oneByOne = some s ∧ s.qr ≠ some (waiting later)) ∧
    Always (step toyCrypto) Own init oneByOne := by
  refine ⟨⟨_,rfl,by simp [waiting,write]⟩,own_status toyCrypto _ ⟨fun p hp => absurd hp not_mem_nil,?_⟩⟩
  rintro _ ⟨⟩
  refine ⟨trivial,?_⟩
  rintro _ ⟨⟩
  refine ⟨trivial,?_⟩
  rintro _ ⟨⟩
  refine ⟨fun p hp => mem_singleton.mp hp,?_⟩
  exact fun _ _ => ⟨trivial,fun _ _ => ⟨trivial,fun _ _ => trivial⟩⟩

/-- The task of the first session gives up after the second session has been started. -/
theorem earlier_task_fails_session :
    ∃ s, exec (step toyCrypto) init [.start qrSession [],.start later [],.act 0 silent,.act 0 silent] = some s ∧
      s.own = some (waiting later) ∧ ∃ text, s.qr = some { waiting later with state := .failed, error := some text } :=
  ⟨_,rfl,rfl,_,rfl⟩

end Sessions
end AdbShare.Pairing

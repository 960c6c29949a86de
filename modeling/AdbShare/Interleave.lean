import AdbShare.Prog
import AdbShare.Transition

/-! Requests served by threads over shared state. A handler is a program of atomic
actions; an event starts a request on a free thread, performs the next action of a
thread or delivers its reply. Whatever an action leaves open is in the event. -/
namespace AdbShare

open Function

universe u

/-- What the actions do, how requests are served, and what the environment sees of a
request's arrival and of its reply. -/
structure Service (Act : Type → Type u) (σ χ Q ρ : Type) where
  run : {β : Type} → Act β → χ → σ → Option (β × σ)
  handler : Q → Prog Act ρ
  arrive : Q → σ → Option σ
  leave : Q → ρ → σ → σ

namespace Service

open Transition

variable {Act : Type → Type u} {σ χ Q ρ : Type} {threads : ℕ → Option (Q × Prog Act ρ)} {S : Service Act σ χ Q ρ}

structure Config (Act : Type → Type u) (σ Q ρ : Type) where
  shared : σ
  threads : ℕ → Option (Q × Prog Act ρ)

inductive Event (χ Q : Type)
  | start (t : ℕ) (q : Q)
  | act (t : ℕ) (x : χ)
  | reply (t : ℕ)

def step (S : Service Act σ χ Q ρ) (c : Config Act σ Q ρ) : Event χ Q → Option (Config Act σ Q ρ)
  | .start t q =>
    match c.threads t with
    | none => (S.arrive q c.shared).map fun s =>
        ⟨s,update c.threads t (some (q,S.handler q))⟩
    | some _ => none
  | .act t x =>
    match c.threads t with
    | some (q,.act a k) => (S.run a x c.shared).map fun bs =>
        ⟨bs.2,update c.threads t (some (q,k bs.1))⟩
    | _ => none
  | .reply t =>
    match c.threads t with
    | some (q,.ret r) => some ⟨S.leave q r c.shared,update c.threads t none⟩
    | _ => none

/-- The three kinds of step, each with its guard. -/
inductive Steps (S : Service Act σ χ Q ρ) (c : Config Act σ Q ρ) :
    Event χ Q → Config Act σ Q ρ → Prop
  | start {t : ℕ} {q : Q} {s : σ} (hfree : c.threads t = none) (hs : S.arrive q c.shared = some s) :
      Steps S c (.start t q) ⟨s,update c.threads t (some (q,S.handler q))⟩
  | act {t : ℕ} {x : χ} {q : Q} {β : Type} {a : Act β} {k : β → Prog Act ρ} {b : β} {s : σ}
      (ht : c.threads t = some (q,.act a k)) (hs : S.run a x c.shared = some (b,s)) :
      Steps S c (.act t x) ⟨s,update c.threads t (some (q,k b))⟩
  | reply {t : ℕ} {q : Q} {r : ρ} (ht : c.threads t = some (q,.ret r)) :
      Steps S c (.reply t) ⟨S.leave q r c.shared,update c.threads t none⟩

theorem step_steps {c c' : Config Act σ Q ρ} {e : Event χ Q} (h : S.step c e = some c') : Steps S c e c' := by
  cases e with
  | start t q =>
    cases ht : c.threads t with
    | some th => simp [step,ht] at h
    | none =>
      simp only [step,ht,Option.map_eq_some_iff] at h
      obtain ⟨s,hs,rfl⟩ := h
      exact .start ht hs
  | act t x =>
    cases ht : c.threads t with
    | none => simp [step,ht] at h
    | some th =>
      obtain ⟨q,p⟩ := th
      cases p with
      | ret r => simp [step,ht] at h
      | act a k =>
        simp only [step,ht,Option.map_eq_some_iff] at h
        obtain ⟨⟨b,s⟩,hs,rfl⟩ := h
        exact .act ht hs
  | reply t =>
    cases ht : c.threads t with
    | none => simp [step,ht] at h
    | some th =>
      obtain ⟨q,p⟩ := th
      cases p with
      | ret r =>
        simp only [step,ht,Option.some.injEq] at h
        exact h ▸ .reply ht
      | act a k => simp [step,ht] at h

/-- What holds of every thread still does when one of them has moved on. -/
theorem forall_threads_update {P : ℕ → Q → Prog Act ρ → Prop} {t : ℕ}
    {th : Option (Q × Prog Act ρ)} (hothers : ∀ t' q p, t' ≠ t → threads t' = some (q,p) → P t' q p)
    (hself : ∀ q p, th = some (q,p) → P t q p) :
    ∀ t' q p, update threads t th t' = some (q,p) → P t' q p := by
  intro t' q p ht'
  by_cases htt : t' = t
  · subst htt
    rw [update_self] at ht'
    exact hself q p ht'
  · rw [update_of_ne htt] at ht'
    exact hothers t' q p htt ht'

/-- The same with something noted down for every thread. -/
theorem forall_threads_note_update {ν : Type} {note : ℕ → ν}
    {R : Q → Prog Act ρ → ν → Prop} {t : ℕ} {q : Q} {p : Prog Act ρ} {n : ν}
    (hothers : ∀ t' q p, t' ≠ t → threads t' = some (q,p) → R q p (note t')) (hself : R q p n) :
    ∀ t' q' p', update threads t (some (q,p)) t' = some (q',p') → R q' p' (update note t n t') := by
  apply forall_threads_update
  · intro t' q' p' htt ht'
    rw [update_of_ne htt]
    exact hothers t' q' p' htt ht'
  · intro q' p' hth
    cases hth
    rw [update_self]
    exact hself

/-- The answers a step gives are allowed for the request. -/
def Answers (S : Service Act σ χ Q ρ) (ok : Q → (β : Type) → Act β → β → Prop) (c : Config Act σ Q ρ)
    (e : Event χ Q) : Prop :=
  ∀ t x q (β : Type) (a : Act β) (k : β → Prog Act ρ) b s, e = .act t x →
    c.threads t = some (q,.act a k) → S.run a x c.shared = some (b,s) → ok q β a b

/-- What the rest of a thread's program can return, its handler can. -/
def Traced (S : Service Act σ χ Q ρ) (ok : Q → (β : Type) → Act β → β → Prop) (c : Config Act σ Q ρ) :
    Prop :=
  ∀ t q p, c.threads t = some (q,p) → ∀ r, p.Returns (ok q) r → (S.handler q).Returns (ok q) r

theorem step_traced (S : Service Act σ χ Q ρ) (ok : Q → (β : Type) → Act β → β → Prop)
    (c : Config Act σ Q ρ) (e : Event χ Q) (c' : Config Act σ Q ρ) (hc : S.Traced ok c)
    (he : S.Answers ok c e) (h : S.step c e = some c') : S.Traced ok c' := by
  cases step_steps h with
  | start hfree hs =>
    refine forall_threads_update (fun t' q' p' _ => hc t' q' p') ?_
    intro q' p' hth r hr
    cases hth
    exact hr
  | @act t x q β a k b s ht hs =>
    refine forall_threads_update (fun t' q' p' _ => hc t' q' p') ?_
    intro q' p' hth r hr
    cases hth
    exact hc t q _ ht r ⟨b,he t x q β a k b s rfl ht hs,hr⟩
  | reply ht => exact forall_threads_update (fun t' q' p' _ => hc t' q' p') nofun

/-- The action a step performs is a good one in the state it finds. -/
def Careful (good : (β : Type) → Act β → σ → Prop) (c : Config Act σ Q ρ) (e : Event χ Q) : Prop :=
  ∀ t x q (β : Type) (a : Act β) (k : β → Prog Act ρ), e = .act t x →
    c.threads t = some (q,.act a k) → good β a c.shared

section

variable {good : (β : Type) → Act β → σ → Prop}

/-- The check of the action that an event performs. -/
def isCareful (good : (β : Type) → Act β → σ → Prop) [∀ β a s, Decidable (good β a s)] (c : Config Act σ Q ρ) :
    Event χ Q → Bool
  | .act t _ =>
    match c.threads t with
    | some (_,.act a _) => decide (good _ a c.shared)
    | _ => true
  | _ => true

theorem careful_of_isCareful [∀ β a s, Decidable (good β a s)] {c : Config Act σ Q ρ} {e : Event χ Q}
    (h : isCareful good c e) : Careful good c e := by
  rintro t x q β a k rfl ht
  simp only [isCareful,ht] at h
  exact of_decide_eq_true h

/-- What good actions, arrivals and replies preserve holds of the shared state in every
run of good actions. -/
theorem exec_shared {S : Service Act σ χ Q ρ} {I : σ → Prop}
    (hrun : ∀ (β : Type) (a : Act β) x s b s', I s → good β a s → S.run a x s = some (b,s') → I s')
    (harrive : ∀ q s s', I s → S.arrive q s = some s' → I s')
    (hleave : ∀ q r s, I s → I (S.leave q r s)) {c c' : Config Act σ Q ρ} {es : List (Event χ Q)}
    (hc : I c.shared) (hm : Meets S.step (Careful good) c es) (h : exec S.step c es = some c') :
    I c'.shared := by
  have hstep : ∀ c e c', I c.shared → Careful good c e → S.step c e = some c' → I c'.shared := by
    intro c e c' hc hg h
    cases step_steps h with
    | start hfree hs => exact harrive _ _ _ hc hs
    | act ht hs => exact hrun _ _ _ _ _ _ hc (hg _ _ _ _ _ _ rfl ht) hs
    | reply ht => exact hleave _ _ _ hc
  exact exec_invariant_of_meets hstep hc hm h

end

/-- What the handlers' kind of actions, arrivals and replies preserve holds of the shared
state in every run. -/
theorem exec_shared_of_only {P : (β : Type) → Act β → Prop} {I : σ → Prop} (hhandler : ∀ q, (S.handler q).Only P)
    (hrun : ∀ (β : Type) (a : Act β) x s b s', I s → P β a → S.run a x s = some (b,s') → I s')
    (harrive : ∀ q s s', I s → S.arrive q s = some s' → I s')
    (hleave : ∀ q r s, I s → I (S.leave q r s)) {s : σ} {c' : Config Act σ Q ρ} {es : List (Event χ Q)}
    (hs : I s) (h : exec S.step ⟨s,fun _ => none⟩ es = some c') : I c'.shared := by
  have hstep : ∀ c e c', (I c.shared ∧ ∀ t q p, c.threads t = some (q,p) → p.Only P) → S.step c e = some c' →
      I c'.shared ∧ ∀ t q p, c'.threads t = some (q,p) → p.Only P := by
    rintro c e c' ⟨hc,hthreads⟩ h
    have hothers : ∀ {t : ℕ} t' q p, t' ≠ t → c.threads t' = some (q,p) → p.Only P := fun t' q p _ => hthreads t' q p
    cases step_steps h with
    | start hfree hs =>
      refine ⟨harrive _ _ _ hc hs,forall_threads_update hothers ?_⟩
      intro q p hth
      cases hth
      exact hhandler _
    | act ht hs =>
      have hp := hthreads _ _ _ ht
      refine ⟨hrun _ _ _ _ _ _ hc hp.1 hs,forall_threads_update hothers ?_⟩
      intro q p hth
      cases hth
      exact hp.2 _
    | reply ht => exact ⟨hleave _ _ _ hc,forall_threads_update hothers nofun⟩
  exact (exec_invariant hstep ⟨hs,by simp⟩ h).1

end Service
end AdbShare

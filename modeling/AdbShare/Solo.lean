import AdbShare.Interleave

/-! One party of a service that the others do not disturb: it has a part of the shared state
to itself, so its program can be reasoned about as if it ran alone. -/
namespace AdbShare

universe u

namespace Service

open Transition Function

variable {Act : Type → Type u} {σ χ Q ρ G : Type} {S : Service Act σ χ Q ρ} {own : Q → Bool}
  {ok : (β : Type) → Act β → σ → β → σ → Bool} {c : Config Act σ Q ρ} {e : Event χ Q}

/-- The steps of the party go as the relation allows. -/
def Allowed (S : Service Act σ χ Q ρ) (own : Q → Bool) (ok : (β : Type) → Act β → σ → β → σ → Bool)
    (c : Config Act σ Q ρ) (e : Event χ Q) : Prop :=
  ∀ t x q (β : Type) (a : Act β) k b s, e = .act t x → c.threads t = some (q,.act a k) → own q = true →
    S.run a x c.shared = some (b,s) → ok β a c.shared b s = true

def allowed (S : Service Act σ χ Q ρ) (own : Q → Bool) (ok : (β : Type) → Act β → σ → β → σ → Bool)
    (c : Config Act σ Q ρ) : Event χ Q → Bool
  | .act t x =>
    match c.threads t with
    | some (q,.act a _) =>
      match S.run a x c.shared with
      | some (b,s) => !own q || ok _ a c.shared b s
      | none => true
    | _ => true
  | _ => true

theorem allowed_of_eq_true (h : S.allowed own ok c e) : Allowed S own ok c e := by
  rintro t x q β a k b s rfl ht hown hrun
  simpa [allowed,ht,hrun,hown] using h

/-- The party's requests are served one at most in a run, its steps take its view of the
state along, and nobody else changes the view. -/
structure Undisturbed (S : Service Act σ χ Q ρ) (own : Q → Bool) (started : σ → Bool) (view : σ → G)
    (ok : (β : Type) → Act β → σ → β → σ → Bool) (pre : G → (β : Type) → Act β → Prop)
    (next : G → (β : Type) → Act β → β → G → Prop) (post : G → ρ → Prop)
    (foreign : (β : Type) → Act β → Prop) : Prop where
  arrive_own : ∀ q s s', own q = true → S.arrive q s = some s' →
    started s = false ∧ started s' = true ∧ view s' = view s
  arrive_other : ∀ q s s', own q = false → S.arrive q s = some s' →
    started s' = started s ∧ view s' = view s
  handler_other : ∀ q, own q = false → (S.handler q).Only foreign
  run_started : ∀ (β : Type) (a : Act β) x s b s', S.run a x s = some (b,s') → started s' = started s
  run_own : ∀ (β : Type) (a : Act β) x s b s', pre (view s) β a → ok β a s b s' = true →
    S.run a x s = some (b,s') → next (view s) β a b (view s')
  run_foreign : ∀ (β : Type) (a : Act β) x s b s', foreign β a → S.run a x s = some (b,s') →
    view s' = view s
  leave : ∀ q r s, started (S.leave q r s) = started s ∧ view (S.leave q r s) = view s

/-- Where the party has got to; before it starts, its handlers suit the view, and once it is
done, the view is as it left it. -/
structure Solo (S : Service Act σ χ Q ρ) (own : Q → Bool) (started : σ → Bool) (view : σ → G)
    (pre : G → (β : Type) → Act β → Prop) (next : G → (β : Type) → Act β → β → G → Prop)
    (post : G → ρ → Prop) (foreign : (β : Type) → Act β → Prop) (c : Config Act σ Q ρ) : Prop where
  waiting : started c.shared = false → ∀ q, own q = true → (S.handler q).Obeys pre next post (view c.shared)
  begun : ∀ t q p, c.threads t = some (q,p) → own q = true → started c.shared = true
  alone : ∀ t t' q q' p p', c.threads t = some (q,p) → c.threads t' = some (q',p') → own q = true →
    own q' = true → t = t'
  obeys : ∀ t q p, c.threads t = some (q,p) → own q = true → p.Obeys pre next post (view c.shared)
  others : ∀ t q p, c.threads t = some (q,p) → own q = false → p.Only foreign
  done : started c.shared = true → (∀ t q p, c.threads t = some (q,p) → own q = false) →
    ∃ r, post (view c.shared) r

section

variable {started : σ → Bool} {view : σ → G} {pre : G → (β : Type) → Act β → Prop}
  {next : G → (β : Type) → Act β → β → G → Prop} {post : G → ρ → Prop} {foreign : (β : Type) → Act β → Prop}
  {c' : Config Act σ Q ρ} {s : σ} {es : List (Event χ Q)} {I : G → Prop} {q : Q}

theorem solo_idle (hs : started s = false) (h : ∀ q, own q → (S.handler q).Obeys pre next post (view s)) :
    Solo S own started view pre next post foreign ⟨s,fun _ => none⟩ where
  waiting := fun _ => h
  begun := by simp
  alone := by simp
  obeys := by simp
  others := by simp
  done := by simp [hs]

section

variable (h : Solo S own started view pre next post foreign c) {t : ℕ} {th : Option (Q × Prog Act ρ)} {p : Prog Act ρ}
  {r : ρ}
include h

/-- A step that leaves the view alone and touches one thread, not the party's. -/
theorem Solo.aside (ht : ∀ q p, c.threads t = some (q,p) → own q = false)
    (hstarted : started s = started c.shared) (hview : view s = view c.shared)
    (hth : ∀ q p, th = some (q,p) → own q = false ∧ p.Only foreign) :
    Solo S own started view pre next post foreign ⟨s,update c.threads t th⟩ := by
  have hold : ∀ t' q p, update c.threads t th t' = some (q,p) → own q → c.threads t' = some (q,p) := by
    intro t' q p ht' hown
    by_cases htt : t' = t
    · subst htt
      rw [update_self] at ht'
      cases (hth q p ht').1.symm.trans hown
    · simpa [htt] using ht'
  constructor
  · intro hs q hown
    rw [hview]
    exact h.waiting (hstarted ▸ hs) q hown
  · intro t' q p ht' hown
    exact hstarted ▸ h.begun t' q p (hold t' q p ht' hown) hown
  · intro t' u q q' p p' ht' hu hown hown'
    exact h.alone t' u q q' p p' (hold t' q p ht' hown) (hold u q' p' hu hown') hown hown'
  · intro t' q p ht' hown
    rw [hview]
    exact h.obeys t' q p (hold t' q p ht' hown) hown
  · intro t' q p ht' hown
    by_cases htt : t' = t
    · subst htt
      exact (hth q p (by simpa using ht')).2
    · exact h.others t' q p (by simpa [htt] using ht') hown
  · intro hs hnone
    rw [hview]
    refine h.done (hstarted ▸ hs) ?_
    intro t' q p ht'
    by_cases htt : t' = t
    · exact ht q p (htt ▸ ht')
    · exact hnone t' q p (by simpa [htt] using ht')

/-- The party's own step, from its start on. -/
theorem Solo.own_step (hown : own q) (hstarted : started s)
    (halone : ∀ t' q' p', c.threads t' = some (q',p') → own q' → t' = t)
    (hp : p.Obeys pre next post (view s)) :
    Solo S own started view pre next post foreign ⟨s,update c.threads t (some (q,p))⟩ := by
  have hme : ∀ t' q' p', update c.threads t (some (q,p)) t' = some (q',p') → own q' → t' = t := by
    intro t' q' p' ht' hown'
    by_contra htt
    exact htt (halone t' q' p' (by simpa [htt] using ht') hown')
  constructor
  · intro hs
    cases hs.symm.trans hstarted
  · intro t' q' p' ht' hown'
    exact hstarted
  · intro t' u q' q'' p' p'' ht' hu hown' hown''
    exact (hme t' q' p' ht' hown').trans (hme u q'' p'' hu hown'').symm
  · intro t' q' p' ht' hown'
    obtain rfl := hme t' q' p' ht' hown'
    obtain ⟨rfl,rfl⟩ : q = q' ∧ p = p' := by simpa using ht'
    exact hp
  · intro t' q' p' ht' hown'
    by_cases htt : t' = t
    · subst htt
      obtain ⟨rfl,rfl⟩ : q = q' ∧ p = p' := by simpa using ht'
      cases hown.symm.trans hown'
    · exact h.others t' q' p' (by simpa [htt] using ht') hown'
  · intro hs hnone
    cases hown.symm.trans (hnone t q p (by simp))

/-- The party has what it returns to show for itself when its reply is sent. -/
theorem Solo.own_reply (ht : c.threads t = some (q,.ret r)) (hown : own q)
    (hstarted : started s = started c.shared) (hview : view s = view c.shared) :
    Solo S own started view pre next post foreign ⟨s,update c.threads t none⟩ := by
  have hold : ∀ t' q' p', update c.threads t none t' = some (q',p') → t' ≠ t ∧ c.threads t' = some (q',p') := by
    intro t' q' p' ht'
    by_cases htt : t' = t
    · simp [htt] at ht'
    · exact ⟨htt,by simpa [htt] using ht'⟩
  have hother : ∀ t' q' p', update c.threads t none t' = some (q',p') → own q' = false := by
    intro t' q' p' ht'
    obtain ⟨hne,ht'⟩ := hold t' q' p' ht'
    by_contra hown'
    exact hne (h.alone t' t q' q p' _ ht' ht (by simpa using hown') hown)
  have hon : started s := hstarted.trans (h.begun t q _ ht hown)
  constructor
  · intro hs
    cases hs.symm.trans hon
  · intro t' q' p' ht' hown'
    exact hon
  · intro t' u q' q'' p' p'' ht' hu hown' hown''
    cases hown'.symm.trans (hother t' q' p' ht')
  · intro t' q' p' ht' hown'
    cases hown'.symm.trans (hother t' q' p' ht')
  · intro t' q' p' ht' hown'
    exact h.others t' q' p' (hold t' q' p' ht').2 hown'
  · intro hs hnone
    rw [hview]
    exact ⟨r,h.obeys t q _ ht hown⟩

end

theorem step_solo (hS : Undisturbed S own started view ok pre next post foreign)
    (h : Solo S own started view pre next post foreign c) (he : Allowed S own ok c e)
    (hstep : S.step c e = some c') : Solo S own started view pre next post foreign c' := by
  cases step_steps hstep with
  | @start t q s hfree hs =>
    cases hown : own q with
    | true =>
      obtain ⟨hbefore,hafter,hview⟩ := hS.arrive_own q _ _ hown hs
      refine h.own_step hown hafter ?_ ?_
      · intro t' q' p' ht' hown'
        cases (h.begun t' q' p' ht' hown').symm.trans hbefore
      · rw [hview]
        exact h.waiting hbefore q hown
    | false =>
      obtain ⟨hstarted,hview⟩ := hS.arrive_other q _ _ hown hs
      refine h.aside (by simp [hfree]) hstarted hview ?_
      intro q' p' hth
      cases hth
      exact ⟨hown,hS.handler_other q hown⟩
  | @act t x q β a k b s ht hs =>
    cases hown : own q with
    | true =>
      have hp := h.obeys t q _ ht hown
      refine h.own_step hown ?_ ?_ ?_
      · rw [hS.run_started β a x _ b s hs]
        exact h.begun t q _ ht hown
      · intro t' q' p' ht' hown'
        exact h.alone t' t q' q p' _ ht' ht hown' hown
      · exact hp.2 b _ (hS.run_own β a x _ b s hp.1 (he t x q β a k b s rfl ht hown hs) hs)
    | false =>
      have hp := h.others t q _ ht hown
      have hmine : ∀ q' p', c.threads t = some (q',p') → own q' = false := by
        intro q' p' ht'
        cases ht.symm.trans ht'
        exact hown
      refine h.aside hmine (hS.run_started β a x _ b s hs) (hS.run_foreign β a x _ b s hp.1 hs) ?_
      intro q' p' hth
      cases hth
      exact ⟨hown,hp.2 b⟩
  | @reply t q r ht =>
    obtain ⟨hstarted,hview⟩ := hS.leave q r c.shared
    cases hown : own q with
    | true => exact h.own_reply ht hown hstarted hview
    | false =>
      refine h.aside ?_ hstarted hview (by simp)
      intro q' p' ht'
      cases ht.symm.trans ht'
      exact hown

theorem exec_solo (hS : Undisturbed S own started view ok pre next post foreign)
    (h : Solo S own started view pre next post foreign c)
    (hm : Meets S.step (Allowed S own ok) c es) (hexec : exec S.step c es = some c') :
    Solo S own started view pre next post foreign c' :=
  exec_invariant_of_meets (fun _ _ _ hc he hs => step_solo hS hc he hs) h hm hexec

/-- What holds of the view at every point of the party's programs holds of it all along. -/
theorem Solo.holds (h : Solo S own started view (fun g _ _ => I g) next (fun g _ => I g) foreign c)
    (hq : own q) : I (view c.shared) := by
  have hobeys : ∀ p : Prog Act ρ, p.Obeys (fun g _ _ => I g) next (fun g _ => I g) (view c.shared) →
      I (view c.shared) := by
    intro p hp
    cases p with
    | ret r => exact hp
    | act a k => exact hp.1
  cases hs : started c.shared with
  | false => exact hobeys _ (h.waiting hs q hq)
  | true =>
    by_cases hnone : ∀ t q p, c.threads t = some (q,p) → own q = false
    · obtain ⟨r,hr⟩ := h.done hs hnone
      exact hr
    · push Not at hnone
      obtain ⟨t,q',p,ht,hown⟩ := hnone
      exact hobeys p (h.obeys t q' p ht (by simpa using hown))

end

end Service
end AdbShare

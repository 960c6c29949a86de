import Mathlib.Tactic

/-! A loop whose body can panic, leave the loop or go round again. It comes to an end if every
round but a standstill makes something smaller. -/
namespace AdbShare.Rounds

variable {σ ρ : Type} (body : σ → Option (Except ρ σ))

/-- The loop, for so many rounds: none if they are used up, then none for a panic. -/
def run : ℕ → σ → Option (Option ρ)
  | 0, _ => none
  | rounds+1, s =>
    match body s with
    | none => some none
    | some (.error r) => some (some r)
    | some (.ok s) => run rounds s

/-- The loop is left, after some number of rounds. -/
def Leaves (s : σ) : Prop := ∃ rounds r, run body rounds s = some (some r)

/-- The states at the start of a round. -/
inductive Reached (s : σ) : σ → Prop
  | start : Reached s s
  | next {t u : σ} (h : Reached s t) (hbody : body t = some (.ok u)) : Reached s u

variable {body} {s t u : σ} {r : ρ} {size : σ → ℕ}

theorem Reached.trans (h : Reached body s t) (h' : Reached body t u) : Reached body s u := by
  induction h' with
  | start => exact h
  | next _ hbody ih => exact ih.next hbody

theorem not_leaves_of_none (h : body s = none) : ¬ Leaves body s := by
  rintro ⟨rounds,r,hr⟩
  cases rounds with
  | zero => cases hr
  | succ rounds =>
    rw [run,h] at hr
    cases hr

theorem leaves_iff_of_ok (h : body s = some (.ok t)) : Leaves body s ↔ Leaves body t := by
  constructor
  · rintro ⟨rounds,r,hr⟩
    cases rounds with
    | zero => cases hr
    | succ rounds =>
      rw [run,h] at hr
      exact ⟨rounds,r,hr⟩
  · rintro ⟨rounds,r,hr⟩
    refine ⟨rounds+1,r,?_⟩
    rw [run,h]
    exact hr

theorem run_of_standstill (h : body s = some (.ok s)) (rounds : ℕ) : run body rounds s = none := by
  induction rounds with
  | zero => rfl
  | succ rounds ih =>
    rw [run,h]
    exact ih

theorem not_leaves_of_standstill (h : body s = some (.ok s)) : ¬ Leaves body s := by
  rintro ⟨rounds,r,hr⟩
  cases (run_of_standstill h rounds).symm.trans hr

/-- The loop is left exactly if no state it comes to panics or stands still. -/
theorem leaves_iff (hsize : ∀ s t, body s = some (.ok t) → size t < size s ∨ t = s) (s : σ) :
    Leaves body s ↔ ∀ t, Reached body s t → body t ≠ none ∧ body t ≠ some (.ok t) := by
  constructor
  · intro h t hreach
    have ht : Leaves body t := by
      induction hreach with
      | start => exact h
      | next _ hbody ih => exact (leaves_iff_of_ok hbody).mp ih
    exact ⟨fun hnone => not_leaves_of_none hnone ht,fun hstill => not_leaves_of_standstill hstill ht⟩
  · intro h
    induction hn : size s using Nat.strong_induction_on generalizing s with
    | _ n ih =>
      obtain ⟨hpanic,hstill⟩ := h s .start
      cases hbody : body s with
      | none => exact absurd hbody hpanic
      | some result =>
        cases result with
        | error r => exact ⟨1,r,by rw [run,hbody]⟩
        | ok t =>
          obtain hless | rfl := hsize s t hbody
          · rw [leaves_iff_of_ok hbody]
            refine ih (size t) (hn ▸ hless) t ?_ rfl
            intro u hu
            exact h u ((Reached.start.next hbody).trans hu)
          · exact absurd hbody hstill

end AdbShare.Rounds

import Mathlib.Tactic

/-! Executions of a partial step function. A label resolves every choice of a step,
so a schedule is a list of labels and an interleaving is one particular schedule. -/
namespace AdbShare.Transition

variable {σ α : Type*} {step : σ → α → Option σ} {cond : σ → α → Prop} {Inv P : σ → Prop} {s t : σ} {a : α} {as : List α}

/-- Run the labels of a schedule in order; a label that is not enabled blocks it. -/
def exec (step : σ → α → Option σ) : σ → List α → Option σ
  | s, [] => some s
  | s, a::as => (step s a).bind fun t => exec step t as

@[simp] theorem exec_nil (step : σ → α → Option σ) (s : σ) : exec step s [] = some s := rfl

theorem exec_cons_iff : exec step s (a::as) = some t ↔ ∃ u, step s a = some u ∧ exec step u as = some t := by
  simp [exec,Option.bind_eq_some_iff]

theorem exec_append_iff {bs : List α} :
    exec step s (as++bs) = some t ↔ ∃ u, exec step s as = some u ∧ exec step u bs = some t := by
  induction as generalizing s with
  | nil => simp
  | cons a as ih =>
    simp only [List.cons_append,exec_cons_iff,ih]
    constructor
    · rintro ⟨u,hu,v,hv,ht⟩
      exact ⟨v,⟨u,hu,hv⟩,ht⟩
    · rintro ⟨v,⟨u,hu,hv⟩,ht⟩
      exact ⟨u,hu,v,hv,ht⟩

/-- What holds at the start and survives every step holds after every schedule. -/
theorem exec_invariant (hstep : ∀ s a t, Inv s → step s a = some t → Inv t)
    {s t : σ} (hs : Inv s) (h : exec step s as = some t) : Inv t := by
  induction as generalizing s with
  | nil =>
    obtain rfl : s = t := by simpa using h
    exact hs
  | cons a as ih =>
    obtain ⟨u,hu,ht⟩ := exec_cons_iff.mp h
    exact ih (hstep s a u hs hu) ht

/-- Every label of the schedule is taken in a state that meets the condition. -/
def Meets (step : σ → α → Option σ) (cond : σ → α → Prop) : σ → List α → Prop
  | _, [] => True
  | s, a::as => cond s a ∧ ∀ t, step s a = some t → Meets step cond t as

theorem meets_cons {u : σ} (hu : step s a = some u) (hc : cond s a) (h : Meets step cond u as) :
    Meets step cond s (a::as) := by
  refine ⟨hc,?_⟩
  intro t ht
  cases hu.symm.trans ht
  exact h

theorem meets_append_iff : Meets step cond s (as++bs) ↔
    Meets step cond s as ∧ ∀ u, exec step s as = some u → Meets step cond u bs := by
  induction as generalizing s with
  | nil => simp [Meets,exec]
  | cons a as ih =>
    constructor
    · intro h
      refine ⟨⟨h.1,fun t ht => (ih.mp (h.2 t ht)).1⟩,fun u hu => ?_⟩
      obtain ⟨t,ht,hrest⟩ := exec_cons_iff.mp hu
      exact (ih.mp (h.2 t ht)).2 u hrest
    · intro h
      exact ⟨h.1.1,fun t ht => ih.mpr ⟨h.1.2 t ht,fun u hu => h.2 u (exec_cons_iff.mpr ⟨t,ht,hu⟩)⟩⟩

/-- A condition checked along one schedule. -/
def check (step : σ → α → Option σ) (ok : σ → α → Bool) : σ → List α → Bool
  | _, [] => true
  | s, a::as => ok s a &&
    match step s a with
    | none => true
    | some t => check step ok t as

theorem meets_of_check {ok : σ → α → Bool} (hok : ∀ s a, ok s a → cond s a) (h : check step ok s as) :
    Meets step cond s as := by
  induction as generalizing s with
  | nil => trivial
  | cons a as ih =>
    rw [check,Bool.and_eq_true] at h
    refine ⟨hok s a h.1,?_⟩
    intro t ht
    have hrest := h.2
    rw [ht] at hrest
    exact ih hrest

/-- The invariant rule for runs all of whose steps meet a condition. -/
theorem exec_invariant_of_meets (hstep : ∀ s a t, Inv s → cond s a → step s a = some t → Inv t)
    {s t : σ} (hs : Inv s) (hm : Meets step cond s as) (h : exec step s as = some t) : Inv t := by
  induction as generalizing s with
  | nil =>
    obtain rfl : s = t := by simpa using h
    exact hs
  | cons a as ih =>
    obtain ⟨u,hu,ht⟩ := exec_cons_iff.mp h
    exact ih (hstep s a u hs hm.1 hu) (hm.2 u hu) ht

/-- A property that a step loses for good exactly if it does not meet the condition. -/
theorem exec_iff_meets (hinv : ∀ s a t, Inv s → step s a = some t → Inv t)
    (hstep : ∀ s a t, Inv s → step s a = some t → (P t ↔ P s ∧ cond s a))
    {s t : σ} (hs : Inv s) (h : exec step s as = some t) : P t ↔ P s ∧ Meets step cond s as := by
  induction as generalizing s with
  | nil =>
    obtain rfl : s = t := by simpa using h
    simp [Meets]
  | cons a as ih =>
    obtain ⟨u,hu,ht⟩ := exec_cons_iff.mp h
    rw [ih (hinv s a u hs hu) ht,hstep s a u hs hu,and_assoc]
    refine and_congr_right fun _ => and_congr_right fun _ => ?_
    constructor
    · intro hm v hv
      cases hu.symm.trans hv
      exact hm
    · exact fun hm => hm u hu

/-- The property holds at the start of the schedule and after each of its steps. -/
def Always (step : σ → α → Option σ) (P : σ → Prop) : σ → List α → Prop
  | s, [] => P s
  | s, a::as => P s ∧ ∀ t, step s a = some t → Always step P t as

theorem always_of_meets (hstep : ∀ s a t, Inv s → cond s a → step s a = some t → Inv t) (hp : ∀ s, Inv s → P s)
    {s : σ} (hs : Inv s) (hm : Meets step cond s as) : Always step P s as := by
  induction as generalizing s with
  | nil => exact hp s hs
  | cons a as ih => exact ⟨hp s hs,fun t ht => ih (hstep s a t hs hm.1 ht) (hm.2 t ht)⟩

/-- The property holds all along exactly if no step loses it. -/
theorem always_iff_meets (hinv : ∀ s a t, Inv s → step s a = some t → Inv t)
    (hstep : ∀ s a t, Inv s → P s → step s a = some t → (P t ↔ cond s a))
    {s t : σ} (hs : Inv s) (hp : P s) (h : exec step s as = some t) :
    Always step P s as ↔ Meets step cond s as := by
  induction as generalizing s with
  | nil => exact ⟨fun _ => trivial,fun _ => hp⟩
  | cons a as ih =>
    obtain ⟨u,hu,ht⟩ := exec_cons_iff.mp h
    have honly : ∀ v, step s a = some v → u = v := fun v hv => Option.some.inj (hu.symm.trans hv)
    have hrest := fun hpu => ih (hinv s a u hs hu) hpu ht
    constructor
    · rintro ⟨_,hall⟩
      have hpu : P u := by
        have := hall u hu
        cases as with
        | nil => exact this
        | cons b bs => exact this.1
      refine ⟨(hstep s a u hs hp hu).mp hpu,?_⟩
      intro v hv
      obtain rfl := honly v hv
      exact (hrest hpu).mp (hall u hu)
    · rintro ⟨hc,hmeets⟩
      have hpu := (hstep s a u hs hp hu).mpr hc
      refine ⟨hp,?_⟩
      intro v hv
      obtain rfl := honly v hv
      exact (hrest hpu).mpr (hmeets u hu)

/-- What is noted down along a schedule; it has no influence on the run. -/
def history {η : Type*} (step : σ → α → Option σ) (note : σ → α → η → η) : σ → List α → η → η
  | _, [], h => h
  | s, a::as, h =>
    match step s a with
    | none => h
    | some t => history step note t as (note s a h)

/-- The invariant rule for a state together with what has been noted down. -/
theorem exec_invariant_of_history {η : Type*} {note : σ → α → η → η} {Inv : σ → η → Prop}
    (hstep : ∀ s a t h, Inv s h → cond s a → step s a = some t → Inv t (note s a h)) {s t : σ} {h : η} (hs : Inv s h) (hm : Meets step cond s as) (ht : exec step s as = some t) :
    Inv t (history step note s as h) := by
  induction as generalizing s h with
  | nil =>
    obtain rfl : s = t := by simpa using ht
    exact hs
  | cons a as ih =>
    obtain ⟨u,hu,ht⟩ := exec_cons_iff.mp ht
    rw [history,hu]
    exact ih (hstep s a u h hs hm.1 hu) (hm.2 u hu) ht

end AdbShare.Transition

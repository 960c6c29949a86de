import Mathlib.Tactic

/-! Walking a tree with an explicit stack. What is seen at a node is folded over a state and
may end the walk; the nodes below it go on top of the stack. Such a walk is one fold over
everything that a recursive descent would see. -/
namespace AdbShare.StackWalk

open List

variable {α ε σ ρ : Type} (look : α → List ε) (kids : α → List α) (step : σ → ε → Except ρ σ) {rank : α → ℕ} {s : σ}
  {rounds : ℕ} {stack : List α} {R : ρ → Prop} {result : Except ρ σ}

/-- `while let Some(x) = stack.pop()`, for so many rounds. -/
def drain : ℕ → List α → σ → Option (Except ρ σ)
  | 0, _, _ => none
  | _+1, [], s => some (.ok s)
  | rounds+1, x::stack, s =>
    match (look x).foldlM step s with
    | .error r => some (.error r)
    | .ok s => drain rounds (kids x++stack) s

/-- What a descent of so many levels sees. -/
def trail : ℕ → α → List ε
  | 0, x => look x
  | n+1, x => look x++(kids x).flatMap (trail n)

/-- The nodes it comes to. -/
def nodes : ℕ → α → List α := trail (fun x => [x]) kids

section

variable {look kids step} {e : ε} {es : List ε} {t : σ} {r : ρ} {I : σ → Prop} {J : σ → α → Prop}

theorem foldlM_append_except (as bs : List ε) (s : σ) :
    (as++bs).foldlM step s = (as.foldlM step s).bind fun t => bs.foldlM step t := by
  rw [foldlM_append]
  rfl

theorem foldlM_cons_ok_iff : (e::es).foldlM step s = .ok t ↔ ∃ u, step s e = .ok u ∧ es.foldlM step u = .ok t := by
  rw [foldlM_cons]
  cases step s e with
  | error r => simp [bind,Except.bind]
  | ok u => simp [bind,Except.bind]

theorem foldlM_cons_error_iff : (e::es).foldlM step s = .error r ↔
    step s e = .error r ∨ ∃ u, step s e = .ok u ∧ es.foldlM step u = .error r := by
  rw [foldlM_cons]
  cases step s e with
  | error r => simp [bind,Except.bind]
  | ok u => simp [bind,Except.bind]

theorem trail_flatMap (hrank : ∀ x, ∀ y ∈ kids x, rank y+1 = rank x) (x : α) (rest : List α) :
    (x::rest).flatMap (fun y => trail look kids (rank y) y) =
      look x++(kids x++rest).flatMap fun y => trail look kids (rank y) y := by
  have hx : trail look kids (rank x) x = look x++(kids x).flatMap fun y => trail look kids (rank y) y := by
    cases hn : rank x with
    | zero =>
      have hkids : kids x = [] := by
        rw [eq_nil_iff_forall_not_mem]
        intro y hy
        have := hrank x y hy
        omega
      simp [trail,hkids]
    | succ n =>
      have hsame : (kids x).flatMap (trail look kids n) = (kids x).flatMap fun y => trail look kids (rank y) y := by
        rw [flatMap_def,flatMap_def]
        congr 1
        apply map_congr_left
        intro y hy
        have := hrank x y hy
        rw [show rank y = n by omega]
      rw [trail,hsame]
  simp [hx,append_assoc]

/-- With rounds enough the walk is the fold over what the descents from its stack see. -/
theorem drain_eq (hrank : ∀ x, ∀ y ∈ kids x, rank y+1 = rank x)
    (h : (stack.flatMap fun y => nodes kids (rank y) y).length < rounds) (s : σ) :
    drain look kids step rounds stack s = some ((stack.flatMap fun y => trail look kids (rank y) y).foldlM step s) := by
  induction rounds generalizing stack s with
  | zero => omega
  | succ rounds ih =>
    cases stack with
    | nil => rfl
    | cons x rest =>
      have hnodes := congrArg List.length (@trail_flatMap α α (fun x => [x]) kids rank hrank x rest)
      rw [length_append,length_singleton] at hnodes
      rw [trail_flatMap hrank,foldlM_append_except,drain]
      cases (look x).foldlM step s with
      | error r => rfl
      | ok t =>
        refine ih ?_ t
        unfold nodes at h ⊢
        omega

/-- The rule for a walk: `I` holds of the state between nodes, `J` of every node on the stack,
and `R` of what ends the walk early. -/
theorem drain_rule (hlook : ∀ x s t, I s → J s x → (look x).foldlM step s = .ok t →
      I t ∧ (∀ y ∈ kids x, J t y) ∧ ∀ y, J s y → J t y)
    (hstop : ∀ x s r, I s → J s x → (look x).foldlM step s = .error r → R r) (hs : I s) (hstack : ∀ x ∈ stack, J s x)
    (h : drain look kids step rounds stack s = some result) : result.casesOn R I := by
  induction rounds generalizing stack s with
  | zero => cases h
  | succ rounds ih =>
    cases stack with
    | nil =>
      cases h
      exact hs
    | cons x rest =>
      have hx := hstack x mem_cons_self
      rw [drain] at h
      cases hfold : (look x).foldlM step s with
      | error r =>
        rw [hfold] at h
        cases h
        exact hstop x s r hs hx hfold
      | ok t =>
        rw [hfold] at h
        obtain ⟨ht,hkids,hkeep⟩ := hlook x s t hs hx hfold
        refine ih ht ?_ h
        intro y hy
        obtain hy | hy := mem_append.mp hy
        · exact hkids y hy
        · exact hkeep y (hstack y (mem_cons_of_mem x hy))

end

section

variable (visit : α → σ → List α → Except ρ (σ × List α))

/-- A walk in which what is below a node depends on the state and is pushed while it is looked at. -/
def roam : ℕ → List α → σ → Option (Except ρ σ)
  | 0, _, _ => none
  | _+1, [], s => some (.ok s)
  | rounds+1, x::stack, s =>
    match visit x s stack with
    | .error r => some (.error r)
    | .ok (s,stack) => roam rounds stack s

/-- The walk from the stack comes to an end. -/
def Ends (stack : List α) : Prop := ∀ s, ∃ enough result, ∀ rounds ≥ enough, roam visit rounds stack s = some result

variable {visit} {x : α} {I : σ → List α → Prop}

theorem ends_nil : Ends visit [] := by
  intro s
  refine ⟨1,.ok s,?_⟩
  intro rounds hrounds
  obtain ⟨rounds,rfl⟩ := Nat.exists_eq_succ_of_ne_zero (by omega : rounds ≠ 0)
  rfl

/-- A node comes before what is below it, which is of a lower rank. -/
theorem ends_cons (hpush : ∀ x s stack s' stack', visit x s stack = .ok (s',stack') →
      ∃ kids, stack' = kids++stack ∧ ∀ y ∈ kids, rank y < rank x) (h : Ends visit stack) : Ends visit (x::stack) := by
  induction hn : rank x using Nat.strong_induction_on generalizing x stack with
  | _ n ih =>
    intro s
    cases hvisit : visit x s stack with
    | error r =>
      refine ⟨1,.error r,?_⟩
      intro rounds hrounds
      obtain ⟨rounds,rfl⟩ := Nat.exists_eq_succ_of_ne_zero (by omega : rounds ≠ 0)
      rw [roam,hvisit]
    | ok t =>
      obtain ⟨kids,hstack,hrank⟩ := hpush x s stack t.1 t.2 hvisit
      have hkids : Ends visit (kids++stack) := by
        clear hstack
        induction kids with
        | nil => exact h
        | cons y kids ihk =>
          refine ih (rank y) ?_ (ihk fun z hz => hrank z (mem_cons_of_mem y hz)) rfl
          rw [← hn]
          exact hrank y mem_cons_self
      obtain ⟨enough,result,hall⟩ := hkids t.1
      refine ⟨enough+1,result,?_⟩
      intro rounds hrounds
      obtain ⟨rounds,rfl⟩ := Nat.exists_eq_succ_of_ne_zero (by omega : rounds ≠ 0)
      rw [roam,hvisit]
      dsimp only
      rw [hstack]
      exact hall rounds (by omega)

/-- The rule for such a walk: `I` holds of the state and the stack between nodes. -/
theorem roam_rule (hgo : ∀ x s stack s' stack', I s (x::stack) → visit x s stack = .ok (s',stack') → I s' stack')
    (hstop : ∀ x s stack r, I s (x::stack) → visit x s stack = .error r → R r) (hs : I s stack)
    (h : roam visit rounds stack s = some result) : result.casesOn R fun t => I t [] := by
  induction rounds generalizing stack s with
  | zero => cases h
  | succ rounds ih =>
    cases stack with
    | nil =>
      cases h
      exact hs
    | cons x stack =>
      rw [roam] at h
      cases hvisit : visit x s stack with
      | error r =>
        rw [hvisit] at h
        cases h
        exact hstop x s stack r hs hvisit
      | ok t =>
        rw [hvisit] at h
        exact ih (hgo x s stack t.1 t.2 hs hvisit) h

end
end AdbShare.StackWalk

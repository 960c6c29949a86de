import Mathlib.Tactic

/-! How many parties have a property, when one party moves at a time. -/
namespace AdbShare

open Finset

/-- Exactly `n` parties have the property. -/
def Tally (p : ℕ → Prop) (n : ℕ) : Prop :=
  ∃ parties : Finset ℕ, (∀ t, t ∈ parties ↔ p t) ∧ parties.card = n

namespace Tally

variable {p p' : ℕ → Prop} {n m t : ℕ}

theorem none (h : ∀ t, ¬p t) : Tally p 0 := ⟨∅,by simpa using h,rfl⟩

theorem stay (h : Tally p n) (hother : ∀ u, u ≠ t → (p' u ↔ p u)) (ht : p' t ↔ p t) : Tally p' n := by
  obtain ⟨parties,hmem,hcard⟩ := h
  refine ⟨parties,?_,hcard⟩
  intro u
  by_cases hu : u = t
  · subst hu
    exact (hmem u).trans ht.symm
  · exact (hmem u).trans (hother u hu).symm

theorem join (h : Tally p n) (hother : ∀ u, u ≠ t → (p' u ↔ p u)) (ht : ¬p t) (ht' : p' t) : Tally p' (n+1) := by
  obtain ⟨parties,hmem,hcard⟩ := h
  refine ⟨insert t parties,?_,?_⟩
  · intro u
    by_cases hu : u = t
    · subst hu
      exact iff_of_true (mem_insert_self ..) ht'
    · rw [mem_insert,hother u hu,hmem]
      exact ⟨fun h => h.resolve_left hu,Or.inr⟩
  · rw [card_insert_of_notMem (fun h => ht ((hmem t).mp h)),hcard]

theorem leave (h : Tally p n) (hother : ∀ u, u ≠ t → (p' u ↔ p u)) (ht : p t) (ht' : ¬p' t) :
    ∃ k, n = k+1 ∧ Tally p' k := by
  obtain ⟨parties,hmem,hcard⟩ := h
  refine ⟨(parties.erase t).card,?_,parties.erase t,?_,rfl⟩
  · rw [card_erase_add_one ((hmem t).mpr ht),hcard]
  intro u
  by_cases hu : u = t
  · subst hu
    exact iff_of_false (notMem_erase _ _) ht'
  · rw [mem_erase,hmem,hother u hu]
    exact ⟨And.right,fun h => ⟨hu,h⟩⟩

theorem lt (h : Tally p n) (h' : Tally p' m) (hsub : ∀ u, p u → p' u) (ht : ¬p t) (ht' : p' t) : n < m := by
  obtain ⟨parties,hmem,rfl⟩ := h
  obtain ⟨parties',hmem',rfl⟩ := h'
  refine card_lt_card ⟨?_,?_⟩
  · intro u hu
    exact (hmem' u).mpr (hsub u ((hmem u).mp hu))
  · intro hle
    exact ht ((hmem t).mp (hle ((hmem' t).mpr ht')))

end Tally
end AdbShare

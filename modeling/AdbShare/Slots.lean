import Mathlib.Tactic

/-! A table of numbered slots in which a new entry gets the lowest free number. -/
namespace AdbShare

abbrev Slots (α : Type*) := List (Option α)

namespace Slots

variable {α : Type*} {a b : α} {t : Slots α} {n m : ℕ}

def lookup (t : Slots α) (n : ℕ) : Option α := t.getD n none

def lowest : Slots α → ℕ
  | [] => 0
  | none::_ => 0
  | some _::t => lowest t+1

/-- Put an entry at the lowest free number. -/
def take (a : α) : Slots α → Slots α
  | [] => [some a]
  | none::t => some a::t
  | some b::t => some b::take a t

def free (n : ℕ) (t : Slots α) : Slots α := t.set n none

theorem lookup_lowest (t : Slots α) : lookup t (lowest t) = none := by
  induction t with
  | nil => rfl
  | cons x t ih =>
    cases x with
    | none => rfl
    | some b => simpa [lowest,lookup] using ih

theorem lookup_take (a : α) (t : Slots α) (n : ℕ) :
    lookup (take a t) n = if n = lowest t then some a else lookup t n := by
  induction t generalizing n with
  | nil => cases n <;> simp [take,lowest,lookup]
  | cons x t ih =>
    cases x with
    | none => cases n <;> simp [take,lowest,lookup]
    | some b =>
      cases n with
      | zero => simp [take,lowest,lookup]
      | succ n => simpa [take,lowest,lookup] using ih n

theorem lookup_free (t : Slots α) (m n : ℕ) : lookup (free m t) n = if n = m then none else lookup t n := by
  simp only [lookup,free,List.getD_eq_getElem?_getD,List.getElem?_set]
  by_cases h : m = n
  · subst h
    by_cases hm : m < t.length <;> simp [hm]
  · simp [h,Ne.symm h]

/-- An entry that is there stays there. -/
theorem lookup_take_of_some (h : lookup t n = some b) : lookup (take a t) n = some b := by
  rw [lookup_take,if_neg,h]
  rintro rfl
  rw [lookup_lowest] at h
  cases h

theorem lookup_take_iff (hab : a ≠ b) (t : Slots α) (n : ℕ) : lookup (take a t) n = some b ↔ lookup t n = some b := by
  rw [lookup_take]
  split_ifs with hn
  · rw [hn,lookup_lowest]
    simp [hab]
  · rfl

theorem lookup_free_iff (hab : a ≠ b) (hm : lookup t m = some a) (n : ℕ) :
    lookup (free m t) n = some b ↔ lookup t n = some b := by
  rw [lookup_free]
  split_ifs with hn
  · rw [hn,hm]
    simp [hab]
  · rfl

end Slots
end AdbShare

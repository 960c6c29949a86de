import Mathlib.Data.List.Sort
import Mathlib.Tactic

/-! Packages that are left broken when others are removed, by a dependency graph that is recorded
from both ends. -/
namespace AdbShare.BrokenPackages

open List

abbrev Text := List Char

structure Row where
  id : Text
  dependencies : List Text
  neededBy : List Text

/-- What the chosen packages name, on the phone and not chosen. -/
def named (rows : List Row) (ids : List Text) : List Text :=
  (rows.filter fun row => row.id ∈ ids).flatMap fun row =>
    (row.dependencies++row.neededBy).filter fun dependent => dependent ∉ ids ∧ dependent ∈ rows.map Row.id

def brokenByRemoving (rows : List Row) (ids : List Text) : List Text :=
  (named rows ids).dedup.insertionSort fun a b => a.map Char.toNat ≤ b.map Char.toNat

section

variable (rows : List Row) (ids : List Text) (p : Text)

/-- A chosen package says that it is needed by this one, or this one that it depends on a chosen one. -/
def Depends : Prop :=
  (∃ row ∈ rows, row.id ∈ ids ∧ p ∈ row.neededBy) ∨ ∃ row ∈ rows, row.id = p ∧ ∃ d ∈ row.dependencies, d ∈ ids

/-- The packages on the phone, not chosen, that depend on a chosen one, each once. -/
def Right (broken : List Text) : Prop :=
  broken.Nodup ∧ ∀ p, p ∈ broken ↔ p ∈ rows.map Row.id ∧ p ∉ ids ∧ Depends rows ids p

/-- What a chosen package depends on is chosen, not on the phone or depends on a chosen one itself; and a
package that depends on a chosen one is chosen or named by a chosen package on the phone. -/
structure Mutual : Prop where
  sound : ∀ row ∈ rows, row.id ∈ ids → ∀ p ∈ row.dependencies, p ∉ ids → p ∈ rows.map Row.id → Depends rows ids p
  complete : ∀ row ∈ rows, row.id ∉ ids → (∃ d ∈ row.dependencies, d ∈ ids) →
    ∃ chosen ∈ rows, chosen.id ∈ ids ∧ row.id ∈ chosen.dependencies++chosen.neededBy

theorem mem_brokenByRemoving : p ∈ brokenByRemoving rows ids ↔ p ∈ rows.map Row.id ∧ p ∉ ids ∧
    ∃ row ∈ rows, row.id ∈ ids ∧ p ∈ row.dependencies++row.neededBy := by
  rw [brokenByRemoving,(perm_insertionSort _ _).mem_iff,mem_dedup,named,mem_flatMap]
  simp only [mem_filter,decide_eq_true_eq]
  tauto

theorem broken_right_iff : Right rows ids (brokenByRemoving rows ids) ↔ Mutual rows ids := by
  have hnodup : (brokenByRemoving rows ids).Nodup := (perm_insertionSort _ _).nodup_iff.mpr (nodup_dedup _)
  constructor
  · rintro ⟨-,h⟩
    constructor
    · intro row hrow hid p hp hnot hphone
      exact ((h p).mp ((mem_brokenByRemoving _ _ _).mpr ⟨hphone,hnot,row,hrow,hid,mem_append_left _ hp⟩)).2.2
    · intro row hrow hnot hdep
      have hbroken := (h row.id).mpr ⟨mem_map_of_mem hrow,hnot,.inr ⟨row,hrow,rfl,hdep⟩⟩
      exact ((mem_brokenByRemoving _ _ _).mp hbroken).2.2
  · intro h
    refine ⟨hnodup,?_⟩
    intro p
    rw [mem_brokenByRemoving]
    refine and_congr_right fun hphone => and_congr_right fun hnot => ?_
    constructor
    · rintro ⟨row,hrow,hid,hp⟩
      obtain hp | hp := mem_append.mp hp
      · exact h.sound row hrow hid p hp hnot hphone
      · exact .inl ⟨row,hrow,hid,hp⟩
    · rintro (⟨row,hrow,hid,hp⟩ | ⟨row,hrow,rfl,hdep⟩)
      · exact ⟨row,hrow,hid,mem_append_right _ hp⟩
      · exact h.complete row hrow hnot hdep

end

/-- The app that is removed needs the library, and not the other way round. -/
theorem library_not_broken : ¬Right [⟨['a'],[['l']],[]⟩,⟨['l'],[],[]⟩] [['a']]
    (brokenByRemoving [⟨['a'],[['l']],[]⟩,⟨['l'],[],[]⟩] [['a']]) := by
  rintro ⟨-,h⟩
  have hbroken := (h ['l']).mp (by decide)
  simp [Depends] at hbroken

end AdbShare.BrokenPackages

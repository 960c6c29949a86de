import Mathlib.Tactic

/-! Numbered resources that a party takes from a pool, mints, hands back or gives up.
Each resource has at most one place: the pool or one holder. -/
namespace AdbShare

open Function List

/-- `held t` is what party `t` holds; numbers from `next` on are not in use yet. -/
structure Custody (pool : List ℕ) (next : ℕ) (held : ℕ → Option ℕ) : Prop where
  pool_nodup : pool.Nodup
  pool_old : ∀ c ∈ pool, c < next
  held_old : ∀ t c, held t = some c → c < next
  held_unique : ∀ t u c, held t = some c → held u = some c → t = u
  held_unpooled : ∀ t c, held t = some c → c ∉ pool

namespace Custody

variable {pool : List ℕ} {next c : ℕ} {held : ℕ → Option ℕ} {pool' : List ℕ}

theorem empty (hp : pool.Nodup) (ho : ∀ c ∈ pool, c < next) : Custody pool next (fun _ => none) where
  pool_nodup := hp
  pool_old := ho
  held_old := by simp
  held_unique := by simp
  held_unpooled := by simp

section

variable (h : Custody pool next held) {next' t : ℕ}
include h

/-- What is held after one party changed hands, for a resource nobody else has. -/
theorem update_some (t : ℕ) (hold : c < next) (hpool : c ∉ pool) (hfree : ∀ u, held u = some c → u = t) :
    Custody pool next (update held t (some c)) where
  pool_nodup := h.pool_nodup
  pool_old := h.pool_old
  held_old := by
    intro u d hu
    by_cases hut : u = t
    · subst hut
      obtain rfl : c = d := by simpa using hu
      exact hold
    · exact h.held_old u d (by simpa [hut] using hu)
  held_unique := by
    intro u v d hu hv
    by_cases hut : u = t <;> by_cases hvt : v = t
    · exact hut.trans hvt.symm
    · subst hut
      obtain rfl : c = d := by simpa using hu
      exact (hfree v (by simpa [hvt] using hv)).symm
    · subst hvt
      obtain rfl : c = d := by simpa using hv
      exact hfree u (by simpa [hut] using hu)
    · exact h.held_unique u v d (by simpa [hut] using hu) (by simpa [hvt] using hv)
  held_unpooled := by
    intro u d hu
    by_cases hut : u = t
    · subst hut
      obtain rfl : c = d := by simpa using hu
      exact hpool
    · exact h.held_unpooled u d (by simpa [hut] using hu)

theorem letGo (t : ℕ) : Custody pool next (update held t none) := by
  have hkeep : ∀ u d, update held t none u = some d → held u = some d := by
    intro u d hu
    by_cases hut : u = t
    · subst hut
      simp at hu
    · simpa [hut] using hu
  exact {
    pool_nodup := h.pool_nodup
    pool_old := h.pool_old
    held_old := fun u d hu => h.held_old u d (hkeep u d hu)
    held_unique := fun u v d hu hv => h.held_unique u v d (hkeep u d hu) (hkeep v d hv)
    held_unpooled := fun u d hu => h.held_unpooled u d (hkeep u d hu) }

theorem keep (t : ℕ) (o : Option ℕ) (ho : o = held t ∨ o = none) : Custody pool next (update held t o) := by
  obtain rfl | rfl := ho
  · rwa [update_eq_self]
  · exact h.letGo t

omit h in
theorem take (h : Custody (c::pool) next held) (t : ℕ) : Custody pool next (update held t (some c)) := by
  have hnd := nodup_cons.mp h.pool_nodup
  have hsmall : Custody pool next held := {
    pool_nodup := hnd.2
    pool_old := fun d hd => h.pool_old d (mem_cons_of_mem _ hd)
    held_old := h.held_old
    held_unique := h.held_unique
    held_unpooled := fun u d hu hd => h.held_unpooled u d hu (mem_cons_of_mem _ hd) }
  apply hsmall.update_some t (h.pool_old c mem_cons_self) hnd.1
  intro u hu
  exact absurd mem_cons_self (h.held_unpooled u c hu)

theorem widen (hn : next ≤ next') : Custody pool next' held where
  pool_nodup := h.pool_nodup
  pool_old := fun d hd => lt_of_lt_of_le (h.pool_old d hd) hn
  held_old := fun u d hu => lt_of_lt_of_le (h.held_old u d hu) hn
  held_unique := h.held_unique
  held_unpooled := h.held_unpooled

theorem mint (t : ℕ) : Custody pool (next+1) (update held t (some next)) := by
  apply (h.widen (Nat.le_succ next)).update_some t (Nat.lt_succ_self next)
  · intro hd
    exact absurd (h.pool_old next hd) (lt_irrefl next)
  · intro u hu
    exact absurd (h.held_old u next hu) (lt_irrefl next)

theorem put (ht : held t = some c) : Custody (c::pool) next (update held t none) := by
  have hgone := h.letGo t
  exact {
    pool_nodup := nodup_cons.mpr ⟨h.held_unpooled t c ht,h.pool_nodup⟩
    pool_old := by
      intro d hd
      obtain rfl | hd := mem_cons.mp hd
      · exact h.held_old t d ht
      · exact h.pool_old d hd
    held_old := hgone.held_old
    held_unique := hgone.held_unique
    held_unpooled := by
      intro u d hu hd
      obtain rfl | hd := mem_cons.mp hd
      · by_cases hut : u = t
        · subst hut
          simp at hu
        · exact hut (h.held_unique u t d (by simpa [hut] using hu) ht)
      · exact hgone.held_unpooled u d hu hd }

theorem shrink (hnd : pool'.Nodup) (hsub : ∀ d ∈ pool', d ∈ pool) : Custody pool' next held where
  pool_nodup := hnd
  pool_old := fun d hd => h.pool_old d (hsub d hd)
  held_old := h.held_old
  held_unique := h.held_unique
  held_unpooled := fun u d hu hd => h.held_unpooled u d hu (hsub d hd)

theorem perm (hp : pool.Perm pool') :
    Custody pool' next held := h.shrink (hp.nodup_iff.mp h.pool_nodup) fun _ => hp.mem_iff.mpr

theorem draw (t : ℕ) (hp : pool.Perm (c::pool')) : Custody pool' next (update held t (some c)) := by
  exact (h.perm hp).take t

end

end Custody
end AdbShare

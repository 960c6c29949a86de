import Mathlib.Data.List.AList
import Mathlib.Tactic

/-! Finite maps as association lists with distinct keys, with the operations of a hash
map: lookup, insert, erase and retain. Every law is a law of lookup. -/
namespace AdbShare

open List

/-- A finite map; the value type does not depend on the key. -/
abbrev Dict (κ α : Type) := AList (fun _ : κ => α)

namespace Dict

variable {κ α : Type}

/-- Keep the entries that pass the test. -/
def retain (m : Dict κ α) (p : κ → α → Bool) : Dict κ α :=
  ⟨m.entries.filter fun e => p e.1 e.2,m.nodupKeys.sublist filter_sublist⟩

/-- How many entries there are. -/
def size (m : Dict κ α) : ℕ := m.entries.length

/-- The keys on which a test holds, in the order of the entries. -/
def keysWhere (m : Dict κ α) (p : κ → Bool) : List κ := m.keys.filter p

theorem keysWhere_nodup (m : Dict κ α) (p : κ → Bool) : (m.keysWhere p).Nodup := m.keys_nodup.filter p

variable [DecidableEq κ] {m : Dict κ α} {k : κ} {σ ρ β : Type*} {step : σ → ρ → σ} {find : ρ → Option β} {v : α}
  {p : κ → α → Bool} {l : List (κ × α)}

theorem lookup_insert_if (m : Dict κ α) (k k' : κ) (v : α) :
    (AList.insert k v m).lookup k' = if k' = k then some v else m.lookup k' := by
  by_cases h : k' = k
  · subst h; simp
  · simp [h]

/-- What is read after a run of writes is the last of them, or what was there before. -/
theorem foldl_last_write (get : σ → Option β)
    (hstep : ∀ s r, get (step s r) = (find r).or (get s)) (rs : List ρ) (s : σ) :
    get (rs.foldl step s) = (rs.reverse.findSome? find).or (get s) := by
  induction rs using List.reverseRecOn with
  | nil => rfl
  | append_singleton rs r ih =>
    rw [foldl_concat,hstep,ih,reverse_concat,findSome?_cons]
    cases find r <;> rfl

theorem lookup_erase_if (m : Dict κ α) (k k' : κ) :
    (AList.erase k m).lookup k' = if k' = k then none else m.lookup k' := by
  by_cases h : k' = k
  · subst h; simp
  · simp [h]

theorem mem_entries_iff : ⟨k,v⟩ ∈ m.entries ↔ m.lookup k = some v := AList.mem_lookup_iff.symm

theorem lookup_retain_iff : (m.retain p).lookup k = some v ↔ m.lookup k = some v ∧ p k v := by
  rw [← mem_entries_iff,← mem_entries_iff]
  simp [retain]

theorem lookup_retain_of_keys (m : Dict κ α) (p : κ → Bool) (k : κ) :
    (m.retain fun k' _ => p k').lookup k = if p k then m.lookup k else none := by
  apply Option.ext
  intro v
  rw [lookup_retain_iff]
  by_cases h : p k <;> simp [h]

theorem mem_keysWhere {p : κ → Bool} : k ∈ m.keysWhere p ↔ (∃ v, m.lookup k = some v) ∧ p k := by
  rw [keysWhere,mem_filter,← AList.mem_keys,← AList.lookup_isSome,Option.isSome_iff_exists]

/-- Change the value of a key that is there. -/
def adjust (m : Dict κ α) (k : κ) (f : α → α) : Dict κ α :=
  match m.lookup k with
  | some v => AList.insert k (f v) m
  | none => m

theorem lookup_adjust (m : Dict κ α) (k k' : κ) (f : α → α) :
    (m.adjust k f).lookup k' = if k' = k then (m.lookup k).map f else m.lookup k' := by
  unfold adjust
  cases h : m.lookup k with
  | some v => exact lookup_insert_if m k k' (f v)
  | none =>
    by_cases hk : k' = k
    · subst hk
      simp [h]
    · simp [hk]

/-- Erase the keys one after the other. -/
def eraseAll (m : Dict κ α) (l : List κ) : Dict κ α := l.foldl (fun m k => AList.erase k m) m

theorem lookup_eraseAll (m : Dict κ α) (l : List κ) (k : κ) :
    (m.eraseAll l).lookup k = if k ∈ l then none else m.lookup k := by
  induction l generalizing m with
  | nil => simp [eraseAll]
  | cons a l ih =>
    have hstep : m.eraseAll (a::l) = eraseAll (AList.erase a m) l := rfl
    rw [hstep,ih,lookup_erase_if]
    by_cases hka : k = a
    · simp [hka]
    · simp [hka]

/-- The keys of the values that pass a test. -/
def keysOf (m : Dict κ α) (p : α → Bool) : List κ := (m.entries.filter fun e => p e.2).keys

omit [DecidableEq κ] in
theorem keysOf_nodup (m : Dict κ α) (p : α → Bool) : (m.keysOf p).Nodup := m.nodupKeys.sublist filter_sublist

theorem mem_keysOf {p : α → Bool} : k ∈ m.keysOf p ↔ ∃ v, m.lookup k = some v ∧ p v := by
  simp [keysOf,mem_keys,mem_entries_iff]

/-- Insert the pairs one after the other. -/
def insertAll (m : Dict κ α) (l : List (κ × α)) : Dict κ α := l.foldl (fun m e => m.insert e.1 e.2) m

theorem lookup_insertAll_iff (hl : ∀ k v v', (k,v) ∈ l → (k,v') ∈ l → v = v') : (m.insertAll l).lookup k = some v ↔
      (k,v) ∈ l ∨ (∀ v', (k,v') ∉ l) ∧ m.lookup k = some v := by
  induction l generalizing m with
  | nil => simp [insertAll]
  | cons e l ih =>
    have hl' : ∀ k v v', (k,v) ∈ l → (k,v') ∈ l → v = v' := fun k v v' h h' =>
      hl k v v' (mem_cons_of_mem e h) (mem_cons_of_mem e h')
    have hstep : (m.insertAll (e::l)).lookup k = (insertAll (AList.insert e.1 e.2 m) l).lookup k := rfl
    rw [hstep,ih hl']
    by_cases hk : k = e.1
    · subst hk
      by_cases hin : ∃ v', (e.1,v') ∈ l
      · obtain ⟨v',hv'⟩ := hin
        have hv : v' = e.2 := hl e.1 v' e.2 (mem_cons_of_mem e hv') mem_cons_self
        subst hv
        constructor
        · rintro (h | ⟨h,-⟩)
          · exact Or.inl (mem_cons_of_mem e h)
          · exact absurd hv' (h e.2)
        · rintro (h | ⟨h,-⟩)
          · have hve := hl e.1 v e.2 h mem_cons_self
            exact Or.inl (hve ▸ hv')
          · exact absurd mem_cons_self (h e.2)
      · have hnone : ∀ v', (e.1,v') ∉ l := fun v' h => hin ⟨v',h⟩
        simp [hnone,Prod.ext_iff,eq_comm]
    · have hne : ∀ v', (k,v') ≠ e := fun v' h => hk (congrArg Prod.fst h)
      simp [hk,hne]

/-- Two maps that undo each other. -/
def Inverse {ν : Type} [DecidableEq ν] (f : Dict κ ν) (g : Dict ν κ) : Prop :=
  ∀ k v, g.lookup v = some k ↔ f.lookup k = some v

section

variable {ν : Type} [DecidableEq ν] {f : Dict κ ν} {g : Dict ν κ} {v : ν}

/-- A new pair. -/
theorem Inverse.insert (h : Inverse f g) (hk : f.lookup k = none)
    (hv : g.lookup v = none) : Inverse (AList.insert k v f) (AList.insert v k g) := by
  intro k' v'
  rw [lookup_insert_if]
  by_cases hk' : k' = k
  · subst hk'
    by_cases hv' : v' = v
    · simp [hv']
    · have hne : g.lookup v' ≠ some k' := fun hg => by simp [(h k' v').mp hg] at hk
      simp [hv',hne,Ne.symm hv']
  · by_cases hv' : v' = v
    · subst hv'
      have hne : f.lookup k' ≠ some v' := fun hf => by simp [(h k' v').mpr hf] at hv
      simp [hk',hne,Ne.symm hk']
    · simpa [hk',hv'] using h k' v'

theorem Inverse.erase (h : Inverse f g) (hk : f.lookup k = some v) : Inverse (AList.erase k f) (AList.erase v g) := by
  have hg : g.lookup v = some k := (h k v).mpr hk
  intro k' v'
  rw [lookup_erase_if]
  by_cases hk' : k' = k
  · subst hk'
    by_cases hv' : v' = v
    · simp [hv']
    · have hne : g.lookup v' ≠ some k' := fun hg' =>
        hv' (Option.some.inj (((h k' v').mp hg').symm.trans hk))
      simp [hne]
  · by_cases hv' : v' = v
    · subst hv'
      have hne : f.lookup k' ≠ some v' := fun hf => hk' (Option.some.inj (((h k' v').mpr hf).symm.trans hg))
      simp [hk',hne]
    · simpa [hk',hv'] using h k' v'

end

end Dict
end AdbShare

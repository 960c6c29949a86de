import Mathlib.Tactic

/-! A list read through buffers. Each reply offers the items from a position on to a
buffer one by one, also after one of them did not fit; the reader goes on behind the last
item it received and stops at an empty reply. -/
namespace AdbShare.BufferWalk

open List

variable {α : Type*} (size : α → ℕ) {xs : List α} {room : ℕ} {y : α}

/-- What a buffer with so much room left takes of the items offered to it. -/
def fill : ℕ → List α → List α
  | _, [] => []
  | room, x::xs => if size x ≤ room then x::fill (room-size x) xs else fill room xs

/-- Once an item does not fit, neither does any later one. -/
def Stops : ℕ → List α → Prop
  | _, [] => True
  | room, x::xs => if size x ≤ room then Stops (room-size x) xs else ∀ y ∈ xs, room < size y

instance decStops : (room : ℕ) → (xs : List α) → Decidable (Stops size room xs)
  | _, [] => .isTrue trivial
  | room, x::xs =>
    haveI := decStops (room-size x) xs
    inferInstanceAs (Decidable (if size x ≤ room then Stops size (room-size x) xs else ∀ y ∈ xs, room < size y))

theorem fill_eq_nil (h : ∀ y ∈ xs, room < size y) : fill size room xs = [] := by
  induction xs with
  | nil => rfl
  | cons x xs ih =>
    have hx : ¬ size x ≤ room := not_le.mpr (h x mem_cons_self)
    simp only [fill,hx,if_false]
    exact ih fun y hy => h y (mem_cons_of_mem x hy)

theorem fill_sublist (room : ℕ) (xs : List α) : (fill size room xs).Sublist xs := by
  induction xs generalizing room with
  | nil => exact List.Sublist.refl _
  | cons x xs ih =>
    unfold fill
    split
    · exact (ih _).cons_cons x
    · exact (ih _).cons x

/-- A buffer that stops takes the first items. -/
theorem fill_prefix_of_stops (h : Stops size room xs) : fill size room xs <+: xs := by
  induction xs generalizing room with
  | nil => exact prefix_refl _
  | cons x xs ih =>
    unfold Stops at h
    unfold fill
    by_cases hx : size x ≤ room
    · simp only [hx,if_true] at h ⊢
      exact (prefix_cons_inj x).mpr (ih h)
    · simp only [hx,if_false] at h ⊢
      rw [fill_eq_nil size h]
      exact nil_prefix

theorem mem_fill_of_fits (hy : y ∈ xs) (hfit : size y ≤ room) : fill size room xs ≠ [] := by
  intro hnil
  induction xs with
  | nil => simp at hy
  | cons x xs ih =>
    by_cases hx : size x ≤ room
    · simp [fill,hx] at hnil
    simp only [fill,hx,if_false] at hnil
    obtain rfl | hy := mem_cons.mp hy
    · exact hx hfit
    · exact ih hy hnil

theorem stops_of_first_items (hd : xs.Nodup) (h : fill size room xs <+: xs) : Stops size room xs := by
  induction xs generalizing room with
  | nil => trivial
  | cons x xs ih =>
    obtain ⟨hx',hd⟩ := nodup_cons.mp hd
    unfold Stops
    unfold fill at h
    by_cases hx : size x ≤ room
    · simp only [hx,if_true] at h ⊢
      exact ih hd ((prefix_cons_inj x).mp h)
    simp only [hx,if_false] at h ⊢
    by_contra hfit
    push Not at hfit
    obtain ⟨y,hy,hroom⟩ := hfit
    have hne := mem_fill_of_fits size hy hroom
    obtain ⟨z,zs,hz⟩ := exists_cons_of_ne_nil hne
    have hzx : z = x := by
      rw [hz] at h
      exact (cons_prefix_cons.mp h).1
    have hmem : z ∈ xs := (fill_sublist size room xs).subset (hz ▸ mem_cons_self)
    exact hx' (hzx ▸ hmem)

section

variable (pos : α → ℕ) (caps : ℕ → ℕ) (xs : List α)

/-- What a reader receives from position `o` on, in at most so many replies of which the
first has the `i`-th buffer. -/
def walk : ℕ → ℕ → ℕ → List α
  | _, 0, _ => []
  | i, n+1, o =>
    match (fill size (caps i) (xs.drop o)).getLast? with
    | none => []
    | some x => fill size (caps i) (xs.drop o)++walk (i+1) n (pos x)

/-- Every reply until the end takes an item, and stops at the first that does not fit. -/
def Steady : ℕ → ℕ → ℕ → Prop
  | _, 0, o => xs.length ≤ o
  | i, n+1, o => xs.length ≤ o ∨ fill size (caps i) (xs.drop o) ≠ [] ∧
      Stops size (caps i) (xs.drop o) ∧ Steady (i+1) n (o+(fill size (caps i) (xs.drop o)).length)

instance decSteady [DecidableEq α] : (i n o : ℕ) → Decidable (Steady size caps xs i n o)
  | _, 0, o => inferInstanceAs (Decidable (xs.length ≤ o))
  | i, n+1, o =>
    haveI := decSteady (i+1) n (o+(fill size (caps i) (xs.drop o)).length)
    inferInstanceAs (Decidable (xs.length ≤ o ∨ fill size (caps i) (xs.drop o) ≠ [] ∧ Stops size (caps i) (xs.drop o) ∧
      Steady size caps xs (i+1) n (o+(fill size (caps i) (xs.drop o)).length)))

variable {pos xs} {o : ℕ} {r w : List α} {x : α}

/-- The last of the first items from a position on. -/
theorem pos_getLast (hpos : ∀ i (hi : i < xs.length), pos (xs.get ⟨i,hi⟩) = i+1)
    (hr : r <+: xs.drop o) (hx : r.getLast? = some x) : pos x = o+r.length := by
  obtain ⟨rest,hrest⟩ := hr
  have hne : r ≠ [] := fun he => by simp [he] at hx
  have hlen : 0 < r.length := length_pos_of_ne_nil hne
  have hdrop : (xs.drop o).length = r.length+rest.length := by rw [← hrest,length_append]
  have hi : o+(r.length-1) < xs.length := by
    rw [length_drop] at hdrop
    omega
  have hget : xs.get ⟨o+(r.length-1),hi⟩ = x := by
    have h1 : (xs.drop o)[r.length-1]? = some x := by
      rw [← hrest,getElem?_append_left (by omega),← hx,getLast?_eq_getElem?]
    rw [List.getElem?_drop] at h1
    exact (List.getElem?_eq_some_iff.mp h1).2
  rw [← hget,hpos _ hi]
  omega

theorem append_eq_drop_iff : r++w = xs.drop o ↔ r <+: xs.drop o ∧ w = xs.drop (o+r.length) := by
  constructor
  · intro h
    refine ⟨⟨w,h⟩,?_⟩
    rw [← drop_drop,← h,drop_left]
  · rintro ⟨⟨rest,hr⟩,rfl⟩
    rw [← drop_drop,← hr,drop_left]

/-- The reader gets everything, in order and once, exactly on a steady walk. -/
theorem walk_eq_drop_iff (hd : xs.Nodup) (hpos : ∀ i (hi : i < xs.length), pos (xs.get ⟨i,hi⟩) = i+1) (i n o : ℕ) :
    walk size pos caps xs i n o = xs.drop o ↔ Steady size caps xs i n o := by
  induction n generalizing i o with
  | zero => simp [walk,Steady,eq_comm]
  | succ n ih =>
    by_cases ho : xs.length ≤ o
    · have hnil : xs.drop o = [] := drop_eq_nil_of_le ho
      simp [walk,Steady,ho,hnil,fill]
    have hrest : xs.drop o ≠ [] := fun h => ho (drop_eq_nil_iff.mp h)
    simp only [walk,Steady,ho,false_or]
    cases hx : (fill size (caps i) (xs.drop o)).getLast? with
    | none =>
      have hf := getLast?_eq_none_iff.mp hx
      simp [hf,Ne.symm hrest]
    | some x =>
      have hf : fill size (caps i) (xs.drop o) ≠ [] := fun h => by simp [h] at hx
      show fill size (caps i) (xs.drop o)++walk size pos caps xs (i+1) n (pos x) = xs.drop o ↔ _
      rw [append_eq_drop_iff]
      constructor
      · rintro ⟨hp,hw⟩
        rw [pos_getLast hpos hp hx] at hw
        exact ⟨hf,stops_of_first_items size (hd.sublist (drop_sublist o xs)) hp,(ih _ _).mp hw⟩
      · rintro ⟨-,hs,hsteady⟩
        have hp := fill_prefix_of_stops size hs
        rw [pos_getLast hpos hp hx]
        exact ⟨hp,(ih _ _).mpr hsteady⟩

end

end AdbShare.BufferWalk

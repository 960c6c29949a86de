import Mathlib.Tactic

/-! A list read page by page. The server skips `o` items of the list, drops the items
it cannot serve and sends the next `P` others; the client moves `o` on by what it
received, in a counter of size `M`, until a page comes back short. The two sides count
different things, and the walk is right exactly when the difference never shows. -/
namespace AdbShare.Paging

open List

variable {α β : Type*} (f : α → Option β) (P M : ℕ) (l : List α)

/-- What the server can still send when it skips `o` items. -/
def served (o : ℕ) : List β := (l.drop o).filterMap f

def walk : ℕ → ℕ → Option (List β)
  | 0, _ => none
  | fuel+1, o =>
    let p := (served f l o).take P
    if p.length < P then some p
    else (walk fuel ((o+p.length)%M)).map (p++·)

/-- The items below every full page boundary after `o` are all served, and the
boundaries fit the counter. -/
def Clean (o : ℕ) : Prop :=
  o+P*((served f l o).length/P) < M ∧
    ∀ x ∈ (l.drop o).take (P*((served f l o).length/P)), (f x).isSome

variable {f P M l} {fuel o o' : ℕ} {r : List β}

theorem served_split (o : ℕ) : served f l o = ((l.drop o).take P).filterMap f ++ served f l (o+P) := by
  simp only [served,← drop_drop]
  rw [← filterMap_append,take_append_drop]

theorem served_length_anti (h : o' ≤ o) : (served f l o).length ≤ (served f l o').length := by
  have hsub : (l.drop o).Sublist (l.drop o') := drop_sublist_drop_left l h
  exact (hsub.filterMap f).length_le

theorem full_page_length (o : ℕ) (h : P ≤ (served f l o).length) : ((served f l o).take P).length = P := by
  simpa using h

theorem walk_short (h : (served f l o).length < P) : walk f P M l (fuel+1) o = some (served f l o) := by
  have ht : (served f l o).take P = served f l o := take_of_length_le h.le
  simp [walk,ht,h]

theorem walk_full (h : P ≤ (served f l o).length) : walk f P M l (fuel+1) o =
      (walk f P M l fuel ((o+P)%M)).map ((served f l o).take P++·) := by
  simp only [walk,full_page_length o h,lt_irrefl,if_false]

/-- The window of a full page holds no more than `P` items that are served. -/
theorem window_length_le (o : ℕ) : (((l.drop o).take P).filterMap f).length ≤ P :=
  (length_filterMap_le _ _).trans (length_take_le _ _)

/-- A counter that wraps sends the walk back to an item it has already passed. -/
theorem wrap_le (hPM : P ≤ M) (ho : o < M) (hw : M ≤ o+P) : (o+P)%M ≤ o := by
  rw [Nat.mod_eq_sub_mod hw,Nat.mod_eq_of_lt (by omega)]
  omega

/-- A walk never returns fewer items than the server had left. -/
theorem served_length_le_of_walk (hPM : P ≤ M) (ho : o < M)
    (h : walk f P M l fuel o = some r) : (served f l o).length ≤ r.length := by
  induction fuel generalizing o r with
  | zero => simp [walk] at h
  | succ fuel ih =>
    obtain hs | hs := Nat.lt_or_ge (served f l o).length P
    · rw [walk_short hs] at h
      cases h
      exact le_rfl
    · rw [walk_full hs] at h
      obtain ⟨r',hr',rfl⟩ := Option.map_eq_some_iff.mp h
      have hM : 0 < M := by omega
      have hnext := ih (Nat.mod_lt _ hM) hr'
      rw [length_append,full_page_length o hs]
      rcases Nat.lt_or_ge (o+P) M with hw | hw
      · rw [Nat.mod_eq_of_lt hw] at hnext
        have hsplit := congrArg List.length (served_split (f:=f) (P:=P) (l:=l) o)
        have hwin := window_length_le (f:=f) (P:=P) (l:=l) o
        rw [length_append] at hsplit
        omega
      · have hanti := served_length_anti (f:=f) (l:=l) (wrap_le hPM ho hw)
        omega

/-- A walk that returns no more than was left found every window full. -/
theorem clean_of_walk (hP : 0 < P) (hPM : P ≤ M) (ho : o < M)
    (h : walk f P M l fuel o = some r) (hr : r.length = (served f l o).length) : Clean f P M l o := by
  induction fuel generalizing o r with
  | zero => simp [walk] at h
  | succ fuel ih =>
    rcases Nat.lt_or_ge (served f l o).length P with hs | hs
    · simp [Clean,Nat.div_eq_of_lt hs,ho]
    rw [walk_full hs] at h
    obtain ⟨r',hr',rfl⟩ := Option.map_eq_some_iff.mp h
    have hM : 0 < M := by omega
    have hnext := served_length_le_of_walk hPM (Nat.mod_lt _ hM) hr'
    rw [length_append,full_page_length o hs] at hr
    rcases Nat.lt_or_ge (o+P) M with hw | hw
    · rw [Nat.mod_eq_of_lt hw] at hnext hr'
      have hsplit := congrArg List.length (served_split (f:=f) (P:=P) (l:=l) o)
      rw [length_append] at hsplit
      have hwin := window_length_le (f:=f) (P:=P) (l:=l) o
      have hfull : (((l.drop o).take P).filterMap f).length = P := by omega
      have hrest := ih hw hr' (by omega)
      have hdiv : (served f l o).length/P = (served f l (o+P)).length/P+1 := by
        rw [hsplit,hfull,Nat.add_div_left _ hP]
      have hwinlen : ((l.drop o).take P).length = P := by
        have h1 := length_filterMap_le f ((l.drop o).take P)
        have h2 := length_take_le P (l.drop o)
        omega
      have hall : ∀ x ∈ (l.drop o).take P, (f x).isSome := filterMap_length_eq_length.mp (hfull.trans hwinlen.symm)
      refine ⟨?_,?_⟩
      · have hb := hrest.1
        rw [hdiv,Nat.mul_add,Nat.mul_one]
        omega
      · intro x hx
        rw [hdiv,Nat.mul_add,Nat.mul_one,Nat.add_comm,take_add,mem_append] at hx
        rcases hx with hx | hx
        · exact hall x hx
        · rw [drop_drop] at hx
          exact hrest.2 x hx
    · have hanti := served_length_anti (f:=f) (l:=l) (wrap_le hPM ho hw)
      omega

theorem walk_of_clean (hP : 0 < P) (hc : Clean f P M l o) (hfuel : (served f l o).length/P < fuel) :
    walk f P M l fuel o = some (served f l o) := by
  induction fuel generalizing o with
  | zero => exact absurd hfuel (Nat.not_lt_zero _)
  | succ fuel ih =>
    rcases Nat.lt_or_ge (served f l o).length P with hs | hs
    · exact walk_short hs
    have hone : 1 ≤ (served f l o).length/P := (Nat.one_le_div_iff hP).mpr hs
    have hle : P ≤ P*((served f l o).length/P) := Nat.le_mul_of_pos_right P hone
    have hall : ∀ x ∈ (l.drop o).take P, (f x).isSome := by
      intro x hx
      exact hc.2 x ((take_sublist_take_left hle).subset hx)
    have hlen : ((l.drop o).take P).length = P := by
      have h1 := length_filterMap_le f (l.drop o)
      have h2 : (served f l o).length ≤ (l.drop o).length := h1
      rw [length_take]
      omega
    have hfull : (((l.drop o).take P).filterMap f).length = P := (filterMap_length_eq_length.mpr hall).trans hlen
    have hsplit := served_split (f:=f) (P:=P) (l:=l) o
    have hdiv : (served f l o).length/P = (served f l (o+P)).length/P+1 := by
      rw [hsplit,length_append,hfull,Nat.add_div_left _ hP]
    have hbound := hc.1
    rw [hdiv,Nat.mul_add,Nat.mul_one] at hbound
    have hnext : Clean f P M l (o+P) := by
      refine ⟨by omega,?_⟩
      intro x hx
      apply hc.2 x
      rw [hdiv,Nat.mul_add,Nat.mul_one,Nat.add_comm,take_add,drop_drop]
      exact mem_append_right _ hx
    rw [walk_full hs,Nat.mod_eq_of_lt (by omega),ih hnext (by omega),Option.map_some]
    congr 1
    conv_rhs => rw [hsplit]
    congr 1
    rw [hsplit,take_append_of_le_length hfull.ge,take_of_length_le hfull.le]

end AdbShare.Paging

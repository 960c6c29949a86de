import AdbShare.Bytes

/-! Reading a byte string at a position that may lie outside it. Where the source indexes, the
result `none` is the panic; where it uses `get`, it is the value. -/
namespace AdbShare.Slices

open List UInt8

/-- `bs[a..b]`. -/
def slice (bs : Bytes) (a b : ℕ) : Option Bytes :=
  if a ≤ b ∧ b ≤ bs.length then some ((bs.drop a).take (b-a)) else none

/-- `bs[a..]`. -/
def dropAt (bs : Bytes) (a : ℕ) : Option Bytes := slice bs a bs.length

/-- `u16::from_be_bytes([bs[i], bs[i+1]])`. -/
def be16At (bs : Bytes) (i : ℕ) : Option ℕ := do
  let hi ← bs[i]?
  let lo ← bs[i+1]?
  return 256*hi.toNat+lo.toNat

/-- `u16::from_le_bytes`. -/
def le16At (bs : Bytes) (i : ℕ) : Option ℕ := do
  let lo ← bs[i]?
  let hi ← bs[i+1]?
  return lo.toNat+256*hi.toNat

/-- `u32::from_le_bytes`. -/
def le32At (bs : Bytes) (i : ℕ) : Option ℕ := do
  let lo ← le16At bs i
  let hi ← le16At bs (i+2)
  return lo+65536*hi

variable {bs s : Bytes} {a b i n : ℕ} {α β : Type} {f : α → Option β} {l : List α}

theorem slice_of_le (h : a ≤ b) (hb : b ≤ bs.length) : slice bs a b = some ((bs.drop a).take (b-a)) := if_pos ⟨h,hb⟩

theorem slice_eq_none_iff (h : a ≤ b) : slice bs a b = none ↔ bs.length < b := by
  rw [slice]
  split_ifs with hb
  · simp only [false_iff]
    omega
  · simp only [true_iff]
    omega

theorem length_of_slice (h : slice bs a b = some s) : s.length = b-a := by
  rw [slice] at h
  split_ifs at h with hb
  cases h
  rw [length_take,length_drop]
  omega

theorem exists_getElem? (h : i < bs.length) : ∃ b, bs[i]? = some b := ⟨bs[i],getElem?_eq_getElem h⟩

theorem exists_be16At (h : i+2 ≤ bs.length) : ∃ n, be16At bs i = some n := by
  obtain ⟨hi,hhi⟩ := exists_getElem? (by omega : i < bs.length)
  obtain ⟨lo,hlo⟩ := exists_getElem? (by omega : i+1 < bs.length)
  exact ⟨256*hi.toNat+lo.toNat,by rw [be16At,hhi,hlo]; rfl⟩

theorem exists_le16At (h : i+2 ≤ bs.length) : ∃ n, le16At bs i = some n := by
  obtain ⟨lo,hlo⟩ := exists_getElem? (by omega : i < bs.length)
  obtain ⟨hi,hhi⟩ := exists_getElem? (by omega : i+1 < bs.length)
  exact ⟨lo.toNat+256*hi.toNat,by rw [le16At,hlo,hhi]; rfl⟩

theorem exists_le32At (h : i+4 ≤ bs.length) : ∃ n, le32At bs i = some n := by
  obtain ⟨lo,hlo⟩ := exists_le16At (by omega : i+2 ≤ bs.length)
  obtain ⟨hi,hhi⟩ := exists_le16At (by omega : i+2+2 ≤ bs.length)
  exact ⟨lo+65536*hi,by rw [le32At,hlo,hhi]; rfl⟩

theorem le_of_le32At (h : le32At bs i = some n) : i+4 ≤ bs.length := by
  obtain ⟨lo,-,h⟩ := Option.bind_eq_some_iff.mp h
  obtain ⟨hi,hhi,-⟩ := Option.bind_eq_some_iff.mp h
  obtain ⟨b,-,hhi⟩ := Option.bind_eq_some_iff.mp hhi
  obtain ⟨c,hc,-⟩ := Option.bind_eq_some_iff.mp hhi
  have := (List.getElem?_eq_some_iff.mp hc).1
  omega

theorem dropAt_of_le (h : a ≤ bs.length) : dropAt bs a = some (bs.drop a) := by
  rw [dropAt,slice_of_le h le_rfl,take_of_length_le (by rw [length_drop])]

theorem dropAt_eq_none (h : bs.length < a) : dropAt bs a = none := by
  rw [dropAt,slice,if_neg]
  omega

theorem exists_mapM_iff : (∃ ys, l.mapM f = some ys) ↔ ∀ x ∈ l, ∃ y, f x = some y := by
  induction l with
  | nil => simp
  | cons x l ih =>
    rw [mapM_cons,forall_mem_cons,← ih]
    cases f x with
    | none => simp
    | some y => cases l.mapM f <;> simp

section

variable {front rest : Bytes} {w : ℕ}

theorem le16At_append (h : front.length ≤ i) : le16At (front++rest) i = le16At rest (i-front.length) := by
  have hnext : i+1-front.length = i-front.length+1 := by omega
  rw [le16At,getElem?_append_right h,getElem?_append_right (by omega),hnext]
  rfl

theorem le32At_append (h : front.length ≤ i) : le32At (front++rest) i = le32At rest (i-front.length) := by
  have hnext : i+2-front.length = i-front.length+2 := by omega
  rw [le32At,le16At_append h,le16At_append (by omega),hnext]
  rfl

theorem le32At_skip (h : w ≤ i) : le32At (toLe w n++rest) i = le32At rest (i-w) := by
  rw [le32At_append (by rwa [toLe_length]),toLe_length]

theorem le16At_toLe (h : n < 65536) : le16At (toLe 2 n++rest) 0 = some n := by
  have hlow : (ofNat n).toNat = n%256 := toNat_ofNat' ..
  have hhigh : (ofNat (n/256)).toNat = n/256%256 := toNat_ofNat' ..
  show some ((ofNat n).toNat+256*(ofNat (n/256)).toNat) = some n
  rw [hhigh]
  congr 1
  omega

theorem le32At_toLe (h : n < 2^32) : le32At (toLe 4 n++rest) 0 = some n := by
  have hsplit : toLe 4 n++rest = toLe 2 (n%65536)++(toLe 2 (n/65536)++rest) := by
    have h0 : ofNat n = ofNat (n%65536) := by
      rw [ofNat_eq_iff_mod_eq_toNat,toNat_ofNat']
      omega
    have h1 : ofNat (n/256) = ofNat (n%65536/256) := by
      rw [ofNat_eq_iff_mod_eq_toNat,toNat_ofNat']
      omega
    have h2 : n/256/256 = n/65536 := by omega
    simp only [toLe,h0,h1,h2,cons_append,nil_append]
  rw [le32At,hsplit,le16At_toLe (Nat.mod_lt _ (by norm_num)),le16At_append (by rw [toLe_length]),toLe_length,le16At_toLe (by omega)]
  show some (n%65536+65536*(n/65536)) = some n
  rw [Nat.mod_add_div]

end

end AdbShare.Slices

import Mathlib.Tactic

/-! Positions in a text: as bytes of its UTF-8 form, where a text can be cut only between
characters, and as units of its UTF-16 form. -/
namespace AdbShare.TextOffsets

open List

/-- `len`. -/
def byteLen (cs : List Char) : ℕ := (cs.map Char.utf8Size).sum

/-- `len_utf16`. -/
def utf16Size (c : Char) : ℕ := if c.toNat ≥ 0x10000 then 2 else 1

def utf16Len (cs : List Char) : ℕ := (cs.map utf16Size).sum

/-- The two parts of the text at a byte, if no character lies across it. -/
def cutAt : List Char → ℕ → Option (List Char × List Char)
  | cs, 0 => some ([],cs)
  | [], _+1 => none
  | c::cs, i+1 => if c.utf8Size ≤ i+1 then (cutAt cs (i+1-c.utf8Size)).map fun p => (c::p.1,p.2) else none

/-- `is_char_boundary`. -/
def isBoundary (cs : List Char) (i : ℕ) : Bool := (cutAt cs i).isSome

/-- A range of the text at which it can be cut. -/
def Valid (cs : List Char) (r : ℕ × ℕ) : Prop :=
  r.1 ≤ r.2 ∧ isBoundary cs r.1 = true ∧ isBoundary cs r.2 = true

instance (cs : List Char) (r : ℕ × ℕ) : Decidable (Valid cs r) := inferInstanceAs (Decidable (_ ∧ _ ∧ _))

/-- The loop of `utf8_to_utf16` and `utf16_to_utf8`, which count in one unit and add up in the other. -/
def convert (size size' : Char → ℕ) (offset : ℕ) : List Char → ℕ → ℕ → ℕ
  | [], _, total => total
  | c::cs, count, total =>
    if count ≥ offset then total else convert size size' offset cs (count+size c) (total+size' c)

def utf8ToUtf16 (cs : List Char) (offset : ℕ) : ℕ := convert Char.utf8Size utf16Size offset cs 0 0

def utf16ToUtf8 (cs : List Char) (offset : ℕ) : ℕ := convert utf16Size Char.utf8Size offset cs 0 0

/-- The characters up to a unit, the one that it is in included. -/
def upTo (size : Char → ℕ) : List Char → ℕ → List Char
  | [], _ => []
  | c::cs, offset => if offset = 0 then [] else c::upTo size cs (offset-size c)

section

variable {cs a b : List Char} {i m n : ℕ} {r : ℕ × ℕ} {size size' : Char → ℕ}

@[simp] theorem byteLen_nil : byteLen [] = 0 := rfl

@[simp] theorem byteLen_cons (c : Char) : byteLen (c::cs) = c.utf8Size+byteLen cs := by
  rw [byteLen,map_cons,sum_cons,byteLen]

@[simp] theorem byteLen_append (a b : List Char) : byteLen (a++b) = byteLen a+byteLen b := by
  rw [byteLen,map_append,sum_append,byteLen,byteLen]

theorem cutAt_eq_some_iff : cutAt cs i = some (a,b) ↔ cs = a++b ∧ byteLen a = i := by
  induction cs, i using cutAt.induct generalizing a b with
  | case1 cs =>
    rw [cutAt]
    constructor
    · intro h
      cases h
      exact ⟨rfl,rfl⟩
    · rintro ⟨rfl,ha⟩
      cases a with
      | nil => rfl
      | cons c a =>
        have := c.utf8Size_pos
        rw [byteLen_cons] at ha
        omega
  | case2 i =>
    constructor
    · nofun
    · rintro ⟨h,ha⟩
      obtain ⟨rfl,rfl⟩ := nil_eq_append_iff.mp h
      cases ha
  | case3 c cs i hle ih =>
    rw [cutAt,if_pos hle,Option.map_eq_some_iff]
    constructor
    · rintro ⟨⟨a',b'⟩,hcut,h⟩
      obtain ⟨rfl,ha⟩ := ih.mp hcut
      obtain rfl : c::a' = a := (Prod.mk.inj h).1
      obtain rfl : b' = b := (Prod.mk.inj h).2
      refine ⟨rfl,?_⟩
      rw [byteLen_cons]
      omega
    · rintro ⟨h,ha⟩
      cases a with
      | nil => cases ha
      | cons d a =>
        obtain ⟨rfl,rfl⟩ := List.cons.inj h
        rw [byteLen_cons] at ha
        exact ⟨(a,b),ih.mpr ⟨rfl,by omega⟩,rfl⟩
  | case4 c cs i hlt =>
    rw [cutAt,if_neg hlt]
    constructor
    · nofun
    rintro ⟨h,ha⟩
    cases a with
    | nil => cases ha
    | cons d a =>
      obtain ⟨rfl,-⟩ := List.cons.inj h
      rw [byteLen_cons] at ha
      omega

theorem isBoundary_iff : isBoundary cs i ↔ ∃ a b, cs = a++b ∧ byteLen a = i := by
  rw [isBoundary,Option.isSome_iff_exists]
  constructor
  · rintro ⟨⟨a,b⟩,h⟩
    exact ⟨a,b,cutAt_eq_some_iff.mp h⟩
  · rintro ⟨a,b,h⟩
    exact ⟨(a,b),cutAt_eq_some_iff.mpr h⟩

theorem isBoundary_append (a b : List Char) : isBoundary (a++b) (byteLen a) := isBoundary_iff.mpr ⟨a,b,rfl,rfl⟩

theorem isBoundary_zero (cs : List Char) : isBoundary cs 0 := isBoundary_append [] cs

theorem isBoundary_byteLen (cs : List Char) : isBoundary cs (byteLen cs) :=
  isBoundary_iff.mpr ⟨cs,[],(append_nil cs).symm,rfl⟩

/-- A position in a part of a text. -/
theorem isBoundary_within (a b : List Char) (h : isBoundary cs i) : isBoundary (a++cs++b) (byteLen a+i) := by
  obtain ⟨c,d,rfl,rfl⟩ := isBoundary_iff.mp h
  refine isBoundary_iff.mpr ⟨a++c,d++b,?_,byteLen_append a c⟩
  simp

theorem convert_eq (offset : ℕ) (cs : List Char) (count total : ℕ) :
    convert size size' offset cs count total = total+((upTo size cs (offset-count)).map size').sum := by
  induction cs generalizing count total with
  | nil => rfl
  | cons c cs ih =>
    rw [convert,upTo]
    by_cases h : count ≥ offset
    · rw [if_pos h,if_pos (Nat.sub_eq_zero_of_le h)]
      rfl
    · rw [if_neg h,if_neg (by omega),ih,map_cons,sum_cons,Nat.sub_sub]
      omega

theorem upTo_isPrefix (cs : List Char) (offset : ℕ) : upTo size cs offset <+: cs := by
  induction cs generalizing offset with
  | nil => exact nil_prefix
  | cons c cs ih =>
    rw [upTo]
    split_ifs
    · exact nil_prefix
    · exact cons_prefix_cons.mpr ⟨rfl,ih _⟩

theorem upTo_mono (cs : List Char) (h : m ≤ n) : upTo size cs m <+: upTo size cs n := by
  induction cs generalizing m n with
  | nil => exact nil_prefix
  | cons c cs ih =>
    rw [upTo,upTo]
    by_cases hm : m = 0
    · rw [if_pos hm]
      exact nil_prefix
    · rw [if_neg hm,if_neg (by omega)]
      exact cons_prefix_cons.mpr ⟨rfl,ih (Nat.sub_le_sub_right h _)⟩

theorem upTo_append (hsize : ∀ c, 0 < size c) (a b : List Char) : upTo size (a++b) (a.map size).sum = a := by
  induction a with
  | nil => cases b <;> simp [upTo]
  | cons c a ih =>
    have := hsize c
    rw [cons_append,upTo,map_cons,sum_cons,if_neg (by omega),Nat.add_sub_cancel_left,ih]

theorem upTo_within (a b : List Char) (h : m ≤ (a.map size).sum) : upTo size (a++b) m = upTo size a m := by
  induction a generalizing m with
  | nil =>
    obtain rfl : m = 0 := Nat.le_zero.mp h
    cases b <;> rfl
  | cons c a ih =>
    rw [map_cons,sum_cons] at h
    rw [cons_append,upTo,upTo,ih (by omega)]

theorem upTo_end (hsize : ∀ c, 0 < size c) (h : (cs.map size).sum ≤ n) : upTo size cs n = cs := by
  have hall := upTo_append hsize cs []
  have hmono : upTo size cs _ <+: upTo size cs n := upTo_mono cs h
  rw [append_nil] at hall
  rw [hall] at hmono
  exact (upTo_isPrefix cs n).eq_of_length_le hmono.length_le

/-- What the loop does: it goes from one unit to the other at every place between characters, and from a place
within a character to its end. -/
theorem convert_spec (hsize : ∀ c, 0 < size c) (size' : Char → ℕ) (cs : List Char) :
    Monotone (fun offset => convert size size' offset cs 0 0) ∧
      (∀ offset, ∃ a b, cs = a++b ∧ (a.map size').sum = convert size size' offset cs 0 0) ∧
        (∀ a b, cs = a++b → convert size size' (a.map size).sum cs 0 0 = (a.map size').sum) ∧
          ∀ offset ≥ (cs.map size).sum, convert size size' offset cs 0 0 = (cs.map size').sum := by
  simp only [convert_eq,Nat.zero_add,Nat.sub_zero]
  refine ⟨fun m n h => ?_,fun offset => ?_,?_,fun offset h => by rw [upTo_end hsize h]⟩
  · exact ((upTo_mono cs h).sublist.map size').sum_le_sum fun _ _ => Nat.zero_le _
  · obtain ⟨b,hb⟩ : upTo size cs offset <+: cs := upTo_isPrefix cs offset
    exact ⟨_,b,hb.symm,rfl⟩
  · rintro a b rfl
    rw [upTo_append hsize]

theorem utf16Size_pos (c : Char) : 0 < utf16Size c := by
  unfold utf16Size
  split <;> decide

theorem isBoundary_utf16ToUtf8 (cs : List Char) (offset : ℕ) : isBoundary cs (utf16ToUtf8 cs offset) :=
  isBoundary_iff.mpr ((convert_spec utf16Size_pos _ cs).2.1 offset)

theorem utf16ToUtf8_mono (cs : List Char) (h : m ≤ n) : utf16ToUtf8 cs m ≤ utf16ToUtf8 cs n :=
  (convert_spec utf16Size_pos _ cs).1 h

theorem utf16ToUtf8_append (a b : List Char) (h : i ≤ utf16Len a) : utf16ToUtf8 (a++b) i = utf16ToUtf8 a i := by
  rw [utf16ToUtf8,utf16ToUtf8,convert_eq,convert_eq,upTo_within a b ((Nat.sub_le _ _).trans h)]

theorem valid_utf16ToUtf8 (cs : List Char) (h : r.1 ≤ r.2) : Valid cs (utf16ToUtf8 cs r.1,utf16ToUtf8 cs r.2) :=
  ⟨utf16ToUtf8_mono cs h,isBoundary_utf16ToUtf8 cs r.1,isBoundary_utf16ToUtf8 cs r.2⟩

/-- The two conversions are monotone, give places between characters, undo each other there, and take what lies
beyond the end to the end. -/
theorem offsets_convert (cs : List Char) : (Monotone (utf8ToUtf16 cs) ∧ Monotone (utf16ToUtf8 cs)) ∧
      (∀ i, (∃ a b, cs = a++b ∧ utf16Len a = utf8ToUtf16 cs i) ∧ utf8ToUtf16 cs i ≤ utf16Len cs) ∧
      (∀ i, isBoundary cs (utf16ToUtf8 cs i) ∧ utf16ToUtf8 cs i ≤ byteLen cs) ∧
      (∀ i, isBoundary cs i → utf16ToUtf8 cs (utf8ToUtf16 cs i) = i) ∧
      (∀ a b, cs = a++b → utf8ToUtf16 cs (utf16ToUtf8 cs (utf16Len a)) = utf16Len a) ∧
      (∀ i ≥ byteLen cs, utf8ToUtf16 cs i = utf16Len cs) ∧ ∀ i ≥ utf16Len cs, utf16ToUtf8 cs i = byteLen cs := by
  obtain ⟨hmono,hplace,hback,hend⟩ := convert_spec utf16Size_pos Char.utf8Size cs
  obtain ⟨hmono',hplace',hback',hend'⟩ := convert_spec Char.utf8Size_pos utf16Size cs
  refine ⟨⟨hmono',hmono⟩,fun i => ⟨hplace' i,?_⟩,fun i => ⟨isBoundary_utf16ToUtf8 cs i,?_⟩,?_,?_,hend',hend⟩
  · exact (hmono' (le_max_left i (byteLen cs))).trans (hend' _ (le_max_right i _)).le
  · exact (hmono (le_max_left i (utf16Len cs))).trans (hend _ (le_max_right i _)).le
  · intro i hi
    obtain ⟨a,b,hcs,rfl⟩ := isBoundary_iff.mp hi
    exact (congrArg (utf16ToUtf8 cs) (hback' a b hcs)).trans (hback a b hcs)
  · intro a b hcs
    exact (congrArg (utf8ToUtf16 cs) (hback a b hcs)).trans (hback' a b hcs)

end
end AdbShare.TextOffsets

import Mathlib.Tactic

/-! Byte strings: fixed-width little-endian numbers and the lossy reading of UTF-8. -/
namespace AdbShare

open List

abbrev Bytes := List UInt8

/-- The low `w` bytes of `n`, least significant first. -/
def toLe : ℕ → ℕ → Bytes
  | 0, _ => []
  | w+1, n => UInt8.ofNat n :: toLe w (n/256)

def fromLe : Bytes → ℕ
  | [] => 0
  | b::bs => b.toNat+256*fromLe bs

@[simp] theorem toLe_length (w n : ℕ) : (toLe w n).length = w := by
  induction w generalizing n with
  | zero => rfl
  | succ w ih => simp [toLe,ih]

theorem fromLe_toLe_mod (w n : ℕ) : fromLe (toLe w n) = n%256^w := by
  induction w generalizing n with
  | zero => simp [toLe,fromLe,Nat.mod_one]
  | succ w ih =>
    have hlow : (UInt8.ofNat n).toNat = n%256 := by simp
    have hcut := Nat.mod_mul (a:=256) (b:=256^w) (x:=n)
    simp only [toLe,fromLe,ih,hlow]
    rw [pow_succ',hcut]

theorem fromLe_lt (bs : Bytes) : fromLe bs < 256^bs.length := by
  induction bs with
  | nil => exact Nat.one_pos
  | cons b bs ih =>
    have hb := b.toNat_lt
    rw [fromLe,length_cons]
    omega

theorem fromLe_toLe {w n : ℕ} (h : n < 256^w) : fromLe (toLe w n) = n := by
  rw [fromLe_toLe_mod,Nat.mod_eq_of_lt h]

theorem toLe_fromLe (bs : Bytes) : toLe bs.length (fromLe bs) = bs := by
  induction bs with
  | nil => rfl
  | cons b bs ih =>
    have hb := b.toNat_lt
    have hlow : UInt8.ofNat (b.toNat+256*fromLe bs) = b := by
      apply UInt8.toNat_inj.mp
      rw [UInt8.toNat_ofNat']
      omega
    have hhigh : (b.toNat+256*fromLe bs)/256 = fromLe bs := by omega
    rw [length_cons,fromLe,toLe,hlow,hhigh,ih]

namespace Utf8

/-- Bytes a leading byte announces, itself included; zero where no character starts. -/
def charWidth (b : UInt8) : ℕ :=
  if b < 0x80 then 1
  else if 0xC2 ≤ b ∧ b ≤ 0xDF then 2
  else if 0xE0 ≤ b ∧ b ≤ 0xEF then 3
  else if 0xF0 ≤ b ∧ b ≤ 0xF4 then 4
  else 0

def isCont (b : UInt8) : Bool := decide (0x80 ≤ b ∧ b ≤ 0xBF)

/-- The second byte excludes overlong forms, surrogates and values past `10FFFF`. -/
def secondOk (b c : UInt8) : Bool :=
  if b = 0xE0 then decide (0xA0 ≤ c ∧ c ≤ 0xBF)
  else if b = 0xED then decide (0x80 ≤ c ∧ c ≤ 0x9F)
  else if b = 0xF0 then decide (0x90 ≤ c ∧ c ≤ 0xBF)
  else if b = 0xF4 then decide (0x80 ≤ c ∧ c ≤ 0x8F)
  else isCont c

/-- The bytes after `b` that belong to its chunk: the longest well-formed part. -/
def chunkTail (b : UInt8) : Bytes → Bytes
  | [] => []
  | c::cs => if secondOk b c then (c::cs.takeWhile isCont).take (charWidth b-1) else []

/-- The chunk is one whole character. -/
def wholeChar (b : UInt8) (rest : Bytes) : Bool :=
  charWidth b != 0 && (chunkTail b rest).length+1 == charWidth b

def lossyGo : ℕ → Bytes → Bytes
  | _, [] => []
  | 0, _ => []
  | fuel+1, b::rest =>
    -- each broken chunk becomes one U+FFFD
    (if wholeChar b rest then b::chunkTail b rest else [0xEF,0xBF,0xBD]) ++
      lossyGo fuel (rest.drop (chunkTail b rest).length)

/-- `String::from_utf8_lossy`; a string is its UTF-8 bytes. -/
def fromUtf8Lossy (bs : Bytes) : Bytes := lossyGo bs.length bs

/-- Bytes of a text. -/
def toString (bytes : Bytes) : String := (String.fromUTF8? ⟨(fromUtf8Lossy bytes).toArray⟩).getD ""

def validGo : ℕ → Bytes → Bool
  | _, [] => true
  | 0, _ => false
  | fuel+1, b::rest => wholeChar b rest && validGo fuel (rest.drop (chunkTail b rest).length)

/-- What `str::from_utf8` accepts. -/
def validUtf8 (bs : Bytes) : Bool := validGo bs.length bs

theorem chunkTail_isPrefix (b : UInt8) (rest : Bytes) : chunkTail b rest <+: rest := by
  cases rest with
  | nil => simp [chunkTail]
  | cons c cs =>
    simp only [chunkTail]
    split
    · exact (List.take_prefix _ _).trans (cons_prefix_cons.mpr ⟨rfl,List.takeWhile_prefix _⟩)
    · exact nil_prefix

theorem lossyGo_of_valid (fuel : ℕ) (bs : Bytes) (h : validGo fuel bs) : lossyGo fuel bs = bs := by
  induction fuel generalizing bs with
  | zero => cases bs <;> simp_all [validGo,lossyGo]
  | succ fuel ih =>
    cases bs with
    | nil => rfl
    | cons b rest =>
      simp only [validGo,Bool.and_eq_true] at h
      have hcut : chunkTail b rest ++ rest.drop (chunkTail b rest).length = rest :=
        prefix_iff_eq_append.mp (chunkTail_isPrefix b rest)
      simp only [lossyGo,h.1,if_true,ih _ h.2,cons_append,hcut]

variable {bs : Bytes} {c : UInt8}

/-- Valid text is read back unchanged. -/
theorem fromUtf8Lossy_of_valid (h : validUtf8 bs) : fromUtf8Lossy bs = bs := lossyGo_of_valid bs.length bs h

/-- Bytes that are read back unchanged are text: what stands for a broken chunk is a character. -/
theorem valid_of_lossyGo (fuel : ℕ) (bs : Bytes) (h : lossyGo fuel bs = bs) : validGo fuel bs := by
  induction fuel generalizing bs with
  | zero =>
    cases bs with
    | nil => rfl
    | cons b rest => cases h
  | succ fuel ih =>
    cases bs with
    | nil => rfl
    | cons b rest =>
      have hcut : chunkTail b rest++rest.drop (chunkTail b rest).length = rest :=
        prefix_iff_eq_append.mp (chunkTail_isPrefix b rest)
      rw [lossyGo] at h
      by_cases hwhole : wholeChar b rest
      · rw [if_pos hwhole,cons_append,cons_inj_right] at h
        nth_rewrite 4 [← hcut] at h
        rw [validGo,hwhole,Bool.true_and]
        exact ih _ (append_cancel_left h)
      · rw [if_neg hwhole] at h
        generalize lossyGo fuel _ = q at h
        obtain ⟨rfl,rfl⟩ := List.cons.inj h
        exact absurd (by simp [wholeChar,chunkTail,secondOk,isCont,charWidth]) hwhole

theorem fromUtf8Lossy_eq_self_iff : fromUtf8Lossy bs = bs ↔ validUtf8 bs :=
  ⟨valid_of_lossyGo bs.length bs,fromUtf8Lossy_of_valid⟩

theorem lossyGo_of_le {fuel : ℕ} (h : bs.length ≤ fuel) : lossyGo fuel bs = fromUtf8Lossy bs := by
  induction fuel using Nat.strong_induction_on generalizing bs with
  | _ fuel ih =>
    cases bs with
    | nil => cases fuel <;> rfl
    | cons b rest =>
      cases fuel with
      | zero => simp at h
      | succ fuel =>
        have hcut : (rest.drop (chunkTail b rest).length).length ≤ rest.length := by simp
        have hlen : rest.length ≤ fuel := by simpa using h
        rw [fromUtf8Lossy,length_cons,lossyGo,lossyGo,ih fuel (by omega) (hcut.trans hlen)]
        obtain heq | hlt := hlen.eq_or_lt
        · rw [heq,ih fuel (by omega) (hcut.trans hlen)]
        · rw [ih rest.length (by omega) hcut]

theorem fromUtf8Lossy_cons (b : UInt8) (rest : Bytes) : fromUtf8Lossy (b::rest) =
    (if wholeChar b rest then b::chunkTail b rest else [0xEF,0xBF,0xBD])++
      fromUtf8Lossy (rest.drop (chunkTail b rest).length) := by
  have hcut : (rest.drop (chunkTail b rest).length).length ≤ rest.length := by simp
  rw [fromUtf8Lossy,length_cons,lossyGo,lossyGo_of_le hcut]

theorem secondOk_ascii (b : UInt8) (hc : c < 0x80) : secondOk b c = false := by
  have hc' : c.toNat < 128 := hc
  have hlow : ∀ lo : UInt8, 128 ≤ lo.toNat → ¬ lo ≤ c := by
    intro lo hlo hle
    have : lo.toNat ≤ c.toNat := hle
    omega
  simp [secondOk,isCont,hlow]

theorem chunkTail_append_ascii (b : UInt8) (hc : c < 0x80) (rest q : Bytes) :
    chunkTail b (rest++c::q) = chunkTail b rest := by
  cases rest with
  | nil => simp [chunkTail,secondOk_ascii b hc]
  | cons d ds =>
    have hcont : isCont c = false := by
      have := secondOk_ascii 0xC2 hc
      simpa [secondOk] using this
    have htake : (ds++c::q).takeWhile isCont = ds.takeWhile isCont := by
      induction ds with
      | nil => simp [hcont]
      | cons e es ih => simp [takeWhile_cons,ih]
    simp only [cons_append,chunkTail,htake]

/-- No character reaches over an ASCII byte. -/
theorem fromUtf8Lossy_append_ascii (hc : c < 0x80) (p q : Bytes) :
    fromUtf8Lossy (p++c::q) = fromUtf8Lossy p++c::fromUtf8Lossy q := by
  induction hn : p.length using Nat.strong_induction_on generalizing p with
  | _ n ih =>
    cases p with
    | nil =>
      have hwidth : charWidth c = 1 := if_pos hc
      have htail : chunkTail c q = [] := by
        cases q with
        | nil => rfl
        | cons d ds => simp [chunkTail,hwidth]
      simp [wholeChar,hwidth,htail,fromUtf8Lossy,lossyGo]
    | cons b rest =>
      have htail := chunkTail_append_ascii b hc rest q
      have hwhole : wholeChar b (rest++c::q) = wholeChar b rest := by simp [wholeChar,htail]
      have hcut : (rest++c::q).drop (chunkTail b rest).length = rest.drop (chunkTail b rest).length++c::q :=
        drop_append_of_le_length (chunkTail_isPrefix b rest).length_le
      rw [cons_append,fromUtf8Lossy_cons,fromUtf8Lossy_cons b rest,hwhole,htail,hcut, ih _ (by subst hn; simp) _ rfl]
      simp

theorem mem_fromUtf8Lossy (h : c ∈ fromUtf8Lossy bs) (hc : c < 0x80) : c ∈ bs := by
  induction hn : bs.length using Nat.strong_induction_on generalizing bs with
  | _ n ih =>
    cases bs with
    | nil => exact h
    | cons b rest =>
      rw [fromUtf8Lossy_cons,mem_append] at h
      obtain hchunk | hrest := h
      · split at hchunk
        · exact mem_cons.mpr ((mem_cons.mp hchunk).imp_right fun hm => (chunkTail_isPrefix b rest).subset hm)
        · exfalso
          simp only [mem_cons,not_mem_nil,or_false] at hchunk
          obtain rfl | rfl | rfl := hchunk <;> exact absurd hc (by decide)
      · exact mem_cons_of_mem _ (drop_subset _ _ (ih _ (by subst hn; simp) hrest rfl))

theorem fromUtf8Lossy_eq_self (h : 0xEF ∉ fromUtf8Lossy bs) : fromUtf8Lossy bs = bs := by
  induction hn : bs.length using Nat.strong_induction_on generalizing bs with
  | _ n ih =>
    cases bs with
    | nil => rfl
    | cons b rest =>
      rw [fromUtf8Lossy_cons] at h ⊢
      simp only [mem_append,not_or] at h
      have hwhole : wholeChar b rest := by
        by_contra hno
        simp [hno] at h
      have hcut : chunkTail b rest++rest.drop (chunkTail b rest).length = rest :=
        prefix_iff_eq_append.mp (chunkTail_isPrefix b rest)
      rw [if_pos hwhole,ih _ (by subst hn; simp) h.2 rfl,cons_append,hcut]

theorem fromUtf8Lossy_ne_nil (h : bs ≠ []) : fromUtf8Lossy bs ≠ [] := by
  cases bs with
  | nil => exact absurd rfl h
  | cons b rest =>
    rw [fromUtf8Lossy_cons]
    split <;> simp

end Utf8
end AdbShare

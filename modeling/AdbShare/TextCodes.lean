import AdbShare.Bytes
import AdbShare.TextOffsets

/-! Texts in UTF-8 and in UTF-16. -/
namespace AdbShare.TextCodes

open Utf8 TextOffsets List UInt8

/-- The bytes of a text. -/
def utf8 (cs : List Char) : Bytes := cs.flatMap String.utf8EncodeChar

section

variable {b c : UInt8} {tail rest : Bytes}

theorem chunkTail_of_cont (hwidth : charWidth b = tail.length+1) (hsecond : ∀ c ∈ tail.head?, secondOk b c)
    (hcont : ∀ c ∈ tail.tail, isCont c) : chunkTail b (tail++rest) = tail := by
  cases tail with
  | nil =>
    cases rest with
    | nil => rfl
    | cons c rest => simp [chunkTail,hwidth]
  | cons c cs =>
    have hall : (cs++rest).takeWhile isCont = cs++rest.takeWhile isCont := takeWhile_append_of_pos hcont
    rw [cons_append,chunkTail,if_pos (hsecond c rfl),hall,hwidth]
    simp

theorem isCont_of_range (hc : 0x80 ≤ c.toNat ∧ c.toNat ≤ 0xBF) : isCont c := by
  rw [isCont,decide_eq_true_iff]
  exact hc

theorem secondOk_of_range (hc : 0x80 ≤ c.toNat ∧ c.toNat ≤ 0xBF) (he0 : b.toNat = 0xE0 → 0xA0 ≤ c.toNat)
    (hed : b.toNat = 0xED → c.toNat ≤ 0x9F) (hf0 : b.toNat = 0xF0 → 0x90 ≤ c.toNat)
    (hf4 : b.toNat = 0xF4 → c.toNat ≤ 0x8F) : secondOk b c := by
  unfold secondOk
  split_ifs with h0 h1 h2 h3
  · rw [decide_eq_true_iff,le_iff_toNat_le]
    exact ⟨he0 (by rw [h0]; rfl),hc.2⟩
  · rw [decide_eq_true_iff,le_iff_toNat_le]
    exact ⟨hc.1,hed (by rw [h1]; rfl)⟩
  · rw [decide_eq_true_iff,le_iff_toNat_le,le_iff_toNat_le]
    exact ⟨hf0 (by rw [h2]; rfl),hc.2⟩
  · rw [decide_eq_true_iff,le_iff_toNat_le,le_iff_toNat_le]
    exact ⟨hc.1,hf4 (by rw [h3]; rfl)⟩
  · exact isCont_of_range hc

theorem charWidth_eq (b : UInt8) : charWidth b = if b.toNat < 0x80 then 1 else if 0xC2 ≤ b.toNat ∧ b.toNat ≤ 0xDF then 2
    else if 0xE0 ≤ b.toNat ∧ b.toNat ≤ 0xEF then 3 else if 0xF0 ≤ b.toNat ∧ b.toNat ≤ 0xF4 then 4 else 0 := by
  rfl

end

/-- The bytes of a character are one whole chunk. -/
theorem exists_chunk (c : Char) : ∃ b tail, String.utf8EncodeChar c = b::tail ∧ charWidth b = tail.length+1 ∧
    ∀ rest, chunkTail b (tail++rest) = tail := by
  have hvalid : c.val.toNat < 0xD800 ∨ 0xDFFF < c.val.toNat ∧ c.val.toNat < 0x110000 := c.valid
  have hbyte : ∀ k, k < 256 → (ofNat k).toNat = k := fun k hk => toNat_ofNat_of_lt' hk
  unfold String.utf8EncodeChar
  generalize c.val.toNat = v at hvalid ⊢
  dsimp only
  split_ifs with h1 h2 h3
  · have hwidth : charWidth (ofNat v) = 1 := by
      rw [charWidth_eq,hbyte v (by omega),if_pos (by omega)]
    exact ⟨_,[],rfl,hwidth,fun rest => chunkTail_of_cont hwidth nofun nofun⟩
  · have hb := hbyte (v/64%32+192) (by omega)
    have hc := hbyte (v%64+128) (by omega)
    have hwidth : charWidth (ofNat (v/64%32+192)) = 2 := by
      rw [charWidth_eq,hb,if_neg (by omega),if_pos (by omega)]
    refine ⟨_,[_],rfl,hwidth,fun rest => chunkTail_of_cont hwidth ?_ nofun⟩
    rintro c ⟨⟩
    apply secondOk_of_range <;> omega
  · have hb := hbyte (v/4096%16+224) (by omega)
    have hc := hbyte (v/64%64+128) (by omega)
    have hd := hbyte (v%64+128) (by omega)
    have hwidth : charWidth (ofNat (v/4096%16+224)) = 3 := by
      rw [charWidth_eq,hb,if_neg (by omega),if_neg (by omega),if_pos (by omega)]
    refine ⟨_,[_,_],rfl,hwidth,fun rest => chunkTail_of_cont hwidth ?_ ?_⟩
    · rintro c ⟨⟩
      apply secondOk_of_range <;> omega
    · intro c hmem
      obtain rfl := mem_singleton.mp hmem
      exact isCont_of_range (by omega)
  · have hb := hbyte (v/262144%8+240) (by omega)
    have hc := hbyte (v/4096%64+128) (by omega)
    have hd := hbyte (v/64%64+128) (by omega)
    have he := hbyte (v%64+128) (by omega)
    have hwidth : charWidth (ofNat (v/262144%8+240)) = 4 := by
      rw [charWidth_eq,hb,if_neg (by omega),if_neg (by omega),if_neg (by omega),if_pos (by omega)]
    refine ⟨_,[_,_,_],rfl,hwidth,fun rest => chunkTail_of_cont hwidth ?_ ?_⟩
    · rintro c ⟨⟩
      apply secondOk_of_range <;> omega
    intro c hmem
    obtain rfl | hmem := mem_cons.mp hmem
    · exact isCont_of_range (by omega)
    · obtain rfl := mem_singleton.mp hmem
      exact isCont_of_range (by omega)

theorem validGo_utf8 (cs : List Char) (fuel : ℕ) (hfuel : (utf8 cs).length ≤ fuel) : validGo fuel (utf8 cs) := by
  induction cs generalizing fuel with
  | nil => cases fuel <;> rfl
  | cons c cs ih =>
    obtain ⟨b,tail,hchar,hwidth,htail⟩ := exists_chunk c
    have hcons : utf8 (c::cs) = b::(tail++utf8 cs) := by
      rw [utf8,flatMap_cons,hchar]
      rfl
    rw [hcons] at hfuel ⊢
    cases fuel with
    | zero => cases hfuel
    | succ fuel =>
      rw [length_cons,length_append] at hfuel
      have hwhole : wholeChar b (tail++utf8 cs) := by
        rw [wholeChar,htail,hwidth]
        simp
      rw [validGo,hwhole,htail,drop_left,Bool.true_and]
      exact ih fuel (by omega)

@[simp] theorem fromUtf8Lossy_utf8 (cs : List Char) : fromUtf8Lossy (utf8 cs) = utf8 cs :=
  fromUtf8Lossy_of_valid (validGo_utf8 cs _ le_rfl)

end AdbShare.TextCodes

import AdbShare.ProxyPaths
import Mathlib

/-! Where the file system of a device is mounted. A serial is any string; what is kept of it as a
directory name is ASCII. -/
namespace AdbShare.Mountpoints

open List

open PathText (SLASH FileName pieces isAbsolute join)
open ProxyDevice (components)

abbrev Serial := List Char

def isKept (c : Char) : Bool := c.isAlphanum || c == '-' || c == '_' || c == '.'

def clean (c : Char) : Char := if isKept c then c else '_'

/-- The bytes of ASCII text. -/
def asciiBytes (s : List Char) : Bytes := s.map fun c => UInt8.ofNat c.toNat

def sanitizeMountName (serial : Serial) : Option Bytes :=
  let cleaned := serial.map clean
  if cleaned = [] ∨ cleaned = ['.'] ∨ cleaned = ['.','.'] then none else some (asciiBytes cleaned)

def mountpointFor (mountBase : Bytes) (serial : Serial) (noFuse : Bool) : Option Bytes :=
  if noFuse then none else (sanitizeMountName serial).map (join mountBase)

/-- A path with one name more. -/
def DirectChild (base path : Bytes) : Prop :=
  isAbsolute path = isAbsolute base ∧ ∃ name : FileName, components path = components base++[name.bytes]

/-- A character that becomes an underscore. -/
def Blurred (c : Char) : Prop := c = '_' ∨ isKept c = false

/-- Characters that a directory name shows alike. -/
def AlikeChar (c d : Char) : Prop := c = d ∨ Blurred c ∧ Blurred d

/-- Serials that differ only in characters that are not kept, underscores among them. -/
def Alike (s s' : Serial) : Prop := List.Forall₂ AlikeChar s s'

section

variable (mountBase : Bytes) (noFuse : Bool)

/-- Every device has a directory of its own right below the base. -/
def Apart (serials : Set Serial) : Prop :=
  (∀ s ∈ serials, ∀ p, mountpointFor mountBase s noFuse = some p → DirectChild mountBase p) ∧
  ∀ s ∈ serials, ∀ s' ∈ serials, s ≠ s' → mountpointFor mountBase s noFuse ≠ mountpointFor mountBase s' noFuse

end

variable {c d : Char} {s' s : Serial} {t : List Char} {name p mountBase q : Bytes} {n m : FileName} {noFuse : Bool}

theorem clean_eq_underscore_iff : clean c = '_' ↔ Blurred c := by
  unfold clean Blurred
  cases isKept c <;> simp

theorem clean_eq_self (h : ¬Blurred c) : clean c = c := by
  have hkept : isKept c := by
    rw [Blurred,not_or,Bool.not_eq_false] at h
    exact h.2
  exact if_pos hkept

theorem clean_eq_iff : clean c = clean d ↔ AlikeChar c d := by
  constructor
  · intro h
    by_cases hc : Blurred c
    · exact .inr ⟨hc,clean_eq_underscore_iff.mp (h ▸ clean_eq_underscore_iff.mpr hc)⟩
    · by_cases hd : Blurred d
      · exact absurd (clean_eq_underscore_iff.mp (h.trans (clean_eq_underscore_iff.mpr hd))) hc
      · exact .inl ((clean_eq_self hc).symm.trans (h.trans (clean_eq_self hd)))
  · rintro (rfl | ⟨hc,hd⟩)
    · rfl
    · exact (clean_eq_underscore_iff.mpr hc).trans (clean_eq_underscore_iff.mpr hd).symm

theorem map_clean_eq_iff {s : Serial} : s.map clean = s'.map clean ↔ Alike s s' := by
  induction s generalizing s' with
  | nil => cases s' <;> simp [Alike]
  | cons c s ih =>
    cases s' with
    | nil => simp [Alike]
    | cons d s' =>
      rw [map_cons,map_cons,List.cons.injEq,clean_eq_iff,ih]
      exact List.forall₂_cons.symm

/-- What is kept is ASCII. -/
theorem lt_of_isKept (h : isKept c) : c.toNat < 128 := by
  simp only [isKept,Bool.or_eq_true,beq_iff_eq] at h
  obtain ((h | rfl) | rfl) | rfl := h
  · simp [Char.isAlphanum,Char.isAlpha,Char.isUpper,Char.isLower,Char.isDigit,UInt32.le_iff_toNat_le] at h
    omega
  · decide
  · decide
  · decide

theorem asciiByte_inj (hc : c.toNat < 128) (hd : d.toNat < 128)
    (h : UInt8.ofNat c.toNat = UInt8.ofNat d.toNat) : c = d := by
  have hnat := congrArg UInt8.toNat h
  rw [UInt8.toNat_ofNat',UInt8.toNat_ofNat'] at hnat
  exact Char.toNat_inj.mp (by omega)

theorem asciiBytes_inj {s s' : List Char} (hs : ∀ c ∈ s, isKept c) (hs' : ∀ c ∈ s', isKept c)
    (h : asciiBytes s = asciiBytes s') : s = s' := by
  induction s generalizing s' with
  | nil => exact (map_eq_nil_iff.mp h.symm).symm
  | cons c s ih =>
    cases s' with
    | nil => cases h
    | cons d s' =>
      obtain ⟨hhead,htail⟩ := List.cons.inj h
      rw [forall_mem_cons] at hs hs'
      rw [asciiByte_inj (lt_of_isKept hs.1) (lt_of_isKept hs'.1) hhead,ih hs.2 hs'.2 htail]

theorem isKept_of_mem_cleaned : ∀ c ∈ s.map clean, isKept c := by
  intro c hc
  obtain ⟨d,-,rfl⟩ := mem_map.mp hc
  unfold clean
  split
  · assumption
  · decide

/-- The text that gives these bytes is itself. -/
theorem asciiBytes_cleaned_eq (ht : ∀ c ∈ t, isKept c) : asciiBytes (s.map clean) = asciiBytes t ↔ s.map clean = t :=
  ⟨asciiBytes_inj isKept_of_mem_cleaned ht,congrArg asciiBytes⟩

theorem slash_not_mem_cleaned : SLASH ∉ asciiBytes (s.map clean) := by
  intro h
  obtain ⟨c,hc,hslash⟩ := mem_map.mp h
  have hkept := isKept_of_mem_cleaned c hc
  have heq : c = '/' := asciiByte_inj (lt_of_isKept hkept) (by decide) hslash
  subst heq
  exact absurd hkept (by decide)

/-- A name that is not turned down is one a directory entry can have. -/
theorem sanitizeMountName_some (h : sanitizeMountName s = some name) :
    name = asciiBytes (s.map clean) ∧ ∃ n : FileName, n.bytes = name := by
  rw [sanitizeMountName] at h
  split_ifs at h with hplain
  cases h
  rw [not_or,not_or] at hplain
  have hdot : asciiBytes (s.map clean) ≠ PathText.dot := fun heq =>
    hplain.2.1 ((asciiBytes_cleaned_eq (t := ['.']) (by simp [isKept])).mp heq)
  have hdotdot : asciiBytes (s.map clean) ≠ PathText.dotdot := fun heq =>
    hplain.2.2 ((asciiBytes_cleaned_eq (t := ['.','.']) (by simp [isKept])).mp heq)
  exact ⟨rfl,⟨_,mt map_eq_nil_iff.mp hplain.1,slash_not_mem_cleaned,hdot,hdotdot⟩,rfl⟩

theorem components_append_slash (p q : Bytes) : components (p++SLASH::q) = components p++components q := by
  rw [components,PathText.pieces_append_slash,filter_append]
  rfl

theorem components_name (n : FileName) : components n.bytes = [n.bytes] := by
  rw [components,PathText.pieces_of_not_mem n.plain.2.1]
  simp [n.plain.1,n.plain.2.2.1]

theorem components_join (p : Bytes) (n : FileName) : components (join p n.bytes) = components p++[n.bytes] := by
  rw [join,if_neg (by simp [PathText.isAbsolute_name]),← components_name n]
  split
  · rename_i hp
    obtain rfl | hlast := hp
    · rfl
    · obtain ⟨q,rfl⟩ := getLast?_eq_some_iff.mp hlast
      rw [append_assoc,singleton_append,components_append_slash,components_append_slash]
      simp [components,pieces]
  · exact components_append_slash p n.bytes

theorem isAbsolute_join (p : Bytes) (n : FileName) : isAbsolute (join p n.bytes) = isAbsolute p := by
  rw [join,if_neg (by simp [PathText.isAbsolute_name])]
  cases p with
  | nil => exact PathText.isAbsolute_name n
  | cons b p => split <;> rfl

theorem join_inj (h : join p n.bytes = join p m.bytes) : n.bytes = m.bytes := by
  have hcomponents := congrArg components h
  rw [components_join,components_join,append_cancel_left_eq] at hcomponents
  exact singleton_inj.mp hcomponents

theorem mountpointFor_some (h : mountpointFor mountBase s noFuse = some p) :
    noFuse = false ∧ ∃ n : FileName, n.bytes = asciiBytes (s.map clean) ∧ p = join mountBase n.bytes := by
  rw [mountpointFor] at h
  split_ifs at h with hfuse
  obtain ⟨name,hname,rfl⟩ := Option.map_eq_some_iff.mp h
  obtain ⟨rfl,n,hn⟩ := sanitizeMountName_some hname
  exact ⟨by simpa using hfuse,n,hn,congrArg _ hn.symm⟩

/-- Two devices share a directory exactly if their serials look alike in it. -/
theorem mountpointFor_eq_iff
    (hs : mountpointFor mountBase s noFuse = some p) (hs' : mountpointFor mountBase s' noFuse = some q) :
    p = q ↔ Alike s s' := by
  obtain ⟨-,n,hn,rfl⟩ := mountpointFor_some hs
  obtain ⟨-,m,hm,rfl⟩ := mountpointFor_some hs'
  rw [← map_clean_eq_iff]
  constructor
  · intro h
    exact asciiBytes_inj isKept_of_mem_cleaned isKept_of_mem_cleaned (hn.symm.trans ((join_inj h).trans hm))
  · intro h
    rw [hn,hm,h]

theorem apart_iff {mountBase : Bytes} {noFuse : Bool} {serials : Set Serial}
    (hS : ∀ s ∈ serials, (mountpointFor mountBase s noFuse).isSome = true) :
    Apart mountBase noFuse serials ↔ ∀ s ∈ serials, ∀ s' ∈ serials, s ≠ s' → ¬Alike s s' := by
  constructor
  · intro h s hs s' hs' hne halike
    obtain ⟨p,hp⟩ := Option.isSome_iff_exists.mp (hS s hs)
    obtain ⟨q,hq⟩ := Option.isSome_iff_exists.mp (hS s' hs')
    refine h.2 s hs s' hs' hne ?_
    rw [hp,hq,(mountpointFor_eq_iff hp hq).mpr halike]
  · intro h
    constructor
    · intro s hs p hp
      obtain ⟨-,n,-,rfl⟩ := mountpointFor_some hp
      exact ⟨isAbsolute_join mountBase n,n,components_join mountBase n⟩
    · intro s hs s' hs' hne heq
      obtain ⟨p,hp⟩ := Option.isSome_iff_exists.mp (hS s hs)
      exact h s hs s' hs' hne ((mountpointFor_eq_iff hp (heq.symm.trans hp)).mp rfl)

def usbSerial : Serial := "R58M".toList
def tcpSerial : Serial := "10.0.0.7:5555".toList
def tcpLookalike : Serial := "10.0.0.7_5555".toList

/-- A device on a cable and one on the network, below `/m`. -/
theorem apart_usb_and_tcp : Apart [SLASH,109] false {usbSerial,tcpSerial} := by
  refine (apart_iff ?_).mpr ?_
  · rintro s (rfl | rfl)
    · rfl
    · rfl
  · rintro s (rfl | rfl) s' (rfl | rfl) hne halike
    · exact hne rfl
    · exact absurd halike.length_eq (by decide)
    · exact absurd halike.length_eq (by decide)
    · exact hne rfl

theorem mountpoint_shared :
    (∀ s ∈ ({tcpSerial,tcpLookalike} : Set Serial), (mountpointFor [SLASH,109] s false).isSome = true) ∧
    ¬Apart [SLASH,109] false {tcpSerial,tcpLookalike} := by
  constructor
  · rintro s (rfl | rfl)
    · rfl
    · rfl
  · intro h
    exact h.2 tcpSerial (.inl rfl) tcpLookalike (.inr rfl) (by decide) (by decide)

end AdbShare.Mountpoints

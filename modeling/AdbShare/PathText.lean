import AdbShare.Bytes
import AdbShare.Posix

/-! Paths as byte strings: the pieces between the slashes, how a name is joined to a path,
and where a path leads when it is read piece by piece without asking the file system. -/
namespace AdbShare.PathText

open List

def SLASH : UInt8 := 47
def dot : Bytes := [46]
def dotdot : Bytes := [46,46]

/-- What an entry of a directory can be called. -/
structure FileName where
  bytes : Bytes
  plain : bytes ≠ [] ∧ SLASH ∉ bytes ∧ bytes ≠ dot ∧ bytes ≠ dotdot
  deriving DecidableEq

def FileName.a : FileName := ⟨[97],by decide⟩
def FileName.b : FileName := ⟨[98],by decide⟩

/-- `split('/')`. -/
def pieces : Bytes → List Bytes
  | [] => [[]]
  | b::bs => if b = SLASH then []::pieces bs else (pieces bs).modifyHead (b::·)

def piece (c : Bytes) : Posix.Piece FileName :=
  if h : c ≠ [] ∧ SLASH ∉ c ∧ c ≠ dot ∧ c ≠ dotdot then .name ⟨c,h⟩
  else if c = dot then .dot
  else if c = dotdot then .dotdot
  else .empty

/-- A path as the file system reads it. -/
def parse (p : Bytes) : List (Posix.Piece FileName) := (pieces p).map piece

def isAbsolute (p : Bytes) : Bool := decide (p.head? = some SLASH)

/-- `Path::join`: an absolute name takes the place of the path. -/
def join (p name : Bytes) : Bytes :=
  if isAbsolute name then name
  else if p = [] ∨ p.getLast? = some SLASH then p++name
  else p++SLASH::name

/-- `trim_end_matches('/')`. -/
def trimEnd (p : Bytes) : Bytes := p.rdropWhile fun b => decide (b = SLASH)

theorem pieces_ne_nil (p : Bytes) : pieces p ≠ [] := by
  induction p with
  | nil => simp [pieces]
  | cons b bs ih =>
    rw [pieces]
    split
    · simp
    · simpa using ih

theorem pieces_append_slash (p q : Bytes) : pieces (p++SLASH::q) = pieces p++pieces q := by
  induction p with
  | nil => simp [pieces]
  | cons b bs ih =>
    simp only [cons_append,pieces,ih]
    split
    · simp
    · cases h : pieces bs with
      | nil => exact absurd h (pieces_ne_nil bs)
      | cons c cs => simp

variable {p name : Bytes} {extra cs : List Bytes} {c : Bytes} {b : UInt8} {n : FileName} {α : Type} {f : α → Bool}
  {a : α} {q : List (Posix.Piece FileName)}

theorem pieces_of_not_mem (h : SLASH ∉ p) : pieces p = [p] := by
  induction p with
  | nil => rfl
  | cons b bs ih =>
    rw [mem_cons,not_or] at h
    rw [pieces,if_neg (Ne.symm h.1),ih h.2]
    rfl

theorem slash_not_mem_piece (h : c ∈ pieces p) : SLASH ∉ c := by
  induction p generalizing c with
  | nil =>
    rw [mem_singleton.mp h]
    exact not_mem_nil
  | cons b bs ih =>
    rw [pieces] at h
    split at h
    · obtain rfl | h := mem_cons.mp h
      · exact not_mem_nil
      · exact ih h
    · rename_i hb
      cases hp : pieces bs with
      | nil => exact absurd hp (pieces_ne_nil bs)
      | cons d ds =>
        rw [hp,modifyHead_cons] at h
        obtain rfl | h := mem_cons.mp h
        · rw [mem_cons,not_or]
          exact ⟨Ne.symm hb,ih (by simp [hp])⟩
        · exact ih (by simp [hp,h])

theorem piece_eq_empty_iff (h : SLASH ∉ c) : piece c = .empty ↔ c = [] := by
  unfold piece
  split
  · rename_i hc
    simp [hc.1]
  rename_i hc
  split
  · rename_i hdot
    simp [hdot,dot]
  rename_i hdot
  split
  · rename_i hdotdot
    simp [hdotdot,dotdot]
  rename_i hdotdot
  simp only [true_iff]
  by_contra hne
  exact hc ⟨hne,h,hdot,hdotdot⟩

theorem piece_eq_dot_iff : piece c = .dot ↔ c = dot := by
  unfold piece
  split
  · rename_i hc
    simp [hc.2.2.1]
  split
  · rename_i hdot
    simp [hdot]
  · rename_i hdot
    split <;> simp [hdot]

theorem parse_append_slash (p q : Bytes) : parse (p++SLASH::q) = parse p++parse q := by
  simp [parse,pieces_append_slash]

theorem parse_ne_nil (p : Bytes) : parse p ≠ [] := by simp [parse,pieces_ne_nil]

theorem parse_head_of_relative (hb : b ≠ SLASH) (bs : Bytes) : (parse (b::bs)).head? ≠ some .empty := by
  cases hp : pieces bs with
  | nil => exact absurd hp (pieces_ne_nil bs)
  | cons d ds =>
    have hcut : pieces (b::bs) = (b::d)::ds := by rw [pieces,if_neg hb,hp,modifyHead_cons]
    have hslash : SLASH ∉ b::d := slash_not_mem_piece (p:=b::bs) (by simp [hcut])
    rw [parse,hcut,map_cons]
    intro h
    cases (piece_eq_empty_iff hslash).mp (Option.some.inj h)

/-- The slashes at the end. -/
theorem parse_trimEnd (p : Bytes) : ∃ j, parse p = parse (trimEnd p)++List.replicate j .empty := by
  induction p using List.reverseRecOn with
  | nil => exact ⟨0,by simp [trimEnd]⟩
  | append_singleton q b ih =>
    by_cases hb : b = SLASH
    · obtain ⟨j,hj⟩ := ih
      refine ⟨j+1,?_⟩
      subst hb
      have htrim : trimEnd (q++[SLASH]) = trimEnd q := rdropWhile_concat_pos _ _ _ (by simp)
      rw [parse_append_slash,htrim,hj,append_assoc,replicate_succ']
      rfl
    · have htrim : trimEnd (q++[b]) = q++[b] := rdropWhile_concat_neg _ _ _ (by simpa using hb)
      exact ⟨0,by simp [htrim]⟩

theorem piece_name (n : FileName) : piece n.bytes = .name n := dif_pos n.plain

theorem parse_name (n : FileName) : parse n.bytes = [.name n] := by
  rw [parse,pieces_of_not_mem n.plain.2.1,map_singleton,piece_name]

theorem exists_last_piece (p : Bytes) : SLASH ∉ p ∨ ∃ q c, p = q++SLASH::c ∧ SLASH ∉ c := by
  by_cases h : SLASH ∈ p
  · right
    obtain ⟨c,q,hp,hc⟩ := eq_append_cons_of_mem (mem_reverse.mpr h)
    refine ⟨q.reverse,c.reverse,?_,by simpa using hc⟩
    rw [← reverse_reverse p,hp]
    simp
  · exact Or.inl h

theorem trimEnd_of_getLast? (h : p.getLast? ≠ some SLASH) : trimEnd p = p := by
  induction p using List.reverseRecOn with
  | nil => rfl
  | append_singleton q b _ =>
    apply rdropWhile_concat_neg
    simpa using h

theorem getLast?_trimEnd (p : Bytes) : (trimEnd p).getLast? ≠ some SLASH := by
  intro h
  have hne : trimEnd p ≠ [] := by
    intro hnil
    simp [hnil] at h
  apply rdropWhile_last_not (fun b => decide (b = SLASH)) p hne
  rw [getLast?_eq_some_getLast hne] at h
  simpa [trimEnd] using h

theorem parse_getLast? (hp : p ≠ []) (h : p.getLast? ≠ some SLASH) : (parse p).getLast? ≠ some .empty := by
  obtain hslash | ⟨q,c,rfl,hslash⟩ := exists_last_piece p
  · rw [parse,pieces_of_not_mem hslash]
    simp [piece_eq_empty_iff hslash,hp]
  rw [parse_append_slash,parse,parse,pieces_of_not_mem hslash]
  have hc : c ≠ [] := by
    rintro rfl
    simp at h
  simp [piece_eq_empty_iff hslash,hc]

theorem rdropWhile_append_replicate (ha : f a) (l : List α) (j : ℕ) :
    (l++List.replicate j a).rdropWhile f = l.rdropWhile f := by
  induction j with
  | zero => simp
  | succ j ih => rw [replicate_succ',← append_assoc,rdropWhile_concat_pos _ _ _ ha,ih]

theorem parse_trimEnd_of_rdropWhile
    (h : (parse p).rdropWhile (fun c => decide (c = .empty)) = q++[.name n]) : parse (trimEnd p) = q++[.name n] := by
  obtain ⟨j,hj⟩ := parse_trimEnd p
  rw [hj,rdropWhile_append_replicate (by simp)] at h
  by_cases hnil : trimEnd p = []
  · have hempty : (parse (trimEnd p)).rdropWhile (fun c => decide (c = .empty)) = [] := by
      rw [hnil]
      decide
    simp [hempty] at h
  · have hlast := parse_getLast? hnil (getLast?_trimEnd p)
    have hkeep : (parse (trimEnd p)).rdropWhile (fun c => decide (c = .empty)) = parse (trimEnd p) := by
      rw [rdropWhile_eq_self_iff]
      intro hne hlast'
      apply hlast
      rw [getLast?_eq_some_getLast hne]
      simpa using hlast'
    rwa [hkeep] at h

theorem isAbsolute_name (n : FileName) : isAbsolute n.bytes = false := by
  have hslash := n.plain.2.1
  cases hb : n.bytes with
  | nil => rfl
  | cons b bs =>
    rw [hb,mem_cons,not_or] at hslash
    simpa [isAbsolute] using Ne.symm hslash.1

/-- The name as text. -/
def FileName.lossy (n : FileName) : FileName where
  bytes := Utf8.fromUtf8Lossy n.bytes
  plain := by
    obtain ⟨hne,hslash,hdot,hdotdot⟩ := n.plain
    refine ⟨Utf8.fromUtf8Lossy_ne_nil hne,fun h => hslash (Utf8.mem_fromUtf8Lossy h (by decide)),?_,?_⟩
    · intro h
      have hself : Utf8.fromUtf8Lossy n.bytes = n.bytes := Utf8.fromUtf8Lossy_eq_self (by rw [h]; decide)
      exact hdot (hself.symm.trans h)
    · intro h
      have hself : Utf8.fromUtf8Lossy n.bytes = n.bytes := Utf8.fromUtf8Lossy_eq_self (by rw [h]; decide)
      exact hdotdot (hself.symm.trans h)

/-- One piece further, as far as the text goes. -/
def descend (dir : List Bytes) (c : Bytes) : List Bytes :=
  if c = [] ∨ c = dot then dir
  else if c = dotdot then dir.dropLast
  else dir++[c]

/-- Where an absolute path leads if no link is on it. -/
def lexical (p : Bytes) : List Bytes := (pieces p).foldl descend []

/-- Pieces that never lead above the place they start from, `depth` levels further down. -/
def staysBelow : ℕ → List Bytes → Bool
  | _, [] => true
  | depth, c::cs =>
    if c = [] ∨ c = dot then staysBelow depth cs
    else if c = dotdot then decide (0 < depth) && staysBelow (depth-1) cs
    else staysBelow (depth+1) cs

theorem lexical_append_slash (p q : Bytes) : lexical (p++SLASH::q) = (pieces q).foldl descend (lexical p) := by
  simp [lexical,pieces_append_slash]

theorem lexical_join (h : isAbsolute name = false) : lexical (join p name) = (pieces name).foldl descend (lexical p) := by
  unfold join
  rw [if_neg (by simp [h])]
  split
  · rename_i hp
    obtain rfl | hlast := hp
    · rfl
    · obtain ⟨q,rfl⟩ := getLast?_eq_some_iff.mp hlast
      rw [append_assoc,singleton_append,lexical_append_slash,lexical_append_slash]
      rfl
  · exact lexical_append_slash p name

theorem foldl_descend_of_staysBelow (base : List Bytes)
    (h : staysBelow extra.length cs) : base <+: cs.foldl descend (base++extra) := by
  induction cs generalizing extra with
  | nil => exact prefix_append base extra
  | cons c cs ih =>
    rw [staysBelow] at h
    rw [foldl_cons,descend]
    split at h
    · rename_i hc
      rw [if_pos hc]
      exact ih h
    · rename_i hc
      rw [if_neg hc]
      split at h
      · rename_i hup
        rw [if_pos hup]
        cases extra using List.reverseRecOn with
        | nil => simp at h
        | append_singleton init last =>
          rw [← append_assoc,dropLast_concat]
          exact ih (by simpa using h)
      · rename_i hup
        rw [if_neg hup,append_assoc]
        exact ih (by simpa using h)

/-- What leads above its start forgets where it started. -/
theorem foldl_descend_of_climb (a b : Bytes) (h : staysBelow extra.length cs = false) :
    cs.foldl descend (a::extra) = cs.foldl descend (b::extra) := by
  induction cs generalizing extra with
  | nil => cases h
  | cons c cs ih =>
    rw [staysBelow] at h
    rw [foldl_cons,foldl_cons,descend,descend]
    split at h
    · rename_i hc
      rw [if_pos hc,if_pos hc]
      exact ih h
    · rename_i hc
      rw [if_neg hc,if_neg hc]
      split at h
      · rename_i hup
        rw [if_pos hup,if_pos hup]
        cases extra using List.reverseRecOn with
        | nil => rfl
        | append_singleton init last =>
          rw [← cons_append,← cons_append,dropLast_concat,dropLast_concat]
          exact ih (by simpa using h)
      · rename_i hup
        rw [if_neg hup,if_neg hup]
        exact ih (by simpa using h)

end AdbShare.PathText

import Mathlib.Data.List.Sort
import Mathlib.Tactic

/-! Entries of a directory listing: how they are ordered and which of them a search finds. What
`to_lowercase` makes of a text is left open. -/
namespace AdbShare.DirEntries

open List

abbrev Text := List Char

structure DirEntry where
  name : Text
  isDir : Bool
  size : ℕ
  mtime : ℤ
  deriving DecidableEq

inductive SortKey
  | name | size | modified
  deriving DecidableEq

inductive SortField
  | name (text : Text)
  | size (bytes : ℕ)
  | modified (time : ℤ)

/-- The derived order: by the kind of the field, then by what it holds. -/
def SortField.cmp : SortField → SortField → Ordering
  | .name a, .name b => compare (a.map Char.toNat) (b.map Char.toNat)
  | .name _, _ => .lt
  | .size _, .name _ => .gt
  | .size a, .size b => compare a b
  | .size _, .modified _ => .lt
  | .modified a, .modified b => compare a b
  | .modified _, _ => .gt

def isAscii (s : Text) : Bool := s.all fun c => decide (c.toNat < 128)

def eqIgnoreAsciiCase (a b : Text) : Bool := decide (a.map Char.toLower = b.map Char.toLower)

section

variable (lower : Text → Text)

def containsIgnoreCase (haystack needle : Text) : Bool :=
  if needle = [] then true
  else if isAscii haystack && isAscii needle then
    if needle.length > haystack.length then false
    else (List.range (haystack.length+1-needle.length)).any fun i =>
      eqIgnoreAsciiCase ((haystack.drop i).take needle.length) needle
  else decide (needle <:+: lower haystack)

def sortField (entry : DirEntry) : SortKey → SortField
  | .name => .name (lower entry.name)
  | .size => .size entry.size
  | .modified => .modified entry.mtime

/-- Directories first, then by the field. -/
def cmpKeyed (descending : Bool) (a b : Bool × SortField × ℕ) : Ordering :=
  (compare b.1 a.1).then (if descending then (a.2.1.cmp b.2.1).swap else a.2.1.cmp b.2.1)

/-- The indices of the entries in their new order. -/
def sortOrder (entries : List DirEntry) (key : SortKey) (descending : Bool) : List ℕ :=
  let keyed := entries.zipIdx.map fun p => (p.1.isDir,sortField lower p.1 key,p.2)
  (keyed.insertionSort fun a b => cmpKeyed descending a b ≠ .gt).map fun k => k.2.2

end

/-- If texts of ASCII are lowered letter by letter, windows find what the lowered text contains. -/
theorem containsIgnoreCase_iff (lower : Text → Text) (hlower : ∀ s, isAscii s → lower s = s.map Char.toLower)
    (haystack needle : Text) (hneedle : lower needle = needle) :
    containsIgnoreCase lower haystack needle ↔ needle <:+: lower haystack := by
  unfold containsIgnoreCase
  by_cases hempty : needle = []
  · simp [hempty]
  by_cases hascii : (isAscii haystack && isAscii needle)
  · rw [if_neg hempty,if_pos hascii]
    rw [Bool.and_eq_true] at hascii
    rw [hlower _ hascii.2] at hneedle
    rw [hlower _ hascii.1]
    constructor
    · intro h
      split at h
      · cases h
      obtain ⟨i,-,hi⟩ := any_eq_true.mp h
      have hwindow : ((haystack.drop i).take needle.length).map Char.toLower = needle :=
        (of_decide_eq_true hi).trans hneedle
      rw [← hwindow]
      exact (( take_prefix ..).isInfix.trans (drop_suffix ..).isInfix).map _
    · rintro ⟨s,t,hst⟩
      have hlen : s.length+(needle.length+t.length) = haystack.length := by simpa using congrArg List.length hst
      rw [if_neg (by omega),any_eq_true]
      refine ⟨s.length,mem_range.mpr (by omega),decide_eq_true ?_⟩
      rw [map_take,map_drop,← hst,hneedle]
      simp
  · simp [hempty,hascii]

theorem containsIgnoreCase_found : "ab".toList <:+: "xABy".toList.map Char.toLower :=
  (containsIgnoreCase_iff (fun s => s.map Char.toLower) (fun _ _ => rfl) "xABy".toList "ab".toList rfl).mp (by decide)

/-- The loop of `apply_permutation`; `none` if an index is taken twice or is none of the slots. -/
def takeSlots {α : Type} : List (Option α) → List ℕ → Option (List α)
  | _, [] => some []
  | slots, index::order => do
    let entry ← slots[index]?.join
    let entries ← takeSlots (slots.set index none) order
    pure (entry::entries)

def applyPermutation {α : Type} (entries : List α) (order : List ℕ) : Option (List α) :=
  takeSlots (entries.map some) order

def sortEntries (lower : Text → Text) (entries : List DirEntry) (key : SortKey) (descending : Bool) :
    Option (List DirEntry × List ℕ) :=
  let order := sortOrder lower entries key descending
  (applyPermutation entries order).map fun sorted => (sorted,order)

/-- `moved_to` of `apply_sort`: where each index went. -/
def movedTo (order : List ℕ) : List ℕ :=
  order.zipIdx.foldl (fun table p => table.set p.1 p.2) (List.replicate order.length 0)

theorem sortOrder_perm (lower : Text → Text) (entries : List DirEntry) (key : SortKey) (descending : Bool) :
    (sortOrder lower entries key descending).Perm (List.range entries.length) := by
  have hperm := (perm_insertionSort (fun a b => cmpKeyed descending a b ≠ .gt)
    (entries.zipIdx.map fun p => (p.1.isDir,sortField lower p.1 key,p.2))).map fun k => k.2.2
  refine hperm.trans (List.Perm.of_eq ?_)
  rw [map_map,range_eq_range',← zipIdx_map_snd 0 entries]
  rfl

section

variable {α : Type} {slots : List (Option α)} {order : List ℕ} {entries : List α}

/-- Distinct indices of filled slots are all taken. -/
theorem takeSlots_map (hnodup : order.Nodup) (hfull : ∀ i ∈ order, ∃ a, slots[i]? = some (some a)) :
    ∃ taken, takeSlots slots order = some taken ∧ taken.map some = order.map fun i => slots[i]?.join := by
  induction order generalizing slots with
  | nil => exact ⟨[],rfl,rfl⟩
  | cons i is ih =>
    rw [nodup_cons] at hnodup
    obtain ⟨a,ha⟩ := hfull i mem_cons_self
    have hkeep : ∀ j ∈ is, (slots.set i none)[j]? = slots[j]? := fun j hj =>
      getElem?_set_ne (by rintro rfl; exact hnodup.1 hj)
    obtain ⟨taken,htaken,hmap⟩ := ih hnodup.2 fun j hj => by
      rw [hkeep j hj]
      exact hfull j (mem_cons_of_mem _ hj)
    refine ⟨a::taken,?_,?_⟩
    · simp [takeSlots,ha,htaken]
    · rw [map_cons,map_cons,hmap,ha]
      refine congrArg _ (map_congr_left fun j hj => ?_)
      rw [hkeep j hj]

theorem applyPermutation_perm (h : order.Perm (List.range entries.length)) :
    ∃ sorted, applyPermutation entries order = some sorted ∧ sorted.map some = order.map fun i => entries[i]? := by
  have hfull : ∀ i ∈ order, ∃ a, (entries.map some)[i]? = some (some a) := by
    intro i hi
    have hlt : i < entries.length := mem_range.mp (h.subset hi)
    exact ⟨entries[i],by simp [hlt]⟩
  obtain ⟨sorted,hsorted,hmap⟩ := takeSlots_map (h.nodup_iff.mpr nodup_range) hfull
  refine ⟨sorted,hsorted,hmap.trans (map_congr_left fun i _ => ?_)⟩
  cases hi : entries[i]? <;> simp [hi]

end

/-- Sorting does not fail, and moves the entries as it says. -/
theorem sortEntries_eq (lower : Text → Text) (entries : List DirEntry) (key : SortKey) (descending : Bool) :
    ∃ sorted, sortEntries lower entries key descending = some (sorted,sortOrder lower entries key descending) ∧
      sorted.map some = (sortOrder lower entries key descending).map fun i => entries[i]? := by
  obtain ⟨sorted,hsorted,hmap⟩ := applyPermutation_perm (sortOrder_perm lower entries key descending)
  exact ⟨sorted,by simp [sortEntries,hsorted],hmap⟩

variable {pairs : List (ℕ × ℕ)} {table order : List ℕ} {i n j : ℕ} {p : ℕ × ℕ}

theorem foldl_set (h : i ∉ pairs.map Prod.fst) :
    (pairs.foldl (fun table p => table.set p.1 p.2) table)[i]? = table[i]? := by
  induction pairs generalizing table with
  | nil => rfl
  | cons p ps ih =>
    rw [map_cons,mem_cons,not_or] at h
    rw [foldl_cons,ih h.2,getElem?_set_ne (Ne.symm h.1)]

theorem foldl_set_mem (hp : p ∈ pairs) (hnodup : (pairs.map Prod.fst).Nodup) (hlt : p.1 < table.length) :
    (pairs.foldl (fun table p => table.set p.1 p.2) table)[p.1]? = some p.2 := by
  induction pairs generalizing table with
  | nil => cases hp
  | cons q qs ih =>
    rw [map_cons,nodup_cons] at hnodup
    rw [foldl_cons]
    obtain rfl | hq := mem_cons.mp hp
    · rw [foldl_set hnodup.1,getElem?_set_self hlt]
    · exact ih hq hnodup.2 (by rwa [length_set])

theorem movedTo_getElem? (h : order.Perm (List.range n)) (hj : order[j]? = some i) : (movedTo order)[i]? = some j := by
  have hlen : order.length = n := by simpa using h.length_eq
  have hnodup : (order.zipIdx.map Prod.fst).Nodup := by
    rw [zipIdx_map_fst]
    exact h.nodup_iff.mpr nodup_range
  have hlt : i < (List.replicate order.length 0).length := by
    rw [length_replicate,hlen]
    exact mem_range.mp (h.subset (mem_of_getElem? hj))
  have hmem : (i,j) ∈ order.zipIdx := mem_zipIdx_iff_getElem?.mpr hj
  exact foldl_set_mem hmem hnodup hlt

end AdbShare.DirEntries

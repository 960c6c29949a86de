import AdbShare.DirEntries
import AdbShare.Transition

/-! The file browser: a listing, the rows of it that are shown, and the indices into it that the
selection, the focus and a running drag hold. Where the pointer is shows only in the slots under it. -/
namespace AdbShare.BrowserView

open DirEntries Transition List

structure Browser where
  entries : List DirEntry
  visible : List ℕ
  selection : Finset ℕ
  focused : Option ℕ
  extendAnchor : Option ℕ
  showHidden : Bool
  sortKey : SortKey
  sortDescending : Bool
  searchQuery : Text
  dragging : Bool
  dragBase : Finset ℕ
  deriving DecidableEq

inductive Extend
  | none | toggle | range
  deriving DecidableEq

inductive Event
  | setEntries (entries : List DirEntry)
  | setError
  | clearLists
  | setSort (key : SortKey) (descending : Bool)
  | setSearchQuery (query : Text)
  | setShowHidden (show_ : Bool)
  | clickRow (index : ℕ) (extend : Extend)
  | focusStep (delta : ℤ) (extend : Bool)
  | jumpFocus (index : ℤ)
  | selectAll
  | deselect
  | dragStart (modifier : Bool) (under : Option (ℕ × ℕ))
  | dragMove (under : Option (ℕ × ℕ))
  | dragEnd
  deriving DecidableEq

namespace Browser

/-- The rows of the slots from `start` up to `stop`. -/
def rows (b : Browser) (start stop : ℕ) : List ℕ := (b.visible.take stop).drop start

/-- The rows under the pointer. -/
def band (b : Browser) (under : Option (ℕ × ℕ)) : List ℕ := under.elim [] fun p => b.rows p.1 p.2

def setError (b : Browser) : Browser :=
  { b with entries := [], selection := ∅, visible := [], extendAnchor := none }

def clearLists (b : Browser) : Browser :=
  { b with entries := [], visible := [], selection := ∅, focused := none, extendAnchor := none }

def extendRange (b : Browser) (anchor index : ℕ) : Browser :=
  match b.visible.idxOf? anchor,b.visible.idxOf? index with
  | some first,some last =>
    let lo := if first ≤ last then first else last
    let hi := if first ≤ last then last else first
    { b with selection := b.selection ∪ (b.rows lo (hi+1)).toFinset }
  | _,_ => b

def clickRow (b : Browser) (index : ℕ) (extend : Extend) : Browser :=
  let only := { b with selection := {index}, extendAnchor := some index }
  let clicked := match extend with
    | .toggle =>
      { b with
        selection := if index ∈ b.selection then b.selection.erase index else insert index b.selection
        extendAnchor := some index }
    | .range =>
      match b.extendAnchor with
      | some anchor => b.extendRange anchor index
      | none => only
    | .none => only
  { clicked with focused := some index }

/-- The row that an arrow key leads to. -/
def nextRow (b : Browser) (delta : ℤ) : Option ℕ :=
  let current := b.focused.bind fun ix => b.visible.idxOf? ix
  let next := match current with
    | some pos => (((pos : ℤ)+delta)%(b.visible.length : ℤ)).toNat
    | none => if delta < 0 then b.visible.length-1 else 0
  b.visible[next]?

def focusStep (b : Browser) (delta : ℤ) (extend : Bool) : Browser :=
  match b.nextRow delta with
  | none => b
  | some index =>
    { b with focused := some index, selection := insert index (if extend then b.selection else ∅) }

/-- The first or the last row. -/
def edgeRow (b : Browser) (index : ℤ) : Option ℕ :=
  b.visible[if index < 0 then b.visible.length-1 else min index.toNat (b.visible.length-1)]?

def jumpFocus (b : Browser) (index : ℤ) : Browser :=
  match b.edgeRow index with
  | none => b
  | some entry => { b with focused := some entry, selection := {entry} }

def selectAll (b : Browser) : Browser := { b with selection := b.visible.toFinset }

def deselect (b : Browser) : Browser := { b with selection := ∅, dragging := false }

def rowContains (b : Browser) (index : ℕ) (under : Option (ℕ × ℕ)) : Bool :=
  match b.visible.idxOf? index,under with
  | some slot,some (start,stop) => decide (start ≤ slot ∧ slot < stop)
  | _,_ => false

def onDragStart (b : Browser) (modifier : Bool) (under : Option (ℕ × ℕ)) : Browser :=
  let onItem := b.visible.any fun ix => b.rowContains ix under
  { b with
    dragging := true
    dragBase := if modifier || onItem then b.selection else ∅
    selection := if !modifier && !onItem then ∅ else b.selection }

def onDragMove (b : Browser) (under : Option (ℕ × ℕ)) : Browser :=
  if b.dragging then { b with selection := b.dragBase ∪ (b.band under).toFinset } else b

def onDragEnd (b : Browser) : Browser := { b with dragging := false, dragBase := ∅ }

section

variable (lower : Text → Text)

/-- Whether the filters let an entry through. -/
def shows (b : Browser) (entry : DirEntry) : Bool :=
  (b.showHidden || decide (entry.name.head? ≠ some '.')) && containsIgnoreCase lower entry.name (lower b.searchQuery)

def recomputeVisible (b : Browser) : Browser :=
  let visible := (b.entries.zipIdx.filter fun p => b.shows lower p.1).map Prod.snd
  { b with
    visible := visible
    selection := b.selection.filter (· ∈ visible)
    focused := b.focused.filter fun ix => decide (ix ∈ visible)
    extendAnchor := b.extendAnchor.filter fun ix => decide (ix ∈ visible) }

def installEntries (b : Browser) (entries : List DirEntry) : Option Browser := do
  let (sorted,_) ← sortEntries lower entries b.sortKey b.sortDescending
  pure (recomputeVisible lower { b with entries := sorted, selection := ∅, focused := none, extendAnchor := none })

def applySort (b : Browser) : Option Browser := do
  let (sorted,order) ← sortEntries lower b.entries b.sortKey b.sortDescending
  let moved := fun index => (movedTo order)[index]?
  pure (recomputeVisible lower
    { b with
      entries := sorted
      selection := b.selection.biUnion fun ix => (moved ix).toFinset
      extendAnchor := b.extendAnchor.bind moved
      focused := b.focused.bind moved })

def setSort (b : Browser) (key : SortKey) (descending : Bool) : Option Browser :=
  applySort lower { b with sortKey := key, sortDescending := descending }

def act (b : Browser) : Event → Option Browser
  | .setEntries entries => b.installEntries lower entries
  | .setError => some b.setError
  | .clearLists => some b.clearLists
  | .setSort key descending => b.setSort lower key descending
  | .setSearchQuery query => some (recomputeVisible lower { b with searchQuery := query })
  | .setShowHidden show_ => some (recomputeVisible lower { b with showHidden := show_ })
  | .clickRow index extend => some (b.clickRow index extend)
  | .focusStep delta extend => some (b.focusStep delta extend)
  | .jumpFocus index => some (b.jumpFocus index)
  | .selectAll => some b.selectAll
  | .deselect => some b.deselect
  | .dragStart modifier under => some (b.onDragStart modifier under)
  | .dragMove under => some (b.onDragMove under)
  | .dragEnd => some b.onDragEnd

end

end Browser

/-- The browser, the listing as it was received, where in it each entry stood, and the entries
that the user has selected since it came. -/
structure View where
  browser : Browser
  reply : List DirEntry
  files : List ℕ
  chosen : Finset ℕ
  deriving DecidableEq

def start : View where
  browser := ⟨[],[],∅,none,none,false,.name,false,[],false,∅⟩
  reply := []
  files := []
  chosen := ∅

/-- What the user points at: a row, all rows between two, or those under the pointer. -/
def picked (b : Browser) : Event → List ℕ
  | .clickRow index .none => [index]
  | .clickRow index .toggle => if index ∈ b.selection then [] else [index]
  | .clickRow index .range =>
    match b.extendAnchor with
    | none => [index]
    | some anchor => b.visible.filter fun i => decide (min anchor index ≤ i ∧ i ≤ max anchor index)
  | .focusStep delta _ => (b.nextRow delta).toList
  | .jumpFocus index => (b.edgeRow index).toList
  | .selectAll => b.visible
  | .dragMove under => if b.dragging then b.band under else []
  | _ => []

/-- Only rows that are shown can be clicked. -/
def legal (b : Browser) : Event → Bool
  | .clickRow index _ => decide (index ∈ b.visible)
  | _ => true

section

variable (lower : Text → Text)

/-- What becomes of the listing. -/
def View.listing (v : View) : Event → List DirEntry × List ℕ × Finset ℕ
  | .setEntries entries =>
    (entries,sortOrder lower entries v.browser.sortKey v.browser.sortDescending,∅)
  | .setError => ([],[],∅)
  | .clearLists => ([],[],∅)
  | .setSort key descending =>
    (v.reply,(sortOrder lower v.browser.entries key descending).filterMap fun i => v.files[i]?,v.chosen)
  | e => (v.reply,v.files,v.chosen ∪ ((picked v.browser e).filterMap fun i => v.files[i]?).toFinset)

def step (v : View) (e : Event) : Option View :=
  if legal v.browser e then
    (v.browser.act lower e).map fun b =>
      let (reply,files,chosen) := v.listing lower e
      ⟨b,reply,files,chosen⟩
  else none

end

/-- The file at an index is one that the user selected in this listing. -/
def View.Chosen (v : View) (i : ℕ) : Prop := ∃ f ∈ v.chosen, v.files[i]? = some f

structure Right (v : View) : Prop where
  increasing : v.browser.visible.Pairwise (· < ·)
  within : ∀ i ∈ v.browser.visible, i < v.browser.entries.length
  selection : ∀ i ∈ v.browser.selection, i ∈ v.browser.visible
  focused : ∀ i ∈ v.browser.focused, i ∈ v.browser.visible
  anchor : ∀ i ∈ v.browser.extendAnchor, i ∈ v.browser.visible
  chosen : ∀ i ∈ v.browser.selection, v.Chosen i

section

variable (lower : Text → Text)

/-- The filters of the browser let through all rows that a running drag began with. -/
def Browser.Shows (b : Browser) : Prop :=
  b.dragging = true → ∀ i ∈ b.dragBase, ∀ entry ∈ b.entries[i]?, b.shows lower entry = true

/-- No drag that began with selected rows is running. -/
def Browser.Still (b : Browser) : Prop := b.dragging = true → b.dragBase = ∅

/-- An error comes when nothing has the focus; and between the start and the end of a drag that began with
selected rows, no reply, error, navigation or sort comes, and no filter hides these rows. -/
def Suits (v : View) : Event → Prop
  | .setError => v.browser.focused = none ∧ v.browser.Still
  | .setEntries _ | .clearLists | .setSort _ _ => v.browser.Still
  | .setSearchQuery query => Browser.Shows lower { v.browser with searchQuery := query }
  | .setShowHidden show_ => Browser.Shows lower { v.browser with showHidden := show_ }
  | _ => True

instance (b : Browser) : Decidable (b.Shows lower) :=
  inferInstanceAs (Decidable (_ → ∀ i ∈ b.dragBase, ∀ entry ∈ b.entries[i]?, _ = true))

instance (b : Browser) : Decidable b.Still := inferInstanceAs (Decidable (_ → _))

instance (v : View) : DecidablePred (Suits lower v)
  | .setError => inferInstanceAs (Decidable (_ ∧ _))
  | .setEntries _ | .clearLists | .setSort _ _ => inferInstanceAs (Decidable v.browser.Still)
  | .setSearchQuery _ | .setShowHidden _ => inferInstanceAs (Decidable (Browser.Shows lower _))
  | .clickRow _ _ | .focusStep _ _ | .jumpFocus _ | .selectAll | .deselect | .dragStart _ _ | .dragMove _ | .dragEnd =>
    .isTrue trivial

end

/-- The files are the places of the entries in the reply. -/
structure Traced (v : View) : Prop where
  perm : v.files.Perm (List.range v.reply.length)
  entries : v.browser.entries.map some = v.files.map fun i => v.reply[i]?

/-- A row that is selected, or will be again when the pointer moves. -/
def Browser.Kept (b : Browser) (i : ℕ) : Prop := i ∈ b.selection ∨ b.dragging = true ∧ i ∈ b.dragBase

/-- The rows that a drag began with are such as may be selected. -/
structure Sound (v : View) : Prop extends Right v, Traced v where
  base : v.browser.dragging = true → ∀ i ∈ v.browser.dragBase, i ∈ v.browser.visible ∧ v.Chosen i

variable {v : View} {b : Browser} {e : Event}

open Browser

section

variable (lower : Text → Text)

theorem visible_recompute (b : Browser) : (b.recomputeVisible lower).visible =
    (List.range b.entries.length).filter fun i => (b.entries[i]?).any (b.shows lower) := by
  rw [range_eq_range',← zipIdx_map_snd 0 b.entries,filter_map]
  refine congrArg (List.map Prod.snd) (filter_congr fun p hp => ?_)
  rw [Function.comp_apply,mem_zipIdx_iff_getElem?.mp hp,Option.any_some]

theorem within_recompute (b : Browser) : ∀ i ∈ (b.recomputeVisible lower).visible, i < b.entries.length := by
  rw [visible_recompute]
  exact fun i hi => mem_range.mp (mem_filter.mp hi).1

/-- After a change of the filters or the entries only the files matter. -/
theorem right_recompute (hv : v.browser = b.recomputeVisible lower) (h : ∀ i ∈ b.selection, v.Chosen i) : Right v where
  increasing := by
    rw [hv,visible_recompute]
    exact pairwise_lt_range.filter _
  within := by
    rw [hv]
    exact within_recompute lower b
  selection := by
    rw [hv]
    exact fun i hi => (Finset.mem_filter.mp hi).2
  focused := by
    rw [hv]
    exact fun i hi => of_decide_eq_true (Option.mem_filter_iff.mp hi).2
  anchor := by
    rw [hv]
    exact fun i hi => of_decide_eq_true (Option.mem_filter_iff.mp hi).2
  chosen := by
    rw [hv]
    exact fun i hi => h i (Finset.mem_filter.mp hi).1

theorem installEntries_eq (b : Browser) (entries : List DirEntry) :
    ∃ sorted, b.installEntries lower entries = some (recomputeVisible lower
        { b with entries := sorted, selection := ∅, focused := none, extendAnchor := none }) ∧
      sorted.map some = (sortOrder lower entries b.sortKey b.sortDescending).map fun i => entries[i]? := by
  obtain ⟨sorted,hsorted,hmap⟩ := sortEntries_eq lower entries b.sortKey b.sortDescending
  exact ⟨sorted,by simp [installEntries,hsorted],hmap⟩

theorem setSort_eq (b : Browser) (key : SortKey) (descending : Bool) :
    let order := sortOrder lower b.entries key descending
    ∃ sorted, b.setSort lower key descending = some (recomputeVisible lower { b with
          entries := sorted
          selection := b.selection.biUnion fun ix => (movedTo order)[ix]?.toFinset
          extendAnchor := b.extendAnchor.bind fun ix => (movedTo order)[ix]?
          focused := b.focused.bind fun ix => (movedTo order)[ix]?
          sortKey := key
          sortDescending := descending }) ∧
      sorted.map some = order.map fun i => b.entries[i]? := by
  obtain ⟨sorted,hsorted,hmap⟩ := sortEntries_eq lower b.entries key descending
  exact ⟨sorted,by simp [setSort,applySort,hsorted],hmap⟩

end

section

variable {α : Type} {files : List α} {order : List ℕ}

theorem map_some_filterMap (h : ∀ i ∈ order, i < files.length) :
    (order.filterMap fun i => files[i]?).map some = order.map fun i => files[i]? := by
  induction order with
  | nil => rfl
  | cons i is ih =>
    have hi := getElem?_eq_getElem (h i mem_cons_self)
    rw [filterMap_cons,hi,map_cons,map_cons,hi,ih fun j hj => h j (mem_cons_of_mem _ hj)]

theorem filterMap_range (files : List α) : ((List.range files.length).filterMap fun i => files[i]?) = files := by
  have h : ((List.range files.length).filterMap fun i => files[i]?).map some = _ :=
    map_some_filterMap fun i => mem_range.mp
  refine map_injective_iff.mpr (Option.some_injective α) (h.trans ?_)
  exact ext_getElem? fun i => by by_cases hi : i < files.length <;> simp [hi]

theorem getElem?_filterMap (h : ∀ i ∈ order, i < files.length) (j : ℕ) :
    (order.filterMap fun i => files[i]?)[j]? = order[j]?.bind fun i => files[i]? := by
  have hj := congrArg (fun l : List (Option α) => l[j]?) (map_some_filterMap h)
  cases hget : (order.filterMap fun i => files[i]?)[j]? <;> cases horder : order[j]? <;> simp_all

end

theorem Traced.length (h : Traced v) : v.files.length = v.browser.entries.length := by
  simpa using (congrArg List.length h.entries).symm

theorem View.Chosen.more {i : ℕ} {reply : List DirEntry} {added : Finset ℕ} (h : v.Chosen i) :
    View.Chosen ⟨b,reply,v.files,v.chosen ∪ added⟩ i := by
  obtain ⟨f,hf,hfi⟩ := h
  exact ⟨f,Finset.mem_union_left _ hf,hfi⟩

theorem Sound.kept {i : ℕ} (h : Sound v) (hi : v.browser.Kept i) : i ∈ v.browser.visible ∧ v.Chosen i :=
  hi.elim (fun hi => ⟨h.selection i hi,h.chosen i hi⟩) fun hi => h.base hi.1 i hi.2

section

variable {delta index : ℤ} {i lo hi a c n anchor : ℕ} {l : List ℕ}

theorem rows_subset (start stop : ℕ) : ∀ i ∈ b.rows start stop, i ∈ b.visible :=
  fun _ hi => mem_of_mem_take (mem_of_mem_drop hi)

theorem band_subset (under : Option (ℕ × ℕ)) : ∀ i ∈ b.band under, i ∈ b.visible := by
  cases under with
  | none => exact fun i hi => absurd hi not_mem_nil
  | some p => exact rows_subset p.1 p.2

theorem picked_subset (hlegal : legal b e) : ∀ i ∈ picked b e, i ∈ b.visible := by
  intro i hi
  cases e with
  | clickRow index extend =>
    have hindex : index ∈ b.visible := of_decide_eq_true hlegal
    cases extend with
    | none =>
      obtain rfl := mem_singleton.mp hi
      exact hindex
    | toggle =>
      rw [picked] at hi
      split at hi
      · cases hi
      · obtain rfl := mem_singleton.mp hi
        exact hindex
    | range =>
      rw [picked] at hi
      split at hi
      · obtain rfl := mem_singleton.mp hi
        exact hindex
      · exact (mem_filter.mp hi).1
  | focusStep delta extend => exact mem_of_getElem? (Option.mem_toList.mp hi)
  | jumpFocus index => exact mem_of_getElem? (Option.mem_toList.mp hi)
  | selectAll => exact hi
  | dragMove under =>
    rw [picked] at hi
    split at hi
    · exact band_subset under i hi
    · cases hi
  | _ => cases hi

theorem between_of_mem_rows (hincreasing : b.visible.Pairwise (· < ·)) (ha : b.visible[lo]? = some a)
    (hc : b.visible[hi]? = some c) (h : i ∈ b.rows lo (hi+1)) : a ≤ i ∧ i ≤ c := by
  obtain ⟨k,hk⟩ := getElem?_of_mem h
  rw [rows,getElem?_drop,getElem?_take] at hk
  split at hk
  · rename_i hlt
    obtain ⟨hlo,rfl⟩ := List.getElem?_eq_some_iff.mp ha
    obtain ⟨hhi,rfl⟩ := List.getElem?_eq_some_iff.mp hc
    obtain ⟨hmid,rfl⟩ := List.getElem?_eq_some_iff.mp hk
    have hmono := List.pairwise_iff_getElem.mp hincreasing
    constructor
    · obtain heq | hlt' := (Nat.le_add_right lo k).eq_or_lt
      · simp [← heq]
      · exact (hmono lo (lo+k) hlo hmid hlt').le
    · obtain heq | hlt' := (Nat.lt_succ_iff.mp hlt).eq_or_lt
      · simp [heq]
      · exact (hmono (lo+k) hi hmid hhi hlt').le
  · cases hk

theorem getElem?_of_idxOf? (h : l.idxOf? a = some n) : l[n]? = some a := by
  rw [List.idxOf?,findIdx?_eq_some_iff_getElem] at h
  obtain ⟨hn,heq,-⟩ := h
  rw [getElem?_eq_getElem hn,beq_iff_eq.mp heq]

theorem mem_extendRange (hincreasing : b.visible.Pairwise (· < ·)) {index : ℕ}
    (h : i ∈ (b.extendRange anchor index).selection) :
    i ∈ b.selection ∨ i ∈ b.visible ∧ min anchor index ≤ i ∧ i ≤ max anchor index := by
  unfold extendRange at h
  split at h
  · rename_i first last hfirst hlast
    obtain h | h := Finset.mem_union.mp h
    · exact .inl h
    rw [mem_toFinset] at h
    refine .inr ⟨rows_subset _ _ i h,?_⟩
    have ha := getElem?_of_idxOf? hfirst
    have hc := getElem?_of_idxOf? hlast
    by_cases hle : first ≤ last
    · rw [if_pos hle,if_pos hle] at h
      obtain ⟨h₁,h₂⟩ := between_of_mem_rows hincreasing ha hc h
      exact ⟨(min_le_left _ _).trans h₁,h₂.trans (le_max_right _ _)⟩
    · rw [if_neg hle,if_neg hle] at h
      obtain ⟨h₁,h₂⟩ := between_of_mem_rows hincreasing hc ha h
      exact ⟨(min_le_right _ _).trans h₁,h₂.trans (le_max_left _ _)⟩
  · exact .inl h

end

section

variable {lower : Text → Text} {t : View} {key : SortKey} {descending : Bool} {sorted : List DirEntry}
  {chosen : Finset ℕ}

theorem extendRange_frame (b : Browser) (anchor index : ℕ) :
    ∃ selection, b.extendRange anchor index = { b with selection := selection } := by
  unfold extendRange
  split <;> exact ⟨_,rfl⟩

theorem clickRow_frame (b : Browser) (index : ℕ) (extend : Extend) : ∃ selection extendAnchor, b.clickRow index extend =
    { b with selection := selection, extendAnchor := extendAnchor, focused := some index } := by
  unfold clickRow
  cases extend with
  | none | toggle => exact ⟨_,_,rfl⟩
  | range =>
    cases b.extendAnchor with
    | none => exact ⟨_,_,rfl⟩
    | some anchor =>
      obtain ⟨selection,hrange⟩ := extendRange_frame b anchor index
      exact ⟨selection,b.extendAnchor,by simp only [hrange]⟩

theorem step_eq_some_iff : step lower v e = some t ↔ legal v.browser e ∧ ∃ b, v.browser.act lower e = some b ∧
      ⟨b,(v.listing lower e).1,(v.listing lower e).2.1,(v.listing lower e).2.2⟩ = t := by
  unfold step
  split <;> simp_all

theorem traced_sort (hv : Traced v)
    (h : sorted.map some = (sortOrder lower v.browser.entries key descending).map fun i => v.browser.entries[i]?)
    (hb : b.entries = sorted) :
    Traced ⟨b,v.reply,(sortOrder lower v.browser.entries key descending).filterMap fun i => v.files[i]?,chosen⟩ := by
  have hperm := sortOrder_perm lower v.browser.entries key descending
  rw [← hv.length] at hperm
  have hlt : ∀ i ∈ sortOrder lower v.browser.entries key descending, i < v.files.length :=
    fun i hi => mem_range.mp (hperm.subset hi)
  constructor
  · have hfiles := hperm.filterMap fun i : ℕ => v.files[i]?
    rw [filterMap_range] at hfiles
    exact hfiles.trans hv.perm
  · show b.entries.map some = _
    rw [hb,h]
    refine ext_getElem? fun j => ?_
    rw [getElem?_map,getElem?_map,getElem?_filterMap hlt]
    cases hj : (sortOrder lower v.browser.entries key descending)[j]? with
    | none => rfl
    | some i =>
      have hi := congrArg (fun l : List (Option DirEntry) => l[i]?) hv.entries
      have hfile := getElem?_eq_getElem (hlt i (mem_of_getElem? hj))
      simp only [getElem?_map,hfile,Option.map_some] at hi
      simp only [Option.map_some,Option.bind_some,hfile]
      cases hentry : v.browser.entries[i]? <;> simp_all

theorem traced_step (hv : Traced v) (h : step lower v e = some t) : Traced t := by
  obtain ⟨-,b,hb,rfl⟩ := step_eq_some_iff.mp h
  cases e with
  | setEntries entries =>
    obtain ⟨sorted,hinstall,hmap⟩ := installEntries_eq lower v.browser entries
    obtain rfl := Option.some.inj (hinstall.symm.trans hb)
    exact ⟨sortOrder_perm _ _ _ _,hmap⟩
  | setError | clearLists =>
    cases hb
    exact ⟨List.Perm.refl _,rfl⟩
  | setSort key descending =>
    obtain ⟨sorted,hsort,hmap⟩ := setSort_eq lower v.browser key descending
    obtain rfl := Option.some.inj (hsort.symm.trans hb)
    exact traced_sort hv hmap rfl
  | clickRow index extend =>
    cases hb
    obtain ⟨selection,anchor,hclick⟩ := clickRow_frame v.browser index extend
    exact ⟨hv.perm,hclick ▸ hv.entries⟩
  | focusStep delta extend =>
    cases hb
    unfold focusStep
    split <;> exact ⟨hv.perm,hv.entries⟩
  | jumpFocus index =>
    cases hb
    unfold jumpFocus
    split <;> exact ⟨hv.perm,hv.entries⟩
  | dragMove under =>
    cases hb
    unfold onDragMove
    split <;> exact ⟨hv.perm,hv.entries⟩
  | _ =>
    cases hb
    exact ⟨hv.perm,hv.entries⟩

section

variable (hv : Sound v) {index j : ℕ} {extend : Extend} {row : Option ℕ}
include hv

theorem sound_select (hlegal : legal v.browser e) (hlisting : v.listing lower e =
      (v.reply,v.files,v.chosen ∪ ((picked v.browser e).filterMap fun i => v.files[i]?).toFinset))
    (hkeep : b.entries = v.browser.entries ∧ b.visible = v.browser.visible)
    (hselection : ∀ i ∈ b.selection, v.browser.Kept i ∨ i ∈ picked v.browser e)
    (hfocused : ∀ i ∈ b.focused, i ∈ v.browser.visible) (hanchor : ∀ i ∈ b.extendAnchor, i ∈ v.browser.visible)
    (hbase : b.dragging = true → ∀ i ∈ b.dragBase, v.browser.Kept i) :
    Sound ⟨b,(v.listing lower e).1,(v.listing lower e).2.1,(v.listing lower e).2.2⟩ := by
  have hvisible : ∀ i ∈ b.selection, i ∈ v.browser.visible := fun i hi =>
    (hselection i hi).elim (fun hkept => (hv.kept hkept).1) (picked_subset hlegal i)
  rw [hlisting]
  refine ⟨⟨?_,?_,?_,?_,?_,fun i hi => ?_⟩,⟨hv.perm,hkeep.1 ▸ hv.entries⟩,fun hdrag i hi => ⟨?_,(hv.kept (hbase hdrag i hi)).2.more⟩⟩
  · simpa [hkeep.2] using hv.increasing
  · simpa [hkeep.1,hkeep.2] using hv.within
  · simpa [hkeep.2] using hvisible
  · simpa [hkeep.2] using hfocused
  · simpa [hkeep.2] using hanchor
  · have hfile : v.files[i]? = some _ :=
      getElem?_eq_getElem (hv.length ▸ hv.within i (hvisible i hi))
    obtain hold | hnew := hselection i hi
    · exact (hv.kept hold).2.more
    · exact ⟨_,Finset.mem_union_right _ (mem_toFinset.mpr (mem_filterMap.mpr ⟨i,hnew,hfile⟩)),hfile⟩
  · simpa [hkeep.2] using (hv.kept (hbase hdrag i hi)).1

theorem sound_clickRow (hlegal : legal v.browser (.clickRow index extend)) :
    Sound ⟨v.browser.clickRow index extend,(v.listing lower (.clickRow index extend)).1,
      (v.listing lower (.clickRow index extend)).2.1,(v.listing lower (.clickRow index extend)).2.2⟩ := by
  have hindex : index ∈ v.browser.visible := of_decide_eq_true hlegal
  have hsome : ∀ i ∈ some index, i ∈ v.browser.visible := by
    rintro i ⟨⟩
    exact hindex
  obtain ⟨selection,anchor,hclick⟩ := clickRow_frame v.browser index extend
  refine sound_select hv hlegal rfl (hclick ▸ ⟨rfl,rfl⟩) ?_ hsome ?_ (hclick ▸ fun hdrag i hi => .inr ⟨hdrag,hi⟩)
  · intro i hi
    cases extend with
    | none => exact .inr (mem_singleton.mpr (Finset.mem_singleton.mp hi))
    | toggle =>
      simp only [clickRow] at hi
      split at hi
      · exact .inl (.inl (Finset.mem_of_mem_erase hi))
      rename_i hnot
      obtain rfl | hi := Finset.mem_insert.mp hi
      · exact .inr (by simp [picked,hnot])
      · exact .inl (.inl hi)
    | range =>
      simp only [clickRow,picked] at hi ⊢
      cases hanchor : v.browser.extendAnchor with
      | none =>
        rw [hanchor] at hi
        exact .inr (mem_singleton.mpr (Finset.mem_singleton.mp hi))
      | some anchor =>
        rw [hanchor] at hi
        refine (mem_extendRange hv.increasing hi).imp .inl fun h => ?_
        exact mem_filter.mpr ⟨h.1,decide_eq_true h.2⟩
  · intro i hi
    cases extend with
    | none => exact hsome i hi
    | toggle => exact hsome i hi
    | range =>
      simp only [clickRow] at hi
      cases hanchor : v.browser.extendAnchor with
      | none =>
        rw [hanchor] at hi
        exact hsome i hi
      | some anchor =>
        rw [hanchor] at hi
        obtain ⟨selection,hrange⟩ := extendRange_frame v.browser anchor index
        simp only [hrange] at hi
        exact hv.anchor i hi

theorem sound_focus (hlegal : legal v.browser e) (hlisting : v.listing lower e =
      (v.reply,v.files,v.chosen ∪ ((picked v.browser e).filterMap fun i => v.files[i]?).toFinset))
    (hpicked : picked v.browser e = row.toList) (hnone : row = none → b = v.browser)
    (hsome : ∀ i, row = some i → ∃ selection ⊆ insert i v.browser.selection,
      b = { v.browser with focused := some i, selection := selection }) :
    Sound ⟨b,(v.listing lower e).1,(v.listing lower e).2.1,(v.listing lower e).2.2⟩ := by
  cases row with
  | none =>
    obtain rfl := hnone rfl
    exact sound_select hv hlegal hlisting ⟨rfl,rfl⟩ (fun _ hi => .inl (.inl hi)) hv.focused hv.anchor
      fun hdrag i hi => .inr ⟨hdrag,hi⟩
  | some i =>
    obtain ⟨selection,hsub,rfl⟩ := hsome i rfl
    have hi : i ∈ picked v.browser e := by simp [hpicked]
    refine sound_select hv hlegal hlisting ⟨rfl,rfl⟩ (fun j hj => ?_) ?_ hv.anchor fun hdrag j hj => .inr ⟨hdrag,hj⟩
    · obtain rfl | hj := Finset.mem_insert.mp (hsub hj)
      · exact .inr hi
      · exact .inl (.inl hj)
    · rintro j ⟨⟩
      exact picked_subset hlegal i hi

theorem chosen_sort (hj : j ∈ v.browser.selection.biUnion fun ix =>
      (movedTo (sortOrder lower v.browser.entries key descending))[ix]?.toFinset) :
    View.Chosen ⟨b,v.reply,(sortOrder lower v.browser.entries key descending).filterMap fun i => v.files[i]?,v.chosen⟩ j := by
  have hperm := sortOrder_perm lower v.browser.entries key descending
  obtain ⟨i,hi,hmoved⟩ := Finset.mem_biUnion.mp hj
  rw [Option.mem_toFinset] at hmoved
  have hlt := hv.within i (hv.selection i hi)
  obtain ⟨k,hk⟩ := getElem?_of_mem (hperm.symm.subset (mem_range.mpr hlt))
  cases (movedTo_getElem? hperm hk).symm.trans hmoved
  obtain ⟨f,hf,hfi⟩ := hv.chosen i hi
  refine ⟨f,hf,?_⟩
  rw [getElem?_filterMap (fun i hi => hv.length ▸ mem_range.mp (hperm.subset hi)),hk,Option.bind_some,hfi]

theorem sound_filter (hentries : b.entries = v.browser.entries) (hselection : b.selection = v.browser.selection)
    (hdrag : b.dragging = v.browser.dragging ∧ b.dragBase = v.browser.dragBase) (hshows : b.Shows lower) :
    Sound ⟨b.recomputeVisible lower,v.reply,v.files,v.chosen ∪ ([] : List ℕ).toFinset⟩ := by
  refine ⟨right_recompute lower rfl fun i hi => (hv.chosen i (hselection ▸ hi)).more,⟨hv.perm,?_⟩,?_⟩
  · exact (congrArg (List.map some) hentries).trans hv.entries
  · intro hdragging i hi
    obtain ⟨hvisible,hfile⟩ := hv.base (hdrag.1 ▸ hdragging) i (hdrag.2 ▸ hi)
    have hlt : i < b.entries.length := hentries ▸ hv.within i hvisible
    refine ⟨?_,hfile.more⟩
    show i ∈ (b.recomputeVisible lower).visible
    rw [visible_recompute]
    refine mem_filter.mpr ⟨mem_range.mpr hlt,?_⟩
    rw [getElem?_eq_getElem hlt]
    exact hshows hdragging i hi _ (getElem?_eq_getElem hlt)

theorem sound_step (hsuits : Suits lower v e) (h : step lower v e = some t) : Sound t := by
  have ht := traced_step hv.toTraced h
  have hstill : v.browser.Still → v.browser.dragging = true → ∀ i ∈ v.browser.dragBase, False := by
    intro h hdrag i hi
    rw [h hdrag] at hi
    exact Finset.notMem_empty i hi
  obtain ⟨hlegal,b,hb,rfl⟩ := step_eq_some_iff.mp h
  cases e with
  | setError =>
    cases hb
    have hfocused : ∀ i ∈ v.browser.focused, i ∈ ([] : List ℕ) := by simp [hsuits.1]
    exact ⟨⟨List.Pairwise.nil,nofun,nofun,hfocused,nofun,nofun⟩,ht,fun hdrag i hi => (hstill hsuits.2 hdrag i hi).elim⟩
  | clearLists =>
    cases hb
    exact ⟨⟨List.Pairwise.nil,nofun,nofun,nofun,nofun,nofun⟩,ht,fun hdrag i hi => (hstill hsuits hdrag i hi).elim⟩
  | setEntries entries =>
    obtain ⟨sorted,hinstall,-⟩ := installEntries_eq lower v.browser entries
    obtain rfl := Option.some.inj (hinstall.symm.trans hb)
    exact ⟨right_recompute lower rfl fun i hi => absurd hi (Finset.notMem_empty i),ht,
      fun hdrag i hi => (hstill hsuits hdrag i hi).elim⟩
  | setSort key descending =>
    obtain ⟨sorted,hsort,-⟩ := setSort_eq lower v.browser key descending
    obtain rfl := Option.some.inj (hsort.symm.trans hb)
    exact ⟨right_recompute lower rfl fun j hj => chosen_sort hv hj,ht,
      fun hdrag i hi => (hstill hsuits hdrag i hi).elim⟩
  | setSearchQuery query | setShowHidden show_ =>
    cases hb
    exact sound_filter hv rfl rfl ⟨rfl,rfl⟩ hsuits
  | clickRow index extend =>
    cases hb
    exact sound_clickRow hv hlegal
  | focusStep delta extend =>
    cases hb
    have hsub : (if extend then v.browser.selection else ∅) ⊆ v.browser.selection := by split <;> simp
    refine sound_focus hv hlegal rfl rfl (fun hrow => ?_) fun i hrow => ⟨_,Finset.insert_subset_insert i hsub,?_⟩
    · simp [focusStep,hrow]
    · simp [focusStep,hrow]
  | jumpFocus index =>
    cases hb
    refine sound_focus hv hlegal rfl rfl (fun hrow => ?_) fun i hrow => ⟨{i},?_,?_⟩
    · simp [jumpFocus,hrow]
    · exact Finset.singleton_subset_iff.mpr (Finset.mem_insert_self i _)
    · simp [jumpFocus,hrow]
  | selectAll =>
    cases hb
    exact sound_select hv hlegal rfl ⟨rfl,rfl⟩ (fun i hi => .inr (mem_toFinset.mp hi)) hv.focused hv.anchor
      fun hdrag i hi => .inr ⟨hdrag,hi⟩
  | deselect =>
    cases hb
    exact sound_select hv hlegal rfl ⟨rfl,rfl⟩ (fun i hi => absurd hi (Finset.notMem_empty i)) hv.focused hv.anchor nofun
  | dragStart modifier under =>
    cases hb
    refine sound_select hv hlegal rfl ⟨rfl,rfl⟩ (fun i hi => ?_) hv.focused hv.anchor fun _ i hi => ?_
    · simp only [onDragStart] at hi
      split at hi
      · exact absurd hi (Finset.notMem_empty i)
      · exact .inl (.inl hi)
    · simp only [onDragStart] at hi
      split at hi
      · exact .inl hi
      · exact absurd hi (Finset.notMem_empty i)
  | dragMove under =>
    cases hb
    unfold onDragMove
    split
    · rename_i hdrag
      refine sound_select hv hlegal rfl ⟨rfl,rfl⟩ (fun i hi => ?_) hv.focused hv.anchor fun _ i hi => .inr ⟨hdrag,hi⟩
      obtain hi | hi := Finset.mem_union.mp hi
      · exact .inl (.inr ⟨hdrag,hi⟩)
      · exact .inr (by rwa [picked,if_pos hdrag,← mem_toFinset])
    · exact sound_select hv hlegal rfl ⟨rfl,rfl⟩ (fun _ hi => .inl (.inl hi)) hv.focused hv.anchor
        fun hdrag i hi => .inr ⟨hdrag,hi⟩
  | dragEnd =>
    cases hb
    exact sound_select hv hlegal rfl ⟨rfl,rfl⟩ (fun _ hi => .inl (.inl hi)) hv.focused hv.anchor nofun

end

end

/-- In every sequence of events the rows shown are an increasing list of entries, the selection, the focus
and the anchor are rows shown, and only files that the user selected in the present listing are
selected, if no error comes while a row has the focus and nothing moves or hides the rows that a drag began with
while it lasts. -/
theorem always_right {lower : Text → Text} {events : List Event} (h : Meets (step lower) (Suits lower) start events) :
    Always (step lower) Right start events :=
  always_of_meets (fun _ _ _ hv hsuits hstep => sound_step hv hsuits hstep) (fun _ hv => hv.toRight)
    ⟨⟨.nil,nofun,nofun,nofun,nofun,nofun⟩,⟨.refl _,rfl⟩,nofun⟩ h

def file (name : Char) (size : ℕ) : DirEntry := ⟨[name],false,size,0⟩

/-- Two files are listed, the first is clicked, the listing is sorted by size, and both are drawn over, while a
filter comes that lets them through. -/
def selected : List Event :=
  [.setEntries [file 'b' 1,file 'a' 2],.clickRow 0 .none,.setSort .size false,.dragStart true none,
    .dragMove (some (0,1)),.setShowHidden true,.dragMove (some (0,2)),.dragEnd]

theorem always_right_selected : (exec (step id) start selected).isSome ∧ Always (step id) Right start selected :=
  ⟨by decide +kernel,always_right (meets_of_check (fun _ _ => of_decide_eq_true) (by decide +kernel))⟩

/-- The file `z`, selected though the user selected another one in the listing before. -/
def strayed : View :=
  ⟨⟨[file 'z' 1],[0],{0},none,none,false,.name,false,[],true,{0}⟩,[file 'z' 1],[0],∅⟩

/-- An empty listing with the focus on its first row. -/
def unfocused : View := ⟨⟨[],[],∅,some 0,none,false,.name,false,[],false,∅⟩,[],[],∅⟩

/-- A reply that comes during a drag, and an error while a row has the focus. -/
theorem selection_strays :
    exec (step id) start [.setEntries [file 'a' 1],.clickRow 0 .none,.dragStart true none,.setEntries [file 'z' 1],
      .dragMove none] = some strayed ∧ ¬Right strayed ∧
    exec (step id) start [.setEntries [file 'a' 1],.clickRow 0 .none,.setError] = some unfocused ∧
      ¬Right unfocused := by
  refine ⟨by decide +kernel,fun h => ?_,by decide +kernel,fun h => ?_⟩
  · obtain ⟨f,hf,-⟩ := h.chosen 0 (Finset.mem_singleton_self 0)
    exact absurd hf (Finset.notMem_empty f)
  · exact absurd (h.focused 0 rfl) not_mem_nil

end AdbShare.BrowserView

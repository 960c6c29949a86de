import AdbShare.TextOffsets
import AdbShare.Transition

/-! The text field: its selection and the text that an input method has marked are ranges of bytes,
while the input method counts in UTF-16. -/
namespace AdbShare.TextInput

open TextOffsets Transition

structure TextField where
  content : List Char
  selectedRange : ℕ × ℕ
  selectionReversed : Bool
  markedRange : Option (ℕ × ℕ)
  isSelecting : Bool
  deriving DecidableEq

/-- A field filled with the value, all of it selected. -/
def withValue (value : List Char) : TextField := ⟨value,(0,byteLen value),false,none,false⟩

inductive Op
  | left
  | right
  | selectLeft
  | selectRight
  | selectAll
  | home
  | end_
  | backspace
  | delete
  /-- With the text on the clipboard, if there is any. -/
  | paste (clipboard : Option (List Char))
  | mouseDown (index : ℕ) (shift : Bool)
  | mouseMove (index : ℕ)
  | mouseUp
  | setValue (value : List Char)
  | selectEverything
  | replaceTextInRange (rangeUtf16 : Option (ℕ × ℕ)) (newText : List Char)
  | replaceAndMarkTextInRange (rangeUtf16 : Option (ℕ × ℕ)) (newText : List Char)
      (newSelectedRangeUtf16 : Option (ℕ × ℕ))
  | unmarkText
  deriving DecidableEq

section

variable (f : TextField)

def moveTo (offset : ℕ) : TextField := { f with selectedRange := (offset,offset), selectionReversed := false }

def cursorOffset : ℕ := if f.selectionReversed then f.selectedRange.1 else f.selectedRange.2

def selectTo (offset : ℕ) : TextField :=
  let r := if f.selectionReversed then (offset,f.selectedRange.2) else (f.selectedRange.1,offset)
  if r.2 < r.1 then { f with selectedRange := (r.2,r.1), selectionReversed := !f.selectionReversed }
  else { f with selectedRange := r }

/-- `content[0..start] + new_text + content[end..]`; none where the slices panic. -/
def spliced (range : ℕ × ℕ) (newText : List Char) : Option (List Char) := do
  let before ← cutAt f.content range.1
  let after ← cutAt f.content range.2
  return before.1++newText++after.2

/-- The range given, else the marked one, else the selection. -/
def targetRange (range : Option (ℕ × ℕ)) : ℕ × ℕ := (range.or f.markedRange).getD f.selectedRange

def replace (range : Option (ℕ × ℕ)) (newText : List Char) : Option TextField := do
  let range := targetRange f range
  let content ← spliced f range newText
  let stop := range.1+byteLen newText
  return { f with content, selectedRange := (stop,stop), markedRange := none }

def rangeFromUtf16 (cs : List Char) (r : ℕ × ℕ) : ℕ × ℕ := (utf16ToUtf8 cs r.1,utf16ToUtf8 cs r.2)

def replaceAndMark (rangeUtf16 : Option (ℕ × ℕ)) (newText : List Char) (newSelectedRangeUtf16 : Option (ℕ × ℕ)) :
    Option TextField := do
  let range := targetRange f (rangeUtf16.map (rangeFromUtf16 f.content))
  let content ← spliced f range newText
  let markedRange := if newText = [] then none else some (range.1,range.1+byteLen newText)
  let selectedRange :=
    match newSelectedRangeUtf16 with
    | some r =>
      let r := rangeFromUtf16 content r
      (range.1+r.1,range.1+r.2)
    | none => (range.1+byteLen newText,range.1+byteLen newText)
  return { f with content, markedRange, selectedRange }

def setValue (value : List Char) : TextField :=
  { f with content := value, selectedRange := (byteLen value,byteLen value) }

variable (graphemes : List Char → List ℕ)

/-- `graphemes` are the starts of the grapheme clusters. -/
def previousBoundary (offset : ℕ) : ℕ := ((graphemes f.content).reverse.find? fun i => decide (i < offset)).getD 0

def nextBoundary (offset : ℕ) : ℕ :=
  ((graphemes f.content).find? fun i => decide (i > offset)).getD (byteLen f.content)

def selectionIsEmpty : Bool := decide (f.selectedRange.2 ≤ f.selectedRange.1)

def left : TextField :=
  if selectionIsEmpty f then moveTo f (previousBoundary f graphemes (cursorOffset f))
  else moveTo f f.selectedRange.1

def right : TextField :=
  if selectionIsEmpty f then moveTo f (nextBoundary f graphemes f.selectedRange.2)
  else moveTo f f.selectedRange.2

def backspace : Option TextField :=
  replace (if selectionIsEmpty f then selectTo f (previousBoundary f graphemes (cursorOffset f)) else f) none []

def delete : Option TextField :=
  replace (if selectionIsEmpty f then selectTo f (nextBoundary f graphemes f.selectedRange.2) else f) none []

def selectAll : TextField := selectTo (moveTo f 0) (byteLen f.content)

/-- What an operation does; none where it panics. -/
def apply : Op → Option TextField
  | .left => some (left f graphemes)
  | .right => some (right f graphemes)
  | .selectLeft => some (selectTo f (previousBoundary f graphemes (cursorOffset f)))
  | .selectRight => some (selectTo f (nextBoundary f graphemes (cursorOffset f)))
  | .selectAll => some (selectAll f)
  | .home => some (moveTo f 0)
  | .end_ => some (moveTo f (byteLen f.content))
  | .backspace => backspace f graphemes
  | .delete => delete f graphemes
  | .paste none => some f
  | .paste (some text) => replace f none (text.map fun c => if c = '\n' then ' ' else c)
  | .mouseDown index shift =>
    let f := { f with isSelecting := true }
    some (if shift then selectTo f index else moveTo f index)
  | .mouseMove index => some (if f.isSelecting then selectTo f index else f)
  | .mouseUp => some { f with isSelecting := false }
  | .setValue value => some (setValue f value)
  | .selectEverything => some (selectAll f)
  | .replaceTextInRange rangeUtf16 newText => replace f (rangeUtf16.map (rangeFromUtf16 f.content)) newText
  | .replaceAndMarkTextInRange rangeUtf16 newText newSelectedRangeUtf16 =>
    replaceAndMark f rangeUtf16 newText newSelectedRangeUtf16
  | .unmarkText => some { f with markedRange := none }

end

/-- A range of units inside a text. -/
def inText (cs : List Char) (r : ℕ × ℕ) : Bool := decide (r.1 ≤ r.2 ∧ r.2 ≤ utf16Len cs)

/-- The mouse points between characters, and ranges lie in the text they refer to. -/
def legal (f : TextField) : Op → Bool
  | .mouseDown index _ | .mouseMove index => isBoundary f.content index
  | .replaceTextInRange rangeUtf16 _ => rangeUtf16.all (inText f.content)
  | .replaceAndMarkTextInRange rangeUtf16 newText newSelectedRangeUtf16 =>
    rangeUtf16.all (inText f.content) && newSelectedRangeUtf16.all (inText newText)
  | _ => true

/-- The range of the inserted text that the last operation asked to be selected, as bytes of the content. -/
def asked (f : TextField) : Op → Option (ℕ × ℕ)
  | .replaceAndMarkTextInRange rangeUtf16 newText (some r) =>
    let start := (targetRange f (rangeUtf16.map (rangeFromUtf16 f.content))).1
    some (start+utf16ToUtf8 newText r.1,start+utf16ToUtf8 newText r.2)
  | _ => none

/-- A field in use: it has crashed, or is there with what the last operation asked for. -/
inductive View
  | crashed
  | live (f : TextField) (request : Option (ℕ × ℕ))
  deriving DecidableEq

def step (graphemes : List Char → List ℕ) : View → Op → Option View
  | .crashed, _ => some .crashed
  | .live f _, op =>
    if legal f op then
      match apply f graphemes op with
      | none => some .crashed
      | some f' => some (.live f' (asked f op))
    else none

/-- Both ranges can be cut out of the content. -/
structure Sound (f : TextField) : Prop where
  selected : Valid f.content f.selectedRange
  marked : ∀ r, f.markedRange = some r → Valid f.content r

/-- The ranges are as they should be, and the selection is the one asked for. -/
def Right : View → Prop
  | .crashed => False
  | .live f request => Sound f ∧ ∀ r, request = some r → f.selectedRange = r

/-- A new value leaves the marked text where it can be cut; up to both ends of the range to select, the
first units of an inserted text take as many bytes with the text before it as without. -/
def Suits : View → Op → Prop
  | .live f _, .setValue value => ∀ r, f.markedRange = some r → Valid value r
  | .live f _, .replaceAndMarkTextInRange rangeUtf16 newText (some r) =>
    ∀ before after, cutAt f.content (targetRange f (rangeUtf16.map (rangeFromUtf16 f.content))).1 = some (before,after) →
      rangeFromUtf16 (before++newText) r = rangeFromUtf16 newText r
  | _, _ => True

section

variable {f : TextField} {range r rangeUtf16 : Option (ℕ × ℕ)} {newText cs : List Char} {i offset : ℕ} {op : Op}

theorem valid_caret (h : isBoundary cs i) : Valid cs (i,i) := ⟨le_rfl,h,h⟩

theorem Sound.moveTo (h : Sound f) (hoffset : isBoundary f.content offset) : Sound (moveTo f offset) :=
  ⟨valid_caret hoffset,h.marked⟩

theorem Sound.selectTo (h : Sound f) (hoffset : isBoundary f.content offset) : Sound (selectTo f offset) := by
  obtain ⟨-,hstart,hstop⟩ := h.selected
  unfold TextInput.selectTo
  cases f.selectionReversed with
  | true =>
    simp only [if_true]
    split_ifs with hless
    · exact ⟨⟨hless.le,hstop,hoffset⟩,h.marked⟩
    · exact ⟨⟨Nat.not_lt.mp hless,hoffset,hstop⟩,h.marked⟩
  | false =>
    simp only [Bool.false_eq_true,if_false]
    split_ifs with hless
    · exact ⟨⟨hless.le,hoffset,hstart⟩,h.marked⟩
    · exact ⟨⟨Nat.not_lt.mp hless,hstart,hoffset⟩,h.marked⟩

theorem valid_targetRange (h : Sound f) (hrange : ∀ r, range = some r → Valid f.content r) :
    Valid f.content (targetRange f range) := by
  unfold targetRange
  cases range with
  | some r => exact hrange r rfl
  | none =>
    cases hmarked : f.markedRange with
    | some r => exact h.marked r hmarked
    | none => exact h.selected

theorem valid_rangeFromUtf16 (h : r.all (inText cs)) : ∀ r', r.map (rangeFromUtf16 cs) = some r' → Valid cs r' := by
  rintro r' hr'
  obtain ⟨r,rfl,rfl⟩ := Option.map_eq_some_iff.mp hr'
  have hin : r.1 ≤ r.2 ∧ r.2 ≤ utf16Len cs := of_decide_eq_true h
  exact valid_utf16ToUtf8 cs hin.1

/-- Replacing a range keeps what is before and after it. -/
theorem exists_spliced {r : ℕ × ℕ} (h : Valid f.content r) (newText : List Char) :
    ∃ before after, spliced f r newText = some (before++newText++after) ∧ (∃ rest, f.content = before++rest) ∧
      byteLen before = r.1 := by
  obtain ⟨-,hstart,hstop⟩ := h
  obtain ⟨a,b,hab,ha⟩ := isBoundary_iff.mp hstart
  obtain ⟨c,d,hcd,hc⟩ := isBoundary_iff.mp hstop
  refine ⟨a,d,?_,⟨b,hab⟩,ha⟩
  rw [spliced,cutAt_eq_some_iff.mpr ⟨hab,ha⟩,cutAt_eq_some_iff.mpr ⟨hcd,hc⟩]
  rfl

theorem exists_replace (h : Sound f) (hrange : ∀ r, range = some r → Valid f.content r) (newText : List Char) :
    ∃ f', replace f range newText = some f' ∧ Sound f' := by
  obtain ⟨before,after,hspliced,-,hbefore⟩ := exists_spliced (valid_targetRange h hrange) newText
  rw [replace,hspliced]
  refine ⟨_,rfl,valid_caret ?_,nofun⟩
  rw [← hbefore,← byteLen_append]
  exact isBoundary_append (before++newText) after

theorem exists_replaceAndMark (h : Sound f)
    (hrange : rangeUtf16.all (inText f.content)) (newText : List Char) (newSelectedRangeUtf16 : Option (ℕ × ℕ)) :
    ∃ f' before after, replaceAndMark f rangeUtf16 newText newSelectedRangeUtf16 = some f' ∧
      (∃ rest, f.content = before++rest) ∧ f'.content = before++newText++after ∧
      byteLen before = (targetRange f (rangeUtf16.map (rangeFromUtf16 f.content))).1 ∧
      (∀ r, f'.markedRange = some r → Valid f'.content r) ∧ f'.selectedRange = match newSelectedRangeUtf16 with
        | some r => (byteLen before+utf16ToUtf8 f'.content r.1,byteLen before+utf16ToUtf8 f'.content r.2)
        | none => (byteLen before+byteLen newText,byteLen before+byteLen newText) := by
  obtain ⟨before,after,hspliced,hrest,hbefore⟩ :=
    exists_spliced (valid_targetRange h (valid_rangeFromUtf16 hrange)) newText
  rw [replaceAndMark,hspliced]
  refine ⟨_,before,after,rfl,hrest,rfl,hbefore,?_,?_⟩
  · intro r hr
    split_ifs at hr
    cases hr
    rw [← hbefore,← byteLen_append]
    refine ⟨?_,?_,isBoundary_append (before++newText) after⟩
    · rw [byteLen_append]
      exact Nat.le_add_right _ _
    · rw [List.append_assoc]
      exact isBoundary_append before (newText++after)
  · rw [hbefore]
    cases newSelectedRangeUtf16 <;> rfl

variable {graphemes : List Char → List ℕ} (hgraphemes : ∀ cs, ∀ i ∈ graphemes cs, isBoundary cs i = true)
include hgraphemes

theorem isBoundary_previousBoundary (f : TextField) (offset : ℕ) :
    isBoundary f.content (previousBoundary f graphemes offset) := by
  unfold previousBoundary
  cases hfind : (graphemes f.content).reverse.find? fun i => decide (i < offset) with
  | none => exact isBoundary_zero f.content
  | some i => exact hgraphemes f.content i (List.mem_reverse.mp (List.mem_of_find?_eq_some hfind))

theorem isBoundary_nextBoundary (f : TextField) (offset : ℕ) :
    isBoundary f.content (nextBoundary f graphemes offset) := by
  unfold nextBoundary
  cases hfind : (graphemes f.content).find? fun i => decide (i > offset) with
  | none => exact isBoundary_byteLen f.content
  | some i => exact hgraphemes f.content i (List.mem_of_find?_eq_some hfind)

theorem sound_step (h : Sound f) (hlegal : legal f op) (hset : ∀ value, op ≠ .setValue value)
    (hmark : ∀ rangeUtf16 newText r, op ≠ .replaceAndMarkTextInRange rangeUtf16 newText r) :
    ∃ f', apply f graphemes op = some f' ∧ Sound f' := by
  have hprevious := isBoundary_previousBoundary hgraphemes f
  have hnext := isBoundary_nextBoundary hgraphemes f
  have hall : Sound (selectAll f) := (h.moveTo (isBoundary_zero f.content)).selectTo (isBoundary_byteLen f.content)
  cases op with
  | left =>
    refine ⟨_,rfl,?_⟩
    unfold left
    split_ifs
    · exact h.moveTo (hprevious _)
    · exact h.moveTo h.selected.2.1
  | right =>
    refine ⟨_,rfl,?_⟩
    unfold right
    split_ifs
    · exact h.moveTo (hnext _)
    · exact h.moveTo h.selected.2.2
  | selectLeft => exact ⟨_,rfl,h.selectTo (hprevious _)⟩
  | selectRight => exact ⟨_,rfl,h.selectTo (hnext _)⟩
  | selectAll => exact ⟨_,rfl,hall⟩
  | home => exact ⟨_,rfl,h.moveTo (isBoundary_zero f.content)⟩
  | end_ => exact ⟨_,rfl,h.moveTo (isBoundary_byteLen f.content)⟩
  | backspace =>
    refine exists_replace ?_ (by nofun) []
    split_ifs
    · exact h.selectTo (hprevious _)
    · exact h
  | delete =>
    refine exists_replace ?_ (by nofun) []
    split_ifs
    · exact h.selectTo (hnext _)
    · exact h
  | paste clipboard =>
    cases clipboard with
    | none => exact ⟨f,rfl,h⟩
    | some text => exact exists_replace h (by nofun) _
  | mouseDown index shift =>
    have hpressed : Sound { f with isSelecting := true } := ⟨h.selected,h.marked⟩
    refine ⟨_,rfl,?_⟩
    split_ifs
    · exact hpressed.selectTo hlegal
    · exact hpressed.moveTo hlegal
  | mouseMove index =>
    refine ⟨_,rfl,?_⟩
    split_ifs
    · exact h.selectTo hlegal
    · exact h
  | mouseUp => exact ⟨_,rfl,h.selected,h.marked⟩
  | setValue value => exact absurd rfl (hset value)
  | selectEverything => exact ⟨_,rfl,hall⟩
  | replaceTextInRange rangeUtf16 newText => exact exists_replace h (valid_rangeFromUtf16 hlegal) newText
  | replaceAndMarkTextInRange rangeUtf16 newText r => exact absurd rfl (hmark rangeUtf16 newText r)
  | unmarkText => exact ⟨_,rfl,h.selected,nofun⟩

end

section

variable {f : TextField} {newText : List Char} {graphemes : List Char → List ℕ} {r : ℕ × ℕ}
  {rangeUtf16 newSelected request : Option (ℕ × ℕ)} {t : View}

theorem valid_asked (before after : List Char) (h : inText newText r) :
    Valid (before++newText++after) (byteLen before+utf16ToUtf8 newText r.1,byteLen before+utf16ToUtf8 newText r.2) := by
  have hin : r.1 ≤ r.2 ∧ r.2 ≤ utf16Len newText := of_decide_eq_true h
  exact ⟨Nat.add_le_add_left (utf16ToUtf8_mono newText hin.1) _,
    isBoundary_within before after (isBoundary_utf16ToUtf8 newText r.1),
    isBoundary_within before after (isBoundary_utf16ToUtf8 newText r.2)⟩

theorem right_mark_iff (h : Sound f) (hlegal : legal f (.replaceAndMarkTextInRange rangeUtf16 newText newSelected))
    (ht : step graphemes (.live f request) (.replaceAndMarkTextInRange rangeUtf16 newText newSelected) = some t) :
    Right t ↔ Suits (.live f request) (.replaceAndMarkTextInRange rangeUtf16 newText newSelected) := by
  rw [legal,Bool.and_eq_true] at hlegal
  obtain ⟨f',before,after,hf',⟨rest,hrest⟩,hcontent,hbefore,hmarked,hselected⟩ :=
    exists_replaceAndMark h hlegal.1 newText newSelected
  rw [step,if_pos (by rw [legal,Bool.and_eq_true]; exact hlegal),apply,hf'] at ht
  cases ht
  cases newSelected with
  | none =>
    refine iff_of_true ⟨⟨?_,hmarked⟩,nofun⟩ trivial
    rw [hselected,hcontent]
    refine valid_caret ?_
    rw [← byteLen_append]
    exact isBoundary_append (before++newText) after
  | some r =>
    have hsuits : Suits (.live f request) (.replaceAndMarkTextInRange rangeUtf16 newText (some r)) ↔
        rangeFromUtf16 f'.content r = rangeFromUtf16 newText r := by
      have hcut := cutAt_eq_some_iff.mpr ⟨hrest,hbefore⟩
      have hin : r.1 ≤ r.2 ∧ r.2 ≤ utf16Len newText := of_decide_eq_true hlegal.2
      have hlen : utf16Len (before++newText) = utf16Len before+utf16Len newText := by simp [utf16Len]
      have hfirst : rangeFromUtf16 f'.content r = rangeFromUtf16 (before++newText) r := by
        rw [hcontent,rangeFromUtf16,utf16ToUtf8_append _ after (by omega),utf16ToUtf8_append _ after (by omega),
          rangeFromUtf16]
      rw [hfirst]
      constructor
      · intro hall
        exact hall before rest hcut
      · intro heq before' after' hcut'
        cases hcut.symm.trans hcut'
        exact heq
    have hasked : asked f (.replaceAndMarkTextInRange rangeUtf16 newText (some r)) =
        some (byteLen before+utf16ToUtf8 newText r.1,byteLen before+utf16ToUtf8 newText r.2) := by
      rw [asked,hbefore]
    rw [hsuits,hasked]
    constructor
    · rintro ⟨-,hrequest⟩
      have heq := hselected.symm.trans (hrequest _ rfl)
      obtain ⟨hstart,hstop⟩ := Prod.mk.inj heq
      exact Prod.ext (Nat.add_left_cancel hstart) (Nat.add_left_cancel hstop)
    · intro heq
      obtain ⟨hstart,hstop⟩ := Prod.mk.inj heq
      have hrange : f'.selectedRange =
          (byteLen before+utf16ToUtf8 newText r.1,byteLen before+utf16ToUtf8 newText r.2) := by
        rw [hselected]
        dsimp only
        rw [hstart,hstop]
      refine ⟨⟨?_,hmarked⟩,?_⟩
      · rw [hrange,hcontent]
        exact valid_asked before after hlegal.2
      · rintro _ ⟨⟩
        exact hrange

theorem right_step_iff (hgraphemes : ∀ cs, ∀ i ∈ graphemes cs, isBoundary cs i)
    (v : View) (op : Op) (t : View) (hv : Right v) (ht : step graphemes v op = some t) : Right t ↔ Suits v op := by
  cases v with
  | crashed => exact hv.elim
  | live f request =>
    obtain ⟨hsound,-⟩ := hv
    by_cases hlegal : legal f op
    · by_cases hset : ∃ value, op = .setValue value
      · obtain ⟨value,rfl⟩ := hset
        cases ht
        constructor
        · exact fun h => h.1.marked
        · exact fun h => ⟨⟨valid_caret (isBoundary_byteLen value),h⟩,nofun⟩
      · by_cases hmark : ∃ rangeUtf16 newText r, op = .replaceAndMarkTextInRange rangeUtf16 newText r
        · obtain ⟨rangeUtf16,newText,r,rfl⟩ := hmark
          exact right_mark_iff hsound hlegal ht
        push Not at hset hmark
        obtain ⟨f',hf',hsound'⟩ := sound_step hgraphemes hsound hlegal hset hmark
        have hnone : asked f op = none := by
          unfold asked
          split
          · exact absurd rfl (hmark _ _ _)
          · rfl
        rw [step,if_pos hlegal,hf',hnone] at ht
        cases ht
        refine iff_of_true ⟨hsound',nofun⟩ ?_
        unfold Suits
        split
        · exact absurd rfl (hset _)
        · exact absurd rfl (hmark _ _ _)
        · trivial
    · rw [step,if_neg hlegal] at ht
      cases ht

end

/-- In every sequence of operations, whatever the initial text: the ranges stay between characters of the content,
no operation panics and every selection asked for is made, exactly if a new value is never set where it
would cut the marked text differently, and every selection asked for in an inserted text reaches as
far in bytes when it is counted from the start of the text before it. -/
theorem always_right_iff {graphemes : List Char → List ℕ} (hgraphemes : ∀ cs, ∀ i ∈ graphemes cs, isBoundary cs i = true)
    {value : List Char} {ops : List Op} {v : View}
    (h : exec (step graphemes) (.live (withValue value) none) ops = some v) :
    Always (step graphemes) Right (.live (withValue value) none) ops ↔
      Meets (step graphemes) Suits (.live (withValue value) none) ops := by
  have hinit : Right (.live (withValue value) none) :=
    ⟨⟨⟨Nat.zero_le _,isBoundary_zero value,isBoundary_byteLen value⟩,nofun⟩,nofun⟩
  have hinv : ∀ (v : View) (op : Op) (t : View), True → step graphemes v op = some t → True := fun _ _ _ _ _ => trivial
  exact always_iff_meets hinv (fun v op t _ hv ht => right_step_iff hgraphemes v op t hv ht) trivial hinit h

/-- The starts of the characters, which are those of the clusters in plain text. -/
def charStarts (cs : List Char) : List ℕ := cs.inits.dropLast.map byteLen

theorem isBoundary_charStarts (cs : List Char) : ∀ i ∈ charStarts cs, isBoundary cs i := by
  intro i hi
  obtain ⟨a,ha,rfl⟩ := List.mem_map.mp hi
  obtain ⟨b,rfl⟩ := (List.mem_inits a cs).mp (List.mem_of_mem_dropLast ha)
  exact isBoundary_append a b

/-- An input method marks `ka` over the old name, makes it one character, and that is deleted again. -/
def composed : List Op :=
  [.replaceAndMarkTextInRange none ['k','a'] (some (2,2)),.replaceTextInRange none ['か'],.backspace]

theorem always_right_composed : Always (step charStarts) Right (.live (withValue ['a','b']) none) composed := by
  have hexec : exec (step charStarts) (.live (withValue ['a','b']) none) composed =
      some (.live ⟨[],(0,0),true,none,false⟩ none) := by decide +kernel
  refine (always_right_iff isBoundary_charStarts hexec).mpr ⟨?_,fun t _ => ⟨?_,fun u _ => ⟨?_,fun _ _ => trivial⟩⟩⟩
  · intro before after hcut
    cases hcut
    rfl
  · cases t <;> trivial
  · cases u <;> trivial

/-- A selection asked for behind a character of two bytes, and a value set while text is marked; in both cases
the field crashes at the next key. -/
theorem field_crashes : exec (step charStarts) (.live (withValue ['é']) none)
      [.end_,.replaceAndMarkTextInRange none ['x'] (some (1,1))] =
        some (.live ⟨['é','x'],(4,4),false,some (2,3),false⟩ (some (3,3))) ∧
    ¬ Valid ['é','x'] (4,4) ∧
    exec (step charStarts) (.live (withValue ['é']) none)
      [.end_,.replaceAndMarkTextInRange none ['x'] (some (1,1)),.unmarkText,.backspace] = some .crashed ∧
    exec (step charStarts) (.live (withValue []) none)
      [.replaceAndMarkTextInRange none ['a','b','c'] none,.setValue [],.backspace] = some .crashed := by
  decide +kernel

end AdbShare.TextInput

import AdbShare.PathText

/-! Paths that are compared component by component: a root or none, then names and steps to the
parent. Empty pieces and single dots are no components, not even where a relative path starts with a dot. -/
namespace AdbShare

open PathText (FileName)

inductive Component
  | parentDir
  | normal (name : FileName)
  deriving DecidableEq

structure PathBuf where
  absolute : Bool
  components : List Component
  deriving DecidableEq

namespace Component

def ofPiece : Posix.Piece FileName → Option Component
  | .empty => none
  | .dot => none
  | .dotdot => some .parentDir
  | .name n => some (.normal n)

def lossy : Component → Component
  | .parentDir => .parentDir
  | .normal n => .normal n.lossy

def IsText : Component → Prop
  | .parentDir => True
  | .normal n => Utf8.validUtf8 n.bytes = true

instance : DecidablePred IsText
  | .parentDir => .isTrue trivial
  | .normal n => inferInstanceAs (Decidable (Utf8.validUtf8 n.bytes))

variable {c : Component}

theorem lossy_eq_self_iff : c.lossy = c ↔ c.IsText := by
  cases c with
  | parentDir => exact iff_of_true rfl trivial
  | normal n =>
    obtain ⟨bytes,plain⟩ := n
    simp only [lossy,FileName.lossy,IsText,normal.injEq,FileName.mk.injEq]
    exact Utf8.fromUtf8Lossy_eq_self_iff

end Component

namespace PathBuf

def root : PathBuf := ⟨true,[]⟩

def ofText (text : Bytes) : PathBuf :=
  ⟨PathText.isAbsolute text,(PathText.parse text).filterMap Component.ofPiece⟩

/-- A relative path of one name. -/
def ofName (n : FileName) : PathBuf := ⟨false,[.normal n]⟩

def join (p q : PathBuf) : PathBuf := if q.absolute then q else ⟨p.absolute,p.components++q.components⟩

def fileName (p : PathBuf) : Option FileName :=
  match p.components.getLast? with
  | some (.normal n) => some n
  | _ => none

def parent (p : PathBuf) : Option PathBuf :=
  if p.components = [] then none else some ⟨p.absolute,p.components.dropLast⟩

def toStringLossy (p : PathBuf) : PathBuf := ⟨p.absolute,p.components.map Component.lossy⟩

/-- Every name of the path is UTF-8. -/
def IsText (p : PathBuf) : Prop := ∀ c ∈ p.components, c.IsText

instance : DecidablePred IsText := fun p => inferInstanceAs (Decidable (∀ c ∈ p.components, c.IsText))

variable {p q : PathBuf} {n : FileName}

theorem toStringLossy_eq_self_iff : p.toStringLossy = p ↔ p.IsText := by
  obtain ⟨absolute,components⟩ := p
  simp only [toStringLossy,IsText,mk.injEq,true_and]
  constructor
  · intro h c hc
    exact Component.lossy_eq_self_iff.mp (List.map_inj_left.mp (h.trans components.map_id.symm) c hc)
  · intro h
    exact (List.map_congr_left fun c hc => Component.lossy_eq_self_iff.mpr (h c hc)).trans components.map_id

theorem ofText_name (n : FileName) : ofText n.bytes = ofName n := by
  simp [ofText,ofName,PathText.parse_name,PathText.isAbsolute_name,Component.ofPiece]

theorem join_ofName (p : PathBuf) (n : FileName) : p.join (ofName n) = ⟨p.absolute,p.components++[.normal n]⟩ := rfl

theorem parent_join_ofName (p : PathBuf) (n : FileName) : (p.join (ofName n)).parent = some p := by
  simp [join_ofName,parent]

/-- A path with a name is the path above it with the name joined. -/
theorem eq_join_of_fileName (h : p.fileName = some n) : ∃ q, p.parent = some q ∧ p = q.join (ofName n) := by
  obtain ⟨absolute,components⟩ := p
  obtain rfl | ⟨init,c,rfl⟩ := List.eq_nil_or_concat' components
  · cases h
  refine ⟨⟨absolute,init⟩,by simp [parent],?_⟩
  cases c with
  | parentDir => simp [fileName] at h
  | normal m => simp_all [fileName,join_ofName]

theorem eq_join_iff : p = q.join (ofName n) ↔ p.fileName = some n ∧ p.parent = some q := by
  constructor
  · rintro rfl
    exact ⟨by simp [join_ofName,fileName],parent_join_ofName q n⟩
  · rintro ⟨hname,hparent⟩
    obtain ⟨q',hq',h⟩ := eq_join_of_fileName hname
    rwa [Option.some.inj (hq'.symm.trans hparent)] at h

theorem isText_join_ofName : (p.join (ofName n)).IsText ↔ p.IsText ∧ Utf8.validUtf8 n.bytes := by
  simp [IsText,join_ofName,or_imp,forall_and,Component.IsText]

theorem IsText.parent (hp : p.IsText) (h : p.parent = some q) : q.IsText := by
  unfold PathBuf.parent at h
  split_ifs at h
  cases h
  exact fun c hc => hp c (List.dropLast_subset _ hc)

theorem IsText.fileName (hp : p.IsText) (h : p.fileName = some n) : Utf8.validUtf8 n.bytes := by
  obtain ⟨q,-,rfl⟩ := eq_join_of_fileName h
  exact (isText_join_ofName.mp hp).2

end PathBuf
end AdbShare

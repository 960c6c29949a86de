import AdbShare.Bytes

/-! Absolute paths of the mount as lists of components; the root has none. -/
namespace AdbShare

abbrev Path := List Bytes

namespace Path

def push (p : Path) (name : Bytes) : Path := p++[name]

def parent (p : Path) : Option Path := if p = [] then none else some p.dropLast

/-- `Path::starts_with` compares whole components. -/
def startsWith (p base : Path) : Bool := base.isPrefixOf p

/-- `dst.join(p.strip_prefix(src))` for a path under `src`. -/
def rebase (src dst p : Path) : Path := dst++p.drop src.length

/-- `path_to_string`: a path is sent to the device only as UTF-8 text. -/
def toText (p : Path) : Option Path := if p.all Utf8.validUtf8 then some p else none

def toTextLossy (p : Path) : Path := p.map Utf8.fromUtf8Lossy

variable {p base text src dst q : Path}

theorem startsWith_iff : p.startsWith base ↔ base <+: p := List.isPrefixOf_iff_prefix

theorem rebase_append (src dst rel : Path) : rebase src dst (src++rel) = dst++rel := by
  simp [rebase]

theorem toText_eq (h : toText p = some text) : text = p := by
  unfold toText at h
  split_ifs at h
  exact (Option.some.inj h).symm

theorem toTextLossy_of_toText (h : toText p = some text) : p.toTextLossy = p := by
  unfold toText at h
  split_ifs at h with hvalid
  have hname : ∀ name ∈ p, Utf8.fromUtf8Lossy name = id name :=
    fun name hname => Utf8.fromUtf8Lossy_of_valid (List.all_eq_true.mp hvalid name hname)
  rw [toTextLossy,List.map_congr_left hname,List.map_id]

/-- Paths under `src` keep their places relative to it. -/
theorem rebase_inj (hp : src <+: p) (hq : src <+: q) (h : rebase src dst p = rebase src dst q) : p = q := by
  obtain ⟨r,rfl⟩ := hp
  obtain ⟨r',rfl⟩ := hq
  simpa [rebase_append] using h

theorem push_ne_nil (p : Path) (name : Bytes) : p.push name ≠ [] := by simp [push]

end Path
end AdbShare

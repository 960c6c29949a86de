import Mathlib.Tactic

/-! Addresses of the form `host:port`, as the daemon takes them and as the dialog checks them first. -/
namespace AdbShare.HostPort

abbrev Text := List Char

def rsplitOnce (sep : Char) : Text → Option (Text × Text)
  | [] => none
  | c::cs => match rsplitOnce sep cs with
    | some (a,b) => some (c::a,b)
    | none => if c = sep then some ([],cs) else none

def stripSuffix (c : Char) (s : Text) : Option Text := if s.getLast? = some c then some s.dropLast else none

/-- Decimal digits of a number that is not zero and fits 16 bits. -/
def isPort (port : Text) : Bool :=
  let value := port.foldl (fun n c => 10*n+(c.toNat-48)) 0
  port ≠ [] && port.all Char.isDigit && 0 < value && value < 2^16

def isPlain (host : Text) : Bool := host ≠ [] && '[' ∉ host && ']' ∉ host

def isHexDigit (c : Char) : Bool := c.isDigit || 'a' ≤ c && c ≤ 'f' || 'A' ≤ c && c ≤ 'F'

/-- The host within its brackets; empty if one of them is missing. -/
def bareHost : Text → Text
  | '['::host => (stripSuffix ']' host).getD []
  | host => if host.getLast? = some ']' then [] else host

def validateHostPort (address : Text) : Bool :=
  (rsplitOnce ':' address).any fun (host,port) => isPort port && isPlain (bareHost host) &&
    (bareHost host).all fun c => c.isAlphanum || c ∈ ['.','-','_',':','%']

def addressIsWellFormed (address : Text) : Bool :=
  (rsplitOnce ':' address).any fun (host,port) => isPort port && host ≠ [] &&
    if host.head? = some '[' || host.getLast? = some ']' then
      match host with
      | '['::host => (stripSuffix ']' host).any isPlain
      | _ => false
    else if ':' ∈ host then host.count ':' ≤ 4 && host.all fun c => isHexDigit c || c ∈ [':','%']
    else host.all fun c => c.isAlphanum || c ∈ ['.','-','_','%']

/-- The host is in brackets, or has no colon, or looks like a short IPv6 literal. -/
def Familiar (host : Text) : Prop :=
  host.head? = some '[' ∨ ':' ∉ host ∨ host.count ':' ≤ 4 ∧ host.all fun c => isHexDigit c || c ∈ [':','%']

section

variable {address host port : Text}

theorem bareHost_eq (hbracket : host.head? ≠ some '[') (h : isPlain (bareHost host)) :
    bareHost host = host ∧ host.getLast? ≠ some ']' := by
  unfold bareHost at h ⊢
  split at h
  · exact absurd rfl hbracket
  · split at h <;> simp_all [isPlain]

theorem accepted_iff_familiar (hsplit : rsplitOnce ':' address = some (host,port))
    (h : validateHostPort address = true) : addressIsWellFormed address = true ↔ Familiar host := by
  simp only [validateHostPort,addressIsWellFormed,hsplit,Option.any_some,Bool.and_eq_true] at h ⊢
  obtain ⟨⟨hport,hplain⟩,hall⟩ := h
  by_cases hbracket : host.head? = some '['
  · obtain ⟨inner,rfl⟩ : ∃ inner, host = '['::inner := by
      cases host <;> simp_all
    cases hstrip : stripSuffix ']' inner <;> simp_all [bareHost,Familiar,isPlain]
  · obtain ⟨heq,hlast⟩ := bareHost_eq hbracket hplain
    rw [heq] at hplain hall
    have hne : host ≠ [] := by
      rintro rfl
      cases hplain
    by_cases hcolon : ':' ∈ host
    · simp [hport,hne,hbracket,hlast,hcolon,Familiar]
    · have hchars : ∀ c ∈ host, c ≠ ':' := fun c hc heq => hcolon (heq ▸ hc)
      simp_all [Familiar]

end

theorem accepted_iff_familiar_literal : validateHostPort "[2001:db8::1]:5555".toList = true ∧
    (addressIsWellFormed "[2001:db8::1]:5555".toList = true ↔ Familiar "[2001:db8::1]".toList) :=
  ⟨by decide,accepted_iff_familiar rfl (by decide)⟩

/-- An IPv6 address written out in full. -/
theorem long_literal_blocked : validateHostPort "2001:db8:1:2:3:4:5:6:5555".toList = true ∧
    addressIsWellFormed "2001:db8:1:2:3:4:5:6:5555".toList = false := by
  decide

end AdbShare.HostPort

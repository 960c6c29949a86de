import Mathlib.Algebra.Module.NatInt
import Mathlib.Tactic

/-! Double and add: the multiple of an element by a number that is given as its bits, lowest
first. -/
namespace AdbShare.Ladder

variable {G : Type} [AddCommMonoid G]

/-- The number that the bits stand for. -/
def value : List Bool → ℕ
  | [] => 0
  | b::bs => b.toNat+2*value bs

/-- One rung: the sum takes the addend when the bit is set, and the addend doubles. -/
def rung (s : G × G) (bit : Bool) : G × G := (if bit then s.1+s.2 else s.1,s.2+s.2)

theorem foldl_rung (bits : List Bool) (sum addend : G) :
    bits.foldl rung (sum,addend) = (sum+value bits•addend,2^bits.length•addend) := by
  induction bits generalizing sum addend with
  | nil => simp [value]
  | cons b bs ih =>
    have hdouble : addend+addend = 2•addend := (two_nsmul addend).symm
    rw [List.foldl_cons,rung,ih,hdouble]
    cases b with
    | false => simp [value,smul_smul,mul_comm,pow_succ]
    | true => simp [value,smul_smul,mul_comm,pow_succ,add_smul,add_assoc]

end AdbShare.Ladder

import Mathlib.Algebra.Group.Int.Defs
import Mathlib.Algebra.Group.Nat.Defs

/-!
# Serial Numbers

A protocol counts without bound and sends the numbers modulo `2 ^ (w + 1)`. Two numbers that
are less than half of that apart are compared by the sign of their difference, and numbers that
are less than all of it apart are different if they are different modulo `2 ^ (w + 1)`.

## Main results

- `toInt_sub_ofNat`: the difference of two numbers that are close is the signed one.
- `ofNat_inj_of_close`: numbers that are close are told apart.
- `toInt_add_ofInt`: a signed difference that does not wrap around.
-/

namespace Evlite.Lib.Serial

variable {w a b : Nat}

/-- The difference of two numbers that are close is the signed one. -/
theorem toInt_sub_ofNat (hlow : b ≤ a + 2 ^ w) (hhigh : a < b + 2 ^ w) :
    (BitVec.ofNat (w + 1) a - BitVec.ofNat (w + 1) b).toInt = (a : Int) - b := by
  rw [BitVec.toInt_sub, BitVec.toInt_ofNat', BitVec.toInt_ofNat', Int.bmod_sub_bmod,
    Int.sub_bmod_bmod]
  have hpow : 2 ^ (w + 1) = 2 * 2 ^ w := Nat.pow_succ'
  apply Int.bmod_eq_of_le_mul_two <;> omega

/-- Numbers that are close are told apart. -/
theorem ofNat_inj_of_close (hlow : b < a + 2 ^ w) (hhigh : a < b + 2 ^ w)
    (h : BitVec.ofNat w a = BitVec.ofNat w b) : a = b := by
  have hmod : a % 2 ^ w = b % 2 ^ w := by
    have htoNat := congrArg BitVec.toNat h
    rwa [BitVec.toNat_ofNat, BitVec.toNat_ofNat] at htoNat
  have ha := Nat.div_add_mod a (2 ^ w)
  have hb := Nat.div_add_mod b (2 ^ w)
  rcases Nat.lt_trichotomy (a / 2 ^ w) (b / 2 ^ w) with hlt | heq | hlt
  · have hstep := Nat.mul_le_mul_left (2 ^ w) hlt
    rw [Nat.mul_succ] at hstep
    omega
  · rw [heq] at ha
    omega
  · have hstep := Nat.mul_le_mul_left (2 ^ w) hlt
    rw [Nat.mul_succ] at hstep
    omega

/-- A signed difference that does not wrap around. -/
theorem toInt_add_ofInt {x : BitVec (w + 1)} {k : Int} (hlow : -2 ^ w ≤ x.toInt + k)
    (hhigh : x.toInt + k < 2 ^ w) : (x + BitVec.ofInt (w + 1) k).toInt = x.toInt + k := by
  rw [BitVec.toInt_add, BitVec.toInt_ofInt, Int.add_bmod_bmod]
  have hpow : 2 ^ (w + 1) = 2 * 2 ^ w := Nat.pow_succ'
  have hcast : ((2 ^ w : Nat) : Int) = 2 ^ w := Int.natCast_pow 2 w
  apply Int.bmod_eq_of_le_mul_two <;> omega

/-- The difference the other way around, unless it is the smallest one. -/
theorem toInt_sub_swap {x y : BitVec (w + 1)} (h : -2 ^ w < (x - y).toInt) :
    (y - x).toInt = -(x - y).toInt := by
  have hneg : y - x = -(x - y) := by
    rw [BitVec.neg_sub, BitVec.add_comm, BitVec.sub_eq_add_neg]
  rw [hneg, BitVec.toInt_neg]
  have hpow : 2 ^ (w + 1) = 2 * 2 ^ w := Nat.pow_succ'
  have hcast : ((2 ^ w : Nat) : Int) = 2 ^ w := Int.natCast_pow 2 w
  have hlt := (x - y).two_mul_toInt_lt
  apply Int.bmod_eq_of_le_mul_two <;> omega

end Evlite.Lib.Serial

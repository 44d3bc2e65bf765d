import Mathlib.Data.Int.ModEq
import Funge.Proofs.Arithmetic
import Funge.Proofs.Faultless

namespace Funge.Operator

-- Of all integers congruent to n just one is a number, and that is n reduced to 64 bits.
theorem residue_unique {v : Number} {n : Int} :
    v.toInt ≡ n [ZMOD Int64.size] ↔ v.toInt = n.bmod Int64.size := by
  have own : v.toInt.bmod Int64.size = v.toInt := Int64.toInt_bmod_size v
  constructor
  · intro congruent
    rw [← own,← Int.emod_bmod,congruent,Int.emod_bmod]
  · intro reduced
    rw [reduced]
    exact Int.bmod_emod

theorem apply_residue (op : Operator) (a b v : Number) :
    v = op.apply a b ↔ v.toInt ≡ op.ideal a.toInt b.toInt [ZMOD Int64.size] := by
  rw [residue_unique,← toInt_apply,Int64.toInt_inj]

theorem residue_apply (op : Operator) (a b : Number) :
    (op.apply a b).toInt ≡ op.ideal a.toInt b.toInt [ZMOD Int64.size] := (apply_residue op a b _).mp rfl

section Nonzero
variable (a : Number) {b : Number} (nonzero : b ≠ 0)
include nonzero

theorem ideal_divide : divide.ideal a.toInt b.toInt = a.toInt.tdiv b.toInt :=
  if_neg fun zero => nonzero (number_zero.mpr zero)

theorem toInt_divide : (divide.apply a b).toInt =
    if a = Int64.minValue ∧ b = -1 then Int64.minValue.toInt else a.toInt.tdiv b.toInt := by
  rw [apply,if_neg nonzero]
  by_cases least : a = Int64.minValue
  · by_cases minus : b = -1
    · rw [if_pos ⟨least,minus⟩,least,minus,Int64.minValue_div_neg_one]
    · rw [if_neg fun both => minus both.2]
      exact Int64.toInt_div_of_ne_right a b minus
  · rw [if_neg fun both => least both.1]
    exact Int64.toInt_div_of_ne_left a b least

theorem toInt_modulo : (modulo.apply a b).toInt = a.toInt.tmod b.toInt := by
  rw [apply,if_neg nonzero,Int64.toInt_mod]

theorem modulo_small : (modulo.apply a b).toInt.natAbs < b.toInt.natAbs := by
  have some : b.toInt ≠ 0 := fun zero => nonzero (number_zero.mpr zero)
  rw [toInt_modulo a nonzero,Int.natAbs_tmod]
  exact Nat.mod_lt _ (Int.natAbs_pos.mpr some)

theorem modulo_sign : modulo.apply a b = 0 ∨ (modulo.apply a b).toInt.sign = a.toInt.sign := by
  rw [number_zero,toInt_modulo a nonzero,Int.sign_tmod]
  by_cases divides : b.toInt ∣ a.toInt
  · exact .inl (Int.tmod_eq_zero_of_dvd divides)
  · exact .inr (if_neg divides)

theorem divide_modulo : add.apply (multiply.apply (divide.apply a b) b) (modulo.apply a b) = a := by
  symm
  -- The sum is compared as a residue, so the quotient need not fit.
  rw [apply_residue]
  have quotient : (divide.apply a b).toInt ≡ a.toInt.tdiv b.toInt [ZMOD Int64.size] := by
    rw [← ideal_divide a nonzero]
    exact residue_apply ..
  have product : (multiply.apply (divide.apply a b) b).toInt ≡ a.toInt.tdiv b.toInt * b.toInt [ZMOD Int64.size] :=
    (residue_apply ..).trans (quotient.mul_right _)
  have sum := product.add_right (modulo.apply a b).toInt
  rw [toInt_modulo a nonzero,Int.tdiv_mul_add_tmod] at sum
  rw [ideal,toInt_modulo a nonzero]
  exact sum.symm

end Nonzero

-- Sums, differences and products are right up to multiples of 2^64, quotients but for one,
-- remainders always. Dividing by zero gives zero, and leaves zero.
theorem apply_exact (a b : Number) :
    (∀ v : Number, v = add.apply a b ↔ v.toInt ≡ a.toInt + b.toInt [ZMOD Int64.size]) ∧
    (∀ v : Number, v = subtract.apply a b ↔ v.toInt ≡ a.toInt - b.toInt [ZMOD Int64.size]) ∧
    (∀ v : Number, v = multiply.apply a b ↔ v.toInt ≡ a.toInt * b.toInt [ZMOD Int64.size]) ∧
    (b ≠ 0 →
      let quotient := divide.apply a b
      let remainder := modulo.apply a b
      quotient.toInt = (if a = Int64.minValue ∧ b = -1 then Int64.minValue.toInt else a.toInt.tdiv b.toInt) ∧
      (remainder.toInt.natAbs < b.toInt.natAbs ∧ (remainder = 0 ∨ remainder.toInt.sign = a.toInt.sign) ∧
        b.toInt ∣ a.toInt - remainder.toInt) ∧
      add.apply (multiply.apply quotient b) remainder = a) ∧
    (b = 0 → divide.apply a b = 0 ∧ modulo.apply a b = 0) ∧
    ∀ op : Operator, Checked.apply op a b = .ok (op.apply a b) := by
  refine ⟨apply_residue add a b,apply_residue subtract a b,apply_residue multiply a b,?_,?_,?_⟩
  · intro nonzero quotient remainder
    refine ⟨toInt_divide a nonzero,⟨modulo_small a nonzero,modulo_sign a nonzero,?_⟩,divide_modulo a nonzero⟩
    rw [toInt_modulo a nonzero]
    exact Int.dvd_self_sub_tmod
  · intro zero
    exact ⟨if_pos zero,if_pos zero⟩
  · intro op
    exact Checked.apply_ok op a b

theorem apply_exact_least :
    (-1 : Number) ≠ 0 ∧ divide.apply Int64.minValue (-1) = Int64.minValue ∧
      add.apply (multiply.apply (divide.apply Int64.minValue (-1)) (-1)) (modulo.apply Int64.minValue (-1)) =
        Int64.minValue ∧
      (divide.apply Int64.minValue 0 = 0 ∧ modulo.apply Int64.minValue 0 = 0) := by
  obtain ⟨_,_,_,nonzero,_⟩ := apply_exact Int64.minValue (-1)
  obtain ⟨quotient,_,identity⟩ := nonzero (by decide)
  obtain ⟨_,_,_,_,zero,_⟩ := apply_exact Int64.minValue 0
  exact ⟨by decide,Int64.toInt_inj.mp (quotient.trans (if_pos ⟨rfl,rfl⟩)),identity,zero rfl⟩

end Funge.Operator

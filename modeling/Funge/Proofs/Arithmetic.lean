import Funge.Operator

namespace Funge

-- What an operator means among the integers. Division by zero is taken to give zero, and
-- so is the remainder.
def Operator.ideal : Operator → Int → Int → Int
  | .add, a, b => a + b
  | .subtract, a, b => a - b
  | .multiply, a, b => a * b
  | .divide, a, b => if b = 0 then 0 else a.tdiv b
  | .modulo, a, b => if b = 0 then 0 else a.tmod b

theorem number_zero {v : Number} : v = 0 ↔ v.toInt = 0 := Int64.toInt_inj.symm

theorem Operator.toInt_apply (op : Operator) (a b : Number) :
    (op.apply a b).toInt = (op.ideal a.toInt b.toInt).bmod Int64.size := by
  cases op with
  | add => exact Int64.toInt_add a b
  | subtract => exact Int64.toInt_sub a b
  | multiply => exact Int64.toInt_mul a b
  | divide =>
    unfold apply ideal
    simp only [number_zero]
    split
    · rfl
    · exact Int64.toInt_div a b
  | modulo =>
    unfold apply ideal
    simp only [number_zero]
    split
    · rfl
    · rw [← Int64.toInt_mod,Int64.toInt_bmod_size]

theorem Number.toInt_flag (holds : Bool) : (flag holds).toInt = if holds then 1 else 0 := by
  cases holds <;> rfl

end Funge

import Funge.Number

namespace Funge

def code (c : Char) : Number := Int64.ofNat c.toNat

-- Back from a number. Surrogates, negative numbers and everything past U+10FFFF
-- are no characters and read as the replacement character U+FFFD.
def glyph (v : Number) : Char :=
  if 0 ≤ v ∧ v.toInt.toNat.isValidChar then Char.ofNat v.toInt.toNat else '\uFFFD'

def Scalar (v : Number) : Prop := (0 ≤ v ∧ v < 0xD800) ∨ (0xDFFF < v ∧ v ≤ 0x10FFFF)

instance (v : Number) : Decidable (Scalar v) := inferInstanceAs (Decidable (_ ∨ _))

theorem scalar_exact (v : Number) : Scalar v ↔ 0 ≤ v ∧ v.toInt.toNat.isValidChar := by
  have zero : (0 : Int64).toInt = 0 := rfl
  have low : (0xD800 : Int64).toInt = 0xD800 := rfl
  have high : (0xDFFF : Int64).toInt = 0xDFFF := rfl
  have last : (0x10FFFF : Int64).toInt = 0x10FFFF := rfl
  unfold Scalar Nat.isValidChar
  rw [Int64.le_iff_toInt_le,Int64.lt_iff_toInt_lt,Int64.lt_iff_toInt_lt,Int64.le_iff_toInt_le]
  omega

theorem toNat_ofNat {n : Nat} (valid : n.isValidChar) : (Char.ofNat n).toNat = n := by
  unfold Char.ofNat
  rw [dif_pos valid]
  rfl

theorem code_glyph (v : Number) : code (glyph v) = if Scalar v then v else 0xFFFD := by
  unfold glyph
  by_cases scalar : Scalar v
  · have natural : 0 ≤ v.toInt := Int64.le_iff_toInt_le.mp ((scalar_exact v).mp scalar).1
    have valid := ((scalar_exact v).mp scalar).2
    rw [if_pos scalar,if_pos ((scalar_exact v).mp scalar),code,toNat_ofNat valid]
    rw [← Int64.ofInt_eq_ofNat,Int.toNat_of_nonneg natural,Int64.ofInt_toInt]
  · rw [if_neg scalar,if_neg fun valid => scalar ((scalar_exact v).mpr valid)]
    rfl

theorem glyph_code (c : Char) : glyph (code c) = c := by
  have valid : c.toNat.isValidChar := c.valid
  have value : (code c).toInt = c.toNat := Int64.toInt_ofNat_of_lt (by unfold Nat.isValidChar at valid; omega)
  have natural : 0 ≤ code c := by
    rw [Int64.le_iff_toInt_le,value]
    exact Int.natCast_nonneg c.toNat
  rw [glyph,value,Int.toNat_natCast,if_pos ⟨natural,valid⟩,Char.ofNat_toNat]

end Funge
